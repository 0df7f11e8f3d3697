import H2kvm.Core.ValidationRedaction

namespace H2kvm.Core.Validation

variable {texts : Texts} {safety : Safety} {tokens : List String}

mutual

/-- Two results that differ only in values under keys that a token occurs in. -/
inductive Alike (texts : Texts) (tokens : List String) : Obj → Obj → Prop
  | scalar (text : String) : Alike texts tokens (.scalar text) (.scalar text)
  | str (text : String) : Alike texts tokens (.str text) (.str text)
  | list {xs ys : List Obj} : AlikeAll texts tokens xs ys → Alike texts tokens (.list xs) (.list ys)
  | tuple {xs ys : List Obj} : AlikeAll texts tokens xs ys → Alike texts tokens (.tuple xs) (.tuple ys)
  | named (cls : String) (fields : List String) (defaults : List Obj) {xs ys : List Obj} :
    AlikeAll texts tokens xs ys → Alike texts tokens (.named cls fields defaults xs) (.named cls fields defaults ys)
  | dict {xs ys : List (Key × Obj)} : AlikeEntries texts tokens xs ys → Alike texts tokens (.dict xs) (.dict ys)

inductive AlikeAll (texts : Texts) (tokens : List String) : List Obj → List Obj → Prop
  | nil : AlikeAll texts tokens [] []
  | cons {x y : Obj} {xs ys : List Obj} :
    Alike texts tokens x y → AlikeAll texts tokens xs ys → AlikeAll texts tokens (x :: xs) (y :: ys)

inductive AlikeEntries (texts : Texts) (tokens : List String) : List (Key × Obj) → List (Key × Obj) → Prop
  | nil : AlikeEntries texts tokens [] []
  | secret {key : Key} (x y : Obj) {xs ys : List (Key × Obj)} : redacts texts tokens key = true →
    AlikeEntries texts tokens xs ys → AlikeEntries texts tokens ((key, x) :: xs) ((key, y) :: ys)
  | plain {key : Key} {x y : Obj} {xs ys : List (Key × Obj)} : redacts texts tokens key = false → Alike texts tokens x y →
    AlikeEntries texts tokens xs ys → AlikeEntries texts tokens ((key, x) :: xs) ((key, y) :: ys)

end

/-- The class of a named tuple can be called with one argument. -/
def Callable (fields : List String) (defaults : List Obj) : Prop := fields ≠ [] ∧ fields.length ≤ defaults.length + 1

instance {fields : List String} {defaults : List Obj} : Decidable (Callable fields defaults) :=
  inferInstanceAs (Decidable (_ ∧ _))

section Agreement

variable (texts : Texts) (safety : Safety) (tokens : List String) (a b : Nat)

/-- A named tuple with a generator for its first field. -/
def generated (address : Nat) (cls : String) (fields : List String) (defaults : List Obj) : Obj :=
  .named cls fields defaults (.generator address :: defaults.drop (defaults.length + 1 - fields.length))

mutual

/-- The text of a result with its secrets masked, those of named tuples apart. -/
def masked (address : Nat) : Obj → String
  | .scalar text => text
  | .str text => texts.quote text
  | .list items => "[" ++ ", ".intercalate (maskedAll address items) ++ "]"
  | .tuple items => "(" ++ ", ".intercalate (maskedAll address items) ++ (if items.length = 1 then ",)" else ")")
  | .named cls fields defaults items =>
    if Callable fields defaults then (generated address cls fields defaults).repr texts
    else (Obj.named cls fields defaults items).repr texts
  | .dict entries => "\x7b" ++ ", ".intercalate (maskedEntries address entries) ++ "\x7d"
  | .generator address => (Obj.generator address).repr texts

def maskedAll (address : Nat) : List Obj → List String
  | [] => []
  | x :: xs => masked address x :: maskedAll address xs

def maskedEntries (address : Nat) : List (Key × Obj) → List String
  | [] => []
  | (key, x) :: entries =>
    (key.repr texts ++ ": " ++ if redacts texts tokens key then texts.quote "***REDACTED***" else masked address x) ::
      maskedEntries address entries

end

mutual

/-- Not all of a result is shown, at a depth. -/
def clipped (depth : Nat) (x : Obj) : Bool :=
  if safety.maxDepth ≤ depth then true
  else match x with
    | .scalar _ | .generator _ => false
    | .str text => safety.maxStringLen < text.toList.length
    | .list items | .tuple items =>
      exceeds safety.maxListItems items.length || clippedAll (depth + 1) (shows safety.maxListItems items.length) items
    | .named _ fields defaults _ =>
      if Callable fields defaults then
        let shown := shows safety.maxListItems fields.length
        exceeds safety.maxListItems fields.length || (shrinkAll texts safety (depth + 1) shown
          (.generator 0 :: defaults.drop (defaults.length + 1 - fields.length))).2
      else true
    | .dict entries =>
      exceeds safety.maxDictItems entries.length ||
        clippedEntries (depth + 1) (shows safety.maxDictItems entries.length) entries

def clippedAll (depth : Nat) : (kept : Nat) → List Obj → Bool
  | kept + 1, x :: xs => clipped depth x || clippedAll depth kept xs
  | _, _ => false

def clippedEntries (depth : Nat) : (kept : Nat) → List (Key × Obj) → Bool
  | kept + 1, (key, x) :: entries =>
    (if redacts texts tokens key then safety.maxDepth ≤ depth || safety.maxStringLen < 14 else clipped depth x) ||
      clippedEntries depth kept entries
  | _, _ => false

end

/-- The key of the mark of a truncated dict. -/
def markKey : Key := .str "_truncated_dict_items"

mutual

/-- In two results that are alike, and runs whose generators are at two addresses, the same is shown of what is too deep and
of each named tuple that is reached. Nothing is shown of a value in the place of the mark of a truncated dict. -/
def Agree (depth : Nat) (x y : Obj) : Prop :=
  if safety.maxDepth ≤ depth then cut 200 (masked texts tokens a x) = cut 200 (masked texts tokens b y)
  else match x, y with
    | .list xs, .list ys => AgreeAll (depth + 1) (shows safety.maxListItems xs.length) xs ys
    | .tuple xs, .tuple ys => AgreeAll (depth + 1) (shows safety.maxListItems xs.length) xs ys
    | .named cls fields defaults xs, .named _ _ _ ys =>
      if Callable fields defaults then
        shows safety.maxListItems fields.length = 0 ∨
          if safety.maxDepth ≤ depth + 1 then hint texts (.generator a) = hint texts (.generator b) else a = b
      else hint texts (.named cls fields defaults xs) = hint texts (.named cls fields defaults ys)
    | .dict xs, .dict ys =>
      let marked := clipped texts safety tokens depth (.dict xs)
      AgreeEntries (depth + 1) marked (shows safety.maxDictItems xs.length) xs ys
    | _, _ => True

def AgreeAll (depth : Nat) : (kept : Nat) → List Obj → List Obj → Prop
  | kept + 1, x :: xs, y :: ys => Agree depth x y ∧ AgreeAll depth kept xs ys
  | _, _, _ => True

def AgreeEntries (depth : Nat) (marked : Bool) : (kept : Nat) → List (Key × Obj) → List (Key × Obj) → Prop
  | kept + 1, (key, x) :: xs, (_, y) :: ys =>
    (redacts texts tokens key = true ∨ marked = true ∧ key = markKey ∨ Agree depth x y) ∧
      AgreeEntries depth marked kept xs ys
  | _, _, _ => True

end

end Agreement

variable {a b : Nat}

theorem shrinkObj_deep {depth : Nat} (deep : safety.maxDepth ≤ depth) (x : Obj) :
    shrinkObj texts safety depth x = (truncatedHint texts x, true) := by
  unfold shrinkObj
  rw [if_pos deep]

theorem truncatedHint_inj {x y : Obj} : truncatedHint texts x = truncatedHint texts y ↔ hint texts x = hint texts y := by
  simp [truncatedHint]

/-- Setting a key in two dicts with the same keys hides what was there. -/
theorem setKey_eq_iff {key : Key} {value : Obj} {xs ys : List (Key × Obj)} (keys : xs.map Prod.fst = ys.map Prod.fst) :
    setKey key value xs = setKey key value ys ↔ List.Forall₂ (fun x y => x.1 = key ∨ x = y) xs ys := by
  have each : ∀ l : List (Key × Obj), l.any (·.1 == key) = (l.map Prod.fst).any (· == key) := fun l => by
    rw [List.any_map]
    rfl
  have present : xs.any (·.1 == key) = ys.any (·.1 == key) := by rw [each, each, keys]
  unfold setKey
  rw [← present]
  clear present
  split
  · next found =>
    clear found
    induction xs generalizing ys with
    | nil =>
      obtain rfl : ys = [] := List.map_eq_nil_iff.mp keys.symm
      simp
    | cons x xs ih =>
      cases ys with
      | nil => cases keys
      | cons y ys =>
        rw [List.map_cons, List.map_cons, List.cons.injEq] at keys
        rw [List.map_cons, List.map_cons, List.cons.injEq, List.forall₂_cons]
        refine and_congr ?_ (ih keys.2)
        rw [← keys.1]
        by_cases mine : x.1 = key <;> simp [mine]
  · next absent =>
    rw [List.append_left_inj]
    induction xs generalizing ys with
    | nil =>
      obtain rfl : ys = [] := List.map_eq_nil_iff.mp keys.symm
      simp
    | cons x xs ih =>
      cases ys with
      | nil => cases keys
      | cons y ys =>
        rw [List.map_cons, List.map_cons, List.cons.injEq] at keys
        simp only [List.any_cons, Bool.or_eq_true, beq_iff_eq, not_or] at absent
        rw [List.cons.injEq, List.forall₂_cons, or_iff_right absent.1]
        exact and_congr Iff.rfl (ih keys.2 (by simpa using absent.2))

theorem length_redactAll (xs : List Obj) : (redactAll texts tokens a xs).length = xs.length := by
  induction xs with
  | nil => rfl
  | cons x xs ih => rw [redactAll, List.length_cons, List.length_cons, ih]

theorem length_redactEntries (xs : List (Key × Obj)) : (redactEntries texts tokens a xs).length = xs.length := by
  induction xs with
  | nil => rfl
  | cons x xs ih => rw [redactEntries, List.length_cons, List.length_cons, ih]

theorem AlikeAll.length_eq : ∀ {xs ys : List Obj}, AlikeAll texts tokens xs ys → xs.length = ys.length
  | _, _, .nil => rfl
  | _, _, .cons _ others => congrArg (· + 1) others.length_eq

theorem AlikeEntries.length_eq : ∀ {xs ys : List (Key × Obj)}, AlikeEntries texts tokens xs ys → xs.length = ys.length
  | _, _, .nil => rfl
  | _, _, .secret _ _ _ others => congrArg (· + 1) others.length_eq
  | _, _, .plain _ _ others => congrArg (· + 1) others.length_eq

theorem markSeq_alike (beyond : Bool) {s t : List Obj × Bool} (flag : s.2 = t.2) :
    (markSeq beyond s).2 = (markSeq beyond t).2 ∧ ((markSeq beyond s).1 = (markSeq beyond t).1 ↔ s.1 = t.1) := by
  unfold markSeq
  rw [flag]
  split
  · exact ⟨rfl, List.append_left_inj _⟩
  · exact ⟨rfl, Iff.rfl⟩

theorem markDict_alike (beyond : Bool) {s t : List (Key × Obj) × Bool} (flag : s.2 = t.2)
    (keys : s.1.map Prod.fst = t.1.map Prod.fst) :
    (markDict beyond s).2 = (markDict beyond t).2 ∧ ((markDict beyond s).1 = (markDict beyond t).1 ↔
      List.Forall₂ (fun x y => (markDict beyond s).2 = true ∧ x.1 = markKey ∨ x = y) s.1 t.1) := by
  unfold markDict
  rw [flag]
  split
  · simpa [markKey] using setKey_eq_iff keys
  · simp

/-- A value that is shrunk the same way in both runs. -/
theorem shrink_same {depth : Nat} {x y : Obj} {P : Prop} (same : redactInObj texts tokens a x = redactInObj texts tokens b y)
    (agrees : P) :
    (shrinkObj texts safety depth (redactInObj texts tokens a x)).2 =
      (shrinkObj texts safety depth (redactInObj texts tokens b y)).2 ∧
    ((shrinkObj texts safety depth (redactInObj texts tokens a x)).1 =
      (shrinkObj texts safety depth (redactInObj texts tokens b y)).1 ↔ P) := by
  rw [same]
  exact ⟨rfl, iff_of_true rfl agrees⟩

/-- A value that is too deep. -/
theorem shrink_deep {depth : Nat} (deep : safety.maxDepth ≤ depth) (x y : Obj) :
    (shrinkObj texts safety depth x).2 = (shrinkObj texts safety depth y).2 ∧
    ((shrinkObj texts safety depth x).1 = (shrinkObj texts safety depth y).1 ↔ hint texts x = hint texts y) := by
  rw [shrinkObj_deep deep, shrinkObj_deep deep]
  exact ⟨rfl, truncatedHint_inj⟩

variable (texts safety a b) in
theorem shrink_generator (depth : Nat) :
    (shrinkObj texts safety depth (.generator a)).2 = (shrinkObj texts safety depth (.generator b)).2 ∧
    ((shrinkObj texts safety depth (.generator a)).1 = (shrinkObj texts safety depth (.generator b)).1 ↔
      if safety.maxDepth ≤ depth then hint texts (.generator a) = hint texts (.generator b) else a = b) := by
  split
  · next deep => exact shrink_deep deep _ _
  · next reached =>
    unfold shrinkObj
    simp [if_neg reached]

section Named

variable {cls : String} {fields : List String} {defaults : List Obj}

theorem construct_eq_none (fixed : ¬ Callable fields defaults) (x : Obj) : construct cls fields defaults x = none :=
  if_neg fixed

theorem construct_eq_some (callable : Callable fields defaults) (x : Obj) : construct cls fields defaults x =
    some (.named cls fields defaults (x :: defaults.drop (defaults.length + 1 - fields.length))) := if_pos callable

theorem length_constructed (callable : Callable fields defaults) (x : Obj) :
    (x :: defaults.drop (defaults.length + 1 - fields.length)).length = fields.length := by
  have some_fields : fields.length ≠ 0 := fun none => callable.1 (List.length_eq_zero_iff.mp none)
  have := callable.2
  rw [List.length_cons, List.length_drop]
  omega

/-- A named tuple whose class cannot be called with one argument is shown by its hint. -/
theorem shrink_fixed {depth : Nat} (reached : ¬ safety.maxDepth ≤ depth) (fixed : ¬ Callable fields defaults)
    (xs : List Obj) : shrinkObj texts safety depth (redactInObj texts tokens a (.named cls fields defaults xs)) =
      (truncatedHint texts (.named cls fields defaults xs), true) := by
  rw [redactInObj, construct_eq_none fixed, Option.getD_none]
  unfold shrinkObj
  simp only [if_neg reached, remake, construct_eq_none fixed]

/-- One whose class can is shown by its generator. -/
theorem shrink_callable {depth : Nat} (reached : ¬ safety.maxDepth ≤ depth) (callable : Callable fields defaults)
    (xs ys : List Obj) :
    (shrinkObj texts safety depth (redactInObj texts tokens a (.named cls fields defaults xs))).2 =
      (shrinkObj texts safety depth (redactInObj texts tokens b (.named cls fields defaults ys))).2 ∧
    ((shrinkObj texts safety depth (redactInObj texts tokens a (.named cls fields defaults xs))).1 =
      (shrinkObj texts safety depth (redactInObj texts tokens b (.named cls fields defaults ys))).1 ↔
        (shows safety.maxListItems fields.length = 0 ∨
          if safety.maxDepth ≤ depth + 1 then hint texts (.generator a) = hint texts (.generator b) else a = b)) := by
  have one : ∀ address xs, shrinkObj texts safety depth (redactInObj texts tokens address (.named cls fields defaults xs)) =
      remake texts (.named cls fields defaults (.generator address :: defaults.drop (defaults.length + 1 - fields.length)))
        cls fields defaults (markSeq (exceeds safety.maxListItems fields.length) (shrinkAll texts safety (depth + 1)
          (shows safety.maxListItems fields.length)
          (.generator address :: defaults.drop (defaults.length + 1 - fields.length)))) := by
    intro address xs
    rw [redactInObj, construct_eq_some callable, Option.getD_some]
    conv_lhs => unfold shrinkObj
    simp only [if_neg reached, length_constructed callable]
  obtain ⟨flag, same⟩ := shrink_generator texts safety a b (depth + 1)
  have cast : ((depth + 1 : Nat) : Int) = depth + 1 := rfl
  rw [cast] at same
  rw [one, one]
  simp only [remake, construct_eq_some callable, Obj.named.injEq, true_and, List.cons.injEq, and_true, Obj.list.injEq]
  cases shows safety.maxListItems fields.length with
  | zero => simp [shrinkAll]
  | succ kept =>
    obtain ⟨marked, items⟩ := markSeq_alike (exceeds safety.maxListItems fields.length)
      (s := shrinkAll texts safety (depth + 1) (kept + 1)
        (.generator a :: defaults.drop (defaults.length + 1 - fields.length)))
      (t := shrinkAll texts safety (depth + 1) (kept + 1)
        (.generator b :: defaults.drop (defaults.length + 1 - fields.length)))
      (by simp only [shrinkAll, flag])
    refine ⟨marked, items.trans ?_⟩
    simp only [shrinkAll, List.cons.injEq, and_true, same, Nat.succ_ne_zero, false_or]

end Named

/-! ### What is shown of one result -/

mutual

theorem repr_redact : ∀ x : Obj, (redactInObj texts tokens a x).repr texts = masked texts tokens a x
  | .scalar text | .str text | .generator address => by
    unfold redactInObj masked Obj.repr
    rfl
  | .list items => by
    unfold redactInObj masked Obj.repr
    rw [reprAll_redact]
  | .tuple items => by
    unfold redactInObj masked Obj.repr
    rw [reprAll_redact, length_redactAll]
  | .named cls fields defaults items => by
    unfold redactInObj masked
    split
    · next callable =>
      rw [construct_eq_some callable]
      rfl
    · next fixed =>
      rw [construct_eq_none fixed]
      rfl
  | .dict entries => by
    unfold redactInObj masked Obj.repr
    rw [reprEntries_redact]

theorem reprAll_redact : ∀ xs : List Obj, reprAll texts (redactAll texts tokens a xs) = maskedAll texts tokens a xs
  | [] => rfl
  | x :: xs => by rw [redactAll, reprAll, maskedAll, repr_redact x, reprAll_redact xs]

theorem reprEntries_redact : ∀ entries : List (Key × Obj),
    reprEntries texts (redactEntries texts tokens a entries) = maskedEntries texts tokens a entries
  | [] => rfl
  | (key, x) :: entries => by
    rw [redactEntries, reprEntries, maskedEntries, reprEntries_redact entries]
    cases redacts texts tokens key with
    | true => rfl
    | false => rw [if_neg Bool.false_ne_true, if_neg Bool.false_ne_true, repr_redact x]

end

theorem markSeq_flag (beyond : Bool) (s : List Obj × Bool) : (markSeq beyond s).2 = (beyond || s.2) := by
  unfold markSeq
  cases marked : beyond || s.2 <;> rfl

theorem markDict_flag (beyond : Bool) (s : List (Key × Obj) × Bool) : (markDict beyond s).2 = (beyond || s.2) := by
  unfold markDict
  cases marked : beyond || s.2 <;> rfl

mutual

/-- Shrinking tells whether all of the result is shown. -/
theorem shrink_flag : ∀ (x : Obj) (depth : Nat),
    (shrinkObj texts safety depth (redactInObj texts tokens a x)).2 = clipped texts safety tokens depth x
  | .scalar text, depth | .generator address, depth => by
    unfold shrinkObj clipped redactInObj
    split <;> rfl
  | .str text, depth => by
    unfold shrinkObj clipped redactInObj
    split
    · rfl
    · dsimp only
      split
      · next long => exact (decide_eq_true long).symm
      · next short => exact (decide_eq_false short).symm
  | .list items, depth => by
    unfold clipped redactInObj shrinkObj
    split
    · rfl
    · dsimp only
      rw [Prod.map_snd, id_eq, length_redactAll, markSeq_flag, shrinkAll_flag]
  | .tuple items, depth => by
    unfold clipped redactInObj shrinkObj
    split
    · rfl
    · dsimp only
      rw [Prod.map_snd, id_eq, length_redactAll, markSeq_flag, shrinkAll_flag]
  | .named cls fields defaults items, depth => by
    unfold clipped
    split
    · next deep => rw [shrinkObj_deep deep]
    · next reached =>
      dsimp only
      split
      · next callable =>
        rw [(shrink_callable (b := 0) reached callable items items).1, redactInObj, construct_eq_some callable,
          Option.getD_some]
        unfold shrinkObj
        simp only [if_neg reached, length_constructed callable, remake, construct_eq_some callable, markSeq_flag]
      · next fixed => rw [shrink_fixed reached fixed]
  | .dict entries, depth => by
    unfold clipped redactInObj shrinkObj
    split
    · rfl
    · dsimp only
      rw [Prod.map_snd, id_eq, length_redactEntries, markDict_flag, shrinkEntries_flag]

theorem shrinkAll_flag : ∀ (xs : List Obj) (depth kept : Nat),
    (shrinkAll texts safety depth kept (redactAll texts tokens a xs)).2 = clippedAll texts safety tokens depth kept xs
  | [], depth, 0 | [], depth, kept + 1 | x :: xs, depth, 0 => by simp [redactAll, shrinkAll, clippedAll]
  | x :: xs, depth, kept + 1 => by rw [redactAll, shrinkAll, clippedAll, shrink_flag x, shrinkAll_flag xs]

theorem shrinkEntries_flag : ∀ (entries : List (Key × Obj)) (depth kept : Nat),
    (shrinkEntries texts safety depth kept (redactEntries texts tokens a entries)).2 =
      clippedEntries texts safety tokens depth kept entries
  | [], depth, 0 | [], depth, kept + 1 | (key, x) :: entries, depth, 0 => by
    simp [redactEntries, shrinkEntries, clippedEntries]
  | (key, x) :: entries, depth, kept + 1 => by
    rw [redactEntries, shrinkEntries, clippedEntries, shrinkEntries_flag entries]
    cases redacts texts tokens key with
    | true =>
      rw [if_pos rfl, if_pos rfl]
      unfold shrinkObj
      by_cases deep : safety.maxDepth ≤ depth
      · simp [deep]
      · by_cases long : safety.maxStringLen < 14 <;> simp [deep, long]
    | false => rw [if_neg Bool.false_ne_true, if_neg Bool.false_ne_true, shrink_flag x]

end

/-- A value that is too deep. -/
theorem shrink_masked {depth : Nat} (deep : safety.maxDepth ≤ depth) (x y : Obj) :
    (shrinkObj texts safety depth (redactInObj texts tokens a x)).2 =
      (shrinkObj texts safety depth (redactInObj texts tokens b y)).2 ∧
    ((shrinkObj texts safety depth (redactInObj texts tokens a x)).1 =
      (shrinkObj texts safety depth (redactInObj texts tokens b y)).1 ↔
        cut 200 (masked texts tokens a x) = cut 200 (masked texts tokens b y)) := by
  rw [← repr_redact, ← repr_redact]
  exact shrink_deep deep _ _

/-! ### Two runs -/

variable (safety a b) in
mutual

/-- Two results that are alike are shrunk to the same just in case they agree, and are truncated alike. -/
theorem shrink_alike : ∀ {x y : Obj}, Alike texts tokens x y → ∀ depth,
    (shrinkObj texts safety depth (redactInObj texts tokens a x)).2 =
      (shrinkObj texts safety depth (redactInObj texts tokens b y)).2 ∧
    ((shrinkObj texts safety depth (redactInObj texts tokens a x)).1 =
      (shrinkObj texts safety depth (redactInObj texts tokens b y)).1 ↔ Agree texts safety tokens a b depth x y)
  | _, _, .scalar text, depth => by
    unfold Agree
    split
    · next deep => exact shrink_masked deep _ _
    · exact shrink_same rfl trivial
  | _, _, .str text, depth => by
    unfold Agree
    split
    · next deep => exact shrink_masked deep _ _
    · exact shrink_same rfl trivial
  | .list xs, .list ys, .list all, depth => by
    unfold Agree
    split
    · next deep => exact shrink_masked deep _ _
    · next reached =>
      obtain ⟨flag, same⟩ := shrinkAll_alike all (depth + 1) (shows safety.maxListItems xs.length)
      obtain ⟨marked, items⟩ := markSeq_alike (exceeds safety.maxListItems xs.length) flag
      simp only [redactInObj]
      unfold shrinkObj
      simp only [if_neg reached, length_redactAll, ← all.length_eq, Prod.map_fst, Prod.map_snd, id_eq, Obj.list.injEq]
      exact ⟨marked, items.trans same⟩
  | .tuple xs, .tuple ys, .tuple all, depth => by
    unfold Agree
    split
    · next deep => exact shrink_masked deep _ _
    · next reached =>
      obtain ⟨flag, same⟩ := shrinkAll_alike all (depth + 1) (shows safety.maxListItems xs.length)
      obtain ⟨marked, items⟩ := markSeq_alike (exceeds safety.maxListItems xs.length) flag
      simp only [redactInObj]
      unfold shrinkObj
      simp only [if_neg reached, length_redactAll, ← all.length_eq, Prod.map_fst, Prod.map_snd, id_eq, Obj.tuple.injEq]
      exact ⟨marked, items.trans same⟩
  | .named _ _ _ xs, .named _ _ _ ys, .named cls fields defaults all, depth => by
    unfold Agree
    split
    · next deep => exact shrink_masked deep _ _
    · next reached =>
      dsimp only
      split
      · next callable => exact shrink_callable reached callable xs ys
      · next fixed =>
        rw [shrink_fixed reached fixed, shrink_fixed reached fixed]
        exact ⟨rfl, truncatedHint_inj⟩
  | .dict xs, .dict ys, .dict all, depth => by
    unfold Agree
    split
    · next deep => exact shrink_masked deep _ _
    · next reached =>
      obtain ⟨flag, keys, same⟩ := shrinkEntries_alike all (depth + 1) (shows safety.maxDictItems xs.length)
      obtain ⟨marked, entries⟩ := markDict_alike (exceeds safety.maxDictItems xs.length) flag keys
      have whole : clipped texts safety tokens depth (.dict xs) = (exceeds safety.maxDictItems xs.length ||
          (shrinkEntries texts safety (depth + 1) (shows safety.maxDictItems xs.length)
            (redactEntries texts tokens a xs)).2) := by
        unfold clipped
        rw [if_neg reached, shrinkEntries_flag]
      simp only [redactInObj]
      unfold shrinkObj
      simp only [if_neg reached, length_redactEntries, ← all.length_eq, Prod.map_fst, Prod.map_snd, id_eq, Obj.dict.injEq]
      rw [whole, ← markDict_flag]
      exact ⟨marked, entries.trans (same _)⟩

theorem shrinkAll_alike : ∀ {xs ys : List Obj}, AlikeAll texts tokens xs ys → ∀ depth kept,
    (shrinkAll texts safety depth kept (redactAll texts tokens a xs)).2 =
      (shrinkAll texts safety depth kept (redactAll texts tokens b ys)).2 ∧
    ((shrinkAll texts safety depth kept (redactAll texts tokens a xs)).1 =
      (shrinkAll texts safety depth kept (redactAll texts tokens b ys)).1 ↔
        AgreeAll texts safety tokens a b depth kept xs ys)
  | _, _, .nil, depth, kept => by simp [redactAll, AgreeAll]
  | _, _, .cons first others, depth, 0 => by simp [shrinkAll, AgreeAll]
  | _, _, .cons first others, depth, kept + 1 => by
    obtain ⟨flag, same⟩ := shrink_alike first depth
    obtain ⟨flags, all⟩ := shrinkAll_alike others depth kept
    simp only [redactAll, shrinkAll, AgreeAll, List.cons.injEq, flag, flags, same, all, and_self]

theorem shrinkEntries_alike : ∀ {xs ys : List (Key × Obj)}, AlikeEntries texts tokens xs ys → ∀ depth kept,
    (shrinkEntries texts safety depth kept (redactEntries texts tokens a xs)).2 =
      (shrinkEntries texts safety depth kept (redactEntries texts tokens b ys)).2 ∧
    (shrinkEntries texts safety depth kept (redactEntries texts tokens a xs)).1.map Prod.fst =
      (shrinkEntries texts safety depth kept (redactEntries texts tokens b ys)).1.map Prod.fst ∧
    ∀ marked, List.Forall₂ (fun x y => marked = true ∧ x.1 = markKey ∨ x = y)
      (shrinkEntries texts safety depth kept (redactEntries texts tokens a xs)).1
      (shrinkEntries texts safety depth kept (redactEntries texts tokens b ys)).1 ↔
        AgreeEntries texts safety tokens a b depth marked kept xs ys
  | _, _, .nil, depth, kept => by simp [redactEntries, shrinkEntries, AgreeEntries]
  | _, _, .secret x y secret others, depth, 0 => by simp [shrinkEntries, AgreeEntries]
  | _, _, .plain shown alike others, depth, 0 => by simp [shrinkEntries, AgreeEntries]
  | _, _, .secret x y secret others, depth, kept + 1 => by
    obtain ⟨flags, keys, all⟩ := shrinkEntries_alike others depth kept
    refine ⟨?_, ?_, fun marked => ?_⟩
    · simp only [redactEntries, shrinkEntries, secret, if_true, flags]
    · simp only [redactEntries, shrinkEntries, List.map_cons, keys]
    · simp only [redactEntries, shrinkEntries, secret, if_true, List.forall₂_cons, or_true, true_and, AgreeEntries, all,
        true_or]
  | _, _, .plain shown alike others, depth, kept + 1 => by
    obtain ⟨flag, same⟩ := shrink_alike alike depth
    obtain ⟨flags, keys, all⟩ := shrinkEntries_alike others depth kept
    refine ⟨?_, ?_, fun marked => ?_⟩
    · simp only [redactEntries, shrinkEntries, shown, Bool.false_eq_true, if_false, flag, flags]
    · simp only [redactEntries, shrinkEntries, List.map_cons, keys]
    · simp only [redactEntries, shrinkEntries, shown, Bool.false_eq_true, if_false, List.forall₂_cons, Prod.mk.injEq,
        true_and, AgreeEntries, all, false_or, same]

end

/-! ### Results without named tuples -/

section Plain

variable (texts tokens)

mutual

/-- No named tuple stands outside the values that are redacted. -/
inductive Plain : Obj → Prop
  | scalar (text : String) : Plain (.scalar text)
  | str (text : String) : Plain (.str text)
  | list {xs : List Obj} : PlainAll xs → Plain (.list xs)
  | tuple {xs : List Obj} : PlainAll xs → Plain (.tuple xs)
  | dict {xs : List (Key × Obj)} : PlainEntries xs → Plain (.dict xs)

inductive PlainAll : List Obj → Prop
  | nil : PlainAll []
  | cons {x : Obj} {xs : List Obj} : Plain x → PlainAll xs → PlainAll (x :: xs)

inductive PlainEntries : List (Key × Obj) → Prop
  | nil : PlainEntries []
  | cons {key : Key} {x : Obj} {xs : List (Key × Obj)} :
    (redacts texts tokens key = false → Plain x) → PlainEntries xs → PlainEntries ((key, x) :: xs)

end

end Plain

mutual

theorem redact_plain : ∀ {x y : Obj}, Alike texts tokens x y → Plain texts tokens x →
    redactInObj texts tokens a x = redactInObj texts tokens b y
  | _, _, .scalar _, _ => rfl
  | _, _, .str _, _ => rfl
  | _, _, .list all, .list plain => congrArg Obj.list (redactAll_plain all plain)
  | _, _, .tuple all, .tuple plain => congrArg Obj.tuple (redactAll_plain all plain)
  | _, _, .dict all, .dict plain => congrArg Obj.dict (redactEntries_plain all plain)

theorem redactAll_plain : ∀ {xs ys : List Obj}, AlikeAll texts tokens xs ys → PlainAll texts tokens xs →
    redactAll texts tokens a xs = redactAll texts tokens b ys
  | _, _, .nil, _ => rfl
  | _, _, .cons first others, .cons plain plains => by
    rw [redactAll, redactAll, redact_plain first plain, redactAll_plain others plains]

theorem redactEntries_plain : ∀ {xs ys : List (Key × Obj)}, AlikeEntries texts tokens xs ys → PlainEntries texts tokens xs →
    redactEntries texts tokens a xs = redactEntries texts tokens b ys
  | _, _, .nil, _ => rfl
  | _, _, .secret x y secret others, .cons _ plains => by
    rw [redactEntries, redactEntries, redactEntries_plain others plains, secret]
    rfl
  | _, _, .plain shown first others, .cons plain plains => by
    rw [redactEntries, redactEntries, redactEntries_plain others plains, redact_plain first (plain shown), shown]

end

theorem agree_of_plain {x y : Obj} (alike : Alike texts tokens x y) (plain : Plain texts tokens x) (depth : Nat) :
    Agree texts safety tokens a b depth x y := by
  obtain ⟨-, same⟩ := shrink_alike safety a b alike depth
  rw [redact_plain alike plain] at same
  exact same.mp rfl

/-! ### The entries of the payload -/

section Entries

variable {contextKeys : List String} {check : CheckResult} {x y : Obj}

variable (texts safety contextKeys) in
/-- The result as it is before its text is capped. -/
def shrunkOf (address : Nat) (result : Obj) : Obj × Bool :=
  shrinkObj texts safety 0 (redactInObj texts (effectiveRedactTokens texts safety contextKeys) address result)

variable (texts safety contextKeys) in
/-- The text is not capped. -/
def Whole (address : Nat) (result : Obj) : Prop :=
  (capRepr texts safety (shrunkOf texts safety contextKeys address result).1).2 = false

theorem capRepr_of_whole {obj : Obj} (whole : (capRepr texts safety obj).2 = false) : (capRepr texts safety obj).1 = obj := by
  unfold capRepr at whole ⊢
  split
  · rfl
  · next capped =>
    rw [if_neg capped] at whole
    dsimp only at whole ⊢
    split
    · rfl
    · next long =>
      rw [if_neg long] at whole
      cases whole

theorem entryOf_shown (shown : check.skipped = false ∧ check.passed = true) :
    entryOf texts safety contextKeys a check x = resultToJson check
      ((capRepr texts safety (shrunkOf texts safety contextKeys a x).1).1,
        (shrunkOf texts safety contextKeys a x).2 || (capRepr texts safety (shrunkOf texts safety contextKeys a x).1).2) := by
  unfold entryOf postprocessResult
  rw [shown.1, shown.2]
  rfl

theorem entryOf_hidden (hidden : ¬ (check.skipped = false ∧ check.passed = true)) :
    entryOf texts safety contextKeys a check x = entryOf texts safety contextKeys b check y := by
  unfold entryOf postprocessResult resultToJson
  cases skipped : check.skipped with
  | true => simp
  | false =>
    have failed : check.passed = false := by
      by_contra passed
      exact hidden ⟨skipped, Bool.not_eq_false _ ▸ passed⟩
    simp [failed]

/-- An entry that is shown and not capped tells the shrunk result. -/
theorem shrunkOf_eq (shown : check.skipped = false ∧ check.passed = true) (wholeX : Whole texts safety contextKeys a x)
    (wholeY : Whole texts safety contextKeys b y)
    (equal : entryOf texts safety contextKeys a check x = entryOf texts safety contextKeys b check y) :
    (shrunkOf texts safety contextKeys a x).1 = (shrunkOf texts safety contextKeys b y).1 := by
  rw [entryOf_shown shown, entryOf_shown shown, capRepr_of_whole wholeX, capRepr_of_whole wholeY] at equal
  have results := congrArg Entry.result equal
  simp only [resultToJson, shown.1, shown.2] at results
  exact Option.some.inj results

/-- Two runs on results that are alike have the same entry if the result is not shown or the results agree; and where
neither is capped, only then. -/
theorem entryOf_eq_iff (alike : Alike texts (effectiveRedactTokens texts safety contextKeys) x y) :
    ((check.skipped = false ∧ check.passed = true →
        Agree texts safety (effectiveRedactTokens texts safety contextKeys) a b 0 x y) →
      entryOf texts safety contextKeys a check x = entryOf texts safety contextKeys b check y) ∧
    (Whole texts safety contextKeys a x → Whole texts safety contextKeys b y →
      (entryOf texts safety contextKeys a check x = entryOf texts safety contextKeys b check y ↔
        (check.skipped = false ∧ check.passed = true →
          Agree texts safety (effectiveRedactTokens texts safety contextKeys) a b 0 x y))) := by
  obtain ⟨flag, same⟩ := shrink_alike safety a b alike 0
  have enough : (check.skipped = false ∧ check.passed = true →
        Agree texts safety (effectiveRedactTokens texts safety contextKeys) a b 0 x y) →
      entryOf texts safety contextKeys a check x = entryOf texts safety contextKeys b check y := by
    intro agree
    by_cases shown : check.skipped = false ∧ check.passed = true
    · have shrunk : shrunkOf texts safety contextKeys a x = shrunkOf texts safety contextKeys b y :=
        Prod.ext (same.mpr (agree shown)) flag
      rw [entryOf_shown shown, entryOf_shown shown, shrunk]
    · exact entryOf_hidden shown
  exact ⟨enough, fun wholeX wholeY => ⟨fun equal shown => same.mp (shrunkOf_eq shown wholeX wholeY equal), enough⟩⟩

end Entries

/-- Texts of lower case, and without quotes in them. -/
def plainTexts : Texts where
  lower text := String.ofList (text.toList.map Char.toLower)
  quote text := "'" ++ text ++ "'"

/-- A dict with a password in it. -/
def credentials (password : String) : Obj := .dict [(.str "user", .str "root"), (.str "Password", .str password)]

/-- `Login(host=…, auth=…)`. -/
def login (password : String) : Obj := .named "Login" ["host", "auth"] [] [.str "esx", credentials password]

/-- A check that passed. -/
def loggedIn : CheckResult := { name := "login", passed := true, critical := false }

theorem credentials_alike (p q : String) :
    Alike plainTexts (effectiveRedactTokens plainTexts {} []) (credentials p) (credentials q) :=
  .dict (.plain (by decide +kernel) (.str "root") (.secret _ _ (by decide +kernel) .nil))

theorem credentials_plain (p : String) : Plain plainTexts (effectiveRedactTokens plainTexts {} []) (credentials p) :=
  .dict (.cons (fun _ => .str "root") (.cons (fun shown => absurd shown (by decide +kernel)) .nil))

theorem entryOf_credentials :
    Alike plainTexts (effectiveRedactTokens plainTexts {} []) (credentials "hunter2") (credentials "swordfish") ∧
    entryOf plainTexts {} [] 16 loggedIn (credentials "hunter2") =
      entryOf plainTexts {} [] 32 loggedIn (credentials "swordfish") :=
  ⟨credentials_alike _ _, (entryOf_eq_iff (credentials_alike "hunter2" "swordfish")).1 fun _ =>
    agree_of_plain (credentials_alike _ _) (credentials_plain _) 0⟩

theorem not_silent_login :
    Alike plainTexts (effectiveRedactTokens plainTexts {} []) (login "hunter2") (login "swordfish") ∧
    entryOf plainTexts {} [] 16 loggedIn (login "hunter2") ≠ entryOf plainTexts {} [] 16 loggedIn (login "swordfish") := by
  have alike : Alike plainTexts (effectiveRedactTokens plainTexts {} []) (login "hunter2") (login "swordfish") :=
    .named _ _ _ (.cons (.str "esx") (.cons (credentials_alike _ _) .nil))
  refine ⟨alike, fun equal => ?_⟩
  have shrunk := shrunkOf_eq ⟨rfl, rfl⟩ (by unfold Whole; decide +kernel) (by unfold Whole; decide +kernel) equal
  have agree := (shrink_alike {} 16 16 alike 0).2.mp shrunk
  have shown : hint plainTexts (login "hunter2") = hint plainTexts (login "swordfish") := by
    unfold Agree login at agree
    rw [if_neg (by decide)] at agree
    dsimp only at agree
    rwa [if_neg (by decide)] at agree
  exact absurd shown (by decide +kernel)

end H2kvm.Core.Validation
