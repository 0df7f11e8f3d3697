import H2kvm.Framework.Lines

namespace H2kvm.Framework.Text

/-- A regular expression: what it captures at a place of a text, the character before the place given, and how long
the match is. -/
abbrev Pattern (γ : Type) := Option Char → List Char → Option (γ × Nat)

variable {γ : Type}

/-- A text from a place on, cut into matches and the characters between them, where so many characters of the last
match are still to be left out. -/
def cutFrom (p : Pattern γ) : Nat → Option Char → List Char → List (γ ⊕ Char)
  | _, _, [] => []
  | n + 1, _, c :: s => cutFrom p n (some c) s
  | 0, prev, c :: s =>
    match p prev (c :: s) with
    | some (found, n) => .inl found :: cutFrom p (n - 1) (some c) s
    | none => .inr c :: cutFrom p 0 (some c) s

/-- `re.finditer`, of a pattern that needs a character. -/
def findAll (p : Pattern γ) (s : List Char) : List γ := (cutFrom p 0 none s).filterMap Sum.getLeft?

/-- `re.sub`. -/
def subst (p : Pattern γ) (f : γ → List Char) (s : List Char) : List Char :=
  (cutFrom p 0 none s).flatMap (Sum.elim f fun c => [c])

/-- `re.search`, where the character before the text is `prev`. -/
def searchFrom (p : Pattern γ) (prev : Option Char) : List Char → Bool
  | [] => false
  | c :: s => (p prev (c :: s)).isSome || searchFrom p (some c) s

/-- The character before a place: the last one passed. -/
def lastOr (prev : Option Char) (s : List Char) : Option Char := s.getLast?.or prev

/-- A match lies within the text, and has a character. -/
def Pattern.Within (p : Pattern γ) : Prop := ∀ prev s found n, p prev s = some (found, n) → 0 < n ∧ n ≤ s.length

section cutting

variable {p : Pattern γ} {prev : Option Char} {s tail : List Char} {n : Nat}

theorem lastOr_cons (prev : Option Char) (c : Char) (s : List Char) : lastOr prev (c :: s) = lastOr (some c) s := by
  unfold lastOr
  cases s with
  | nil => rfl
  | cons d s =>
    rw [List.getLast?_cons_cons]
    cases last : (d :: s).getLast? with
    | none => exact absurd (List.getLast?_eq_none_iff.mp last) (by simp)
    | some e => rfl

theorem cutFrom_nil (p : Pattern γ) (n : Nat) (prev : Option Char) : cutFrom p n prev [] = [] := by
  cases n <;> rfl

theorem cutFrom_of_length_le (p : Pattern γ) (prev : Option Char) (short : s.length ≤ n) : cutFrom p n prev s = [] := by
  induction s generalizing n prev with
  | nil => exact cutFrom_nil p n prev
  | cons c s ih =>
    cases n with
    | zero => simp at short
    | succ n => exact ih _ (Nat.le_of_succ_le_succ short)

/-- What comes after a text is cut for itself, where no match of the text depends on it. -/
theorem cutFrom_append (within : p.Within) (alone : ∀ prev s, s ≠ [] → p prev (s ++ tail) = p prev s)
    (short : n ≤ s.length) (prev : Option Char) :
    cutFrom p n prev (s ++ tail) = cutFrom p n prev s ++ cutFrom p 0 (lastOr prev s) tail := by
  induction s generalizing n prev with
  | nil =>
    have none : n = 0 := Nat.le_zero.mp short
    rw [none]
    rfl
  | cons c s ih =>
    rw [lastOr_cons]
    cases n with
    | succ n => exact ih (Nat.le_of_succ_le_succ short) _
    | zero =>
      have same : p prev (c :: (s ++ tail)) = p prev (c :: s) := alone prev (c :: s) (by simp)
      rw [List.cons_append, cutFrom, cutFrom, same]
      cases matched : p prev (c :: s) with
      | none => exact congrArg _ (ih (Nat.zero_le _) _)
      | some found =>
        obtain ⟨-, inside⟩ := within prev _ found.1 found.2 matched
        rw [List.length_cons] at inside
        exact congrArg _ (ih (by omega) _)

theorem cutFrom_of_free (free : ∀ a t, s = a ++ t → t ≠ [] → p (lastOr prev a) t = none) :
    cutFrom p 0 prev s = s.map .inr := by
  induction s generalizing prev with
  | nil => rfl
  | cons c s ih =>
    have here : p prev (c :: s) = none := free [] (c :: s) rfl (by simp)
    rw [cutFrom, here, List.map_cons]
    refine congrArg _ (ih fun a t split some => ?_)
    rw [← lastOr_cons prev c a]
    exact free (c :: a) t (by rw [split, List.cons_append]) some

theorem length_flatMap_cutFrom (within : p.Within) (prev : Option Char) (short : n ≤ s.length) :
    ((cutFrom p n prev s).flatMap (Sum.elim (fun _ => []) fun c => [c])).length + n ≤ s.length := by
  induction s generalizing n prev with
  | nil => rwa [cutFrom_nil, List.flatMap_nil, List.length_nil, Nat.zero_add]
  | cons c s ih =>
    rw [List.length_cons] at short ⊢
    cases n with
    | succ n =>
      have := ih (some c) (Nat.le_of_succ_le_succ short)
      rw [cutFrom]
      omega
    | zero =>
      rw [cutFrom]
      cases matched : p prev (c :: s) with
      | none =>
        have := ih (n := 0) (some c) (Nat.zero_le _)
        simp only [List.flatMap_cons, Sum.elim_inr, List.length_append, List.length_singleton]
        omega
      | some found =>
        obtain ⟨pos, inside⟩ := within prev _ found.1 found.2 matched
        rw [List.length_cons] at inside
        have := ih (n := found.2 - 1) (some c) (by omega)
        simp only [List.flatMap_cons, Sum.elim_inl, List.nil_append]
        omega

theorem free_of_flatMap (within : p.Within)
    (same : (cutFrom p 0 prev s).flatMap (Sum.elim (fun _ => []) fun c => [c]) = s) {a t : List Char} (split : s = a ++ t)
    (some : t ≠ []) : p (lastOr prev a) t = none := by
  induction s generalizing prev a with
  | nil => exact absurd (List.append_eq_nil_iff.mp split.symm).2 some
  | cons c s ih =>
    rw [cutFrom] at same
    cases matched : p prev (c :: s) with
    | some found =>
      -- a match would be missing
      obtain ⟨pos, inside⟩ := within prev _ found.1 found.2 matched
      rw [List.length_cons] at inside
      have long := congrArg List.length same
      have short := length_flatMap_cutFrom within (n := found.2 - 1) (.some c) (s := s) (by omega)
      simp only [matched, List.flatMap_cons, Sum.elim_inl, List.nil_append, List.length_cons] at long
      omega
    | none =>
      simp only [matched, List.flatMap_cons, Sum.elim_inr, List.singleton_append, List.cons.injEq, true_and] at same
      cases a with
      | nil =>
        rw [List.nil_append] at split
        rw [← split]
        exact matched
      | cons b a =>
        obtain ⟨rfl, rest⟩ := List.cons.inj split
        rw [lastOr_cons]
        exact ih same rest

end cutting

theorem subst_nil_eq_self_iff {p : Pattern γ} (within : p.Within) {s : List Char} :
    subst p (fun _ => []) s = s ↔ ∀ a t, s = a ++ t → t ≠ [] → p (lastOr none a) t = none := by
  constructor
  · intro same a t split some
    exact free_of_flatMap within same split some
  · intro free
    rw [subst, cutFrom_of_free free, List.flatMap_map]
    simp only [Sum.elim_inr]
    exact List.flatMap_singleton' s

end H2kvm.Framework.Text
