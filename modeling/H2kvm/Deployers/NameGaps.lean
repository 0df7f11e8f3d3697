import H2kvm.Deployers.DnsName

namespace H2kvm.Deployers

open Framework Text

/-! ### Gaps between letters and digits -/

/-- What becomes of a character that is no letter or digit. -/
def mark (c : Char) : Char := if c = '.' then '.' else '-'

/-- A gap after one more character: runs of dots and of other characters become one each. -/
def extend (gap : Name) (c : Char) : Name := if gap.getLast? = some (mark c) then gap else gap ++ [mark c]

/-- What is left of a name after a letter or digit and the gap that follows it. -/
def emit (gap : Name) : Name → Name
  | [] => []
  | c :: s => if isAlphanumeric c then gap ++ c :: emit [] s else emit (extend gap c) s

/-- A gap before a letter or digit that there is room for is of dots alone, or has none. -/
def Unmixed : (room : Nat) → (gap : Name) → Name → Prop
  | _, _, [] => True
  | room, gap, c :: s =>
    if isAlphanumeric c then (gap.length ≤ 1 ∨ room ≤ gap.length) ∧ Unmixed (room - (gap.length + 1)) [] s
    else Unmixed room (extend gap c) s

instance decidableUnmixed : (room : Nat) → (gap s : Name) → Decidable (Unmixed room gap s)
  | _, _, [] => isTrue trivial
  | room, gap, c :: s =>
    have := decidableUnmixed (room - (gap.length + 1)) [] s
    have := decidableUnmixed room (extend gap c) s
    decidable_of_iff (if isAlphanumeric c then (gap.length ≤ 1 ∨ room ≤ gap.length) ∧ Unmixed (room - (gap.length + 1)) [] s
      else Unmixed room (extend gap c) s) (by rw [Unmixed])

/-- The letters and digits of a name from the first on, with what is between them. -/
def core (name : Name) : Name := (lower (strip name)).dropWhile (!isAlphanumeric ·)

section squeezing

variable {p : Char → Bool} {s t u v : Name} {c d : Char} {inRun inRun' : Bool} {prev : Option Char} {gap : Name}

/-- The class of a character: itself, or a hyphen for one that no name may have. -/
def classOf (c : Char) : Char := if isAlphanumeric c || c == '.' || c == '-' then c else '-'

theorem squeeze_cons_pos (here : p d = true) :
    squeeze p c inRun (d :: s) = if inRun then squeeze p c true s else c :: squeeze p c true s := by
  rw [squeeze, if_pos here]

theorem squeeze_cons_neg (other : p d = false) : squeeze p c inRun (d :: s) = d :: squeeze p c false s := by
  rw [squeeze, other, if_neg Bool.false_ne_true]

theorem squeeze_squeeze (run : inRun = true → inRun' = true) :
    squeeze (· == '-') '-' inRun' (squeeze (fun c => !(isAlphanumeric c || c == '.' || c == '-')) '-' inRun s) =
      squeeze (· == '-') '-' inRun' (s.map classOf) := by
  induction s generalizing inRun inRun' with
  | nil => rfl
  | cons c s ih =>
    rw [List.map_cons, classOf]
    cases known : isAlphanumeric c || c == '.' || c == '-' with
    | true =>
      rw [squeeze_cons_neg (by rw [known]; rfl), if_pos rfl]
      cases hyphen : c == '-' with
      | true =>
        rw [squeeze_cons_pos (p := (· == '-')) hyphen, squeeze_cons_pos (p := (· == '-')) hyphen, @ih false true nofun]
      | false =>
        rw [squeeze_cons_neg (p := (· == '-')) hyphen, squeeze_cons_neg (p := (· == '-')) hyphen, @ih false false nofun]
    | false =>
      rw [squeeze_cons_pos (by rw [known]; rfl), if_neg Bool.false_ne_true,
        squeeze_cons_pos (p := (· == '-')) (beq_self_eq_true '-')]
      cases inRun with
      | true => rw [run rfl, if_pos rfl, if_pos rfl, @ih true true fun _ => rfl]
      | false =>
        rw [if_neg Bool.false_ne_true, squeeze_cons_pos (p := (· == '-')) (beq_self_eq_true '-'), @ih true true fun _ => rfl]

/-- What is squeezed after a character. -/
def squeezed (prev : Option Char) (s : Name) : Name :=
  squeeze (· == '.') '.' (prev == some '.') (squeeze (· == '-') '-' (prev == some '-') (s.map classOf))

theorem classOf_eq (known : isAlphanumeric c = false) : classOf c = mark c := by
  unfold classOf mark
  rw [known]
  by_cases dot : c = '.'
  · rw [dot]
    rfl
  · by_cases hyphen : c = '-'
    · rw [hyphen]
      rfl
    · rw [beq_false_of_ne dot, beq_false_of_ne hyphen, if_neg dot]
      rfl

theorem mark_cases (c : Char) : mark c = '.' ∨ mark c = '-' := by
  unfold mark
  split
  · exact .inl rfl
  · exact .inr rfl

theorem squeezed_alphanumeric (alphanumeric : isAlphanumeric c = true) (prev : Option Char) (s : Name) :
    squeezed prev (c :: s) = c :: squeezed none s := by
  obtain ⟨dot, hyphen⟩ := isAlphanumeric_ne alphanumeric
  have same : classOf c = c := by
    rw [classOf, alphanumeric]
    rfl
  rw [squeezed, List.map_cons, same, squeeze_cons_neg (p := (· == '-')) (beq_false_of_ne hyphen),
    squeeze_cons_neg (p := (· == '.')) (beq_false_of_ne dot)]
  rfl

/-- A character that is no letter or digit is left where the one before it is of the other kind. -/
theorem squeezed_mark (other : isAlphanumeric c = false) (prev : Option Char) (s : Name) :
    squeezed prev (c :: s) = if prev = some (mark c) then squeezed prev s else mark c :: squeezed (some (mark c)) s := by
  rw [squeezed, List.map_cons, classOf_eq other]
  rcases mark_cases c with dot | hyphen
  · rw [dot, squeeze_cons_neg (p := (· == '-')) (by decide), squeeze_cons_pos (p := (· == '.')) (by decide)]
    by_cases before : prev = some '.'
    · rw [if_pos before, before]
      rfl
    · rw [if_neg before, beq_false_of_ne before]
      rfl
  · rw [hyphen, squeeze_cons_pos (p := (· == '-')) (by decide)]
    by_cases before : prev = some '-'
    · rw [if_pos before, before]
      rfl
    · rw [if_neg before, beq_false_of_ne before, if_neg nofun, squeeze_cons_neg (p := (· == '.')) (by decide)]
      rfl

/-- What is squeezed ends like what is emitted. -/
theorem rdropWhile_squeezed (marks : ∀ c ∈ gap, isAlphanumeric c = false) :
    (gap ++ squeezed gap.getLast? s).rdropWhile (!isAlphanumeric ·) = emit gap s := by
  induction s generalizing gap with
  | nil =>
    rw [emit, List.rdropWhile_eq_nil_iff]
    intro c member
    rcases List.mem_append.mp member with inside | inside
    · rw [marks c inside]
      rfl
    · cases inside
  | cons c s ih =>
    rw [emit]
    cases alphanumeric : isAlphanumeric c with
    | true =>
      have rest := @ih [] nofun
      rw [List.nil_append, List.getLast?_nil] at rest
      have kept : ((gap ++ [c]) ++ squeezed none s).rdropWhile (!isAlphanumeric ·) = (gap ++ [c]) ++ emit [] s := by
        rw [rdropWhile_append ?_ (by simp), rest]
        intro d last
        rw [List.getLast?_concat] at last
        cases last
        rw [alphanumeric]
        rfl
      rw [if_pos rfl, squeezed_alphanumeric alphanumeric]
      simpa using kept
    | false =>
      rw [if_neg nofun, squeezed_mark alphanumeric, extend]
      split
      · exact ih marks
      · have more : ∀ d ∈ gap ++ [mark c], isAlphanumeric d = false := by
          intro d member
          rcases List.mem_append.mp member with inside | inside
          · exact marks d inside
          · rw [List.mem_singleton.mp inside]
            rcases mark_cases c with same | same <;> rw [same] <;> rfl
        have rest := ih more
        rw [List.getLast?_concat, List.append_assoc, List.singleton_append] at rest
        exact rest

theorem squeezed_dropWhile (prev : Option Char) (s : Name) : ∃ lead prev', (∀ c ∈ lead, isAlphanumeric c = false) ∧
    squeezed prev s = lead ++ squeezed prev' (s.dropWhile (!isAlphanumeric ·)) := by
  induction s generalizing prev with
  | nil => exact ⟨[], prev, nofun, rfl⟩
  | cons c s ih =>
    cases alphanumeric : isAlphanumeric c with
    | true =>
      rw [List.dropWhile_cons_of_neg (by rw [alphanumeric]; decide)]
      exact ⟨[], prev, nofun, rfl⟩
    | false =>
      rw [List.dropWhile_cons_of_pos (by rw [alphanumeric]; rfl), squeezed_mark alphanumeric]
      split
      · exact ih prev
      · obtain ⟨lead, prev', marks, split⟩ := ih (some (mark c))
        refine ⟨mark c :: lead, prev', fun d member => ?_, by rw [split, List.cons_append]⟩
        rcases List.mem_cons.mp member with rfl | inside
        · rcases mark_cases c with same | same <;> rw [same] <;> rfl
        · exact marks d inside

theorem trim_append (lead : ∀ c ∈ u, p c = true) (trail : ∀ c ∈ v, p c = true) (s : Name) :
    (((u ++ (s ++ v))).dropWhile p).rdropWhile p = (s.dropWhile p).rdropWhile p := by
  have back (w : Name) : (w ++ v).rdropWhile p = w.rdropWhile p := by
    induction v using List.reverseRecOn with
    | nil => rw [List.append_nil]
    | append_singleton v c ih =>
      rw [← List.append_assoc, List.rdropWhile_concat_pos _ _ _ (trail c (by simp))]
      exact ih fun d member => trail d (List.mem_append_left _ member)
  rw [List.dropWhile_append_of_pos lead]
  by_cases all : ∀ c ∈ s, p c = true
  · rw [List.dropWhile_append_of_pos all, List.dropWhile_eq_nil_iff.mpr trail, List.dropWhile_eq_nil_iff.mpr all]
  · have some : s.dropWhile p ≠ [] := fun none => all (List.dropWhile_eq_nil_iff.mp none)
    rw [List.dropWhile_append, if_neg (by simpa using some), back]

theorem trim_squeezed (s : Name) :
    ((squeezed none s).dropWhile (!isAlphanumeric ·)).rdropWhile (!isAlphanumeric ·) =
      emit [] (s.dropWhile (!isAlphanumeric ·)) := by
  obtain ⟨lead, prev, marks, split⟩ := squeezed_dropWhile none s
  have dropped : ∀ c ∈ lead, (!isAlphanumeric c) = true := fun c member => by rw [marks c member]; rfl
  rw [split, List.dropWhile_append_of_pos dropped]
  have kept := List.head?_dropWhile_not (!isAlphanumeric ·) s
  cases rest : s.dropWhile (!isAlphanumeric ·) with
  | nil => rfl
  | cons c rest' =>
    rw [rest] at kept
    have alphanumeric : isAlphanumeric c = true := by simpa using kept
    rw [squeezed_alphanumeric alphanumeric, List.dropWhile_cons_of_neg (by rw [alphanumeric]; decide)]
    have ends := @rdropWhile_squeezed (c :: rest') [] nofun
    rwa [List.nil_append, List.getLast?_nil, squeezed_alphanumeric alphanumeric] at ends

theorem squeeze_free_append (free : ∀ c ∈ u, p c = false) : squeeze p c false (u ++ s) = u ++ squeeze p c false s := by
  induction u with
  | nil => rfl
  | cons d u ih =>
    rw [List.cons_append, squeeze_cons_neg (free d List.mem_cons_self),
      ih fun e member => free e (List.mem_cons_of_mem _ member), List.cons_append]

theorem squeeze_append_free (free : ∀ c ∈ v, p c = false) : squeeze p c inRun (s ++ v) = squeeze p c inRun s ++ v := by
  induction s generalizing inRun with
  | nil => exact squeeze_free free
  | cons d s ih =>
    rw [List.cons_append]
    cases here : p d with
    | true =>
      rw [squeeze_cons_pos here, squeeze_cons_pos here, ih]
      split <;> rfl
    | false => rw [squeeze_cons_neg here, squeeze_cons_neg here, ih, List.cons_append]

theorem trim_split (p : Char → Bool) (s : Name) : ∃ lead trail, (∀ c ∈ lead, p c = true) ∧ (∀ c ∈ trail, p c = true) ∧
    s = lead ++ ((s.dropWhile p).rdropWhile p ++ trail) := by
  refine ⟨s.takeWhile p, (s.dropWhile p).rtakeWhile p, fun c member => List.mem_takeWhile_imp member,
    fun c member => List.mem_rtakeWhile_imp member, ?_⟩
  rw [List.rdropWhile_append_rtakeWhile, List.takeWhile_append_dropWhile]

theorem fullName_eq_emit (name : Name) : fullName name = orVm (emit [] (core name)) := by
  unfold fullName
  dsimp only
  rw [squeeze_squeeze (fun h => h), core, ← trim_squeezed, squeezed]
  have start : ((none : Option Char) == some '-') = false := rfl
  have start' : ((none : Option Char) == some '.') = false := rfl
  rw [start, start']
  generalize squeeze (· == '-') '-' false ((lower (strip name)).map classOf) = hyphens
  obtain ⟨lead, trail, leading, trailing, split⟩ := trim_split (· == '-') hyphens
  have other {c : Char} (hyphen : (c == '-') = true) : (c == '.') = false ∧ (!isAlphanumeric c) = true := by
    rw [beq_iff_eq.mp hyphen]
    decide
  have inner : squeeze (· == '.') '.' false hyphens =
      lead ++ (squeeze (· == '.') '.' false ((hyphens.dropWhile (· == '-')).rdropWhile (· == '-')) ++ trail) := by
    rw [split, squeeze_free_append fun c member => (other (leading c member)).1,
      squeeze_append_free fun c member => (other (trailing c member)).1, ← split]
  rw [inner, trim_append (fun c member => (other (leading c member)).2) fun c member => (other (trailing c member)).2]
  by_cases nothing : squeeze (· == '.') '.' false ((hyphens.dropWhile (· == '-')).rdropWhile (· == '-')) = []
  · rw [nothing]
    decide
  · rw [orVm_eq_self nothing]

end squeezing

section cutting

variable {s : Name} {c : Char} {limit room : Nat} {gap : Name}

/-- A gap as it is squeezed. -/
structure Alternates (gap : Name) : Prop where
  marks : ∀ c ∈ gap, c = '.' ∨ c = '-'
  apart : gap.IsChain (· ≠ ·)

theorem alternates_nil : Alternates [] := ⟨nofun, List.IsChain.nil⟩

theorem Alternates.extend (gaps : Alternates gap) (c : Char) : Alternates (extend gap c) := by
  unfold H2kvm.Deployers.extend
  split
  · exact gaps
  · next apart =>
    refine ⟨fun d member => ?_, List.isChain_append.mpr ⟨gaps.apart, List.IsChain.singleton _, ?_⟩⟩
    · rcases List.mem_append.mp member with inside | inside
      · exact gaps.marks d inside
      · rw [List.mem_singleton.mp inside]
        exact mark_cases c
    · rintro a last b ⟨⟩ rfl
      exact apart last

theorem Alternates.isAlphanumeric (gaps : Alternates gap) : ∀ c ∈ gap, isAlphanumeric c = false := by
  intro c member
  rcases gaps.marks c member with rfl | rfl <;> rfl

theorem joined_alphanumeric {a b : Char} (alphanumeric : isAlphanumeric a = true) : Joined a b :=
  ⟨fun dot => absurd dot (isAlphanumeric_ne alphanumeric).1, fun _ => (isAlphanumeric_ne alphanumeric).2⟩

theorem joined_alphanumeric' {a b : Char} (alphanumeric : isAlphanumeric b = true) : Joined a b :=
  ⟨fun _ => isAlphanumeric_ne alphanumeric, fun dot => absurd dot (isAlphanumeric_ne alphanumeric).1⟩

theorem isChain_gap_iff {a b : Char} (gaps : Alternates gap) (before : isAlphanumeric a = true)
    (behind : isAlphanumeric b = true) (rest : Name) :
    (a :: (gap ++ b :: rest)).IsChain Joined ↔ gap.length ≤ 1 ∧ (b :: rest).IsChain Joined := by
  match gap, gaps with
  | [], _ =>
    rw [List.nil_append, List.isChain_cons_cons]
    simp [joined_alphanumeric before]
  | [g], _ =>
    rw [List.singleton_append, List.isChain_cons_cons, List.isChain_cons_cons]
    simp [joined_alphanumeric before, joined_alphanumeric' behind]
  | g :: h :: gap, gaps =>
    have mixed : ¬ Joined g h := by
      have apart := (List.isChain_cons_cons.mp gaps.apart).1
      rcases gaps.marks g (by simp) with rfl | rfl <;> rcases gaps.marks h (by simp) with rfl | rfl
      · exact absurd rfl apart
      · exact fun joined => (joined.1 rfl).2 rfl
      · exact fun joined => joined.2 rfl rfl
      · exact absurd rfl apart
    rw [List.cons_append, List.cons_append, List.isChain_cons_cons, List.isChain_cons_cons]
    simp [mixed]

theorem unmixed_zero (gap s : Name) : Unmixed 0 gap s := by
  induction s generalizing gap with
  | nil => trivial
  | cons c s ih =>
    rw [Unmixed]
    split
    · rw [Nat.zero_sub]
      exact ⟨.inr (Nat.zero_le _), ih []⟩
    · exact ih _

/-- Of a name the part for which there is room has no mixed gap. -/
theorem isChain_emit_iff (gaps : Alternates gap) (before : isAlphanumeric c = true) :
    (c :: ((emit gap s).take room).rdropWhile (!isAlphanumeric ·)).IsChain Joined ↔ Unmixed room gap s := by
  induction s generalizing gap room c with
  | nil =>
    rw [emit, List.take_nil, List.rdropWhile_nil, Unmixed]
    exact iff_of_true (List.IsChain.singleton _) trivial
  | cons d s ih =>
    rw [emit, Unmixed]
    cases alphanumeric : isAlphanumeric d with
    | false =>
      rw [if_neg Bool.false_ne_true, if_neg Bool.false_ne_true]
      exact ih (gaps.extend d) before
    | true =>
      rw [if_pos rfl, if_pos rfl]
      rcases Nat.lt_or_ge gap.length room with less | full
      · have cut : ((gap ++ d :: emit [] s).take room).rdropWhile (!isAlphanumeric ·) =
            gap ++ d :: ((emit [] s).take (room - (gap.length + 1))).rdropWhile (!isAlphanumeric ·) := by
          rw [List.take_append, List.take_of_length_le less.le,
            show room - gap.length = room - (gap.length + 1) + 1 by omega, List.take_succ_cons,
            show gap ++ d :: (emit [] s).take (room - (gap.length + 1)) =
              (gap ++ [d]) ++ (emit [] s).take (room - (gap.length + 1)) by simp, rdropWhile_append ?_ (by simp)]
          · simp
          · intro e last
            rw [List.getLast?_concat] at last
            cases last
            rw [alphanumeric]
            rfl
        rw [cut, isChain_gap_iff gaps before alphanumeric, ih alternates_nil alphanumeric]
        exact and_congr_left' (or_iff_left (by omega)).symm
      · have nothing : ((gap ++ d :: emit [] s).take room).rdropWhile (!isAlphanumeric ·) = [] := by
          rw [List.take_append_of_le_length full, List.rdropWhile_eq_nil_iff]
          intro e member
          rw [gaps.isAlphanumeric e (List.mem_of_mem_take member)]
          rfl
        rw [nothing, show room - (gap.length + 1) = 0 by omega]
        exact iff_of_true (List.IsChain.singleton _) ⟨.inr full, unmixed_zero _ _⟩

theorem cutName_eq (slug : Slug s) (positive : 1 ≤ limit) :
    cutName s limit = (s.take limit).rdropWhile (!isAlphanumeric ·) := by
  have once (t : Name) : (t.rdropWhile (· == '-')).rdropWhile (!isAlphanumeric ·) = t.rdropWhile (!isAlphanumeric ·) := by
    induction t using List.reverseRecOn with
    | nil => rfl
    | append_singleton t c ih =>
      by_cases hyphen : c = '-'
      · subst hyphen
        rw [List.rdropWhile_concat_pos _ _ _ (by rfl), List.rdropWhile_concat_pos _ _ _ (by rfl), ih]
      · rw [List.rdropWhile_concat_neg _ _ _ (by simpa using hyphen)]
  have kept := (slug_cutName slug positive).1.nonempty
  unfold cutName at kept ⊢
  split
  · next long =>
    rw [once]
    refine orVm_eq_self fun nothing => ?_
    obtain ⟨d, rest, rfl⟩ := List.exists_cons_of_ne_nil slug.nonempty
    obtain ⟨m, rfl⟩ := Nat.exists_eq_add_of_le' positive
    have odd := List.rdropWhile_eq_nil_iff.mp nothing d (by rw [List.take_succ_cons]; exact List.mem_cons_self)
    rw [slug.first d rfl] at odd
    cases odd
  · rw [orVm_eq_self slug.nonempty, List.take_of_length_le (by omega), eq_comm, List.rdropWhile_eq_self_iff]
    intro some
    rw [slug.last _ (List.getLast?_eq_getLast_of_ne_nil some)]
    decide

/-- What the sanitizer returns is a subdomain exactly when no gap that it keeps is mixed. -/
theorem dnsSubdomain_sanitize_iff (name : Name) (two : 2 ≤ limit) :
    DnsSubdomain (sanitizeK8sDnsSubdomain name limit) ↔ Unmixed limit [] (core name) := by
  have positive : 1 ≤ limit := by omega
  obtain ⟨slug, -⟩ := slug_sanitize name limit positive
  have chain : DnsSubdomain (sanitizeK8sDnsSubdomain name limit) ↔ (sanitizeK8sDnsSubdomain name limit).IsChain Joined :=
    (dnsSubdomain_iff _).trans ⟨fun name => name.joined, fun joined => { slug with joined }⟩
  rw [chain, sanitize_eq, cutName_eq (slug_fullName name) positive, fullName_eq_emit]
  have kept := List.head?_dropWhile_not (!isAlphanumeric ·) (lower (strip name))
  cases rest : core name with
  | nil =>
    refine iff_of_true ?_ trivial
    obtain ⟨m, rfl⟩ := Nat.exists_eq_add_of_le' two
    show (List.rdropWhile (!isAlphanumeric ·) ('v' :: 'm' :: List.take m [])).IsChain Joined
    rw [List.take_nil]
    exact List.isChain_cons_cons.mpr ⟨joined_of_ne_dot (by decide) (by decide), List.IsChain.singleton _⟩
  | cons c s =>
    rw [core] at rest
    rw [rest] at kept
    have alphanumeric : isAlphanumeric c = true := by simpa using kept
    obtain ⟨m, rfl⟩ := Nat.exists_eq_add_of_le' positive
    have some : emit [] (c :: s) = c :: emit [] s := by rw [emit, if_pos alphanumeric, List.nil_append]
    have cut : ((c :: emit [] s).take (m + 1)).rdropWhile (!isAlphanumeric ·) =
        c :: ((emit [] s).take m).rdropWhile (!isAlphanumeric ·) := by
      rw [List.take_succ_cons, ← List.singleton_append, rdropWhile_append ?_ (by simp), List.singleton_append]
      rintro d ⟨⟩
      show (!isAlphanumeric c) = false
      rw [alphanumeric]
      rfl
    rw [some, orVm_eq_self (by simp), cut, isChain_emit_iff alternates_nil alphanumeric, Unmixed, if_pos alphanumeric]
    exact (and_iff_right (.inl (Nat.zero_le 1))).symm

end cutting

end H2kvm.Deployers
