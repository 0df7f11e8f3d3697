import Mathlib.Data.List.DropRight
import Mathlib.Data.List.Infix

namespace H2kvm.Framework.Names

/-- A file name up to its last dot, and with it. -/
def upToDot (name : List Char) : List Char := name.rdropWhile (· ≠ '.')

def afterDot (name : List Char) : List Char := name.rtakeWhile (· ≠ '.')

/-- The last dot neither starts nor ends the name. -/
def hasSuffix (name : List Char) : Bool := 2 ≤ (upToDot name).length && afterDot name ≠ []

/-- `PurePath.stem`. -/
def stem (name : List Char) : List Char := if hasSuffix name then (upToDot name).dropLast else name

/-- `PurePath.suffix`. -/
def suffix (name : List Char) : List Char := if hasSuffix name then '.' :: afterDot name else []

/-- `PurePath.with_suffix`. -/
def withSuffix (name new : List Char) : List Char := stem name ++ new

theorem upToDot_append {s t : List Char} (free : '.' ∉ t) : upToDot (s ++ t) = upToDot s := by
  induction t using List.reverseRecOn with
  | nil => rw [List.append_nil]
  | append_singleton t c ih =>
    have plain : c ≠ '.' := fun dot => free (by simp [dot])
    have rest : '.' ∉ t := fun dot => free (by simp [dot])
    rw [← List.append_assoc]
    unfold upToDot at ih ⊢
    rw [List.rdropWhile_concat_pos _ _ _ (by simpa using plain)]
    exact ih rest

theorem afterDot_append {s t : List Char} (free : '.' ∉ t) : afterDot (s ++ t) = afterDot s ++ t := by
  induction t using List.reverseRecOn with
  | nil => rw [List.append_nil, List.append_nil]
  | append_singleton t c ih =>
    have plain : c ≠ '.' := fun dot => free (by simp [dot])
    have rest : '.' ∉ t := fun dot => free (by simp [dot])
    rw [← List.append_assoc, ← List.append_assoc]
    unfold afterDot at ih ⊢
    rw [List.rtakeWhile_concat_pos _ _ _ (by simpa using plain), ih rest]

theorem dot_not_mem_afterDot (name : List Char) : '.' ∉ afterDot name := by
  intro dot
  have := List.mem_rtakeWhile_imp dot
  simp at this

theorem upToDot_concat (s : List Char) : upToDot (s ++ ['.']) = s ++ ['.'] :=
  List.rdropWhile_concat_neg _ _ _ (by simp)

theorem afterDot_concat (s : List Char) : afterDot (s ++ ['.']) = [] :=
  List.rtakeWhile_concat_neg _ _ _ (by simp)

theorem upToDot_append_afterDot (name : List Char) : upToDot name ++ afterDot name = name :=
  List.rdropWhile_append_rtakeWhile

/-- What stands up to the last dot ends with it. -/
theorem upToDot_eq (name : List Char) : upToDot name = [] ∨ ∃ s, upToDot name = s ++ ['.'] := by
  by_cases h : upToDot name = []
  · exact .inl h
  · have last := List.rdropWhile_last_not (fun c => decide (c ≠ '.')) name h
    refine .inr ⟨(upToDot name).dropLast, ?_⟩
    have dot : (upToDot name).getLast h = '.' := by
      rw [decide_eq_true_eq, not_not] at last
      exact last
    rw [← dot]
    exact (List.dropLast_append_getLast h).symm

theorem stem_append_suffix (name : List Char) : stem name ++ suffix name = name := by
  unfold stem suffix
  split
  · next h =>
    rcases upToDot_eq name with none | ⟨s, dotted⟩
    · simp [hasSuffix, none] at h
    · have whole := upToDot_append_afterDot name
      rw [dotted] at whole ⊢
      rw [List.dropLast_concat]
      simpa using whole
  · exact List.append_nil name

/-- A name that is continued after a dot. -/
theorem suffix_append_dot {s t : List Char} (free : '.' ∉ t) (nonempty : t ≠ []) (headed : s ≠ []) :
    suffix (s ++ '.' :: t) = '.' :: t ∧ stem (s ++ '.' :: t) = s := by
  have split : s ++ '.' :: t = (s ++ ['.']) ++ t := by simp
  have up : upToDot (s ++ '.' :: t) = s ++ ['.'] := by rw [split, upToDot_append free, upToDot_concat]
  have after : afterDot (s ++ '.' :: t) = t := by rw [split, afterDot_append free, afterDot_concat, List.nil_append]
  have has : hasSuffix (s ++ '.' :: t) = true := by
    have : 0 < s.length := List.length_pos_iff.mpr headed
    simp only [hasSuffix, up, after, List.length_append, List.length_singleton, Bool.and_eq_true, decide_eq_true_eq]
    exact ⟨by omega, nonempty⟩
  simp [suffix, stem, has, up, after]

theorem suffix_append {s t : List Char} (free : '.' ∉ t) (none : suffix s = []) (undotted : s.getLast? ≠ some '.') :
    suffix (s ++ t) = [] := by
  have short : (upToDot s).length < 2 := by
    by_contra long
    unfold suffix at none
    split at none
    · cases none
    · next h =>
      have trailing : afterDot s = [] := by simpa [hasSuffix, Nat.le_of_not_lt long] using h
      rcases upToDot_eq s with empty | ⟨u, dotted⟩
      · rw [empty] at long
        exact long (by simp)
      · have whole := upToDot_append_afterDot s
        rw [trailing, dotted, List.append_nil] at whole
        rw [← whole] at undotted
        simp at undotted
  unfold suffix hasSuffix
  rw [upToDot_append free]
  have : ¬ 2 ≤ (upToDot s).length := Nat.not_le.mpr short
  simp [this]

theorem stem_of_suffix {name : List Char} (none : suffix name = []) : stem name = name := by
  have whole := stem_append_suffix name
  rwa [none, List.append_nil] at whole

/-- A suffix is a dot with something after it that has no dot. -/
theorem suffix_eq (name : List Char) :
    suffix name = [] ∨ ∃ ext, suffix name = '.' :: ext ∧ ext ≠ [] ∧ '.' ∉ ext := by
  unfold suffix
  split
  · next h =>
    refine .inr ⟨afterDot name, rfl, ?_, dot_not_mem_afterDot name⟩
    simp only [hasSuffix, Bool.and_eq_true, decide_eq_true_eq] at h
    exact h.2
  · exact .inl rfl

/-- What takes the place of the suffix shows, unless it starts with a dot as well. -/
theorem stem_append_ne {name : List Char} {c : Char} (letter : c ≠ '.') (ext : List Char) : stem name ++ c :: ext ≠ name := by
  intro same
  have replaced : suffix name = c :: ext := List.append_cancel_left ((stem_append_suffix name).trans same.symm)
  rcases suffix_eq name with none | ⟨rest, some, -, -⟩
  · rw [none] at replaced
    cases replaced
  · rw [some] at replaced
    exact letter (List.cons.inj replaced).1.symm

/-- The text does not start with a digit. -/
def Undigited (text : List Char) : Prop := ∀ c, text.head? = some c → c.isDigit = false

theorem takeWhile_numeral {n : Nat} {rest : List Char} (undigited : Undigited rest) :
    (Nat.toDigits 10 n ++ rest).takeWhile Char.isDigit = Nat.toDigits 10 n := by
  have digits : ∀ c ∈ Nat.toDigits 10 n, c.isDigit = true := fun c member =>
    Nat.isDigit_of_mem_toDigits (by decide) (by decide) member
  rw [List.takeWhile_append_of_pos digits]
  have stop : rest.takeWhile Char.isDigit = [] := by
    cases rest with
    | nil => rfl
    | cons c rest => exact List.takeWhile_cons_of_neg (by rw [undigited c rfl]; decide)
  rw [stop, List.append_nil]

theorem numeral_injective {m n : Nat} (h : Nat.toDigits 10 m = Nat.toDigits 10 n) : m = n := by
  have := congrArg (Nat.ofDigitChars 10 · 0) h
  simpa only [Nat.ofDigitChars_ten_toDigits] using this

theorem number_of_front {head rest rest' : List Char} {m n : Nat} (left : Undigited rest) (right : Undigited rest')
    (same : head ++ Nat.toDigits 10 m ++ rest = head ++ Nat.toDigits 10 n ++ rest') : m = n := by
  rw [List.append_assoc, List.append_assoc, List.append_cancel_left_eq] at same
  apply numeral_injective
  rw [← takeWhile_numeral left, same, takeWhile_numeral right]

theorem number_of_back {head head' : List Char} {c : Char} {m n : Nat} (letter : c.isDigit = false)
    (same : head ++ c :: Nat.toDigits 10 m = head' ++ c :: Nat.toDigits 10 n) : m = n := by
  have digits : ∀ k, ∀ d ∈ (Nat.toDigits 10 k).reverse, d.isDigit = true := fun k d member =>
    Nat.isDigit_of_mem_toDigits (by decide) (by decide) (List.mem_reverse.mp member)
  have read : ∀ (front : List Char) k, (front ++ c :: Nat.toDigits 10 k).reverse.takeWhile Char.isDigit =
      (Nat.toDigits 10 k).reverse := by
    intro front k
    have reversed : (front ++ c :: Nat.toDigits 10 k).reverse = (Nat.toDigits 10 k).reverse ++ c :: front.reverse := by simp
    rw [reversed, List.takeWhile_append_of_pos (digits k), List.takeWhile_cons_of_neg (by rw [letter]; decide),
      List.append_nil]
  have equal := congrArg (fun name => name.reverse.takeWhile Char.isDigit) same
  simp only [read] at equal
  exact numeral_injective (List.reverse_injective equal)

end H2kvm.Framework.Names
