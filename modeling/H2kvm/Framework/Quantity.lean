import H2kvm.Framework.Scanning
import Mathlib.Data.Rat.Floor

namespace H2kvm.Framework

open Text

/-! ### Decimal numbers -/

/-- A number in digits, with a point and the digits after it or without. -/
structure Decimal where
  whole : List Char
  fraction : Option (List Char)
  deriving DecidableEq

namespace Decimal

/-- What the digits after the point are worth. -/
def fractionValue (digits : List Char) : ℚ := intOf digits / 10 ^ digits.length

def value (d : Decimal) : ℚ := intOf d.whole + d.fraction.elim 0 fractionValue

def text (d : Decimal) : List Char := d.whole ++ d.fraction.elim [] ('.' :: ·)

/-- There are digits before the point, and after it if there is one. -/
def Plain (d : Decimal) : Prop := d.whole ≠ [] ∧ d.fraction ≠ some []

instance (d : Decimal) : Decidable d.Plain := inferInstanceAs (Decidable (_ ∧ _))

structure Digits (d : Decimal) : Prop where
  whole : ∀ c ∈ d.whole, c.isDigit = true
  fraction : ∀ digits, d.fraction = some digits → ∀ c ∈ digits, c.isDigit = true

/-- The number at the start of a text, and what follows it. -/
def scan (s : List Char) : Decimal × List Char :=
  match s.dropWhile Char.isDigit with
  | '.' :: rest => (⟨s.takeWhile Char.isDigit, some (rest.takeWhile Char.isDigit)⟩, rest.dropWhile Char.isDigit)
  | rest => (⟨s.takeWhile Char.isDigit, none⟩, rest)

/-- `(\d+(?:\.\d+)?)`, and what follows it. -/
def match? (s : List Char) : Option (Decimal × List Char) :=
  (scanDigits s).map fun (whole, rest) =>
    match rest with
    | '.' :: more => (scanDigits more).elim (⟨whole, none⟩, rest) fun (fraction, rest) => (⟨whole, some fraction⟩, rest)
    | _ => (⟨whole, none⟩, rest)

theorem value_nonneg (d : Decimal) : 0 ≤ d.value := by
  have fraction : 0 ≤ d.fraction.elim 0 fractionValue := by
    cases d.fraction with
    | none => exact le_refl 0
    | some digits => exact div_nonneg (Nat.cast_nonneg _) (by positivity)
  exact add_nonneg (Nat.cast_nonneg _) fraction

theorem scan_text (s : List Char) : s = (scan s).1.text ++ (scan s).2 ∧ (scan s).1.Digits := by
  have whole : ∀ c ∈ s.takeWhile Char.isDigit, c.isDigit = true := fun c member => List.mem_takeWhile_imp member
  have split : s = s.takeWhile Char.isDigit ++ s.dropWhile Char.isDigit := List.takeWhile_append_dropWhile.symm
  unfold scan
  split
  · next rest point =>
    refine ⟨?_, whole, ?_⟩
    · rw [text, Option.elim_some, List.append_assoc, List.cons_append, List.takeWhile_append_dropWhile, ← point]
      exact split
    · intro digits same c member
      cases same
      exact List.mem_takeWhile_imp member
  · refine ⟨?_, whole, nofun⟩
    rw [text, Option.elim_none, List.append_nil]
    exact split

theorem isDigit_of_ascii {c : Char} (ascii : c.isDigit = true) : isDigit c = true := by
  rw [isDigit, digit?_of_isDigit ascii]
  rfl

theorem numeral_of_ascii {digits : List Char} (some : digits ≠ []) (ascii : ∀ c ∈ digits, c.isDigit = true) :
    Numeral digits (intOf digits) :=
  ⟨some, fun c member => isDigit_of_ascii (ascii c member), rfl⟩

theorem match?_text {d : Decimal} {rest : List Char} (plain : d.Plain) (digits : d.Digits)
    (stop : ∀ c, rest.head? = some c → isDigit c = false ∧ c ≠ '.') : match? (d.text ++ rest) = some (d, rest) := by
  obtain ⟨whole, fraction⟩ := d
  have wholeNumeral : Numeral whole (intOf whole) := numeral_of_ascii plain.1 digits.whole
  unfold match?
  cases fraction with
  | none =>
    rw [text, Option.elim_none, List.append_nil, scanDigits_numeral wholeNumeral fun c first => (stop c first).1]
    match rest, stop with
    | [], _ => rfl
    | c :: rest, stop =>
      have notPoint := (stop c rfl).2
      simp only [Option.map_some]
      split
      · next point =>
        cases point
        exact absurd rfl notPoint
      · rfl
  | some fraction =>
    have fractionNumeral : Numeral fraction (intOf fraction) :=
      numeral_of_ascii (fun none => plain.2 (by rw [none])) (digits.fraction fraction rfl)
    rw [text, Option.elim_some, List.append_assoc, scanDigits_numeral wholeNumeral (by
      rintro c ⟨⟩
      decide)]
    simp only [Option.map_some, List.cons_append, scanDigits_numeral fractionNumeral fun c first => (stop c first).1,
      Option.elim_some]

/-- Of a number that is not plain the digits before the point are matched, or nothing. -/
theorem match?_crooked {d : Decimal} {rest : List Char} (crooked : ¬ d.Plain) (digits : d.Digits)
    (some : d.whole ++ d.fraction.getD [] ≠ []) (stop : ∀ c, rest.head? = .some c → isDigit c = false) :
    match? (d.text ++ rest) = none ∨ match? (d.text ++ rest) = .some (⟨d.whole, none⟩, '.' :: rest) := by
  obtain ⟨whole, fraction⟩ := d
  have point {more : List Char} : ∀ c, ('.' :: more).head? = .some c → isDigit c = false := by
    rintro c ⟨⟩
    decide
  cases fraction with
  | none =>
    rw [Option.getD_none, List.append_nil] at some
    exact absurd ⟨some, nofun⟩ crooked
  | some fraction =>
    unfold match?
    rw [text, Option.elim_some, List.append_assoc]
    by_cases bare : whole = []
    · refine .inl ?_
      rw [bare, List.nil_append, List.cons_append, scanDigits, List.takeWhile_cons_of_neg (by decide), if_pos rfl,
        Option.map_none]
    · refine .inr ?_
      have hollow : fraction = [] := by
        by_contra full
        exact crooked ⟨bare, fun same => full (Option.some.inj same)⟩
      have nothing : scanDigits rest = none := by
        rw [scanDigits, if_pos]
        cases rest with
        | nil => rfl
        | cons c rest => exact List.takeWhile_cons_of_neg (by rw [stop c rfl]; decide)
      rw [hollow, List.cons_append, List.nil_append, scanDigits_numeral (numeral_of_ascii bare digits.whole) point]
      simp only [Option.map_some, nothing, Option.elim_none]

end Decimal

/-! ### Quantities -/

namespace Quantity

inductive Suffix where
  | none
  | k
  | M
  | G
  | T
  | Ki
  | Mi
  | Gi
  | Ti
  deriving DecidableEq

namespace Suffix

def all : List Suffix := [none, k, M, G, T, Ki, Mi, Gi, Ti]

def text : Suffix → List Char
  | none => []
  | k => ['k']
  | M => ['M']
  | G => ['G']
  | T => ['T']
  | Ki => ['K', 'i']
  | Mi => ['M', 'i']
  | Gi => ['G', 'i']
  | Ti => ['T', 'i']

def factor : Suffix → ℚ
  | none => 1
  | k => 1000
  | M => 1000 ^ 2
  | G => 1000 ^ 3
  | T => 1000 ^ 4
  | Ki => 1024
  | Mi => 1024 ^ 2
  | Gi => 1024 ^ 3
  | Ti => 1024 ^ 4

def ofText (s : List Char) : Option Suffix := all.find? fun suffix => suffix.text = s

theorem text_of_ofText {s : List Char} {suffix : Suffix} (read : ofText s = some suffix) : s = suffix.text := by
  have found := List.find?_some read
  exact (of_decide_eq_true found).symm

end Suffix

end Quantity

/-- A quantity of Kubernetes: a number of a unit of bytes. -/
structure Quantity where
  number : Decimal
  suffix : Quantity.Suffix
  deriving DecidableEq

namespace Quantity

def bytes (q : Quantity) : ℚ := q.number.value * q.suffix.factor

def text (q : Quantity) : List Char := q.number.text ++ q.suffix.text

/-- How Kubernetes reads a text; there has to be a digit before the point or after it. -/
def read (s : List Char) : Option Quantity := do
  let (number, rest) := Decimal.scan s
  guard (number.whole ++ number.fraction.getD [] ≠ [])
  let suffix ← Suffix.ofText rest
  return { number, suffix }

structure Valid (q : Quantity) : Prop where
  digits : q.number.Digits
  some : q.number.whole ++ q.number.fraction.getD [] ≠ []

theorem read_eq_some {s : List Char} {q : Quantity} (h : read s = some q) : s = q.text ∧ q.Valid := by
  obtain ⟨split, digits⟩ := Decimal.scan_text s
  unfold read at h
  obtain ⟨_, full, h⟩ := Option.bind_eq_some_iff.mp h
  obtain ⟨suffix, unit, made⟩ := Option.bind_eq_some_iff.mp h
  cases made
  refine ⟨?_, digits, ?_⟩
  · rw [text, ← Suffix.text_of_ofText unit]
    exact split
  · by_contra empty
    rw [guard, if_neg (not_not.mpr empty)] at full
    cases full

/-- A whole number of gibibytes. -/
def gi (n : Nat) : Quantity where
  number := ⟨Nat.toDigits 10 n, none⟩
  suffix := .Gi

theorem gi_bytes (n : Nat) : (gi n).bytes = n * 1024 ^ 3 := by
  rw [bytes, gi, Decimal.value, intOf_toDigits, Option.elim_none, add_zero, Suffix.factor]

theorem read_gi (n : Nat) : read (gi n).text = some (gi n) := by
  have digits : ∀ c ∈ Nat.toDigits 10 n, c.isDigit = true := fun c member =>
    Nat.isDigit_of_mem_toDigits (by decide) (by decide) member
  have some : Nat.toDigits 10 n ≠ [] := Nat.toDigits_ne_nil
  have scanned : Decimal.scan (gi n).text = (⟨Nat.toDigits 10 n, none⟩, ['G', 'i']) := by
    rw [Decimal.scan, text, gi, Decimal.text, Option.elim_none, List.append_nil, Suffix.text,
      dropWhile_until digits (by decide), takeWhile_until digits (by decide)]
    rfl
  unfold read
  rw [scanned]
  simp only [Option.getD_none, List.append_nil]
  rw [guard, if_pos some]
  rfl

end Quantity

end H2kvm.Framework
