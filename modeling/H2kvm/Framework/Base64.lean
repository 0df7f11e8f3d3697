import Mathlib.Data.List.Basic

namespace H2kvm.Framework

/-- `[l[i : i + n] for i in range(0, len(l), n)]`. -/
def slices {α : Type*} (n : Nat) (l : List α) : List (List α) :=
  (List.range ((l.length + n - 1) / n)).map fun i => (l.drop (i * n)).take n

section slices

variable {α : Type*} {n : Nat}

theorem slices_nil (pos : 0 < n) : slices n ([] : List α) = [] := by
  have none : (0 + n - 1) / n = 0 := Nat.div_eq_of_lt (by omega)
  rw [slices, List.length_nil, none, List.range_zero, List.map_nil]

theorem slices_of_ne_nil (pos : 0 < n) {l : List α} (some : l ≠ []) : slices n l = l.take n :: slices n (l.drop n) := by
  have long := List.length_pos_iff.mpr some
  have count : (l.length + n - 1) / n = ((l.drop n).length + n - 1) / n + 1 := by
    rw [← Nat.add_div_right _ pos, List.length_drop]
    by_cases more : n ≤ l.length
    · congr 1
      omega
    · rw [Nat.div_eq_of_lt_le (k := 1), Nat.div_eq_of_lt_le (k := 1)] <;> omega
  rw [slices, count, List.range_succ_eq_map, List.map_cons, List.map_map, Nat.zero_mul, List.drop_zero, slices]
  congr 1
  refine List.map_congr_left fun i _ => ?_
  rw [Function.comp_apply, List.drop_drop, Nat.succ_mul, Nat.add_comm n]

theorem flatten_slices (pos : 0 < n) (l : List α) : (slices n l).flatten = l := by
  induction size : l.length using Nat.strongRecOn generalizing l with
  | _ size ih =>
    by_cases none : l = []
    · rw [none, slices_nil pos, List.flatten_nil]
    · have long := List.length_pos_iff.mpr none
      rw [slices_of_ne_nil pos none, List.flatten_cons, ih _ (by rw [List.length_drop]; omega) _ rfl,
        List.take_append_drop]

end slices

namespace Base64

def alphabet : List Char := "ABCDEFGHIJKLMNOPQRSTUVWXYZabcdefghijklmnopqrstuvwxyz0123456789+/".toList

/-- The character of six bits. -/
def symbol (n : Nat) : Char := alphabet.getD n '='

/-- The six bits of a character. -/
def value? (c : Char) : Option Nat := alphabet.idxOf? c

/-- Three bytes make four characters; `=` stands for the characters that one or two bytes do not reach. -/
def encode : List UInt8 → List Char
  | [] => []
  | [a] => [symbol (a.toNat / 4), symbol (a.toNat % 4 * 16), '=', '=']
  | [a, b] =>
    [symbol (a.toNat / 4), symbol (a.toNat % 4 * 16 + b.toNat / 16), symbol (b.toNat % 16 * 4), '=']
  | a :: b :: c :: rest =>
    symbol (a.toNat / 4) :: symbol (a.toNat % 4 * 16 + b.toNat / 16) :: symbol (b.toNat % 16 * 4 + c.toNat / 64) ::
      symbol (c.toNat % 64) :: encode rest

def firstByte (p q : Nat) : UInt8 := UInt8.ofNat (p * 4 + q / 16)

def secondByte (q r : Nat) : UInt8 := UInt8.ofNat (q % 16 * 16 + r / 4)

def thirdByte (r s : Nat) : UInt8 := UInt8.ofNat (r % 4 * 64 + s)

/-- The bytes of whole quanta of four characters; padding may end a quantum. -/
def decode : List Char → Option (List UInt8)
  | [] => some []
  | p :: q :: r :: s :: rest => do
    let p ← value? p
    let q ← value? q
    if r = '=' then
      if s = '=' then return firstByte p q :: (← decode rest) else none
    else
      let r ← value? r
      if s = '=' then return firstByte p q :: secondByte q r :: (← decode rest)
      else
        let s ← value? s
        return firstByte p q :: secondByte q r :: thirdByte r s :: (← decode rest)
  | _ => none

theorem value?_symbol {n : Nat} (small : n < 64) : value? (symbol n) = some n := by
  have table : ∀ n : Fin 64, value? (symbol n) = some n.val := by decide +kernel
  exact table ⟨n, small⟩

theorem symbol_ne_pad {n : Nat} (small : n < 64) : symbol n ≠ '=' := by
  have table : ∀ n : Fin 64, symbol n ≠ '=' := by decide +kernel
  exact table ⟨n, small⟩

theorem ofNat_eq {n : Nat} {a : UInt8} (same : n = a.toNat) : UInt8.ofNat n = a := by
  rw [same, UInt8.ofNat_toNat]

theorem firstByte_eq (a : UInt8) {n : Nat} (small : n < 16) : firstByte (a.toNat / 4) (a.toNat % 4 * 16 + n) = a :=
  ofNat_eq (by omega)

theorem secondByte_eq (b : UInt8) {m n : Nat} (small : n < 4) :
    secondByte (m * 16 + b.toNat / 16) (b.toNat % 16 * 4 + n) = b := by
  have := b.toNat_lt
  exact ofNat_eq (by omega)

theorem thirdByte_eq (c : UInt8) (m : Nat) : thirdByte (m * 4 + c.toNat / 64) (c.toNat % 64) = c := by
  have := c.toNat_lt
  exact ofNat_eq (by omega)

theorem decode_encode (bytes : List UInt8) : decode (encode bytes) = some bytes := by
  fun_induction encode bytes with
  | case1 => rfl
  | case2 a =>
    have := a.toNat_lt
    have first := firstByte_eq a (n := 0) (by decide)
    rw [Nat.add_zero] at first
    simp [decode, value?_symbol (n := a.toNat / 4) (by omega), value?_symbol (n := a.toNat % 4 * 16) (by omega), first]
  | case3 a b =>
    have := a.toNat_lt
    have := b.toNat_lt
    have second := secondByte_eq b (m := a.toNat % 4) (n := 0) (by decide)
    rw [Nat.add_zero] at second
    simp [decode, value?_symbol (n := a.toNat / 4) (by omega),
      value?_symbol (n := a.toNat % 4 * 16 + b.toNat / 16) (by omega), value?_symbol (n := b.toNat % 16 * 4) (by omega),
      symbol_ne_pad (n := b.toNat % 16 * 4) (by omega), firstByte_eq a (n := b.toNat / 16) (by omega), second]
  | case4 a b c rest ih =>
    have := a.toNat_lt
    have := b.toNat_lt
    have := c.toNat_lt
    simp [decode, value?_symbol (n := a.toNat / 4) (by omega),
      value?_symbol (n := a.toNat % 4 * 16 + b.toNat / 16) (by omega),
      value?_symbol (n := b.toNat % 16 * 4 + c.toNat / 64) (by omega), value?_symbol (n := c.toNat % 64) (by omega),
      symbol_ne_pad (n := b.toNat % 16 * 4 + c.toNat / 64) (by omega), symbol_ne_pad (n := c.toNat % 64) (by omega),
      firstByte_eq a (n := b.toNat / 16) (by omega), secondByte_eq b (m := a.toNat % 4) (n := c.toNat / 64) (by omega),
      thirdByte_eq c (b.toNat % 16), ih]

theorem encode_append {xs : List UInt8} (whole : xs.length % 3 = 0) (ys : List UInt8) :
    encode (xs ++ ys) = encode xs ++ encode ys := by
  fun_induction encode xs with
  | case1 => rfl
  | case2 a | case3 a b => simp at whole
  | case4 a b c rest ih =>
    have rest : rest.length % 3 = 0 := by
      simp only [List.length_cons] at whole
      omega
    simp only [List.cons_append, encode, ih rest]

theorem length_encode (bytes : List UInt8) : (encode bytes).length = (bytes.length + 2) / 3 * 4 := by
  fun_induction encode bytes with
  | case1 => rfl
  | case2 a | case3 a b => simp
  | case4 a b c rest ih =>
    simp only [List.length_cons, ih]
    omega

theorem slices_encode {k : Nat} (pos : 0 < k) (bytes : List UInt8) :
    slices (k * 4) (encode bytes) = (slices (k * 3) bytes).map encode := by
  induction size : bytes.length using Nat.strongRecOn generalizing bytes with
  | _ size ih =>
    by_cases none : bytes = []
    · rw [none, encode, slices_nil (by omega), slices_nil (by omega), List.map_nil]
    have long := List.length_pos_iff.mpr none
    have chars : encode bytes ≠ [] := List.length_pos_iff.mp (by rw [length_encode]; omega)
    rw [slices_of_ne_nil (by omega) chars, slices_of_ne_nil (by omega) none, List.map_cons,
      ← ih _ (by rw [List.length_drop]; omega) _ rfl]
    by_cases more : k * 3 ≤ bytes.length
    · have head : (bytes.take (k * 3)).length = k * 3 := List.length_take_of_le more
      have quanta : (encode (bytes.take (k * 3))).length = k * 4 := by
        rw [length_encode, head]
        omega
      have parts : encode bytes = encode (bytes.take (k * 3)) ++ encode (bytes.drop (k * 3)) := by
        rw [← encode_append (by rw [head]; omega), List.take_append_drop]
      rw [parts, List.take_left' quanta, List.drop_left' quanta]
    · -- the last slice
      have short : (encode bytes).length ≤ k * 4 := by
        rw [length_encode]
        omega
      rw [List.take_of_length_le short, List.drop_of_length_le short, List.take_of_length_le (by omega),
        List.drop_of_length_le (by omega), encode]

end Base64

end H2kvm.Framework
