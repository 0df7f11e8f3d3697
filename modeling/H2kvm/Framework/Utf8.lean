import Mathlib.Data.List.Basic
import Mathlib.Data.Char

namespace H2kvm.Framework.Utf8

/-- What a decoder makes of some bytes: a character, or a run of bytes no character begins with. -/
inductive Piece where
  | char (c : Char)
  | bad (bytes : List UInt8)
  deriving DecidableEq

/-- `text.encode("utf-8")`. -/
def encode (text : List Char) : List UInt8 := text.flatMap String.utf8EncodeChar

def IsTail (b : UInt8) : Prop := 0x80 ≤ b.toNat ∧ b.toNat ≤ 0xbf

/-- The second byte of a character: some first bytes leave it less room. -/
def IsSecond (a b : UInt8) : Prop :=
  IsTail b ∧ (a.toNat = 0xe0 → 0xa0 ≤ b.toNat) ∧ (a.toNat = 0xed → b.toNat ≤ 0x9f) ∧
    (a.toNat = 0xf0 → 0x90 ≤ b.toNat) ∧ (a.toNat = 0xf4 → b.toNat ≤ 0x8f)

instance (b : UInt8) : Decidable (IsTail b) := inferInstanceAs (Decidable (_ ∧ _))

instance (a b : UInt8) : Decidable (IsSecond a b) := inferInstanceAs (Decidable (_ ∧ _))

def assemble₂ (a b : UInt8) : Char := Char.ofNat (a.toNat % 0x20 * 0x40 + b.toNat % 0x40)

def assemble₃ (a b c : UInt8) : Char :=
  Char.ofNat (a.toNat % 0x10 * 0x1000 + b.toNat % 0x40 * 0x40 + c.toNat % 0x40)

def assemble₄ (a b c d : UInt8) : Char :=
  Char.ofNat (a.toNat % 0x08 * 0x40000 + b.toNat % 0x40 * 0x1000 + c.toNat % 0x40 * 0x40 + d.toNat % 0x40)

/-- The decoder; it takes up again at the first byte that does not fit. -/
def pieces : List UInt8 → List Piece
  | [] => []
  | a :: rest =>
    if a.toNat < 0x80 then .char (Char.ofNat a.toNat) :: pieces rest
    else if a.toNat < 0xc2 ∨ 0xf4 < a.toNat then .bad [a] :: pieces rest
    else
      match rest with
      | [] => [.bad [a]]
      | b :: rest =>
        if ¬ IsSecond a b then .bad [a] :: pieces (b :: rest)
        else if a.toNat < 0xe0 then .char (assemble₂ a b) :: pieces rest
        else
          match rest with
          | [] => [.bad [a, b]]
          | c :: rest =>
            if ¬ IsTail c then .bad [a, b] :: pieces (c :: rest)
            else if a.toNat < 0xf0 then .char (assemble₃ a b c) :: pieces rest
            else
              match rest with
              | [] => [.bad [a, b, c]]
              | d :: rest =>
                if ¬ IsTail d then .bad [a, b, c] :: pieces (d :: rest)
                else .char (assemble₄ a b c d) :: pieces rest

namespace Piece

def bytes : Piece → List UInt8
  | char c => String.utf8EncodeChar c
  | bad bytes => bytes

/-- Undecodable bytes are replaced. -/
def text : Piece → Char
  | char c => c
  | bad _ => '\uFFFD'

end Piece

/-- `bytes.decode("utf-8", "replace")`. -/
def decode (bytes : List UInt8) : List Char := (pieces bytes).map Piece.text

theorem toNat_ofNat {v : Nat} (hv : v.isValidChar) : (Char.ofNat v).val.toNat = v := by
  unfold Char.ofNat
  rw [dif_pos hv]
  rfl

theorem ofNat_eq {n : Nat} {a : UInt8} (h : n = a.toNat) : UInt8.ofNat n = a := by
  rw [h, UInt8.ofNat_toNat]

theorem encode_ascii {a : UInt8} (h : a.toNat < 0x80) : String.utf8EncodeChar (Char.ofNat a.toNat) = [a] := by
  have value : (Char.ofNat a.toNat).val.toNat = a.toNat := toNat_ofNat (.inl (by omega))
  have small : a.toNat ≤ 0x7f := by omega
  simp only [String.utf8EncodeChar, value, if_pos small, UInt8.ofNat_toNat]

theorem encode_assemble₂ {a b : UInt8} (low : 0xc2 ≤ a.toNat) (high : a.toNat < 0xe0) (hb : IsSecond a b) :
    String.utf8EncodeChar (assemble₂ a b) = [a, b] := by
  obtain ⟨⟨hb, hb'⟩, -⟩ := hb
  have value : (assemble₂ a b).val.toNat = a.toNat % 0x20 * 0x40 + b.toNat % 0x40 := toNat_ofNat (.inl (by omega))
  unfold String.utf8EncodeChar
  generalize (assemble₂ a b).val.toNat = v at value
  have above : ¬ v ≤ 0x7f := by omega
  have size : v ≤ 0x7ff := by omega
  have first : v / 64 % 0x20 + 0xc0 = a.toNat := by omega
  have second : v % 0x40 + 0x80 = b.toNat := by omega
  simp only [if_neg above, if_pos size, ofNat_eq first, ofNat_eq second]

theorem encode_assemble₃ {a b c : UInt8} (low : 0xe0 ≤ a.toNat) (high : a.toNat < 0xf0) (hb : IsSecond a b)
    (hc : IsTail c) : String.utf8EncodeChar (assemble₃ a b c) = [a, b, c] := by
  obtain ⟨⟨hb, hb'⟩, e0, ed, -⟩ := hb
  obtain ⟨hc, hc'⟩ := hc
  have value : (assemble₃ a b c).val.toNat =
      a.toNat % 0x10 * 0x1000 + b.toNat % 0x40 * 0x40 + c.toNat % 0x40 := by
    apply toNat_ofNat
    by_cases below : a.toNat < 0xee
    · left; omega
    · right; omega
  unfold String.utf8EncodeChar
  generalize (assemble₃ a b c).val.toNat = v at value
  have above : ¬ v ≤ 0x7ff := by omega
  have above' : ¬ v ≤ 0x7f := by omega
  have size : v ≤ 0xffff := by omega
  have first : v / 4096 % 0x10 + 0xe0 = a.toNat := by omega
  have second : v / 64 % 0x40 + 0x80 = b.toNat := by omega
  have third : v % 0x40 + 0x80 = c.toNat := by omega
  simp only [if_neg above', if_neg above, if_pos size, ofNat_eq first, ofNat_eq second, ofNat_eq third]

theorem encode_assemble₄ {a b c d : UInt8} (low : 0xf0 ≤ a.toNat) (high : a.toNat ≤ 0xf4) (hb : IsSecond a b)
    (hc : IsTail c) (hd : IsTail d) : String.utf8EncodeChar (assemble₄ a b c d) = [a, b, c, d] := by
  obtain ⟨⟨hb, hb'⟩, -, -, f0, f4⟩ := hb
  obtain ⟨hc, hc'⟩ := hc
  obtain ⟨hd, hd'⟩ := hd
  have value : (assemble₄ a b c d).val.toNat =
      a.toNat % 0x08 * 0x40000 + b.toNat % 0x40 * 0x1000 + c.toNat % 0x40 * 0x40 + d.toNat % 0x40 := by
    apply toNat_ofNat
    right
    omega
  unfold String.utf8EncodeChar
  generalize (assemble₄ a b c d).val.toNat = v at value
  have above : ¬ v ≤ 0xffff := by omega
  have above' : ¬ v ≤ 0x7ff := by omega
  have above'' : ¬ v ≤ 0x7f := by omega
  have first : v / 262144 % 0x08 + 0xf0 = a.toNat := by omega
  have second : v / 4096 % 0x40 + 0x80 = b.toNat := by omega
  have third : v / 64 % 0x40 + 0x80 = c.toNat := by omega
  have fourth : v % 0x40 + 0x80 = d.toNat := by omega
  simp only [if_neg above'', if_neg above', if_neg above, ofNat_eq first, ofNat_eq second, ofNat_eq third,
    ofNat_eq fourth]

/-- Decoding loses nothing: the pieces are the bytes. -/
theorem flatMap_bytes_pieces (bs : List UInt8) : (pieces bs).flatMap Piece.bytes = bs := by
  fun_induction pieces bs with
  | case1 => rfl
  | case2 a rest ascii ih => rw [List.flatMap_cons, ih, Piece.bytes, encode_ascii ascii, List.singleton_append]
  | case3 a rest _ _ ih => rw [List.flatMap_cons, ih, Piece.bytes, List.singleton_append]
  | case4 | case7 | case10 => rfl
  | case5 a _ _ b rest _ ih => rw [List.flatMap_cons, ih, Piece.bytes, List.singleton_append]
  | case6 a _ lead b rest second two ih =>
    rw [List.flatMap_cons, ih, Piece.bytes, encode_assemble₂ (by omega) two (not_not.mp second)]
    rfl
  | case8 a _ lead b second _ c rest _ ih =>
    rw [List.flatMap_cons, ih, Piece.bytes]
    rfl
  | case9 a _ lead b second two c rest tail three ih =>
    rw [List.flatMap_cons, ih, Piece.bytes,
      encode_assemble₃ (by omega) three (not_not.mp second) (not_not.mp tail)]
    rfl
  | case11 a _ lead b second _ c tail _ d rest _ ih =>
    rw [List.flatMap_cons, ih, Piece.bytes]
    rfl
  | case12 a _ lead b second two c tail three d rest tail' ih =>
    rw [List.flatMap_cons, ih, Piece.bytes,
      encode_assemble₄ (by omega) (by omega) (not_not.mp second) (not_not.mp tail) (not_not.mp tail')]
    rfl

section steps

variable {a b c d : UInt8} {rest : List UInt8}

theorem pieces_ascii (h : a.toNat < 0x80) : pieces (a :: rest) = .char (Char.ofNat a.toNat) :: pieces rest := by
  rw [pieces.eq_def]
  simp only [if_pos h]

theorem pieces_stray (low : 0x80 ≤ a.toNat) (h : a.toNat < 0xc2 ∨ 0xf4 < a.toNat) :
    pieces (a :: rest) = .bad [a] :: pieces rest := by
  have above : ¬ a.toNat < 0x80 := by omega
  rw [pieces.eq_def]
  simp only [if_neg above, if_pos h]

theorem pieces_lead (low : 0xc2 ≤ a.toNat) (high : a.toNat ≤ 0xf4) (hb : ¬ IsSecond a b) :
    pieces (a :: b :: rest) = .bad [a] :: pieces (b :: rest) := by
  have above : ¬ a.toNat < 0x80 := by omega
  have lead : ¬ (a.toNat < 0xc2 ∨ 0xf4 < a.toNat) := by omega
  rw [pieces.eq_def]
  simp only [if_neg above, if_neg lead, if_pos hb]

theorem pieces_two (low : 0xc2 ≤ a.toNat) (high : a.toNat < 0xe0) (hb : IsSecond a b) :
    pieces (a :: b :: rest) = .char (assemble₂ a b) :: pieces rest := by
  have above : ¬ a.toNat < 0x80 := by omega
  have lead : ¬ (a.toNat < 0xc2 ∨ 0xf4 < a.toNat) := by omega
  rw [pieces.eq_def]
  simp only [if_neg above, if_neg lead, if_neg (not_not_intro hb), if_pos high]

/-- After a first byte of three or four and the second, the third decides. -/
theorem pieces_third (low : 0xe0 ≤ a.toNat) (high : a.toNat ≤ 0xf4) (hb : IsSecond a b) :
    pieces (a :: b :: c :: rest) =
      if ¬ IsTail c then .bad [a, b] :: pieces (c :: rest)
      else if a.toNat < 0xf0 then .char (assemble₃ a b c) :: pieces rest
      else
        match rest with
        | [] => [.bad [a, b, c]]
        | d :: rest =>
          if ¬ IsTail d then .bad [a, b, c] :: pieces (d :: rest)
          else .char (assemble₄ a b c d) :: pieces rest := by
  have above : ¬ a.toNat < 0x80 := by omega
  have lead : ¬ (a.toNat < 0xc2 ∨ 0xf4 < a.toNat) := by omega
  have long : ¬ a.toNat < 0xe0 := by omega
  rw [pieces.eq_def]
  simp only [if_neg above, if_neg lead, if_neg (not_not_intro hb), if_neg long]

theorem pieces_lead₂ (low : 0xe0 ≤ a.toNat) (high : a.toNat ≤ 0xf4) (hb : IsSecond a b) (hc : ¬ IsTail c) :
    pieces (a :: b :: c :: rest) = .bad [a, b] :: pieces (c :: rest) := by
  rw [pieces_third low high hb, if_pos hc]

theorem pieces_three (low : 0xe0 ≤ a.toNat) (high : a.toNat < 0xf0) (hb : IsSecond a b) (hc : IsTail c) :
    pieces (a :: b :: c :: rest) = .char (assemble₃ a b c) :: pieces rest := by
  rw [pieces_third low (by omega) hb, if_neg (not_not_intro hc), if_pos high]

theorem pieces_lead₃ (low : 0xf0 ≤ a.toNat) (high : a.toNat ≤ 0xf4) (hb : IsSecond a b) (hc : IsTail c)
    (hd : ¬ IsTail d) : pieces (a :: b :: c :: d :: rest) = .bad [a, b, c] :: pieces (d :: rest) := by
  have longer : ¬ a.toNat < 0xf0 := by omega
  rw [pieces_third (by omega) high hb, if_neg (not_not_intro hc), if_neg longer]
  exact if_pos hd

theorem pieces_four (low : 0xf0 ≤ a.toNat) (high : a.toNat ≤ 0xf4) (hb : IsSecond a b) (hc : IsTail c)
    (hd : IsTail d) : pieces (a :: b :: c :: d :: rest) = .char (assemble₄ a b c d) :: pieces rest := by
  have longer : ¬ a.toNat < 0xf0 := by omega
  rw [pieces_third (by omega) high hb, if_neg (not_not_intro hc), if_neg longer]
  exact if_neg (not_not_intro hd)

end steps

/-- An ASCII byte ends whatever was begun before it. -/
theorem pieces_append_ascii {z : UInt8} (ascii : z.toNat < 0x80) (l r : List UInt8) :
    pieces (l ++ z :: r) = pieces l ++ .char (Char.ofNat z.toNat) :: pieces r := by
  have noSecond (x : UInt8) : ¬ IsSecond x z := fun h => by
    have := h.1.1
    omega
  have noTail : ¬ IsTail z := fun h => by
    have := h.1
    omega
  fun_induction pieces l with
  | case1 => exact pieces_ascii ascii
  | case2 a rest first ih => rw [List.cons_append, pieces_ascii first, ih, List.cons_append]
  | case3 a rest above stray ih => rw [List.cons_append, pieces_stray (by omega) stray, ih, List.cons_append]
  | case4 a _ lead =>
    rw [List.singleton_append, pieces_lead (by omega) (by omega) (noSecond a), pieces_ascii ascii]
    rfl
  | case5 a _ lead b rest hb ih =>
    rw [List.cons_append, List.cons_append, pieces_lead (by omega) (by omega) hb, ← List.cons_append, ih]
    rfl
  | case6 a _ lead b rest hb two ih =>
    rw [List.cons_append, List.cons_append, pieces_two (by omega) two (not_not.mp hb), ih]
    rfl
  | case7 a _ lead b hb long =>
    rw [List.cons_append, List.singleton_append, pieces_lead₂ (by omega) (by omega) (not_not.mp hb) noTail,
      pieces_ascii ascii]
    rfl
  | case8 a _ lead b hb long c rest hc ih =>
    rw [List.cons_append, List.cons_append, List.cons_append,
      pieces_lead₂ (by omega) (by omega) (not_not.mp hb) hc, ← List.cons_append, ih]
    rfl
  | case9 a _ lead b hb long c rest hc three ih =>
    rw [List.cons_append, List.cons_append, List.cons_append,
      pieces_three (by omega) three (not_not.mp hb) (not_not.mp hc), ih]
    rfl
  | case10 a _ lead b hb long c hc longer =>
    rw [List.cons_append, List.cons_append, List.singleton_append,
      pieces_lead₃ (by omega) (by omega) (not_not.mp hb) (not_not.mp hc) noTail, pieces_ascii ascii]
    rfl
  | case11 a _ lead b hb long c hc longer d rest hd ih =>
    rw [List.cons_append, List.cons_append, List.cons_append, List.cons_append,
      pieces_lead₃ (by omega) (by omega) (not_not.mp hb) (not_not.mp hc) hd, ← List.cons_append, ih]
    rfl
  | case12 a _ lead b hb long c hc longer d rest hd ih =>
    rw [List.cons_append, List.cons_append, List.cons_append, List.cons_append,
      pieces_four (by omega) (by omega) (not_not.mp hb) (not_not.mp hc) (not_not.mp hd), ih]
    rfl

theorem ofNat_of_toNat {c : Char} {n : Nat} (h : n = c.val.toNat) : Char.ofNat n = c := by
  rw [h]
  exact Char.ofNat_toNat c

theorem toNat_ofNat_of_lt {n : Nat} (h : n < 256) : (UInt8.ofNat n).toNat = n :=
  UInt8.toNat_ofNat_of_lt' h

/-- A character is read off its encoding, whatever comes after it. -/
theorem pieces_encodeChar_append (c : Char) (rest : List UInt8) :
    pieces (String.utf8EncodeChar c ++ rest) = .char c :: pieces rest := by
  have valid : c.val.toNat < 0xd800 ∨ 0xdfff < c.val.toNat ∧ c.val.toNat < 0x110000 := c.valid
  unfold String.utf8EncodeChar
  simp only
  generalize value : c.val.toNat = v at valid
  split
  · rename_i one
    have ha : (UInt8.ofNat v).toNat = v := toNat_ofNat_of_lt (by omega)
    rw [List.singleton_append, pieces_ascii (by omega), ofNat_of_toNat (c := c) (by omega)]
  split
  · rename_i above two
    have ha := toNat_ofNat_of_lt (n := v / 64 % 0x20 + 0xc0) (by omega)
    have hb := toNat_ofNat_of_lt (n := v % 0x40 + 0x80) (by omega)
    have second : IsSecond (UInt8.ofNat (v / 64 % 0x20 + 0xc0)) (UInt8.ofNat (v % 0x40 + 0x80)) := by
      refine ⟨⟨?_, ?_⟩, ?_, ?_, ?_, ?_⟩
      all_goals omega
    rw [List.cons_append, List.singleton_append, pieces_two (by omega) (by omega) second, assemble₂,
      ofNat_of_toNat (c := c) (by omega)]
  split
  · rename_i _ above three
    have ha := toNat_ofNat_of_lt (n := v / 4096 % 0x10 + 0xe0) (by omega)
    have hb := toNat_ofNat_of_lt (n := v / 64 % 0x40 + 0x80) (by omega)
    have hc := toNat_ofNat_of_lt (n := v % 0x40 + 0x80) (by omega)
    have second : IsSecond (UInt8.ofNat (v / 4096 % 0x10 + 0xe0)) (UInt8.ofNat (v / 64 % 0x40 + 0x80)) := by
      refine ⟨⟨?_, ?_⟩, ?_, ?_, ?_, ?_⟩
      all_goals omega
    have third : IsTail (UInt8.ofNat (v % 0x40 + 0x80)) := ⟨by omega, by omega⟩
    rw [List.cons_append, List.cons_append, List.singleton_append, pieces_three (by omega) (by omega) second third,
      assemble₃, ofNat_of_toNat (c := c) (by omega)]
  · have ha := toNat_ofNat_of_lt (n := v / 262144 % 0x08 + 0xf0) (by omega)
    have hb := toNat_ofNat_of_lt (n := v / 4096 % 0x40 + 0x80) (by omega)
    have hc := toNat_ofNat_of_lt (n := v / 64 % 0x40 + 0x80) (by omega)
    have hd := toNat_ofNat_of_lt (n := v % 0x40 + 0x80) (by omega)
    have second : IsSecond (UInt8.ofNat (v / 262144 % 0x08 + 0xf0)) (UInt8.ofNat (v / 4096 % 0x40 + 0x80)) := by
      refine ⟨⟨?_, ?_⟩, ?_, ?_, ?_, ?_⟩
      all_goals omega
    have third : IsTail (UInt8.ofNat (v / 64 % 0x40 + 0x80)) := ⟨by omega, by omega⟩
    have fourth : IsTail (UInt8.ofNat (v % 0x40 + 0x80)) := ⟨by omega, by omega⟩
    rw [List.cons_append, List.cons_append, List.cons_append, List.singleton_append,
      pieces_four (by omega) (by omega) second third fourth, assemble₄, ofNat_of_toNat (c := c) (by omega)]

theorem pieces_encode (cs : List Char) : pieces (encode cs) = cs.map .char := by
  induction cs with
  | nil => rfl
  | cons c cs ih =>
    rw [encode, List.flatMap_cons, pieces_encodeChar_append, List.map_cons]
    exact congrArg _ ih

theorem decode_encode (text : List Char) : decode (encode text) = text := by
  rw [decode, pieces_encode, List.map_map]
  exact List.map_id text

theorem encode_append (xs ys : List Char) : encode (xs ++ ys) = encode xs ++ encode ys :=
  List.flatMap_append

theorem decode_append_newline (l r : List UInt8) : decode (l ++ 10 :: r) = decode l ++ '\n' :: decode r := by
  rw [decode, pieces_append_ascii (by decide), List.map_append, List.map_cons]
  rfl

theorem decode_eq_nil {bs : List UInt8} (h : decode bs = []) : bs = [] := by
  rw [← flatMap_bytes_pieces bs, List.map_eq_nil_iff.mp h]
  rfl

theorem encode_decode {bs : List UInt8} (clean : ∀ p ∈ pieces bs, ∃ c, p = .char c) : encode (decode bs) = bs := by
  have same : ∀ ps : List Piece, (∀ p ∈ ps, ∃ c, p = .char c) →
      (ps.map Piece.text).flatMap String.utf8EncodeChar = ps.flatMap Piece.bytes := by
    intro ps clean
    induction ps with
    | nil => rfl
    | cons p ps ih =>
      obtain ⟨c, rfl⟩ := clean p List.mem_cons_self
      have rest := ih fun q hq => clean q (List.mem_cons_of_mem _ hq)
      rw [List.map_cons, List.flatMap_cons, List.flatMap_cons, rest]
      rfl
  rw [encode, decode, same _ clean, flatMap_bytes_pieces]

theorem newline_of_mem_encodeChar {c : Char} (h : (10 : UInt8) ∈ String.utf8EncodeChar c) : c = '\n' := by
  have read := pieces_encodeChar_append c []
  rw [List.append_nil] at read
  obtain ⟨before, after, split⟩ := List.append_of_mem h
  rw [split, pieces_append_ascii (by decide)] at read
  cases hb : pieces before with
  | nil =>
    rw [hb] at read
    exact (Piece.char.inj (List.cons.inj read).1).symm
  | cons p ps =>
    have length := congrArg List.length read
    have none : pieces [] = [] := rfl
    rw [hb, none, List.length_append, List.length_cons, List.length_cons, List.length_singleton] at length
    omega

theorem newline_mem_encode {cs : List Char} : (10 : UInt8) ∈ encode cs ↔ '\n' ∈ cs := by
  rw [encode, List.mem_flatMap]
  constructor
  · intro h
    obtain ⟨c, hc, here⟩ := h
    exact newline_of_mem_encodeChar here ▸ hc
  · intro h
    exact ⟨'\n', h, by decide⟩

end H2kvm.Framework.Utf8
