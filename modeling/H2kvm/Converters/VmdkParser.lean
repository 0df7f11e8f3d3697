import Mathlib
import H2kvm.Converters.Descriptor
import H2kvm.Framework.Utf8
import H2kvm.Converters.Manifest
import H2kvm.Network.Scan

namespace H2kvm.Converters.VMDK

open Descriptor Framework Text
open Network (afterWord foldCase lower)

/-- `Extent`. -/
structure Extent where
  access : Access
  sizeSectors : Nat
  type : ExtentType
  file : List Char
  lineNumber : Nat

/-- `DescriptorInfo`. -/
structure DescriptorInfo where
  extents : List Extent := []
  parent : Option (List Char) := none
  cid : Option (List Char) := none
  parentCid : Option (List Char) := none
  createType : Option (List Char) := none
  version : Option (List Char) := none
  encoding : Option (List Char) := none
  adapterType : Option (List Char) := none
  sizeSectors : Option Nat := none
  kv : Dict (List Char) (List Char) := ∅

/-- The file of an extent, which ends the line. -/
def extentTail (s : List Char) : Option (List Char) := do
  let s ← skipSpaces s
  let (file, s) ← scanQuoted s
  if file ≠ [] ∧ s.dropWhile isSpace = [] then some file else none

/-- The type of an extent, and its file. -/
def typeAndFile (s : List Char) : Option (ExtentType × List Char) :=
  [ExtentType.sparse, .flat, .zero, .vmfs, .vmfssparse, .vmfsrdm, .vmfsraw, .sesparse].findSome? fun type =>
    ((afterWord (type.name.map foldCase) s).bind extentTail).map (type, ·)

/-- What follows the access of an extent. -/
def afterAccess (lineNumber : Nat) (access : Access) (s : List Char) : Option Extent := do
  let s ← skipSpaces s
  let (size, s) ← scanDigits s
  let s ← skipSpaces s
  let (type, file) ← typeAndFile s
  some ⟨access, intOf size, type, file, lineNumber⟩

/-- `VMDK.EXTENT_RE`, of a line with its number. -/
def extentRe (lineNumber : Nat) (line : List Char) : Option Extent :=
  [Access.rw, .rdonly, .noaccess].findSome? fun access =>
    (afterWord (access.name.map foldCase) (line.dropWhile isSpace)).bind (afterAccess lineNumber access)

def cidKey : List Char := "cid".toList
def parentCidKey : List Char := "parentcid".toList
def parentKey : List Char := "parentfilenamehint".toList
def createTypeKey : List Char := "createtype".toList
def versionKey : List Char := "version".toList
def encodingKey : List Char := "encoding".toList
def adapterTypeKey : List Char := "ddb.adaptertype".toList

/-- A key, a sign, and the digits that end the line. -/
def cidKeyRe (sign : Char) (key line : List Char) : Option (List Char × List Char) :=
  (afterWord key line).bind fun s =>
    if (s.dropWhile isSpace).head? = some sign then
      (Extract.OVF.hexAtEnd (s.dropWhile isSpace).tail).map (line.take key.length, ·)
    else none

/-- `VMDK._CID_EQ_RE` and `VMDK._CID_COLON_RE`, by the sign between key and value. -/
def cidRe (sign : Char) (line : List Char) : Option (List Char × List Char) :=
  (cidKeyRe sign cidKey (line.dropWhile isSpace)).or (cidKeyRe sign parentCidKey (line.dropWhile isSpace))

/-- `^\s*([^=:#]+?)\s*=\s*` of a line without spaces around it, and what follows. -/
def keyRe (line : List Char) : Option (List Char × List Char) :=
  let key := line.takeWhile (· ≠ '=')
  match line.dropWhile (· ≠ '=') with
  | _ :: rest => if key = [] ∨ ':' ∈ key ∨ '#' ∈ key then none else some (strip key, rest.dropWhile isSpace)
  | [] => none

/-- `VMDK._KV_QUOTED_RE`. -/
def kvQuotedRe (line : List Char) : Option (List Char × List Char) := do
  let (key, s) ← keyRe line
  let (value, s) ← scanQuoted s
  if s.dropWhile isSpace = [] then some (key, value) else none

/-- `VMDK._KV_BARE_RE`. -/
def kvBareRe (line : List Char) : Option (List Char × List Char) := do
  let (key, value) ← keyRe line
  if value = [] ∨ '#' ∈ value ∨ ';' ∈ value then none else some (key, value)

/-- `v.strip().strip('"')` -/
def unquote (value : List Char) : List Char := ((strip value).dropWhile (· = '"')).rdropWhile (· = '"')

/-- What a line is taken for. -/
inductive Item
  | extent (extent : Extent)
  | cid (key value : List Char)
  | quoted (key value : List Char)
  | bare (key value : List Char)

/-- The expressions are tried in order. -/
def itemOf (lineNumber : Nat) (line : List Char) : Option Item :=
  ((extentRe lineNumber line).map .extent).or <|
    (((cidRe '=' line).or (cidRe ':' line)).map fun (key, value) => .cid key value).or <|
      ((kvQuotedRe line).map fun (key, value) => .quoted key value).or <|
        (kvBareRe line).map fun (key, value) => .bare key value

/-- The value of a key is kept, and that of some keys by itself. -/
def DescriptorInfo.assign (info : DescriptorInfo) (k v : List Char) : DescriptorInfo :=
  let info := { info with kv := info.kv.insert k v }
  if k = parentKey then { info with parent := some v }
  else if k = createTypeKey then { info with createType := some v }
  else if k = encodingKey then { info with encoding := some v }
  else if k = adapterTypeKey then { info with adapterType := some v }
  else info

/-- What is kept of a line. -/
def DescriptorInfo.keep (info : DescriptorInfo) : Item → DescriptorInfo
  | .extent extent => { info with extents := info.extents ++ [extent] }
  | .cid key value =>
    let info := { info with kv := info.kv.insert (lower key) value }
    if lower key = cidKey then { info with cid := some value } else { info with parentCid := some value }
  | .quoted key value => info.assign (lower (strip key)) value
  | .bare key value =>
    let k := lower (strip key)
    let v := unquote value
    if k = versionKey then { info with kv := info.kv.insert k v, version := some v } else info.assign k v

/-- One line. -/
def parseLine (info : DescriptorInfo) (next : List Char × Nat) : DescriptorInfo :=
  let line := strip next.1
  if line = [] ∨ line.head? = some '#' then info else (itemOf next.2 line).elim info info.keep

def maxDescriptorSize : Nat := 8 * 1024 * 1024

def isPrintable (b : UInt8) : Bool := (32 ≤ b && b ≤ 126) || b ∈ [9, 10, 13]

/-- `VMDK._is_text_descriptor`, of the bytes of a file: at least four in five at its start can be printed. -/
def isTextDescriptor (bytes : List UInt8) : Bool :=
  let head := bytes.take 8192
  bytes ≠ [] && bytes.length ≤ maxDescriptorSize && 0 ∉ head && 4 * head.length ≤ 5 * head.countP isPrintable

/-- `VMDK.parse_descriptor_info`, of a file with this text. -/
def parseDescriptorInfo (content : List Char) : Option DescriptorInfo :=
  if isTextDescriptor (Utf8.encode content) then
    let info := ((splitlines content).zipIdx 1).foldl parseLine {}
    if info.extents = [] then some info
    else some { info with sizeSectors := some (info.extents.map (·.sizeSectors)).sum }
  else none

section words

variable {word w rest s : List Char} {c : Char}

theorem afterWord_self (w rest : List Char) : afterWord (w.map foldCase) (w ++ rest) = some rest := by
  rw [afterWord, List.length_map, List.take_left, if_pos rfl, List.drop_left]

theorem afterWord_of_after (found : after w s = some rest) : afterWord (w.map foldCase) s = some rest := by
  rw [after] at found
  split at found
  · next start =>
    obtain ⟨t, rfl⟩ := start
    rw [List.drop_left] at found
    rw [← Option.some.inj found, afterWord_self]
  · cases found

theorem of_afterWord (found : afterWord word s = some rest) : ∃ w, s = w ++ rest ∧ w.map foldCase = word := by
  rw [afterWord] at found
  split at found
  · next same =>
    cases found
    exact ⟨s.take word.length, (List.take_append_drop _ s).symm, same⟩
  · cases found

/-- What is left of a text that starts with a word, where a space or the end comes after both. -/
theorem folded_unique {other : List Char} (visible : ∀ c ∈ other.map foldCase, isSpace c = false)
    (found : afterWord (other.map foldCase) (w ++ rest) = some s) (visible' : ∀ c ∈ w, isSpace c = false)
    (ended : Ended rest) (ended' : Ended s) : other.map foldCase = w.map foldCase := by
  obtain ⟨x, split, folded⟩ := of_afterWord found
  have plain : ∀ c ∈ x, isSpace c = false := by
    intro c member
    rw [Bool.eq_false_iff]
    intro space
    have there : foldCase c ∈ other.map foldCase := folded ▸ List.mem_map_of_mem member
    rw [Network.foldCase_of_isSpace space] at there
    rw [visible c there] at space
    cases space
  rw [← folded, word_unique visible' plain ended ended' split]

theorem access_folded (access : Access) : ∀ c ∈ access.name.map foldCase, isSpace c = false := by
  cases access <;> decide

theorem type_folded (type : ExtentType) : ∀ c ∈ type.name.map foldCase, isSpace c = false := by
  cases type <;> decide

theorem access_injective {access access' : Access} (same : access.name.map foldCase = access'.name.map foldCase) :
    access = access' := by
  cases access <;> cases access' <;> first | rfl | exact absurd same (by decide)

theorem type_injective {type type' : ExtentType} (same : type.name.map foldCase = type'.name.map foldCase) :
    type = type' := by
  cases type <;> cases type' <;> first | rfl | exact absurd same (by decide)

theorem ended_of_skipSpaces (skipped : skipSpaces s = some rest) : Ended s := by
  obtain ⟨c, s, rfl, space⟩ := head?_of_skipSpaces skipped
  rintro d ⟨⟩
  exact space

end words

section extents

variable {file offset digits gap gap' : List Char} {named? : Option (List Char)} {offset? : Option Nat} {n size : Nat}
  {access : Access} {type : ExtentType}

theorem typeAndFile_name {rest : List Char} (ended : Ended rest) :
    typeAndFile (type.name ++ rest) = (extentTail rest).map (type, ·) := by
  rw [typeAndFile, findSome?_only (a := type) (by cases type <;> decide), afterWord_self, Option.bind_some]
  intro other _ differs
  cases found : afterWord (other.name.map foldCase) (type.name ++ rest) with
  | none => rfl
  | some s =>
    cases skipped : skipSpaces s with
    | none => rw [Option.bind_some, extentTail, skipped]; rfl
    | some s' =>
      have same := folded_unique (type_folded other) found (type_visible type) ended (ended_of_skipSpaces skipped)
      exact absurd (type_injective same) differs

theorem afterAccess_line {rest : List Char} (spaces : Gap gap) (numeral : Numeral digits size) (spaces' : Gap gap')
    (ended : Ended rest) : afterAccess n access (gap ++ (digits ++ (gap' ++ (type.name ++ rest)))) =
      (extentTail rest).map fun file => ⟨access, size, type, file, n⟩ := by
  have visible : ∀ c ∈ digits, isSpace c = false := fun c member => isSpace_of_isDigit (numeral.all c member)
  have name : type.name ≠ [] := by cases type <;> decide
  rw [afterAccess, skipSpaces_word spaces numeral.some visible]
  simp only [bind, Option.bind_some, scanDigits_numeral numeral (spaces'.ended _).undigited,
    skipSpaces_word spaces' name (type_visible type), typeAndFile_name ended, numeral.value]
  cases extentTail rest <;> rfl

theorem extentRe_line {rest : List Char} (spaces : Gap gap) (numeral : Numeral digits size) (spaces' : Gap gap')
    (ended : Ended rest) : extentRe n (access.name ++ (gap ++ (digits ++ (gap' ++ (type.name ++ rest))))) =
      (extentTail rest).map fun file => ⟨access, size, type, file, n⟩ := by
  have name : access.name ≠ [] := by cases access <;> decide
  have start (rest : List Char) : (access.name ++ rest).dropWhile isSpace = access.name ++ rest := by
    obtain ⟨c, word, form⟩ := List.exists_cons_of_ne_nil name
    rw [form, List.cons_append, List.dropWhile_cons_of_neg]
    rw [access_visible access c (form ▸ List.mem_cons_self)]
    decide
  rw [extentRe, start, findSome?_only (a := access) (by cases access <;> decide), afterWord_self, Option.bind_some,
    afterAccess_line spaces numeral spaces' ended]
  intro other _ differs
  cases found : afterWord (other.name.map foldCase) (access.name ++ (gap ++ (digits ++ (gap' ++ (type.name ++ rest))))) with
  | none => rfl
  | some s =>
    cases skipped : skipSpaces s with
    | none => rw [Option.bind_some, afterAccess, skipped]; rfl
    | some s' =>
      have same := folded_unique (access_folded other) found (access_visible access) (spaces.ended _)
        (ended_of_skipSpaces skipped)
      exact absurd (access_injective same) differs

/-- The rest of the line is a quoted name. -/
theorem extentTail_named (named : FileText named? file) (placed : OffsetText offset? offset) :
    extentTail (file ++ offset) = if offset? = none then named? else none := by
  cases named with
  | none =>
    rw [List.nil_append]
    cases placed with
    | none => rfl
    | @some gap digits k spaces numeral =>
      have visible : ∀ c ∈ digits, isSpace c = false := fun c member => isSpace_of_isDigit (numeral.all c member)
      have other : digits.head? ≠ some '"' := by
        intro first
        exact absurd (numeral.all _ (List.mem_of_head? first)) (by decide)
      have skipped : skipSpaces (gap ++ digits) = some digits := by
        have skipped : skipSpaces (gap ++ (digits ++ [])) = some (digits ++ []) :=
          skipSpaces_word spaces numeral.some visible
        rwa [List.append_nil] at skipped
      rw [extentTail, skipped]
      simp only [bind, Option.bind_some, scanQuoted_other other, Option.bind_none, reduceCtorEq, if_false]
  | @some gap name spaces some free =>
    have quote : gap ++ '"' :: (name ++ ['"']) ++ offset = gap ++ '"' :: (name ++ '"' :: offset) := by simp
    rw [quote, extentTail, skipSpaces_gap spaces (by decide)]
    simp only [bind, Option.bind_some, scanQuoted_name free]
    cases placed with
    | none => simp [some]
    | @some gap' digits k spaces' numeral =>
      have left : (gap' ++ digits).dropWhile isSpace ≠ [] := by
        intro none
        obtain ⟨d, ds, form⟩ := List.exists_cons_of_ne_nil numeral.some
        have space := List.dropWhile_eq_nil_iff.mp none d (by simp [form])
        rw [isSpace_of_isDigit (numeral.all d (form ▸ List.mem_cons_self))] at space
        cases space
      simp [left]

end extents

section keys

variable {key gap rest s word value : List Char} {sign : Char}

theorem lower_key (plain : ∀ c ∈ key, isKeyChar c = true) : lower key = key.map foldCase := by
  induction key with
  | nil => rfl
  | cons c key ih =>
    have small : c.toNat < 128 := by
      have := plain c List.mem_cons_self
      simp only [isKeyChar, Bool.and_eq_true, decide_eq_true_eq] at this
      exact this.1.1
    have apart (d : Char) (large : 128 ≤ d.toNat) : c ≠ d := by
      rintro rfl
      omega
    have here : lower [c] = [foldCase c] := by
      rw [lower, foldCase, if_neg (not_or.mpr ⟨apart _ (by decide), apart _ (by decide)⟩), if_neg (apart _ (by decide)),
        if_neg (apart _ (by decide)), List.flatMap_cons, if_neg (apart _ (by decide)), if_neg (apart _ (by decide))]
      rfl
    have split : lower (c :: key) = lower [c] ++ lower key := by simp [lower]
    rw [split, here, ih fun d member => plain d (List.mem_cons_of_mem c member)]
    rfl

theorem afterWord_key (spaces : Blank gap) (visible : ∀ c ∈ word, isSpace c = false) (unsigned : '=' ∉ word)
    (found : afterWord word (key ++ (gap ++ '=' :: rest)) = some s) :
    ∃ w key', key = w ++ key' ∧ w.map foldCase = word ∧ s = key' ++ (gap ++ '=' :: rest) := by
  obtain ⟨w, split, folded⟩ := of_afterWord found
  rcases List.append_eq_append_iff.mp split with ⟨a, long, left⟩ | ⟨key', short, left⟩
  · cases a with
    | nil =>
      refine ⟨w, [], by simpa using long.symm, folded, ?_⟩
      rw [List.nil_append] at left ⊢
      exact left.symm
    | cons d a =>
      have there : foldCase d ∈ word := folded ▸ List.mem_map_of_mem (long ▸ List.mem_append_right key List.mem_cons_self)
      cases gap with
      | nil =>
        cases (List.cons.inj left).1
        exact absurd there unsigned
      | cons g gap =>
        obtain rfl := (List.cons.inj left).1
        have space := spaces g List.mem_cons_self
        rw [Network.foldCase_of_isSpace space] at there
        rw [visible g there] at space
        cases space
  · exact ⟨w, key', short, folded, left⟩

theorem key_visible (plain : ∀ c ∈ key, isKeyChar c = true) : ∀ c ∈ key, isSpace c = false := by
  intro c member
  have := plain c member
  simp only [isKeyChar, Bool.and_eq_true, Bool.not_eq_true'] at this
  exact this.1.2

theorem key_free (plain : ∀ c ∈ key, isKeyChar c = true) (sign : c ∈ ['=', ':', '#', '"']) : c ∉ key := by
  intro member
  have := plain c member
  simp only [isKeyChar, Bool.and_eq_true, decide_eq_true_eq] at this
  exact this.2 sign

theorem dropWhile_key (some : key ≠ []) (plain : ∀ c ∈ key, isKeyChar c = true) (rest : List Char) :
    (key ++ rest).dropWhile isSpace = key ++ rest := by
  obtain ⟨c, key', rfl⟩ := List.exists_cons_of_ne_nil some
  rw [List.cons_append, List.dropWhile_cons_of_neg]
  rw [key_visible plain c List.mem_cons_self]
  decide

/-- No number follows a word that a key starts with. -/
theorem unnumbered_key (plain : ∀ c ∈ key, isKeyChar c = true) (spaces : Blank gap) (visible : ∀ c ∈ word, isSpace c = false)
    (unsigned : '=' ∉ word) (found : afterWord word (key ++ (gap ++ '=' :: rest)) = some s) :
    (skipSpaces s).bind scanDigits = none := by
  obtain ⟨w, key', rfl, -, rfl⟩ := afterWord_key spaces visible unsigned found
  cases key' with
  | cons c key' =>
    have visible := key_visible plain c (by simp)
    rw [skipSpaces, List.cons_append, List.head?_cons, Option.any_some, visible, if_neg Bool.false_ne_true]
    rfl
  | nil =>
    cases gap with
    | nil => rfl
    | cons g gap =>
      rw [List.nil_append, skipSpaces_gap ⟨List.cons_ne_nil g gap, spaces⟩ (by decide)]
      rfl

theorem extentRe_key {n : Nat} (some : key ≠ []) (plain : ∀ c ∈ key, isKeyChar c = true) (spaces : Blank gap) :
    extentRe n (key ++ (gap ++ '=' :: rest)) = none := by
  rw [extentRe, dropWhile_key some plain, List.findSome?_eq_none_iff]
  intro access _
  cases found : afterWord (access.name.map foldCase) (key ++ (gap ++ '=' :: rest)) with
  | none => rfl
  | some s =>
    have unnumbered := unnumbered_key plain spaces (access_folded access) (by cases access <;> decide) found
    rw [Option.bind_some, afterAccess]
    cases skipped : skipSpaces s with
    | none => rfl
    | some s' =>
      rw [skipped, Option.bind_some] at unnumbered
      simp only [bind, Option.bind_some, unnumbered, Option.bind_none]

theorem or_ite {α : Type} {p q r : Prop} [Decidable p] [Decidable q] [Decidable r] (v : Option α) :
    (if p ∧ q then v else none).or (if p ∧ r then v else none) = if p ∧ (q ∨ r) then v else none := by
  by_cases hp : p <;> by_cases hq : q <;> by_cases hr : r <;> simp [hp, hq, hr]

theorem cidKeyRe_key (word rest : List Char) (some : key ≠ []) (plain : ∀ c ∈ key, isKeyChar c = true) (spaces : Blank gap)
    (signed : sign ∈ ['=', ':']) (visible : ∀ c ∈ word, isSpace c = false) (unsigned : '=' ∉ word) :
    cidKeyRe sign word (key ++ (gap ++ '=' :: rest)) =
      if sign = '=' ∧ key.map foldCase = word then (Extract.OVF.hexAtEnd rest).map (key, ·) else none := by
  rw [cidKeyRe]
  cases found : afterWord word (key ++ (gap ++ '=' :: rest)) with
  | none =>
    have other : key.map foldCase ≠ word := by
      rintro rfl
      rw [afterWord_self] at found
      cases found
    rw [if_neg fun both => other both.2]
    rfl
  | some s =>
    obtain ⟨w, key', rfl, rfl, rfl⟩ := afterWord_key spaces visible unsigned found
    rw [Option.bind_some, List.length_map]
    cases key' with
    | nil =>
      rw [List.nil_append, dropWhile_until spaces (by decide), List.append_nil, List.take_left]
      simp [eq_comm]
    | cons c key' =>
      have other : (w ++ c :: key').map foldCase ≠ w.map foldCase := fun same => by simpa using congrArg List.length same
      have visible := key_visible plain c (by simp)
      have head : ((c :: key' ++ (gap ++ '=' :: rest)).dropWhile isSpace).head? = .some c := by
        rw [List.cons_append, List.dropWhile_cons_of_neg (by rw [visible]; decide)]
        rfl
      have apart : c ≠ sign := by
        rintro rfl
        have special : c ∈ ['=', ':', '#', '"'] := by
          simp only [List.mem_cons, List.not_mem_nil, or_false] at signed ⊢
          tauto
        exact key_free plain special (by simp)
      rw [head, if_neg fun same => apart (Option.some.inj same), if_neg fun both => other both.2]

theorem cidRe_key (some : key ≠ []) (plain : ∀ c ∈ key, isKeyChar c = true) (spaces : Blank gap)
    (signed : sign ∈ ['=', ':']) : cidRe sign (key ++ (gap ++ '=' :: rest)) =
      if sign = '=' ∧ (key.map foldCase = cidKey ∨ key.map foldCase = parentCidKey) then
        (Extract.OVF.hexAtEnd rest).map (key, ·)
      else none := by
  rw [cidRe, dropWhile_key some plain, cidKeyRe_key _ _ some plain spaces signed (by decide) (by decide),
    cidKeyRe_key _ _ some plain spaces signed (by decide) (by decide), or_ite]

theorem keyRe_key (some : key ≠ []) (plain : ∀ c ∈ key, isKeyChar c = true) (spaces : Blank gap) :
    keyRe (key ++ (gap ++ '=' :: rest)) = .some (key, rest.dropWhile isSpace) := by
  have unsigned : ∀ c ∈ key ++ gap, decide (c ≠ '=') = true := by
    intro c member
    refine decide_eq_true ?_
    rintro rfl
    rcases List.mem_append.mp member with there | there
    · exact key_free plain (by decide) there
    · exact absurd (spaces _ there) (by decide)
  have free (c : Char) (sign : c ∈ ['=', ':', '#', '"']) (visible : isSpace c = false) : c ∉ key ++ gap := by
    intro member
    rcases List.mem_append.mp member with there | there
    · exact key_free plain sign there
    · rw [spaces c there] at visible
      cases visible
  have filled : key ++ gap ≠ [] := by simp [some]
  rw [← List.append_assoc, keyRe, dropWhile_until unsigned (by decide), takeWhile_until unsigned (by decide)]
  dsimp only
  have plainKey : ¬(key ++ gap = [] ∨ ':' ∈ key ++ gap ∨ '#' ∈ key ++ gap) :=
    not_or.mpr ⟨filled, not_or.mpr ⟨free ':' (by decide) (by decide), free '#' (by decide) (by decide)⟩⟩
  rw [if_neg plainKey, strip_word some (key_visible plain) spaces]

end keys

/-- A CID line. -/
def isCid (key : List Char) : Bool := lower key = cidKey || lower key = parentCidKey

/-- Of the lines of a descriptor, those that the parser reads. -/
def isReadable : Line → Bool
  | .blank | .comment => true
  | .keyValue key value quoted =>
    if isCid key then !quoted && value ≠ [] && value.all Extract.OVF.isHex
    else quoted || (value ≠ [] && '#' ∉ value && ';' ∉ value)
  | .extent line => line.file.isSome && line.offset.isNone

section items

variable {key value gap gap' : List Char} {quoted : Bool} {n : Nat}

theorem dropWhile_value (spaces : Blank gap) (stripped : quoted = false → strip value = value) :
    (gap ++ valueText quoted value).dropWhile isSpace = valueText quoted value := by
  cases quoted with
  | true => exact dropWhile_until spaces (by decide)
  | false =>
    rw [valueText, if_neg Bool.false_ne_true]
    cases value with
    | nil => rw [List.append_nil, List.dropWhile_eq_nil_iff.mpr spaces]
    | cons c value =>
      have first : (strip (c :: value)).head? = some c := by
        rw [stripped rfl]
        rfl
      exact dropWhile_until spaces (strip_head first)

theorem hexAtEnd_value (spaces : Blank gap) (stripped : quoted = false → strip value = value) :
    Extract.OVF.hexAtEnd (gap ++ valueText quoted value) =
      if quoted = false ∧ value ≠ [] ∧ value.all Extract.OVF.isHex then some value else none := by
  rw [Extract.OVF.hexAtEnd, dropWhile_value spaces stripped]
  cases quoted with
  | true => rfl
  | false =>
    rw [valueText, if_neg Bool.false_ne_true]
    by_cases hex : value.all Extract.OVF.isHex = true
    · have all := List.all_eq_true.mp hex
      rw [List.takeWhile_eq_self_iff.mpr all, List.dropWhile_eq_nil_iff.mpr all]
      simp [hex]
    · have other : ¬(value.dropWhile Extract.OVF.isHex).dropWhile isSpace = [] := by
        intro spaced
        have all := List.dropWhile_eq_nil_iff.mp spaced
        cases rest : value.dropWhile Extract.OVF.isHex with
        | nil => exact hex (List.all_eq_true.mpr (List.dropWhile_eq_nil_iff.mp rest))
        | cons c cs =>
          have last : (strip value).getLast? = some ((c :: cs).getLast (List.cons_ne_nil c cs)) := by
            rw [stripped rfl, ← List.takeWhile_append_dropWhile (p := Extract.OVF.isHex) (l := value), rest,
              List.getLast?_append, List.getLast?_eq_getLast_of_ne_nil (List.cons_ne_nil c cs)]
            rfl
          have member : (c :: cs).getLast (List.cons_ne_nil c cs) ∈ value.dropWhile Extract.OVF.isHex := by
            rw [rest]
            exact List.getLast_mem _
          have space := all _ member
          rw [strip_last last] at space
          cases space
      rw [if_neg fun both => other both.2, if_neg fun both => hex both.2.2]

theorem kvQuotedRe_key (some : key ≠ []) (plain : ∀ c ∈ key, isKeyChar c = true) (spaces : Blank gap) (spaces' : Blank gap')
    (free : '"' ∉ value) (stripped : quoted = false → strip value = value) :
    kvQuotedRe (key ++ (gap ++ '=' :: (gap' ++ valueText quoted value))) = if quoted then .some (key, value) else none := by
  rw [kvQuotedRe, keyRe_key some plain spaces, dropWhile_value spaces' stripped]
  cases quoted with
  | true =>
    simp only [bind, Option.bind_some, valueText, if_true, scanQuoted_name free]
    rfl
  | false =>
    have other : value.head? ≠ .some '"' := fun first => free (List.mem_of_head? first)
    simp only [bind, Option.bind_some, valueText, Bool.false_eq_true, if_false, scanQuoted_other other, Option.bind_none]

theorem kvBareRe_key (some : key ≠ []) (plain : ∀ c ∈ key, isKeyChar c = true) (spaces : Blank gap) (spaces' : Blank gap')
    (stripped : strip value = value) :
    kvBareRe (key ++ (gap ++ '=' :: (gap' ++ value))) =
      if value = [] ∨ '#' ∈ value ∨ ';' ∈ value then none else .some (key, value) := by
  have bare : (gap' ++ valueText false value).dropWhile isSpace = valueText false value :=
    dropWhile_value spaces' fun _ => stripped
  rw [valueText, if_neg Bool.false_ne_true] at bare
  rw [kvBareRe, keyRe_key some plain spaces, bare]
  rfl

theorem isCid_key (plain : ∀ c ∈ key, isKeyChar c = true) :
    isCid key = true ↔ key.map foldCase = cidKey ∨ key.map foldCase = parentCidKey := by
  rw [isCid, lower_key plain, Bool.or_eq_true, decide_eq_true_eq, decide_eq_true_eq]

theorem itemOf_key (some : key ≠ []) (plain : ∀ c ∈ key, isKeyChar c = true) (spaces : Blank gap) (spaces' : Blank gap')
    (free : '"' ∉ value) (stripped : quoted = false → strip value = value) :
    itemOf n (key ++ (gap ++ '=' :: (gap' ++ valueText quoted value))) =
      if quoted then .some (.quoted key value)
      else if isCid key ∧ value ≠ [] ∧ value.all Extract.OVF.isHex then .some (.cid key value)
      else if value = [] ∨ '#' ∈ value ∨ ';' ∈ value then none
      else .some (.bare key value) := by
  have cidLine := isCid_key plain
  rw [itemOf, extentRe_key some plain spaces, cidRe_key some plain spaces (by decide),
    cidRe_key some plain spaces (by decide), hexAtEnd_value spaces' stripped,
    kvQuotedRe_key some plain spaces spaces' free stripped]
  simp only [true_and, Char.reduceEq, false_and, if_false, Option.or_none, Option.map_none, Option.none_or]
  cases quoted with
  | true =>
    simp only [reduceCtorEq, false_and, if_false, if_true, Option.map_none, ite_self, Option.none_or]
    rfl
  | false =>
    simp only [valueText, Bool.false_eq_true, if_false, kvBareRe_key some plain spaces spaces' (stripped rfl), true_and,
      Option.map_none, Option.none_or]
    by_cases cid : isCid key = true
    · by_cases hex : value ≠ [] ∧ value.all Extract.OVF.isHex = true
      · rw [if_pos (cidLine.mp cid), if_pos hex, if_pos (And.intro cid hex)]
        rfl
      · rw [if_pos (cidLine.mp cid), if_neg hex, if_neg (mt And.right hex)]
        split <;> rfl
    · rw [if_neg (mt cidLine.mpr cid), if_neg (mt And.left cid)]
      split <;> rfl

end items

end H2kvm.Converters.VMDK
