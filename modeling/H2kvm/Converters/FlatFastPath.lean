import Mathlib
import H2kvm.Converters.VmdkDescriptors
import H2kvm.Converters.Fetch

namespace H2kvm.Converters.Descriptor

open Framework Text

/-- The lines that a file is written of, each ended as `Path.read_text` takes it. -/
def WrittenIn (lines : List Line) (content : List Char) : Prop :=
  List.Forall₂ (fun line raw => Written line (strip raw)) lines (Network.linesOf (universalNewlines content))

abbrev Bytes := List UInt8

def sectorSize : Nat := 512

/-- Some sectors of a content that has them. -/
def sectors (start count : Nat) (bytes : Bytes) : Option Bytes :=
  if sectorSize * (start + count) ≤ bytes.length then
    some ((bytes.drop (sectorSize * start)).take (sectorSize * count))
  else none

def ExtentType.isSparse : ExtentType → Bool
  | .sparse | .vmfssparse | .sesparse => true
  | .flat | .zero | .vmfs | .vmfsrdm | .vmfsraw => false

variable (data : ExtentType → List Char → Option Bytes)

/-- What an extent holds: zeros, or its sectors of what its file holds for its type. -/
def ExtentLine.content (line : ExtentLine) : Option Bytes :=
  if line.type = .zero then some (List.replicate (sectorSize * line.size) 0)
  else line.file.bind fun file => (data line.type file).bind (sectors (line.offset.getD 0) line.size)

/-- Extents one after the other. -/
def laid : List ExtentLine → Option Bytes
  | [] => some []
  | line :: rest => (line.content data).bind fun part => (laid rest).map (part ++ ·)

/-- The parent hint that counts, unless it is empty. -/
def parentHint (lines : List Line) : Option (List Char) := (VMDK.lastValue VMDK.parentKey lines).filter (· ≠ [])

/-- The disk that a descriptor describes by itself: all of its extents, where it has no parent. -/
def described (lines : List Line) : Option Bytes := if parentHint lines = none then laid data (extents lines) else none

/-- From some sector on each extent holds what a content has at its place, and where the last one ends the content does. -/
def Along (whole : Bytes) : Nat → List ExtentLine → Prop
  | start, [] => whole.length = sectorSize * start
  | start, line :: rest => (∃ part, line.content data = some part ∧ sectors start line.size whole = some part) ∧
      Along whole (start + line.size) rest

variable {data} {whole part : Bytes} {start count : Nat} {line : ExtentLine} {rest : List ExtentLine}

theorem sectors_length (found : sectors start count whole = some part) : part.length = sectorSize * count := by
  rw [sectors] at found
  split at found
  · next there =>
    cases found
    rw [List.length_take, List.length_drop]
    rw [Nat.mul_add] at there
    omega
  · cases found

theorem content_length (found : line.content data = some part) : part.length = sectorSize * line.size := by
  rw [ExtentLine.content] at found
  split at found
  · cases found
    exact List.length_replicate
  · obtain ⟨file, -, read⟩ := Option.bind_eq_some_iff.mp found
    obtain ⟨bytes, -, cut⟩ := Option.bind_eq_some_iff.mp read
    exact sectors_length cut

theorem sectors_append {before tail : Bytes} (first : before.length = sectorSize * start)
    (next : part.length = sectorSize * count) : sectors start count (before ++ (part ++ tail)) = some part := by
  rw [sectors, if_pos, ← first, List.drop_left, ← next, List.take_left]
  rw [List.length_append, List.length_append, Nat.mul_add]
  omega

/-- The induction is on the extents that remain; what stands before them is as long as their first sector says. -/
theorem laid_iff_along {before : Bytes} (first : before.length = sectorSize * start) (tail : Bytes) :
    laid data rest = some tail ↔ Along data (before ++ tail) start rest := by
  induction rest generalizing before start tail with
  | nil =>
    rw [laid, Along, List.length_append, first, Option.some_inj]
    constructor
    · rintro rfl
      rfl
    · intro same
      exact (List.length_eq_zero_iff.mp (by omega)).symm
  | cons line rest ih =>
    rw [laid, Along]
    constructor
    · intro all
      obtain ⟨part, found, more⟩ := Option.bind_eq_some_iff.mp all
      obtain ⟨tail', onward, rfl⟩ := Option.map_eq_some_iff.mp more
      have size := content_length found
      have longer : (before ++ part).length = sectorSize * (start + line.size) := by
        rw [List.length_append, first, size, Nat.mul_add]
      refine ⟨⟨part, found, sectors_append first size⟩, ?_⟩
      rw [← List.append_assoc]
      exact (ih longer tail').mp onward
    · rintro ⟨⟨part, found, placed⟩, onward⟩
      have size := content_length found
      obtain ⟨tail', rfl⟩ : ∃ tail', tail = part ++ tail' := by
        rw [sectors, ← first, List.drop_left] at placed
        split at placed
        · cases placed
          exact ⟨tail.drop (sectorSize * line.size), (List.take_append_drop _ tail).symm⟩
        · cases placed
      have longer : (before ++ part).length = sectorSize * (start + line.size) := by
        rw [List.length_append, first, size, Nat.mul_add]
      rw [← List.append_assoc] at onward
      rw [found, Option.bind_some, (ih longer tail').mpr onward]
      rfl

/-- A content is what a descriptor describes exactly if it has no parent and its extents stand along the content. -/
theorem described_eq_some_iff {lines : List Line} :
    described data lines = some whole ↔ parentHint lines = none ∧ Along data whole 0 (extents lines) := by
  have along : laid data (extents lines) = some whole ↔ Along data ([] ++ whole) 0 (extents lines) := laid_iff_along rfl whole
  rw [List.nil_append] at along
  rw [described]
  split
  · next none => rw [along, and_iff_right none]
  · next some => exact iff_of_false nofun fun both => some both.1

end H2kvm.Converters.Descriptor

namespace H2kvm.Converters.Flatten

open Descriptor Extract Framework FileTree Paths Text
open Network (afterWord foldCase joinLines linesOf)

/-- `\s*$` with `re.MULTILINE`. -/
def lineEnds (s : List Char) : Bool := s.dropWhile isSpace = [] || '\n' ∈ s.takeWhile isSpace

/-- `\s+"([^"]+)"\s+\d+\s*$` -/
def flatTail (s : List Char) : Option (List Char) := do
  let s ← skipSpaces s
  let (href, s) ← scanQuoted s
  let s ← skipSpaces s
  let (_, s) ← scanDigits s
  if href ≠ [] ∧ lineEnds s then some href else none

/-- `Flatten._RE_VMDK_FLAT`, at the start of a line. -/
def flatAt (s : List Char) : Option (List Char) := do
  let s ← after "RW".toList (s.dropWhile isSpace)
  let s ← skipSpaces s
  let (_, s) ← scanDigits s
  let s ← skipSpaces s
  let s ← after "FLAT".toList s
  flatTail s

/-- `_RE_VMDK_FLAT.search`, from a place that is a line's start or is not. -/
def searchFlat : Bool → List Char → Option (List Char)
  | start, [] => if start then flatAt [] else none
  | start, c :: s => (if start then flatAt (c :: s) else none).or (searchFlat (c == '\n') s)

/-- `_is_within_dir`. -/
def isWithinDir {δ : Type} (sys : System) (tree : Places δ) (child parentDir : Path) : Bool :=
  match realpath sys tree child, realpath sys tree parentDir with
  | .ok childR, .ok parentR => decide (parentR <+: childR)
  | _, _ => false

/-- The bytes of a file; a directory cannot be copied. -/
def fileAt (tree : Places Bytes) (p : Path) : Option Bytes :=
  match node tree p with
  | some (.file bytes) => some bytes
  | _ => none

variable (sys : System) (tree : Places Bytes) (dir : Path)

/-- What `_fast_path_flat` copies for a reference. -/
def flatExtent (href : List Char) : Option Bytes :=
  let extent := dir ++ normRelPath href
  if normRelPath href = [] ∨ isWithinDir sys tree extent dir = false then none
  else
    match realpath sys tree extent with
    | .ok extentR => fileAt tree extentR
    | .error _ => none

/-- `Flatten._fast_path_flat`, of a descriptor with this text in a directory: the raw content of the image. -/
def fastPathFlat (content : List Char) : Option Bytes :=
  if 2 * (1024 * 1024) < (Utf8.encode content).length then none
  else (searchFlat true (universalNewlines content)).bind (flatExtent sys tree dir)

/-- The file that a descriptor in a directory names. -/
def named (href : List Char) : Option Bytes :=
  let path := if (slashed href).head? = some '/' then components (slashed href) else dir ++ components (slashed href)
  match FileTree.resolve .kernel tree sys.hops [] path with
  | .ok p => fileAt tree p
  | .error _ => none

/-- What the files of extents hold, where `expand` makes out a sparse one. -/
def dataIn (expand : ExtentType → Bytes → Option Bytes) (type : ExtentType) (href : List Char) : Option Bytes :=
  (named sys tree dir href).bind fun bytes => if type.isSparse then expand type bytes else some bytes

/-- The file of a flat extent to be written to, with an offset. -/
def flatFile : Line → Option (List Char)
  | .extent ⟨.rw, _, .flat, some file, some _⟩ => some file
  | _ => none

section texts

variable {s gap rest : List Char} {c : Char} {start : Bool}

/-- Lines each behind the end of another. -/
def behind (raws : List (List Char)) : List Char := raws.flatMap ('\n' :: ·)

theorem joinLines_cons (raw : List Char) (raws : List (List Char)) : joinLines (raw :: raws) = raw ++ behind raws := by
  induction raws generalizing raw with
  | nil => simp [joinLines, join, List.intercalate, behind]
  | cons next raws ih => rw [joinLines, join_cons (by simp), ← joinLines, ih, behind, behind, List.flatMap_cons]; rfl

theorem flatAt_gap (blank : Blank gap) (s : List Char) : flatAt (gap ++ s) = flatAt s := by
  rw [flatAt, List.dropWhile_append_of_pos blank]
  rfl

theorem searchFlat_or (s : List Char) : (flatAt s).or (searchFlat true s) = searchFlat true s := by
  cases s with
  | nil =>
    rw [searchFlat, if_pos rfl, Option.or_self]
  | cons c s => rw [searchFlat, if_pos rfl, ← Option.or_assoc, Option.or_self]

theorem searchFlat_within (free : '\n' ∉ s) (rest : List Char) :
    searchFlat false (s ++ '\n' :: rest) = searchFlat true rest := by
  induction s with
  | nil => rfl
  | cons c s ih =>
    obtain ⟨first, later⟩ := not_or.mp (mt List.mem_cons.mpr free)
    rw [List.cons_append, searchFlat, beq_eq_false_iff_ne.mpr (Ne.symm first), ih later]
    rfl

theorem searchFlat_line (free : '\n' ∉ s) (rest : List Char) :
    searchFlat true (s ++ '\n' :: rest) = (flatAt (s ++ '\n' :: rest)).or (searchFlat true rest) := by
  cases s with
  | nil => rfl
  | cons c s =>
    obtain ⟨first, later⟩ := not_or.mp (mt List.mem_cons.mpr free)
    rw [List.cons_append, searchFlat, if_pos rfl, beq_eq_false_iff_ne.mpr (Ne.symm first), searchFlat_within later]

theorem searchFlat_last (free : '\n' ∉ s) : searchFlat true s = flatAt s := by
  have within (s : List Char) (free : '\n' ∉ s) : searchFlat false s = none := by
    induction s with
    | nil => rfl
    | cons c s ih =>
      obtain ⟨first, later⟩ := not_or.mp (mt List.mem_cons.mpr free)
      rw [searchFlat, beq_eq_false_iff_ne.mpr (Ne.symm first), ih later]
      rfl
  cases s with
  | nil => rfl
  | cons c s =>
    obtain ⟨first, later⟩ := not_or.mp (mt List.mem_cons.mpr free)
    rw [searchFlat, if_pos rfl, beq_eq_false_iff_ne.mpr (Ne.symm first), within s later, Option.or_none]

end texts

section lines

variable {s gap rest key word : List Char} {c : Char} {line : Line} {lines : List Line} {raw : List Char}
  {raws : List (List Char)}

/-- What comes behind a line that it does not complete: no quote, and no number with which a line ends. -/
structure Aloof (s : List Char) : Prop where
  unquoted : (s.dropWhile isSpace).head? ≠ some '"'
  unnumbered : ∀ digits rest, scanDigits (s.dropWhile isSpace) = some (digits, rest) → lineEnds rest = false

theorem Aloof.of_dropWhile (aloof : Aloof rest) (same : s.dropWhile isSpace = rest.dropWhile isSpace) : Aloof s where
  unquoted := same ▸ aloof.unquoted
  unnumbered := same ▸ aloof.unnumbered

theorem Aloof.beyond (aloof : Aloof s) (blank : Blank gap) : Aloof (gap ++ s) :=
  aloof.of_dropWhile (List.dropWhile_append_of_pos blank)

theorem aloof_letter (visible : isSpace c = false) (other : c ≠ '"') (letter : isDigit c = false) : Aloof (c :: s) := by
  have start : (c :: s).dropWhile isSpace = c :: s := List.dropWhile_cons_of_neg (by rw [visible]; decide)
  constructor
  · rw [start]
    exact fun first => other (Option.some.inj first)
  · intro digits rest scanned
    rw [start, scanDigits, List.takeWhile_cons_of_neg (by rw [letter]; decide), if_pos rfl] at scanned
    cases scanned

theorem lineEnds_key (visible : ∀ c ∈ key, isSpace c = false) (blank : Blank gap) (free : '\n' ∉ gap) :
    lineEnds (key ++ (gap ++ '=' :: rest)) = false := by
  cases key with
  | nil =>
    rw [lineEnds, List.nil_append, dropWhile_until blank (by decide), takeWhile_until blank (by decide)]
    simp [free]
  | cons c key =>
    have first : ¬isSpace c = true := by
      rw [visible c List.mem_cons_self]
      decide
    rw [lineEnds, List.cons_append, List.dropWhile_cons_of_neg first, List.takeWhile_cons_of_neg first]
    rfl

theorem aloof_key (some : key ≠ []) (plain : ∀ c ∈ key, isKeyChar c = true) (blank : Blank gap) (free : '\n' ∉ gap) :
    Aloof (key ++ (gap ++ '=' :: rest)) := by
  have start := VMDK.dropWhile_key some plain (gap ++ '=' :: rest)
  constructor
  · rw [start, List.head?_append_of_ne_nil _ some]
    exact fun first => VMDK.key_free plain (by decide) (List.mem_of_head? first)
  · intro digits left scanned
    rw [start, scanDigits] at scanned
    split at scanned
    · cases scanned
    · obtain ⟨-, rfl⟩ := Prod.mk.inj (Option.some.inj scanned)
      obtain ⟨key', sub, same⟩ : ∃ key', (∀ c ∈ key', c ∈ key) ∧
          (key ++ (gap ++ '=' :: rest)).dropWhile isDigit = key' ++ (gap ++ '=' :: rest) := by
        have stop : (gap ++ '=' :: rest).dropWhile isDigit = gap ++ '=' :: rest := by
          cases gap with
          | nil => rfl
          | cons g gap =>
            refine List.dropWhile_cons_of_neg fun digit => ?_
            exact absurd (blank g List.mem_cons_self) (by rw [isSpace_of_isDigit digit]; decide)
        rw [List.dropWhile_append, stop]
        split
        · exact ⟨[], List.forall_mem_nil _, rfl⟩
        · exact ⟨key.dropWhile isDigit, fun c member => (List.dropWhile_sublist _).subset member, rfl⟩
      rw [same]
      exact lineEnds_key (fun c member => VMDK.key_visible plain c (sub c member)) blank free

theorem aloof_written {text : List Char} (written : Written line text) (visible : text ≠ []) (free : '\n' ∉ text)
    (rest : List Char) : Aloof (text ++ rest) := by
  cases written with
  | blank => exact absurd rfl visible
  | comment text => exact aloof_letter (by decide) (by decide) (by decide)
  | @keyValue key value gap gap' quoted named plain blank =>
    rw [List.append_assoc, List.append_assoc, List.cons_append]
    refine aloof_key named plain blank fun member => free ?_
    exact List.mem_append_right key (List.mem_append_left _ member)
  | @extent line gap =>
    cases line.access <;> exact aloof_letter (by decide) (by decide) (by decide)

theorem aloof_behind (written : List.Forall₂ (fun line raw => Written line (strip raw)) lines raws)
    (free : ∀ raw ∈ raws, '\n' ∉ raw) : Aloof (behind raws) := by
  induction written with
  | nil => exact ⟨nofun, nofun⟩
  | @cons line raw lines raws first _ ih =>
    obtain ⟨here, later⟩ := List.forall_mem_cons.mp free
    obtain ⟨lead, trail, split, blank, blank'⟩ := strip_split raw
    have unfolded : behind (raw :: raws) = ['\n'] ++ (lead ++ (strip raw ++ (trail ++ behind raws))) := by
      rw [behind, List.flatMap_cons, ← behind]
      conv_lhs => rw [split]
      simp only [List.append_assoc, List.cons_append, List.nil_append]
    rw [unfolded]
    refine Aloof.beyond (Aloof.beyond ?_ blank) fun c member => by rw [List.mem_singleton.mp member]; rfl
    by_cases visible : strip raw = []
    · rw [visible]
      exact (ih later).beyond blank'
    · exact aloof_written first visible (fun member => here (subset_strip raw _ member)) _

theorem flatTail_named {named? : Option (List Char)} {offset? : Option Nat} {file offset : List Char}
    (filed : FileText named? file) (placed : OffsetText offset? offset) (ended : Ended rest) (ends : lineEnds rest = true)
    (aloof : Aloof rest) : flatTail (file ++ (offset ++ rest)) = if offset? = none then none else named? := by
  have onward {s s' : List Char} (skipped : skipSpaces s = some s') : s' = s.dropWhile isSpace := by
    rw [skipSpaces] at skipped
    split at skipped
    · exact (Option.some.inj skipped).symm
    · cases skipped
  have shown {digits : List Char} {k : Nat} (numeral : Numeral digits k) : ∀ c ∈ digits, isSpace c = false :=
    fun c member => isSpace_of_isDigit (numeral.all c member)
  cases filed with
  | none =>
    rw [List.nil_append, ite_self]
    cases placed with
    | none =>
      rw [List.nil_append, flatTail]
      cases skipped : skipSpaces rest with
      | none => rfl
      | some s =>
        have unquoted := scanQuoted_other aloof.unquoted
        rw [← onward skipped] at unquoted
        simp only [bind, Option.bind_some, unquoted, Option.bind_none]
    | @some gap digits k spaces numeral =>
      have other : (digits ++ rest).head? ≠ some '"' := by
        rw [List.head?_append_of_ne_nil _ numeral.some]
        exact fun first => absurd (numeral.all _ (List.mem_of_head? first)) (by decide)
      rw [flatTail, List.append_assoc, skipSpaces_word spaces numeral.some (shown numeral)]
      simp only [bind, Option.bind_some, scanQuoted_other other, Option.bind_none]
  | @some gap name spaces some free =>
    have quote : gap ++ '"' :: (name ++ ['"']) ++ (offset ++ rest) = gap ++ '"' :: (name ++ '"' :: (offset ++ rest)) := by
      simp
    rw [quote, flatTail, skipSpaces_gap spaces (by decide)]
    simp only [bind, Option.bind_some, scanQuoted_name free]
    cases placed with
    | none =>
      rw [List.nil_append, if_pos rfl]
      cases skipped : skipSpaces rest with
      | none => rfl
      | some s =>
        cases scanned : scanDigits s with
        | none => simp only [Option.bind_some, scanned, Option.bind_none]
        | some found =>
          obtain ⟨digits, left⟩ := found
          rw [onward skipped] at scanned
          have unended := aloof.unnumbered _ _ scanned
          rw [← onward skipped] at scanned
          simp only [Option.bind_some, scanned, unended, Bool.false_eq_true, and_false, if_false]
    | @some gap' digits k spaces' numeral =>
      rw [List.append_assoc, skipSpaces_word spaces' numeral.some (shown numeral)]
      simp only [Option.bind_some, scanDigits_numeral numeral ended.undigited, ends, some, ne_eq, not_false_eq_true, and_self,
        if_true, reduceCtorEq, if_false]

/-- What is found of a line, with no more than spaces up to its end. -/
theorem flatAt_written {text : List Char} (written : Written line text) (visible : text ≠ []) (ended : Ended rest)
    (ends : lineEnds rest = true) (aloof : Aloof rest) : flatAt (text ++ rest) = flatFile line := by
  cases written with
  | blank => exact absurd rfl visible
  | comment text => rfl
  | @keyValue key value gap gap' quoted named plain blank =>
    rw [List.append_assoc, List.append_assoc, List.cons_append, flatAt, VMDK.dropWhile_key named plain]
    cases found : after "RW".toList (key ++ (gap ++ '=' :: (gap' ++ valueText quoted value ++ rest))) with
    | none => rfl
    | some s =>
      have unnumbered := VMDK.unnumbered_key plain blank (by decide) (by decide) (VMDK.afterWord_of_after found)
      cases skipped : skipSpaces s with
      | none => simp only [bind, Option.bind_some, skipped, Option.bind_none]; rfl
      | some s' =>
        rw [skipped, Option.bind_some] at unnumbered
        simp only [bind, Option.bind_some, skipped, unnumbered, Option.bind_none]
        rfl
  | @extent line gap gap' digits file offset spaces numeral spaces' filed placed =>
    obtain ⟨access, size, type, file?, offset?⟩ := line
    have shown : ∀ c ∈ digits, isSpace c = false := fun c member => isSpace_of_isDigit (numeral.all c member)
    have typed : type.name ≠ [] := by cases type <;> decide
    simp only [List.append_assoc]
    cases access with
    | rdonly => rfl
    | noaccess => rfl
    | rw =>
      have start : flatAt (Access.rw.name ++ (gap ++ (digits ++ (gap' ++ (type.name ++ (file ++ (offset ++ rest))))))) =
          (after "FLAT".toList (type.name ++ (file ++ (offset ++ rest)))).bind flatTail := by
        have accessed (s : List Char) : after "RW".toList ((Access.rw.name ++ s).dropWhile isSpace) = some s :=
          after_self Access.rw.name s
        rw [flatAt, accessed]
        simp only [bind, Option.bind_some, skipSpaces_word spaces numeral.some shown,
          scanDigits_numeral numeral (spaces'.ended _).undigited, skipSpaces_word spaces' typed (type_visible type)]
      rw [start]
      cases type with
      | flat =>
        have typed (s : List Char) : after "FLAT".toList (ExtentType.flat.name ++ s) = some s := after_self _ s
        rw [typed, Option.bind_some, flatTail_named filed placed ended ends aloof]
        cases file? <;> cases offset? <;> rfl
      | _ => rfl

theorem flatFile_blank (written : Written line []) : flatFile line = none := by
  generalize form : ([] : List Char) = text at written
  cases written with
  | blank => rfl
  | comment text => rfl
  | keyValue named => rfl
  | @extent line => cases access : line.access <;> rw [access] at form <;> cases form

theorem flatAt_line (written : Written line (strip raw)) (visible : strip raw ≠ [])
    (begins : ∀ c, rest.head? = some c → c = '\n') (aloof : Aloof rest) : flatAt (raw ++ rest) = flatFile line := by
  obtain ⟨lead, trail, split, blank, blank'⟩ := strip_split raw
  have ended : Ended (trail ++ rest) := by
    intro c first
    cases trail with
    | nil => rw [begins c first]; rfl
    | cons d trail =>
      cases first
      exact blank' _ List.mem_cons_self
  have ends : lineEnds (trail ++ rest) = true := by
    rw [lineEnds, List.dropWhile_append_of_pos blank', List.takeWhile_append_of_pos blank']
    cases rest with
    | nil => rfl
    | cons c rest =>
      rw [begins c rfl, List.takeWhile_cons_of_pos rfl]
      simp
  conv_lhs => rw [split]
  rw [List.append_assoc, List.append_assoc, flatAt_gap blank]
  exact flatAt_written written visible ended ends (aloof.beyond blank')

/-- The first line that is a flat extent with an offset is found, over any number of lines. -/
theorem searchFlat_eq (written : List.Forall₂ (fun line raw => Written line (strip raw)) (line :: lines) (raw :: raws))
    (free : ∀ raw' ∈ raw :: raws, '\n' ∉ raw') :
    searchFlat true (raw ++ behind raws) = (line :: lines).findSome? flatFile := by
  have blankLine {raw : List Char} (none : strip raw = []) : Blank raw := by
    obtain ⟨lead, trail, split, blank, blank'⟩ := strip_split raw
    rw [split, none]
    exact fun c member => (List.mem_append.mp member).elim (blank c) (blank' c)
  induction raws generalizing line lines raw with
  | nil =>
    obtain ⟨first, rest⟩ := List.forall₂_cons.mp written
    obtain rfl := List.forall₂_nil_right_iff.mp rest
    rw [behind, List.flatMap_nil, List.append_nil, searchFlat_last (free raw List.mem_cons_self), ← List.append_nil raw,
      List.findSome?_cons, List.findSome?_nil]
    by_cases none : strip raw = []
    · rw [flatAt_gap (blankLine none), flatFile_blank (none ▸ first)]
      rfl
    · have found : flatAt (raw ++ []) = flatFile line := flatAt_line first none nofun ⟨nofun, nofun⟩
      rw [found]
      cases flatFile line <;> rfl
  | cons next raws ih =>
    obtain ⟨first, rest⟩ := List.forall₂_cons.mp written
    obtain ⟨here, later⟩ := List.forall_mem_cons.mp free
    cases rest with
    | @cons nextLine _ lines _ second rest =>
      have onward := ih (.cons second rest) later
      have aloof := aloof_behind (.cons second rest) later
      have unfolded : behind (next :: raws) = '\n' :: (next ++ behind raws) := rfl
      rw [unfolded] at aloof ⊢
      rw [searchFlat_line here, List.findSome?_cons, ← onward]
      by_cases none : strip raw = []
      · have newline : Blank ['\n'] := fun c member => by rw [List.mem_singleton.mp member]; rfl
        rw [flatAt_gap (blankLine none), ← List.singleton_append, flatAt_gap newline, searchFlat_or,
          flatFile_blank (none ▸ first)]
      · have found : flatAt (raw ++ '\n' :: (next ++ behind raws)) = flatFile line :=
          flatAt_line first none (fun c newline => (Option.some.inj newline).symm) aloof
        rw [found]
        cases flatFile line <;> rfl

end lines

section disks

variable {sys : System} {tree : Places Bytes} {dir : Path} {expand : ExtentType → Bytes → Option Bytes}
  {lines : List Line} {content href : List Char} {bytes : Bytes}

/-- A file stands at a name below the directory of the descriptor. -/
structure Stands (sys : System) (tree : Places Bytes) (dir : Path) (href : List Char) (bytes : Bytes) : Prop where
  named : normRelPath href ≠ []
  within : isWithinDir sys tree (dir ++ normRelPath href) dir = true
  found : ∃ p, realpath sys tree (dir ++ normRelPath href) = .ok p ∧ fileAt tree p = some bytes

theorem flatExtent_eq_some_iff : flatExtent sys tree dir href = some bytes ↔ Stands sys tree dir href bytes := by
  rw [flatExtent]
  constructor
  · intro found
    split at found
    · cases found
    · next inside =>
      obtain ⟨some, within⟩ := not_or.mp inside
      refine ⟨some, Bool.not_eq_false _ ▸ within, ?_⟩
      split at found
      · next p real => exact ⟨p, real, found⟩
      · cases found
  · rintro ⟨some, within, p, real, found⟩
    rw [if_neg (not_or.mpr ⟨some, by rw [within]; decide⟩), real]
    exact found

theorem fastPathFlat_eq (written : WrittenIn lines content) : fastPathFlat sys tree dir content =
    if 2 * (1024 * 1024) < (Utf8.encode content).length then none
    else (lines.findSome? flatFile).bind (flatExtent sys tree dir) := by
  have free : ∀ raw ∈ linesOf (universalNewlines content), '\n' ∉ raw := fun _ => Network.newline_not_mem_of_mem_linesOf
  have joined : joinLines (linesOf (universalNewlines content)) = universalNewlines content :=
    List.intercalate_splitOn '\n'
  have some := Network.linesOf_ne_nil (universalNewlines content)
  rw [WrittenIn] at written
  rw [fastPathFlat, ← joined]
  generalize linesOf (universalNewlines content) = raws at written free some
  cases written with
  | nil => exact absurd rfl some
  | cons first rest => rw [joinLines_cons, searchFlat_eq (.cons first rest) free]

/-- The fast path agrees with the descriptor exactly if there is no parent and the extents stand along the file that it
takes. -/
theorem fastPathFlat_iff (written : WrittenIn lines content) :
    (∀ image, fastPathFlat sys tree dir content = some image → described (dataIn sys tree dir expand) lines = some image) ↔
      ((Utf8.encode content).length ≤ 2 * (1024 * 1024) → ∀ href bytes, lines.findSome? flatFile = some href →
        Stands sys tree dir href bytes →
          parentHint lines = none ∧ Along (dataIn sys tree dir expand) bytes 0 (extents lines)) := by
  rw [fastPathFlat_eq written]
  split
  · next large => exact iff_of_true nofun fun small => absurd large (Nat.not_lt.mpr small)
  · next small =>
    rw [forall_prop_of_true (Nat.not_lt.mp small)]
    constructor
    · intro agrees href bytes first stands
      refine described_eq_some_iff.mp (agrees bytes ?_)
      rw [first, Option.bind_some, flatExtent_eq_some_iff.mpr stands]
    · intro along image found
      obtain ⟨href, first, copied⟩ := Option.bind_eq_some_iff.mp found
      exact described_eq_some_iff.mpr (along href image first (flatExtent_eq_some_iff.mp copied))

end disks

section inputs

/-- An extent of one sector, and the extent as it is written. -/
def flatLine (file : Char) : Line := .extent ⟨.rw, 1, .flat, some [file], some 0⟩

def flatText (file : Char) : List Char :=
  Access.rw.name ++
    ([' '] ++ (['1'] ++ ([' '] ++ (ExtentType.flat.name ++ (([' '] ++ '"' :: ([file] ++ ['"'])) ++ [' ', '0'])))))

def vm : Path := ["vm".toList]

/-- A directory with two extents of one sector. -/
def twoExtents : Places Bytes :=
  (((∅ : Places Bytes).insert vm .dir).insert (vm ++ [['a']]) (.file (List.replicate sectorSize 0))).insert (vm ++ [['b']])
    (.file (List.replicate sectorSize 1))

theorem written_flat {file : Char} (free : '"' ∉ [file]) (stripped : strip (flatText file) = flatText file) :
    Written (flatLine file) (strip (flatText file)) := by
  have space : Gap [' '] := ⟨by decide, fun c member => by rw [List.mem_singleton.mp member]; rfl⟩
  have one : Numeral ['1'] 1 := ⟨by decide, by decide, rfl⟩
  have zero : Numeral ['0'] 0 := ⟨by decide, by decide, rfl⟩
  rw [stripped]
  exact .extent space one space (.some space (List.cons_ne_nil _ _) free) (.some space zero)

theorem writtenIn_one : WrittenIn [flatLine 'a'] (flatText 'a') := by
  have alone : linesOf (universalNewlines (flatText 'a')) = [flatText 'a'] := by decide +kernel
  rw [WrittenIn, alone]
  exact .cons (written_flat (by decide) (by decide +kernel)) .nil

theorem fastPathFlat_iff_one : fastPathFlat linux twoExtents vm (flatText 'a') = some (List.replicate sectorSize 0) ∧
    described (dataIn linux twoExtents vm fun _ => some) [flatLine 'a'] = some (List.replicate sectorSize 0) := by
  have copied : fastPathFlat linux twoExtents vm (flatText 'a') = some (List.replicate sectorSize 0) := by decide +kernel
  refine ⟨copied, (fastPathFlat_iff writtenIn_one).mpr ?_ _ copied⟩
  rintro - href bytes first ⟨-, -, p, real, found⟩
  cases first
  have there : realpath linux twoExtents (vm ++ normRelPath ['a']) = .ok (vm ++ [['a']]) := by decide +kernel
  have same : fileAt twoExtents (vm ++ [['a']]) = some (List.replicate sectorSize 0) := by decide +kernel
  rw [there] at real
  cases real
  rw [same] at found
  cases found
  exact ⟨by decide +kernel, ⟨List.replicate sectorSize 0, by decide +kernel, by decide +kernel⟩, List.length_replicate⟩

/-- Of a disk in two files only the first is copied. -/
theorem not_fastPathFlat_split : WrittenIn [flatLine 'a', flatLine 'b'] (flatText 'a' ++ '\n' :: flatText 'b') ∧
    ¬∀ image, fastPathFlat linux twoExtents vm (flatText 'a' ++ '\n' :: flatText 'b') = some image →
      described (dataIn linux twoExtents vm fun _ => some) [flatLine 'a', flatLine 'b'] = some image := by
  have lines : linesOf (universalNewlines (flatText 'a' ++ '\n' :: flatText 'b')) = [flatText 'a', flatText 'b'] := by
    decide +kernel
  constructor
  · rw [WrittenIn, lines]
    exact .cons (written_flat (by decide) (by decide +kernel)) (.cons (written_flat (by decide) (by decide +kernel)) .nil)
  · intro agrees
    have copied : fastPathFlat linux twoExtents vm (flatText 'a' ++ '\n' :: flatText 'b') =
        some (List.replicate sectorSize 0) := by decide +kernel
    have other : described (dataIn linux twoExtents vm fun _ => some) [flatLine 'a', flatLine 'b'] ≠
        some (List.replicate sectorSize 0) := by decide +kernel
    exact other (agrees _ copied)

end inputs

end H2kvm.Converters.Flatten
