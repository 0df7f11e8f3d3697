import H2kvm.Converters.VmdkParser

namespace H2kvm.Converters.VMDK

open Descriptor Framework Text
open Network (afterWord foldCase lower)

/-- The value a line has for a key, whatever its case. -/
def valueOf (name : List Char) : Line → Option (List Char)
  | .keyValue key value _ => if lower key = name then some value else none
  | _ => none

/-- What the parser is told by a line: the value of a key, and an extent. -/
def told (name : List Char) (line : Line) : Option (List Char) := if isReadable line then valueOf name line else none

def extentOf (n : Nat) : Line → Option Extent
  | .extent line =>
    if line.offset = none then line.file.map fun file => ⟨line.access, line.size, line.type, file, n⟩ else none
  | _ => none

/-- What becomes of the description at a line. -/
structure Reads (n : Nat) (line : Line) (info info' : DescriptorInfo) : Prop where
  extents : info'.extents = info.extents ++ (extentOf n line).toList
  parent : info'.parent = (told parentKey line).or info.parent
  cid : info'.cid = (told cidKey line).or info.cid
  parentCid : info'.parentCid = (told parentCidKey line).or info.parentCid
  createType : info'.createType = (told createTypeKey line).or info.createType

section reads

variable {info : DescriptorInfo} {n : Nat} {line : Line} {raw key value rest : List Char} {quoted : Bool} {access : Access}

theorem keys_nodup : [cidKey, parentCidKey, parentKey, createTypeKey, versionKey, encodingKey, adapterTypeKey].Nodup := by
  decide

theorem unquote_eq (stripped : strip value = value) (free : '"' ∉ value) : unquote value = value := by
  have other : ∀ c ∈ value, ¬decide (c = '"') = true := fun c member same => free (of_decide_eq_true same ▸ member)
  have start : value.dropWhile (· = '"') = value := by
    cases value with
    | nil => rfl
    | cons c value => exact List.dropWhile_cons_of_neg (other c List.mem_cons_self)
  rw [unquote, stripped, start, List.rdropWhile_eq_self_iff]
  exact fun some => other _ (List.getLast_mem some)

theorem assign_extents (info : DescriptorInfo) (k v : List Char) : (info.assign k v).extents = info.extents := by
  rw [DescriptorInfo.assign]
  split_ifs <;> rfl

theorem assign_cid (info : DescriptorInfo) (k v : List Char) :
    (info.assign k v).cid = info.cid ∧ (info.assign k v).parentCid = info.parentCid := by
  rw [DescriptorInfo.assign]
  split_ifs <;> exact ⟨rfl, rfl⟩

theorem assign_parent (info : DescriptorInfo) (k v : List Char) :
    (info.assign k v).parent = if k = parentKey then some v else info.parent := by
  rw [DescriptorInfo.assign]
  split_ifs <;> rfl

theorem assign_createType (info : DescriptorInfo) (k v : List Char) :
    (info.assign k v).createType = if k = createTypeKey then some v else info.createType := by
  have apart : parentKey ≠ createTypeKey := by decide
  rw [DescriptorInfo.assign]
  split_ifs with parent createType <;> first | rfl | exact absurd (parent.symm.trans createType) apart

/-- A line that is kept by its key. -/
theorem reads_assign {info' : DescriptorInfo} (readable : isCid key = false → isReadable (.keyValue key value quoted) = true)
    (unread : isCid key = true → isReadable (.keyValue key value quoted) = false) (extents : info'.extents = info.extents)
    (cid : info'.cid = info.cid ∧ info'.parentCid = info.parentCid)
    (parent : info'.parent = if lower key = parentKey then some value else info.parent)
    (createType : info'.createType = if lower key = createTypeKey then some value else info.createType) :
    Reads n (.keyValue key value quoted) info info' := by
  have named (name : List Char) (plain : isCid key = true → lower key ≠ name) :
      told name (.keyValue key value quoted) = if lower key = name then some value else none := by
    rw [told, valueOf]
    cases isKey : isCid key with
    | true => rw [unread isKey, if_neg Bool.false_ne_true, if_neg (plain isKey)]
    | false => rw [readable isKey, if_pos rfl]
  have none (name : List Char) (special : lower key = name → isCid key = true) :
      told name (.keyValue key value quoted) = .none := by
    rw [told, valueOf]
    by_cases same : lower key = name
    · rw [unread (special same), if_neg Bool.false_ne_true]
    · rw [if_neg same, ite_self]
  have special (name : List Char) (isKey : isCid key = true) (first : cidKey ≠ name) (second : parentCidKey ≠ name) :
      lower key ≠ name := by
    rintro rfl
    rw [isCid, Bool.or_eq_true, decide_eq_true_eq, decide_eq_true_eq] at isKey
    exact isKey.elim (fun same => first same.symm) fun same => second same.symm
  constructor
  · rw [extents]
    exact (List.append_nil _).symm
  · rw [parent, named parentKey fun isKey => special parentKey isKey (by decide) (by decide)]
    split <;> rfl
  · rw [cid.1, none cidKey fun same => by simp [isCid, same]]
    rfl
  · rw [cid.2, none parentCidKey fun same => by simp [isCid, same]]
    rfl
  · rw [createType, named createTypeKey fun isKey => special createTypeKey isKey (by decide) (by decide)]
    split <;> rfl

/-- A line that is not read changes nothing. -/
theorem reads_unread {info' : DescriptorInfo} (unread : isReadable line = false) (none : extentOf n line = none)
    (extents : info'.extents = info.extents) (cid : info'.cid = info.cid ∧ info'.parentCid = info.parentCid)
    (parent : info'.parent = info.parent) (createType : info'.createType = info.createType) : Reads n line info info' := by
  have nothing (name : List Char) : told name line = .none := by rw [told, unread, if_neg Bool.false_ne_true]
  constructor
  · rw [extents, none]
    exact (List.append_nil _).symm
  · rw [parent, nothing, Option.none_or]
  · rw [cid.1, nothing, Option.none_or]
  · rw [cid.2, nothing, Option.none_or]
  · rw [createType, nothing, Option.none_or]

theorem reads_cid (isKey : isCid key = true) (readable : isReadable (.keyValue key value false) = true) :
    Reads n (.keyValue key value false) info (info.keep (.cid key value)) := by
  have named (name : List Char) : told name (.keyValue key value false) = if lower key = name then some value else none := by
    rw [told, readable, if_pos rfl, valueOf]
  rw [isCid, Bool.or_eq_true, decide_eq_true_eq, decide_eq_true_eq] at isKey
  have apart : cidKey ≠ parentCidKey ∧ cidKey ≠ parentKey ∧ cidKey ≠ createTypeKey ∧ parentCidKey ≠ cidKey ∧
      parentCidKey ≠ parentKey ∧ parentCidKey ≠ createTypeKey := by decide
  obtain ⟨notParentCid, notParent, notType, notCid, notParent', notType'⟩ := apart
  rw [DescriptorInfo.keep]
  dsimp only
  rcases isKey with same | same
  · rw [if_pos same]
    constructor
    · exact (List.append_nil _).symm
    · rw [named, same, if_neg notParent]; rfl
    · rw [named, if_pos same]; rfl
    · rw [named, same, if_neg notParentCid]; rfl
    · rw [named, same, if_neg notType]; rfl
  · rw [same, if_neg notCid]
    constructor
    · exact (List.append_nil _).symm
    · rw [named, same, if_neg notParent']; rfl
    · rw [named, same, if_neg notCid]; rfl
    · rw [named, if_pos same]; rfl
    · rw [named, same, if_neg notType']; rfl

theorem reads_bare (plain : strip key = key) (quotes : unquote value = value)
    (readable : isCid key = false → isReadable (.keyValue key value false) = true)
    (unread : isCid key = true → isReadable (.keyValue key value false) = false) :
    Reads n (.keyValue key value false) info (info.keep (.bare key value)) := by
  have apart : versionKey ≠ parentKey ∧ versionKey ≠ createTypeKey := by decide
  rw [DescriptorInfo.keep, plain, quotes]
  by_cases version : lower key = versionKey
  · rw [if_pos version]
    refine reads_assign readable unread rfl ⟨rfl, rfl⟩ ?_ ?_
    · rw [version, if_neg apart.1]
    · rw [version, if_neg apart.2]
  · rw [if_neg version]
    exact reads_assign readable unread (assign_extents _ _ _) (assign_cid _ _ _) (assign_parent _ _ _)
      (assign_createType _ _ _)

theorem reads_key (some : key ≠ []) (plain : ∀ c ∈ key, isKeyChar c = true) (stripped : quoted = false → strip value = value)
    (free : '"' ∉ value) : Reads n (.keyValue key value quoted) info
      ((if quoted then .some (.quoted key value)
        else if isCid key ∧ value ≠ [] ∧ value.all Extract.OVF.isHex then .some (.cid key value)
        else if value = [] ∨ '#' ∈ value ∨ ';' ∈ value then none
        else .some (.bare key value) : Option Item).elim info info.keep) := by
  have stripKey : strip key = key := by
    have word : strip (key ++ []) = key := strip_word some (key_visible plain) nofun
    rwa [List.append_nil] at word
  cases quoted with
  | true =>
    rw [if_pos rfl, Option.elim_some, DescriptorInfo.keep, stripKey]
    refine reads_assign ?_ ?_ (assign_extents _ _ _) (assign_cid _ _ _) (assign_parent _ _ _) (assign_createType _ _ _)
    · intro isKey
      rw [isReadable, isKey]
      rfl
    · intro isKey
      rw [isReadable, isKey]
      rfl
  | false =>
    rw [if_neg Bool.false_ne_true]
    by_cases hex : isCid key = true ∧ value ≠ [] ∧ value.all Extract.OVF.isHex = true
    · rw [if_pos hex]
      refine reads_cid hex.1 ?_
      rw [isReadable, if_pos hex.1]
      simpa using hex.2
    · have unread (isKey : isCid key = true) : isReadable (.keyValue key value false) = false := by
        rw [isReadable, if_pos isKey]
        simpa [isKey] using hex
      rw [if_neg hex]
      by_cases bad : value = [] ∨ '#' ∈ value ∨ ';' ∈ value
      · rw [if_pos bad]
        refine reads_unread ?_ rfl rfl ⟨rfl, rfl⟩ rfl rfl
        cases isKey : isCid key with
        | true => exact unread isKey
        | false =>
          rw [isReadable, isKey, if_neg Bool.false_ne_true]
          rcases bad with none | sharp | semicolon
          · simp [none]
          · simp [sharp]
          · simp [semicolon]
      · rw [if_neg bad]
        refine reads_bare stripKey (unquote_eq (stripped rfl) free) (fun isKey => ?_) unread
        rw [isReadable, isKey, if_neg Bool.false_ne_true]
        simpa [not_or, and_assoc] using bad

theorem cidRe_access (sign : Char) (access : Access) (rest : List Char) : cidRe sign (access.name ++ rest) = none := by
  have start : (access.name ++ rest).dropWhile isSpace = access.name ++ rest := by cases access <;> rfl
  have none (c : Char) (word : List Char) (first : c = 'c' ∨ c = 'p') :
      cidKeyRe sign (c :: word) (access.name ++ rest) = none := by
    have other : afterWord (c :: word) (access.name ++ rest) = .none := by
      cases found : afterWord (c :: word) (access.name ++ rest) with
      | none => rfl
      | some s =>
        obtain ⟨w, split, folded⟩ := of_afterWord found
        obtain ⟨d, w', rfl, same, -⟩ := List.map_eq_cons_iff.mp folded
        have head : access.name.head? = some d := by
          have := congrArg List.head? split
          cases access <;> exact this
        rcases first with rfl | rfl <;> cases access <;> cases head <;> exact absurd same (by decide)
    rw [cidKeyRe, other]
    rfl
  rw [cidRe, start, show cidKey = 'c' :: ['i', 'd'] from rfl, show parentCidKey = 'p' :: "arentcid".toList from rfl,
    none 'c' _ (.inl rfl), none 'p' _ (.inr rfl)]
  rfl

theorem keyRe_access (found : keyRe (access.name ++ rest) = some (key, value)) :
    ∃ c key', key = c :: key' ∧ isSpace c = false ∧ (c = 'R' ∨ c = 'N') := by
  obtain ⟨c, word, form, visible, letter, apart⟩ : ∃ c word, access.name = c :: word ∧ isSpace c = false ∧
      (c = 'R' ∨ c = 'N') ∧ c ≠ '=' := by
    cases access <;> exact ⟨_, _, rfl, by decide, by decide, by decide⟩
  have cut : (c :: (word ++ rest)).takeWhile (· ≠ '=') = c :: (word ++ rest).takeWhile (· ≠ '=') :=
    List.takeWhile_cons_of_pos (decide_eq_true apart)
  rw [keyRe, form, List.cons_append, cut] at found
  split at found
  · split at found
    · cases found
    · obtain ⟨key', same⟩ := strip_cons visible ((word ++ rest).takeWhile (· ≠ '='))
      rw [same] at found
      cases found
      exact ⟨c, key', rfl, visible, letter⟩
  · cases found

theorem lower_letter {c : Char} (letter : c = 'R' ∨ c = 'N') (name : List Char) (s : List Char)
    (other : name.head? ≠ some 'r' ∧ name.head? ≠ some 'n') : lower (c :: s) ≠ name := by
  rintro rfl
  rcases letter with rfl | rfl
  · exact other.1 rfl
  · exact other.2 rfl

theorem reads_letter {c : Char} {key' : List Char} (unread : isReadable line = false) (none : extentOf n line = none)
    (form : key = c :: key') (visible : isSpace c = false) (letter : c = 'R' ∨ c = 'N') :
    Reads n line info (info.assign (lower (strip key)) value) := by
  obtain ⟨s, same⟩ := strip_cons visible key'
  rw [form, same]
  refine reads_unread unread none (assign_extents _ _ _) (assign_cid _ _ _) ?_ ?_
  · rw [assign_parent, if_neg (lower_letter letter _ _ (by decide))]
  · rw [assign_createType, if_neg (lower_letter letter _ _ (by decide))]

/-- An extent that is not taken for one may be taken for a key and a value, but for none of the keys that count. -/
theorem reads_unlisted (unread : isReadable line = false) (none : extentOf n line = none)
    (unnamed : extentRe n (access.name ++ rest) = .none) :
    Reads n line info ((itemOf n (access.name ++ rest)).elim info info.keep) := by
  rw [itemOf, unnamed, cidRe_access, cidRe_access, Option.map_none, Option.none_or, Option.none_or, Option.map_none,
    Option.none_or]
  cases quoted : kvQuotedRe (access.name ++ rest) with
  | some found =>
    obtain ⟨⟨key, text⟩, taken, more⟩ := Option.bind_eq_some_iff.mp quoted
    obtain ⟨⟨value, left⟩, -, last⟩ := Option.bind_eq_some_iff.mp more
    obtain ⟨c, key', form, visible, letter⟩ := keyRe_access taken
    dsimp only at last
    split at last
    · cases last
      exact reads_letter unread none form visible letter
    · cases last
  | none =>
    cases bare : kvBareRe (access.name ++ rest) with
    | some found =>
      obtain ⟨⟨key, value⟩, taken, last⟩ := Option.bind_eq_some_iff.mp bare
      obtain ⟨c, key', form, visible, letter⟩ := keyRe_access taken
      dsimp only at last
      split at last
      · cases last
      · cases last
        rw [Option.map_none, Option.none_or, Option.map_some, Option.elim_some, DescriptorInfo.keep]
        split
        · exact reads_unread unread none rfl ⟨rfl, rfl⟩ rfl rfl
        · exact reads_letter unread none form visible letter
    | none => exact reads_unread unread none rfl ⟨rfl, rfl⟩ rfl rfl

/-- What becomes of the description at any line of a descriptor. -/
theorem parseLine_written (written : Written line (strip raw)) : Reads n line info (parseLine info (raw, n)) := by
  rw [parseLine]
  dsimp only
  generalize strip raw = text at written ⊢
  cases written with
  | blank =>
    rw [if_pos (.inl rfl)]
    exact ⟨(List.append_nil _).symm, rfl, rfl, rfl, rfl⟩
  | comment text =>
    rw [if_pos (.inr rfl)]
    exact ⟨(List.append_nil _).symm, rfl, rfl, rfl, rfl⟩
  | keyValue some plain spaces spaces' free stripped =>
    rw [if_neg, itemOf_key some plain spaces spaces' free stripped]
    · exact reads_key some plain stripped free
    · obtain ⟨c, key', rfl⟩ := List.exists_cons_of_ne_nil some
      rintro (none | sharp)
      · cases none
      · cases sharp
        exact key_free plain (by decide) List.mem_cons_self
  | @extent line gap gap' digits file offset spaces numeral spaces' named placed =>
    have start : line.access.name ≠ [] ∧ line.access.name.head? ≠ .some '#' := by cases line.access <;> decide
    have ended := ended_tail named placed
    have same : extentRe n (line.access.name ++ (gap ++ (digits ++ (gap' ++ (line.type.name ++ (file ++ offset)))))) =
        extentOf n (.extent line) := by
      rw [extentRe_line spaces numeral spaces' ended, extentTail_named named placed, extentOf]
      split <;> rfl
    rw [if_neg]
    · cases listed : extentOf n (.extent line) with
      | some extent =>
        rw [listed] at same
        rw [itemOf, same]
        have nothing (name : List Char) : told name (.extent line) = none := ite_self none
        constructor
        · rw [listed]; rfl
        · rw [nothing]; rfl
        · rw [nothing]; rfl
        · rw [nothing]; rfl
        · rw [nothing]; rfl
      | none =>
        have unread : isReadable (.extent line) = false := by
          rw [extentOf] at listed
          rw [isReadable]
          split at listed
          · rw [Option.map_eq_none_iff.mp listed]; rfl
          · next placed =>
            rw [Option.isNone_eq_false_iff.mpr (Option.isSome_iff_ne_none.mpr placed), Bool.and_false]
        exact reads_unlisted unread listed (same.trans listed)
    · rintro (none | sharp)
      · exact start.1 (List.append_eq_nil_iff.mp none).1
      · rw [List.head?_append_of_ne_nil _ start.1] at sharp
        exact start.2 sharp

end reads

/-- The value of the last line for a key. -/
def lastValue (name : List Char) (lines : List Line) : Option (List Char) := (lines.filterMap (valueOf name)).getLast?

/-- An extent is what its line says. -/
def Same (extent : Extent) (line : ExtentLine) : Prop :=
  extent.access = line.access ∧ extent.sizeSectors = line.size ∧ extent.type = line.type ∧ some extent.file = line.file

/-- A description tells what some lines do. -/
structure Shows (lines : List Line) (info : DescriptorInfo) : Prop where
  extents : List.Forall₂ Same info.extents (Descriptor.extents lines)
  parent : info.parent = lastValue parentKey lines
  cid : info.cid = lastValue cidKey lines
  parentCid : info.parentCid = lastValue parentCidKey lines
  createType : info.createType = lastValue createTypeKey lines

section runs

variable {info info' : DescriptorInfo} {n : Nat} {line : Line} {lines before : List Line} {raws : List (List Char)}

theorem lastValue_concat (name : List Char) (before : List Line) (line : Line) :
    lastValue name ((before ++ [line]).filter isReadable) =
      (told name line).or (lastValue name (before.filter isReadable)) := by
  rw [lastValue, List.filter_append, List.filterMap_append, List.getLast?_append, told, lastValue]
  cases readable : isReadable line with
  | false => rw [List.filter_cons_of_neg (by rw [readable]; decide)]; rfl
  | true =>
    rw [List.filter_cons_of_pos readable, List.filter_nil, List.filterMap_cons, List.filterMap_nil]
    cases valueOf name line <;> rfl

theorem extents_concat (n : Nat) (line : Line) :
    List.Forall₂ Same (extentOf n line).toList (Descriptor.extents ([line].filter isReadable)) := by
  cases line with
  | blank => exact .nil
  | comment => exact .nil
  | keyValue key value quoted =>
    rw [List.filter_cons]
    split <;> exact .nil
  | extent line =>
    obtain ⟨access, size, type, file, offset⟩ := line
    cases file with
    | none => cases offset <;> exact .nil
    | some file =>
      cases offset with
      | none => exact .cons ⟨rfl, rfl, rfl, rfl⟩ .nil
      | some offset => exact .nil

theorem Shows.step (shows' : Shows (before.filter isReadable) info) (reads : Reads n line info info') :
    Shows ((before ++ [line]).filter isReadable) info' := by
  refine ⟨?_, ?_, ?_, ?_, ?_⟩
  · rw [reads.extents, List.filter_append, Descriptor.extents, List.filterMap_append]
    exact List.rel_append shows'.extents (extents_concat n line)
  · rw [reads.parent, shows'.parent, lastValue_concat]
  · rw [reads.cid, shows'.cid, lastValue_concat]
  · rw [reads.parentCid, shows'.parentCid, lastValue_concat]
  · rw [reads.createType, shows'.createType, lastValue_concat]

theorem shows_foldl (written : List.Forall₂ (fun line raw => Written line (strip raw)) lines raws)
    (shows' : Shows (before.filter isReadable) info) :
    Shows ((before ++ lines).filter isReadable) ((raws.zipIdx n).foldl parseLine info) := by
  induction written generalizing before info n with
  | nil => rwa [List.append_nil]
  | @cons line raw lines raws first _ ih =>
    rw [List.zipIdx_cons, List.foldl_cons, List.append_cons]
    exact ih (shows'.step (parseLine_written first))

end runs

section descriptors

variable {info : DescriptorInfo} {lines : List Line} {content : List Char}

/-- The lines that a text is written of. -/
def WrittenAs (lines : List Line) (content : List Char) : Prop :=
  List.Forall₂ (fun line raw => Written line (strip raw)) lines (splitlines content)

/-- A description tells all that the lines do, and the size of the disk. -/
structure Whole (lines : List Line) (info : DescriptorInfo) : Prop extends Shows lines info where
  size : info.sizeSectors = some ((Descriptor.extents lines).map (·.size)).sum

theorem extents_filter (lines : List Line) : Descriptor.extents (lines.filter isReadable) =
    (Descriptor.extents lines).filter fun line => line.file.isSome && line.offset.isNone := by
  induction lines with
  | nil => rfl
  | cons line lines ih =>
    cases line with
    | extent line =>
      have readable : isReadable (.extent line) = (line.file.isSome && line.offset.isNone) := rfl
      have cons (rest : List Line) : Descriptor.extents (.extent line :: rest) = line :: Descriptor.extents rest := rfl
      rw [List.filter_cons, readable, cons, List.filter_cons]
      split
      · rw [cons, ih]
      · exact ih
    | keyValue key value quoted =>
      rw [List.filter_cons]
      split <;> exact ih
    | blank => exact ih
    | comment => exact ih

theorem parseLine_sizeSectors (info : DescriptorInfo) (next : List Char × Nat) :
    (parseLine info next).sizeSectors = info.sizeSectors := by
  have kept (item : Item) : (info.keep item).sizeSectors = info.sizeSectors := by
    cases item with
    | extent extent => rfl
    | cid key value =>
      rw [DescriptorInfo.keep]
      split <;> rfl
    | quoted key value =>
      rw [DescriptorInfo.keep, DescriptorInfo.assign]
      split_ifs <;> rfl
    | bare key value =>
      rw [DescriptorInfo.keep, DescriptorInfo.assign]
      split_ifs <;> rfl
  rw [parseLine]
  split
  · rfl
  · cases itemOf next.2 (strip next.1) with
    | none => rfl
    | some item => exact kept item

theorem foldl_sizeSectors (info : DescriptorInfo) (next : List (List Char × Nat)) :
    (next.foldl parseLine info).sizeSectors = info.sizeSectors := by
  induction next generalizing info with
  | nil => rfl
  | cons first next ih => rw [List.foldl_cons, ih, parseLine_sizeSectors]

theorem sizes_eq {extents : List Extent} {lines : List ExtentLine} (same : List.Forall₂ Same extents lines) :
    extents.map (·.sizeSectors) = lines.map (·.size) := by
  induction same with
  | nil => rfl
  | cons first _ ih => rw [List.map_cons, List.map_cons, first.2.1, ih]

theorem parseDescriptorInfo_eq (text : isTextDescriptor (Utf8.encode content) = true) (written : WrittenAs lines content) :
    ∃ info, parseDescriptorInfo content = some info ∧ Shows (lines.filter isReadable) info ∧
      info.sizeSectors = if Descriptor.extents (lines.filter isReadable) = [] then none
        else some ((Descriptor.extents (lines.filter isReadable)).map (·.size)).sum := by
  have start : Shows (([] : List Line).filter isReadable) {} := ⟨.nil, rfl, rfl, rfl, rfl⟩
  have shows' := shows_foldl (n := 1) written start
  have sizeless := foldl_sizeSectors {} ((splitlines content).zipIdx 1)
  rw [List.nil_append] at shows'
  rw [parseDescriptorInfo, if_pos text]
  generalize ((splitlines content).zipIdx 1).foldl parseLine {} = info at shows' sizeless
  dsimp only
  by_cases none : info.extents = []
  · rw [if_pos none]
    have others : Descriptor.extents (lines.filter isReadable) = [] := by
      have same := shows'.extents
      rw [none] at same
      exact List.forall₂_nil_left_iff.mp same
    exact ⟨info, rfl, shows', by rw [if_pos others, sizeless]⟩
  · rw [if_neg none]
    have others : Descriptor.extents (lines.filter isReadable) ≠ [] := by
      intro empty
      have same := shows'.extents
      rw [empty] at same
      exact none (List.forall₂_nil_right_iff.mp same)
    refine ⟨_, rfl, ⟨shows'.extents, shows'.parent, shows'.cid, shows'.parentCid, shows'.createType⟩, ?_⟩
    rw [if_neg others, sizes_eq shows'.extents]

end descriptors

section inputs

/-- An extent of ten sectors of a file. -/
def extent (type : ExtentType) (offset : Option Nat) : ExtentLine := ⟨.rw, 10, type, some "a.vmdk".toList, offset⟩

/-- The extent as it is written. -/
def extentText (type : ExtentType) (offset : List Char) : List Char :=
  "RW".toList ++
    ([' '] ++ (['1', '0'] ++ ([' '] ++ (type.name ++ (([' '] ++ '"' :: ("a.vmdk".toList ++ ['"'])) ++ offset)))))

theorem writtenAs_extent {type : ExtentType} {offset? : Option Nat} {offset : List Char} (placed : OffsetText offset? offset)
    (alone : splitlines (extentText type offset) = [extentText type offset])
    (stripped : strip (extentText type offset) = extentText type offset) :
    WrittenAs [.extent (extent type offset?)] (extentText type offset) := by
  have space : Gap [' '] := ⟨by decide, fun c member => by rw [List.mem_singleton.mp member]; rfl⟩
  have size : Numeral ['1', '0'] (extent type offset?).size := ⟨by decide, by decide, rfl⟩
  rw [WrittenAs, alone]
  refine .cons ?_ .nil
  rw [stripped]
  exact .extent space size space (.some space (by decide) (by decide)) placed

end inputs

end H2kvm.Converters.VMDK
