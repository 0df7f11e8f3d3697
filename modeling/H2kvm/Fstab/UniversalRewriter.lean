import Mathlib.Data.List.Nodup
import H2kvm.Fstab.Stabilizer

namespace H2kvm.Fstab.Universal

open Framework Text

section universalRewriter

/-- What is known of a device. -/
structure DevInfo where
  dev : List Char
  uuid : Option (List Char)
  label : Option (List Char)
  partuuid : Option (List Char)
  blkType : Option (List Char)
  deriving DecidableEq

/-- The devices in the order they were found, each under its own path. -/
structure Inventory where
  values : List DevInfo
  keyed : (values.map DevInfo.dev).Nodup

/-- The kinds of identifiers a spec may have. -/
inductive Tag where
  | uuid
  | partuuid
  | label
  deriving DecidableEq

namespace Tag

/-- The kinds in the order they are looked for. -/
def all : List Tag := [.uuid, .partuuid, .label]

def text : Tag → List Char
  | .uuid => "UUID=".toList
  | .partuuid => "PARTUUID=".toList
  | .label => "LABEL=".toList

def of : Tag → DevInfo → Option (List Char)
  | .uuid => DevInfo.uuid
  | .partuuid => DevInfo.partuuid
  | .label => DevInfo.label

/-- `re.IGNORECASE` takes the Turkish letters for an `I`. -/
def fold (c : Char) : Char := if c = '\u0130' ∨ c = '\u0131' then 'I' else c.toUpper

/-- `^TAG=(.+)$` of a spec without white space at its end. -/
def matched (tag : Tag) (spec : List Char) : Option (List Char) :=
  if (spec.take tag.text.length).map fold = tag.text then
    let value := spec.drop tag.text.length
    if value = [] ∨ '\n' ∈ value then none else some value
  else none

end Tag

/-- `find_by_spec`. -/
def findBySpec (inv : Inventory) (spec : List Char) : Option DevInfo :=
  let spec := strip spec
  let spec := (after btrfsvol spec).getD spec
  match Tag.all.findSome? fun tag => (tag.matched spec).map (tag, ·) with
  | some (tag, value) => inv.values.find? fun di => tag.of di = some value
  | none => if devDir <+: spec then inv.values.find? fun di => di.dev = spec else none

/-- Whether a text is there and not empty. -/
def given (value : Option (List Char)) : Bool := value.any fun text => !text.isEmpty

def bootMounts : List (List Char) := ["/".toList, "/boot".toList, "/boot/efi".toList]

/-- `prefer_partuuid`. -/
def preferPartuuid (di : DevInfo) (mp : List Char) : Bool :=
  di.partuuid.isSome && decide (di.blkType = some "part".toList) && decide (mp ∈ bootMounts)

def spec (tag : Tag) (di : DevInfo) : List Char := tag.text ++ (tag.of di).getD []

/-- `stable_spec`. -/
def stableSpec (di : DevInfo) (mp : List Char) : List Char :=
  if preferPartuuid di mp then spec .partuuid di
  else if given di.uuid then spec .uuid di
  else if given di.partuuid then spec .partuuid di
  else if given di.label then spec .label di
  else di.dev

/-- An option `key` or `key=…`. -/
def hasKey (key opt : List Char) : Bool := opt = key || decide (key ++ ['='] <+: opt)

def optionsOf (opts : List Char) : List (List Char) := words (· = ',') opts

/-- `set_mountopt`. -/
def setMountopt (opts opt key : List Char) : List Char :=
  join [','] ((optionsOf opts).filter (fun o => !hasKey key o) ++ [opt])

structure Entry where
  spec : List Char
  mp : List Char
  fstype : List Char
  opts : List Char
  dump : List Char
  pass : List Char
  deriving DecidableEq

/-- `split_fstab_line`. -/
def splitFstabLine (line : List Char) : Option Entry :=
  let s := strip line
  if s = [] ∨ ['#'] <+: s then none
  else
    match split s with
    | spec :: mp :: fstype :: opts :: rest => some ⟨spec, mp, fstype, opts, rest[0]?.getD ['0'], rest[1]?.getD ['0']⟩
    | _ => none

def specialTypes : List (List Char) :=
  ["tmpfs".toList, "devtmpfs".toList, "sysfs".toList, "proc".toList, "devpts".toList, "cgroup".toList, "cgroup2".toList]

def isStable (spec : List Char) : Bool := Tag.all.any fun tag => decide (tag.text <+: Ident.upper spec)

def subvol : List Char := "subvol".toList

/-- The subvolume that is wanted for an entry. -/
def desiredSubvol (subvols : List Char → Option (List Char)) (e : Entry) : Option (List Char) :=
  if e.fstype = "btrfs".toList ∧ given (subvols e.mp) then subvols e.mp else none

def newOpts (subvols : List Char → Option (List Char)) (e : Entry) : List Char :=
  match desiredSubvol subvols e with
  | some desired => setMountopt e.opts (subvol ++ '=' :: desired) subvol
  | none => e.opts

def newSpec (di : DevInfo) (e : Entry) : List Char :=
  if e.fstype = "swap".toList ∧ given di.uuid then spec .uuid di else stableSpec di e.mp

/-- `{text:<width}`. -/
def pad (width : Nat) (text : List Char) : List Char := text ++ List.replicate (width - text.length) ' '

/-- The line of an entry in columns. -/
def columns (e : Entry) : List Char :=
  pad 40 e.spec ++ ' ' :: (pad 20 e.mp ++ ' ' :: (pad 10 e.fstype ++ ' ' :: (pad 30 e.opts ++ ' ' :: (e.dump ++ ' ' :: e.pass))))

structure Stats where
  totalLines : Nat := 0
  converted : Nat := 0
  alreadyStable : Nat := 0
  skipped : Nat := 0
  errors : Nat := 0
  deriving DecidableEq

structure Scan where
  outLines : List (List Char) := []
  stats : Stats := {}

/-- One line of the pass. -/
def scanLine (inv : Inventory) (subvols : List Char → Option (List Char)) (s : Scan) (line : List Char) : Scan :=
  let stats := { s.stats with totalLines := s.stats.totalLines + 1 }
  let kept := s.outLines ++ [line]
  match splitFstabLine line with
  | none => ⟨kept, stats⟩
  | some e =>
    if e.fstype ∈ specialTypes then ⟨kept, { stats with skipped := stats.skipped + 1 }⟩
    else
      match findBySpec inv e.spec with
      | none => ⟨kept, { stats with errors := stats.errors + 1 }⟩
      | some di =>
        if isStable e.spec then ⟨kept, { stats with alreadyStable := stats.alreadyStable + 1 }⟩
        else
          let new := columns { e with spec := newSpec di e, opts := newOpts subvols e }
          ⟨s.outLines ++ [new], { stats with converted := stats.converted + 1 }⟩

def scan (inv : Inventory) (subvols : List Char → Option (List Char)) (content : List Char) : Scan :=
  (splitlines content).foldl (scanLine inv subvols) {}

/-- `rewrite_fstab`, with the text it writes; `none` is a read or a write that raises. -/
def rewriteFstab (read : Option (List Char)) (writes : Bool) (inv : Inventory)
    (subvols : List Char → Option (List Char)) : Stats × Option (List Char) :=
  match read with
  | none => ({ errors := 1 }, none)
  | some content =>
    let s := scan inv subvols content
    if writes then (s.stats, some (join ['\n'] s.outLines ++ ['\n']))
    else ({ s.stats with errors := s.stats.errors + 1 }, none)

/-- The entry of a line that is converted, with its device. -/
def conversion (inv : Inventory) (line : List Char) : Option (Entry × DevInfo) :=
  match splitFstabLine line with
  | none => none
  | some e =>
    if e.fstype ∈ specialTypes ∨ isStable e.spec then none else (findBySpec inv e.spec).map (e, ·)

/-- What becomes of a line. -/
def rewritten (inv : Inventory) (subvols : List Char → Option (List Char)) (line : List Char) : List Char :=
  match conversion inv line with
  | some (e, di) => columns { e with spec := newSpec di e, opts := newOpts subvols e }
  | none => line

section pass

variable (inv : Inventory) (subvols : List Char → Option (List Char))

def Stats.entries (s : Stats) : Nat := s.converted + s.alreadyStable + s.skipped + s.errors

theorem scanLine_spec (s : Scan) (line : List Char) :
    (scanLine inv subvols s line).outLines = s.outLines ++ [rewritten inv subvols line] ∧
      (scanLine inv subvols s line).stats.entries =
        s.stats.entries + if (splitFstabLine line).isSome then 1 else 0 := by
  unfold scanLine rewritten conversion
  cases splitFstabLine line with
  | none => exact ⟨rfl, rfl⟩
  | some e =>
    simp only
    by_cases special : e.fstype ∈ specialTypes
    · simp only [special, if_true, true_or, Option.isSome_some, Stats.entries]
      exact ⟨trivial, by omega⟩
    · cases findBySpec inv e.spec with
      | none =>
        simp only [special, if_false, Option.map_none, ite_self, Option.isSome_some, if_true, Stats.entries]
        exact ⟨trivial, by omega⟩
      | some di =>
        by_cases stable : isStable e.spec = true
        · simp only [special, stable, if_true, if_false, or_true, Option.isSome_some, Stats.entries]
          exact ⟨trivial, by omega⟩
        · simp only [special, stable, if_true, if_false, Bool.false_eq_true, or_self, Option.isSome_some, Option.map_some,
            Stats.entries]
          exact ⟨trivial, by omega⟩

theorem scan_spec (s : Scan) (lines : List (List Char)) :
    (lines.foldl (scanLine inv subvols) s).outLines = s.outLines ++ lines.map (rewritten inv subvols) ∧
      (lines.foldl (scanLine inv subvols) s).stats.entries =
        s.stats.entries + (lines.filter fun line => (splitFstabLine line).isSome).length := by
  induction lines generalizing s with
  | nil => simp
  | cons line lines ih =>
    obtain ⟨out, count⟩ := scanLine_spec inv subvols s line
    obtain ⟨outs, counts⟩ := ih (scanLine inv subvols s line)
    refine ⟨?_, ?_⟩
    · rw [List.foldl_cons, outs, out, List.map_cons, List.append_assoc, List.singleton_append]
    · rw [List.foldl_cons, counts, count, List.filter_cons]
      split
      · rw [List.length_cons]
        omega
      · rfl

end pass

end universalRewriter

section universalSpecs

/-- No two devices have an identifier in common. -/
def Inventory.Distinct (inv : Inventory) : Prop :=
  ∀ tag : Tag, ∀ di ∈ inv.values, ∀ di' ∈ inv.values, ∀ value,
    tag.of di = some value → tag.of di' = some value → di = di'

/-- What the options are but for the subvolume. -/
def OptionsKept (subvols : List Char → Option (List Char)) (e e' : Entry) : Prop :=
  match desiredSubvol subvols e with
  | some desired => optionsOf e'.opts = (optionsOf e.opts).filter (fun o => !hasKey subvol o) ++ [subvol ++ '=' :: desired]
  | none => e'.opts = e.opts

/-- `e'` is the same mount of the same device as `e`. -/
structure SameMount (inv : Inventory) (subvols : List Char → Option (List Char)) (e e' : Entry) : Prop where
  device : findBySpec inv e'.spec = findBySpec inv e.spec
  mp : e'.mp = e.mp
  fstype : e'.fstype = e.fstype
  opts : OptionsKept subvols e e'
  dump : e'.dump = e.dump
  pass : e'.pass = e.pass

/-- A line that is converted is the same mount when it is read again, and every other line is unchanged. -/
def LineKept (inv : Inventory) (subvols : List Char → Option (List Char)) (line line' : List Char) : Prop :=
  match conversion inv line with
  | some (e, _) => ∃ e', splitFstabLine line' = some e' ∧ SameMount inv subvols e e'
  | none => line' = line

/-- The file is kept line by line, and every entry is counted. -/
structure FileKept (inv : Inventory) (subvols : List Char → Option (List Char)) (content : List Char) : Prop where
  lines : List.Forall₂ (LineKept inv subvols) (splitlines content) (scan inv subvols content).outLines
  written : (rewriteFstab (some content) true inv subvols).2 =
    some (join ['\n'] (scan inv subvols content).outLines ++ ['\n'])
  counted : (rewriteFstab (some content) true inv subvols).1.entries =
    ((splitlines content).filter fun line => (splitFstabLine line).isSome).length

/-- The identifier that is written for a device, if it is not the path. -/
def chosen (di : DevInfo) (e : Entry) : Option (Tag × List Char) :=
  if e.fstype = "swap".toList ∧ given di.uuid then some (.uuid, di.uuid.getD [])
  else if preferPartuuid di e.mp then some (.partuuid, di.partuuid.getD [])
  else if given di.uuid then some (.uuid, di.uuid.getD [])
  else if given di.partuuid then some (.partuuid, di.partuuid.getD [])
  else if given di.label then some (.label, di.label.getD [])
  else none

/-- A device and an entry that can be written in columns: the identifier is one word, and so is the subvolume, which has
no comma. -/
structure Writable (subvols : List Char → Option (List Char)) (e : Entry) (di : DevInfo) : Prop where
  ident : ∀ tag value, chosen di e = some (tag, value) → value ≠ [] ∧ ∀ c ∈ value, isSpace c = false
  subvol : ∀ desired, desiredSubvol subvols e = some desired → ∀ c ∈ desired, isSpace c = false ∧ c ≠ ','

section specs

variable {inv : Inventory} {tag : Tag} {value : List Char} {di : DevInfo} {e : Entry}

theorem strip_of_free {s : List Char} (free : ∀ c ∈ s, isSpace c = false) : strip s = s := by
  have left : lstrip s = s := by
    cases s with
    | nil => rfl
    | cons c s => exact List.dropWhile_cons_of_neg (by simp [free c List.mem_cons_self])
  rw [strip, left, rstrip, List.rdropWhile_eq_self_iff]
  intro nonempty last
  rw [free _ (List.getLast_mem nonempty)] at last
  cases last

theorem not_prefix_of_head? {lead s : List Char} {c d : Char} (hl : lead.head? = some c) (hs : s.head? = some d)
    (differ : c ≠ d) : ¬lead <+: s := by
  intro found
  obtain ⟨rest, rfl⟩ := found
  rw [List.head?_append, hl] at hs
  exact differ (Option.some.inj hs)

/-- The first letter of a tag. -/
theorem Tag.head?_text (tag : Tag) (value : List Char) : ∃ c ∈ ['U', 'P', 'L'], (tag.text ++ value).head? = some c := by
  cases tag with
  | uuid => exact ⟨'U', by decide, rfl⟩
  | partuuid => exact ⟨'P', by decide, rfl⟩
  | label => exact ⟨'L', by decide, rfl⟩

theorem Tag.text_free (tag : Tag) : ∀ c ∈ tag.text, isSpace c = false := by
  cases tag with
  | uuid => decide
  | partuuid => decide
  | label => decide

theorem Tag.matched_self (tag : Tag) (free : ∀ c ∈ value, isSpace c = false) :
    tag.matched (tag.text ++ value) = if value = [] then none else some value := by
  have line : '\n' ∉ value := fun mem => absurd (free _ mem) (by decide)
  have folded : tag.text.map Tag.fold = tag.text := by cases tag <;> decide
  rw [Tag.matched, List.take_left', List.drop_left', folded, if_pos rfl]
  · simp only [line, or_false]
  · rfl
  · rfl

theorem Tag.matched_other {tag tag' : Tag} (other : tag ≠ tag') : tag'.matched (tag.text ++ value) = none := by
  rw [Tag.matched, if_neg]
  intro same
  -- the first letters differ
  have heads : ∀ tag tag' : Tag, tag ≠ tag' → (tag.text.take 1).map Tag.fold ≠ tag'.text.take 1 := by
    intro tag tag'
    cases tag <;> cases tag' <;> decide
  have first := congrArg (List.take 1) same
  rw [← List.map_take, List.take_take] at first
  have one : min 1 tag'.text.length = 1 := by cases tag' <;> rfl
  have short : (tag.text ++ value).take 1 = tag.text.take 1 := by
    apply List.take_append_of_le_length
    cases tag <;> decide
  rw [one, short] at first
  exact heads tag tag' other first

/-- A spec with an identifier leads to the first device that has it. -/
theorem findBySpec_tag (inv : Inventory) (tag : Tag) (free : ∀ c ∈ value, isSpace c = false) :
    findBySpec inv (tag.text ++ value) =
      if value = [] then none else inv.values.find? fun di => tag.of di = some value := by
  have whole : ∀ c ∈ tag.text ++ value, isSpace c = false := by
    intro c hc
    exact (List.mem_append.mp hc).elim (tag.text_free c) (free c)
  obtain ⟨first, capital, head⟩ := tag.head?_text value
  have plain : after btrfsvol (tag.text ++ value) = none := by
    have differ : ∀ c ∈ ['U', 'P', 'L'], 'b' ≠ c := by decide
    exact if_neg (not_prefix_of_head? rfl head (differ first capital))
  have path : ¬devDir <+: tag.text ++ value := by
    have differ : ∀ c ∈ ['U', 'P', 'L'], '/' ≠ c := by decide
    exact not_prefix_of_head? rfl head (differ first capital)
  have found : (Tag.all.findSome? fun tag' => (tag'.matched (tag.text ++ value)).map (tag', ·)) =
      if value = [] then none else some (tag, value) := by
    have self := tag.matched_self free
    have others (tag' : Tag) (other : tag ≠ tag') : tag'.matched (tag.text ++ value) = none := Tag.matched_other other
    have same : (if value = [] then none else some value).map (tag, ·) = if value = [] then none else some (tag, value) := by
      split
      · rfl
      · rfl
    rw [← same, ← self]
    cases tag with
    | uuid =>
      simp only [Tag.all, List.findSome?_cons, List.findSome?_nil, others .partuuid (by decide), others .label (by decide),
        Option.map_none]
      cases (Tag.uuid.matched (Tag.uuid.text ++ value)).map (Tag.uuid, ·) <;> rfl
    | partuuid =>
      simp only [Tag.all, List.findSome?_cons, List.findSome?_nil, others .uuid (by decide), others .label (by decide),
        Option.map_none]
      cases (Tag.partuuid.matched (Tag.partuuid.text ++ value)).map (Tag.partuuid, ·) <;> rfl
    | label =>
      simp only [Tag.all, List.findSome?_cons, List.findSome?_nil, others .uuid (by decide), others .partuuid (by decide),
        Option.map_none]
      cases (Tag.label.matched (Tag.label.text ++ value)).map (Tag.label, ·) <;> rfl
  rw [findBySpec, strip_of_free whole, plain, Option.getD_none]
  simp only [found]
  by_cases empty : value = []
  · simp only [empty, if_true]
    rw [empty] at path
    exact if_neg path
  · simp only [empty, if_false]

theorem findBySpec_mem {s : List Char} (h : findBySpec inv s = some di) : di ∈ inv.values := by
  unfold findBySpec at h
  simp only at h
  split at h
  · exact List.mem_of_find?_eq_some h
  · split at h
    · exact List.mem_of_find?_eq_some h
    · cases h

theorem find?_of_distinct (distinct : inv.Distinct) (mem : di ∈ inv.values) (has : tag.of di = some value) :
    (inv.values.find? fun di => tag.of di = some value) = some di := by
  cases found : inv.values.find? fun di => tag.of di = some value with
  | none =>
    have absent := List.find?_eq_none.mp found di mem
    simp [has] at absent
  | some di' =>
    have has' : tag.of di' = some value := by simpa using List.find?_some found
    rw [distinct tag di' (List.mem_of_find?_eq_some found) di mem value has' has]

theorem eq_some_getD_of_given {value : Option (List Char)} (h : given value = true) : value = some (value.getD []) := by
  cases value with
  | none => cases h
  | some text => rfl

theorem of_chosen (h : chosen di e = some (tag, value)) : tag.of di = some value := by
  unfold chosen at h
  split at h
  · rename_i swap
    cases h
    exact eq_some_getD_of_given swap.2
  split at h
  · rename_i boot
    cases h
    have some : di.partuuid.isSome = true := by
      simp only [preferPartuuid, Bool.and_eq_true] at boot
      exact boot.1.1
    obtain ⟨text, here⟩ := Option.isSome_iff_exists.mp some
    rw [Tag.of, here]
    rfl
  split at h
  · rename_i here
    cases h
    exact eq_some_getD_of_given here
  split at h
  · rename_i here
    cases h
    exact eq_some_getD_of_given here
  split at h
  · rename_i here
    cases h
    exact eq_some_getD_of_given here
  · cases h

theorem newSpec_eq (di : DevInfo) (e : Entry) :
    newSpec di e = match chosen di e with
      | some (tag, value) => tag.text ++ value
      | none => di.dev := by
  unfold newSpec stableSpec chosen
  by_cases swap : e.fstype = "swap".toList ∧ given di.uuid
  · simp only [if_pos swap]
    rfl
  simp only [if_neg swap]
  by_cases boot : preferPartuuid di e.mp = true
  · simp only [if_pos boot]
    rfl
  simp only [if_neg boot]
  by_cases uuid : given di.uuid = true
  · simp only [if_pos uuid]
    rfl
  simp only [if_neg uuid]
  by_cases partuuid : given di.partuuid = true
  · simp only [if_pos partuuid]
    rfl
  simp only [if_neg partuuid]
  by_cases label : given di.label = true
  · simp only [if_pos label]
    rfl
  · simp only [if_neg label]

theorem given_of_ne_nil (h : value ≠ []) : given (some value) = true := by
  cases value with
  | nil => exact absurd rfl h
  | cons c value => rfl

/-- A device without an identifier was found by its path. -/
theorem dev_of_chosen_eq_none {s : List Char} (found : findBySpec inv s = some di) (none : chosen di e = none) :
    devDir <+: di.dev ∧ di.dev = (after btrfsvol (strip s)).getD (strip s) := by
  have bare : given di.uuid = false ∧ given di.partuuid = false ∧ given di.label = false := by
    unfold chosen at none
    split at none
    · cases none
    split at none
    · cases none
    split at none
    · cases none
    rename_i uuid
    split at none
    · cases none
    rename_i partuuid
    split at none
    · cases none
    rename_i label
    exact ⟨Bool.eq_false_iff.mpr uuid, Bool.eq_false_iff.mpr partuuid, Bool.eq_false_iff.mpr label⟩
  unfold findBySpec at found
  simp only at found
  split at found
  · rename_i tag value matched
    have has : tag.of di = some value := by simpa using List.find?_some found
    obtain ⟨tag', -, hit⟩ := List.exists_of_findSome?_eq_some matched
    obtain ⟨value', own, pair⟩ := Option.map_eq_some_iff.mp hit
    cases pair
    have nonempty : value ≠ [] := by
      unfold Tag.matched at own
      split at own
      · simp only at own
        split at own
        · cases own
        · rename_i visible
          cases own
          exact fun empty => visible (.inl empty)
      · cases own
    have some := given_of_ne_nil nonempty
    rw [← has] at some
    cases tag with
    | uuid => exact absurd (bare.1.symm.trans some) (by decide)
    | partuuid => exact absurd (bare.2.1.symm.trans some) (by decide)
    | label => exact absurd (bare.2.2.symm.trans some) (by decide)
  · split at found
    · rename_i path
      have dev : di.dev = (after btrfsvol (strip s)).getD (strip s) := by simpa using List.find?_some found
      rw [dev]
      exact ⟨path, rfl⟩
    · cases found

/-- The path of a device is found. -/
theorem findBySpec_dev (mem : di ∈ inv.values) (path : devDir <+: di.dev) (free : ∀ c ∈ di.dev, isSpace c = false) :
    findBySpec inv di.dev = some di := by
  obtain ⟨rest, text⟩ := path
  have plain : after btrfsvol di.dev = none := by
    have head : di.dev.head? = some '/' := by
      rw [← text]
      rfl
    exact if_neg (not_prefix_of_head? rfl head (by decide))
  have untagged (tag : Tag) : tag.matched di.dev = none := by
    rw [Tag.matched, if_neg]
    intro same
    have heads : ∀ tag : Tag, (devDir.take 1).map Tag.fold ≠ tag.text.take 1 := by
      intro tag
      cases tag <;> decide
    have first := congrArg (List.take 1) same
    rw [← List.map_take, List.take_take, ← text] at first
    have one : min 1 tag.text.length = 1 := by cases tag <;> rfl
    have short : (devDir ++ rest).take 1 = devDir.take 1 := rfl
    rw [one, short] at first
    exact heads tag first
  have nothing : (Tag.all.findSome? fun tag => (tag.matched di.dev).map (tag, ·)) = none := by
    simp only [untagged, Option.map_none, List.findSome?_eq_none_iff, implies_true]
  rw [findBySpec, strip_of_free free, plain, Option.getD_none]
  simp only [nothing]
  rw [if_pos ⟨rest, text⟩]
  cases found : inv.values.find? fun d => d.dev = di.dev with
  | none =>
    have absent := List.find?_eq_none.mp found di mem
    simp at absent
  | some di' =>
    have same : di'.dev = di.dev := by simpa using List.find?_some found
    rw [List.inj_on_of_nodup_map inv.keyed (List.mem_of_find?_eq_some found) mem same]

end specs

section columns

variable {inv : Inventory} {subvols : List Char → Option (List Char)} {di : DevInfo} {e : Entry} {line : List Char}

def IsWord (s : List Char) : Prop := s ≠ [] ∧ ∀ c ∈ s, isSpace c = false

theorem split_of_isWord {s : List Char} (h : IsWord s) : split s = [s] := by
  rw [split_eq_words]
  exact words_single h.2 h.1

theorem split_append_space (s t : List Char) : split (s ++ ' ' :: t) = split s ++ split t := by
  simp only [split_eq_words]
  exact words_append_sep (by decide) s t

theorem split_pad (width : Nat) (s : List Char) : split (pad width s) = split s := by
  simp only [split_eq_words]
  exact words_append_seps fun c hc => (List.mem_replicate.mp hc).2 ▸ by decide

theorem split_columns (e : Entry) :
    split (columns e) = split e.spec ++ (split e.mp ++ (split e.fstype ++ (split e.opts ++ (split e.dump ++ split e.pass)))) := by
  simp only [columns, split_append_space, split_pad]

theorem splitFstabLine_of_split {spec mp fstype opts : List Char} {rest : List (List Char)}
    (h : split line = spec :: mp :: fstype :: opts :: rest) (active : spec.head? ≠ some '#') :
    splitFstabLine line = some ⟨spec, mp, fstype, opts, rest[0]?.getD ['0'], rest[1]?.getD ['0']⟩ := by
  have cols := h
  rw [← split_strip] at cols
  unfold splitFstabLine
  simp only
  rw [if_neg]
  · rw [cols]
  · intro comment
    rcases comment with blank | ⟨text, hash⟩
    · rw [blank] at cols
      cases cols
    · -- the first word of a comment starts with a `#`
      obtain ⟨w, ws, first, lead, nonempty⟩ := @words_head _ isSpace '#' (by decide) text
      rw [← hash, List.singleton_append, split_eq_words, first] at cols
      cases cols
      obtain ⟨c, w', rfl⟩ := List.exists_cons_of_ne_nil nonempty
      obtain ⟨tail, whole⟩ := lead
      cases whole
      exact active rfl

theorem isWord_of_splitFstabLine (h : splitFstabLine line = some e) :
    IsWord e.spec ∧ IsWord e.mp ∧ IsWord e.fstype ∧ IsWord e.opts ∧ IsWord e.dump ∧ IsWord e.pass := by
  have zero : IsWord ['0'] := ⟨by decide, by decide⟩
  unfold splitFstabLine at h
  simp only at h
  split at h
  · cases h
  split at h
  · rename_i spec mp fstype opts rest cols
    cases h
    have word {w : List Char} (hw : w ∈ spec :: mp :: fstype :: opts :: rest) : IsWord w := by
      rw [← cols, split_eq_words] at hw
      exact mem_words hw
    have column (i : Nat) : IsWord (rest[i]?.getD ['0']) := by
      cases found : rest[i]? with
      | none => exact zero
      | some w => exact word (by simp [List.mem_of_getElem? found])
    exact ⟨word (by simp), word (by simp), word (by simp), word (by simp), column 0, column 1⟩
  · cases h

theorem conversion_eq_some (h : conversion inv line = some (e, di)) :
    splitFstabLine line = some e ∧ findBySpec inv e.spec = some di := by
  unfold conversion at h
  split at h
  · cases h
  · rename_i e' parsed
    split at h
    · cases h
    · obtain ⟨di', found, pair⟩ := Option.map_eq_some_iff.mp h
      cases pair
      exact ⟨parsed, found⟩

theorem split_tag (tag : Tag) (value : List Char) :
    ∃ ws, split (tag.text ++ value) = (tag.text ++ value.takeWhile fun c => !isSpace c) :: ws := by
  have free : ∀ c ∈ tag.text ++ value.takeWhile (fun c => !isSpace c), isSpace c = false := by
    intro c hc
    rcases List.mem_append.mp hc with lead | inner
    · exact tag.text_free c lead
    · simpa using List.mem_takeWhile_imp inner
  have nonempty : tag.text ++ value.takeWhile (fun c => !isSpace c) ≠ [] := by
    obtain ⟨c, -, head⟩ := tag.head?_text (value.takeWhile fun c => !isSpace c)
    intro empty
    rw [empty] at head
    cases head
  have stops : ∀ z ∈ (value.dropWhile fun c => !isSpace c).head?, isSpace z := by
    intro z hz
    have last := List.head?_dropWhile_not (fun c => !isSpace c) value
    rw [Option.mem_def] at hz
    rw [hz] at last
    simpa using last
  have whole : tag.text ++ value =
      [] ++ ((tag.text ++ value.takeWhile fun c => !isSpace c) ++ value.dropWhile fun c => !isSpace c) := by
    rw [List.nil_append, List.append_assoc, List.takeWhile_append_dropWhile]
  refine ⟨split (value.dropWhile fun c => !isSpace c), ?_⟩
  rw [split_eq_words, split_eq_words, whole]
  exact words_cons (by simp) free nonempty stops

theorem isWord_dev (spec : IsWord e.spec) (found : findBySpec inv e.spec = some di) (none : chosen di e = none) :
    devDir <+: di.dev ∧ IsWord di.dev := by
  obtain ⟨path, dev⟩ := dev_of_chosen_eq_none found none
  refine ⟨path, ?_, ?_⟩
  · rintro empty
    rw [empty] at path
    exact absurd path (by decide)
  · intro c hc
    rw [dev, strip_of_free spec.2, after] at hc
    split at hc
    · exact spec.2 c (List.mem_of_mem_drop hc)
    · exact spec.2 c hc

theorem optionsOf_setMountopt {opts opt key : List Char} (nonempty : opt ≠ []) (plain : ∀ c ∈ opt, c ≠ ',') :
    optionsOf (setMountopt opts opt key) = (optionsOf opts).filter (fun o => !hasKey key o) ++ [opt] := by
  apply words_join_words (by decide)
  · simp
  · intro w hw
    rcases List.mem_append.mp hw with old | new
    · exact mem_words (List.mem_filter.mp old).1
    · rw [List.mem_singleton.mp new]
      exact ⟨nonempty, fun c hc => by simpa using plain c hc⟩

theorem isWord_setMountopt {opts opt key : List Char} (old : IsWord opts) (new : IsWord opt) :
    IsWord (setMountopt opts opt key) := by
  refine ⟨?_, fun c hc => ?_⟩
  · intro empty
    have last : join [','] ((optionsOf opts).filter (fun o => !hasKey key o) ++ [opt]) = [] := empty
    by_cases first : (optionsOf opts).filter (fun o => !hasKey key o) = []
    · rw [first] at last
      exact new.1 (by simpa [join, List.intercalate] using last)
    · rw [join_concat first] at last
      simp at last
  · rcases mem_join hc with sep | ⟨part, hpart, inside⟩
    · rw [List.mem_singleton.mp sep]
      decide
    · rcases List.mem_append.mp hpart with kept | added
      · exact old.2 c (subset_of_mem_words (List.mem_filter.mp kept).1 c inside)
      · exact new.2 c (List.mem_singleton.mp added ▸ inside)

/-- The entry of a converted line is the same mount exactly if it can be written in columns. -/
theorem sameMount_iff (distinct : inv.Distinct) (converted : conversion inv line = some (e, di)) :
    (∃ e', splitFstabLine (columns { e with spec := newSpec di e, opts := newOpts subvols e }) = some e' ∧
      SameMount inv subvols e e') ↔ Writable subvols e di := by
  let new : Entry := { e with spec := newSpec di e, opts := newOpts subvols e }
  obtain ⟨parsed, found⟩ := conversion_eq_some converted
  obtain ⟨spec, mp, fstype, opts, dump, pass⟩ := isWord_of_splitFstabLine parsed
  have mem := findBySpec_mem found
  have cols : split (columns new) = split (newSpec di e) ++ (e.mp :: e.fstype :: (split (newOpts subvols e) ++ [e.dump, e.pass])) := by
    simp [split_columns, new, split_of_isWord mp, split_of_isWord fstype, split_of_isWord dump, split_of_isWord pass]
  constructor
  · intro kept
    obtain ⟨e', reread, same⟩ := kept
    obtain ⟨-, -, -, word, -⟩ := isWord_of_splitFstabLine reread
    refine ⟨fun tag value ident => ?_, fun desired wanted => ?_⟩
    · have text : newSpec di e = tag.text ++ value := by rw [newSpec_eq, ident]
      obtain ⟨ws, first⟩ := split_tag tag value
      let v := value.takeWhile fun c => !isSpace c
      have free : ∀ c ∈ v, isSpace c = false := fun c hc => by simpa using List.mem_takeWhile_imp hc
      have lead : e'.spec = tag.text ++ v := by
        unfold splitFstabLine at reread
        simp only at reread
        split at reread
        · cases reread
        split at reread
        · rename_i spec' mp' fstype' opts' rest' all
          cases reread
          rw [split_strip] at all
          have head := all.symm.trans cols
          rw [text, first, List.cons_append] at head
          exact (List.cons.inj head).1
        · cases reread
      have device := same.device
      rw [lead, findBySpec_tag inv tag free, found] at device
      split at device
      · cases device
      · rename_i nonempty
        have has : tag.of di = some v := by simpa using List.find?_some device
        have one : v = value := Option.some.inj (has.symm.trans (of_chosen ident))
        exact ⟨one ▸ nonempty, one ▸ free⟩
    · have kept := same.opts
      rw [OptionsKept, wanted] at kept
      have option : subvol ++ '=' :: desired ∈ optionsOf e'.opts := by
        rw [kept]
        simp
      intro c hc
      have inside : c ∈ subvol ++ '=' :: desired := by simp [hc]
      refine ⟨word.2 c (subset_of_mem_words option c inside), ?_⟩
      simpa using (mem_words option).2 c inside
  · intro writable
    have device : IsWord (newSpec di e) ∧ findBySpec inv (newSpec di e) = some di ∧ (newSpec di e).head? ≠ some '#' := by
      rw [newSpec_eq]
      cases ident : chosen di e with
      | none =>
        obtain ⟨path, word⟩ := isWord_dev spec found ident
        refine ⟨word, findBySpec_dev mem path word.2, ?_⟩
        obtain ⟨rest, text⟩ := path
        simp only [← text]
        exact fun hash => absurd (Option.some.inj hash) (by decide)
      | some p =>
        obtain ⟨tag, value⟩ := p
        obtain ⟨nonempty, free⟩ := writable.ident tag value ident
        obtain ⟨c, capital, head⟩ := tag.head?_text value
        have differ : ∀ c ∈ ['U', 'P', 'L'], c ≠ '#' := by decide
        refine ⟨⟨by simp [nonempty], ?_⟩, ?_, ?_⟩
        · intro c hc
          exact (List.mem_append.mp hc).elim (tag.text_free c) (free c)
        · rw [findBySpec_tag inv tag free, if_neg nonempty]
          exact find?_of_distinct distinct mem (of_chosen ident)
        · rw [head]
          exact fun hash => differ c capital (Option.some.inj hash)
    have options : IsWord (newOpts subvols e) ∧ OptionsKept subvols e new := by
      rw [OptionsKept]
      simp only [new]
      unfold newOpts
      cases wanted : desiredSubvol subvols e with
      | none => exact ⟨opts, rfl⟩
      | some desired =>
        have plain := writable.subvol desired wanted
        have lead : ∀ c ∈ subvol ++ ['='], isSpace c = false ∧ c ≠ ',' := by decide
        have each : ∀ c ∈ subvol ++ '=' :: desired, isSpace c = false ∧ c ≠ ',' := by
          intro c hc
          rw [List.append_cons] at hc
          exact (List.mem_append.mp hc).elim (lead c) (plain c)
        refine ⟨isWord_setMountopt opts ⟨by simp, fun c hc => (each c hc).1⟩, ?_⟩
        exact optionsOf_setMountopt (by simp) fun c hc => (each c hc).2
    refine ⟨new, ?_, ?_⟩
    · have all : split (columns new) = newSpec di e :: e.mp :: e.fstype :: newOpts subvols e :: [e.dump, e.pass] := by
        rw [cols, split_of_isWord device.1, split_of_isWord options.1]
        rfl
      exact splitFstabLine_of_split all device.2.2
    · exact ⟨device.2.1.trans found.symm, rfl, rfl, options.2, rfl, rfl⟩

end columns

def only (di : DevInfo) : Inventory := ⟨[di], List.nodup_singleton _⟩

theorem only_distinct (di : DevInfo) : (only di).Distinct := by
  intro tag a ha b hb value _ _
  rw [List.mem_singleton.mp ha, List.mem_singleton.mp hb]

def dataLine : List Char := "/dev/sda2 /data ext4 defaults 0 2".toList

def dataEntry : Entry :=
  ⟨"/dev/sda2".toList, "/data".toList, "ext4".toList, "defaults".toList, ['0'], ['2']⟩

def dataDisk (uuid label : Option (List Char)) : DevInfo := ⟨"/dev/sda2".toList, uuid, label, none, none⟩

end universalSpecs

end H2kvm.Fstab.Universal
