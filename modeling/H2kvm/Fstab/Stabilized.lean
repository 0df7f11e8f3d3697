import H2kvm.Fstab.Stabilizer
import H2kvm.Fstab.UniversalRewriter

namespace H2kvm.Fstab.Stabilizer

open Framework Text
open Config (int?)

/-- The device that a spec is about, and the one that a subvolume is on. -/
def deviceOf (spec : Str) : Option Str := if devDir <+: spec then some spec else btrfsvolDevice spec

/-- The guest knows the device of a spec by a `UUID` or a `PARTUUID`. -/
def Identified (g : Guest) (spec : Str) : Prop :=
  ∃ device, deviceOf spec = some device ∧
    ((given (getDeviceIdentifiers g device).uuid).isSome ∨ (given (getDeviceIdentifiers g device).partuuid).isSome)

/-- An option that says which subvolume is mounted. -/
def IsSubvol (option : Str) : Prop := "subvol=".toList <+: option ∨ "subvolid=".toList <+: option

/-- What the subvolume of a spec is called. -/
def specSubvol (spec : Str) : Option Str := do
  let rest ← after btrfsvol spec
  let name ← after devDir rest
  let subvol := (name.dropWhile fun c => c ≠ '/' && c ≠ '@').dropWhile (· = '/')
  if subvol = [] then none else some subvol

/-- The conversion names an identifier of the device, and keeps the subvolume. -/
structure Stabilized (g : Guest) (entry : FstabEntry) (conversion : FstabConversion) : Prop where
  converted : conversion.converted = true
  names : ∃ device id, deviceOf entry.spec = some device ∧
    (given (getDeviceIdentifiers g device).uuid = some id ∧ conversion.newSpec = some (uuidTag ++ id) ∨
      given (getDeviceIdentifiers g device).partuuid = some id ∧ conversion.newSpec = some (partuuidTag ++ id))
  options : ∃ options, conversion.newOptions = some options ∧
    (∀ option ∈ optionsOf entry.options, IsSubvol option → option ∈ optionsOf options) ∧
    ∀ subvol, specSubvol entry.spec = some subvol → "subvol=".toList ++ subvol ∈ optionsOf options

namespace FstabStabilizer

variable (s : FstabStabilizer) (g : Guest)

/-- What is to become of a line: it is kept unless it is converted, and the entry of a device that has an identifier is. -/
def LineOk (numbered : Str × Nat) (new : Str) : Prop :=
  ∃ parsed, parseFstabLine numbered.1 numbered.2 = .ok parsed ∧
    match parsed with
    | none => new = numbered.1
    | some entry =>
      let conversion := (s.convertEntry g entry {}).1
      (conversion.converted = false → new = numbered.1) ∧
        (Identified g entry.spec → Stabilized g entry conversion ∧ new = formatFstabLine entry conversion)

/-- What the docstrings promise of a run: a result, and the lines as they are to become. -/
def Documented (stats : Stats) (fstabPath : Str) : Prop :=
  ∃ result written, s.stabilizeFstab g stats fstabPath = .ok (result, written) ∧
    ∀ content, g.readFile fstabPath = .ok content →
      ∃ lines, written = some (join ['\n'] lines ++ ['\n']) ∧
        List.Forall₂ (s.LineOk g) ((splitlines content).zipIdx 1) lines

/-- An entry that is converted if its device has an identifier. -/
structure Convertible (spec fsType options : Str) : Prop where
  device : devDir <+: spec
  ordinary : fsType ∉ specialFs
  mounted : "bind".toList ∉ optionsOf options
  preserved : s.optimizeOptions = true → s.preserveOptions = false → ∀ option ∈ optionsOf options, ¬ IsSubvol option

/-- The numbers of a line are numbers, and its entry is converted if its device has an identifier. -/
def LineFits (line : Str) : Prop :=
  isSkipped line = false → ∀ spec mountpoint fsType options rest,
    split (strip line) = spec :: mountpoint :: fsType :: options :: rest →
      (∀ text ∈ rest.take 2, (int? text).isSome) ∧
        (Identified g spec → s.Convertible spec (normalizeFsType fsType) options)

end FstabStabilizer

section options

namespace FilesystemMountOptions

theorem mem_addMissing {opts : List Str} {opt o : Str} : o ∈ addMissing opts opt ↔ o ∈ opts ∨ o = opt := by
  rw [addMissing]
  split
  · next there =>
    refine ⟨.inl, ?_⟩
    rintro (mem | rfl)
    · exact mem
    · exact there
  · rw [List.mem_append, List.mem_singleton]

theorem mem_foldl_addMissing {more opts : List Str} {o : Str} :
    o ∈ more.foldl addMissing opts ↔ o ∈ opts ∨ o ∈ more := by
  induction more generalizing opts with
  | nil => simp
  | cons opt more ih => rw [List.foldl_cons, ih, mem_addMissing, List.mem_cons, or_assoc]

theorem mem_preserve {opts : List Str} {opt o : Str} (mem : o ∈ preserve opts opt) : o ∈ opts ∨ o = strip opt := by
  rw [preserve] at mem
  split at mem
  · exact .inl mem
  · rwa [List.mem_append, List.mem_singleton] at mem

theorem mem_preserve_of_mem {opts : List Str} {opt o : Str} (mem : o ∈ opts) : o ∈ preserve opts opt := by
  rw [preserve]
  split
  · exact mem
  · exact List.mem_append_left _ mem

theorem mem_foldl_preserve {existing opts : List Str} {o : Str} (mem : o ∈ existing.foldl preserve opts) :
    o ∈ opts ∨ ∃ opt ∈ existing, o = strip opt := by
  induction existing generalizing opts with
  | nil => exact .inl mem
  | cons opt existing ih =>
    rcases ih mem with there | ⟨opt', inside, same⟩
    · rcases mem_preserve there with there | same
      · exact .inl there
      · exact .inr ⟨opt, List.mem_cons_self, same⟩
    · exact .inr ⟨opt', List.mem_cons_of_mem opt inside, same⟩

theorem mem_foldl_preserve_of_mem {existing opts : List Str} {o : Str} (mem : o ∈ opts) :
    o ∈ existing.foldl preserve opts := by
  induction existing generalizing opts with
  | nil => exact mem
  | cons opt existing ih => exact ih (mem_preserve_of_mem mem)

theorem preserved {existing opts : List Str} {o : Str} (mem : o ∈ existing) (clean : strip o = o) (nonempty : o ≠ [])
    (special : o ≠ "defaults".toList) : o ∈ existing.foldl preserve opts := by
  induction existing generalizing opts with
  | nil => cases mem
  | cons opt existing ih =>
    rcases List.mem_cons.mp mem with rfl | later
    · have first : o ∈ preserve opts o := by
        rw [preserve, clean]
        split
        · next there =>
          rcases there with empty | there | ⟨same, -⟩
          · exact absurd empty nonempty
          · exact there
          · exact absurd same special
        · exact List.mem_append_right _ (List.mem_singleton_self _)
      show o ∈ existing.foldl preserve (preserve opts o)
      exact mem_foldl_preserve_of_mem first
    · exact ih later

theorem forFilesystem_mem (fsType : Str) :
    forFilesystem fsType ∈ mountOptions.map Prod.snd ++ [⟨defaults, ["ro".toList]⟩] := by
  rw [forFilesystem]
  cases found : mountOptions.lookup (normalizeFsType fsType) with
  | none => exact List.mem_append_right _ (List.mem_singleton_self _)
  | some e =>
    obtain ⟨lead, rest, split, -⟩ := List.lookup_eq_some_iff.mp found
    refine List.mem_append_left _ (List.mem_map.mpr ⟨(normalizeFsType fsType, e), ?_, rfl⟩)
    rw [split]
    simp

theorem defaultOpts_ne_nil (fsType : Str) : (forFilesystem fsType).defaultOpts ≠ [] := by
  have table : ∀ e ∈ mountOptions.map Prod.snd ++ [⟨defaults, ["ro".toList]⟩], e.defaultOpts ≠ [] := by decide +kernel
  exact table _ (forFilesystem_mem fsType)

/-- No option that a file system has of its own is about a subvolume, or has a comma in it. -/
theorem own_options {fsType o : Str} (mem : o ∈ (forFilesystem fsType).defaultOpts ++ (forFilesystem fsType).roOpts) :
    ¬ IsSubvol o ∧ ',' ∉ o := by
  have table : ∀ e ∈ mountOptions.map Prod.snd ++ [⟨defaults, ["ro".toList]⟩], ∀ o ∈ e.defaultOpts ++ e.roOpts,
      ¬ ("subvol=".toList <+: o ∨ "subvolid=".toList <+: o) ∧ ',' ∉ o := by decide +kernel
  exact table _ (forFilesystem_mem fsType) o mem

/-- The options that are built, before they are joined. -/
def built (fsType : Str) (readonly : Bool) (existing : List Str) : List Str :=
  let opts := existing.foldl preserve (forFilesystem fsType).defaultOpts
  let opts := if readonly then (forFilesystem fsType).roOpts.foldl addMissing opts else opts
  opts.foldl addMissing []

theorem mem_built {fsType o : Str} {readonly : Bool} {existing : List Str} :
    o ∈ built fsType readonly existing ↔ o ∈ existing.foldl preserve (forFilesystem fsType).defaultOpts ∨
      readonly = true ∧ o ∈ (forFilesystem fsType).roOpts := by
  rw [built, mem_foldl_addMissing]
  cases readonly <;> simp [mem_foldl_addMissing]

/-- The options that are built are the ones that are read of the text. -/
theorem optionsOf_build (fsType : Str) (readonly : Bool) {existing : List Str} (free : ∀ o ∈ existing, ',' ∉ o) :
    optionsOf ((forFilesystem fsType).buildOptionsString readonly existing) = built fsType readonly existing := by
  have parts : ∀ o ∈ built fsType readonly existing, ',' ∉ o := by
    intro o mem
    rcases mem_built.mp mem with there | ⟨-, own⟩
    · rcases mem_foldl_preserve there with own | ⟨opt, inside, rfl⟩
      · exact (own_options (List.mem_append_left _ own)).2
      · exact fun comma => free opt inside (subset_strip opt _ comma)
    · exact (own_options (List.mem_append_right _ own)).2
  have nonempty : built fsType readonly existing ≠ [] := by
    obtain ⟨o, rest, opts⟩ := List.exists_cons_of_ne_nil (defaultOpts_ne_nil fsType)
    refine List.ne_nil_of_mem (a := o) (mem_built.mpr (.inl (mem_foldl_preserve_of_mem ?_)))
    rw [opts]
    exact List.mem_cons_self
  exact List.splitOn_intercalate ',' parts nonempty

end FilesystemMountOptions

end options

section entries

variable {s : FstabStabilizer} {g : Guest} {entry : FstabEntry} {spec : Str}

theorem given_eq_some {value : Option Str} {text : Str} : given value = some text ↔ value = some text ∧ text ≠ [] := by
  simp [given, Option.filter_eq_some_iff]

theorem getStableSpec_names {ids : DeviceIdentifiers} (known : (given ids.uuid).isSome ∨ (given ids.partuuid).isSome)
    (prefer : Bool) :
    ∃ id, given ids.uuid = some id ∧ ids.getStableSpec prefer = some (uuidTag ++ id) ∨
      given ids.partuuid = some id ∧ ids.getStableSpec prefer = some (partuuidTag ++ id) := by
  rw [DeviceIdentifiers.getStableSpec]
  generalize given ids.uuid = uuid at known ⊢
  generalize given ids.partuuid = partuuid at known ⊢
  rcases uuid with _ | uuid <;> rcases partuuid with _ | partuuid
  · simp at known
  · exact ⟨partuuid, .inr ⟨rfl, by cases prefer <;> rfl⟩⟩
  · exact ⟨uuid, .inl ⟨rfl, by cases prefer <;> rfl⟩⟩
  · cases prefer with
    | false => exact ⟨uuid, .inl ⟨rfl, rfl⟩⟩
    | true => exact ⟨partuuid, .inr ⟨rfl, rfl⟩⟩

theorem newSpec_names {ids : DeviceIdentifiers} (known : (given ids.uuid).isSome ∨ (given ids.partuuid).isSome) :
    ∃ id, given ids.uuid = some id ∧ s.newSpec entry ids = some (uuidTag ++ id) ∨
      given ids.partuuid = some id ∧ s.newSpec entry ids = some (partuuidTag ++ id) := by
  have prefixed : ∀ {prefer : Bool} {tag : Str}, ids.getStableSpec prefer = some tag →
      some (convertBtrfsSubvolSpec entry.spec ids prefer) = some tag := by
    intro prefer tag stable
    rw [convertBtrfsSubvolSpec, stable, Option.getD_some]
  rw [FstabStabilizer.newSpec]
  split
  · obtain ⟨id, ⟨uuid, stable⟩ | ⟨partuuid, stable⟩⟩ := getStableSpec_names known s.preferPartuuid
    · exact ⟨id, .inl ⟨uuid, prefixed stable⟩⟩
    · exact ⟨id, .inr ⟨partuuid, prefixed stable⟩⟩
  · exact getStableSpec_names known _

theorem resolveDevicePath_of_dev (device : devDir <+: spec) : resolveDevicePath g spec = some spec := by
  obtain ⟨name, rfl⟩ := device
  have plain : ¬ btrfsvol <+: devDir ++ name := by
    rintro ⟨rest, same⟩
    cases same
  rw [resolveDevicePath, if_neg plain]
  split
  · rfl
  · next other =>
    rw [if_pos]
    by_contra notDisk
    exact other ⟨List.prefix_append _ _, notDisk⟩

theorem resolveDevicePath_of_btrfsvol (subvolume : btrfsvol <+: spec) : resolveDevicePath g spec = none := by
  obtain ⟨rest, rfl⟩ := subvolume
  rfl

theorem isStable_of_dev (device : devDir <+: spec) : Ident.isStable spec = false := by
  obtain ⟨name, rfl⟩ := device
  rfl

theorem btrfsvol_of_deviceOf {device : Str} (other : ¬ devDir <+: spec) (found : deviceOf spec = some device) :
    btrfsvol <+: spec := by
  rw [deviceOf, if_neg other, btrfsvolDevice] at found
  obtain ⟨rest, tail, -⟩ := Option.bind_eq_some_iff.mp found
  rw [after] at tail
  split at tail
  · assumption
  · cases tail

theorem convertEntry_of_spec (device : devDir <+: entry.spec) (ordinary : entry.fsType ∉ specialFs)
    (mounted : "bind".toList ∉ optionsOf entry.options) {new : Str}
    (found : given (s.newSpec entry (getDeviceIdentifiers g entry.spec)) = some new) (stats : Stats) :
    (s.convertEntry g entry stats).1 =
      { newSpec := some new, newOptions := some (s.newOptions entry),
        newDump := some (getRecommendedFsCheckFreq entry.fsType entry.mountpoint).1,
        newPass := some (getRecommendedFsCheckFreq entry.fsType entry.mountpoint).2, converted := true,
        reason := "success".toList } := by
  rw [FstabStabilizer.convertEntry, if_neg ordinary, if_neg mounted, isStable_of_dev device, if_neg Bool.false_ne_true,
    resolveDevicePath_of_dev device]
  dsimp only
  rw [found]

theorem converted_inv {stats : Stats} (converted : (s.convertEntry g entry stats).1.converted = true) :
    entry.fsType ∉ specialFs ∧ "bind".toList ∉ optionsOf entry.options ∧ (resolveDevicePath g entry.spec).isSome ∧
      (s.convertEntry g entry stats).1.newOptions = some (s.newOptions entry) := by
  rw [FstabStabilizer.convertEntry] at converted ⊢
  split at converted
  · cases converted
  split at converted
  · cases converted
  split at converted
  · cases converted
  next ordinary mounted unstable =>
    rw [if_neg ordinary, if_neg mounted, if_neg unstable]
    cases found : resolveDevicePath g entry.spec with
    | none =>
      rw [found] at converted
      cases converted
    | some device =>
      rw [found] at converted
      dsimp only at converted ⊢
      split at converted
      · cases converted
      · exact ⟨ordinary, mounted, rfl, rfl⟩

theorem convertEntry_stats (stats : Stats) : (s.convertEntry g entry stats).1 = (s.convertEntry g entry {}).1 := by
  rw [FstabStabilizer.convertEntry, FstabStabilizer.convertEntry]
  split
  · rfl
  split
  · rfl
  split
  · rfl
  split
  · rfl
  split <;> rfl

theorem newOptions_keeps (free : ∀ c ∈ entry.options, isSpace c = false)
    (kept : s.optimizeOptions = true → s.preserveOptions = true) {option : Str} (mem : option ∈ optionsOf entry.options)
    (subvol : IsSubvol option) : option ∈ optionsOf (s.newOptions entry) := by
  rw [FstabStabilizer.newOptions]
  split
  · next optimize =>
    rw [kept optimize, if_pos rfl]
    dsimp only
    have parts : ∀ o ∈ optionsOf entry.options, ',' ∉ o := fun o inside => (mem_splitOn inside).1
    rw [FilesystemMountOptions.optionsOf_build _ _ parts, FilesystemMountOptions.mem_built]
    have clean : strip option = option := Universal.strip_of_free fun c inside => free c ((mem_splitOn mem).2 c inside)
    have plain : ∀ o ∈ [[], "defaults".toList], ¬ ("subvol=".toList <+: o ∨ "subvolid=".toList <+: o) := by decide +kernel
    refine .inl (FilesystemMountOptions.preserved mem clean ?_ ?_)
    · rintro rfl
      exact plain _ List.mem_cons_self subvol
    · rintro rfl
      exact plain _ (List.mem_cons_of_mem _ List.mem_cons_self) subvol
  · exact mem

theorem newOptions_drops (optimize : s.optimizeOptions = true) (preserve : s.preserveOptions = false) {option : Str}
    (mem : option ∈ optionsOf (s.newOptions entry)) : ¬ IsSubvol option := by
  rw [FstabStabilizer.newOptions, if_pos optimize, preserve, if_neg Bool.false_ne_true] at mem
  dsimp only at mem
  rw [FilesystemMountOptions.optionsOf_build _ _ fun o inside => absurd inside List.not_mem_nil,
    FilesystemMountOptions.mem_built] at mem
  rcases mem with own | ⟨-, own⟩
  · exact (FilesystemMountOptions.own_options (List.mem_append_left _ own)).1
  · exact (FilesystemMountOptions.own_options (List.mem_append_right _ own)).1

/-- The entry of a device that has an identifier is converted as it should be just if it is convertible. -/
theorem stabilized_iff (free : ∀ c ∈ entry.options, isSpace c = false) (identified : Identified g entry.spec) :
    Stabilized g entry (s.convertEntry g entry {}).1 ↔ s.Convertible entry.spec entry.fsType entry.options := by
  constructor
  · intro stabilized
    obtain ⟨ordinary, mounted, resolved, options⟩ := converted_inv stabilized.converted
    refine ⟨?_, ordinary, mounted, ?_⟩
    · by_contra other
      obtain ⟨device, found, -⟩ := identified
      rw [resolveDevicePath_of_btrfsvol (btrfsvol_of_deviceOf other found)] at resolved
      cases resolved
    · intro optimize preserve option mem subvol
      obtain ⟨text, same, keeps, -⟩ := stabilized.options
      rw [options, Option.some.injEq] at same
      subst same
      exact newOptions_drops optimize preserve (keeps option mem subvol) subvol
  · intro convertible
    obtain ⟨device, found, known⟩ := identified
    have itself : entry.spec = device := by
      rw [deviceOf, if_pos convertible.device] at found
      exact Option.some.inj found
    subst itself
    have named : ∀ {tag id : Str}, tag ≠ [] → s.newSpec entry (getDeviceIdentifiers g entry.spec) = some (tag ++ id) →
        given (s.newSpec entry (getDeviceIdentifiers g entry.spec)) = some (tag ++ id) := by
      intro tag id nonempty new
      rw [given_eq_some]
      exact ⟨new, List.append_ne_nil_of_left_ne_nil nonempty id⟩
    have kept : s.optimizeOptions = true →
        s.preserveOptions = true ∨ ∀ o ∈ optionsOf entry.options, ¬ IsSubvol o := by
      intro optimize
      cases preserve : s.preserveOptions with
      | true => exact .inl rfl
      | false => exact .inr (convertible.preserved optimize preserve)
    have options : ∀ option ∈ optionsOf entry.options, IsSubvol option → option ∈ optionsOf (s.newOptions entry) := by
      intro option mem subvol
      refine newOptions_keeps free (fun optimize => ?_) mem subvol
      exact (kept optimize).resolve_right fun none => none option mem subvol
    have plain : specSubvol entry.spec = none := by
      obtain ⟨name, same⟩ := convertible.device
      rw [← same]
      rfl
    have text : ∃ text, some (s.newOptions entry) = some text ∧
        (∀ option ∈ optionsOf entry.options, IsSubvol option → option ∈ optionsOf text) ∧
        ∀ subvol, specSubvol entry.spec = some subvol → "subvol=".toList ++ subvol ∈ optionsOf text := by
      refine ⟨_, rfl, options, fun subvol same => ?_⟩
      rw [plain] at same
      cases same
    obtain ⟨id, ⟨uuid, new⟩ | ⟨partuuid, new⟩⟩ := newSpec_names known
    · have conversion := convertEntry_of_spec convertible.device convertible.ordinary convertible.mounted
        (named (by decide) new) {}
      rw [conversion]
      exact ⟨rfl, ⟨_, id, found, .inl ⟨uuid, rfl⟩⟩, text⟩
    · have conversion := convertEntry_of_spec convertible.device convertible.ordinary convertible.mounted
        (named (by decide) new) {}
      rw [conversion]
      exact ⟨rfl, ⟨_, id, found, .inr ⟨partuuid, rfl⟩⟩, text⟩

end entries

section lines

variable {s : FstabStabilizer} {g : Guest} {line : Str} {lineNumber : Nat}

theorem numberField_ok {text : Option Str} : (∃ n, numberField text = .ok n) ↔ ∀ t ∈ text, (int? t).isSome := by
  cases text with
  | none => exact iff_of_true ⟨0, rfl⟩ nofun
  | some t =>
    rw [numberField]
    cases number : int? t with
    | none => exact iff_of_false nofun fun each => by simpa [number] using each t rfl
    | some n => exact iff_of_true ⟨n, rfl⟩ fun t' same => by cases same; rw [number]; rfl

theorem numbers_iff {rest : List Str} :
    (∀ text ∈ rest.take 2, (int? text).isSome) ↔
      (∀ text ∈ rest[0]?, (int? text).isSome) ∧ ∀ text ∈ rest[1]?, (int? text).isSome := by
  rcases rest with _ | ⟨dump, _ | ⟨passNum, rest⟩⟩ <;> simp

theorem parseFstabLine_entry {spec mountpoint fsType options : Str} {rest : List Str} (shown : isSkipped line = false)
    (fields : split (strip line) = spec :: mountpoint :: fsType :: options :: rest) {dump passNum : Int}
    (first : numberField rest[0]? = .ok dump) (second : numberField rest[1]? = .ok passNum) :
    parseFstabLine line lineNumber = .ok (some
      { spec, mountpoint, fsType := normalizeFsType fsType, options, dump, passNum, originalLine := line, lineNumber }) := by
  rw [parseFstabLine, shown, if_neg Bool.false_ne_true, fields]
  dsimp only
  rw [first, second]
  rfl

theorem parseFstabLine_error {spec mountpoint fsType options : Str} {rest : List Str} (shown : isSkipped line = false)
    (fields : split (strip line) = spec :: mountpoint :: fsType :: options :: rest)
    (wrong : ¬ ∀ text ∈ rest.take 2, (int? text).isSome) (parsed : Option FstabEntry) :
    parseFstabLine line lineNumber ≠ .ok parsed := by
  intro ok
  rw [parseFstabLine, shown, if_neg Bool.false_ne_true, fields] at ok
  dsimp only at ok
  rw [numbers_iff, ← numberField_ok, ← numberField_ok] at wrong
  cases first : numberField rest[0]? with
  | error e =>
    rw [first] at ok
    cases ok
  | ok dump =>
    cases second : numberField rest[1]? with
    | error e =>
      rw [first, second] at ok
      cases ok
    | ok passNum => exact wrong ⟨⟨dump, first⟩, ⟨passNum, second⟩⟩

/-- The lines that no entry is made of. -/
theorem parseFstabLine_none (other : isSkipped line = true ∨
      ∀ spec mountpoint fsType options rest, split (strip line) ≠ spec :: mountpoint :: fsType :: options :: rest) :
    parseFstabLine line lineNumber = .ok none := by
  rw [parseFstabLine]
  split
  · rfl
  · next shown =>
    split
    · next fields => exact absurd fields (other.resolve_left shown _ _ _ _ _)
    · rfl

theorem parse_cases (line : Str) :
    (isSkipped line = true ∨
      ∀ spec mountpoint fsType options rest, split (strip line) ≠ spec :: mountpoint :: fsType :: options :: rest) ∨
    isSkipped line = false ∧ ∃ spec mountpoint fsType options rest,
      split (strip line) = spec :: mountpoint :: fsType :: options :: rest := by
  by_cases skipped : isSkipped line = true
  · exact .inl (.inl skipped)
  · by_cases entry : ∃ spec mountpoint fsType options rest,
      split (strip line) = spec :: mountpoint :: fsType :: options :: rest
    · exact .inr ⟨Bool.eq_false_iff.mpr skipped, entry⟩
    · push Not at entry
      exact .inl (.inr entry)

/-- The line that takes a line's place. -/
def newLine (s : FstabStabilizer) (g : Guest) (numbered : Str × Nat) : Str :=
  match parseFstabLine numbered.1 numbered.2 with
  | .ok (some entry) => formatFstabLine entry (s.convertEntry g entry {}).1
  | _ => numbered.1

section entryLines

variable {spec mountpoint fsType options : Str} {rest : List Str}

theorem parseFstabLine_of_numbers (shown : isSkipped line = false)
    (fields : split (strip line) = spec :: mountpoint :: fsType :: options :: rest)
    (numbers : ∀ text ∈ rest.take 2, (int? text).isSome) :
    ∃ dump passNum, parseFstabLine line lineNumber = .ok (some
      { spec, mountpoint, fsType := normalizeFsType fsType, options, dump, passNum, originalLine := line, lineNumber }) := by
  obtain ⟨first, second⟩ := numbers_iff.mp numbers
  obtain ⟨dump, first⟩ := numberField_ok.mpr first
  obtain ⟨passNum, second⟩ := numberField_ok.mpr second
  exact ⟨dump, passNum, parseFstabLine_entry shown fields first second⟩

theorem options_free (fields : split (strip line) = spec :: mountpoint :: fsType :: options :: rest) :
    ∀ c ∈ options, isSpace c = false := by
  rw [split_eq_words] at fields
  have word : options ∈ words isSpace (strip line) := by simp [fields]
  exact (mem_words word).2

end entryLines

theorem lineFits_of_lineOk {numbered : Str × Nat} {new : Str} (ok : s.LineOk g numbered new) : s.LineFits g numbered.1 := by
  obtain ⟨parsed, parse, result⟩ := ok
  intro shown spec mountpoint fsType options rest fields
  have numbers : ∀ text ∈ rest.take 2, (int? text).isSome := by
    by_contra wrong
    exact parseFstabLine_error shown fields wrong parsed parse
  refine ⟨numbers, fun identified => ?_⟩
  obtain ⟨dump, passNum, entry⟩ := parseFstabLine_of_numbers shown fields numbers
  rw [entry, Except.ok.injEq] at parse
  subst parse
  exact (stabilized_iff (options_free fields) identified).mp (result.2 identified).1

theorem lineOk_of_lineFits {numbered : Str × Nat} (fits : s.LineFits g numbered.1) :
    s.LineOk g numbered (newLine s g numbered) := by
  obtain ⟨line, lineNumber⟩ := numbered
  rcases parse_cases line with other | ⟨shown, spec, mountpoint, fsType, options, rest, fields⟩
  · refine ⟨none, parseFstabLine_none other, ?_⟩
    rw [newLine, parseFstabLine_none other]
  · obtain ⟨numbers, converts⟩ := fits shown spec mountpoint fsType options rest fields
    obtain ⟨dump, passNum, entry⟩ := parseFstabLine_of_numbers shown fields numbers
    refine ⟨_, entry, ?_, ?_⟩
    · intro unconverted
      rw [newLine, entry]
      dsimp only
      rw [formatFstabLine, unconverted, if_neg Bool.false_ne_true]
    · intro identified
      refine ⟨(stabilized_iff (options_free fields) identified).mpr (converts identified), ?_⟩
      rw [newLine, entry]

end lines

section runs

variable {s : FstabStabilizer} {g : Guest}

theorem passLine_spec {numbered : Str × Nat} {parsed : Option FstabEntry}
    (parse : parseFstabLine numbered.1 numbered.2 = .ok parsed) (pass : Pass) :
    ∃ next, s.passLine g pass numbered = .ok next ∧ next.newLines = pass.newLines ++ [newLine s g numbered] := by
  obtain ⟨line, lineNumber⟩ := numbered
  rw [FstabStabilizer.passLine, newLine, parse]
  dsimp only
  split
  · next skipped =>
    rw [parseFstabLine_none (.inl skipped), Except.ok.injEq] at parse
    subst parse
    exact ⟨_, rfl, rfl⟩
  · cases parsed with
    | none => exact ⟨_, rfl, rfl⟩
    | some entry =>
      refine ⟨_, rfl, ?_⟩
      show pass.newLines ++ [formatFstabLine entry (s.convertEntry g entry _).1] = _
      rw [convertEntry_stats]

theorem passLines_spec {numbered : List (Str × Nat)}
    (parse : ∀ n ∈ numbered, ∃ parsed, parseFstabLine n.1 n.2 = .ok parsed) (pass : Pass) :
    ∃ last, numbered.foldlM (s.passLine g) pass = .ok last ∧
      last.newLines = pass.newLines ++ numbered.map (newLine s g) := by
  induction numbered generalizing pass with
  | nil => exact ⟨pass, rfl, (List.append_nil _).symm⟩
  | cons n numbered ih =>
    rw [List.forall_mem_cons] at parse
    obtain ⟨parsed, first⟩ := parse.1
    obtain ⟨next, step, lines⟩ := passLine_spec first pass
    obtain ⟨last, run, all⟩ := ih parse.2 next
    refine ⟨last, ?_, ?_⟩
    · rw [List.foldlM_cons, step]
      exact run
    · rw [all, lines, List.append_assoc]
      rfl

theorem stabilizeFstab_of_unread {stats : Stats} {fstabPath e : Str} (read : g.readFile fstabPath = .error e) :
    s.stabilizeFstab g stats fstabPath =
      .ok ({ fstabPath, errors := ["Failed to read ".toList ++ fstabPath ++ ": ".toList ++ e] }, none) := by
  rw [FstabStabilizer.stabilizeFstab, read]

theorem stabilizeFstab_of_pass {stats : Stats} {fstabPath content : Str} {last : Pass}
    (read : g.readFile fstabPath = .ok content)
    (run : ((splitlines content).zipIdx 1).foldlM (s.passLine g) { stats } = .ok last) :
    ∃ result, s.stabilizeFstab g stats fstabPath = .ok (result, some (join ['\n'] last.newLines ++ ['\n'])) := by
  rw [FstabStabilizer.stabilizeFstab, read]
  dsimp only
  rw [run]
  cases write : g.write fstabPath (join ['\n'] last.newLines ++ ['\n']) with
  | error e =>
    refine ⟨{ fstabPath, conversions := last.conversions,
              errors := ["Failed to write ".toList ++ fstabPath ++ ": ".toList ++ e] }, ?_⟩
    simp only [bind, Except.bind, write]
    rfl
  | ok done =>
    refine ⟨{ success := true, fstabPath, stats := some last.stats, conversions := last.conversions }, ?_⟩
    simp only [bind, Except.bind, write]
    rfl

theorem lineFits_of_documented {stats : Stats} {fstabPath content line : Str} (documented : s.Documented g stats fstabPath)
    (read : g.readFile fstabPath = .ok content) (mem : line ∈ splitlines content) : s.LineFits g line := by
  obtain ⟨result, written, -, each⟩ := documented
  obtain ⟨lines, -, each⟩ := each content read
  have fits := (List.forall₂_and_left _ _).mp (each.imp fun n new ok => ⟨lineFits_of_lineOk ok, ok⟩)
  rw [← List.zipIdx_map_fst 1 (splitlines content)] at mem
  obtain ⟨n, there, rfl⟩ := List.mem_map.mp mem
  exact fits.1 n there

/-- A guest with one disk, whose fstab is the given text. -/
def diskGuest (fstab : String) : Guest where
  readFile _ := .ok fstab.toList
  blkid device := if device = "/dev/sda2".toList then some [("UUID".toList, "6f1b-22".toList)] else none
  findfsUuid _ := none
  findfsLabel _ := none
  devices := none
  write _ _ := .ok ()

end runs

end H2kvm.Fstab.Stabilizer
