import H2kvm.Framework.Lines
import H2kvm.Config.Validation
import H2kvm.Network.Renames

namespace H2kvm.Fstab

open Framework Text

inductive FstabMode where
  | stabilizeAll
  | bypathOnly
  | noop
  deriving DecidableEq

/-- What the guest and the host answer; `none` where the call raises. -/
structure Guest where
  isFile : Option Bool
  fstab : List UInt8
  /-- The target of the host's symbolic link of that name, if there is one. -/
  hostLink : List Char → Option (List Char)
  realpath : List Char → Option (List Char)
  blkid : List Char → Option (List (List Char × Option (List Char)))

def devDir : List Char := "/dev/".toList

def bypathDir : List Char := "/dev/disk/by-path/".toList

def btrfsvol : List Char := "btrfsvol:".toList

/-- `parse_btrfsvol_spec`: the device and the subvolume. -/
def parseBtrfsvolSpec (spec : List Char) : List Char × Option (List Char) :=
  match after btrfsvol spec with
  | none => (spec, none)
  | some s =>
    match cut ['/', '/'] s with
    | none => (strip s, none)
    | some (dev, rest) =>
      let rest := (strip rest).dropWhile (· = '/')
      (strip dev, if rest = [] then none else some rest)

namespace Ident

-- The dotless i is the one other character whose upper case is a letter of a tag.
def upperChar (c : Char) : Char := if c = '\u0131' then 'I' else c.toUpper

def upper (s : List Char) : List Char := s.map upperChar

/-- The tags, the preferred ones first. -/
def stableTags : List (List Char) := ["UUID".toList, "PARTUUID".toList, "LABEL".toList, "PARTLABEL".toList]

def isStable (spec : List Char) : Bool := stableTags.any fun tag => decide (tag ++ ['='] <+: upper spec)

/-- `g_blkid_map`; of two entries of one name the later counts. -/
def gBlkidMap (g : Guest) (dev : List Char) : List (List Char × List Char) :=
  match g.blkid dev with
  | none => []
  | some answer => (answer.filterMap fun (tag, value) => value.map (upper tag, ·)).reverse

def chooseStable (blk : List (List Char × List Char)) : Option (List Char) :=
  stableTags.findSome? fun tag =>
    match blk.lookup tag with
    | none => none
    | some value => if value = [] then none else some (tag ++ '=' :: value)

/-- What follows the name of a disk whose partitions are set off by a `p`. -/
def afterDisk (s : List Char) : Option (List Char) :=
  ((after "nvme".toList s).bind afterDigits).bind (fun s => (after ['n'] s).bind afterDigits) <|>
    (after "mmcblk".toList s).bind afterDigits <|> (after "nbd".toList s).bind afterDigits <|>
    (after "loop".toList s).bind afterDigits

/-- Where `$` matches. -/
def atEnd (s : List Char) : Bool := s = [] || s = ['\n']

def rootDevBase (rootDev : List Char) : Option (List Char) :=
  let numbered := do
    let tail ← (after devDir rootDev).bind afterDisk
    let rest ← (after ['p'] tail).bind afterDigits
    if atEnd rest then some (rootDev.take (rootDev.length - tail.length)) else none
  let lettered := do
    let name ← after devDir rootDev
    let tail := name.dropWhile Char.isAlpha
    let rest ← afterDigits tail
    if tail.length < name.length ∧ atEnd rest then some (rootDev.take (rootDev.length - tail.length)) else none
  numbered <|> lettered

/-- The number a by-path name ends in. -/
def partNumber (spec : List Char) : Option Nat :=
  let spec := if spec.getLast? = some '\n' then spec.dropLast else spec
  let digits := (spec.reverse.takeWhile isDigit).reverse
  if digits ≠ [] ∧ "-part".toList <:+ spec.take (spec.length - digits.length) then some (intOf digits) else none

/-- `infer_partition_from_bypath`. -/
def inferPartitionFromBypath (spec rootDev : List Char) : Option (List Char) := do
  if rootDev = [] ∨ ¬ bypathDir <+: spec then none
  let partno ← partNumber spec
  let base ← rootDevBase rootDev
  let separated := ((after devDir base).bind afterDisk).any atEnd
  some (base ++ (if separated then ['p'] else []) ++ Nat.toDigits 10 partno)

end Ident

def dirname (path : List Char) : List Char := (path.rdropWhile (· ≠ '/')).rdropWhile (· = '/')

/-- `os.path.normpath` of a path with one slash in front. -/
def normpath (path : List Char) : List Char :=
  let enter := fun (done : List (List Char)) part =>
    if part = ['.'] then done else if part = ['.', '.'] then done.dropLast else done ++ [part]
  '/' :: join ['/'] ((words (· = '/') path).foldl enter [])

structure SpecConverter where
  mode : FstabMode
  rootDev : Option (List Char)

namespace SpecConverter

variable (conv : SpecConverter) (g : Guest)

/-- The device a by-path name leads to: by the host, by the guest or by the number it ends in. -/
def mappedDevice (spec : List Char) : Option (List Char) :=
  let onHost := do
    let target ← g.hostLink spec
    let dev := if ['/'] <+: target then target else normpath (dirname spec ++ '/' :: target)
    if devDir <+: dev then some dev else none
  let inGuest := do
    let answer ← g.realpath spec
    let path := strip answer
    if devDir <+: path ∧ path ≠ spec then some path else none
  onHost <|> inGuest <|> conv.rootDev.bind (Ident.inferPartitionFromBypath spec)

/-- `_stabilize_bypath`. -/
def stabilizeBypath (spec original : List Char) : List Char × List Char :=
  match conv.mappedDevice g spec with
  | none => (original, "by-path-unresolved".toList)
  | some dev =>
    match Ident.chooseStable (Ident.gBlkidMap g dev) with
    | some stable => (stable, "mapped:".toList ++ dev)
    | none => (original, "mapped:".toList ++ dev ++ " no-id".toList)

/-- `_stabilize_dev`. -/
def stabilizeDev (spec original : List Char) : List Char × List Char :=
  match Ident.chooseStable (Ident.gBlkidMap g spec) with
  | some stable => (stable, "blkid:".toList ++ spec)
  | none => (original, "dev-no-id".toList)

/-- `convert_spec`: the new spec and what was done. -/
def convertSpec (original : List Char) : List Char × List Char :=
  let spec := if btrfsvol <+: original then strip (parseBtrfsvolSpec original).1 else original
  if Ident.isStable spec then (original, "already-stable".toList)
  else if bypathDir <+: spec then conv.stabilizeBypath g spec original
  else if conv.mode = .stabilizeAll ∧ devDir <+: spec then stabilizeDev g spec original
  else (original, "unchanged".toList)

end SpecConverter

end H2kvm.Fstab

namespace H2kvm.Fstab.Stabilizer

open Framework Text
open Network (lower)
open Config (int?)

abbrev Str := List Char

/-- What the guest answers; an error or `none` where the call raises. -/
structure Guest where
  readFile : Str → Except Str Str
  blkid : Str → Option (List (Str × Str))
  findfsUuid : Str → Option Str
  findfsLabel : Str → Option Str
  /-- `list_devices` and `list_partitions`. -/
  devices : Option (List Str)
  write : Str → Str → Except Str Unit

def fsTypeAliases : List (Str × Str) :=
  [("fat".toList, "vfat".toList), ("msdos".toList, "vfat".toList), ("fat12".toList, "vfat".toList),
    ("ntfs-3g".toList, "ntfs".toList), ("ntfs3".toList, "ntfs".toList), ("fuse.ntfs".toList, "ntfs".toList),
    ("exfatfs".toList, "exfat".toList), ("fuse.exfat".toList, "exfat".toList), ("ext2fs".toList, "ext2".toList),
    ("ext3fs".toList, "ext3".toList), ("ext4fs".toList, "ext4".toList), ("xfsfs".toList, "xfs".toList),
    ("btrfsfs".toList, "btrfs".toList), ("crypto_luks".toList, "crypto_LUKS".toList),
    ("luks".toList, "crypto_LUKS".toList)]

/-- `normalize_fs_type`. -/
def normalizeFsType (fsType : Str) : Str :=
  let clean := (lower (strip fsType)).map fun c => if c = '-' then '_' else c
  (fsTypeAliases.lookup clean).getD clean

structure DeviceIdentifiers where
  devicePath : Str
  uuid : Option Str := none
  partuuid : Option Str := none
  label : Option Str := none
  partlabel : Option Str := none
  deriving DecidableEq

/-- `get_device_identifiers`; nothing is known of a device that `blkid` fails on. -/
def getDeviceIdentifiers (g : Guest) (device : Str) : DeviceIdentifiers :=
  match g.blkid device with
  | none => { devicePath := device }
  | some blkid =>
    { devicePath := device, uuid := blkid.lookup "UUID".toList, partuuid := blkid.lookup "PARTUUID".toList,
      label := blkid.lookup "LABEL".toList, partlabel := blkid.lookup "PARTLABEL".toList }

/-- A value that is there and not empty. -/
def given (value : Option Str) : Option Str := value.filter (· ≠ [])

def uuidTag : Str := "UUID=".toList

def partuuidTag : Str := "PARTUUID=".toList

namespace DeviceIdentifiers

/-- `get_stable_spec`. -/
def getStableSpec (ids : DeviceIdentifiers) (preferPartuuid : Bool) : Option Str :=
  let partuuid := (given ids.partuuid).map (partuuidTag ++ ·)
  (if preferPartuuid then partuuid else none) <|> (given ids.uuid).map (uuidTag ++ ·) <|> partuuid <|>
    (given ids.label).map ("LABEL=".toList ++ ·) <|> (given ids.partlabel).map ("PARTLABEL=".toList ++ ·)

end DeviceIdentifiers

/-- `convert_btrfs_subvol_spec`. -/
def convertBtrfsSubvolSpec (spec : Str) (ids : DeviceIdentifiers) (preferPartuuid : Bool) : Str :=
  (ids.getStableSpec preferPartuuid).getD ((after btrfsvol spec).getD spec)

/-- `should_use_partuuid`. -/
def shouldUsePartuuid (mountpoint fsType context : Str) : Bool :=
  fsType = "btrfs".toList || (mountpoint = ['/'] && context = "hypervisor_migration".toList)

/-- `get_recommended_fs_check_freq`. -/
def getRecommendedFsCheckFreq (fsType mountpoint : Str) : Int × Int :=
  let fsType := normalizeFsType fsType
  let isExt := fsType = "ext2".toList ∨ fsType = "ext3".toList ∨ fsType = "ext4".toList
  let unchecked := fsType = "xfs".toList ∨ fsType = "btrfs".toList ∨ fsType = "f2fs".toList ∨ fsType = "zfs".toList
  if mountpoint = ['/'] then if unchecked then (0, 0) else if isExt then (1, 1) else (0, 1)
  else if isExt then (1, 2)
  else (0, 0)

structure FilesystemMountOptions where
  defaultOpts : List Str
  roOpts : List Str

def onErrors : List Str := ["errors=remount-ro".toList]

def defaults : List Str := ["defaults".toList]

/-- The options of the file systems that have an entry; what is only recommended is not built in. -/
def mountOptions : List (Str × FilesystemMountOptions) :=
  [("ext2".toList, ⟨onErrors, ["noload".toList]⟩), ("ext3".toList, ⟨onErrors, ["noload".toList, "norecovery".toList]⟩),
    ("ext4".toList, ⟨onErrors, ["noload".toList, "norecovery".toList]⟩),
    ("xfs".toList, ⟨defaults, ["norecovery".toList]⟩), ("btrfs".toList, ⟨defaults, ["norecovery".toList]⟩), ("f2fs".toList, ⟨defaults, ["ro".toList]⟩),
    ("jfs".toList, ⟨defaults, ["ro".toList]⟩), ("reiserfs".toList, ⟨defaults, ["ro".toList]⟩),
    ("nilfs2".toList, ⟨defaults, ["ro".toList]⟩), ("vfat".toList, ⟨defaults, ["ro".toList]⟩),
    ("exfat".toList, ⟨defaults, ["ro".toList]⟩), ("ntfs".toList, ⟨defaults, ["ro".toList]⟩)]

namespace FilesystemMountOptions

/-- `for_filesystem`. -/
def forFilesystem (fsType : Str) : FilesystemMountOptions :=
  (mountOptions.lookup (normalizeFsType fsType)).getD ⟨defaults, ["ro".toList]⟩

/-- An existing option, unless it is there or `defaults` says nothing more. -/
def preserve (opts : List Str) (opt : Str) : List Str :=
  let clean := strip opt
  if clean = [] ∨ clean ∈ opts ∨ clean = "defaults".toList ∧ 1 < opts.length then opts else opts ++ [clean]

def addMissing (opts : List Str) (opt : Str) : List Str := if opt ∈ opts then opts else opts ++ [opt]

/-- `build_options_string`. -/
def buildOptionsString (o : FilesystemMountOptions) (readonly : Bool) (existing : List Str) : Str :=
  let opts := existing.foldl preserve o.defaultOpts
  let opts := if readonly then o.roOpts.foldl addMissing opts else opts
  join [','] (opts.foldl addMissing [])

end FilesystemMountOptions

structure FstabEntry where
  spec : Str
  mountpoint : Str
  fsType : Str
  options : Str
  dump : Int
  passNum : Int
  originalLine : Str
  lineNumber : Nat
  deriving DecidableEq

structure FstabConversion where
  newSpec : Option Str := none
  newOptions : Option Str := none
  newDump : Option Int := none
  newPass : Option Int := none
  converted : Bool := false
  reason : Str
  deriving DecidableEq

structure Stats where
  totalEntries : Nat := 0
  converted : Nat := 0
  alreadyStable : Nat := 0
  skipped : Nat := 0
  errors : Nat := 0
  deriving DecidableEq

inductive Raised where
  | valueError (text : Str)
  deriving DecidableEq

structure FstabStabilizer where
  preferPartuuid : Bool := false
  preserveOptions : Bool := true
  optimizeOptions : Bool := false
  context : Str := "hypervisor_migration".toList

/-- `int(fields[i]) if len(fields) > i else 0`, for the field that is there or not. -/
def numberField : Option Str → Except Raised Int
  | none => .ok 0
  | some text => match int? text with
    | some n => .ok n
    | none => .error (.valueError text)

/-- A line that is empty or a comment. -/
def isSkipped (line : Str) : Bool := strip line = [] || ['#'] <+: strip line

/-- `parse_fstab_line`; the split at runs of white space is that of `str.split`, since the line is stripped. -/
def parseFstabLine (line : Str) (lineNumber : Nat) : Except Raised (Option FstabEntry) :=
  if isSkipped line then .ok none
  else
    match split (strip line) with
    | spec :: mountpoint :: fsType :: options :: rest => do
      let dump ← numberField rest[0]?
      let passNum ← numberField rest[1]?
      return some
        { spec, mountpoint, fsType := normalizeFsType fsType, options, dump, passNum, originalLine := line, lineNumber }
    | _ => .ok none

/-- The device of `re.match(r"btrfsvol:(/dev/[^/@]+)", spec)`. -/
def btrfsvolDevice (spec : Str) : Option Str := do
  let rest ← after btrfsvol spec
  let name ← after devDir rest
  let name := name.takeWhile fun c => c ≠ '/' && c ≠ '@'
  if name = [] then none else some (devDir ++ name)

/-- The device of the guest with that partition identifier. -/
def findPartuuid (g : Guest) (partuuid : Str) : Option Str :=
  g.devices.bind fun devices => devices.find? fun dev =>
    decide ((g.blkid dev).bind (·.lookup "PARTUUID".toList) = some partuuid)

/-- `resolve_device_path`. -/
def resolveDevicePath (g : Guest) (spec : Str) : Option Str :=
  if devDir <+: spec ∧ ¬ "/dev/disk/".toList <+: spec then
    if btrfsvol <+: spec then some ((btrfsvolDevice spec).getD spec) else some spec
  else if "/dev/disk/".toList <+: spec then some spec
  else
    match after uuidTag spec, after partuuidTag spec, after "LABEL=".toList spec with
    | some uuid, _, _ => given (g.findfsUuid uuid)
    | none, some partuuid, _ => findPartuuid g partuuid
    | none, none, some label => given (g.findfsLabel label)
    | none, none, none => none

def specialFs : List Str :=
  ["tmpfs".toList, "devtmpfs".toList, "sysfs".toList, "proc".toList, "devpts".toList, "cgroup".toList, "cgroup2".toList,
    "securityfs".toList]

def optionsOf (options : Str) : List Str := options.splitOn ','

namespace FstabStabilizer

variable (s : FstabStabilizer) (g : Guest)

/-- The spec that takes an entry's place. -/
def newSpec (entry : FstabEntry) (ids : DeviceIdentifiers) : Option Str :=
  if btrfsvol <+: entry.spec ∨ entry.fsType = "btrfs".toList then
    some (convertBtrfsSubvolSpec entry.spec ids s.preferPartuuid)
  else ids.getStableSpec (shouldUsePartuuid entry.mountpoint entry.fsType s.context || s.preferPartuuid)

/-- The options that take an entry's place. -/
def newOptions (entry : FstabEntry) : Str :=
  if s.optimizeOptions then
    let existing := if s.preserveOptions then optionsOf entry.options else []
    (FilesystemMountOptions.forFilesystem entry.fsType).buildOptionsString (decide ("ro".toList ∈ existing)) existing
  else entry.options

/-- `convert_entry`, with what it counts. -/
def convertEntry (entry : FstabEntry) (stats : Stats) : FstabConversion × Stats :=
  if entry.fsType ∈ specialFs then
    ({ reason := "special_filesystem:".toList ++ entry.fsType }, { stats with skipped := stats.skipped + 1 })
  else if "bind".toList ∈ optionsOf entry.options then
    ({ reason := "bind_mount".toList }, { stats with skipped := stats.skipped + 1 })
  else if Ident.isStable entry.spec then
    ({ reason := "already_stable".toList }, { stats with alreadyStable := stats.alreadyStable + 1 })
  else
    match resolveDevicePath g entry.spec with
    | none => ({ reason := "device_not_found".toList }, { stats with errors := stats.errors + 1 })
    | some device =>
      match given (s.newSpec entry (getDeviceIdentifiers g device)) with
      | none => ({ reason := "no_stable_identifier_available".toList }, { stats with errors := stats.errors + 1 })
      | some spec =>
        let (dump, passNum) := getRecommendedFsCheckFreq entry.fsType entry.mountpoint
        ({ newSpec := some spec, newOptions := some (s.newOptions entry), newDump := some dump, newPass := some passNum,
           converted := true, reason := "success".toList }, { stats with converted := stats.converted + 1 })

end FstabStabilizer

def padded (width : Nat) (text : Str) : Str := text ++ List.replicate (width - text.length) ' '

/-- `format_fstab_line`. -/
def formatFstabLine (entry : FstabEntry) (conversion : FstabConversion) : Str :=
  if conversion.converted then
    let spec := (given conversion.newSpec).getD entry.spec
    let options := (given conversion.newOptions).getD entry.options
    let dump := conversion.newDump.getD entry.dump
    let passNum := conversion.newPass.getD entry.passNum
    join [' '] [padded 40 spec, padded 20 entry.mountpoint, padded 10 entry.fsType, padded 30 options,
      (toString dump).toList, (toString passNum).toList]
  else entry.originalLine

/-- What the result lists of an entry. -/
structure Listed where
  line : Nat
  original : Str
  new : Option Str
  mountpoint : Str
  fsType : Str
  converted : Bool
  reason : Str
  deriving DecidableEq

structure Result where
  success : Bool := false
  fstabPath : Str
  stats : Option Stats := none
  conversions : List Listed := []
  errors : List Str := []
  deriving DecidableEq

/-- What the pass over the lines has gathered. -/
structure Pass where
  newLines : List Str := []
  conversions : List Listed := []
  stats : Stats

namespace FstabStabilizer

variable (s : FstabStabilizer) (g : Guest)

/-- One line of the pass. -/
def passLine (pass : Pass) (numbered : Str × Nat) : Except Raised Pass :=
  let (line, lineNum) := numbered
  let pass := { pass with stats := { pass.stats with totalEntries := pass.stats.totalEntries + 1 } }
  let kept := { pass with newLines := pass.newLines ++ [line] }
  if isSkipped line then .ok kept
  else do
    match ← parseFstabLine line lineNum with
    | none => return kept
    | some entry =>
      let (conversion, stats) := s.convertEntry g entry pass.stats
      let listed : Listed := ⟨lineNum, entry.spec, conversion.newSpec, entry.mountpoint, entry.fsType, conversion.converted,
        conversion.reason⟩
      return ⟨pass.newLines ++ [formatFstabLine entry conversion], pass.conversions ++ [listed], stats⟩

/-- `stabilize_fstab`: its result, and what it writes if it comes to that. -/
def stabilizeFstab (stats : Stats) (fstabPath : Str) : Except Raised (Result × Option Str) :=
  match g.readFile fstabPath with
  | .error e => .ok ({ fstabPath, errors := ["Failed to read ".toList ++ fstabPath ++ ": ".toList ++ e] }, none)
  | .ok content => do
    let pass ← (splitlines content).zipIdx 1 |>.foldlM (s.passLine g) { stats }
    let newContent := join ['\n'] pass.newLines ++ ['\n']
    match g.write fstabPath newContent with
    | .error e =>
      return ({ fstabPath, conversions := pass.conversions,
                errors := ["Failed to write ".toList ++ fstabPath ++ ": ".toList ++ e] }, some newContent)
    | .ok _ => return ({ success := true, fstabPath, stats := some pass.stats, conversions := pass.conversions },
        some newContent)

end FstabStabilizer

end H2kvm.Fstab.Stabilizer
