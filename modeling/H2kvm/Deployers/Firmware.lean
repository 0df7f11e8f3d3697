import H2kvm.Config.Validation
import H2kvm.Deployers.Kubernetes
import H2kvm.Framework.Objects
import H2kvm.Framework.Scanning

namespace H2kvm.Deployers

section guestProfile

open Framework Text

/-! ### The guest -/

/-- What is read of the arguments; a text that is missing is empty. `reportOsRelease` is the os-release text of the
last fixer report. -/
structure GuestArgs where
  guestOs : Name := []
  windows : Bool := false
  k8sOsVariant : Name := []
  osVariant : Name := []
  linuxOsVariant : Name := []
  linuxDistro : Name := []
  detectedDistro : Name := []
  linuxVersion : Name := []
  detectedVersion : Name := []
  linuxOsPrettyName : Name := []
  detectedOsPrettyName : Name := []
  linuxOsRelease : Name := []
  reportOsRelease : Name := []
  uefi : Bool := false
  winSecureBoot : Bool := false

inductive Family where
  | linux
  | windows
  deriving DecidableEq

def Family.value : Family → Name
  | linux => "linux".toList
  | windows => "windows".toList

structure GuestProfile where
  family : Family
  osVariant : Option Name
  extraLabels : List (String × Name) := []
  extraAnnotations : List (String × Name) := []

/-- `a or b`. -/
def orElse (a b : Name) : Name := if a = [] then b else a

def isWindowsGuest (args : GuestArgs) : Bool := lower (strip args.guestOs) = "windows".toList || args.windows

/-- `s.strip(c)`. -/
def stripChar (c : Char) (s : Name) : Name := (s.dropWhile (· == c)).rdropWhile (· == c)

/-- `parse_os_release`. -/
def parseOsRelease (text : Name) : List (Name × Name) :=
  (splitlines text).foldl (fun out line =>
    let line := strip line
    if line = [] ∨ line.head? = some '#' ∨ '=' ∉ line then out
    else
      setEntry (strip (line.takeWhile (· != '=')))
        (stripChar '\'' (stripChar '\x22' (strip ((line.dropWhile (· != '=')).drop 1)))) out) []

/-- The parts of a version. -/
def major (ver : Name) : Name := (ver.splitOn '.').headD []

def minorSuffix (ver : Name) : Name := if '.' ∈ ver then (ver.splitOn '.').getD 1 ['0'] else ['0']

/-- `kubevirt_os_variant`. -/
def kubevirtOsVariant (distroId versionId idLike : Name) : Option Name :=
  let did := strip (lower distroId)
  let ver := strip versionId
  let like := lower idLike
  if did = "rhel".toList ∨ did = "redhat".toList ∨ (did = "centos".toList ∧ "rhel".toList <:+: like) then
    if major ver ∈ ["6".toList, "7".toList, "8".toList, "9".toList, "10".toList] then
      some ("rhel".toList ++ major ver ++ ['.'] ++ minorSuffix ver)
    else some (if major ver = [] then "rhel8.0".toList else "rhel".toList ++ major ver ++ ".0".toList)
  else if did = "rocky".toList then
    some (if major ver ≠ [] then "rocky".toList ++ major ver ++ ['.'] ++ minorSuffix ver else "rocky9.0".toList)
  else if did = "almalinux".toList ∨ did = "alma".toList then
    some (if major ver ≠ [] then "almalinux".toList ++ major ver ++ ['.'] ++ minorSuffix ver else "almalinux9.0".toList)
  else if did = "centos".toList then
    if major ver = "7".toList then some "centos7.0".toList
    else if major ver ∈ ["8".toList, "9".toList, "10".toList] then some ("centos".toList ++ major ver ++ ".0".toList)
    else some "centos8.0".toList
  else if did = "fedora".toList then some (if major ver ≠ [] then "fedora".toList ++ major ver else "fedora43".toList)
  else if did = "ubuntu".toList then some (if ver ≠ [] then "ubuntu".toList ++ ver else "ubuntu24.04".toList)
  else if did = "debian".toList then some (if ver ≠ [] then "debian".toList ++ major ver else "debian12".toList)
  else if did = "opensuse-leap".toList ∨ did = "opensuse".toList then
    some (if ver ≠ [] then "opensuse-leap".toList ++ ver else "opensuse-leap15.6".toList)
  else if did = "sles".toList then some (if major ver ≠ [] then "sles".toList ++ major ver else "sles15".toList)
  else if did = "photon".toList ∨ did = "vmware".toList then some "linux".toList
  else if did ≠ [] then some (if ver ≠ [] then did ++ ver.filter (· ≠ '.') else did)
  else none

/-- `re.search`, of a pattern given by what it makes of the rest of a text. -/
def search {γ : Type} (p : Name → Option γ) (s : Name) : Option γ := s.tails.findSome? p

/-- An optional character of those. -/
def skipOne (chars : List Char) (s : Name) : Name := if s.head?.any (· ∈ chars) then s.tail else s

/-- `(\d{2})`, and what follows it. -/
def twoDigits : Name → Option (Name × Name)
  | a :: b :: rest => if isDigit a && isDigit b then some ([a, b], rest) else none
  | _ => none

/-- `name[\-_]?(\d+)`. -/
def numbered (name s : Name) : Option Name :=
  (after name s).bind fun rest => ((scanDigits (skipOne ['-', '_'] rest)).map Prod.fst)

/-- `rhel[\-_]?(\d)[\._]?(\d+)`. -/
def rhelVersion (s : Name) : Option (Name × Name) :=
  (after "rhel".toList s).bind fun rest =>
    match skipOne ['-', '_'] rest with
    | d :: rest => if isDigit d then ((scanDigits (skipOne ['.', '_'] rest)).map fun m => ([d], m.1)) else none
    | [] => none

/-- `ubuntu[\-_]?(\d{2})\.?(\d{2})?`. -/
def ubuntuVersion (s : Name) : Option (Name × Name) :=
  (after "ubuntu".toList s).bind fun rest =>
    (twoDigits (skipOne ['-', '_'] rest)).map fun first =>
      (first.1, ((twoDigits (skipOne ['.'] first.2)).map Prod.fst).getD "04".toList)

/-- `u(\d{2})(\d{2})`. -/
def shortUbuntu (s : Name) : Option (Name × Name) :=
  (after "u".toList s).bind fun rest =>
    (twoDigits rest).bind fun first => (twoDigits first.2).map fun second => (first.1, second.1)

/-- `kubevirt_os_variant_from_name`. -/
def kubevirtOsVariantFromName (name : Name) : Option Name :=
  let n := lower name
  ((search rhelVersion n).map fun v => "rhel".toList ++ v.1 ++ ['.'] ++ v.2).or <|
  ((search (numbered "rocky".toList) n).map fun v => "rocky".toList ++ v ++ ".0".toList).or <|
  ((search ubuntuVersion n).map fun v => "ubuntu".toList ++ v.1 ++ ['.'] ++ v.2).or <|
  ((search shortUbuntu n).map fun v => "ubuntu".toList ++ v.1 ++ ['.'] ++ v.2).or <|
  ((search (numbered "centos".toList) n).map fun v => "centos".toList ++ v ++ ".0".toList).or <|
  (search (numbered "fedora".toList) n).map fun v => "fedora".toList ++ v

/-- `_explicit_os_variant`; none is empty. -/
def explicitOsVariant (args : GuestArgs) : Name :=
  orElse (strip args.k8sOsVariant) (orElse (strip args.osVariant) (strip args.linuxOsVariant))

def looksWindowsVariant (variant : Name) : Bool := "win".toList.isPrefixOf (lower variant) || mentions variant "windows"

def osReleaseFromArgs (args : GuestArgs) : List (Name × Name) :=
  parseOsRelease (orElse args.linuxOsRelease args.reportOsRelease)

/-- `parsed.get(key, "")`. -/
def osReleaseField (args : GuestArgs) (key : String) : Name := ((osReleaseFromArgs args).lookup key.toList).getD []

def distroOf (args : GuestArgs) : Name :=
  orElse (lower (strip (orElse args.linuxDistro args.detectedDistro))) (lower (osReleaseField args "ID"))

def versionOf (args : GuestArgs) : Name :=
  orElse (strip (orElse args.linuxVersion args.detectedVersion)) (osReleaseField args "VERSION_ID")

def prettyOf (args : GuestArgs) : Name :=
  orElse args.linuxOsPrettyName (orElse args.detectedOsPrettyName (osReleaseField args "PRETTY_NAME"))

/-- The variant that the distribution gives, or else the name. -/
def derivedOsVariant (args : GuestArgs) (vmName : Name) : Option Name :=
  match kubevirtOsVariant (distroOf args) (versionOf args) (osReleaseField args "ID_LIKE") with
  | some variant => some variant
  | none => if vmName = [] then none else kubevirtOsVariantFromName vmName

def linuxOsVariantOf (args : GuestArgs) (vmName : Name) : Option Name :=
  if explicitOsVariant args ≠ [] ∧ looksWindowsVariant (explicitOsVariant args) = false then some (explicitOsVariant args)
  else derivedOsVariant args vmName

/-- An entry, where the value is not empty. -/
def entryIf (key : String) (value : Name) : List (String × Name) := if value = [] then [] else [(key, value)]

/-- `resolve_guest_profile`. -/
def resolveGuestProfile (args : GuestArgs) (vmName : Name) : GuestProfile :=
  if isWindowsGuest args then
    let variant := orElse (explicitOsVariant args) "win2k22".toList
    { family := .windows, osVariant := some (if looksWindowsVariant variant then variant else "win2k22".toList),
      extraLabels := [("v9s.io/rdp", "enabled".toList)] }
  else
    { family := .linux, osVariant := linuxOsVariantOf args vmName,
      extraLabels := entryIf "os.template.kubevirt.io/variant" ((linuxOsVariantOf args vmName).getD []) ++
        entryIf "h2kvm.io/os-distro" (distroOf args) ++ entryIf "h2kvm.io/os-version" (versionOf args),
      extraAnnotations := entryIf "h2kvm.io/os-pretty-name" ((prettyOf args).take 256) }

/-- `d.update(entries)`. -/
def update (entries d : List (String × Name)) : List (String × Name) :=
  entries.foldl (fun d entry => setEntry entry.1 entry.2 d) d

/-- The labels that `apply_guest_metadata` leaves. -/
def guestLabels (profile : GuestProfile) (labels : List (String × Name)) : List (String × Name) :=
  update profile.extraLabels
    (setEntry "v9s.io/guest-os" profile.family.value (setEntry "h2kvm.io/guest-os" profile.family.value labels))

def guestAnnotations (profile : GuestProfile) (annotations : List (String × Name)) : List (String × Name) :=
  update profile.extraAnnotations
    (update (entryIf "h2kvm.io/os-variant" (profile.osVariant.getD []))
      (setEntry "h2kvm.io/guest-os" profile.family.value annotations))

/-! ### The manifest -/

/-- What the manifest is built from, besides the arguments. -/
structure VmSpec where
  vmName : Name
  vmNamespace : Name
  runStrategy : Name
  volume : Json
  rootDiskBus : Name
  memory : Name
  cpuCores : Name

namespace Manifest

def text (s : Name) : Json := .str (String.ofList s)

def texts (entries : List (String × Name)) : Json := .obj (entries.map fun entry => (entry.1, text entry.2))

def empty : Json := .obj []

/-- The cores that are asked for; what is no number is taken for two. -/
def cores (cpuCores : Name) : Int :=
  match Config.int? (strip cpuCores) with
  | some n => max 1 n
  | none => 2

def interface (family : Family) : Json :=
  .obj [("name", .str "default"), ("masquerade", empty),
    ("ports", .arr [match family with
      | .windows => .obj [("name", .str "rdp"), ("port", .int 3389), ("protocol", .str "TCP")]
      | .linux => .obj [("name", .str "ssh"), ("port", .int 22), ("protocol", .str "TCP")]])]

/-- The features, with `smm` where EFI secure boot requires it. -/
def features (family : Family) (smm : Bool) : Json :=
  .obj ([("acpi", empty), ("apic", empty)] ++
    (match family with
      | .windows => [("hyperv", .obj [("relaxed", empty), ("vapic", empty), ("spinlocks", .obj [("spinlocks", .int 8191)])])]
      | .linux => []) ++
    if smm then [("smm", .obj [("enabled", .bool true)])] else [])

def clock (family : Family) : Json :=
  .obj [("utc", empty), ("timer", .obj ([("hpet", .obj [("present", .bool false)]),
    ("pit", .obj [("tickPolicy", .str "delay")]), ("rtc", .obj [("tickPolicy", .str "catchup")])] ++
    match family with
      | .windows => [("hyperv", empty)]
      | .linux => []))]

/-- `{"efi": {"secureBoot": secure}}`. -/
def efi (secure : Bool) : Json := .obj [("efi", .obj [("secureBoot", .bool secure)])]

def domain (spec : VmSpec) (family : Family) (args : GuestArgs) : Json :=
  .obj ([("cpu", .obj [("cores", .int (cores spec.cpuCores))]),
    ("devices", .obj ([("disks", .arr [.obj [("name", .str "rootdisk"), ("disk", .obj [("bus", text spec.rootDiskBus)])]]),
      ("interfaces", .arr [interface family]), ("autoattachGraphicsDevice", .bool true)] ++
      match family with
        | .windows => []
        | .linux => [("rng", empty)])),
    ("machine", .obj [("type", .str "q35")]),
    ("resources", .obj [("requests", .obj [("memory", text spec.memory)])]),
    ("features", features family (args.uefi && args.winSecureBoot)),
    ("clock", clock family)] ++
    if args.uefi then [("firmware", .obj [("bootloader", efi args.winSecureBoot)])] else [])

end Manifest

def vmLabels (spec : VmSpec) (args : GuestArgs) : List (String × Name) :=
  guestLabels (resolveGuestProfile args spec.vmName) [("app", spec.vmName), ("h2kvm.io/migrated", "true".toList)]

def vmAnnotations (spec : VmSpec) (args : GuestArgs) : List (String × Name) :=
  guestAnnotations (resolveGuestProfile args spec.vmName) []

def templateLabels (spec : VmSpec) : List (String × Name) := [("kubevirt.io/vm", spec.vmName)]

open Manifest

def metadata (spec : VmSpec) (args : GuestArgs) : Json :=
  .obj ([("name", text spec.vmName), ("namespace", text spec.vmNamespace), ("labels", texts (vmLabels spec args))] ++
    if vmAnnotations spec args = [] then [] else [("annotations", texts (vmAnnotations spec args))])

/-- `build_kubevirt_vm_manifest`. -/
def buildKubevirtVmManifest (spec : VmSpec) (args : GuestArgs) : Json :=
  .obj [("apiVersion", .str "kubevirt.io/v1"), ("kind", .str "VirtualMachine"), ("metadata", metadata spec args),
    ("spec", .obj [("runStrategy", text spec.runStrategy),
      ("template", .obj [("metadata", .obj [("labels", texts (templateLabels spec))]),
        ("spec", .obj [("domain", domain spec (resolveGuestProfile args spec.vmName).family args),
          ("networks", .arr [.obj [("name", .str "default"), ("pod", empty)]]), ("volumes", .arr [spec.volume])])])])]

end guestProfile

section firmware

open Framework Json Manifest Text

/-! ### The patches -/

/-- The VM that is stored, and the arguments that go with it. -/
structure DeployedVm where
  stored : Json
  args : GuestArgs

def bootloaderKind (uefi : Bool) : String := if uefi then "efi" else "bios"

def domainPatch (uefi secure : Bool) : Json :=
  if uefi then
    .obj ([("firmware", .obj [("bootloader", efi secure)])] ++
      if secure then [("features", .obj [("smm", .obj [("enabled", .bool true)])])] else [])
  else .obj [("firmware", .obj [("bootloader", .obj [("bios", empty)])])]

def firmwarePatch (uefi secure : Bool) : Json :=
  .obj [("spec", .obj [("template", .obj [("spec", .obj [("domain", domainPatch uefi secure)])])])]

/-- `_patch_vm_firmware`, where the API takes the patch for a merge patch. -/
def patchVmFirmware (uefi : Bool) (vm : DeployedVm) : DeployedVm where
  stored := mergePatch vm.stored (firmwarePatch uefi vm.args.winSecureBoot)
  args := { vm.args with uefi }

def patchAll (calls : List Bool) (vm : DeployedVm) : DeployedVm := calls.foldl (fun vm uefi => patchVmFirmware uefi vm) vm

def created (spec : VmSpec) (args : GuestArgs) : DeployedVm := ⟨buildKubevirtVmManifest spec args, args⟩

def UEFI_BOOT_FAILURE_PATTERNS : List String :=
  ["no bootable option or device was found", "could not load boot", "bdsdxe: failed to load", "boot0001"]

def BIOS_BOOT_FAILURE_PATTERNS : List String :=
  ["no bootable device", "boot failed", "disk boot failure", "reboot and select proper boot device", "no operating system"]

/-- `serial_indicates_boot_failure`. -/
def serialIndicatesBootFailure (output : Name) (currentUefi : Bool) : Bool :=
  strip (lower output) ≠ [] &&
    (if currentUefi then UEFI_BOOT_FAILURE_PATTERNS else BIOS_BOOT_FAILURE_PATTERNS).any (mentions output)

/-- What the fall-back meets: the mode and the alternate it is given, what the serial console shows, and whether a step
before the patch raises, or the patch. -/
structure Fallback where
  firmwareMode : Name
  firmwareAlternate : Name
  serial : Name
  stopRaises : Bool
  patchRaises : Bool

/-- `_maybe_firmware_fallback_after_deploy`; what comes after the patch does not change the VM's firmware. -/
def maybeFirmwareFallbackAfterDeploy (fallback : Fallback) (vm : DeployedVm) : DeployedVm :=
  if lower (strip (orElse fallback.firmwareMode "auto".toList)) ∈ ["bios".toList, "uefi".toList] then vm
  else if fallback.firmwareAlternate = [] then vm
  else if !serialIndicatesBootFailure fallback.serial vm.args.uefi then vm
  else if fallback.stopRaises || fallback.patchRaises then vm
  else patchVmFirmware (fallback.firmwareAlternate = "uefi".toList) vm

/-! ### What is stored -/

def domainPath : List String := ["spec", "template", "spec", "domain"]

def bootloaderPath : List String := domainPath ++ ["firmware", "bootloader"]

def smmPath : List String := domainPath ++ ["features", "smm"]

/-- The kinds of bootloader that are stored. -/
def bootloaderKinds (vm : Json) : List String := ((vm.get? bootloaderPath).getD .null).members.map Prod.fst

def EfiSecureBoot (vm : Json) : Prop := vm.get? (bootloaderPath ++ ["efi", "secureBoot"]) = some (.bool true)

def SmmEnabled (vm : Json) : Prop := vm.get? (smmPath ++ ["enabled"]) = some (.bool true)

/-- A place that is neither above nor within the bootloader or the smm feature. -/
structure Elsewhere (place : List String) : Prop where
  notAbove : ¬ place <+: bootloaderPath
  notWithin : ¬ bootloaderPath <+: place
  notAbove' : ¬ place <+: smmPath
  notWithin' : ¬ smmPath <+: place

/-- What is stored is one firmware, the one that was asked for, and everything else is as it was created. -/
structure OneFirmware (spec : VmSpec) (args : GuestArgs) (vm : DeployedVm) (uefi : Bool) : Prop where
  kinds : bootloaderKinds vm.stored = [bootloaderKind uefi]
  smm : SmmEnabled vm.stored ↔ EfiSecureBoot vm.stored
  kept : ∀ place, Elsewhere place → vm.stored.get? place = (created spec args).stored.get? place
  told : vm.args.uefi = uefi

section patching

variable {uefi secure : Bool} {place : List String}

/-- The bootloader of a patch. -/
def bootloaderPatch (uefi secure : Bool) : Json := if uefi then efi secure else .obj [("bios", empty)]

theorem firmwarePatch_eq_nest (uefi secure : Bool) :
    firmwarePatch uefi secure = nest domainPath (domainPatch uefi secure) := rfl

theorem reaches_bootloader (uefi secure : Bool) :
    (firmwarePatch uefi secure).Reaches bootloaderPath (bootloaderPatch uefi secure) := by
  rw [firmwarePatch_eq_nest, bootloaderPath]
  refine reaches_nest ?_
  cases uefi <;> cases secure <;>
    exact ⟨by decide, _, rfl, by decide, _, rfl, rfl⟩

theorem reaches_smm : (firmwarePatch true true).Reaches (smmPath ++ ["enabled"]) (.bool true) := by
  rw [firmwarePatch_eq_nest, smmPath, List.append_assoc]
  refine reaches_nest ?_
  exact ⟨by decide, _, rfl, by decide, _, rfl, by decide, _, rfl, rfl⟩

/-- What is in the domain's patch: the bootloader, and the smm feature where secure boot is asked for. -/
theorem lookup_domainPatch {members : List (String × Json)} (object : domainPatch uefi secure = .obj members) :
    (members.map Prod.fst).Nodup ∧ ∀ name value, members.lookup name = some value →
      (name = "firmware" ∧ value = nest ["bootloader"] (bootloaderPatch uefi secure)) ∨
      (name = "features" ∧ value = nest ["smm"] (.obj [("enabled", .bool true)])) := by
  have single (kind : Json) :
      ∀ name value, [("firmware", kind)].lookup name = some value → name = "firmware" ∧ value = kind := by
    intro name value found
    by_cases same : name = "firmware"
    · subst same
      cases found
      exact ⟨rfl, rfl⟩
    · rw [lookup_cons_other same] at found
      cases found
  cases uefi with
  | false =>
    cases object
    exact ⟨by decide, fun name value found => .inl (single _ name value found)⟩
  | true =>
    cases secure with
    | false =>
      cases object
      exact ⟨by decide, fun name value found => .inl (single _ name value found)⟩
    | true =>
      cases object
      refine ⟨by decide, fun name value found => ?_⟩
      by_cases first : name = "firmware"
      · subst first
        cases found
        exact .inl ⟨rfl, rfl⟩
      · rw [List.cons_append, List.nil_append, lookup_cons_other first] at found
        by_cases second : name = "features"
        · subst second
          cases found
          exact .inr ⟨rfl, rfl⟩
        · rw [if_pos rfl, lookup_cons_other second] at found
          cases found

theorem spares_elsewhere (elsewhere : Elsewhere place) : (firmwarePatch uefi secure).Spares place := by
  rw [firmwarePatch_eq_nest]
  refine spares_nest (fun before => elsewhere.notAbove (before.trans (List.prefix_append _ _))) fun rest split => ?_
  subst split
  obtain ⟨members, object⟩ : ∃ members, domainPatch uefi secure = .obj members := by
    unfold domainPatch
    split <;> exact ⟨_, rfl⟩
  obtain ⟨distinct, inside⟩ := lookup_domainPatch object
  rw [object]
  cases rest with
  | nil => exact absurd (by rw [List.append_nil]; exact List.prefix_append _ _) elsewhere.notAbove
  | cons name rest =>
    refine ⟨distinct, fun value found => ?_⟩
    rcases inside name value found with ⟨rfl, rfl⟩ | ⟨rfl, rfl⟩
    · refine spares_nest (fun before => elsewhere.notAbove ?_) fun more split => absurd ?_ elsewhere.notWithin
      · exact (List.prefix_append_right_inj domainPath).mpr (List.cons_prefix_cons.mpr ⟨rfl, before⟩)
      · rw [split]
        exact (List.prefix_append_right_inj domainPath).mpr ⟨more, rfl⟩
    · refine spares_nest (fun before => elsewhere.notAbove' ?_) fun more split => absurd ?_ elsewhere.notWithin'
      · exact (List.prefix_append_right_inj domainPath).mpr (List.cons_prefix_cons.mpr ⟨rfl, before⟩)
      · rw [split]
        exact (List.prefix_append_right_inj domainPath).mpr ⟨more, rfl⟩

variable {vm : DeployedVm}

/-- A kind of bootloader is added to those that are stored. -/
theorem bootloaderKinds_patch (uefi : Bool) (vm : DeployedVm) : bootloaderKinds (patchVmFirmware uefi vm).stored =
    if bootloaderKind uefi ∈ bootloaderKinds vm.stored then bootloaderKinds vm.stored
    else bootloaderKinds vm.stored ++ [bootloaderKind uefi] := by
  have merged := get?_mergePatch_reached (reaches_bootloader uefi vm.args.winSecureBoot)
    (by cases uefi <;> exact nofun) vm.stored []
  have added : ∃ value, bootloaderPatch uefi vm.args.winSecureBoot = .obj [(bootloaderKind uefi, .obj value)] := by
    cases uefi <;> exact ⟨_, rfl⟩
  obtain ⟨value, added⟩ := added
  rw [List.append_nil] at merged
  rw [bootloaderKinds, patchVmFirmware, merged, added, bootloaderKinds]
  exact keys_setEntry _ _ _

theorem efiSecureBoot_patch (uefi : Bool) (vm : DeployedVm) : EfiSecureBoot (patchVmFirmware uefi vm).stored ↔
    if uefi then vm.args.winSecureBoot = true else EfiSecureBoot vm.stored := by
  rw [EfiSecureBoot, patchVmFirmware]
  dsimp only
  cases uefi with
  | true =>
    have reaches : (firmwarePatch true vm.args.winSecureBoot).Reaches (bootloaderPath ++ ["efi", "secureBoot"])
        (.bool vm.args.winSecureBoot) := by
      rw [firmwarePatch_eq_nest, bootloaderPath, List.append_assoc]
      refine reaches_nest ?_
      cases vm.args.winSecureBoot <;>
        exact ⟨by decide, _, rfl, by decide, _, rfl, by decide, _, rfl, by decide, _, rfl, rfl⟩
    have merged := get?_mergePatch_reached reaches (by simp) vm.stored []
    rw [List.append_nil] at merged
    rw [merged]
    simp [mergePatch, get?]
  | false =>
    have spares : (firmwarePatch false vm.args.winSecureBoot).Spares (bootloaderPath ++ ["efi", "secureBoot"]) := by
      have apart : ¬ bootloaderPath ++ ["efi", "secureBoot"] <+: bootloaderPath := by decide
      refine spares_nest apart fun rest split => ?_
      cases List.append_cancel_left split
      exact ⟨by decide, fun value found => by cases found⟩
    rw [get?_mergePatch_spared spares]
    rfl

theorem firmwarePatch_insecure (insecure : ¬ (uefi = true ∧ secure = true)) :
    firmwarePatch uefi secure = nest bootloaderPath (bootloaderPatch uefi secure) := by
  cases uefi with
  | false => rfl
  | true =>
    cases secure with
    | false => rfl
    | true => exact absurd ⟨rfl, rfl⟩ insecure

theorem smmEnabled_patch (uefi : Bool) (vm : DeployedVm) : SmmEnabled (patchVmFirmware uefi vm).stored ↔
    (uefi = true ∧ vm.args.winSecureBoot = true) ∨ SmmEnabled vm.stored := by
  rw [SmmEnabled, patchVmFirmware]
  dsimp only
  by_cases asked : uefi = true ∧ vm.args.winSecureBoot = true
  · have merged := get?_mergePatch_reached reaches_smm nofun vm.stored []
    rw [List.append_nil] at merged
    rw [asked.1, asked.2, merged]
    exact iff_of_true rfl (.inl ⟨rfl, rfl⟩)
  · have spares : (firmwarePatch uefi vm.args.winSecureBoot).Spares (smmPath ++ ["enabled"]) := by
      rw [firmwarePatch_insecure asked]
      refine spares_nest (by decide) fun rest split => ?_
      have within : bootloaderPath <+: smmPath ++ ["enabled"] := ⟨rest, split.symm⟩
      exact absurd within (by decide)
    rw [get?_mergePatch_spared spares]
    exact (or_iff_right asked).symm

end patching

/-! ### Runs -/

section runs

variable {uefi : Bool} {calls : List Bool} {vm : DeployedVm} {spec : VmSpec} {args : GuestArgs} {place : List String}

theorem patchAll_append (before : List Bool) (uefi : Bool) (vm : DeployedVm) :
    patchAll (before ++ [uefi]) vm = patchVmFirmware uefi (patchAll before vm) := by
  rw [patchAll, List.foldl_append]
  rfl

theorem winSecureBoot_patchAll (calls : List Bool) (vm : DeployedVm) :
    (patchAll calls vm).args.winSecureBoot = vm.args.winSecureBoot := by
  induction calls using List.reverseRecOn with
  | nil => rfl
  | append_singleton calls uefi ih => rw [patchAll_append, patchVmFirmware, ih]

theorem get?_patchAll (elsewhere : Elsewhere place) (calls : List Bool) (vm : DeployedVm) :
    (patchAll calls vm).stored.get? place = vm.stored.get? place := by
  induction calls using List.reverseRecOn with
  | nil => rfl
  | append_singleton calls uefi ih =>
    rw [patchAll_append, patchVmFirmware, get?_mergePatch_spared (spares_elsewhere elsewhere), ih]

theorem bootloaderKinds_patchAll (distinct : (bootloaderKinds vm.stored).Nodup) (calls : List Bool) :
    (bootloaderKinds (patchAll calls vm).stored).Nodup ∧ ∀ kind, kind ∈ bootloaderKinds (patchAll calls vm).stored ↔
      kind ∈ bootloaderKinds vm.stored ∨ ∃ uefi ∈ calls, kind = bootloaderKind uefi := by
  induction calls using List.reverseRecOn with
  | nil => exact ⟨distinct, fun kind => by simp [patchAll]⟩
  | append_singleton calls uefi ih =>
    obtain ⟨distinct, same⟩ := ih
    rw [patchAll_append, bootloaderKinds_patch]
    have extended (kind : String) : (∃ u ∈ calls ++ [uefi], kind = bootloaderKind u) ↔
        (∃ u ∈ calls, kind = bootloaderKind u) ∨ kind = bootloaderKind uefi := by
      simp only [List.mem_append, List.mem_singleton]
      grind
    split
    · next there =>
      refine ⟨distinct, fun kind => ?_⟩
      rw [extended, ← or_assoc, ← same]
      refine ⟨.inl, ?_⟩
      rintro (member | rfl)
      · exact member
      · exact there
    · next absent =>
      refine ⟨List.nodup_append.mpr ⟨distinct, List.nodup_singleton _, ?_⟩, fun kind => ?_⟩
      · rintro kind member other single rfl
        rw [List.mem_singleton.mp single] at member
        exact absent member
      · rw [extended, ← or_assoc, ← same, List.mem_append, List.mem_singleton]

theorem smm_iff_patchAll (calls : List Bool) (start : SmmEnabled vm.stored ↔ EfiSecureBoot vm.stored)
    (fixed : EfiSecureBoot vm.stored → vm.args.winSecureBoot = true) :
    (SmmEnabled (patchAll calls vm).stored ↔ EfiSecureBoot (patchAll calls vm).stored) ∧
      (EfiSecureBoot (patchAll calls vm).stored → vm.args.winSecureBoot = true) := by
  induction calls using List.reverseRecOn with
  | nil => exact ⟨start, fixed⟩
  | append_singleton calls uefi ih =>
    obtain ⟨same, secured⟩ := ih
    rw [patchAll_append, smmEnabled_patch, efiSecureBoot_patch, winSecureBoot_patchAll]
    cases uefi with
    | true =>
      simp only [true_and, if_true]
      refine ⟨⟨?_, .inl⟩, id⟩
      rintro (secure | enabled)
      · exact secure
      · exact secured (same.mp enabled)
    | false => simpa using ⟨same, secured⟩

theorem get?_bootloader_created (spec : VmSpec) (args : GuestArgs) : (created spec args).stored.get? bootloaderPath =
    if args.uefi then some (efi args.winSecureBoot) else none := by
  have inside : (created spec args).stored.get? bootloaderPath =
    (domain spec (resolveGuestProfile args spec.vmName).family args).get? ["firmware", "bootloader"] := rfl
  rw [inside]
  unfold domain
  cases args.uefi <;> rfl

theorem smmEnabled_created (spec : VmSpec) (args : GuestArgs) : SmmEnabled (created spec args).stored ↔
    args.uefi = true ∧ args.winSecureBoot = true := by
  have inside : (created spec args).stored.get? (smmPath ++ ["enabled"]) =
    (features (resolveGuestProfile args spec.vmName).family (args.uefi && args.winSecureBoot)).get? ["smm", "enabled"] := rfl
  rw [SmmEnabled, inside]
  unfold features
  cases (resolveGuestProfile args spec.vmName).family <;> cases args.uefi <;> cases args.winSecureBoot <;> decide

theorem efiSecureBoot_created (spec : VmSpec) (args : GuestArgs) : EfiSecureBoot (created spec args).stored ↔
    args.uefi = true ∧ args.winSecureBoot = true := by
  have inside : (created spec args).stored.get? (bootloaderPath ++ ["efi", "secureBoot"]) =
    (domain spec (resolveGuestProfile args spec.vmName).family args).get?
      ["firmware", "bootloader", "efi", "secureBoot"] := rfl
  rw [EfiSecureBoot, inside]
  unfold domain
  cases args.uefi with
  | false => exact iff_of_false nofun nofun
  | true =>
    cases args.winSecureBoot with
    | false => exact iff_of_false nofun nofun
    | true => exact iff_of_true rfl ⟨rfl, rfl⟩

theorem bootloaderKinds_created (spec : VmSpec) (args : GuestArgs) :
    bootloaderKinds (created spec args).stored = if args.uefi then ["efi"] else [] := by
  rw [bootloaderKinds, get?_bootloader_created]
  cases args.uefi <;> rfl

theorem bootloaderKind_injective : Function.Injective bootloaderKind := by
  intro a b same
  cases a <;> cases b <;> first | rfl | exact absurd same (by decide)

/-- One kind is stored exactly when no call before, nor the manifest, asked for another. -/
theorem bootloaderKinds_iff (spec : VmSpec) (args : GuestArgs) (before : List Bool) (uefi : Bool) :
    bootloaderKinds (patchAll (before ++ [uefi]) (created spec args)).stored = [bootloaderKind uefi] ↔
      (∀ u ∈ before, u = uefi) ∧ (args.uefi = true → uefi = true) := by
  have distinct : (bootloaderKinds (created spec args).stored).Nodup := by
    rw [bootloaderKinds_created]
    split <;> decide
  obtain ⟨distinct, same⟩ := bootloaderKinds_patchAll distinct (before ++ [uefi])
  have asked : bootloaderKind uefi ∈ bootloaderKinds (patchAll (before ++ [uefi]) (created spec args)).stored :=
    (same _).mpr (.inr ⟨uefi, List.mem_append_right _ List.mem_cons_self, rfl⟩)
  have manifest (kind : String) :
      kind ∈ bootloaderKinds (created spec args).stored ↔ args.uefi = true ∧ kind = bootloaderKind true := by
    rw [bootloaderKinds_created]
    cases args.uefi <;> simp [bootloaderKind]
  constructor
  · intro one
    have only (kind : String) (there : kind ∈ bootloaderKinds (created spec args).stored ∨
        ∃ u ∈ before ++ [uefi], kind = bootloaderKind u) : kind = bootloaderKind uefi := by
      have member := (same kind).mpr there
      rw [one] at member
      exact List.mem_singleton.mp member
    refine ⟨fun u member => bootloaderKind_injective (only _ (.inr ⟨u, List.mem_append_left _ member, rfl⟩)), fun built => ?_⟩
    exact (bootloaderKind_injective (only _ (.inl ((manifest _).mpr ⟨built, rfl⟩)))).symm
  · rintro ⟨alike, built⟩
    have only : ∀ kind ∈ bootloaderKinds (patchAll (before ++ [uefi]) (created spec args)).stored,
        kind = bootloaderKind uefi := by
      intro kind member
      rcases (same kind).mp member with there | ⟨u, called, rfl⟩
      · obtain ⟨efi, rfl⟩ := (manifest kind).mp there
        rw [built efi]
      · rcases List.mem_append.mp called with earlier | last
        · rw [alike u earlier]
        · rw [List.mem_singleton.mp last]
    have shape := List.eq_replicate_of_mem only
    have short := List.nodup_iff_count_le_one.mp distinct (bootloaderKind uefi)
    rw [shape, List.count_replicate_self] at short
    have some := List.length_pos_of_mem asked
    rw [shape, show (bootloaderKinds (patchAll (before ++ [uefi]) (created spec args)).stored).length = 1 by omega]
    rfl

end runs

/-- After a call there is one firmware exactly when the manifest and the calls before it asked for no other; and the
fall-back leaves the firmware of an explicit mode, and calls for another at most once. -/
theorem oneFirmware_iff (spec : VmSpec) (args : GuestArgs) (before : List Bool) (uefi : Bool) :
    (OneFirmware spec args (patchAll (before ++ [uefi]) (created spec args)) uefi ↔
      (∀ u ∈ before, u = uefi) ∧ (args.uefi = true → uefi = true)) ∧
    ∀ (fallback : Fallback) (vm : DeployedVm),
      (lower (strip fallback.firmwareMode) ∈ ["bios".toList, "uefi".toList] →
        maybeFirmwareFallbackAfterDeploy fallback vm = vm) ∧
      ∃ calls, calls.length ≤ 1 ∧ maybeFirmwareFallbackAfterDeploy fallback vm = patchAll calls vm := by
  refine ⟨⟨fun one => (bootloaderKinds_iff spec args before uefi).mp one.kinds, fun alike => ?_⟩,
    fun fallback vm => ⟨fun explicit => ?_, ?_⟩⟩
  · have secured : EfiSecureBoot (created spec args).stored → (created spec args).args.winSecureBoot = true :=
      fun secure => ((efiSecureBoot_created spec args).mp secure).2
    refine ⟨(bootloaderKinds_iff spec args before uefi).mpr alike, (smm_iff_patchAll _ ?_ secured).1,
      fun place elsewhere => get?_patchAll elsewhere _ _, ?_⟩
    · exact (smmEnabled_created spec args).trans (efiSecureBoot_created spec args).symm
    · rw [patchAll_append, patchVmFirmware]
  · unfold maybeFirmwareFallbackAfterDeploy
    have given : fallback.firmwareMode ≠ [] := by
      intro none
      rw [none] at explicit
      exact absurd explicit (by decide)
    rw [orElse, if_neg given, if_pos explicit]
  · unfold maybeFirmwareFallbackAfterDeploy
    split
    · exact ⟨[], by decide, rfl⟩
    · split
      · exact ⟨[], by decide, rfl⟩
      · split
        · exact ⟨[], by decide, rfl⟩
        · split
          · exact ⟨[], by decide, rfl⟩
          · exact ⟨[_], le_refl 1, rfl⟩

def webVmSpec : VmSpec where
  vmName := "web".toList
  vmNamespace := "default".toList
  runStrategy := "Always".toList
  volume := .obj [("name", .str "rootdisk"), ("persistentVolumeClaim", .obj [("claimName", .str "web-disk")])]
  rootDiskBus := "virtio".toList
  memory := "2Gi".toList
  cpuCores := "2".toList

/-- A VM that was created with UEFI and is patched to BIOS has both. -/
theorem not_oneFirmware_bios :
    bootloaderKinds (patchAll [false] (created webVmSpec { uefi := true })).stored = ["efi", "bios"] ∧
      ¬ OneFirmware webVmSpec { uefi := true } (patchAll [false] (created webVmSpec { uefi := true })) false := by
  have both : bootloaderKinds (patchAll [false] (created webVmSpec { uefi := true })).stored = ["efi", "bios"] := by
    rw [show [false] = [] ++ [false] from rfl, patchAll_append, bootloaderKinds_patch]
    show (if bootloaderKind false ∈ bootloaderKinds (created webVmSpec { uefi := true }).stored then _ else _) = _
    rw [bootloaderKinds_created]
    rfl
  refine ⟨both, fun one => ?_⟩
  have kinds := one.kinds
  rw [both] at kinds
  exact absurd kinds (by decide)

end firmware

end H2kvm.Deployers
