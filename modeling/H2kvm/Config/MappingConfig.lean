import Mathlib.Data.Option.Basic
import H2kvm.Framework.Yaml

namespace H2kvm.Config

open Framework Yaml

inductive MACAddressPolicy where
  | preserve
  | regenerate
  | custom
  deriving DecidableEq

def MACAddressPolicy.value : MACAddressPolicy → String
  | preserve => "preserve"
  | regenerate => "regenerate"
  | custom => "custom"

/-- `MACAddressPolicy(value)`. -/
def MACAddressPolicy.ofValue (value : List Char) : Option MACAddressPolicy :=
  [preserve, regenerate, custom].find? fun policy => policy.value.toList = value

inductive DiskFormat where
  | qcow2
  | raw
  | vdi
  deriving DecidableEq

def DiskFormat.value : DiskFormat → String
  | qcow2 => "qcow2"
  | raw => "raw"
  | vdi => "vdi"

/-- `DiskFormat(value)`. -/
def DiskFormat.ofValue (value : List Char) : Option DiskFormat :=
  [qcow2, raw, vdi].find? fun format => format.value.toList = value

structure NetworkMapping where
  sourceNetworks : Fields := []
  macAddressPolicy : MACAddressPolicy := .preserve
  macAddressOverrides : Fields := []
  defaultBridge : Yaml := .null

structure StorageMapping where
  defaultPool : Yaml := .null
  diskMappings : Fields := []
  formatOverride : Option DiskFormat := none
  preallocate : Bool := false

structure MappingConfig where
  network : NetworkMapping := {}
  storage : StorageMapping := {}

/-- A value that has to be a dictionary. -/
def dict? : Yaml → Option Fields
  | .map fields => some fields
  | _ => none

/-- What `.lower()` gives; a value that is no text raises. -/
def lower? : Yaml → Option (List Char)
  | .str s => some (s.toList.map Char.toLower)
  | _ => none

/-- A value that has to be a boolean. -/
def bool? : Yaml → Option Bool
  | .bool b => some b
  | _ => none

def isHexDigit (c : Char) : Bool := ('0' ≤ c && c ≤ '9') || ('A' ≤ c && c ≤ 'F') || ('a' ≤ c && c ≤ 'f')

/-- `([0-9A-Fa-f]{2}[:-]){n}([0-9A-Fa-f]{2})`, and the whole text is matched. -/
def macGroups : Nat → List Char → Bool
  | 0, [a, b] => isHexDigit a && isHexDigit b
  | n + 1, a :: b :: separator :: rest => isHexDigit a && isHexDigit b && (separator = ':' || separator = '-') && macGroups n rest
  | _, _ => false

/-- `_is_valid_mac`; `$` also matches before a newline at the end. -/
def isValidMac (mac : List Char) : Bool := macGroups 5 (if mac.getLast? = some '\n' then mac.dropLast else mac)

def validMac : Yaml → Bool
  | .str s => isValidMac s.toList
  | _ => false

namespace NetworkMapping

/-- `NetworkMapping.from_dict`, none where it raises. -/
def fromDict (data : Fields) : Option NetworkMapping := do
  let sourceNetworks ← dict? ((data.get? (.str "source_networks")).getD (.map []))
  let policy ← MACAddressPolicy.ofValue (← lower? ((data.get? (.str "mac_address_policy")).getD (.str "preserve")))
  let macOverrides ← dict? ((data.get? (.str "mac_address_overrides")).getD (.map []))
  guard (macOverrides.all fun f => validMac f.1 && validMac f.2)
  return { sourceNetworks, macAddressPolicy := policy, macAddressOverrides := macOverrides,
           defaultBridge := (data.get? (.str "default_bridge")).getD .null }

/-- `get_target_mac`. -/
def getTargetMac (mapping : NetworkMapping) (sourceMac : String) : Option Yaml :=
  if mapping.macAddressPolicy = .custom then mapping.macAddressOverrides.get? (.str sourceMac) else none

def toDict (mapping : NetworkMapping) : Fields :=
  [(.str "source_networks", .map mapping.sourceNetworks),
   (.str "mac_address_policy", .str mapping.macAddressPolicy.value),
   (.str "mac_address_overrides", .map mapping.macAddressOverrides),
   (.str "default_bridge", mapping.defaultBridge)]

end NetworkMapping

namespace StorageMapping

/-- A path of `disk_mappings`; `resolves` says for which ones `expanduser` and `resolve` do not raise. -/
def validPath (resolves : String → Bool) : Yaml → Bool
  | .str path => resolves path
  | _ => false

/-- What is under `format_override`, if that is there. -/
def parseFormat : Option Yaml → Option (Option DiskFormat)
  | some fmt => ((lower? fmt).bind DiskFormat.ofValue).map some
  | none => some none

/-- `StorageMapping.from_dict`, none where it raises. -/
def fromDict (resolves : String → Bool) (data : Fields) : Option StorageMapping := do
  let diskMappings ← dict? ((data.get? (.str "disk_mappings")).getD (.map []))
  guard (diskMappings.all fun f => validPath resolves f.2)
  let formatOverride ← parseFormat (data.get? (.str "format_override"))
  let preallocate ← bool? ((data.get? (.str "preallocate")).getD (.bool false))
  return { defaultPool := (data.get? (.str "default_pool")).getD .null, diskMappings, formatOverride, preallocate }

def toDict (mapping : StorageMapping) : Fields :=
  [(.str "default_pool", mapping.defaultPool),
   (.str "disk_mappings", .map mapping.diskMappings),
   (.str "format_override", mapping.formatOverride.elim .null fun format => .str format.value),
   (.str "preallocate", .bool mapping.preallocate)]

end StorageMapping

namespace MappingConfig

/-- A part that is missing or empty is the default; one that is no dictionary raises. -/
def part {α : Type} (default : α) (parse : Fields → Option α) (data : Yaml) : Option α :=
  if data.truthy then (dict? data).bind parse else some default

/-- `MappingConfig.from_dict`, none where it raises. -/
def fromDict (resolves : String → Bool) (data : Fields) : Option MappingConfig := do
  let network ← part {} NetworkMapping.fromDict ((data.get? (.str "network_mapping")).getD (.map []))
  let storage ← part {} (StorageMapping.fromDict resolves) ((data.get? (.str "storage_mapping")).getD (.map []))
  return { network, storage }

def toDict (config : MappingConfig) : Fields :=
  [(.str "network_mapping", .map config.network.toDict), (.str "storage_mapping", .map config.storage.toDict)]

def hasNetworkMapping (config : MappingConfig) : Bool :=
  !config.network.sourceNetworks.isEmpty || config.network.defaultBridge.truthy || !config.network.macAddressOverrides.isEmpty

def hasStorageMapping (config : MappingConfig) : Bool :=
  config.storage.defaultPool.truthy || !config.storage.diskMappings.isEmpty || config.storage.formatOverride.isSome

/-- Written and read again, a configuration is the same. -/
def Survives (resolves : String → Bool) (config : MappingConfig) : Prop :=
  ∃ config', fromDict resolves config.toDict = some config' ∧ config' = config ∧ config'.toDict = config.toDict ∧
    config'.hasNetworkMapping = config.hasNetworkMapping ∧ config'.hasStorageMapping = config.hasStorageMapping

end MappingConfig

/-- Two spellings of one address. -/
structure SameAddress (a b : String) : Prop where
  valid : isValidMac a.toList = true
  valid' : isValidMac b.toList = true
  same : a.toList.map (fun c => if c = '-' then ':' else c.toLower) = b.toList.map fun c => if c = '-' then ':' else c.toLower

theorem SameAddress.symm {a b : String} (h : SameAddress a b) : SameAddress b a := ⟨h.valid', h.valid, h.same.symm⟩

section parsing

variable {resolves : String → Bool}

theorem macAddressPolicy_ofValue (policy : MACAddressPolicy) :
    MACAddressPolicy.ofValue (policy.value.toList.map Char.toLower) = some policy := by
  cases policy <;> decide +kernel

theorem diskFormat_ofValue (format : DiskFormat) :
    DiskFormat.ofValue (format.value.toList.map Char.toLower) = some format := by
  cases format <;> decide +kernel

theorem NetworkMapping.overrides_valid {data : Fields} {mapping : NetworkMapping} (accepted : fromDict data = some mapping) :
    (mapping.macAddressOverrides.all fun f => validMac f.1 && validMac f.2) = true := by
  unfold fromDict at accepted
  obtain ⟨sourceNetworks, -, accepted⟩ := Option.bind_eq_some_iff.mp accepted
  obtain ⟨text, -, accepted⟩ := Option.bind_eq_some_iff.mp accepted
  obtain ⟨policy, -, accepted⟩ := Option.bind_eq_some_iff.mp accepted
  obtain ⟨overrides, -, accepted⟩ := Option.bind_eq_some_iff.mp accepted
  obtain ⟨_, valid, made⟩ := Option.bind_eq_some_iff.mp accepted
  cases made
  by_contra invalid
  rw [Bool.not_eq_true] at invalid
  rw [invalid] at valid
  cases valid

theorem NetworkMapping.fromDict_toDict {mapping : NetworkMapping}
    (valid : (mapping.macAddressOverrides.all fun f => validMac f.1 && validMac f.2) = true) :
    fromDict mapping.toDict = some mapping := by
  have networks : mapping.toDict.get? (.str "source_networks") = some (.map mapping.sourceNetworks) := rfl
  have policy : mapping.toDict.get? (.str "mac_address_policy") = some (.str mapping.macAddressPolicy.value) := rfl
  have overrides : mapping.toDict.get? (.str "mac_address_overrides") = some (.map mapping.macAddressOverrides) := rfl
  have bridge : mapping.toDict.get? (.str "default_bridge") = some mapping.defaultBridge := rfl
  unfold fromDict
  rw [networks, policy, overrides, bridge]
  simp only [Option.getD_some, dict?, lower?, Option.bind_eq_bind, Option.bind_some, macAddressPolicy_ofValue, valid]
  rfl

theorem StorageMapping.paths_valid {data : Fields} {mapping : StorageMapping} (accepted : fromDict resolves data = some mapping) :
    (mapping.diskMappings.all fun f => validPath resolves f.2) = true := by
  unfold fromDict at accepted
  obtain ⟨diskMappings, -, accepted⟩ := Option.bind_eq_some_iff.mp accepted
  obtain ⟨_, valid, accepted⟩ := Option.bind_eq_some_iff.mp accepted
  obtain ⟨format, -, accepted⟩ := Option.bind_eq_some_iff.mp accepted
  obtain ⟨preallocate, -, made⟩ := Option.bind_eq_some_iff.mp accepted
  cases made
  by_contra invalid
  rw [Bool.not_eq_true] at invalid
  rw [invalid] at valid
  cases valid

theorem StorageMapping.fromDict_toDict {mapping : StorageMapping}
    (valid : (mapping.diskMappings.all fun f => validPath resolves f.2) = true) :
    fromDict resolves mapping.toDict = if mapping.formatOverride = none then none else some mapping := by
  have pool : mapping.toDict.get? (.str "default_pool") = some mapping.defaultPool := rfl
  have disks : mapping.toDict.get? (.str "disk_mappings") = some (.map mapping.diskMappings) := rfl
  have formatField : mapping.toDict.get? (.str "format_override") =
      some (mapping.formatOverride.elim .null fun format => .str format.value) := rfl
  have preallocate : mapping.toDict.get? (.str "preallocate") = some (.bool mapping.preallocate) := rfl
  unfold fromDict
  rw [pool, disks, formatField, preallocate]
  simp only [Option.getD_some, dict?, bool?, Option.bind_eq_bind, Option.bind_some, valid]
  obtain ⟨pool, disks, format, preallocate⟩ := mapping
  cases format with
  | none => rfl
  | some format =>
    simp only [Option.elim_some, parseFormat, lower?, Option.bind_some, diskFormat_ofValue, Option.map_some]
    rfl

theorem MappingConfig.part_eq_some {α : Type} {default part' : α} {parse : Fields → Option α} {data : Yaml}
    (accepted : part default parse data = some part') : part' = default ∨ ∃ fields, parse fields = some part' := by
  unfold part at accepted
  split at accepted
  · obtain ⟨fields, -, parsed⟩ := Option.bind_eq_some_iff.mp accepted
    exact .inr ⟨fields, parsed⟩
  · cases accepted
    exact .inl rfl

/-- A configuration that was accepted survives exactly when it has a format. -/
theorem MappingConfig.survives_fromDict_iff {data : Fields} {config : MappingConfig} (accepted : fromDict resolves data = some config) :
    config.Survives resolves ↔ config.storage.formatOverride ≠ none := by
  unfold fromDict at accepted
  obtain ⟨network, networkPart, accepted⟩ := Option.bind_eq_some_iff.mp accepted
  obtain ⟨storage, storagePart, made⟩ := Option.bind_eq_some_iff.mp accepted
  cases made
  have networkRead : NetworkMapping.fromDict network.toDict = some network := by
    refine NetworkMapping.fromDict_toDict ?_
    rcases part_eq_some networkPart with rfl | ⟨fields, parsed⟩
    · rfl
    · exact NetworkMapping.overrides_valid parsed
  have storageRead : StorageMapping.fromDict resolves storage.toDict =
      if storage.formatOverride = none then none else some storage := by
    refine StorageMapping.fromDict_toDict ?_
    rcases part_eq_some storagePart with rfl | ⟨fields, parsed⟩
    · rfl
    · exact StorageMapping.paths_valid parsed
  have again : fromDict resolves (toDict { network, storage }) =
      if storage.formatOverride = none then none else some { network, storage } := by
    have first : (toDict { network, storage }).get? (.str "network_mapping") = some (.map network.toDict) := rfl
    have second : (toDict { network, storage }).get? (.str "storage_mapping") = some (.map storage.toDict) := rfl
    have truthy : (Yaml.map network.toDict).truthy = true := rfl
    have truthy' : (Yaml.map storage.toDict).truthy = true := rfl
    rw [fromDict, first, second]
    simp only [Option.getD_some, part, truthy, truthy', if_true, dict?, Option.bind_some, networkRead, storageRead,
      Option.bind_eq_bind]
    split <;> rfl
  constructor
  · rintro ⟨config', read, -⟩ none
    rw [again, if_pos none] at read
    cases read
  · intro some
    exact ⟨_, by rw [again, if_neg some], rfl, rfl, rfl, rfl⟩

end parsing

/-- A configuration survives exactly when it names a format, and an address is found in every spelling exactly when each
one in the table is there in every spelling. -/
theorem mappingConfig_iff (resolves : String → Bool) :
    (∀ (data : Fields) (config : MappingConfig), MappingConfig.fromDict resolves data = some config →
      (config.Survives resolves ↔ config.storage.formatOverride ≠ none)) ∧
    (∀ mapping : NetworkMapping, mapping.macAddressPolicy = .custom →
      ((∀ a b, SameAddress a b → mapping.getTargetMac a = mapping.getTargetMac b) ↔
        ∀ a b target, SameAddress a b → mapping.macAddressOverrides.get? (.str a) = some target →
          mapping.macAddressOverrides.get? (.str b) = some target)) := by
  refine ⟨fun data config accepted => config.survives_fromDict_iff accepted, fun mapping custom => ⟨fun same a b target spelled found => ?_,
    fun closed a b spelled => ?_⟩⟩
  · have both := same a b spelled
    rw [NetworkMapping.getTargetMac, NetworkMapping.getTargetMac, if_pos custom, if_pos custom, found] at both
    exact both.symm
  · rw [NetworkMapping.getTargetMac, NetworkMapping.getTargetMac, if_pos custom, if_pos custom]
    cases found : mapping.macAddressOverrides.get? (.str a) with
    | some target => exact (closed a b target spelled found).symm
    | none =>
      cases found' : mapping.macAddressOverrides.get? (.str b) with
      | none => rfl
      | some target =>
        have back := closed b a target spelled.symm found'
        rw [found] at back
        cases back

/-- An empty dictionary is accepted; what is written for it is not. -/
theorem not_survives : ∃ config, MappingConfig.fromDict (fun _ => true) [] = some config ∧ ¬ config.Survives fun _ => true := by
  refine ⟨{}, rfl, ?_⟩
  rintro ⟨config', read, -⟩
  have raised : MappingConfig.fromDict (fun _ => true) (MappingConfig.toDict {}) = none := by decide +kernel
  rw [raised] at read
  cases read

end H2kvm.Config
