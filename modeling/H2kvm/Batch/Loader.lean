import H2kvm.Framework.Sorting
import H2kvm.Orchestration.ManifestRun
import H2kvm.Orchestration.ManifestAcceptance

namespace H2kvm.Batch.Loader

section loader

open Framework Framework.Checks Framework.Sorting Yaml Profiles Config
open Orchestration.Manifest (manifestError asInt? oneOf? notText isBool)

/-- What `load` finds around it. `resolve` is `Path(text).expanduser().resolve()`, or the text of
what it raises. -/
structure Environment where
  str : Yaml → String
  repr : Yaml → String
  resolve : String → Except String String

structure VMBatchItem where
  index : Nat
  manifestPath : String
  priority : Int
  overrides : Yaml
  id : String
  enabled : Bool

def supportedVersions : List String := ["1.0"]

section vms

variable (env : Environment) (idx : Nat)

/-- `vms[idx].field`. -/
def place (field : String) : String := "vms[" ++ toString idx ++ "]." ++ field

/-- `vm_data["manifest"]`. -/
def checkManifestPath (v : Option Yaml) : Except PyException String :=
  match v with
  | none => .error (manifestError (place idx "manifest is required (path to VM manifest file)"))
  | some (.str path) => .ok path
  | some _ => .error (manifestError (place idx "manifest must be a string path"))

def checkPriority (v : Option Yaml) : Except PyException Int :=
  match v with
  | none => .ok 0
  | some v =>
    match asInt? v with
    | some priority => .ok priority
    | none => .error (manifestError (place idx "priority must be an integer (got: " ++ env.str v ++ ")"))

/-- `[a-zA-Z0-9_-]+`. -/
def isVmId (s : List Char) : Bool := s ≠ [] && s.all fun c => c.isAlphanum || c = '_' || c = '-'

def checkId (ids : List String) (v : Yaml) : Except PyException String :=
  match v with
  | .str id =>
    if !pyMatches isVmId id.toList then
      .error (manifestError (place idx "id must match pattern: ^[a-zA-Z0-9_-]+$ (got: " ++ env.repr v ++ ")"))
    else if id ∈ ids then .error (manifestError ("Duplicate VM ID: " ++ id))
    else .ok id
  | _ => .error (notText v)

def checkOverrides (v : Option Yaml) : Except PyException Yaml :=
  match v with
  | none => .ok (.map [])
  | some v => if v.isDict then .ok v else .error (manifestError (place idx "overrides must be an object"))

def checkEnabled (v : Option Yaml) : Except PyException Bool :=
  match v with
  | none => .ok true
  | some (.bool enabled) => .ok enabled
  | some _ => .error (manifestError (place idx "enabled must be a boolean"))

/-- The path of a `VMBatchItem`. -/
def itemPath (path : String) : Except PyException String :=
  match env.resolve path with
  | .ok manifestPath => .ok manifestPath
  | .error e => .error (manifestError ("vms[" ++ toString idx ++ "] has invalid data: " ++ e ++
      "\nEach VM entry must be an object with at least a 'manifest' field pointing to a VM manifest file."))

/-- The round of `_validate_vms` for one entry. -/
def checkVm (ids : List String) : Yaml → Except PyException VMBatchItem
  | .map fields => do
    let path ← checkManifestPath idx (Fields.get? fields (.str "manifest"))
    let priority ← checkPriority env idx (Fields.get? fields (.str "priority"))
    let id ← checkId env idx ids ((Fields.get? fields (.str "id")).getD (.str ("vm_" ++ toString idx)))
    let overrides ← checkOverrides idx (Fields.get? fields (.str "overrides"))
    let enabled ← checkEnabled idx (Fields.get? fields (.str "enabled"))
    let manifestPath ← itemPath env idx path
    return { index := idx, manifestPath, priority, overrides, id, enabled }
  | _ => .error (manifestError ("vms[" ++ toString idx ++ "] must be an object"))

/-- The loop of `_validate_vms`: the items that were appended to `self.vms`, and what it raises. -/
def validateVms (entries : List Yaml) : List VMBatchItem × Except PyException Unit :=
  collect (checkVm env) VMBatchItem.id 0 [] entries

end vms

section manifest

/-- `vm.get(name, default)` of an entry. -/
def entryField (vm : Yaml) (name : String) (default : Yaml) : Yaml :=
  match vm with
  | .map fields => (Fields.get? fields (.str name)).getD default
  | _ => default

/-- `vm.get("priority", 0)`. -/
def priorityOf (vm : Yaml) : Int := (asInt? (entryField vm "priority" (.int 0))).getD 0

/-- `vms.index(vm)` of the entry at a place: the first place with an equal entry. -/
def firstIndex (entries : List Yaml) (x : Yaml × Nat) : Nat := (entries.take x.2).findIdx (equal · x.1)

/-- The entries with their places, in the order `_validate_vms` sorts them into. -/
def vmsOrder (entries : List Yaml) : List (Yaml × Nat) :=
  sortBy (fun x => toLex (priorityOf x.1, firstIndex entries x)) entries.zipIdx

/-- `_validate_batch_metadata`, where the manifest has the section. -/
def checkMetadata (env : Environment) (manifest : Fields) : Except PyException Unit :=
  match manifest.get? (.str "batch_metadata") with
  | none => .ok ()
  | some (.map metadata) => do
    match Fields.get? metadata (.str "parallel_limit") with
    | none => pure ()
    | some v =>
      if !(asInt? v).any (1 ≤ ·) then
        throw (manifestError ("batch_metadata.parallel_limit must be a positive integer (got: " ++ env.str v ++ ")"))
    match Fields.get? metadata (.str "continue_on_error") with
    | none => pure ()
    | some v => if !isBool v then throw (manifestError "batch_metadata.continue_on_error must be a boolean")
  | some _ => .error (manifestError "batch_metadata must be an object")

/-- `_validate` up to the entries: the manifest and its entries. -/
def vmList (env : Environment) : Yaml → Except PyException (Fields × List Yaml)
  | .map manifest =>
    let version := (Fields.get? manifest (.str "batch_version")).getD .null
    if !version.truthy then
      .error (manifestError "Missing required field: batch_version. Expected versions: ['1.0']")
    else if (oneOf? supportedVersions version).isNone then
      .error (manifestError ("Unsupported batch version: " ++ env.str version ++ ". Supported versions: ['1.0']"))
    else
      match Fields.get? manifest (.str "vms") with
      | none => .error (manifestError "Missing required field: vms[]. Batch Manifest requires at least one VM.")
      | some (.seq entries) => do
        checkMetadata env manifest
        return (manifest, entries)
      | some _ => .error (manifestError "Field 'vms' must be an array")
  | _ => .error (manifestError "Batch manifest must be a JSON/YAML object")

/-- `_validate`: the items that were appended to `self.vms`, and the manifest or what it raises. -/
def validate (env : Environment) (v : Yaml) : List VMBatchItem × Except PyException Fields :=
  match vmList env v with
  | .error e => ([], .error e)
  | .ok (manifest, entries) =>
    let checked := validateVms env entries
    (checked.1, do
      checked.2
      return manifest.set (.str "vms") (.seq ((vmsOrder entries).map Prod.fst)))

structure BatchLoader where
  manifest : Yaml := .map []
  vms : List VMBatchItem := []

namespace BatchLoader

/-- `load`; `content` is what the file holds, or what reading and parsing it raises. -/
def load (env : Environment) (loader : BatchLoader) (content : Except PyException Yaml) :
    Except PyException Fields × BatchLoader :=
  match content with
  | .error e => (.error e, loader)
  | .ok v =>
    let validated := validate env v
    let loader := { loader with manifest := v, vms := loader.vms ++ validated.1 }
    match validated.2 with
    | .error e => (.error e, loader)
    | .ok manifest => (.ok manifest, { loader with manifest := .map manifest })

def getVms (loader : BatchLoader) : List VMBatchItem :=
  sortBy (fun item => toLex (item.priority, item.index)) (loader.vms.filter (·.enabled))

end BatchLoader

end manifest

end loader

section loaderReuse

open Framework Framework.Checks Framework.Sorting Yaml Profiles Orchestration
open Orchestration.Manifest (ManifestLoader DiskArtifact diskList checkDisk validateDisks asInt? oneOf?)

/-- `vm.get("enabled", True)`. -/
def enabledEntry (vm : Yaml) : Bool := (entryField vm "enabled" (.bool true)).truthy

/-- The item that is made of an entry at its place. -/
def Makes (env : Environment) (idx : Nat) (vm : Yaml) (item : VMBatchItem) : Prop := ∃ ids, checkVm env idx ids vm = .ok item

/-- The batch as it is to be run: the enabled entries, each once, by priority and then by place. -/
structure Schedule (env : Environment) (entries : List Yaml) (items : List VMBatchItem) : Prop where
  exact : ∀ item, item ∈ items ↔
    item.enabled = true ∧ ∃ vm, entries[item.index]? = some vm ∧ Makes env item.index vm item
  sorted : items.Pairwise fun a b => a.priority < b.priority ∨ a.priority = b.priority ∧ a.index < b.index

/-- The enabled entries of the sorted manifest are those of the items, one by one. -/
def AgreesWithManifest (entries : List Yaml) (items : List VMBatchItem) : Prop :=
  items.map VMBatchItem.index = ((vmsOrder entries).filter fun x => enabledEntry x.1).map Prod.snd

/-- No enabled entry is equal to one that comes before an earlier enabled entry of its priority. -/
def InOrder (entries : List Yaml) : Prop :=
  ∀ j k vm vm', entries[j]? = some vm → entries[k]? = some vm' → j < k → enabledEntry vm = true → enabledEntry vm' = true →
    priorityOf vm = priorityOf vm' → firstIndex entries (vm, j) ≤ firstIndex entries (vm', k)

/-- A call of `load`, on a file that is there as it is read. -/
abbrev Call := Environment × Except PyException Yaml

/-- The loop over the entries comes to an enabled one that passes. -/
def LeavesEnabled (call : Call) : Prop :=
  ∃ v manifest entries, call.2 = .ok v ∧ vmList call.1 v = .ok (manifest, entries) ∧
    Reaches (checkVm call.1) VMBatchItem.id 0 [] entries fun idx ids vm =>
      ∃ item, checkVm call.1 idx ids vm = .ok item ∧ item.enabled = true

section entry

variable {env : Environment} {idx : Nat} {ids : List String} {vm : Yaml} {item item' : VMBatchItem}

theorem checkId_ok {v : Yaml} {id : String} (h : checkId env idx ids v = .ok id) : v = .str id := by
  cases v with
  | str s =>
    simp only [checkId] at h
    split_ifs at h
    exact congrArg Yaml.str (Except.ok.inj h)
  | _ => cases h

theorem checkPriority_ok {v : Option Yaml} {priority : Int} (h : checkPriority env idx v = .ok priority) :
    priority = (asInt? (v.getD (.int 0))).getD 0 := by
  rcases v with _ | v
  · exact (Except.ok.inj h).symm
  · simp only [checkPriority] at h
    split at h
    · rename_i found
      rw [Option.getD_some, found]
      exact (Except.ok.inj h).symm
    · cases h

theorem checkEnabled_ok {v : Option Yaml} {enabled : Bool} (h : checkEnabled idx v = .ok enabled) :
    enabled = (v.getD (.bool true)).truthy := by
  rcases v with _ | v
  · exact (Except.ok.inj h).symm
  · cases v with
    | bool b => exact (Except.ok.inj h).symm
    | _ => cases h

theorem checkVm_ok (h : checkVm env idx ids vm = .ok item) :
    item.index = idx ∧ item.priority = priorityOf vm ∧ item.enabled = enabledEntry vm := by
  cases vm with
  | map fields =>
    simp only [checkVm, bind_eq_ok] at h
    obtain ⟨path, -, priority, priorityOk, id, -, overrides, -, enabled, enabledOk, resolved, -, made⟩ := h
    obtain rfl := Except.ok.inj made
    exact ⟨rfl, checkPriority_ok priorityOk, checkEnabled_ok enabledOk⟩
  | _ => cases h

theorem checkVm_unique {ids' : List String} (h : checkVm env idx ids vm = .ok item) (h' : checkVm env idx ids' vm = .ok item') :
    item = item' := by
  cases vm with
  | map fields =>
    simp only [checkVm, bind_eq_ok] at h h'
    obtain ⟨path, pathOk, priority, priorityOk, id, idOk, overrides, overridesOk, enabled, enabledOk, resolved, resolvedOk, made⟩ := h
    obtain ⟨_, pathOk', _, priorityOk', _, idOk', _, overridesOk', _, enabledOk', _, resolvedOk', made'⟩ := h'
    obtain rfl := Except.ok.inj (pathOk.symm.trans pathOk')
    obtain rfl := Except.ok.inj (priorityOk.symm.trans priorityOk')
    obtain rfl := Yaml.str.inj ((checkId_ok idOk).symm.trans (checkId_ok idOk'))
    obtain rfl := Except.ok.inj (overridesOk.symm.trans overridesOk')
    obtain rfl := Except.ok.inj (enabledOk.symm.trans enabledOk')
    obtain rfl := Except.ok.inj (resolvedOk.symm.trans resolvedOk')
    exact Except.ok.inj (made.symm.trans made')
  | _ => cases h

end entry

section made

variable {env : Environment} {entries : List Yaml} {made : List VMBatchItem}

/-- The items of a manifest that passed, by place. -/
structure MadeOf (env : Environment) (entries : List Yaml) (made : List VMBatchItem) : Prop where
  mem : ∀ item, item ∈ made ↔ ∃ vm, entries[item.index]? = some vm ∧ Makes env item.index vm item
  placed : made.Pairwise fun a b => a.index < b.index
  all : ∀ k vm, entries[k]? = some vm → ∃ item ∈ made, item.index = k ∧ Makes env k vm item

theorem madeOf_validateVms (passed : validateVms env entries = (made, .ok ())) : MadeOf env entries made := by
  have each : Passes (collect (checkVm env) VMBatchItem.id 0 [] entries).2 → _ := forall₂_collect entries
  unfold validateVms at passed
  rw [passed] at each
  obtain ⟨length, get⟩ := List.forall₂_iff_get.mp (each (passes_ok _))
  rw [List.length_zipIdx] at length
  have at' (k : Nat) (inEntries : k < entries.length) (inMade : k < made.length) :
      made[k].index = k ∧ Makes env k entries[k] made[k] := by
    obtain ⟨ids, ok⟩ := get k (by rwa [List.length_zipIdx]) inMade
    simp only [List.get_eq_getElem, List.getElem_zipIdx, Nat.zero_add] at ok
    exact ⟨(checkVm_ok ok).1, ids, ok⟩
  have all (k : Nat) (vm : Yaml) (there : entries[k]? = some vm) : ∃ item ∈ made, item.index = k ∧ Makes env k vm item := by
    obtain ⟨inEntries, rfl⟩ := List.getElem?_eq_some_iff.mp there
    exact ⟨made[k], List.getElem_mem _, at' k inEntries (length ▸ inEntries)⟩
  refine ⟨fun item => ⟨fun mem => ?_, fun ⟨vm, there, ids, made'⟩ => ?_⟩, ?_, all⟩
  · obtain ⟨k, inMade, rfl⟩ := List.getElem_of_mem mem
    have inEntries : k < entries.length := length ▸ inMade
    obtain ⟨index, makes⟩ := at' k inEntries inMade
    refine ⟨entries[k], ?_, ?_⟩
    · rw [index]
      exact List.getElem?_eq_getElem _
    · rw [index]
      exact makes
  · obtain ⟨item', mem, index, ids', made''⟩ := all _ vm there
    rw [checkVm_unique made' made'']
    exact mem
  · refine List.pairwise_iff_getElem.mpr fun j k inJ inK less => ?_
    rw [(at' j (length ▸ inJ) inJ).1, (at' k (length ▸ inK) inK).1]
    exact less

theorem schedule_sortBy (h : MadeOf env entries made) :
    Schedule env entries (sortBy (fun item => toLex (item.priority, item.index)) (made.filter (·.enabled))) where
  exact item := by
    rw [mem_sortBy, List.mem_filter, h.mem, and_comm]
  sorted := by
    refine (sortBy_stable (h.placed.sublist List.filter_sublist)).imp fun {a b} order => ?_
    rcases order with less | ⟨same, less⟩
    · exact Prod.Lex.toLex_lt_toLex.mp less
    · exact .inr ⟨congrArg (fun p => (ofLex p).1) same, less⟩

theorem Schedule.unique {items items' : List VMBatchItem} (h : Schedule env entries items) (h' : Schedule env entries items') :
    items = items' := by
  refine eq_of_pairwise ?_ h.sorted h'.sorted fun item => (h.exact item).trans (h'.exact item).symm
  intro a b ab ba
  omega

end made

section order

variable {env : Environment} {entries : List Yaml} {items : List VMBatchItem}

def priorityAt (entries : List Yaml) (k : Nat) : Int := (entries[k]?.map priorityOf).getD 0

def firstAt (entries : List Yaml) (k : Nat) : Nat := (entries[k]?.map fun vm => firstIndex entries (vm, k)).getD 0

/-- The order of the items, by place. -/
def ByPlace (entries : List Yaml) (j k : Nat) : Prop :=
  priorityAt entries j < priorityAt entries k ∨ priorityAt entries j = priorityAt entries k ∧ j < k

/-- The order of the sorted manifest, by place. -/
def ByFirst (entries : List Yaml) (j k : Nat) : Prop :=
  priorityAt entries j < priorityAt entries k ∨ priorityAt entries j = priorityAt entries k ∧
    (firstAt entries j < firstAt entries k ∨ firstAt entries j = firstAt entries k ∧ j < k)

theorem priorityAt_of_some {k : Nat} {vm : Yaml} (there : entries[k]? = some vm) : priorityAt entries k = priorityOf vm := by
  rw [priorityAt, there]
  rfl

theorem firstAt_of_some {k : Nat} {vm : Yaml} (there : entries[k]? = some vm) :
    firstAt entries k = firstIndex entries (vm, k) := by
  rw [firstAt, there]
  rfl

theorem Schedule.places (h : Schedule env entries items) : (items.map VMBatchItem.index).Pairwise (ByPlace entries) := by
  refine List.pairwise_map.mpr (h.sorted.imp_of_mem fun {a b} ha hb order => ?_)
  obtain ⟨-, vm, there, ids, made⟩ := (h.exact a).mp ha
  obtain ⟨-, vm', there', ids', made'⟩ := (h.exact b).mp hb
  rw [ByPlace, priorityAt_of_some there, priorityAt_of_some there', ← (checkVm_ok made).2.1, ← (checkVm_ok made').2.1]
  exact order

theorem mem_vmsOrder {x : Yaml × Nat} : x ∈ vmsOrder entries ↔ entries[x.2]? = some x.1 :=
  mem_sortBy.trans List.mem_zipIdx_iff_getElem?

theorem vmsOrder_places (entries : List Yaml) (keep : Yaml × Nat → Bool) :
    (((vmsOrder entries).filter keep).map Prod.snd).Pairwise (ByFirst entries) := by
  have placed : entries.zipIdx.Pairwise fun x y => x.2 < y.2 := by
    refine List.pairwise_iff_getElem.mpr fun j k _ _ less => ?_
    rw [List.getElem_zipIdx, List.getElem_zipIdx]
    exact Nat.add_lt_add_left less 0
  have sorted : (vmsOrder entries).Pairwise _ := sortBy_stable placed
  refine List.pairwise_map.mpr ((sorted.sublist List.filter_sublist).imp_of_mem fun {x y} hx hy order => ?_)
  have hx := mem_vmsOrder.mp (List.mem_filter.mp hx).1
  have hy := mem_vmsOrder.mp (List.mem_filter.mp hy).1
  rw [ByFirst, priorityAt_of_some hx, priorityAt_of_some hy, firstAt_of_some hx, firstAt_of_some hy]
  rcases order with less | ⟨same, less⟩
  · rcases Prod.Lex.toLex_lt_toLex.mp less with first | ⟨equal, second⟩
    · exact .inl first
    · exact .inr ⟨equal, .inl second⟩
  · obtain ⟨equal, first⟩ := Prod.mk.inj (toLex.injective same)
    exact .inr ⟨equal, .inr ⟨first, less⟩⟩

/-- The schedule agrees with the sorted manifest just where equal entries are in order. -/
theorem Schedule.agrees_iff (passed : ∃ made, MadeOf env entries made) (h : Schedule env entries items) :
    AgreesWithManifest entries items ↔ InOrder entries := by
  have enabled {k : Nat} {vm : Yaml} {item : VMBatchItem} (made : Makes env k vm item) : item.enabled = enabledEntry vm := by
    obtain ⟨ids, ok⟩ := made
    exact (checkVm_ok ok).2.2
  have inItems (k : Nat) : k ∈ items.map VMBatchItem.index ↔ ∃ vm, entries[k]? = some vm ∧ enabledEntry vm = true := by
    rw [List.mem_map]
    constructor
    · rintro ⟨item, mem, rfl⟩
      obtain ⟨on, vm, there, made⟩ := (h.exact item).mp mem
      exact ⟨vm, there, (enabled made).symm.trans on⟩
    · rintro ⟨vm, there, on⟩
      obtain ⟨made, madeOf⟩ := passed
      obtain ⟨item, -, rfl, made⟩ := madeOf.all k vm there
      exact ⟨item, (h.exact item).mpr ⟨(enabled made).trans on, vm, there, made⟩, rfl⟩
  have inManifest (k : Nat) : k ∈ ((vmsOrder entries).filter fun x => enabledEntry x.1).map Prod.snd ↔
      ∃ vm, entries[k]? = some vm ∧ enabledEntry vm = true := by
    rw [List.mem_map]
    constructor
    · rintro ⟨x, mem, rfl⟩
      obtain ⟨mem, on⟩ := List.mem_filter.mp mem
      exact ⟨x.1, mem_vmsOrder.mp mem, on⟩
    · rintro ⟨vm, there, on⟩
      exact ⟨(vm, k), List.mem_filter.mpr ⟨mem_vmsOrder.mpr there, on⟩, rfl⟩
  rw [AgreesWithManifest, eq_iff_agree (R := ByPlace entries) (S := ByFirst entries) ?_ ?_ ?_ h.places
    (vmsOrder_places entries _) fun k => (inItems k).trans (inManifest k).symm]
  · constructor
    · intro agree j k vm vm' there there' less on on' same
      have order := agree j ((inItems j).mpr ⟨vm, there, on⟩) k ((inItems k).mpr ⟨vm', there', on'⟩)
      rw [ByPlace, ByFirst, priorityAt_of_some there, priorityAt_of_some there', firstAt_of_some there,
        firstAt_of_some there'] at order
      have := order (.inr ⟨same, less⟩)
      omega
    · intro inOrder j hj k hk place
      obtain ⟨vm, there, on⟩ := (inItems j).mp hj
      obtain ⟨vm', there', on'⟩ := (inItems k).mp hk
      have first := inOrder j k vm vm' there there'
      rw [ByPlace, priorityAt_of_some there, priorityAt_of_some there'] at place
      rw [ByFirst, priorityAt_of_some there, priorityAt_of_some there', firstAt_of_some there, firstAt_of_some there']
      rcases place with less | ⟨same, less⟩
      · exact .inl less
      · have := first less on on' same
        omega
  · intro j k
    simp only [ByPlace]
    omega
  · intro j k
    simp only [ByFirst]
    omega
  · intro j _ k _
    simp only [ByPlace]
    omega

end order

section calls

variable {env : Environment} {v : Yaml} {manifest : Fields}

/-- The items that a call appends. -/
def appended (call : Call) : List VMBatchItem :=
  match call.2 with
  | .ok v => (validate call.1 v).1
  | .error _ => []

/-- The loader after a sequence of calls, whether they return or raise. -/
def BatchLoader.loads (loader : BatchLoader) (calls : List Call) : BatchLoader :=
  calls.foldl (fun loader call => (loader.load call.1 call.2).2) loader

theorem load_vms (loader : BatchLoader) (call : Call) :
    (loader.load call.1 call.2).2.vms = loader.vms ++ appended call := by
  obtain ⟨env, content⟩ := call
  cases content with
  | error e => exact (List.append_nil _).symm
  | ok v =>
    simp only [BatchLoader.load, appended]
    split <;> rfl

theorem loads_vms (loader : BatchLoader) (calls : List Call) :
    (loader.loads calls).vms = loader.vms ++ calls.flatMap appended := by
  induction calls generalizing loader with
  | nil => exact (List.append_nil _).symm
  | cons call calls ih =>
    show ((loader.load call.1 call.2).2.loads calls).vms = _
    rw [ih, load_vms, List.append_assoc, List.flatMap_cons]

theorem leavesEnabled_iff (call : Call) : LeavesEnabled call ↔ ∃ item ∈ appended call, item.enabled = true := by
  obtain ⟨env, content⟩ := call
  constructor
  · rintro ⟨v, manifest, entries, rfl, listed, before, vm, rest, split, passed, item, ok, on⟩
    refine ⟨item, ?_, on⟩
    simp only [appended, validate, listed]
    exact (mem_collect entries).mpr ⟨before, vm, rest, split, passed, ok⟩
  · rintro ⟨item, mem, on⟩
    cases content with
    | error e => cases mem
    | ok v =>
      cases listed : vmList env v with
      | error e =>
        simp only [appended, validate, listed] at mem
        cases mem
      | ok result =>
        obtain ⟨manifest, entries⟩ := result
        simp only [appended, validate, listed] at mem
        obtain ⟨before, vm, rest, split, passed, ok⟩ := (mem_collect entries).mp mem
        exact ⟨v, manifest, entries, rfl, listed, before, vm, rest, split, passed, item, ok, on⟩

theorem load_ok {loader : BatchLoader} (returned : (loader.load env (.ok v)).1 = .ok manifest) :
    ∃ given entries made, vmList env v = .ok (given, entries) ∧ validateVms env entries = (made, .ok ()) ∧
      appended (env, .ok v) = made ∧ manifest = given.set (.str "vms") (.seq ((vmsOrder entries).map Prod.fst)) := by
  unfold BatchLoader.load at returned
  dsimp only at returned
  split at returned
  · cases returned
  · rename_i checked
    obtain rfl := Except.ok.inj returned
    unfold validate at checked
    split at checked
    · cases checked
    · rename_i given entries listed
      obtain ⟨_, passed, same⟩ := bind_eq_ok.mp checked
      obtain rfl := Except.ok.inj same
      refine ⟨given, entries, (validateVms env entries).1, listed, Prod.ext rfl passed, ?_, rfl⟩
      simp only [appended, validate, listed]

end calls

section disks

/-- A call of `ManifestLoader.load`, on a file that is there as it is read. -/
abbrev DiskCall := Manifest.Environment × Except PyException Yaml

/-- The disks of a manifest in its order, each as it was made of its entry. -/
def AreDisks (env : Manifest.Environment) (disks : List Yaml) (artifacts : List DiskArtifact) : Prop :=
  List.Forall₂ (fun x artifact => ∃ ids, checkDisk env x.2 ids x.1 = .ok artifact) disks.zipIdx artifacts

/-- The first disk of the manifest passes its checks. -/
def LeavesDisk (call : DiskCall) : Prop :=
  ∃ v manifest disk rest, call.2 = .ok v ∧ diskList call.1 v = .ok (manifest, disk :: rest) ∧
    Passes (checkDisk call.1 0 [] disk)

def appendedDisks (call : DiskCall) : List DiskArtifact :=
  match call.2 with
  | .ok v => (Manifest.validate call.1 v).1
  | .error _ => []

/-- The loader after a sequence of calls, whether they return or raise. -/
def loadsDisks (loader : ManifestLoader) (calls : List DiskCall) : ManifestLoader :=
  calls.foldl (fun loader call => (loader.load call.1 call.2).2) loader

variable {env : Manifest.Environment} {v : Yaml} {manifest : Fields}

theorem applyProfile_disks (loader : ManifestLoader) :
    (Manifest.applyProfile env manifest loader).2.disks = loader.disks := by
  simp only [Manifest.applyProfile]
  split
  · rfl
  · split <;> rfl

theorem load_disks (loader : ManifestLoader) (call : DiskCall) :
    (loader.load call.1 call.2).2.disks = loader.disks ++ appendedDisks call := by
  obtain ⟨env, content⟩ := call
  cases content with
  | error e => exact (List.append_nil _).symm
  | ok v =>
    simp only [ManifestLoader.load, appendedDisks]
    split
    · rfl
    · rw [applyProfile_disks]

theorem loads_disks (loader : ManifestLoader) (calls : List DiskCall) :
    (loadsDisks loader calls).disks = loader.disks ++ calls.flatMap appendedDisks := by
  induction calls generalizing loader with
  | nil => exact (List.append_nil _).symm
  | cons call calls ih =>
    show (loadsDisks (loader.load call.1 call.2).2 calls).disks = _
    rw [ih, load_disks, List.append_assoc, List.flatMap_cons]

theorem leavesDisk_iff (call : DiskCall) : LeavesDisk call ↔ appendedDisks call ≠ [] := by
  obtain ⟨env, content⟩ := call
  constructor
  · rintro ⟨v, manifest, disk, rest, rfl, listed, artifact, ok⟩
    simp only [appendedDisks, Manifest.validate, listed, validateDisks]
    rw [collect_cons_ok ok]
    exact List.cons_ne_nil _ _
  · intro some
    cases content with
    | error e => exact absurd rfl some
    | ok v =>
      cases listed : diskList env v with
      | error e => simp [appendedDisks, Manifest.validate, listed] at some
      | ok result =>
        obtain ⟨manifest, disks⟩ := result
        simp only [appendedDisks, Manifest.validate, listed, validateDisks] at some
        cases disks with
        | nil => exact absurd rfl some
        | cons disk rest =>
          refine ⟨v, manifest, disk, rest, rfl, listed, ?_⟩
          cases first : checkDisk env 0 [] disk with
          | error e =>
            rw [collect_cons_error first] at some
            exact absurd rfl some
          | ok artifact => exact passes_ok artifact

theorem load_disks_ok {loader : ManifestLoader} (returned : (loader.load env (.ok v)).1 = .ok manifest) :
    ∃ given disks, diskList env v = .ok (given, disks) ∧ AreDisks env disks (appendedDisks (env, .ok v)) := by
  unfold ManifestLoader.load at returned
  dsimp only at returned
  split at returned
  · cases returned
  · rename_i checked
    unfold Manifest.validate at checked
    split at checked
    · cases checked
    · rename_i given disks listed
      obtain ⟨_, passed, -⟩ := bind_eq_ok.mp checked
      refine ⟨given, disks, listed, ?_⟩
      simp only [appendedDisks, Manifest.validate, listed]
      exact forall₂_collect disks ⟨_, passed⟩

end disks

section schedule

variable {env : Environment} {v : Yaml} {manifest : Fields}

theorem not_leavesEnabled_iff (calls : List Call) :
    (∀ call ∈ calls, ¬ LeavesEnabled call) ↔ (calls.flatMap appended).filter (·.enabled) = [] := by
  simp only [leavesEnabled_iff, List.filter_eq_nil_iff, List.mem_flatMap]
  constructor
  · rintro none item ⟨call, mem, there⟩ on
    exact none call mem ⟨item, there, on⟩
  · rintro none call mem ⟨item, there, on⟩
    exact none item ⟨call, mem, there⟩ on

/-- What is left of earlier calls is in no schedule. -/
theorem schedule_iff {calls : List Call} (returned : ((({} : BatchLoader).loads calls).load env (.ok v)).1 = .ok manifest) :
    ∃ given entries made, vmList env v = .ok (given, entries) ∧ MadeOf env entries made ∧
      manifest.get? (.str "vms") = some (.seq ((vmsOrder entries).map Prod.fst)) ∧
      (Schedule env entries ((({} : BatchLoader).loads calls).load env (.ok v)).2.getVms ↔
        ∀ call ∈ calls, ¬ LeavesEnabled call) := by
  obtain ⟨given, entries, made, listed, passed, same, rfl⟩ := load_ok returned
  have madeOf := madeOf_validateVms passed
  refine ⟨given, entries, made, listed, madeOf, by rw [Fields.get?_set, if_pos rfl], ?_⟩
  have right := schedule_sortBy madeOf
  have vms := load_vms (({} : BatchLoader).loads calls) (env, .ok v)
  rw [loads_vms, same, List.nil_append] at vms
  rw [not_leavesEnabled_iff, BatchLoader.getVms, vms, List.filter_append]
  constructor
  · intro h
    have length := congrArg List.length (h.unique right)
    rw [sortBy_perm.length_eq, sortBy_perm.length_eq, List.length_append] at length
    exact List.eq_nil_of_length_eq_zero (by omega)
  · intro none
    rw [none, List.nil_append]
    exact right

end schedule

/-- After a call that returns, `getVms` is the schedule of the manifest and goes along with its order
just where no earlier call left an enabled item and equal entries are in order. `getDisks` is the
disks of the manifest just where no earlier call left a disk. -/
theorem loads_iff (v : Yaml) (manifest : Fields) :
    (∀ (calls : List Call) (env : Environment),
      (((({} : BatchLoader).loads calls).load env (.ok v)).1 = .ok manifest →
        ∃ given entries, vmList env v = .ok (given, entries) ∧
          manifest.get? (.str "vms") = some (.seq ((vmsOrder entries).map Prod.fst)) ∧
          (Schedule env entries ((({} : BatchLoader).loads calls).load env (.ok v)).2.getVms ∧
              AgreesWithManifest entries ((({} : BatchLoader).loads calls).load env (.ok v)).2.getVms ↔
            (∀ call ∈ calls, ¬ LeavesEnabled call) ∧ InOrder entries))) ∧
    (∀ (calls : List DiskCall) (env : Manifest.Environment),
      ((loadsDisks {} calls).load env (.ok v)).1 = .ok manifest →
        ∃ given disks, diskList env v = .ok (given, disks) ∧
          (AreDisks env disks ((loadsDisks {} calls).load env (.ok v)).2.getDisks ↔ ∀ call ∈ calls, ¬ LeavesDisk call)) := by
  constructor
  · intro calls env returned
    obtain ⟨given, entries, made, listed, madeOf, vms, schedule⟩ := schedule_iff returned
    refine ⟨given, entries, listed, vms, ?_⟩
    rw [← schedule]
    constructor
    · exact fun ⟨h, agrees⟩ => ⟨h, (h.agrees_iff ⟨made, madeOf⟩).mp agrees⟩
    · exact fun ⟨h, inOrder⟩ => ⟨h, (h.agrees_iff ⟨made, madeOf⟩).mpr inOrder⟩
  · intro calls env returned
    obtain ⟨given, disks, listed, right⟩ := load_disks_ok returned
    refine ⟨given, disks, listed, ?_⟩
    have all := load_disks (loadsDisks {} calls) (env, .ok v)
    rw [loads_disks, List.nil_append] at all
    have clean : (∀ call ∈ calls, ¬ LeavesDisk call) ↔ calls.flatMap appendedDisks = [] := by
      simp only [leavesDisk_iff, not_not, List.flatMap_eq_nil_iff]
    rw [clean, ManifestLoader.getDisks, all]
    constructor
    · intro h
      have length := h.length_eq.symm.trans right.length_eq
      rw [List.length_append] at length
      exact List.eq_nil_of_length_eq_zero (by omega)
    · intro none
      rw [none, List.nil_append]
      exact right

/-- Every path resolves. -/
def bench : Environment where
  str _ := ""
  repr _ := ""
  resolve := .ok

def entry (path : String) : Yaml := .map [(.str "manifest", .str path)]

def batch (paths : List String) : Yaml :=
  .map [(.str "batch_version", .str "1.0"), (.str "vms", .seq (paths.map entry))]

def missing : PyException := { typeName := "FileNotFoundError", message := "", isFatal := false }

theorem loads_iff_missing : ∃ entries,
    Schedule bench entries ((({} : BatchLoader).loads [(bench, .error missing)]).load bench (.ok (batch ["a"]))).2.getVms ∧
      AgreesWithManifest entries
        ((({} : BatchLoader).loads [(bench, .error missing)]).load bench (.ok (batch ["a"]))).2.getVms := by
  have returned : ((({} : BatchLoader).loads [(bench, .error missing)]).load bench (.ok (batch ["a"]))).1 =
      .ok ([(.str "batch_version", .str "1.0"), (.str "vms", .seq ((vmsOrder [entry "a"]).map Prod.fst))]) := by rfl
  obtain ⟨given, entries, listed, -, right⟩ :=
    (loads_iff (batch ["a"]) _).1 [(bench, .error missing)] bench returned
  refine ⟨entries, right.mpr ⟨?_, ?_⟩⟩
  · intro call mem
    obtain rfl := List.mem_singleton.mp mem
    rintro ⟨v, manifest, entries, read, -⟩
    cases read
  · obtain rfl : [entry "a"] = entries := (Prod.mk.inj (Except.ok.inj listed)).2
    intro j k vm vm' there there' less
    have := (List.getElem?_eq_some_iff.mp there').1
    simp at this
    omega

/-- A manifest that is loaded twice is in `getVms` twice, and so are its disks in `getDisks`. Where
an entry is there twice, the sorted manifest has the second right after the first. -/
theorem not_schedule_twice :
    ¬ Schedule bench [entry "a"]
        ((({} : BatchLoader).loads [(bench, .ok (batch ["a"]))]).load bench (.ok (batch ["a"]))).2.getVms ∧
      ¬ AgreesWithManifest [entry "a", entry "b", entry "a"]
        ((({} : BatchLoader).loads []).load bench (.ok (batch ["a", "b", "a"]))).2.getVms ∧
      ¬ AreDisks Manifest.bench [.map (Manifest.bootDisk (.str "sda"))]
        ((loadsDisks {} [(Manifest.bench, .ok (.map (Manifest.oneDisk (.str "sda"))))]).load Manifest.bench
          (.ok (.map (Manifest.oneDisk (.str "sda"))))).2.getDisks := by
  refine ⟨?_, ?_, ?_⟩
  · have returned : ((({} : BatchLoader).loads [(bench, .ok (batch ["a"]))]).load bench (.ok (batch ["a"]))).1 =
        .ok ([(.str "batch_version", .str "1.0"), (.str "vms", .seq ((vmsOrder [entry "a"]).map Prod.fst))]) := by rfl
    obtain ⟨given, entries, made, listed, -, -, schedule⟩ := schedule_iff returned
    obtain rfl : [entry "a"] = entries := (Prod.mk.inj (Except.ok.inj listed)).2
    rw [schedule]
    intro none
    refine none _ List.mem_cons_self ((leavesEnabled_iff _).mpr ⟨⟨0, "a", 0, .map [], "vm_0", true⟩, ?_, rfl⟩)
    have once : appended (bench, .ok (batch ["a"])) = [⟨0, "a", 0, .map [], "vm_0", true⟩] := by rfl
    rw [once]
    exact List.mem_cons_self
  · have returned : ((({} : BatchLoader).loads []).load bench (.ok (batch ["a", "b", "a"]))).1 =
        .ok ([(.str "batch_version", .str "1.0"),
          (.str "vms", .seq ((vmsOrder [entry "a", entry "b", entry "a"]).map Prod.fst))]) := by rfl
    obtain ⟨given, entries, made, listed, madeOf, -, schedule⟩ := schedule_iff returned
    obtain rfl : [entry "a", entry "b", entry "a"] = entries := (Prod.mk.inj (Except.ok.inj listed)).2
    rw [(schedule.mpr nofun).agrees_iff ⟨made, madeOf⟩]
    intro inOrder
    have later := inOrder 1 2 (entry "b") (entry "a") rfl rfl (by decide) rfl rfl rfl
    have first : firstIndex [entry "a", entry "b", entry "a"] (entry "a", 2) = 0 := by rfl
    have second : firstIndex [entry "a", entry "b", entry "a"] (entry "b", 1) = 1 := by rfl
    omega
  · intro disks
    have twice := disks.length_eq
    rw [ManifestLoader.getDisks, load_disks _ (Manifest.bench, .ok (.map (Manifest.oneDisk (.str "sda")))), loads_disks] at twice
    have once : appendedDisks (Manifest.bench, .ok (.map (Manifest.oneDisk (.str "sda")))) =
        [⟨"sda", "raw", 1, "a", none, 999, .str "sda", "unknown"⟩] := by rfl
    simp [once] at twice

end loaderReuse

end H2kvm.Batch.Loader
