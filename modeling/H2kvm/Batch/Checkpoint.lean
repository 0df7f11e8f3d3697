import Mathlib.Data.List.Sort
import Mathlib.Data.Rat.Defs
import H2kvm.Framework.Data
import H2kvm.Framework.FileOps
import H2kvm.Framework.Yaml
import H2kvm.Profiles.Loader

namespace H2kvm.Batch

open Framework

/-- One VM of a batch manifest. -/
structure VMBatchItem where
  index : Nat
  manifestPath : String
  priority : Int := 0
  overrides : List (String × Json) := []
  id : String
  enabled : Bool := true
  deriving DecidableEq

/-- A manifest that passed `_validate`: the items it made and the settings `run` reads. -/
structure BatchManifest where
  batchId : String := "unnamed_batch"
  parallelLimit : Nat := 4
  continueOnError : Bool := true
  vms : List VMBatchItem
  limit_pos : 1 ≤ parallelLimit := by decide
  ids_distinct : (vms.map VMBatchItem.id).Nodup

/-- The key `(priority, index)` of `get_vms`. -/
def VMBatchItem.before (a b : VMBatchItem) : Prop :=
  a.priority < b.priority ∨ a.priority = b.priority ∧ a.index ≤ b.index

instance : DecidableRel VMBatchItem.before := fun _ _ => inferInstanceAs (Decidable (_ ∨ _))

/-- `BatchLoader.get_vms`. -/
def getVms (vms : List VMBatchItem) : List VMBatchItem :=
  (vms.filter VMBatchItem.enabled).insertionSort VMBatchItem.before

/-- Result of a single VM conversion in batch mode. -/
structure VMConversionResult where
  vmItem : VMBatchItem
  success : Bool
  duration : ℚ
  error : Option String := none
  report : List (String × Json) := []
  deriving DecidableEq

def VMConversionResult.vmId (r : VMConversionResult) : String := r.vmItem.id

/-- What the parts of `_process_single_vm` do: tracking the start, converting the disk with
its checks before and its tracking after, and tracking a failure. -/
structure Conversion where
  tracked : Except PyException Unit
  converted : Except PyException (List (String × Json))
  failureTracked : Except PyException Unit
  duration : ℚ

/-- How a call of `_process_single_vm` ends; `aborted` is an exception that is no `Exception`. -/
inductive Outcome where
  | returned (result : VMConversionResult)
  | raised (message : String)
  | aborted
  deriving DecidableEq

def Outcome.ofException (e : PyException) : Outcome := if e.isFatal then .aborted else .raised e.message

/-- `_process_single_vm`. -/
def processSingleVm (vm : VMBatchItem) (c : Conversion) : Outcome :=
  match c.tracked with
  | .error e => .ofException e
  | .ok () =>
    match c.converted with
    | .ok report => .returned { vmItem := vm, success := true, duration := c.duration, report }
    | .error e =>
      if e.isFatal then .aborted
      else
        match c.failureTracked with
        | .error e' => .ofException e'
        | .ok () =>
          .returned { vmItem := vm, success := false, duration := c.duration
                      error := some (e.typeName ++ ": " ++ e.message) }

/-- The checkpoint file, less its time stamps. -/
structure Checkpoint where
  batchId : String
  completedVms : List String
  failedVms : List (String × Option String)
  totalVms : Nat
  resumeFrom : Nat
  deriving DecidableEq

namespace Checkpoint

/-- What `_save_checkpoint_state` hands to `save_checkpoint`. -/
def ofResults (batchId : String) (totalVms : Nat) (results : List VMConversionResult) : Checkpoint :=
  let completedVms := (results.filter fun r => r.success).map VMConversionResult.vmId
  let failedVms := (results.filter fun r => !r.success).map fun r => (r.vmId, r.error)
  ⟨batchId, completedVms, failedVms, totalVms, completedVms.length + failedVms.length⟩

/-- The ids in `completed_vms` and `failed_vms`. -/
def ids (cp : Checkpoint) : List String := cp.completedVms ++ cp.failedVms.map Prod.fst

/-- `should_skip_vm`. -/
def shouldSkipVm (cp : Checkpoint) (vmId : String) : Bool := vmId ∈ cp.completedVms || vmId ∈ cp.failedVms.map Prod.fst

/-- `_restore_previous_results`: placeholders for the VMs a checkpoint names. -/
def restoredResults (cp : Checkpoint) : List VMConversionResult :=
  let item (vmId : String) : VMBatchItem := { index := 0, manifestPath := "unknown", id := vmId }
  (cp.completedVms.map fun vmId => { vmItem := item vmId, success := true, duration := 0 }) ++
    cp.failedVms.map fun failed =>
      { vmItem := item failed.1, success := false, duration := 0, error := failed.2 }

theorem shouldSkipVm_iff (cp : Checkpoint) (vmId : String) : cp.shouldSkipVm vmId = true ↔ vmId ∈ cp.ids := by
  simp [shouldSkipVm, ids]

@[simp] theorem mem_ids_ofResults (batchId : String) (totalVms : Nat) (results : List VMConversionResult)
    (vmId : String) :
    vmId ∈ (ofResults batchId totalVms results).ids ↔ vmId ∈ results.map VMConversionResult.vmId := by
  simp only [ids, ofResults, List.map_map, List.mem_append, List.mem_map, List.mem_filter, Function.comp_apply]
  constructor
  · intro h
    rcases h with ⟨r, hr, he⟩ | ⟨r, hr, he⟩
    · exact ⟨r, hr.1, he⟩
    · exact ⟨r, hr.1, he⟩
  · intro h
    obtain ⟨r, hr, he⟩ := h
    cases hs : r.success with
    | true => exact .inl ⟨r, ⟨hr, hs⟩, he⟩
    | false => exact .inr ⟨r, ⟨hr, by simp [hs]⟩, he⟩

@[simp] theorem restoredResults_ids (cp : Checkpoint) :
    cp.restoredResults.map VMConversionResult.vmId = cp.ids := by
  simp [restoredResults, ids, VMConversionResult.vmId, Function.comp_def]

end Checkpoint

end H2kvm.Batch

namespace H2kvm.Batch.CheckpointManager

open Framework Framework.Purge Yaml Profiles

/-- What reading a file and parsing it gives. -/
abbrev Content := Except PyException Yaml

/-- The files by path. -/
abbrev Files := String → Option Content

def checkpointError (msg : String) : PyException :=
  { typeName := "CheckpointError", isFatal := false
    message := if oneLine msg = "" then "CheckpointError" else oneLine msg }

def typeError (msg : String) : PyException := { typeName := "TypeError", isFatal := false, message := msg }

/-- A character that `_sanitize_filename` keeps. -/
def isSafe (c : Char) : Bool := c.isAlphanum || c = '.' || c = '_' || c = '-'

/-- `_sanitize_filename`. -/
def sanitizeFilename (name : String) : List Char := (name.toList.map fun c => if isSafe c then c else '-').take 100

section files

variable (checkpointDir : String) (batchId : String)

/-- `checkpoint_file`. -/
def checkpointFile : String :=
  checkpointDir ++ "/" ++ String.ofList ("checkpoint-".toList ++ sanitizeFilename batchId ++ ".json".toList)

/-- `checkpoint_file.with_suffix(".json.tmp")`. -/
def tmpFile : String :=
  checkpointDir ++ "/" ++ String.ofList ("checkpoint-".toList ++ sanitizeFilename batchId ++ ".json.tmp".toList)

end files

section reading

/-- `field in data`. -/
def contains (data : Yaml) (field : String) : Except PyException Bool :=
  match data with
  | .map fields => .ok (Fields.get? fields (.str field)).isSome
  | .seq items | .set items => .ok (items.any (sameKey · (.str field)))
  | .str text => .ok (decide (field.toList <:+: text.toList))
  | v => .error (typeError ("argument of type '" ++ v.typeName ++ "' is not iterable"))

/-- The items of `for item in v`. -/
def iterate (v : Yaml) : Except PyException (List Yaml) :=
  match v with
  | .seq items | .set items => .ok items
  | .str text => .ok (text.toList.map fun c => .str (String.singleton c))
  | .map fields => .ok (fields.map Prod.fst)
  | v => .error (typeError ("'" ++ v.typeName ++ "' object is not iterable"))

/-- A value that a set takes as a member. -/
def hashable (v : Yaml) : Except PyException Yaml := if v.hashableText.isSome then .ok v else .error (unhashable v)

def requiredFields : List String := ["batch_id", "timestamp", "completed_vms"]

def checkField (data : Yaml) (field : String) : Except PyException Unit := do
  if !(← contains data field) then throw (checkpointError ("Invalid checkpoint: missing '" ++ field ++ "' field"))

/-- The checks of `load_checkpoint`. A `batch_id` that is not the manager's is only logged. -/
def checkFields (data : Yaml) : Except PyException Fields := do
  requiredFields.forM (checkField data)
  match data with
  | .map fields =>
    match (Fields.get? fields (.str "completed_vms")).getD (.seq []) with
    | .seq _ | .set _ | .str _ | .map _ => return fields
    | v => throw (typeError ("object of type '" ++ v.typeName ++ "' has no len()"))
  | .str _ => throw (typeError "string indices must be integers, not 'str'")
  | v => throw (typeError (v.typeName ++ " indices must be integers or slices, not str"))

/-- `load_checkpoint`, on what is at the path of the checkpoint. -/
def loadCheckpoint (path : String) (file : Option Content) : Except PyException Fields :=
  match file with
  | none => .error (checkpointError ("No checkpoint found: " ++ path))
  | some content =>
    match content >>= checkFields with
    | .ok fields => .ok fields
    | .error e =>
      .error (if e.isFatal then e
        else if e.typeName = "JSONDecodeError" then checkpointError ("Invalid checkpoint JSON: " ++ e.message)
        else checkpointError ("Failed to load checkpoint: " ++ e.message))

/-- `try: ... except CheckpointError: return set()` around what is read from the checkpoint. -/
def fromCheckpoint (path : String) (file : Option Content) (ids : Fields → Except PyException (List Yaml)) :
    Except PyException (List Yaml) :=
  if file.isNone then .ok []
  else
    match loadCheckpoint path file >>= ids with
    | .ok found => .ok found
    | .error e => if e.typeName = "CheckpointError" then .ok [] else .error e

def getCompletedVmIds (path : String) (file : Option Content) : Except PyException (List Yaml) :=
  fromCheckpoint path file fun checkpoint => do
    (← iterate ((checkpoint.get? (.str "completed_vms")).getD (.seq []))).mapM hashable

/-- `vm.get("vm_id")`. -/
def vmId (vm : Yaml) : Except PyException Yaml :=
  match vm with
  | .map fields => .ok ((Fields.get? fields (.str "vm_id")).getD .null)
  | v => .error (noAttribute v "get")

/-- The id of a failed VM, where its record names one. -/
def failedId (vm : Yaml) : Except PyException (Option Yaml) := do
  if ← contains vm "vm_id" then return some (← hashable (← vmId vm)) else return none

def getFailedVmIds (path : String) (file : Option Content) : Except PyException (List Yaml) :=
  fromCheckpoint path file fun checkpoint => do
    return (← (← iterate ((checkpoint.get? (.str "failed_vms")).getD (.seq []))).mapM failedId).filterMap id

def shouldSkipVm (path : String) (file : Option Content) (vm : String) : Except PyException Bool := do
  let completed ← getCompletedVmIds path file
  let failed ← getFailedVmIds path file
  return completed.any (sameKey · (.str vm)) || failed.any (sameKey · (.str vm))

end reading

/-- What a call of `save_checkpoint` is given, with the time it reads. -/
structure State where
  completedVms : List String
  failedVms : List Fields := []
  totalVms : Int := 0
  metadata : Fields := []
  timestamp : Yaml
  timestampIso : String

def checkpointData (batchId : String) (state : State) : Yaml :=
  .map [(.str "batch_id", .str batchId), (.str "timestamp", state.timestamp), (.str "timestamp_iso", .str state.timestampIso),
    (.str "completed_vms", .seq (state.completedVms.map .str)), (.str "failed_vms", .seq (state.failedVms.map .map)),
    (.str "total_vms", .int state.totalVms),
    (.str "resume_from", .int (state.completedVms.length + state.failedVms.length)), (.str "metadata", .map state.metadata)]

/-- A save that raises, with what it leaves of the temporary file. -/
structure Fault where
  raised : PyException
  tmp : Option Content

/-- A call of a manager. `removed` says whether the file could be removed. -/
inductive Op where
  | saveCheckpoint (state : State) (fault : Option Fault)
  | loadCheckpoint
  | hasCheckpoint
  | getCompletedVmIds
  | getFailedVmIds
  | shouldSkipVm (vmId : String)
  | cleanup (removed : Bool)

/-- What a call returns. -/
inductive Reading where
  | done (result : Except PyException Unit)
  | loaded (result : Except PyException Fields)
  | exists (found : Bool)
  | ids (result : Except PyException (List Yaml))
  | skip (result : Except PyException Bool)

/-- A call with the batch id of the manager it is made on. -/
abbrev Call := String × Op

variable (checkpointDir : String)

def step (files : Files) : Call → Files × Reading
  | (batchId, op) =>
    let path := checkpointFile checkpointDir batchId
    let tmp := tmpFile checkpointDir batchId
    match op with
    | .saveCheckpoint state none =>
      (Function.update (Function.update files tmp none) path (some (.ok (checkpointData batchId state))), .done (.ok ()))
    | .saveCheckpoint _ (some fault) =>
      (Function.update files tmp fault.tmp,
        .done (.error (if fault.raised.isFatal then fault.raised
          else checkpointError ("Failed to save checkpoint: " ++ fault.raised.message))))
    | .loadCheckpoint => (files, .loaded (CheckpointManager.loadCheckpoint path (files path)))
    | .hasCheckpoint => (files, .exists (files path).isSome)
    | .getCompletedVmIds => (files, .ids (CheckpointManager.getCompletedVmIds path (files path)))
    | .getFailedVmIds => (files, .ids (CheckpointManager.getFailedVmIds path (files path)))
    | .shouldSkipVm vm => (files, .skip (CheckpointManager.shouldSkipVm path (files path) vm))
    | .cleanup removed => (if removed then Function.update files path none else files, .done (.ok ()))

/-- A call on the manager of a batch. -/
def ofBatch (batchId : String) (call : Call) : Bool := call.1 = batchId

/-- What batch `a` reads does not depend on what batch `b` does. -/
def IsolatedFrom (a b : String) : Prop :=
  ∀ files (calls : List Call), (∀ call ∈ calls, call.1 = a ∨ call.1 = b) → Isolated (step checkpointDir) (ofBatch a) files calls

section names

variable {checkpointDir : String} {a b : String}

theorem checkpointFile_eq_iff :
    checkpointFile checkpointDir a = checkpointFile checkpointDir b ↔ sanitizeFilename a = sanitizeFilename b := by
  constructor
  · intro same
    have chars := congrArg String.toList same
    simp only [checkpointFile, String.toList_append, String.toList_ofList, List.append_assoc] at chars
    exact List.append_cancel_right (List.append_cancel_left (List.append_cancel_left (List.append_cancel_left chars)))
  · intro same
    rw [checkpointFile, same]
    rfl

/-- A temporary file ends in another letter than a checkpoint. -/
theorem tmpFile_ne_checkpointFile : tmpFile checkpointDir a ≠ checkpointFile checkpointDir b := by
  intro same
  have last := congrArg (fun path => path.toList.getLast?) same
  simp only [tmpFile, checkpointFile, String.toList_append, String.toList_ofList, List.getLast?_append] at last
  have ends : ".json.tmp".toList.getLast? = some 'p' ∧ ".json".toList.getLast? = some 'n' := by decide
  rw [ends.1, ends.2] at last
  cases last

end names

section isolation

variable {checkpointDir : String} {a b : String}

theorem step_other (files : Files) {call : Call} (other : sanitizeFilename a ≠ sanitizeFilename call.1) :
    (step checkpointDir files call).1 (checkpointFile checkpointDir a) = files (checkpointFile checkpointDir a) := by
  obtain ⟨b, op⟩ := call
  have apart : checkpointFile checkpointDir a ≠ checkpointFile checkpointDir b := mt checkpointFile_eq_iff.mp other
  have tmp : checkpointFile checkpointDir a ≠ tmpFile checkpointDir b := tmpFile_ne_checkpointFile.symm
  cases op with
  | saveCheckpoint state fault =>
    cases fault with
    | none =>
      simp only [step]
      rw [Function.update_of_ne apart, Function.update_of_ne tmp]
    | some fault =>
      simp only [step]
      rw [Function.update_of_ne tmp]
  | cleanup removed =>
    cases removed with
    | false => rfl
    | true =>
      simp only [step, if_true]
      rw [Function.update_of_ne apart]
  | _ => rfl

theorem step_own {files files' : Files} (op : Op)
    (same : files (checkpointFile checkpointDir a) = files' (checkpointFile checkpointDir a)) :
    (step checkpointDir files (a, op)).1 (checkpointFile checkpointDir a) =
        (step checkpointDir files' (a, op)).1 (checkpointFile checkpointDir a) ∧
      (step checkpointDir files (a, op)).2 = (step checkpointDir files' (a, op)).2 := by
  have tmp : checkpointFile checkpointDir a ≠ tmpFile checkpointDir a := tmpFile_ne_checkpointFile.symm
  cases op with
  | saveCheckpoint state fault =>
    cases fault with
    | none =>
      simp only [step, and_true]
      rw [Function.update_self, Function.update_self]
    | some fault =>
      simp only [step, and_true]
      rw [Function.update_of_ne tmp, Function.update_of_ne tmp, same]
  | cleanup removed =>
    refine ⟨?_, rfl⟩
    cases removed with
    | false => exact same
    | true =>
      simp only [step, if_true]
      rw [Function.update_self, Function.update_self]
  | _ => simp only [step, same, and_self]

/-- Where the file names are the same, a batch finds the checkpoint of the other. -/
theorem not_isolatedFrom (different : a ≠ b) (same : sanitizeFilename a = sanitizeFilename b) :
    ¬ IsolatedFrom checkpointDir a b := by
  intro isolated
  let state : State := { completedVms := [], timestamp := .null, timestampIso := "" }
  have read := isolated (fun _ => none) [(b, .saveCheckpoint state none), (a, .hasCheckpoint)] (by simp)
  have path : checkpointFile checkpointDir a = checkpointFile checkpointDir b := checkpointFile_eq_iff.mpr same
  simp [Isolated, readings, ofBatch, step, different.symm, path] at read

end isolation

/-- Two batches are isolated from each other just where their ids lead to different file names. -/
theorem isolatedFrom_iff (checkpointDir : String) {a b : String} (different : a ≠ b) :
    IsolatedFrom checkpointDir a b ↔ sanitizeFilename a ≠ sanitizeFilename b := by
  constructor
  · exact fun isolated same => not_isolatedFrom different same isolated
  · intro apart files calls only
    refine isolated_of_view (fun files => files (checkpointFile checkpointDir a)) ?_ ?_ files
    · intro files call mem notOwn
      have other : call.1 = b := (only call mem).resolve_left (of_decide_eq_false notOwn)
      exact step_other files (other ▸ apart)
    · rintro files files' ⟨batchId, op⟩ own same
      obtain rfl : batchId = a := of_decide_eq_true own
      exact step_own op same

theorem isolatedFrom_iff_letters : IsolatedFrom "work" "a" "b" :=
  (isolatedFrom_iff "work" (by decide)).mpr (by decide)

/-- A space and a hyphen lead to the same file. -/
theorem not_isolatedFrom_space : ¬ IsolatedFrom "work" "q 1" "q-1" := not_isolatedFrom (by decide) (by decide)

end H2kvm.Batch.CheckpointManager
