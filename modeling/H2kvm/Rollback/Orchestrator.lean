import Mathlib.Data.UInt
import Mathlib.Data.List.Count
import H2kvm.Framework.Data
import H2kvm.Framework.Overlay
import H2kvm.Framework.Run

namespace H2kvm.Rollback

open Framework

section snapshots

inductive SnapshotType where
  | full
  | qcow2
  | lvm
  | filesystem
  deriving DecidableEq

def SnapshotType.value : SnapshotType → String
  | .full => "full"
  | .qcow2 => "qcow2"
  | .lvm => "lvm"
  | .filesystem => "filesystem"

/-- An absolute path, as its directory and its last component. -/
structure Path where
  parent : String
  name : String
  deriving DecidableEq

/-- `path.stem`: the name without its last suffix. -/
def Path.stem (p : Path) : String :=
  let chars := p.name.toList
  let base := (chars.reverse.dropWhile (· ≠ '.')).drop 1
  if base = [] ∨ chars.getLast? = some '.' then p.name else String.ofList base.reverse

/-- `source_path.with_suffix(source_path.suffix + ".pre-restore")`. -/
def Path.backup (p : Path) : Path := { p with name := p.name ++ ".pre-restore" }

abbrev Disk := Image Path UInt8

/-- Snapshot metadata. -/
structure Snapshot where
  snapshotId : String
  snapshotType : SnapshotType
  sourcePath : Path
  snapshotPath : Path
  checksum : Option String := none
  deriving DecidableEq

/-- The files of the host and the snapshots the manager has registered. -/
structure Host where
  files : Path → Option Disk
  snapshots : Dict String Snapshot

/-- The manager's directory and the digest of a file's bytes. -/
structure SnapshotManager where
  snapshotDir : String
  sha256 : Disk → String

/-- How writing a file ends: it raises and leaves `left` there, or it is done. -/
inductive FileStep where
  | done
  | failed (left : Option Disk) (e : PyException)

/-- What the steps of `create_snapshot` meet, in their order. -/
structure CreateIo where
  makeDirectory : Except PyException Unit := .ok ()
  writeSnapshot : FileStep := .done
  stat : Except PyException Unit := .ok ()
  readChecksum : Except PyException Unit := .ok ()
  saveMetadata : Except PyException Unit := .ok ()

/-- What the steps of `restore_snapshot` meet. A move that fails leaves the image where it is. -/
structure RestoreIo where
  readChecksum : Except PyException Unit := .ok ()
  move : FileStep := .done
  copy : FileStep := .done

def diskConversionError (msg : String) : PyException := ⟨"DiskConversionError", msg, false⟩

def infrastructureError (msg : String) : PyException := ⟨"InfrastructureError", msg, false⟩

namespace SnapshotManager

variable (m : SnapshotManager)

/-- `snapshot_dir / snapshot_id / name`. -/
def pathFor (snapshotId name : String) : Path := ⟨m.snapshotDir ++ "/" ++ snapshotId, name⟩

/-- `_create_qcow2_snapshot`: an overlay over the source image itself, by its path. -/
def createQcow2Snapshot (files : Path → Option Disk) (source : Path) (snapshotId : String) (io : CreateIo) :
    Except PyException Snapshot × (Path → Option Disk) :=
  let snapshotPath := m.pathFor snapshotId (source.name ++ ".snapshot")
  match io.makeDirectory with
  | .error e => (.error e, files)
  | .ok () =>
    match io.writeSnapshot with
    | .failed left e =>
      let e := if e.typeName = "CalledProcessError" then
        diskConversionError ("Failed to create QCOW2 snapshot for " ++ source.name) else e
      (.error e, Function.update files snapshotPath left)
    | .done =>
      let files := Function.update files snapshotPath (some (.overlay (some source) fun _ => none))
      match io.stat with
      | .error e => (.error e, files)
      | .ok () => (.ok ⟨snapshotId, .qcow2, source, snapshotPath, none⟩, files)

/-- `_create_full_snapshot`: a copy of the file. `copy2` refuses to copy a file onto itself. -/
def createFullSnapshot (files : Path → Option Disk) (source : Path) (snapshotId : String) (io : CreateIo) :
    Except PyException Snapshot × (Path → Option Disk) :=
  let snapshotPath := m.pathFor snapshotId source.name
  let failed (e : PyException) : PyException :=
    if e.isFatal then e else diskConversionError ("Failed to create full snapshot copy of " ++ source.name)
  match io.makeDirectory with
  | .error e => (.error e, files)
  | .ok () =>
    if snapshotPath = source then (.error (failed ⟨"SameFileError", "", false⟩), files)
    else
      match io.writeSnapshot with
      | .failed left e => (.error (failed e), Function.update files snapshotPath left)
      | .done =>
        let files := Function.update files snapshotPath (files source)
        match io.stat with
        | .error e => (.error (failed e), files)
        | .ok () => (.ok ⟨snapshotId, .full, source, snapshotPath, none⟩, files)

/-- `_compute_checksum`. -/
def computeChecksum (files : Path → Option Disk) (path : Path) (read : Except PyException Unit) :
    Except PyException String :=
  match files path, read with
  | none, _ => .error ⟨"FileNotFoundError", path.name, false⟩
  | some _, .error e => .error e
  | some disk, .ok () => .ok (m.sha256 disk)

/-- The part of `create_snapshot` after the snapshot file is there. -/
def register (host : Host) (snapshot : Snapshot) (computeChecksum : Bool) (io : CreateIo) :
    Except PyException Snapshot × Host :=
  let checksum : Except PyException (Option String) :=
    if computeChecksum then (m.computeChecksum host.files snapshot.snapshotPath io.readChecksum).map some
    else .ok none
  match checksum with
  | .error e => (.error e, host)
  | .ok checksum =>
    let snapshot := { snapshot with checksum }
    match io.saveMetadata with
    | .error e => (.error e, host)
    | .ok () => (.ok snapshot, { host with snapshots := host.snapshots.insert snapshot.snapshotId snapshot })

def createSnapshot (host : Host) (source : Path) (snapshotType : SnapshotType) (computeChecksum : Bool)
    (timestamp : String) (io : CreateIo) : Except PyException Snapshot × Host :=
  if (host.files source).isNone then
    (.error (diskConversionError ("Cannot create snapshot: source image not found at " ++ source.parent ++ "/" ++
      source.name)), host)
  else
    let snapshotId := "snapshot_" ++ source.stem ++ "_" ++ timestamp
    let made : Except PyException Snapshot × (Path → Option Disk) :=
      match snapshotType with
      | .qcow2 => m.createQcow2Snapshot host.files source snapshotId io
      | .full => m.createFullSnapshot host.files source snapshotId io
      | .lvm | .filesystem =>
        (.error (infrastructureError ("Snapshot type '" ++ snapshotType.value ++ "' is not yet supported")), host.files)
    match made with
    | (.error e, files) => (.error e, { host with files })
    | (.ok snapshot, files) => m.register { host with files } snapshot computeChecksum io

/-- What `_restore_full_snapshot` and `_restore_qcow2_snapshot` both do: the current image is
moved aside and the snapshot file copied to its place. -/
def copyBack (files : Path → Option Disk) (snapshot : Snapshot) (io : RestoreIo) :
    Except PyException Unit × (Path → Option Disk) :=
  let source := snapshot.sourcePath
  let moved : Except PyException Unit × (Path → Option Disk) :=
    if (files source).isNone then (.ok (), files)
    else
      match io.move with
      | .failed left e => (.error e, Function.update files source.backup left)
      | .done => (.ok (), Function.update (Function.update files source.backup (files source)) source none)
  match moved with
  | (.error e, files) => (.error e, files)
  | (.ok (), files) =>
    match files snapshot.snapshotPath, io.copy with
    | none, _ => (.error ⟨"FileNotFoundError", snapshot.snapshotPath.name, false⟩, files)
    | some _, .failed left e => (.error e, Function.update files source left)
    | some disk, .done => (.ok (), Function.update files source (some disk))

def restoreFullSnapshot := copyBack

def restoreQcow2Snapshot := copyBack

/-- The check of `verify_checksum`, made if there is a checksum. -/
def verify (files : Path → Option Disk) (snapshot : Snapshot) (verifyChecksum : Bool)
    (io : RestoreIo) : Except PyException Unit :=
  match verifyChecksum, snapshot.checksum with
  | true, some expected =>
    match m.computeChecksum files snapshot.snapshotPath io.readChecksum with
    | .error e => .error e
    | .ok current =>
      if current = expected then .ok ()
      else .error ⟨"RuntimeError", "Snapshot checksum mismatch: expected " ++ expected ++ ", got " ++ current, false⟩
  | _, _ => .ok ()

def restoreSnapshot (host : Host) (snapshotId : String) (verifyChecksum : Bool) (io : RestoreIo) :
    Except PyException Unit × Host :=
  match host.snapshots.lookup snapshotId with
  | none => (.error (infrastructureError ("Snapshot '" ++ snapshotId ++ "' not found")), host)
  | some snapshot =>
    match m.verify host.files snapshot verifyChecksum io with
    | .error e => (.error e, host)
    | .ok () =>
      let restored : Except PyException Unit × (Path → Option Disk) :=
        match snapshot.snapshotType with
        | .full => restoreFullSnapshot host.files snapshot io
        | .qcow2 => restoreQcow2Snapshot host.files snapshot io
        | .lvm | .filesystem =>
          (.error (infrastructureError ("Snapshot restore for type '" ++ snapshot.snapshotType.value ++
            "' is not yet implemented")), host.files)
      (restored.1, { host with files := restored.2 })

end SnapshotManager

end snapshots

section orchestrator

inductive MigrationState where
  | notStarted
  | snapshotCreated
  | preMigrationChecks
  | storageActivated
  | filesystemMounted
  | bootloaderFixed
  | driversInstalled
  | networkConfigured
  | fstabStabilized
  | validationPassed
  | completed
  | failed
  | rolledBack
  deriving DecidableEq

inductive RollbackStrategy where
  | full
  | partly
  deriving DecidableEq

inductive RollbackAction where
  | restoreSnapshot
  | revertFile
  | removeFile
  deriving DecidableEq

structure RollbackResult where
  action : RollbackAction
  success : Bool
  deriving DecidableEq

inductive ValidationStatus where
  | pass
  | fail
  | warn
  deriving DecidableEq

/-- A call of the file system; `none` is one that raises. -/
abbrev Answer (α : Type) := Option α

/-- What `execute_revert_file` and the check after it are answered. -/
structure RevertFile where
  backupExists : Answer Bool
  fileExists : Answer Bool
  unlink : Answer Unit
  copy : Answer Unit
  existsAfter : Answer Bool

/-- What `execute_remove_file` and the check after it are answered. -/
structure RemoveFile where
  fileExists : Answer Bool
  unlink : Answer Unit
  existsAfter : Answer Bool

/-- What `validate_snapshot_restored` finds of a registered snapshot. -/
structure SnapshotSight where
  sourceExists : Bool
  full : Bool
  sizeMatches : Bool

/-- A call of the orchestrator with all that happens in it. -/
inductive Call where
  | full (snapshotId : String) (restored : Answer Unit) (sight : Answer (Option SnapshotSight)) (validate : Bool)
  | partly (revertFiles : List RevertFile) (removeFiles : List RemoveFile) (validate : Bool)

/-- What the executor, the validator and the tracker hold. -/
structure RollbackOrchestrator where
  executed : List RollbackResult := []
  validated : List ValidationStatus := []
  currentState : MigrationState := .notStarted

structure RollbackReport where
  strategy : RollbackStrategy
  success : Bool
  snapshotRestored : Option String := none
  actionsExecuted : Nat
  actionsSuccessful : Nat
  validationsPassed : Nat
  validationsFailed : Nat
  executionResults : List RollbackResult
  validationResults : List ValidationStatus

def executeRevertFile (f : RevertFile) : RollbackResult :=
  let done : Answer Unit := do
    if !(← f.backupExists) then failure
    if ← f.fileExists then f.unlink
    f.copy
  ⟨.revertFile, done.isSome⟩

def executeRemoveFile (f : RemoveFile) : RollbackResult :=
  let done : Answer Unit := do
    if ← f.fileExists then f.unlink
  ⟨.removeFile, done.isSome⟩

def validateFileRestored (existsNow : Answer Bool) (expectedExists : Bool) : ValidationStatus :=
  match existsNow with
  | some found => if found = expectedExists then .pass else .fail
  | none => .fail

def validateSnapshotRestored (sight : Answer (Option SnapshotSight)) : ValidationStatus :=
  match sight with
  | none | some none => .fail
  | some (some snapshot) =>
    if !snapshot.sourceExists then .fail
    else if snapshot.full && !snapshot.sizeMatches then .warn
    else .pass

namespace RollbackOrchestrator

def record (o : RollbackOrchestrator) (result : RollbackResult) : RollbackOrchestrator :=
  { o with executed := o.executed ++ [result] }

/-- A validation, which is done only if the action before it succeeded. -/
def check (o : RollbackOrchestrator) (wanted : Bool) (status : ValidationStatus) : RollbackOrchestrator :=
  if wanted then { o with validated := o.validated ++ [status] } else o

def revertFile (validate : Bool) (o : RollbackOrchestrator) (f : RevertFile) : RollbackOrchestrator :=
  let result := executeRevertFile f
  (o.record result).check (validate && result.success) (validateFileRestored f.existsAfter true)

def removeFile (validate : Bool) (o : RollbackOrchestrator) (f : RemoveFile) : RollbackOrchestrator :=
  let result := executeRemoveFile f
  (o.record result).check (validate && result.success) (validateFileRestored f.existsAfter false)

/-- `get_summary` of the executor: how many actions succeeded. -/
def successful (o : RollbackOrchestrator) : Nat := o.executed.countP (·.success)

/-- `get_summary` of the validator: how many checks ended so. -/
def checks (o : RollbackOrchestrator) (status : ValidationStatus) : Nat := o.validated.count status

/-- The report that `execute_full_rollback` and `execute_partial_rollback` make in the end. -/
def report (o : RollbackOrchestrator) (strategy : RollbackStrategy) (success : Bool) (restored : Option String) :
    RollbackReport where
  strategy
  success
  snapshotRestored := restored
  actionsExecuted := o.executed.length
  actionsSuccessful := o.successful
  validationsPassed := o.checks .pass
  validationsFailed := o.checks .fail
  executionResults := o.executed
  validationResults := o.validated

def executeFullRollback (o : RollbackOrchestrator) (snapshotId : String) (restored : Answer Unit)
    (sight : Answer (Option SnapshotSight)) (validate : Bool) : RollbackOrchestrator × RollbackReport :=
  let result : RollbackResult := ⟨.restoreSnapshot, restored.isSome⟩
  let o := o.record result
  let o := if result.success then { o with currentState := .rolledBack } else o
  let o := o.check (validate && result.success) (validateSnapshotRestored sight)
  let success := result.success && (!validate || o.checks .fail == 0)
  (o, o.report .full success (if result.success then some snapshotId else none))

def executePartialRollback (o : RollbackOrchestrator) (revertFiles : List RevertFile) (removeFiles : List RemoveFile)
    (validate : Bool) : RollbackOrchestrator × RollbackReport :=
  let o := revertFiles.foldl (revertFile validate) o
  let o := removeFiles.foldl (removeFile validate) o
  let o := { o with currentState := .rolledBack }
  let success := o.executed.length - o.successful == 0 && (!validate || o.checks .fail == 0)
  (o, o.report .partly success none)

def call (o : RollbackOrchestrator) : Call → RollbackOrchestrator × RollbackReport
  | .full snapshotId restored sight validate => o.executeFullRollback snapshotId restored sight validate
  | .partly revertFiles removeFiles validate => o.executePartialRollback revertFiles removeFiles validate

def step (o : RollbackOrchestrator) (c : Call) : RollbackOrchestrator := (o.call c).1

end RollbackOrchestrator

end orchestrator

end H2kvm.Rollback
