import H2kvm.Rollback.Orchestrator

namespace H2kvm.Rollback

section restore

open Framework Image

theorem append_ne_self {name suffix : String} (h : suffix ≠ "") : name ++ suffix ≠ name := by
  intro same
  have lengths := congrArg String.length same
  rw [String.length_append] at lengths
  have : suffix.length = 0 := by omega
  exact h (String.length_eq_zero_iff.mp this)

theorem Path.backup_ne (p : Path) : p.backup ≠ p := by
  intro same
  exact append_ne_self (by decide) (congrArg Path.name same)

namespace SnapshotManager

variable {m : SnapshotManager}

/-- The snapshot file is there: a copy of the source image, or an overlay over its path. -/
structure Stored (files : Path → Option Disk) (source : Path) (type : SnapshotType) (snapshot : Snapshot) :
    Prop where
  source_eq : snapshot.sourcePath = source
  type_eq : snapshot.snapshotType = type
  source_there : (files source).isSome
  apart : snapshot.snapshotPath ≠ source
  apart_backup : snapshot.snapshotPath ≠ source.backup
  held : type = .full ∧ files snapshot.snapshotPath = files source ∨
    type = .qcow2 ∧ files snapshot.snapshotPath = some (.overlay (some source) fun _ => none)

/-- What holds when `create_snapshot` has returned `snapshot`. -/
structure Taken (m : SnapshotManager) (host : Host) (source : Path) (type : SnapshotType) (compute : Bool)
    (snapshot : Snapshot) : Prop extends Stored host.files source type snapshot where
  registered : host.snapshots.lookup snapshot.snapshotId = some snapshot
  checksum_isSome : snapshot.checksum.isSome = compute
  checksum_eq : ∀ expected ∈ snapshot.checksum,
    ∃ disk, host.files snapshot.snapshotPath = some disk ∧ m.sha256 disk = expected

theorem stored_qcow2 {files files' : Path → Option Disk} {source : Path} {snapshotId : String} {io : CreateIo}
    {snapshot : Snapshot} (there : (files source).isSome)
    (made : m.createQcow2Snapshot files source snapshotId io = (.ok snapshot, files')) :
    Stored files' source .qcow2 snapshot := by
  simp only [createQcow2Snapshot] at made
  split at made
  · cases made
  split at made
  · cases made
  split at made
  · cases made
  obtain ⟨rfl, rfl⟩ : _ ∧ _ := by simpa using made
  have apart : m.pathFor snapshotId (source.name ++ ".snapshot") ≠ source := by
    intro same
    exact append_ne_self (by decide) (congrArg Path.name same)
  refine ⟨rfl, rfl, ?_, apart, ?_, .inr ⟨rfl, Function.update_self ..⟩⟩
  · rwa [Function.update_of_ne apart.symm]
  · intro same
    have names : source.name ++ ".snapshot" = source.name ++ ".pre-restore" := congrArg Path.name same
    have lengths := congrArg String.length names
    rw [String.length_append, String.length_append] at lengths
    exact absurd (Nat.add_left_cancel lengths) (by decide)

theorem stored_full {files files' : Path → Option Disk} {source : Path} {snapshotId : String} {io : CreateIo}
    {snapshot : Snapshot} (there : (files source).isSome)
    (made : m.createFullSnapshot files source snapshotId io = (.ok snapshot, files')) :
    Stored files' source .full snapshot := by
  simp only [createFullSnapshot] at made
  split at made
  · cases made
  split at made
  · cases made
  rename_i apart
  split at made
  · cases made
  split at made
  · cases made
  obtain ⟨rfl, rfl⟩ : _ ∧ _ := by simpa using made
  have source_kept : Function.update files (m.pathFor snapshotId source.name) (files source) source = files source :=
    Function.update_of_ne (Ne.symm apart) ..
  refine ⟨rfl, rfl, ?_, apart, ?_, .inl ⟨rfl, ?_⟩⟩
  · rwa [source_kept]
  · intro same
    exact append_ne_self (by decide) (congrArg Path.name same).symm
  · rw [Function.update_self, source_kept]

theorem taken_of_register {host host' : Host} {source : Path} {type : SnapshotType} {compute : Bool}
    {snapshot snapshot' : Snapshot} {io : CreateIo} (made : Stored host.files source type snapshot)
    (done : m.register host snapshot compute io = (.ok snapshot', host')) :
    Taken m host' source type compute snapshot' := by
  simp only [register] at done
  split at done
  · cases done
  rename_i checksum computed
  split at done
  · cases done
  obtain ⟨rfl, rfl⟩ : _ ∧ _ := by simpa using done
  have kept : Stored host.files source type { snapshot with checksum } :=
    ⟨made.source_eq, made.type_eq, made.source_there, made.apart, made.apart_backup, made.held⟩
  refine ⟨kept, AList.lookup_insert _, ?_, ?_⟩
  · cases compute with
    | false => obtain rfl : none = checksum := by simpa using computed
               rfl
    | true =>
      rw [if_pos rfl] at computed
      cases read : m.computeChecksum host.files snapshot.snapshotPath io.readChecksum with
      | error e => simp [read, Except.map] at computed
      | ok d =>
        obtain rfl : some d = checksum := by simpa [read, Except.map] using computed
        rfl
  · intro expected hd
    obtain rfl : checksum = some expected := hd
    cases compute with
    | false => simp at computed
    | true =>
      rw [if_pos rfl] at computed
      simp only [computeChecksum] at computed
      split at computed
      · simp [Except.map] at computed
      · simp [Except.map] at computed
      · rename_i disk found _
        exact ⟨disk, found, by simpa [Except.map] using computed⟩

theorem taken_of_createSnapshot {host host' : Host} {source : Path} {type : SnapshotType} {compute : Bool}
    {timestamp : String} {io : CreateIo} {snapshot : Snapshot}
    (created : m.createSnapshot host source type compute timestamp io = (.ok snapshot, host')) :
    Taken m host' source type compute snapshot := by
  simp only [createSnapshot] at created
  split at created
  · cases created
  rename_i there
  have there : (host.files source).isSome := by simpa [Option.isSome_iff_ne_none] using there
  split at created
  · cases created
  rename_i made
  cases type with
  | full =>
    have stored := stored_full there made
    exact taken_of_register (by exact stored) created
  | qcow2 =>
    have stored := stored_qcow2 there made
    exact taken_of_register (by exact stored) created
  | lvm => cases made
  | filesystem => cases made

/-- One block written in place to the image at `source`. -/
def writeBlock (source : Path) (files : Path → Option Disk) (w : Nat × UInt8) : Path → Option Disk :=
  Function.update files source ((files source).map (Image.write w.1 w.2))

/-- The host after a sequence of writes to the image at `source`. -/
def written (source : Path) (host : Host) (writes : List (Nat × UInt8)) : Host :=
  { host with files := run (writeBlock source) host.files writes }

/-- `after` differs from `before` in the blocks of the image at `source` only. -/
structure OnlyWritten (source : Path) (before after : Path → Option Disk) : Prop where
  others : ∀ p, p ≠ source → after p = before p
  backing : (after source).map Image.backing = (before source).map Image.backing

theorem onlyWritten (source : Path) (host : Host) (writes : List (Nat × UInt8)) :
    OnlyWritten source host.files (written source host writes).files := by
  apply invariant_run (I := OnlyWritten source host.files)
  · intro files w kept
    refine ⟨fun p hp => (Function.update_of_ne hp ..).trans (kept.others p hp), ?_⟩
    rw [← kept.backing, writeBlock, Function.update_self, Option.map_map]
    congr 1
    funext image
    exact backing_write w.1 w.2 image
  · exact ⟨fun _ _ => rfl, rfl⟩

/-- What a call of `restore_snapshot` owes: the content of the time the snapshot was taken
if it returns, the image as it was before if it raises. -/
def Restores (source : Path) (taken before : Host) : Except PyException Unit × Host → Prop
  | (.ok (), after) => ∀ content, Reads after.files source content ↔ Reads taken.files source content
  | (.error _, after) => after.files source = before.files source

/-- When the call pays it. A snapshot that is a copy gives the content back unless the image
reads through the file it is moved to; an overlay never gives it back; and a copy that fails
after the image was moved aside must by chance leave that image there. -/
def Restorable (source : Path) (taken before : Host) (type : SnapshotType) (checked : Bool) (io : RestoreIo) : Prop :=
  match (if checked then io.readChecksum else .ok ()), io.move, io.copy with
  | .error _, _, _ => True
  | .ok (), .failed _ _, _ => True
  | .ok (), .done, .failed left _ => left = before.files source
  | .ok (), .done, .done =>
    type = .full ∧ ¬ InChain taken.files source source.backup ∨ ∀ content, ¬ Reads taken.files source content

section

variable {taken : Host} {source : Path} {type : SnapshotType} {compute : Bool} {snapshot : Snapshot}

theorem verify_written (h : Taken m taken source type compute snapshot) (writes : List (Nat × UInt8))
    (verifyChecksum : Bool) (io : RestoreIo) :
    m.verify (written source taken writes).files snapshot verifyChecksum io =
      if verifyChecksum && compute then io.readChecksum else .ok () := by
  have same := (onlyWritten source taken writes).others snapshot.snapshotPath h.apart
  have isSome := h.checksum_isSome
  cases hc : snapshot.checksum with
  | none =>
    obtain rfl : false = compute := by rw [← isSome, hc]; rfl
    cases verifyChecksum <;> simp [verify, hc]
  | some expected =>
    obtain rfl : true = compute := by rw [← isSome, hc]; rfl
    obtain ⟨disk, found, rfl⟩ := h.checksum_eq expected hc
    cases verifyChecksum with
    | false => simp [verify]
    | true =>
      simp only [verify, hc, computeChecksum, same, found]
      cases io.readChecksum <;> simp

/-- The files after the image was moved aside and the snapshot file copied to its place. -/
def replaced (files : Path → Option Disk) (source : Path) (disk : Option Disk) : Path → Option Disk :=
  Function.update (Function.update files source.backup (files source)) source disk

theorem copyBack_written (h : Taken m taken source type compute snapshot) (writes : List (Nat × UInt8))
    (io : RestoreIo) :
    copyBack (written source taken writes).files snapshot io =
      match io.move, io.copy with
      | .failed left e, _ => (.error e, Function.update (written source taken writes).files source.backup left)
      | .done, .failed left e => (.error e, replaced (written source taken writes).files source left)
      | .done, .done =>
        (.ok (), replaced (written source taken writes).files source (taken.files snapshot.snapshotPath)) := by
  have only := onlyWritten source taken writes
  have there : ((written source taken writes).files source).isNone = false := by
    have backing := only.backing
    have := h.source_there
    cases hw : (written source taken writes).files source <;> cases ht : taken.files source <;>
      simp_all
  have found : ∃ disk, taken.files snapshot.snapshotPath = some disk := by
    rcases h.held with ⟨-, held⟩ | ⟨-, held⟩
    · exact Option.isSome_iff_exists.mp (held ▸ h.source_there)
    · exact ⟨_, held⟩
  obtain ⟨disk, found⟩ := found
  have same : (written source taken writes).files snapshot.snapshotPath = some disk :=
    (only.others _ h.apart).trans found
  simp only [copyBack, h.source_eq, there, Bool.false_eq_true, if_false]
  cases io.move with
  | failed left e => rfl
  | done =>
    simp only [Function.update_of_ne h.apart, Function.update_of_ne h.apart_backup, same, found]
    cases io.copy <;> simp [replaced]

theorem reads_full_iff (h : Taken m taken source .full compute snapshot) (writes : List (Nat × UInt8)) :
    (∀ content, Reads (replaced (written source taken writes).files source (taken.files snapshot.snapshotPath))
        source content ↔ Reads taken.files source content) ↔
      ¬ InChain taken.files source source.backup ∨ ∀ content, ¬ Reads taken.files source content := by
  have only := onlyWritten source taken writes
  have copy : taken.files snapshot.snapshotPath = taken.files source := by
    rcases h.held with ⟨-, held⟩ | ⟨type, -⟩
    · exact held
    · cases type
  apply reads_overwritten_iff source.backup_ne
  · intro p hp
    by_cases hs : p = source
    · subst hs
      rw [replaced, Function.update_self, copy]
    · rw [replaced, Function.update_of_ne hs, Function.update_of_ne hp]
      exact only.others p hs
  · rw [replaced, Function.update_of_ne source.backup_ne, Function.update_self]
    exact only.backing

theorem reads_qcow2_iff (h : Taken m taken source .qcow2 compute snapshot) (writes : List (Nat × UInt8)) :
    (∀ content, Reads (replaced (written source taken writes).files source (taken.files snapshot.snapshotPath))
        source content ↔ Reads taken.files source content) ↔
      ∀ content, ¬ Reads taken.files source content := by
  have overlay : taken.files snapshot.snapshotPath = some (.overlay (some source) fun _ => none) := by
    rcases h.held with ⟨type, -⟩ | ⟨-, held⟩
    · cases type
    · exact held
  have itself : Backs (replaced (written source taken writes).files source (taken.files snapshot.snapshotPath))
      source source := ⟨_, (Function.update_self ..).trans overlay, rfl⟩
  have gone : ∀ content, ¬ Reads _ source content := fun content read => read.no_loop (.single itself)
  constructor
  · intro same content read
    exact gone content ((same content).mpr read)
  · intro unreadable content
    exact ⟨fun read => (gone content read).elim, fun read => (unreadable content read).elim⟩

end

/-- For every image, snapshot type, sequence of writes and course of the calls, `restore_snapshot`
does what it owes exactly where `Restorable` says. -/
theorem restores_iff_restorable (m : SnapshotManager) (host taken : Host) (source : Path) (type : SnapshotType)
    (compute : Bool) (timestamp : String) (io : CreateIo) (snapshot : Snapshot)
    (created : m.createSnapshot host source type compute timestamp io = (.ok snapshot, taken))
    (writes : List (Nat × UInt8)) (verifyChecksum : Bool) (rio : RestoreIo) :
    Restores source taken (written source taken writes)
        (m.restoreSnapshot (written source taken writes) snapshot.snapshotId verifyChecksum rio) ↔
      Restorable source taken (written source taken writes) type (verifyChecksum && compute) rio := by
  have h := taken_of_createSnapshot created
  have registered : (written source taken writes).snapshots.lookup snapshot.snapshotId = some snapshot := h.registered
  have verified := verify_written h writes verifyChecksum rio
  have copied := copyBack_written h writes rio
  simp only [restoreSnapshot, registered, verified, Restorable]
  cases (if (verifyChecksum && compute) = true then rio.readChecksum else .ok () : Except PyException Unit) with
  | error e => simp [Restores]
  | ok u =>
    have kind : type = .full ∨ type = .qcow2 := h.held.imp And.left And.left
    rcases kind with rfl | rfl
    · simp only [h.type_eq, restoreFullSnapshot, copied]
      cases rio.move with
      | failed left e => simp [Restores, Function.update_of_ne source.backup_ne.symm]
      | done =>
        cases rio.copy with
        | failed left e => simp [Restores, replaced]
        | done => simpa [Restores] using reads_full_iff h writes
    · simp only [h.type_eq, restoreQcow2Snapshot, copied]
      cases rio.move with
      | failed left e => simp [Restores, Function.update_of_ne source.backup_ne.symm]
      | done =>
        cases rio.copy with
        | failed left e => simp [Restores, replaced]
        | done => simpa [Restores] using reads_qcow2_iff h writes

/-- A manager, an image of one zero block and its snapshot. -/
def plainManager : SnapshotManager := ⟨"/var/lib/h2kvm/snapshots", fun _ => "0"⟩

def plainImage : Path := ⟨"/srv", "disk.qcow2"⟩

def plainHost : Host :=
  { files := fun p => if p = plainImage then some (.overlay none fun _ => none) else none, snapshots := ∅ }

def plainCreated (type : SnapshotType) : Except PyException Snapshot × Host :=
  plainManager.createSnapshot plainHost plainImage type false "20260101_000000_000000" {}

def plainSnapshot (type : SnapshotType) (name : String) : Snapshot :=
  ⟨"snapshot_disk_20260101_000000_000000", type, plainImage,
    ⟨"/var/lib/h2kvm/snapshots/snapshot_disk_20260101_000000_000000", name⟩, none⟩

/-- A written image gets back the content a copy was made of. -/
theorem restores_full_copy :
    Restores plainImage (plainCreated .full).2 (written plainImage (plainCreated .full).2 [(0, 1)])
      (plainManager.restoreSnapshot (written plainImage (plainCreated .full).2 [(0, 1)])
        "snapshot_disk_20260101_000000_000000" false {}) := by
  have created : plainCreated .full = (.ok (plainSnapshot .full "disk.qcow2"), (plainCreated .full).2) := by rfl
  apply (restores_iff_restorable plainManager plainHost _ plainImage .full false _ {} _ created [(0, 1)] false {}).mpr
  refine .inl ⟨rfl, ?_⟩
  intro chain
  rcases Relation.ReflTransGen.cases_head chain with same | ⟨x, ⟨image, found, backing⟩, -⟩
  · exact plainImage.backup_ne same.symm
  · obtain rfl : .overlay none (fun _ => none) = image := Option.some.inj found
    cases backing

/-- An overlay put back after one write leaves an image nothing can be read from. -/
theorem overlay_not_restored :
    ¬ Restores plainImage (plainCreated .qcow2).2 (written plainImage (plainCreated .qcow2).2 [(0, 1)])
      (plainManager.restoreSnapshot (written plainImage (plainCreated .qcow2).2 [(0, 1)])
        "snapshot_disk_20260101_000000_000000" false {}) := by
  generalize result : plainManager.restoreSnapshot (written plainImage (plainCreated .qcow2).2 [(0, 1)])
    "snapshot_disk_20260101_000000_000000" false {} = after
  have done : after.1 = .ok () := by rw [← result]; rfl
  have placed : after.2.files plainImage = some (.overlay (some plainImage) fun _ => none) := by rw [← result]; rfl
  obtain ⟨outcome, after⟩ := after
  obtain rfl : outcome = .ok () := done
  intro same
  have before : Reads (plainCreated .qcow2).2.files plainImage fun i => ((fun _ => none) i : Option UInt8).getD 0 :=
    .base rfl
  have itself : Backs after.files plainImage plainImage := ⟨_, placed, rfl⟩
  exact ((same _).mpr before).no_loop (.single itself)

end SnapshotManager

end restore

section accounting

open Framework

/-- The figures of a report: its success, how many actions and successful ones, how many checks passed and failed. -/
structure Figures where
  success : Bool
  actionsExecuted : Nat
  actionsSuccessful : Nat
  validationsPassed : Nat
  validationsFailed : Nat
  deriving DecidableEq

def RollbackReport.figures (r : RollbackReport) : Figures :=
  ⟨r.success, r.actionsExecuted, r.actionsSuccessful, r.validationsPassed, r.validationsFailed⟩

namespace Call

/-- The check after an action, if one is made. -/
def checked (validate : Bool) (result : RollbackResult) (status : ValidationStatus) : List ValidationStatus :=
  if validate && result.success then [status] else []

/-- The actions of a call. -/
def actions : Call → List RollbackResult
  | full _ restored _ _ => [⟨.restoreSnapshot, restored.isSome⟩]
  | partly revertFiles removeFiles _ => revertFiles.map executeRevertFile ++ removeFiles.map executeRemoveFile

/-- The checks of a call. -/
def validations : Call → List ValidationStatus
  | full _ restored sight validate =>
    checked validate ⟨.restoreSnapshot, restored.isSome⟩ (validateSnapshotRestored sight)
  | partly revertFiles removeFiles validate =>
    revertFiles.flatMap (fun f => checked validate (executeRevertFile f) (validateFileRestored f.existsAfter true)) ++
      removeFiles.flatMap fun f => checked validate (executeRemoveFile f) (validateFileRestored f.existsAfter false)

def validate : Call → Bool
  | full _ _ _ validate | partly _ _ validate => validate

def isPartial : Call → Bool
  | full .. => false
  | partly .. => true

def Succeeds (c : Call) : Prop := ∀ r ∈ c.actions, r.success = true

/-- What a report of this call is to say, from its own actions and checks. -/
def figures (c : Call) : Figures where
  success := c.actions.all (·.success) && (!c.validate || c.validations.count .fail == 0)
  actionsExecuted := c.actions.length
  actionsSuccessful := c.actions.countP (·.success)
  validationsPassed := c.validations.count .pass
  validationsFailed := c.validations.count .fail

end Call

namespace RollbackOrchestrator

variable {o : RollbackOrchestrator} {c : Call}

/-- The report is about this call, and only a call that succeeds turns the state to rolled back. -/
structure Truthful (o : RollbackOrchestrator) (c : Call) : Prop where
  report : (o.call c).2.figures = c.figures
  state : o.currentState ≠ .rolledBack → (o.step c).currentState = .rolledBack → c.Succeeds

/-- No action was executed before, and a partial rollback that fails finds the state rolled back already. -/
def FirstOfAll (o : RollbackOrchestrator) (c : Call) : Prop :=
  o.executed = [] ∧ (c.isPartial = true → o.currentState = .rolledBack ∨ c.Succeeds)

theorem check_record (validate : Bool) (result : RollbackResult) (status : ValidationStatus) :
    (o.record result).check (validate && result.success) status =
      { o with executed := o.executed ++ [result], validated := o.validated ++ Call.checked validate result status } := by
  unfold check record Call.checked
  split <;> simp

theorem foldl_check_record {α : Type} (o : RollbackOrchestrator) (validate : Bool) (exec : α → RollbackResult) (status : α → ValidationStatus)
    (fs : List α) :
    fs.foldl (fun o f => (o.record (exec f)).check (validate && (exec f).success) (status f)) o =
      { o with
        executed := o.executed ++ fs.map exec
        validated := o.validated ++ fs.flatMap fun f => Call.checked validate (exec f) (status f) } := by
  induction fs generalizing o with
  | nil => simp
  | cons f fs ih =>
    rw [List.foldl_cons, ih, check_record]
    simp

/-- A call adds its actions and checks to those before. -/
theorem step_eq (o : RollbackOrchestrator) (c : Call) :
    o.step c =
      { executed := o.executed ++ c.actions
        validated := o.validated ++ c.validations
        currentState := if c.isPartial || c.actions.all (·.success) then .rolledBack else o.currentState } := by
  cases c with
  | full snapshotId restored sight validate =>
    rw [step, call, executeFullRollback]
    cases restored with
    | none => simp [record, check, Call.actions, Call.validations, Call.checked, Call.isPartial]
    | some u => cases validate <;> simp [record, check, Call.actions, Call.validations, Call.checked]
  | partly revertFiles removeFiles validate =>
    have reverts := foldl_check_record o validate executeRevertFile
      (fun f => validateFileRestored f.existsAfter true) revertFiles
    have removes (o : RollbackOrchestrator) := foldl_check_record o validate executeRemoveFile
      (fun f => validateFileRestored f.existsAfter false) removeFiles
    change ({ removeFiles.foldl (removeFile validate) (revertFiles.foldl (revertFile validate) o) with
      currentState := MigrationState.rolledBack } : RollbackOrchestrator) = _
    unfold revertFile removeFile
    rw [reverts, removes]
    simp [Call.actions, Call.validations, Call.isPartial, List.append_assoc]

theorem failed_eq_zero (executed : List RollbackResult) :
    (executed.length - executed.countP (·.success) == 0) = executed.all (·.success) := by
  have bound : executed.countP (·.success) ≤ executed.length := List.countP_le_length
  have full : executed.countP (·.success) = executed.length ↔ ∀ r ∈ executed, r.success := List.countP_eq_length
  rw [Bool.eq_iff_iff, beq_iff_eq, List.all_eq_true, ← full]
  omega

theorem figures_call (o : RollbackOrchestrator) (c : Call) :
    (o.call c).2.figures =
      { success := (if c.isPartial then (o.step c).executed.all (·.success) else c.actions.all (·.success)) &&
          (!c.validate || (o.step c).validated.count .fail == 0)
        actionsExecuted := (o.step c).executed.length
        actionsSuccessful := (o.step c).executed.countP (·.success)
        validationsPassed := (o.step c).validated.count .pass
        validationsFailed := (o.step c).validated.count .fail } := by
  cases c with
  | full snapshotId restored sight validate =>
    simp [call, step, executeFullRollback, RollbackReport.figures, report, successful, checks, Call.isPartial,
      Call.actions, Call.validate]
  | partly revertFiles removeFiles validate =>
    simp only [call, step, executePartialRollback, RollbackReport.figures, report, successful, checks, Call.isPartial,
      Call.validate, failed_eq_zero]
    rfl

/-- Checks are made after actions only. -/
def Checking (o : RollbackOrchestrator) : Prop := o.executed = [] → o.validated = []

theorem truthful_iff (checking : Checking o) : Truthful o c ↔ FirstOfAll o c := by
  constructor
  · intro truthful
    have count := congrArg Figures.actionsExecuted truthful.report
    rw [figures_call, step_eq, Call.figures, List.length_append] at count
    dsimp only at count
    have none : o.executed = [] := List.length_eq_zero_iff.mp (by omega)
    refine ⟨none, fun isPartial => ?_⟩
    by_cases before : o.currentState = .rolledBack
    · exact Or.inl before
    · refine Or.inr (truthful.state before ?_)
      rw [step_eq, isPartial]
      rfl
  · rintro ⟨none, state⟩
    refine ⟨?_, fun before after => ?_⟩
    · rw [figures_call, step_eq, Call.figures, none, checking none]
      cases c.isPartial <;> simp
    · cases isPartial : c.isPartial with
      | true => exact (state isPartial).resolve_left before
      | false =>
        rw [step_eq, isPartial, Bool.false_or] at after
        by_contra failed
        rw [if_neg fun all => failed (List.all_eq_true.mp all)] at after
        exact before after

theorem checking_step (checking : Checking o) : Checking (o.step c) := by
  rw [Checking, step_eq]
  intro none
  obtain ⟨before, idle⟩ := List.append_eq_nil_iff.mp none
  have validations : c.validations = [] := by
    cases c with
    | full => simp [Call.actions] at idle
    | partly revertFiles removeFiles =>
      simp only [Call.actions, List.append_eq_nil_iff, List.map_eq_nil_iff] at idle
      simp [Call.validations, idle]
  simp [checking before, validations]

/-- In a run on a new orchestrator every report is about its own call, just if each call is the first with any action
and no partial rollback that fails makes the state rolled back. -/
theorem eachStep_truthful_iff (state : MigrationState) (calls : List Call) :
    EachStep step Truthful { currentState := state } calls ↔ EachStep step FirstOfAll { currentState := state } calls := by
  have same (o : RollbackOrchestrator) (c : Call) (checking : Checking o) : Truthful o c ↔ FirstOfAll o c :=
    truthful_iff checking
  have start : Checking { currentState := state } := fun _ => rfl
  exact eachStep_congr same (fun o c checking _ => checking_step checking) start

/-- A rollback that succeeds after one that failed reports both. -/
theorem not_truthful_second : ¬∀ (state : MigrationState) (calls : List Call),
    EachStep step Truthful { currentState := state } calls := by
  intro always
  have all := always .failed [.full "lost" none none true, .full "kept" (some ()) (some (some ⟨true, false, true⟩)) true]
  have count := congrArg Figures.actionsExecuted all.2.1.report
  revert count
  decide

end RollbackOrchestrator

end accounting

end H2kvm.Rollback
