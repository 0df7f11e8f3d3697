import Mathlib.Data.List.Lex
import Mathlib.Data.List.Sort
import H2kvm.Framework.Journal
import H2kvm.Worker.TimeInState
import H2kvm.Framework.Names

namespace H2kvm.Quality

open Framework Framework.Journal Worker

theorem head_toDigits {n : Nat} (pos : 0 < n) : (Nat.toDigits 10 n).head? ≠ some '0' := by
  induction n using Nat.strongRecOn with
  | ind n ih =>
    rw [Nat.toDigits_eq_if (by decide)]
    split
    · next small =>
      rw [List.head?_cons, Ne, Option.some.injEq, Nat.digitChar_eq_zero]
      omega
    · have smaller := ih (n / 10) (by omega) (by omega)
      rwa [List.head?_append_of_ne_nil _ Nat.toDigits_ne_nil]

section auditLogger

/-- `AuditEventType` -/
inductive AuditEventType where
  | vmDetected | vmMigrationStarted | vmMigrationCompleted | vmMigrationFailed
  | diskMounted | diskUnmounted | diskModified | diskConverted
  | fileRead | fileWritten | fileDeleted | fileModified
  | configModified | networkConfigChanged | fstabModified | bootloaderModified
  | permissionsChanged | userAccountModified | sshKeyModified
  | complianceScanStarted | complianceScanCompleted | complianceViolation
  | databaseDetected | databaseQuiesced | databaseResumed
  | backupCreated | backupRestored
  | systemError | systemWarning
  deriving DecidableEq

namespace AuditEventType

def value : AuditEventType → String
  | .vmDetected => "vm_detected"
  | .vmMigrationStarted => "vm_migration_started"
  | .vmMigrationCompleted => "vm_migration_completed"
  | .vmMigrationFailed => "vm_migration_failed"
  | .diskMounted => "disk_mounted"
  | .diskUnmounted => "disk_unmounted"
  | .diskModified => "disk_modified"
  | .diskConverted => "disk_converted"
  | .fileRead => "file_read"
  | .fileWritten => "file_written"
  | .fileDeleted => "file_deleted"
  | .fileModified => "file_modified"
  | .configModified => "config_modified"
  | .networkConfigChanged => "network_config_changed"
  | .fstabModified => "fstab_modified"
  | .bootloaderModified => "bootloader_modified"
  | .permissionsChanged => "permissions_changed"
  | .userAccountModified => "user_account_modified"
  | .sshKeyModified => "ssh_key_modified"
  | .complianceScanStarted => "compliance_scan_started"
  | .complianceScanCompleted => "compliance_scan_completed"
  | .complianceViolation => "compliance_violation"
  | .databaseDetected => "database_detected"
  | .databaseQuiesced => "database_quiesced"
  | .databaseResumed => "database_resumed"
  | .backupCreated => "backup_created"
  | .backupRestored => "backup_restored"
  | .systemError => "system_error"
  | .systemWarning => "system_warning"

def members : List AuditEventType :=
  [.vmDetected, .vmMigrationStarted, .vmMigrationCompleted, .vmMigrationFailed, .diskMounted, .diskUnmounted,
    .diskModified, .diskConverted, .fileRead, .fileWritten, .fileDeleted, .fileModified, .configModified,
    .networkConfigChanged, .fstabModified, .bootloaderModified, .permissionsChanged, .userAccountModified,
    .sshKeyModified, .complianceScanStarted, .complianceScanCompleted, .complianceViolation, .databaseDetected,
    .databaseQuiesced, .databaseResumed, .backupCreated, .backupRestored, .systemError, .systemWarning]

/-- `AuditEventType(value)` -/
def ofValue (value : String) : Option AuditEventType := members.find? (·.value == value)

@[simp] theorem ofValue_value (t : AuditEventType) : ofValue t.value = some t := by
  cases t <;> decide

end AuditEventType

/-! ### The fields of a record -/

def optional : Option String → Json
  | none => .null
  | some text => .str text

/-- A value of a field that holds a string or `None`. Others are never written there. -/
def optional? : Json → Option (Option String)
  | .null => some none
  | .str text => some (some text)
  | _ => none

def str? : Json → Option String
  | .str text => some text
  | _ => none

def dict? : Json → Option (List (String × Json))
  | .obj fields => some fields
  | _ => none

@[simp] theorem optional?_optional (text : Option String) : optional? (optional text) = some text := by
  cases text <;> rfl

/-- `f"{name}_{count:06d}"` -/
def recordId (name : String) (count : Nat) : String :=
  let digits := Nat.toDigits 10 count
  name ++ "_" ++ String.ofList (List.replicate (6 - digits.length) '0' ++ digits)

theorem recordId_inj {name : String} {m n : Nat} (pos : 0 < m) (pos' : 0 < n) (same : recordId name m = recordId name n) :
    m = n := by
  have trimmed {k : Nat} (pos : 0 < k) (zeros : Nat) :
      (List.replicate zeros '0' ++ Nat.toDigits 10 k).dropWhile (· == '0') = Nat.toDigits 10 k := by
    rw [List.dropWhile_append_of_pos (by simp)]
    have first := head_toDigits pos
    cases digits : Nat.toDigits 10 k with
    | nil => rfl
    | cons d ds =>
      rw [digits] at first
      exact List.dropWhile_cons_of_neg (by simpa using first)
  have lists := congrArg String.toList same
  simp only [recordId, String.toList_append, String.toList_ofList, List.append_cancel_left_eq] at lists
  have digits := congrArg (List.dropWhile (· == '0')) lists
  rw [trimmed pos, trimmed pos'] at digits
  exact Names.numeral_injective digits

/-! ### The audit log -/

structure AuditEvent where
  eventType : AuditEventType
  timestamp : Datetime
  eventId : Option String := none
  user : Option String := none
  sourceIp : Option String := none
  sessionId : Option String := none
  vmName : Option String := none
  resource : Option String := none
  action : Option String := none
  description : Option String := none
  result : String := "success"
  oldValue : Json := .null
  newValue : Json := .null
  metadata : List (String × Json) := []

/-- The arguments of `log_event`, and the time of the call. -/
structure LogEvent where
  eventType : AuditEventType
  vmName : Option String := none
  resource : Option String := none
  action : Option String := none
  description : Option String := none
  result : String := "success"
  oldValue : Json := .null
  newValue : Json := .null
  metadata : Option (List (String × Json)) := none
  now : Datetime

namespace AuditEvent

variable (iso : IsoFormat)

def toDict (e : AuditEvent) : Json :=
  .obj [("event_type", .str e.eventType.value), ("timestamp", .str (iso.isoformat e.timestamp)),
    ("event_id", optional e.eventId), ("user", optional e.user), ("source_ip", optional e.sourceIp),
    ("session_id", optional e.sessionId), ("vm_name", optional e.vmName), ("resource", optional e.resource),
    ("action", optional e.action), ("description", optional e.description), ("result", .str e.result),
    ("old_value", e.oldValue), ("new_value", e.newValue), ("metadata", .obj e.metadata)]

/-- The event of a line, in `get_events`. -/
def ofData (data : Json) : Option AuditEvent := do
  let fields ← dict? data
  let get (key : String) (default : Json) : Json := (fields.lookup key).getD default
  return {
    eventType := ← AuditEventType.ofValue (← str? (← fields.lookup "event_type"))
    timestamp := iso.fromisoformat (← str? (← fields.lookup "timestamp"))
    eventId := ← optional? (get "event_id" .null)
    user := ← optional? (get "user" .null)
    sourceIp := ← optional? (get "source_ip" .null)
    sessionId := ← optional? (get "session_id" .null)
    vmName := ← optional? (get "vm_name" .null)
    resource := ← optional? (get "resource" .null)
    action := ← optional? (get "action" .null)
    description := ← optional? (get "description" .null)
    result := ← str? (get "result" (.str "success"))
    oldValue := get "old_value" .null
    newValue := get "new_value" .null
    metadata := ← dict? (get "metadata" (.obj [])) }

theorem ofData_toDict (e : AuditEvent) : ofData iso (e.toDict iso) = some e := by
  have read : ofData iso (e.toDict iso) = (do
    return {
      eventType := ← AuditEventType.ofValue e.eventType.value
      timestamp := iso.fromisoformat (iso.isoformat e.timestamp)
      eventId := ← optional? (optional e.eventId)
      user := ← optional? (optional e.user)
      sourceIp := ← optional? (optional e.sourceIp)
      sessionId := ← optional? (optional e.sessionId)
      vmName := ← optional? (optional e.vmName)
      resource := ← optional? (optional e.resource)
      action := ← optional? (optional e.action)
      description := ← optional? (optional e.description)
      result := e.result
      oldValue := e.oldValue
      newValue := e.newValue
      metadata := e.metadata }) := rfl
  rw [read]
  simp [iso.inverse]

end AuditEvent

/-- `AuditLogger` of a session. -/
def auditLogger (c : Codec Json) (iso : IsoFormat) (sessionId : String) : Format LogEvent AuditEvent c.Text where
  make count call :=
    { eventType := call.eventType, timestamp := call.now, eventId := some (recordId sessionId count)
      sessionId := some sessionId, vmName := call.vmName, resource := call.resource, action := call.action
      description := call.description, result := call.result, oldValue := call.oldValue, newValue := call.newValue
      metadata := call.metadata.getD [] }
  write e := c.dump (e.toDict iso)
  read text := (c.parse text).bind (AuditEvent.ofData iso)
  read_write e := by rw [c.parse_dump, Option.bind_some, AuditEvent.ofData_toDict]

/-- `get_events` without filters. -/
def getEvents (c : Codec Json) (iso : IsoFormat) (sessionId : String) (log : Log c.Text) : List AuditEvent :=
  records (auditLogger c iso sessionId) log

end auditLogger

section changeTracker

/-- `ChangeType` -/
inductive ChangeType where
  | fileCreated | fileModified | fileDeleted | filePermissions | fileOwnership
  | packageInstalled | packageRemoved | packageUpgraded
  | serviceEnabled | serviceDisabled | serviceStarted | serviceStopped
  | kernelParameter | sysctlParameter | environmentVariable
  | networkConfig | hostname | fstabEntry | bootloader
  | userCreated | userDeleted | userModified | groupModified
  deriving DecidableEq

namespace ChangeType

def value : ChangeType → String
  | .fileCreated => "file_created"
  | .fileModified => "file_modified"
  | .fileDeleted => "file_deleted"
  | .filePermissions => "file_permissions"
  | .fileOwnership => "file_ownership"
  | .packageInstalled => "package_installed"
  | .packageRemoved => "package_removed"
  | .packageUpgraded => "package_upgraded"
  | .serviceEnabled => "service_enabled"
  | .serviceDisabled => "service_disabled"
  | .serviceStarted => "service_started"
  | .serviceStopped => "service_stopped"
  | .kernelParameter => "kernel_parameter"
  | .sysctlParameter => "sysctl_parameter"
  | .environmentVariable => "environment_variable"
  | .networkConfig => "network_config"
  | .hostname => "hostname"
  | .fstabEntry => "fstab_entry"
  | .bootloader => "bootloader"
  | .userCreated => "user_created"
  | .userDeleted => "user_deleted"
  | .userModified => "user_modified"
  | .groupModified => "group_modified"

def members : List ChangeType :=
  [.fileCreated, .fileModified, .fileDeleted, .filePermissions, .fileOwnership, .packageInstalled, .packageRemoved,
    .packageUpgraded, .serviceEnabled, .serviceDisabled, .serviceStarted, .serviceStopped, .kernelParameter,
    .sysctlParameter, .environmentVariable, .networkConfig, .hostname, .fstabEntry, .bootloader, .userCreated,
    .userDeleted, .userModified, .groupModified]

/-- `ChangeType(value)` -/
def ofValue (value : String) : Option ChangeType := members.find? (·.value == value)

@[simp] theorem ofValue_value (t : ChangeType) : ofValue t.value = some t := by
  cases t <;> decide

end ChangeType

structure Change where
  changeType : ChangeType
  timestamp : Datetime
  changeId : Option String := none
  resource : Option String := none
  description : Option String := none
  oldValue : Json := .null
  newValue : Json := .null
  reversible : Bool := true
  rollbackCommand : Option String := none
  reason : Option String := none
  metadata : List (String × Json) := []

/-- The arguments of `track_change`, and the time of the call. -/
structure TrackChange where
  changeType : ChangeType
  resource : Option String := none
  description : Option String := none
  oldValue : Json := .null
  newValue : Json := .null
  reversible : Bool := true
  rollbackCommand : Option String := none
  reason : Option String := none
  metadata : Option (List (String × Json)) := none
  now : Datetime

def bool? : Json → Option Bool
  | .bool b => some b
  | _ => none

namespace Change

variable (iso : IsoFormat)

def toDict (ch : Change) : Json :=
  .obj [("change_type", .str ch.changeType.value), ("timestamp", .str (iso.isoformat ch.timestamp)),
    ("change_id", optional ch.changeId), ("resource", optional ch.resource), ("description", optional ch.description),
    ("old_value", ch.oldValue), ("new_value", ch.newValue), ("reversible", .bool ch.reversible),
    ("rollback_command", optional ch.rollbackCommand), ("reason", optional ch.reason), ("metadata", .obj ch.metadata)]

/-- The change of a line, in `get_changes`. -/
def ofData (data : Json) : Option Change := do
  let fields ← dict? data
  let get (key : String) (default : Json) : Json := (fields.lookup key).getD default
  return {
    changeType := ← ChangeType.ofValue (← str? (← fields.lookup "change_type"))
    timestamp := iso.fromisoformat (← str? (← fields.lookup "timestamp"))
    changeId := ← optional? (get "change_id" .null)
    resource := ← optional? (get "resource" .null)
    description := ← optional? (get "description" .null)
    oldValue := get "old_value" .null
    newValue := get "new_value" .null
    reversible := ← bool? (get "reversible" (.bool true))
    rollbackCommand := ← optional? (get "rollback_command" .null)
    reason := ← optional? (get "reason" .null)
    metadata := ← dict? (get "metadata" (.obj [])) }

theorem ofData_toDict (ch : Change) : ofData iso (ch.toDict iso) = some ch := by
  have read : ofData iso (ch.toDict iso) = (do
    return {
      changeType := ← ChangeType.ofValue ch.changeType.value
      timestamp := iso.fromisoformat (iso.isoformat ch.timestamp)
      changeId := ← optional? (optional ch.changeId)
      resource := ← optional? (optional ch.resource)
      description := ← optional? (optional ch.description)
      oldValue := ch.oldValue
      newValue := ch.newValue
      reversible := ch.reversible
      rollbackCommand := ← optional? (optional ch.rollbackCommand)
      reason := ← optional? (optional ch.reason)
      metadata := ch.metadata }) := rfl
  rw [read]
  simp [iso.inverse]

/-- The command that takes the change back, if there is one. -/
def rollback (ch : Change) : Option String := if ch.reversible then ch.rollbackCommand.filter (· ≠ "") else none

end Change

/-- `ChangeTracker` of a VM. -/
def changeTracker (c : Codec Json) (iso : IsoFormat) (vmName : String) : Format TrackChange Change c.Text where
  make count call :=
    { changeType := call.changeType, timestamp := call.now, changeId := some (recordId vmName count)
      resource := call.resource, description := call.description, oldValue := call.oldValue, newValue := call.newValue
      reversible := call.reversible, rollbackCommand := call.rollbackCommand, reason := call.reason
      metadata := call.metadata.getD [] }
  write ch := c.dump (ch.toDict iso)
  read text := (c.parse text).bind (Change.ofData iso)
  read_write ch := by rw [c.parse_dump, Option.bind_some, Change.ofData_toDict]

/-- `get_changes` without filters. -/
def getChanges (c : Codec Json) (iso : IsoFormat) (vmName : String) (log : Log c.Text) : List Change :=
  records (changeTracker c iso vmName) log

section script

/-- `f"{description}"` -/
def shown (text : Option String) : String := text.getD "None"

def scriptHeader (iso : IsoFormat) (vmName : String) (now : Datetime) : List String :=
  ["#!/bin/bash", "# Rollback script for VM migration changes", "# VM: " ++ vmName, "# Generated: " ++ iso.isoformat now,
    "", "set -e  # Exit on error", ""]

/-- The lines of a change in the script, with its command. -/
def scriptLines (ch : Change) (command : String) : List String :=
  ["# " ++ ch.changeType.value ++ ": " ++ shown ch.description, "echo 'Rolling back: " ++ shown ch.description ++ "'",
    command, ""]

/-- `generate_rollback_script` -/
def generateRollbackScript (c : Codec Json) (iso : IsoFormat) (vmName : String) (log : Log c.Text) (now : Datetime) :
    String :=
  let changes := getChanges c iso vmName log
  let reversibleChanges := changes.reverse.filter fun ch => ch.reversible && !(ch.rollbackCommand.getD "").isEmpty
  "\n".intercalate (scriptHeader iso vmName now ++
    if reversibleChanges = [] then ["# No reversible changes found"]
    else reversibleChanges.flatMap fun ch => scriptLines ch (ch.rollbackCommand.getD ""))

end script

end changeTracker

section readBack

section

variable (c : Codec Json) (iso : IsoFormat)

/-- The reversible changes that have a command, with it. -/
def rollbacks (changes : List Change) : List (Change × String) := changes.filterMap fun ch => ch.rollback.map (ch, ·)

/-- The script has the lines of each rollback, the last change's first, and no others after its header. -/
def RollsBack (vmName : String) (now : Datetime) (changes : List Change) (script : String) : Prop :=
  script = "\n".intercalate (scriptHeader iso vmName now ++
    if rollbacks changes = [] then ["# No reversible changes found"]
    else (rollbacks changes).reverse.flatMap fun r => scriptLines r.1 r.2)

/-- The audit log gives back the events of the calls, each under an id of its own. -/
structure EventsReadBack (sessionId : String) (moves : List (Move LogEvent)) : Prop where
  events : getEvents c iso sessionId (run (step (auditLogger c iso sessionId)) {} moves) =
    made (auditLogger c iso sessionId) 0 moves
  ids : ((made (auditLogger c iso sessionId) 0 moves).map AuditEvent.eventId).Nodup

/-- The change log gives back the changes of the calls, each under an id of its own, and the script takes them back. -/
structure ChangesReadBack (vmName : String) (moves : List (Move TrackChange)) : Prop where
  changes : getChanges c iso vmName (run (step (changeTracker c iso vmName)) {} moves) =
    made (changeTracker c iso vmName) 0 moves
  ids : ((made (changeTracker c iso vmName) 0 moves).map Change.changeId).Nodup
  script : ∀ now, RollsBack iso vmName now (made (changeTracker c iso vmName) 0 moves)
    (generateRollbackScript c iso vmName (run (step (changeTracker c iso vmName)) {} moves) now)

variable {c iso}

theorem rollback_of_reversible (ch : Change) : ch.rollback =
    if ch.reversible && !(ch.rollbackCommand.getD "").isEmpty then some (ch.rollbackCommand.getD "") else none := by
  unfold Change.rollback
  cases ch.reversible with
  | false => rfl
  | true =>
    cases command : ch.rollbackCommand with
    | none => rfl
    | some text =>
      by_cases blank : text = ""
      · subst blank
        rfl
      · have filled : text.isEmpty = false := by simpa using blank
        simp [Option.filter, blank, filled]

theorem rollbacks_reverse (changes : List Change) : (rollbacks changes).reverse =
    (changes.reverse.filter fun ch => ch.reversible && !(ch.rollbackCommand.getD "").isEmpty).map
      fun ch => (ch, ch.rollbackCommand.getD "") := by
  unfold rollbacks
  rw [← List.filterMap_reverse]
  induction changes.reverse with
  | nil => rfl
  | cons ch changes ih =>
    rw [List.filterMap_cons, rollback_of_reversible]
    cases has : ch.reversible && !(ch.rollbackCommand.getD "").isEmpty with
    | false => simpa [has] using ih
    | true => simpa [has] using ih

variable (iso) in
theorem rollsBack_script (vmName : String) (log : Log c.Text) (now : Datetime) :
    RollsBack iso vmName now (getChanges c iso vmName log) (generateRollbackScript c iso vmName log now) := by
  unfold RollsBack generateRollbackScript
  dsimp only
  rw [rollbacks_reverse, List.flatMap_map]
  have blank : rollbacks (getChanges c iso vmName log) = [] ↔ ((getChanges c iso vmName log).reverse.filter fun ch =>
      ch.reversible && !(ch.rollbackCommand.getD "").isEmpty) = [] := by
    rw [← List.reverse_eq_nil_iff, rollbacks_reverse, List.map_eq_nil_iff]
  simp only [blank]

/-- The logs give back what was written just in case every line was written, and one process wrote them all. -/
theorem readBack_iff (c : Codec Json) (iso : IsoFormat) (sessionId vmName : String) (events : List (Move LogEvent))
    (changes : List (Move TrackChange)) :
    (EventsReadBack c iso sessionId events ↔ Written events ∧ OneProcess events) ∧
    (ChangesReadBack c iso vmName changes ↔ Written changes ∧ OneProcess changes) := by
  have apart (name : String) (m n : Nat) (pos : 0 < m) (pos' : 0 < n)
      (same : some (recordId name m) = some (recordId name n)) : m = n := recordId_inj pos pos' (Option.some.inj same)
  have events_ids := names_nodup_iff (F := auditLogger c iso sessionId) AuditEvent.eventId (fun _ _ => rfl)
    (apart sessionId) events
  have changes_ids := names_nodup_iff (F := changeTracker c iso vmName) Change.changeId (fun _ _ => rfl)
    (apart vmName) changes
  constructor
  · rw [← events_ids, ← records_eq_iff]
    exact ⟨fun back => ⟨back.events, back.ids⟩, fun back => ⟨back.1, back.2⟩⟩
  · rw [← changes_ids, ← records_eq_iff]
    refine ⟨fun back => ⟨back.changes, back.ids⟩, fun back => ⟨back.1, back.2, fun now => ?_⟩⟩
    have script := rollsBack_script iso vmName (run (step (changeTracker c iso vmName)) {} changes) now
    have same : getChanges c iso vmName (run (step (changeTracker c iso vmName)) {} changes) =
      made (changeTracker c iso vmName) 0 changes := back.1
    rwa [same] at script

end

/-- A session that is restarted, between two calls. -/
def restarted : List (Move LogEvent) :=
  [.call { eventType := .fileRead, now := 0 } .whole, .restart, .call { eventType := .fileRead, now := 1 } .whole]

/-- A change whose file cannot be opened. -/
def unopened : List (Move TrackChange) := [.call { changeType := .hostname, now := 0 } .lost]

theorem not_readBack : ¬ EventsReadBack (Codec.value Json) JobStateMachine.epochFormat "s" restarted ∧
    ¬ ChangesReadBack (Codec.value Json) JobStateMachine.epochFormat "dc/vm" unopened := by
  have twice : ¬ ((made (auditLogger (Codec.value Json) JobStateMachine.epochFormat "s") 0 restarted).map AuditEvent.eventId).Nodup := by
    decide
  exact ⟨fun back => twice back.ids, fun back => nomatch congrArg List.length back.changes⟩

end readBack

end H2kvm.Quality
