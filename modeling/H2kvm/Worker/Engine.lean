import H2kvm.Framework.Effects
import H2kvm.Worker.Queue
import H2kvm.Worker.Registry

namespace H2kvm.Worker

open Framework

def InvalidStateTransition.asException (e : InvalidStateTransition) : PyException :=
  ⟨"InvalidStateTransition", e.message, false⟩

structure ErrorInfo where
  phase : String
  code : String
  message : String
  stackTrace : Option String

structure JobOutput where
  fixedImage : Option String := none
  logs : Option String := none
  report : Option String := none
  intermediates : Option (List String) := none

structure JobMetrics where
  executionSeconds : Nat
  nbdAttachSeconds : Option Nat := none
  lvmActivateSeconds : Option Nat := none
  fsckSeconds : Option Nat := none
  initramfsSeconds : Option Nat := none
  diskReadBytes : Option Nat := none
  diskWriteBytes : Option Nat := none

structure JobResult where
  jobId : String
  status : JobState
  completedAt : Datetime
  outputs : Option JobOutput := none
  metrics : Option JobMetrics := none
  error : Option ErrorInfo := none
  workerId : Option String := none
  retryAttempt : Nat := 0

/-- The dictionary an operation returns; `execute_job` reads these two keys of it. -/
structure OperationResult where
  outputs : JobOutput
  metrics : List (String × Json)

/-- What `execute_job` meets outside itself: the hooks, the detector, the file system, the
bodies of the operations, the field checks of `JobMetrics` and the clock. Each may raise. -/
structure Environment where
  workerId : String
  eventCallback : ProgressEvent → Except PyException Unit
  recordMigrationStart : String → Except PyException Unit
  recordMigrationComplete : String → Int → Bool → Option String → Except PyException Unit
  detectCapabilities : Except PyException (Dict String Bool)
  pathExists : String → Except PyException Bool
  mkdir : String → Except PyException Unit
  inspect : JobSpec → Except PyException OperationResult
  convert : JobSpec → Except PyException OperationResult
  offlineFix : JobSpec → Except PyException OperationResult
  jobMetrics : Int → List (String × Json) → Except PyException JobMetrics
  write : Write
  writeError : PyException
  now : Nat → String
  utcnow : Nat → Datetime
  elapsed : Nat → Int
  formatExc : PyException → String

/-- Code that moves the job's machine and may raise; what was moved stays moved. -/
abbrev Exec := EStateM PyException JobStateMachine

namespace Exec

variable {α β : Type}

def lift : Except PyException α → Exec α
  | .ok a => pure a
  | .error e => throw e

def transition (st : JobState) (reason now : String) : Exec Unit := fun sm =>
  match sm.transition st reason now with
  | .ok sm' => .ok () sm'
  | .error e => .error e.asException sm

/-- `try: transition(...)` with `except InvalidStateTransition: pass`. -/
def tryTransition (st : JobState) (reason now : String) : Exec Unit := fun sm =>
  match sm.transition st reason now with
  | .ok sm' => .ok () sm'
  | .error _ => .ok () sm

theorem lift_of_ok {x : Except PyException α} {a : α} (h : x = .ok a) (sm : JobStateMachine) :
    lift x sm = .ok a sm := by
  rw [h]
  rfl

theorem lift_of_error {x : Except PyException α} {e : PyException} (h : x = .error e) (sm : JobStateMachine) :
    lift x sm = .error e sm := by
  rw [h]
  rfl

/-- The machine after an allowed move. -/
def moved (sm : JobStateMachine) (st : JobState) (reason now : String) : JobStateMachine :=
  ⟨sm.jobId, st, sm.stateHistory ++ [.moved sm.currentState.value st.value now reason]⟩

theorem transition_of_edge {sm : JobStateMachine} (a st : JobState) (h : sm.currentState = a)
    (edge : JobStateMachine.Allowed a st) (reason now : String) :
    transition st reason now sm = .ok () (moved sm st reason now) := by
  subst h
  have ht := (JobStateMachine.transition_ok_iff sm _ st reason now).mpr ⟨edge, rfl⟩
  simp [transition, ht, moved]

theorem tryTransition_of_allowed {sm : JobStateMachine} {st : JobState}
    (h : JobStateMachine.Allowed sm.currentState st) (reason now : String) :
    tryTransition st reason now sm = .ok () (moved sm st reason now) := by
  have ht := (JobStateMachine.transition_ok_iff sm _ st reason now).mpr ⟨h, rfl⟩
  simp [tryTransition, ht, moved]

theorem tryTransition_of_refused {sm : JobStateMachine} {st : JobState}
    (h : ¬ JobStateMachine.Allowed sm.currentState st) (reason now : String) :
    tryTransition st reason now sm = .ok () sm := by
  obtain ⟨e, ht⟩ := (JobStateMachine.transition_error_iff sm st reason now).mpr h
  simp [tryTransition, ht]

end Exec

namespace WorkerEngine

open Exec

variable (env : Environment)

/-- `_emit_event`: an `Exception` of the callback is logged, anything else passes through. -/
def emitEvent (event : ProgressEvent) : Exec Unit :=
  match env.eventCallback event with
  | .ok () => pure ()
  | .error e => if e.isFatal then throw e else pure ()

/-- `can_execute_job`: the first capability that is required and not there. -/
def canExecuteJob (capabilities : Dict String Bool) (requirements : List (String × Bool)) : Option String :=
  (requirements.find? fun r => r.2 && !(capabilities.lookup r.1).getD false).map fun r =>
    "Missing required capability: " ++ r.1

/-- `_validate_job`: `none` accepts the job, else the message it is rejected with. -/
def validateJob (job : JobSpec) : Except PyException (Option String) := do
  let capabilities ← env.detectCapabilities
  match canExecuteJob capabilities (requirements job) with
  | some reason => return some ("Worker cannot execute job: " ++ reason)
  | none =>
    if !(← env.pathExists job.image.path) then
      return some ("Image not found: " ++ job.image.path)
    if !(← env.pathExists job.artifacts.outputPath) then
      match env.mkdir job.artifacts.outputPath with
      | .ok () => return none
      | .error e =>
        if e.isFatal then throw e
        return some ("Cannot create output directory: " ++ e.message)
    return none

def validationEvent (job : JobSpec) : ProgressEvent :=
  { jobId := job.jobId, timestamp := env.utcnow 0, phase := "validation", progressPercent := 0
    message := "Validating job specification" }

def completedEvent (job : JobSpec) : ProgressEvent :=
  { jobId := job.jobId, timestamp := env.utcnow 1, phase := "completed", progressPercent := 100
    message := "Job completed in " ++ toString (env.elapsed 0) ++ "s" }

def failedEvent (job : JobSpec) (message : String) : ProgressEvent :=
  { jobId := job.jobId, timestamp := env.utcnow 2, phase := "failed", progressPercent := 0
    message := "Job failed: " ++ message }

/-- `_create_error_result`. -/
def createErrorResult (job : JobSpec) (phase code message : String) (stackTrace : Option String) : Exec JobResult := do
  emitEvent env (failedEvent env job message)
  let metrics ← lift (env.jobMetrics (env.elapsed 2) [])
  return { jobId := job.jobId, status := .failed, completedAt := env.utcnow 3, metrics := some metrics
           error := some ⟨phase, code, message, stackTrace⟩, workerId := some env.workerId }

def opInspect (job : JobSpec) : Exec OperationResult := do
  transition .progressing "Starting inspection" (env.now 5)
  lift (env.inspect job)

def opConvert (job : JobSpec) : Exec OperationResult := do
  transition .progressing "Starting conversion" (env.now 5)
  lift (env.convert job)

def opOfflineFix (job : JobSpec) : Exec OperationResult := do
  transition .progressing "Starting offline fix operation" (env.now 5)
  lift (env.offlineFix job)

/-- The operations the engine does not carry out yet. -/
def opPlaceholder : Exec OperationResult := pure ⟨{}, []⟩

def opBootRepair : Exec OperationResult := opPlaceholder

def opSelinuxPrep : Exec OperationResult := opPlaceholder

def opLvmRepair : Exec OperationResult := opPlaceholder

def opFsRepair : Exec OperationResult := opPlaceholder

def opInitramfsRegen : Exec OperationResult := opPlaceholder

/-- `_execute_operation`. -/
def executeOperation (job : JobSpec) : Exec OperationResult :=
  match job.operation with
  | .inspect => opInspect env job
  | .convert => opConvert env job
  | .offlineFix => opOfflineFix env job
  | .bootRepair => opBootRepair
  | .selinuxPrep => opSelinuxPrep
  | .lvmRepair => opLvmRepair
  | .fsRepair => opFsRepair
  | .initramfsRegen => opInitramfsRegen

/-- The `try` block of `execute_job`, after the job has been validated. -/
def runValidated (job : JobSpec) : Exec JobResult := do
  transition .validated "Job validated" (env.now 1)
  transition .queued "Immediately queued for execution" (env.now 2)
  transition .assigned ("Assigned to worker " ++ env.workerId) (env.now 3)
  transition .running "Execution started" (env.now 4)
  let operationResult ← executeOperation env job
  transition .completed "Job completed successfully" (env.now 6)
  lift (env.recordMigrationComplete job.operation.value (env.elapsed 0) true none)
  emitEvent env (completedEvent env job)
  let metrics ← lift (env.jobMetrics (env.elapsed 0) operationResult.metrics)
  return { jobId := job.jobId, status := .completed, completedAt := env.utcnow 3
           outputs := some operationResult.outputs, metrics := some metrics, workerId := some env.workerId }

/-- The `try` block of `execute_job`. -/
def attempt (job : JobSpec) : Exec JobResult := do
  emitEvent env (validationEvent env job)
  match ← lift (validateJob env job) with
  | some message =>
    transition .failed message (env.now 1)
    createErrorResult env job "validation" "VALIDATION_FAILED" message none
  | none => runValidated env job

/-- The `except Exception` block of `execute_job`. -/
def handle (job : JobSpec) (e : PyException) : Exec JobResult := do
  lift (env.recordMigrationComplete job.operation.value (env.elapsed 1) false (some e.typeName))
  tryTransition .failed e.message (env.now 7)
  createErrorResult env job "execution" "EXECUTION_FAILED" e.message (some (env.formatExc e))

/-- `execute_job`: what it returns or raises, and the registry it leaves. The machine it
works on is the one in the registry. -/
def executeJob (registry : JobRegistry) (job : JobSpec) : Except PyException JobResult × JobRegistry :=
  match env.recordMigrationStart job.operation.value with
  | .error e => (.error e, registry)
  | .ok () =>
    let (sm, registered) := registry.register job (env.now 0) env.write
    if env.write = .done then
      match attempt env job sm with
      | .ok result sm => (.ok result, registered.put sm)
      | .error e sm =>
        if e.isFatal then
          (.error e, registered.put sm)
        else
          match handle env job e sm with
          | .ok result sm => (.ok result, registered.put sm)
          | .error e sm => (.error e, registered.put sm)
    else
      (.error env.writeError, registered)

end WorkerEngine

end H2kvm.Worker

namespace H2kvm.Worker.WorkerEngine

open Framework Exec

variable {env : Environment} {job : JobSpec}

/-- The callback lets something through that `_emit_event` does not catch. -/
def Aborts (env : Environment) (event : ProgressEvent) : Prop :=
  ∃ e, env.eventCallback event = .error e ∧ e.isFatal = true

/-- `execute_job` gets as far as validating the job. -/
structure Starts (env : Environment) (job : JobSpec) : Prop where
  recorded : env.recordMigrationStart job.operation.value = .ok ()
  written : env.write = .done
  notified : ¬ Aborts env (validationEvent env job)

/-- The handler of `e` gets as far as returning its result. -/
structure Reports (env : Environment) (job : JobSpec) (e : PyException) : Prop where
  recorded : env.recordMigrationComplete job.operation.value (env.elapsed 1) false (some e.typeName) = .ok ()
  notified : ¬ Aborts env (failedEvent env job e.message)
  measured : ∃ metrics, env.jobMetrics (env.elapsed 2) [] = .ok metrics

/-- What the operation itself does once its machine is running. -/
def outcome (env : Environment) (job : JobSpec) : Except PyException OperationResult :=
  match job.operation with
  | .inspect => env.inspect job
  | .convert => env.convert job
  | .offlineFix => env.offlineFix job
  | _ => .ok ⟨{}, []⟩

/-- A hook or the check of the metrics raises `e` after the job was marked completed. -/
def RaisesAfterCompletion (env : Environment) (job : JobSpec) (out : OperationResult) (e : PyException) : Prop :=
  env.recordMigrationComplete job.operation.value (env.elapsed 0) true none = .error e ∨
    (env.recordMigrationComplete job.operation.value (env.elapsed 0) true none = .ok () ∧
      ¬ Aborts env (completedEvent env job) ∧ env.jobMetrics (env.elapsed 0) out.metrics = .error e)

/-- Validation accepts the job, or lets something fatal through, and nothing the handler
would report is raised outside the operation. -/
def Settled (env : Environment) (job : JobSpec) : Prop :=
  Starts env job → match validateJob env job with
    | .error e => e.isFatal = true ∨ ¬ Reports env job e
    | .ok (some _) => False
    | .ok none => ∀ out e, outcome env job = .ok out → RaisesAfterCompletion env job out e →
        e.isFatal = true ∨ ¬ Reports env job e

/-- A returned result has the status the registry has. -/
def StatusAgrees (env : Environment) (registry : JobRegistry) (job : JobSpec) : Prop :=
  ∀ result registry', executeJob env registry job = (.ok result, registry') →
    (registry'.find job.jobId).map JobStateMachine.currentState = some result.status

/-- A returned result has the status the registry has, and a job that validation rejects is
reported so. -/
def Agrees (env : Environment) (registry : JobRegistry) (job : JobSpec) : Prop :=
  StatusAgrees env registry job ∧
  (Starts env job → ∀ message, validateJob env job = .ok (some message) →
    ∃ result registry', executeJob env registry job = (.ok result, registry') ∧
      result.error.map ErrorInfo.code = some "VALIDATION_FAILED")

theorem emitEvent_of_aborts {event : ProgressEvent} (h : Aborts env event) (sm : JobStateMachine) :
    ∃ e, e.isFatal = true ∧ emitEvent env event sm = .error e sm := by
  obtain ⟨e, he, hf⟩ := h
  refine ⟨e, hf, ?_⟩
  simp only [emitEvent, he, hf, if_true]
  rfl

theorem emitEvent_of_not_aborts {event : ProgressEvent} (h : ¬ Aborts env event) (sm : JobStateMachine) :
    emitEvent env event sm = .ok () sm := by
  unfold emitEvent
  cases he : env.eventCallback event with
  | ok u => rfl
  | error e =>
    have hf : ¬ e.isFatal = true := fun hf => h ⟨e, he, hf⟩
    simp only [if_neg hf]
    rfl

theorem createErrorResult_of_accepted {message : String} {metrics : JobMetrics}
    (quiet : ¬ Aborts env (failedEvent env job message)) (measured : env.jobMetrics (env.elapsed 2) [] = .ok metrics)
    (phase code : String) (stackTrace : Option String) (sm : JobStateMachine) :
    createErrorResult env job phase code message stackTrace sm =
      .ok { jobId := job.jobId, status := .failed, completedAt := env.utcnow 3, metrics := some metrics
            error := some ⟨phase, code, message, stackTrace⟩, workerId := some env.workerId } sm := by
  unfold createErrorResult
  rw [bind_of_ok (emitEvent_of_not_aborts quiet sm), bind_of_ok (lift_of_ok measured sm)]
  rfl

theorem createErrorResult_of_raises {message : String}
    (h : Aborts env (failedEvent env job message) ∨ ∀ metrics, env.jobMetrics (env.elapsed 2) [] ≠ .ok metrics)
    (phase code : String) (stackTrace : Option String) (sm : JobStateMachine) :
    ∃ e, createErrorResult env job phase code message stackTrace sm = .error e sm := by
  unfold createErrorResult
  by_cases quiet : ¬ Aborts env (failedEvent env job message)
  · rw [bind_of_ok (emitEvent_of_not_aborts quiet sm)]
    have rejects := h.resolve_left quiet
    cases hm : env.jobMetrics (env.elapsed 2) [] with
    | ok metrics => exact absurd hm (rejects metrics)
    | error e => exact ⟨e, bind_of_error (lift_of_error rfl sm)⟩
  · obtain ⟨e, -, he⟩ := emitEvent_of_aborts (not_not.mp quiet) sm
    exact ⟨e, bind_of_error he⟩

/-- The state the handler leaves: failed where the table allows it, else as it found it. -/
def failedFrom (st : JobState) : JobState :=
  if JobStateMachine.Allowed st .failed then .failed else st

theorem tryTransition_failed (reason now : String) (sm : JobStateMachine) :
    ∃ sm', tryTransition .failed reason now sm = .ok () sm' ∧ sm'.jobId = sm.jobId ∧
      sm'.currentState = failedFrom sm.currentState := by
  by_cases allowed : JobStateMachine.Allowed sm.currentState .failed
  · exact ⟨_, tryTransition_of_allowed allowed reason now, rfl, (if_pos allowed).symm⟩
  · exact ⟨sm, tryTransition_of_refused allowed reason now, rfl, (if_neg allowed).symm⟩

theorem handle_of_reports {e : PyException} (h : Reports env job e) (sm : JobStateMachine) :
    ∃ result sm', handle env job e sm = .ok result sm' ∧ result.status = .failed ∧
      result.error.map ErrorInfo.code = some "EXECUTION_FAILED" ∧ sm'.jobId = sm.jobId ∧
      sm'.currentState = failedFrom sm.currentState := by
  obtain ⟨metrics, measured⟩ := h.measured
  obtain ⟨sm', ht, hid, hst⟩ := tryTransition_failed e.message (env.now 7) sm
  unfold handle
  rw [bind_of_ok (lift_of_ok h.recorded sm), bind_of_ok ht,
    createErrorResult_of_accepted h.notified measured]
  exact ⟨_, sm', rfl, rfl, rfl, hid, hst⟩

theorem handle_of_not_reports {e : PyException} (h : ¬ Reports env job e) (sm : JobStateMachine) :
    ∃ e' sm', handle env job e sm = .error e' sm' := by
  unfold handle
  cases hr : env.recordMigrationComplete job.operation.value (env.elapsed 1) false (some e.typeName) with
  | error e' => exact ⟨e', sm, bind_of_error (lift_of_error rfl sm)⟩
  | ok u =>
    obtain ⟨sm', ht, -, -⟩ := tryTransition_failed e.message (env.now 7) sm
    have raises : Aborts env (failedEvent env job e.message) ∨
        ∀ metrics, env.jobMetrics (env.elapsed 2) [] ≠ .ok metrics := by
      by_contra quiet
      obtain ⟨notified, rejects⟩ := not_or.mp quiet
      obtain ⟨metrics, measured⟩ := not_forall.mp rejects
      exact h ⟨hr, notified, metrics, not_not.mp measured⟩
    obtain ⟨e', he⟩ := createErrorResult_of_raises raises "execution" "EXECUTION_FAILED"
      (some (env.formatExc e)) sm'
    exact ⟨e', sm', by rw [bind_of_ok (lift_of_ok rfl sm), bind_of_ok ht, he]⟩

theorem executeOperation_run {sm : JobStateMachine} (h : sm.currentState = .running) :
    ∃ sm', sm'.jobId = sm.jobId ∧ (sm'.currentState = .running ∨ sm'.currentState = .progressing) ∧
      executeOperation env job sm = lift (outcome env job) sm' := by
  have progressing (reason : String) (body : Except PyException OperationResult) :
      ∃ sm', sm'.jobId = sm.jobId ∧ (sm'.currentState = .running ∨ sm'.currentState = .progressing) ∧
        (transition .progressing reason (env.now 5) >>= fun _ => lift body) sm = lift body sm' :=
    ⟨moved sm .progressing reason (env.now 5), rfl, .inr rfl,
      bind_of_ok (transition_of_edge .running .progressing h (by decide) reason (env.now 5))⟩
  unfold executeOperation outcome
  cases job.operation with
  | inspect => exact progressing _ _
  | convert => exact progressing _ _
  | offlineFix => exact progressing _ _
  | bootRepair => exact ⟨sm, rfl, .inl h, rfl⟩
  | selinuxPrep => exact ⟨sm, rfl, .inl h, rfl⟩
  | lvmRepair => exact ⟨sm, rfl, .inl h, rfl⟩
  | fsRepair => exact ⟨sm, rfl, .inl h, rfl⟩
  | initramfsRegen => exact ⟨sm, rfl, .inl h, rfl⟩

/-- The four moves from a new machine to a running one. -/
theorem runValidated_started (env : Environment) (job : JobSpec) {sm : JobStateMachine} (h : sm.currentState = .created) :
    ∃ sm', sm'.jobId = sm.jobId ∧ (sm'.currentState = .running ∨ sm'.currentState = .progressing) ∧
      runValidated env job sm = (lift (outcome env job) >>= fun operationResult => do
        transition .completed "Job completed successfully" (env.now 6)
        lift (env.recordMigrationComplete job.operation.value (env.elapsed 0) true none)
        emitEvent env (completedEvent env job)
        let metrics ← lift (env.jobMetrics (env.elapsed 0) operationResult.metrics)
        return { jobId := job.jobId, status := .completed, completedAt := env.utcnow 3
                 outputs := some operationResult.outputs, metrics := some metrics
                 workerId := some env.workerId }) sm' := by
  let validated := moved sm .validated "Job validated" (env.now 1)
  let queued := moved validated .queued "Immediately queued for execution" (env.now 2)
  let assigned := moved queued .assigned ("Assigned to worker " ++ env.workerId) (env.now 3)
  let running := moved assigned .running "Execution started" (env.now 4)
  have h1 := transition_of_edge .created .validated h (by decide) "Job validated" (env.now 1)
  have h2 : transition .queued _ _ validated = .ok () queued :=
    transition_of_edge .validated .queued rfl (by decide) _ _
  have h3 : transition .assigned _ _ queued = .ok () assigned :=
    transition_of_edge .queued .assigned rfl (by decide) _ _
  have h4 : transition .running _ _ assigned = .ok () running :=
    transition_of_edge .assigned .running rfl (by decide) _ _
  obtain ⟨sm', hid, hst, he⟩ : ∃ sm', sm'.jobId = running.jobId ∧
      (sm'.currentState = .running ∨ sm'.currentState = .progressing) ∧
      executeOperation env job running = lift (outcome env job) sm' := executeOperation_run rfl
  refine ⟨sm', hid, hst, ?_⟩
  unfold runValidated
  rw [bind_of_ok h1, bind_of_ok h2, bind_of_ok h3, bind_of_ok h4]
  cases ho : outcome env job with
  | ok out =>
    rw [ho] at he
    rw [bind_of_ok (he.trans (lift_of_ok rfl sm')), bind_of_ok (lift_of_ok rfl sm')]
  | error e =>
    rw [ho] at he
    rw [bind_of_error (he.trans (lift_of_error rfl sm')), bind_of_error (lift_of_error rfl sm')]

theorem runValidated_of_error {sm : JobStateMachine} (h : sm.currentState = .created) {e : PyException}
    (ho : outcome env job = .error e) :
    ∃ sm', runValidated env job sm = .error e sm' ∧ sm'.jobId = sm.jobId ∧
      failedFrom sm'.currentState = .failed := by
  obtain ⟨sm', hid, hst, he⟩ := runValidated_started env job h
  refine ⟨sm', by rw [he, bind_of_error (lift_of_error ho sm')], hid, ?_⟩
  rcases hst with hst | hst
  · rw [hst]
    decide
  · rw [hst]
    decide

/-- The operation returns: the machine is completed, whatever is raised after that. -/
theorem runValidated_of_ok {sm : JobStateMachine} (h : sm.currentState = .created) {out : OperationResult}
    (ho : outcome env job = .ok out) :
    ∃ sm', sm'.jobId = sm.jobId ∧ sm'.currentState = .completed ∧
      ((∃ result, runValidated env job sm = .ok result sm' ∧ result.status = .completed ∧
          ∀ e, ¬ RaisesAfterCompletion env job out e) ∨
        (∃ e, runValidated env job sm = .error e sm' ∧ e.isFatal = true ∧
          ∀ e', ¬ RaisesAfterCompletion env job out e') ∨
        ∃ e, runValidated env job sm = .error e sm' ∧
          ∀ e', RaisesAfterCompletion env job out e' ↔ e' = e) := by
  obtain ⟨sm1, hid, hst, he⟩ := runValidated_started env job h
  have allowed : JobStateMachine.Allowed sm1.currentState .completed := by
    rcases hst with hst | hst
    · rw [hst]
      decide
    · rw [hst]
      decide
  refine ⟨moved sm1 .completed "Job completed successfully" (env.now 6), hid, rfl, ?_⟩
  rw [he, bind_of_ok (lift_of_ok ho sm1), bind_of_ok (transition_of_edge _ .completed rfl allowed _ _)]
  cases hr : env.recordMigrationComplete job.operation.value (env.elapsed 0) true none with
  | error e =>
    rw [bind_of_error (lift_of_error rfl _)]
    exact .inr (.inr ⟨e, rfl, fun e' => by simp [RaisesAfterCompletion, hr, eq_comm]⟩)
  | ok u =>
    rw [bind_of_ok (lift_of_ok rfl _)]
    by_cases quiet : ¬ Aborts env (completedEvent env job)
    · rw [bind_of_ok (emitEvent_of_not_aborts quiet _)]
      cases hm : env.jobMetrics (env.elapsed 0) out.metrics with
      | error e =>
        rw [bind_of_error (lift_of_error rfl _)]
        exact .inr (.inr ⟨e, rfl, fun e' => by simp [RaisesAfterCompletion, hr, hm, quiet, eq_comm]⟩)
      | ok metrics =>
        rw [bind_of_ok (lift_of_ok rfl _)]
        exact .inl ⟨_, rfl, rfl, fun e' => by simp [RaisesAfterCompletion, hr, hm]⟩
    · obtain ⟨e, hf, hemit⟩ := emitEvent_of_aborts (not_not.mp quiet)
        (moved sm1 .completed "Job completed successfully" (env.now 6))
      rw [bind_of_error hemit]
      exact .inr (.inl ⟨e, rfl, hf, fun e' => by simp [RaisesAfterCompletion, hr, not_not.mp quiet]⟩)

/-- The machine `register` makes for the job. -/
def newMachine (env : Environment) (job : JobSpec) : JobStateMachine := .init job.jobId .created (env.now 0)

theorem executeJob_of_not_starts (h : ¬ Starts env job) (registry : JobRegistry) :
    ∃ e registry', executeJob env registry job = (.error e, registry') := by
  unfold executeJob
  cases hs : env.recordMigrationStart job.operation.value with
  | error e => exact ⟨e, registry, rfl⟩
  | ok u =>
    by_cases hw : env.write = .done
    · have aborts : Aborts env (validationEvent env job) := by
        by_contra quiet
        exact h ⟨hs, hw, quiet⟩
      obtain ⟨e, hf, hemit⟩ := emitEvent_of_aborts aborts (newMachine env job)
      have he : attempt env job (newMachine env job) = .error e (newMachine env job) := bind_of_error hemit
      refine ⟨e, (registry.register job (env.now 0) env.write).2.put (newMachine env job), ?_⟩
      have hsm (w : Write) : (registry.register job (env.now 0) w).1 = newMachine env job := rfl
      simp only [hw, hsm, he, hf, if_true]
    · exact ⟨env.writeError, _, by simp only [hw, if_false]; rfl⟩

/-- Past the start, `execute_job` is its `try` block with the handler around it. -/
theorem executeJob_of_starts (h : Starts env job) (registry : JobRegistry) :
    ∃ registered : JobRegistry, executeJob env registry job =
      match attempt env job (newMachine env job) with
      | .ok result sm => (.ok result, registered.put sm)
      | .error e sm =>
        if e.isFatal then
          (.error e, registered.put sm)
        else
          match handle env job e sm with
          | .ok result sm => (.ok result, registered.put sm)
          | .error e sm => (.error e, registered.put sm) := by
  refine ⟨(registry.register job (env.now 0) env.write).2, ?_⟩
  unfold executeJob
  simp only [h.recorded, h.written, if_true]
  rfl

theorem executeJob_of_ok (h : Starts env job) (registry : JobRegistry) {result : JobResult}
    {sm : JobStateMachine} (ha : attempt env job (newMachine env job) = .ok result sm) :
    ∃ registered : JobRegistry, executeJob env registry job = (.ok result, registered.put sm) := by
  obtain ⟨registered, he⟩ := executeJob_of_starts h registry
  rw [ha] at he
  exact ⟨registered, he⟩

theorem executeJob_of_escapes (h : Starts env job) (registry : JobRegistry) {e : PyException}
    {sm : JobStateMachine} (ha : attempt env job (newMachine env job) = .error e sm)
    (escapes : e.isFatal = true ∨ ¬ Reports env job e) :
    ∃ e' registry', executeJob env registry job = (.error e', registry') := by
  obtain ⟨registered, he⟩ := executeJob_of_starts h registry
  rw [ha] at he
  by_cases hf : e.isFatal = true
  · exact ⟨e, registered.put sm, by simpa only [hf, if_true] using he⟩
  · obtain ⟨e', sm', hh⟩ := handle_of_not_reports (escapes.resolve_left hf) sm
    exact ⟨e', registered.put sm', by simpa [hf, hh] using he⟩

theorem executeJob_of_reports (h : Starts env job) (registry : JobRegistry) {e : PyException}
    {sm : JobStateMachine} (ha : attempt env job (newMachine env job) = .error e sm)
    (hf : ¬ e.isFatal = true) (reports : Reports env job e) :
    ∃ result registry', executeJob env registry job = (.ok result, registry') ∧ result.status = .failed ∧
      result.error.map ErrorInfo.code = some "EXECUTION_FAILED" ∧
      (registry'.find sm.jobId).map JobStateMachine.currentState = some (failedFrom sm.currentState) := by
  obtain ⟨registered, he⟩ := executeJob_of_starts h registry
  obtain ⟨result, sm', hh, hs, hc, hid, hst⟩ := handle_of_reports reports sm
  rw [ha] at he
  refine ⟨result, registered.put sm', by simpa [hf, hh] using he, hs, hc, ?_⟩
  rw [← hid, JobRegistry.find_put, Option.map_some, hst]

/-- After an exception in the `try` block, the result has the registry's status exactly when
no result is returned or the machine could still fail. -/
theorem status_agrees_iff_of_error (h : Starts env job) (registry : JobRegistry) {e : PyException}
    {sm : JobStateMachine} (ha : attempt env job (newMachine env job) = .error e sm) (hid : sm.jobId = job.jobId) :
    StatusAgrees env registry job ↔
      (e.isFatal = true ∨ ¬ Reports env job e) ∨ failedFrom sm.currentState = .failed := by
  unfold StatusAgrees
  by_cases escapes : e.isFatal = true ∨ ¬ Reports env job e
  · obtain ⟨e', registry', he⟩ := executeJob_of_escapes h registry ha escapes
    refine iff_of_true ?_ (.inl escapes)
    intro result registry'' hr
    rw [he] at hr
    simp at hr
  · obtain ⟨hf, hreports⟩ := not_or.mp escapes
    obtain ⟨result, registry', he, hs, -, hst⟩ := executeJob_of_reports h registry ha hf (not_not.mp hreports)
    rw [or_iff_right escapes, he]
    constructor
    · intro agrees
      have same := agrees result registry' rfl
      rw [← hid, hst, hs, Option.some.injEq] at same
      exact same
    · intro failed result' registry'' hr
      obtain ⟨hres, rfl⟩ := Prod.mk.inj hr
      obtain rfl := Except.ok.inj hres
      rw [← hid, hst, hs, failed]

theorem attempt_validated (h : Starts env job) :
    attempt env job (newMachine env job) = (lift (validateJob env job) >>= fun rejected =>
      match rejected with
      | some message => do
        transition .failed message (env.now 1)
        createErrorResult env job "validation" "VALIDATION_FAILED" message none
      | none => runValidated env job) (newMachine env job) :=
  bind_of_ok (emitEvent_of_not_aborts h.notified (newMachine env job))

theorem attempt_rejected (h : Starts env job) {message : String} (hv : validateJob env job = .ok (some message)) :
    ∃ e, e.isFatal = false ∧ attempt env job (newMachine env job) = .error e (newMachine env job) := by
  have refused : ¬ JobStateMachine.Allowed (newMachine env job).currentState .failed := by
    change ¬ JobStateMachine.Allowed .created .failed
    decide
  obtain ⟨e, ht⟩ := (JobStateMachine.transition_error_iff _ _ message (env.now 1)).mpr refused
  have hx : transition .failed message (env.now 1) (newMachine env job) =
      .error e.asException (newMachine env job) := by
    simp only [transition, ht]
  refine ⟨e.asException, rfl, ?_⟩
  rw [attempt_validated h, bind_of_ok (lift_of_ok hv _)]
  exact bind_of_error hx

theorem agrees_iff_status (h : ∀ message, validateJob env job ≠ .ok (some message)) (registry : JobRegistry) :
    Agrees env registry job ↔ StatusAgrees env registry job :=
  and_iff_left fun _ message hv => absurd hv (h message)

/-- No job that validation rejects is reported so. -/
theorem not_agrees_of_rejected (h : Starts env job) (registry : JobRegistry) {message : String}
    (hv : validateJob env job = .ok (some message)) : ¬ Agrees env registry job := by
  intro agrees
  obtain ⟨e, hf, ha⟩ := attempt_rejected h hv
  obtain ⟨result, registry', he, hcode⟩ := agrees.2 h message hv
  by_cases reports : Reports env job e
  · obtain ⟨result', registry'', he', -, hcode', -⟩ := executeJob_of_reports h registry ha (by simp [hf]) reports
    rw [he] at he'
    obtain ⟨hres, -⟩ := Prod.mk.inj he'
    have same : result = result' := Except.ok.inj hres
    rw [← same, hcode] at hcode'
    simp at hcode'
  · obtain ⟨e', registry'', he'⟩ := executeJob_of_escapes h registry ha (.inr reports)
    rw [he] at he'
    simp at he'

/-- Once the operation has returned, only what is raised after it can go wrong. -/
theorem status_agrees_iff_of_returned (h : Starts env job) (registry : JobRegistry) {out : OperationResult}
    (hv : validateJob env job = .ok none) (ho : outcome env job = .ok out) :
    StatusAgrees env registry job ↔
      ∀ e, RaisesAfterCompletion env job out e → e.isFatal = true ∨ ¬ Reports env job e := by
  have ha : attempt env job (newMachine env job) = runValidated env job (newMachine env job) := by
    rw [attempt_validated h, bind_of_ok (lift_of_ok hv _)]
  have created : (newMachine env job).currentState = .created := rfl
  obtain ⟨sm, hid, hst, hcases⟩ := runValidated_of_ok created ho
  rcases hcases with ⟨result, hr, hs, none_raised⟩ | ⟨e, hr, hf, none_raised⟩ | ⟨e, hr, only⟩
  · obtain ⟨registered, he⟩ := executeJob_of_ok h registry (ha.trans hr)
    refine iff_of_true ?_ fun e' raises => absurd raises (none_raised e')
    intro result' registry' hres
    rw [he] at hres
    obtain ⟨hok, hreg⟩ := Prod.mk.inj hres
    have hk : job.jobId = sm.jobId := hid.symm
    rw [← hreg, ← Except.ok.inj hok, hk, JobRegistry.find_put, Option.map_some, hst, hs]
  · have status := status_agrees_iff_of_error h registry (ha.trans hr) hid
    exact iff_of_true (status.mpr (.inl (.inl hf))) fun e' raises => absurd raises (none_raised e')
  · have status := status_agrees_iff_of_error h registry (ha.trans hr) hid
    have stuck : ¬ failedFrom sm.currentState = .failed := by
      rw [hst]
      decide
    rw [status, or_iff_left stuck]
    constructor
    · intro escapes e' raises
      rw [(only e').mp raises]
      exact escapes
    · intro h'
      exact h' e ((only e).mpr rfl)

/-- `execute_job` agrees with the registry, and reports rejected jobs as such, exactly when
no job reaches the handler from outside the operation. -/
theorem executeJob_agrees_iff (env : Environment) (registry : JobRegistry) (job : JobSpec) :
    Agrees env registry job ↔ Settled env job := by
  by_cases starts : Starts env job
  · unfold Settled
    rw [forall_prop_of_true starts]
    cases hv : validateJob env job with
    | error e =>
      have ha : attempt env job (newMachine env job) = .error e (newMachine env job) := by
        rw [attempt_validated starts, bind_of_error (lift_of_error hv _)]
      have stuck : ¬ failedFrom (newMachine env job).currentState = .failed := by
        change ¬ failedFrom .created = .failed
        decide
      rw [agrees_iff_status (by simp [hv]), status_agrees_iff_of_error starts registry ha rfl, or_iff_left stuck]
    | ok rejected =>
      cases rejected with
      | some message => exact iff_of_false (not_agrees_of_rejected starts registry hv) id
      | none =>
        rw [agrees_iff_status (by simp [hv])]
        cases ho : outcome env job with
        | error e =>
          have ha : attempt env job (newMachine env job) = runValidated env job (newMachine env job) := by
            rw [attempt_validated starts, bind_of_ok (lift_of_ok hv _)]
          have created : (newMachine env job).currentState = .created := rfl
          obtain ⟨sm, hr, hid, failed⟩ := runValidated_of_error created ho
          have status := status_agrees_iff_of_error starts registry (ha.trans hr) hid
          exact iff_of_true (status.mpr (.inr failed)) fun out e' hout => by simp at hout
        | ok out =>
          rw [status_agrees_iff_of_returned starts registry hv ho]
          constructor
          · intro h out' e hout
            rw [← Except.ok.inj hout]
            exact h e
          · intro h e
            exact h out e rfl
  · obtain ⟨e, registry', he⟩ := executeJob_of_not_starts starts registry
    refine iff_of_true ⟨?_, fun h => absurd h starts⟩ fun h => absurd h starts
    intro result registry'' hr
    rw [he] at hr
    simp at hr

/-- A host where every hook returns and the image of no job is there. -/
def imagesMissing : Environment where
  workerId := "w1"
  eventCallback _ := .ok ()
  recordMigrationStart _ := .ok ()
  recordMigrationComplete _ _ _ _ := .ok ()
  detectCapabilities := .ok ∅
  pathExists _ := .ok false
  mkdir _ := .ok ()
  inspect _ := .ok ⟨{}, []⟩
  convert _ := .ok ⟨{}, []⟩
  offlineFix _ := .ok ⟨{}, []⟩
  jobMetrics seconds _ := .ok { executionSeconds := seconds.toNat }
  write := .done
  writeError := ⟨"OSError", "", false⟩
  now _ := "t0"
  utcnow _ := 0
  elapsed _ := 0
  formatExc _ := ""

/-- A rejected job is returned as `FAILED` with the code of an execution failure, and stays
`CREATED` in the registry. -/
theorem executeJob_disagrees :
    let job := createSampleJobSpec "a" 0 "/images/a.qcow2" "/out" .inspect
    let registry : JobRegistry := ⟨∅, ⟨∅, by simp⟩, by simp⟩
    let (result, registry') := executeJob imagesMissing registry job
    validateJob imagesMissing job = .ok (some "Image not found: /images/a.qcow2") ∧
      result.toOption.map (fun r => (r.status, r.error.map ErrorInfo.code)) = some (.failed, some "EXECUTION_FAILED") ∧
      (registry'.find "a").map JobStateMachine.currentState = some .created ∧ ¬ Agrees imagesMissing registry job := by
  intro job registry
  have rejected : validateJob imagesMissing job = .ok (some "Image not found: /images/a.qcow2") := by rfl
  have starts : Starts imagesMissing job := by
    refine ⟨rfl, rfl, fun aborts => ?_⟩
    obtain ⟨e, he, -⟩ := aborts
    simp [imagesMissing] at he
  exact ⟨rejected, by decide, by decide, not_agrees_of_rejected starts registry rejected⟩

end H2kvm.Worker.WorkerEngine
