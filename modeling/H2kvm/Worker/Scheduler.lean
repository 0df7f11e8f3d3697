import H2kvm.Worker.Queue
import H2kvm.Worker.Registry

namespace H2kvm.Worker

open Framework

/-- The exceptions the modelled operations raise. -/
inductive Failure where
  | invalidStateTransition (e : InvalidStateTransition)
  | osError
  | valueError (message : String)
  | httpException (statusCode : Nat) (detail : String)
  deriving DecidableEq

/-- The stores the scheduler and the REST handlers work on: one job registry, one queue, the
worker registry and `_assigned_jobs` (job id to worker id). -/
structure Service (codec : Codec JobSpec) where
  registry : JobRegistry
  queue : JobQueue codec
  workers : Dict String WorkerCapabilities
  assigned : Dict String String

/-- The outcome of saving a file as the exception it raises. -/
def Write.result : Write → Except Failure Unit
  | .done => .ok ()
  | .openFails => .error .osError
  | .writeFails => .error .osError

def raised {α : Type} : Except InvalidStateTransition α → Except Failure α
  | .ok a => .ok a
  | .error e => .error (.invalidStateTransition e)

namespace Service

variable {codec : Codec JobSpec}

/-- A service started on what earlier runs left on disk. -/
def boot (stateDir : StateDir) (queue : JobQueue codec) (workers : Dict String WorkerCapabilities) :
    Service codec :=
  ⟨⟨∅, stateDir, by simp⟩, queue, workers, ∅⟩

/-- `JobScheduler.submit_job`. `clock` gives the successive readings of the clock, `w` the
fate of the state file and `written` that of the queue file. -/
def submitJob (s : Service codec) (job : JobSpec) (clock : Nat → String) (w : Write) (written : Bool) :
    Except Failure Unit × Service codec :=
  let (sm, registry) := s.registry.register job (clock 0) w
  match w.result with
  | .error e => (.error e, { s with registry })
  | .ok () =>
    match sm.transition .validated "Job validated" (clock 1) with
    | .error e => (.error (.invalidStateTransition e), { s with registry })
    | .ok sm =>
      match sm.transition .queued "Job queued for execution" (clock 2) with
      | .error e => (.error (.invalidStateTransition e), { s with registry := registry.put sm })
      | .ok sm =>
        (.ok (), { s with registry := registry.put sm, queue := s.queue.enqueue job written })

/-- `JobScheduler.assign_job`. The job leaves the queue and is recorded as assigned before
its machine is moved. -/
def assignJob (s : Service codec) (workerId now : String) :
    Except Failure (Option JobSpec) × Service codec :=
  match s.workers.lookup workerId with
  | none => (.ok none, s)
  | some worker =>
    match s.queue.dequeue (some worker.capabilities) with
    | (none, queue) => (.ok none, { s with queue })
    | (some job, queue) =>
      let assigned := s.assigned.insert job.jobId workerId
      let (result, registry) := s.registry.advance job.jobId .assigned ("Assigned to worker " ++ workerId) now
      ((raised result).map fun _ => some job, { s with registry, queue, assigned })

/-- The state `complete_job` moves a job to, and the reason it records. -/
def outcomeState (success : Bool) : JobState := if success then .completed else .failed

def outcomeReason (success : Bool) (reason : String) : String :=
  if reason ≠ "" then reason else if success then "Job completed" else "Job failed"

/-- `JobScheduler.complete_job`. -/
def completeJob (s : Service codec) (jobId : String) (success : Bool) (reason now : String) :
    Except Failure Unit × Service codec :=
  let assigned := s.assigned.erase jobId
  let (result, registry) := s.registry.advance jobId (outcomeState success) (outcomeReason success reason) now
  (raised result, { s with registry, assigned })

/-- `JobRegistry.update_state`. -/
def updateState (s : Service codec) (jobId : String) (st : JobState) (reason now : String) (w : Write) :
    Except Failure Unit × Service codec :=
  match s.registry.get jobId with
  | (none, registry) =>
    (.error (.valueError ("Job '" ++ jobId ++ "' not found. It may have completed or been removed. " ++
      "Check active jobs with the job listing endpoint.")), { s with registry })
  | (some sm, registry) =>
    match sm.transition st reason now with
    | .error e => (.error (.invalidStateTransition e), { s with registry })
    | .ok sm => (w.result, { s with registry := (registry.put sm).save sm w })

structure JobSubmitResponse where
  jobId : String
  state : JobState
  message : String
  queuePosition : Option Nat

/-- `POST /jobs`. -/
def postJob (s : Service codec) (job : JobSpec) (queue : Bool) (clock : Nat → String) (w : Write)
    (written : Bool) : Except Failure JobSubmitResponse × Service codec :=
  let failed := Failure.httpException 500 "Failed to submit job"
  let sm := JobStateMachine.init job.jobId .created (clock 0)
  match sm.transition .created "Job submitted via REST API" (clock 1) with
  | .error _ => (.error failed, s)
  | .ok sm =>
    match sm.transition .validated "Job spec validated successfully" (clock 2) with
    | .error _ => (.error failed, s)
    | .ok sm =>
      let registry := (s.registry.put sm).save sm w
      match w.result with
      | .error _ => (.error failed, { s with registry })
      | .ok () =>
        if queue then
          let jobQueue := s.queue.enqueue job written
          match sm.transition .queued ("Added to queue with priority " ++ toString job.priority) (clock 3) with
          | .error _ => (.error failed, { s with registry, queue := jobQueue })
          | .ok sm =>
            (.ok ⟨job.jobId, sm.currentState, "Job queued successfully", some jobQueue.listJobs.length⟩,
              { s with registry := registry.put sm, queue := jobQueue })
        else
          (.ok ⟨job.jobId, sm.currentState, "Job submitted successfully", none⟩, { s with registry })

/-- `POST /queue/dequeue`. -/
def dequeueJob (s : Service codec) (worker : WorkerCapabilities) (now : String) :
    Except Failure (Option JobSpec) × Service codec :=
  match s.queue.dequeue (some worker.capabilities) with
  | (none, queue) => (.ok none, { s with queue })
  | (some job, queue) =>
    match s.registry.advance job.jobId .assigned ("Assigned to worker " ++ worker.workerId) now with
    | (.ok (), registry) => (.ok (some job), { s with registry, queue })
    | (.error _, registry) =>
      (.error (.httpException 500 "Failed to dequeue job"), { s with registry, queue })

/-- `DELETE /jobs/{job_id}`; the reply carries the job's id and new state. -/
def cancelJob (s : Service codec) (jobId now : String) :
    Except Failure (String × JobState) × Service codec :=
  match s.registry.get jobId with
  | (none, registry) =>
    (.error (.httpException 404 ("Job " ++ jobId ++ " not found")), { s with registry })
  | (some sm, registry) =>
    if sm.isTerminal then
      (.error (.httpException 400 ("Job " ++ jobId ++ " is already in terminal state " ++ sm.currentState.value)),
        { s with registry })
    else
      match sm.transition .cancelled "Cancelled via REST API" now with
      | .ok sm => (.ok (jobId, .cancelled), { s with registry := registry.put sm })
      | .error _ => (.error (.httpException 500 "Failed to cancel job"), { s with registry })

/-- One call into the scheduler, the registry or the REST API. -/
inductive Operation where
  | submitJob (job : JobSpec) (clock : Nat → String) (w : Write) (written : Bool)
  | assignJob (workerId now : String)
  | completeJob (jobId : String) (success : Bool) (reason now : String)
  | updateState (jobId : String) (st : JobState) (reason now : String) (w : Write)
  | postJob (job : JobSpec) (queue : Bool) (clock : Nat → String) (w : Write) (written : Bool)
  | dequeueJob (worker : WorkerCapabilities) (now : String)
  | cancelJob (jobId now : String)
  | registerWorker (worker : WorkerCapabilities)

/-- The exception an operation raises, if any, and the service it leaves. -/
def perform (s : Service codec) : Operation → Except Failure Unit × Service codec
  | .submitJob job clock w written => s.submitJob job clock w written
  | .assignJob workerId now => let (r, s) := s.assignJob workerId now; (r.map fun _ => (), s)
  | .completeJob jobId success reason now => s.completeJob jobId success reason now
  | .updateState jobId st reason now w => s.updateState jobId st reason now w
  | .postJob job queue clock w written =>
    let (r, s) := s.postJob job queue clock w written; (r.map fun _ => (), s)
  | .dequeueJob worker now => let (r, s) := s.dequeueJob worker now; (r.map fun _ => (), s)
  | .cancelJob jobId now => let (r, s) := s.cancelJob jobId now; (r.map fun _ => (), s)
  | .registerWorker worker => (.ok (), { s with workers := s.workers.insert worker.workerId worker })

def step (s : Service codec) (op : Operation) : Service codec := (s.perform op).2

theorem dequeue_none {q queue : JobQueue codec} {caps : Option (Dict String Bool)}
    (h : q.dequeue caps = (none, queue)) : queue = q := by
  rcases JobQueue.dequeue_cases q caps with ⟨he, -⟩ | ⟨p, job, -, he, -, -⟩
  · rw [he] at h
    exact (Prod.mk.inj h).2.symm
  · rw [he] at h
    simp at h

/-- `assign_job` finds nothing to hand out, or takes a job and advances its machine. -/
theorem assignJob_cases (s : Service codec) (workerId now : String) :
    (s.assignJob workerId now = (.ok none, s) ∧
      ∀ worker ∈ s.workers.lookup workerId, (s.queue.dequeue (some worker.capabilities)).1 = none) ∨
    ∃ worker job queue, s.workers.lookup workerId = some worker ∧
      s.queue.dequeue (some worker.capabilities) = (some job, queue) ∧
      s.assignJob workerId now =
        ((raised (s.registry.advance job.jobId .assigned ("Assigned to worker " ++ workerId) now).1).map
            fun _ => some job,
          { s with registry := (s.registry.advance job.jobId .assigned ("Assigned to worker " ++ workerId) now).2
                   queue := queue
                   assigned := s.assigned.insert job.jobId workerId }) := by
  cases hw : s.workers.lookup workerId with
  | none => exact .inl ⟨by simp [assignJob, hw], by simp⟩
  | some worker =>
    cases hd : s.queue.dequeue (some worker.capabilities) with
    | mk found queue =>
      cases found with
      | none =>
        have hq := dequeue_none hd
        subst hq
        exact .inl ⟨by simp [assignJob, hw, hd], by simp [hd]⟩
      | some job => exact .inr ⟨worker, job, queue, rfl, hd, by simp [assignJob, hw, hd]⟩

/-- `dequeue_job` finds nothing to hand out, or takes a job and advances its machine. -/
theorem dequeueJob_cases (s : Service codec) (worker : WorkerCapabilities) (now : String) :
    (s.dequeueJob worker now = (.ok none, s) ∧ (s.queue.dequeue (some worker.capabilities)).1 = none) ∨
    ∃ job queue reply, s.queue.dequeue (some worker.capabilities) = (some job, queue) ∧
      s.dequeueJob worker now =
        (reply,
          { s with registry :=
                     (s.registry.advance job.jobId .assigned ("Assigned to worker " ++ worker.workerId) now).2
                   queue := queue }) ∧
      (reply.map (fun _ => ()) = .ok () ↔
        (s.registry.advance job.jobId .assigned ("Assigned to worker " ++ worker.workerId) now).1 = .ok ()) := by
  cases hd : s.queue.dequeue (some worker.capabilities) with
  | mk found queue =>
    cases found with
    | none =>
      have hq := dequeue_none hd
      subst hq
      exact .inl ⟨by simp [dequeueJob, hd], rfl⟩
    | some job =>
      cases ha : s.registry.advance job.jobId .assigned ("Assigned to worker " ++ worker.workerId) now with
      | mk result registry =>
        cases result with
        | ok u => exact .inr ⟨job, queue, .ok (some job), rfl, by simp [dequeueJob, hd, ha], by simp [ha, Except.map]⟩
        | error e =>
          exact .inr ⟨job, queue, .error (.httpException 500 "Failed to dequeue job"), rfl,
            by simp [dequeueJob, hd, ha], by simp [ha, Except.map]⟩

/-- `update_state` raises and only looks up, or moves the machine and tries to save it. -/
theorem updateState_cases (s : Service codec) (jobId : String) (st : JobState) (reason now : String) (w : Write) :
    (∃ e, s.updateState jobId st reason now w = (.error e, { s with registry := (s.registry.get jobId).2 }) ∧
      ∀ sm ∈ s.registry.find jobId, ∃ e, sm.transition st reason now = .error e) ∨
    (∃ sm sm', s.registry.find jobId = some sm ∧ sm.transition st reason now = .ok sm' ∧
      s.updateState jobId st reason now w =
        (w.result, { s with registry := ((s.registry.get jobId).2.put sm').save sm' w })) := by
  unfold updateState JobRegistry.find
  cases hg : s.registry.get jobId with
  | mk found registry =>
    cases found with
    | none => exact .inl ⟨_, rfl, by simp⟩
    | some sm =>
      cases ht : sm.transition st reason now with
      | error e => exact .inl ⟨.invalidStateTransition e, by simp [ht], by simp [ht]⟩
      | ok sm' => exact .inr ⟨sm, sm', rfl, ht, by simp [ht]⟩

theorem cancelled_of_not_terminal {sm : JobStateMachine} (h : sm.isTerminal = false) (reason now : String) :
    ∃ sm', sm.transition .cancelled reason now = .ok sm' := by
  refine ⟨_, (JobStateMachine.transition_ok_iff _ _ _ _ _).mpr ⟨?_, rfl⟩⟩
  have hs : sm.currentState ∉ terminalStates := by simpa [JobStateMachine.isTerminal] using h
  revert hs
  cases sm.currentState <;> decide

/-- `cancel_job` raises for a job that is unknown or already terminal, else cancels it. -/
theorem cancelJob_cases (s : Service codec) (jobId now : String) :
    (∃ e, s.cancelJob jobId now = (.error e, { s with registry := (s.registry.get jobId).2 }) ∧
      ∀ sm ∈ s.registry.find jobId, sm.isTerminal = true) ∨
    (∃ sm sm', s.registry.find jobId = some sm ∧ sm.isTerminal = false ∧
      sm.transition .cancelled "Cancelled via REST API" now = .ok sm' ∧
      s.cancelJob jobId now =
        (.ok (jobId, .cancelled), { s with registry := (s.registry.get jobId).2.put sm' })) := by
  unfold cancelJob JobRegistry.find
  cases hg : s.registry.get jobId with
  | mk found registry =>
    cases found with
    | none => exact .inl ⟨_, rfl, by simp⟩
    | some sm =>
      cases hs : sm.isTerminal with
      | true =>
        refine .inl ⟨.httpException 400
          ("Job " ++ jobId ++ " is already in terminal state " ++ sm.currentState.value), ?_, ?_⟩ <;> simp [hs]
      | false =>
        obtain ⟨sm', ht⟩ := cancelled_of_not_terminal hs "Cancelled via REST API" now
        exact .inr ⟨sm, sm', rfl, hs, ht, by simp [hs, ht]⟩

end Service

end H2kvm.Worker
