import H2kvm.Framework.Run
import H2kvm.Worker.Scheduler

namespace H2kvm.Worker

open Framework

section durability

namespace JobRegistry

/-- What a restart reads from disk is what memory holds, for every job in memory. -/
def Durable (r : JobRegistry) : Prop :=
  ∀ jobId sm, r.jobs.lookup jobId = some sm → ∃ saved, JobStateMachine.load jobId r.stateDir = some saved ∧
    saved.currentState = sm.currentState ∧ saved.stateHistory = sm.stateHistory

theorem get_durable {r : JobRegistry} (h : r.Durable) (jobId : String) : (r.get jobId).2.Durable := by
  rcases get_cases r jobId with he | ⟨loaded, -, hl, he⟩
  · rw [he]
    exact h
  · rw [he]
    have hk := JobStateMachine.load_jobId hl
    subst hk
    intro other sm hm
    by_cases ho : other = loaded.jobId
    · subst ho
      simp only [put, AList.lookup_insert, Option.some.injEq] at hm
      subst hm
      exact ⟨loaded, hl, rfl, rfl⟩
    · simp only [put, AList.lookup_insert_ne ho] at hm
      exact h other sm hm

/-- A machine put in memory and saved agrees with its file; the other files are untouched. -/
theorem save_durable {r : JobRegistry} (h : r.Durable) (sm : JobStateMachine) :
    ((r.put sm).save sm .done).Durable := by
  intro jobId found hm
  by_cases he : jobId = sm.jobId
  · subst he
    simp only [save, put, AList.lookup_insert, Option.some.injEq] at hm
    subst hm
    exact ⟨sm, JobStateMachine.load_save sm r.stateDir, rfl, rfl⟩
  · simp only [save, put, AList.lookup_insert_ne he] at hm
    obtain ⟨saved, hl, hs⟩ := h jobId found hm
    exact ⟨saved, (JobStateMachine.load_save_other sm r.stateDir .done he).trans hl, hs⟩

end JobRegistry

namespace Service

variable {codec : Codec JobSpec}

/-- The operation leaves no machine moved and unsaved: it saves the machine it moves and the
write succeeds, or it moves none. `submit_job` is never such an operation, for it moves the
machine twice after its only save. -/
def Persists (s : Service codec) : Operation → Prop
  | .submitJob _ _ _ _ => False
  | .assignJob workerId _ => ∀ worker ∈ s.workers.lookup workerId,
      ∀ job ∈ (s.queue.dequeue (some worker.capabilities)).1, s.registry.moves job.jobId .assigned = false
  | .completeJob jobId success _ _ => s.registry.moves jobId (outcomeState success) = false
  | .updateState jobId st _ _ w => w = .done ∨ s.registry.moves jobId st = false
  | .postJob _ queue _ w _ => queue = false ∧ w = .done
  | .dequeueJob worker _ =>
      ∀ job ∈ (s.queue.dequeue (some worker.capabilities)).1, s.registry.moves job.jobId .assigned = false
  | .cancelJob jobId _ => ∀ sm ∈ s.registry.find jobId, sm.isTerminal = true
  | .registerWorker _ => True

instance (s : Service codec) (op : Operation) : Decidable (s.Persists op) := by
  cases op <;> unfold Persists <;> infer_instance

theorem assignJob_durable {s : Service codec} (h : s.registry.Durable) {workerId now : String}
    (hp : s.Persists (.assignJob workerId now)) : (s.assignJob workerId now).2.registry.Durable := by
  rcases assignJob_cases s workerId now with ⟨he, -⟩ | ⟨worker, job, queue, hw, hd, he⟩
  · rw [he]
    exact h
  · have hm := hp worker hw job (by rw [hd]; rfl)
    rw [he, JobRegistry.advance_of_moves_false hm]
    exact JobRegistry.get_durable h job.jobId

theorem dequeueJob_durable {s : Service codec} (h : s.registry.Durable) {worker : WorkerCapabilities}
    {now : String} (hp : s.Persists (.dequeueJob worker now)) : (s.dequeueJob worker now).2.registry.Durable := by
  rcases dequeueJob_cases s worker now with ⟨he, -⟩ | ⟨job, queue, reply, hd, he, -⟩
  · rw [he]
    exact h
  · have hm := hp job (by rw [hd]; rfl)
    rw [he, JobRegistry.advance_of_moves_false hm]
    exact JobRegistry.get_durable h job.jobId

theorem updateState_durable {s : Service codec} (h : s.registry.Durable) {jobId : String} {st : JobState}
    {reason now : String} {w : Write} (hp : s.Persists (.updateState jobId st reason now w)) :
    (s.updateState jobId st reason now w).2.registry.Durable := by
  have hg := JobRegistry.get_durable h jobId
  rcases updateState_cases s jobId st reason now w with ⟨e, he, -⟩ | ⟨sm, sm', hf, ht, he⟩
  · rw [he]
    exact hg
  · rcases hp with hw | hm
    · subst hw
      rw [he]
      exact JobRegistry.save_durable hg sm'
    · obtain ⟨e, hr⟩ := JobRegistry.transition_of_moves_false hm hf reason now
      rw [hr] at ht
      simp at ht

theorem cancelJob_durable {s : Service codec} (h : s.registry.Durable) {jobId now : String}
    (hp : s.Persists (.cancelJob jobId now)) : (s.cancelJob jobId now).2.registry.Durable := by
  rcases cancelJob_cases s jobId now with ⟨e, he, -⟩ | ⟨sm, sm', hf, hs, -, -⟩
  · rw [he]
    exact JobRegistry.get_durable h jobId
  · have ht := hp sm hf
    rw [hs] at ht
    simp at ht

theorem postJob_unqueued (s : Service codec) (job : JobSpec) (clock : Nat → String) (written : Bool) :
    ∃ sm, (s.postJob job false clock .done written).2.registry = (s.registry.put sm).save sm .done :=
  ⟨_, rfl⟩

theorem step_durable (s : Service codec) (op : Operation) (h : s.registry.Durable) (hp : s.Persists op) :
    (s.step op).registry.Durable := by
  cases op with
  | submitJob job clock w written => exact hp.elim
  | assignJob workerId now => exact assignJob_durable h hp
  | completeJob jobId success reason now =>
    change (s.registry.advance jobId (outcomeState success) _ now).2.Durable
    rw [JobRegistry.advance_of_moves_false hp]
    exact JobRegistry.get_durable h jobId
  | updateState jobId st reason now w => exact updateState_durable h hp
  | postJob job queue clock w written =>
    obtain ⟨rfl, rfl⟩ := hp
    obtain ⟨sm, he⟩ := postJob_unqueued s job clock written
    change (s.postJob job false clock .done written).2.registry.Durable
    rw [he]
    exact JobRegistry.save_durable h sm
  | dequeueJob worker now => exact dequeueJob_durable h hp
  | cancelJob jobId now => exact cancelJob_durable h hp
  | registerWorker worker => exact h

theorem boot_durable (stateDir : StateDir) (queue : JobQueue codec) (workers : Dict String WorkerCapabilities) :
    (boot stateDir queue workers).registry.Durable := by
  intro jobId sm h
  simp [boot] at h

end Service

end durability

section atomicity

namespace Service

variable {codec : Codec JobSpec}

/-- The queue, `_assigned_jobs` and every job's machine are the same. -/
def Unchanged (s t : Service codec) : Prop :=
  t.queue = s.queue ∧ t.assigned = s.assigned ∧ ∀ jobId, t.registry.find jobId = s.registry.find jobId

/-- If the operation raises, it has changed nothing. -/
def Atomic (s : Service codec) (op : Operation) : Prop :=
  (s.perform op).1 ≠ .ok () → s.Unchanged (s.step op)

theorem atomic_of_ok {s : Service codec} {op : Operation} (h : (s.perform op).1 = .ok ()) : s.Atomic op :=
  fun raises => absurd h raises

/-- Where the operation raises, it is atomic only if it changed nothing. -/
theorem atomic_iff_of_raises {s : Service codec} {op : Operation} (h : (s.perform op).1 ≠ .ok ()) :
    s.Atomic op ↔ s.Unchanged (s.step op) :=
  ⟨fun atomic => atomic h, fun unchanged _ => unchanged⟩

@[simp] theorem write_result_ok_iff (w : Write) : w.result = .ok () ↔ w = .done := by
  cases w <;> simp [Write.result]

theorem find_put_eq_iff (r : JobRegistry) (sm : JobStateMachine) :
    (∀ jobId, (r.put sm).find jobId = r.find jobId) ↔ r.find sm.jobId = some sm := by
  constructor
  · intro h
    rw [← h sm.jobId, JobRegistry.find_put]
  · intro h jobId
    by_cases he : jobId = sm.jobId
    · subst he
      rw [JobRegistry.find_put, h]
    · exact JobRegistry.find_put_other r sm he

/-- An operation that raises only when the file of a machine already put in memory cannot be
written. -/
theorem atomic_iff_of_save {s : Service codec} {op : Operation} {w : Write} (sm : JobStateMachine)
    (returns : w = .done → (s.perform op).1 = .ok ())
    (fails : w ≠ .done → ∃ e, s.perform op = (.error e, { s with registry := (s.registry.put sm).save sm w })) :
    s.Atomic op ↔ w = .done ∨ s.registry.find sm.jobId = some sm := by
  by_cases hw : w = .done
  · exact iff_of_true (atomic_of_ok (returns hw)) (.inl hw)
  · obtain ⟨e, failed⟩ := fails hw
    rw [atomic_iff_of_raises (by rw [failed]; simp), or_iff_right hw]
    simp only [Unchanged, step, failed, true_and, JobRegistry.find_save_put]
    exact find_put_eq_iff s.registry sm

theorem submitJob_atomic_iff (s : Service codec) (job : JobSpec) (clock : Nat → String) (w : Write)
    (written : Bool) : s.Atomic (.submitJob job clock w written) ↔
      w = .done ∨ s.registry.find job.jobId = some (.init job.jobId .created (clock 0)) := by
  refine atomic_iff_of_save (.init job.jobId .created (clock 0)) ?_ ?_
  · intro hw
    subst hw
    rfl
  · intro hw
    refine ⟨.osError, ?_⟩
    cases w with
    | done => exact absurd rfl hw
    | openFails => rfl
    | writeFails => rfl

/-- The machine `POST /jobs` puts in memory before it saves it. -/
def postedMachine (job : JobSpec) (clock : Nat → String) : JobStateMachine :=
  ⟨job.jobId, .validated, [.created JobState.created.value (clock 0) "Job created",
    .moved JobState.created.value JobState.created.value (clock 1) "Job submitted via REST API",
    .moved JobState.created.value JobState.validated.value (clock 2) "Job spec validated successfully"]⟩

theorem postJob_atomic_iff (s : Service codec) (job : JobSpec) (queue : Bool) (clock : Nat → String) (w : Write)
    (written : Bool) : s.Atomic (.postJob job queue clock w written) ↔
      w = .done ∨ s.registry.find job.jobId = some (postedMachine job clock) := by
  refine atomic_iff_of_save (postedMachine job clock) ?_ ?_
  · intro hw
    subst hw
    cases queue <;> rfl
  · intro hw
    refine ⟨.httpException 500 "Failed to submit job", ?_⟩
    cases w with
    | done => exact absurd rfl hw
    | openFails => rfl
    | writeFails => rfl

/-- A queue that handed out a job is not the queue it was. -/
theorem dequeue_some_ne {q queue : JobQueue codec} {caps : Option (Dict String Bool)} {job : JobSpec}
    (h : q.dequeue caps = (some job, queue)) : queue ≠ q := by
  rcases JobQueue.dequeue_cases q caps with ⟨he, -⟩ | ⟨p, found, hpick, he, hmem, -⟩
  · rw [he] at h
    simp at h
  · intro same
    rw [he] at h
    obtain ⟨-, hq⟩ := Prod.mk.inj h
    have erased : queue.listJobs = q.listJobs.erase found := by
      rw [← hq]
      exact Buckets.flat_pull JobQueue.priorities_nodup hpick
    have shorter := List.length_erase_of_mem hmem
    have nonempty := List.length_pos_of_mem hmem
    rw [← erased, same] at shorter
    omega

theorem raised_ok_iff (result : Except InvalidStateTransition Unit) : raised result = .ok () ↔ result = .ok () := by
  cases result <;> simp [raised]

theorem assignJob_atomic_iff (s : Service codec) (workerId now : String) :
    s.Atomic (.assignJob workerId now) ↔
      ∀ worker ∈ s.workers.lookup workerId, ∀ job ∈ (s.queue.dequeue (some worker.capabilities)).1,
        s.registry.Accepts job.jobId .assigned := by
  rcases assignJob_cases s workerId now with ⟨he, hnone⟩ | ⟨worker, job, queue, hw, hd, he⟩
  · have returns : (s.perform (.assignJob workerId now)).1 = .ok () := by simp [perform, he, Except.map]
    refine iff_of_true (atomic_of_ok returns) ?_
    intro worker hw job hj
    rw [hnone worker hw] at hj
    simp at hj
  · have handed : (∀ w ∈ s.workers.lookup workerId, ∀ j ∈ (s.queue.dequeue (some w.capabilities)).1,
        s.registry.Accepts j.jobId .assigned) ↔ s.registry.Accepts job.jobId .assigned := by simp [hw, hd]
    rw [handed, ← JobRegistry.advance_ok_iff s.registry job.jobId .assigned ("Assigned to worker " ++ workerId) now]
    cases hr : (s.registry.advance job.jobId .assigned ("Assigned to worker " ++ workerId) now).1 with
    | ok u =>
      have returns : (s.perform (.assignJob workerId now)).1 = .ok () := by
        simp [perform, he, hr, raised, Except.map]
      simp [atomic_of_ok returns]
    | error e =>
      have raises : (s.perform (.assignJob workerId now)).1 ≠ .ok () := by
        simp [perform, he, hr, raised, Except.map]
      rw [atomic_iff_of_raises raises]
      refine iff_of_false (fun unchanged => ?_) (by simp)
      have same : queue = s.queue := by simpa [step, perform, he] using unchanged.1
      exact dequeue_some_ne hd same

theorem dequeueJob_atomic_iff (s : Service codec) (worker : WorkerCapabilities) (now : String) :
    s.Atomic (.dequeueJob worker now) ↔
      ∀ job ∈ (s.queue.dequeue (some worker.capabilities)).1, s.registry.Accepts job.jobId .assigned := by
  rcases dequeueJob_cases s worker now with ⟨he, hnone⟩ | ⟨job, queue, reply, hd, he, hreply⟩
  · have returns : (s.perform (.dequeueJob worker now)).1 = .ok () := by simp [perform, he, Except.map]
    refine iff_of_true (atomic_of_ok returns) ?_
    simp [hnone]
  · have handed : (∀ j ∈ (s.queue.dequeue (some worker.capabilities)).1,
        s.registry.Accepts j.jobId .assigned) ↔ s.registry.Accepts job.jobId .assigned := by simp [hd]
    rw [handed, ← JobRegistry.advance_ok_iff s.registry job.jobId .assigned
      ("Assigned to worker " ++ worker.workerId) now, ← hreply]
    by_cases returns : (s.perform (.dequeueJob worker now)).1 = .ok ()
    · refine iff_of_true (atomic_of_ok returns) ?_
      simpa [perform, he] using returns
    · rw [atomic_iff_of_raises returns]
      refine iff_of_false (fun unchanged => ?_) ?_
      · have same : queue = s.queue := by simpa [step, perform, he] using unchanged.1
        exact dequeue_some_ne hd same
      · simpa [perform, he] using returns

/-- `update_state` raises with its change made only when saving the moved machine fails. -/
theorem updateState_atomic_iff (s : Service codec) (jobId : String) (st : JobState) (reason now : String)
    (w : Write) : s.Atomic (.updateState jobId st reason now w) ↔
      w = .done ∨ s.registry.moves jobId st = false := by
  rcases updateState_cases s jobId st reason now w with ⟨e, he, refused⟩ | ⟨sm, sm', hf, ht, he⟩
  · refine iff_of_true ?_ (.inr ?_)
    · intro _
      simp [Unchanged, step, perform, he]
    · unfold JobRegistry.moves
      cases hf : s.registry.find jobId with
      | none => rfl
      | some sm =>
        have hc := (JobStateMachine.transition_error_iff sm st reason now).mp (refused sm hf)
        exact Bool.eq_false_iff.mpr ((JobStateMachine.canTransition_iff sm st).not.mpr hc)
  · obtain ⟨allowed, hsm⟩ := (JobStateMachine.transition_ok_iff sm sm' st reason now).mp ht
    have moved : s.registry.moves jobId st = true := by
      simpa [JobRegistry.moves, hf, JobStateMachine.canTransition_iff] using allowed
    rw [moved]
    by_cases hw : w = .done
    · subst hw
      have returns : (s.perform (.updateState jobId st reason now .done)).1 = .ok () := by
        simp [perform, he]
      simp [atomic_of_ok returns]
    · have raises : (s.perform (.updateState jobId st reason now w)).1 ≠ .ok () := by
        simpa [perform, he] using hw
      rw [atomic_iff_of_raises raises]
      refine iff_of_false (fun unchanged => ?_) (by simp [hw])
      have same := unchanged.2.2 jobId
      have hk : sm'.jobId = jobId := by
        have kept : sm'.jobId = sm.jobId := by rw [hsm]
        exact kept.trans (JobRegistry.find_jobId hf)
      subst hk
      simp only [step, perform, he, JobRegistry.find_save_put, JobRegistry.find_put, hf, Option.some.injEq] at same
      have longer := congrArg (fun m => m.stateHistory.length) same
      simp [hsm] at longer

theorem cancelJob_atomic (s : Service codec) (jobId now : String) : s.Atomic (.cancelJob jobId now) := by
  rcases cancelJob_cases s jobId now with ⟨e, he, -⟩ | ⟨sm, sm', -, -, -, he⟩
  · intro _
    simp [Unchanged, step, perform, he]
  · exact atomic_of_ok (by simp [perform, he, Except.map])

theorem completeJob_atomic_iff (s : Service codec) (jobId : String) (success : Bool) (reason now : String) :
    s.Atomic (.completeJob jobId success reason now) ↔
      (jobId ∈ s.assigned → s.registry.Accepts jobId (outcomeState success)) := by
  have result : (s.perform (.completeJob jobId success reason now)).1 = .ok () ↔
      s.registry.Accepts jobId (outcomeState success) := by
    rw [← JobRegistry.advance_ok_iff s.registry jobId (outcomeState success) (outcomeReason success reason) now,
      ← raised_ok_iff]
    rfl
  by_cases accepts : s.registry.Accepts jobId (outcomeState success)
  · exact iff_of_true (atomic_of_ok (result.mpr accepts)) fun _ => accepts
  · rw [atomic_iff_of_raises (fun h => accepts (result.mp h))]
    have popped : (s.step (.completeJob jobId success reason now)).assigned = s.assigned.erase jobId := rfl
    constructor
    · intro unchanged hmem
      have same := unchanged.2.1
      rw [popped] at same
      rw [← same, AList.mem_erase] at hmem
      exact absurd rfl hmem.1
    · intro h
      have absent : jobId ∉ s.assigned := fun hmem => accepts (h hmem)
      refine ⟨rfl, ?_, fun other => ?_⟩
      · rw [popped]
        exact AList.ext (List.kerase_of_notMem_keys absent)
      · exact JobRegistry.find_advance_of_refused accepts other

/-- The job's machine has been cancelled. -/
def Cancelled (s : Service codec) (jobId : String) : Prop :=
  ∃ sm ∈ s.registry.find jobId, sm.currentState = .cancelled

/-- `complete_job` returns and leaves the job in the state it reports. -/
def Completes (s : Service codec) (jobId : String) (success : Bool) (reason now : String) : Prop :=
  (s.completeJob jobId success reason now).1 = .ok () ∧
    ((s.completeJob jobId success reason now).2.registry.find jobId).map JobStateMachine.currentState =
      some (outcomeState success)

theorem completes_iff (s : Service codec) (jobId : String) (success : Bool) (reason now : String) :
    s.Completes jobId success reason now ↔ s.registry.moves jobId (outcomeState success) = true := by
  unfold Completes completeJob JobRegistry.moves
  simp only [raised_ok_iff]
  rcases JobRegistry.advance_cases s.registry jobId (outcomeState success) (outcomeReason success reason) now with
    ⟨hf, he⟩ | ⟨sm, sm', hf, ht, he⟩ | ⟨sm, e, hf, ht, he⟩
  · simp [he, hf]
  · obtain ⟨allowed, hsm⟩ := (JobStateMachine.transition_ok_iff sm sm' _ _ now).mp ht
    have kept : sm'.jobId = sm.jobId := by rw [hsm]
    have hk : sm'.jobId = jobId := kept.trans (JobRegistry.find_jobId hf)
    have reached : sm'.currentState = outcomeState success := by rw [hsm]
    subst hk
    simp [he, hf, reached, JobStateMachine.canTransition_iff, allowed]
  · have refused := (JobStateMachine.transition_error_iff sm _ _ now).mp ⟨e, ht⟩
    simp [he, hf, JobStateMachine.canTransition_iff, refused]

end Service

/-- A service and the ids `assign_job` has handed out so far. -/
structure SchedulerSession (codec : Codec JobSpec) where
  service : Service codec
  handedOut : List String

namespace SchedulerSession

variable {codec : Codec JobSpec}

def start (stateDir : StateDir) (queue : JobQueue codec) (workers : Dict String WorkerCapabilities) :
    SchedulerSession codec :=
  ⟨.boot stateDir queue workers, []⟩

/-- The id an operation hands out: that of the job `assign_job` returns. -/
def handsOut (s : Service codec) : Service.Operation → List String
  | .assignJob workerId now =>
    match (s.assignJob workerId now).1 with
    | .ok (some job) => [job.jobId]
    | _ => []
  | _ => []

def step (t : SchedulerSession codec) (op : Service.Operation) : SchedulerSession codec :=
  ⟨t.service.step op, t.handedOut ++ handsOut t.service op⟩

/-- A job that was handed out and not cancelled can be completed. -/
def Completable (t : SchedulerSession codec) : Service.Operation → Prop
  | .completeJob jobId success reason now =>
    jobId ∈ t.handedOut → ¬ t.service.Cancelled jobId → t.service.Completes jobId success reason now
  | _ => True

/-- The operation cannot raise after its first change, and completes only jobs whose machine
may take the step. -/
def Safe (t : SchedulerSession codec) : Service.Operation → Prop
  | .submitJob job clock w _ =>
    w = .done ∨ t.service.registry.find job.jobId = some (.init job.jobId .created (clock 0))
  | .assignJob workerId _ => ∀ worker ∈ t.service.workers.lookup workerId,
      ∀ job ∈ (t.service.queue.dequeue (some worker.capabilities)).1,
        t.service.registry.Accepts job.jobId .assigned
  | .completeJob jobId success _ _ =>
    (jobId ∈ t.service.assigned → t.service.registry.Accepts jobId (Service.outcomeState success)) ∧
      (jobId ∈ t.handedOut → ¬ t.service.Cancelled jobId →
        t.service.registry.moves jobId (Service.outcomeState success) = true)
  | .updateState jobId st _ _ w => w = .done ∨ t.service.registry.moves jobId st = false
  | .postJob job _ clock w _ =>
    w = .done ∨ t.service.registry.find job.jobId = some (Service.postedMachine job clock)
  | .dequeueJob worker _ => ∀ job ∈ (t.service.queue.dequeue (some worker.capabilities)).1,
      t.service.registry.Accepts job.jobId .assigned
  | .cancelJob _ _ => True
  | .registerWorker _ => True

theorem safe_op_iff (t : SchedulerSession codec) (op : Service.Operation) :
    t.service.Atomic op ∧ t.Completable op ↔ t.Safe op := by
  cases op with
  | submitJob job clock w written =>
    exact (and_iff_left trivial).trans (Service.submitJob_atomic_iff t.service job clock w written)
  | assignJob workerId now =>
    exact (and_iff_left trivial).trans (Service.assignJob_atomic_iff t.service workerId now)
  | completeJob jobId success reason now =>
    refine and_congr (Service.completeJob_atomic_iff t.service jobId success reason now) ?_
    exact imp_congr_right fun _ => imp_congr_right fun _ =>
      Service.completes_iff t.service jobId success reason now
  | updateState jobId st reason now w =>
    exact (and_iff_left trivial).trans (Service.updateState_atomic_iff t.service jobId st reason now w)
  | postJob job queue clock w written =>
    exact (and_iff_left trivial).trans (Service.postJob_atomic_iff t.service job queue clock w written)
  | dequeueJob worker now =>
    exact (and_iff_left trivial).trans (Service.dequeueJob_atomic_iff t.service worker now)
  | cancelJob jobId now => exact iff_of_true ⟨Service.cancelJob_atomic t.service jobId now, trivial⟩ trivial
  | registerWorker worker => exact iff_of_true ⟨Service.atomic_of_ok rfl, trivial⟩ trivial

end SchedulerSession

end atomicity

end H2kvm.Worker
