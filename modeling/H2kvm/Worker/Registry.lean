import H2kvm.Worker.TimeInState

namespace H2kvm.Worker

open Framework

/-- What a state file holds: a dictionary, or the stump a failed write left. -/
inductive StateFile where
  | dict (data : JobStateMachine.Data)
  | stump
  deriving DecidableEq

/-- How one attempt to write a file ends: `open` may fail, which keeps the old content, or
the write after it, which has already truncated the file. -/
inductive Write where
  | done
  | openFails
  | writeFails
  deriving DecidableEq

/-- A job's file in the state directory. Job ids are UUIDs, so each names a file of its own. -/
def stateFile (jobId : String) : String := jobId ++ ".state.json"

theorem stateFile_inj {a b : String} : stateFile a = stateFile b ↔ a = b :=
  String.append_left_inj ".state.json"

/-- `state_dir`: `save` names each file after the job it describes. -/
structure StateDir where
  files : Dict String StateFile
  named : ∀ jobId data, files.lookup (stateFile jobId) = some (.dict data) → data.jobId = jobId

namespace JobStateMachine

/-- `save`: the directory afterwards; the call returns exactly when `w` is `done`. -/
def save (sm : JobStateMachine) (stateDir : StateDir) : Write → StateDir
  | .done =>
    ⟨stateDir.files.insert (stateFile sm.jobId) (.dict sm.toDict), by
      intro jobId data h
      by_cases he : jobId = sm.jobId
      · subst he
        simp only [AList.lookup_insert, Option.some.injEq, StateFile.dict.injEq] at h
        rw [← h]
        rfl
      · rw [AList.lookup_insert_ne fun hf => he (stateFile_inj.mp hf)] at h
        exact stateDir.named jobId data h⟩
  | .openFails => stateDir
  | .writeFails =>
    ⟨stateDir.files.insert (stateFile sm.jobId) .stump, by
      intro jobId data h
      by_cases he : jobId = sm.jobId
      · subst he
        simp at h
      · rw [AList.lookup_insert_ne fun hf => he (stateFile_inj.mp hf)] at h
        exact stateDir.named jobId data h⟩

/-- `load`; a missing file and one that does not parse both give `None`. -/
def load (jobId : String) (stateDir : StateDir) : Option JobStateMachine :=
  match stateDir.files.lookup (stateFile jobId) with
  | some (.dict data) => fromDict data
  | some .stump => none
  | none => none

theorem load_jobId {jobId : String} {stateDir : StateDir} {sm : JobStateMachine}
    (h : load jobId stateDir = some sm) : sm.jobId = jobId := by
  unfold load at h
  split at h
  · rename_i data hf
    obtain ⟨st, -, rfl⟩ := Option.map_eq_some_iff.mp h
    exact stateDir.named jobId data hf
  · simp at h
  · simp at h

@[simp] theorem load_save (sm : JobStateMachine) (stateDir : StateDir) :
    load sm.jobId (sm.save stateDir .done) = some sm := by
  simp [load, save]

theorem load_save_other (sm : JobStateMachine) (stateDir : StateDir) (w : Write) {jobId : String}
    (h : jobId ≠ sm.jobId) : load jobId (sm.save stateDir w) = load jobId stateDir := by
  have hf : stateFile jobId ≠ stateFile sm.jobId := fun he => h (stateFile_inj.mp he)
  cases w <;> simp [load, save, AList.lookup_insert_ne hf]

end JobStateMachine

/-- `JobRegistry`: the machines in memory over the directory of their files. A machine is
kept under its own job id. -/
structure JobRegistry where
  jobs : Dict String JobStateMachine
  stateDir : StateDir
  keyed : ∀ jobId sm, jobs.lookup jobId = some sm → sm.jobId = jobId

namespace JobRegistry

/-- `self.jobs[sm.job_id] = sm`, also the registry after that machine has changed in place. -/
def put (r : JobRegistry) (sm : JobStateMachine) : JobRegistry where
  jobs := r.jobs.insert sm.jobId sm
  stateDir := r.stateDir
  keyed := by
    intro jobId sm' h
    by_cases he : jobId = sm.jobId
    · subst he
      rw [AList.lookup_insert, Option.some.injEq] at h
      rw [h]
    · rw [AList.lookup_insert_ne he] at h
      exact r.keyed jobId sm' h

def save (r : JobRegistry) (sm : JobStateMachine) (w : Write) : JobRegistry :=
  { r with stateDir := sm.save r.stateDir w }

/-- `register`: the new machine is in memory before its file is written. -/
def register (r : JobRegistry) (job : JobSpec) (now : String) (w : Write) :
    JobStateMachine × JobRegistry :=
  let sm := JobStateMachine.init job.jobId .created now
  (sm, (r.put sm).save sm w)

/-- `get`; a machine read from disk is kept in memory. -/
def get (r : JobRegistry) (jobId : String) : Option JobStateMachine × JobRegistry :=
  match r.jobs.lookup jobId with
  | some sm => (some sm, r)
  | none =>
    match JobStateMachine.load jobId r.stateDir with
    | some sm => (some sm, r.put sm)
    | none => (none, r)

/-- The machine of a job as `get` sees it. -/
def find (r : JobRegistry) (jobId : String) : Option JobStateMachine := (r.get jobId).1

/-- `sm = registry.get(job_id)` and, where there is one, `sm.transition(...)`. -/
def advance (r : JobRegistry) (jobId : String) (st : JobState) (reason now : String) :
    Except InvalidStateTransition Unit × JobRegistry :=
  match r.get jobId with
  | (none, r) => (.ok (), r)
  | (some sm, r) =>
    match sm.transition st reason now with
    | .ok sm' => (.ok (), r.put sm')
    | .error e => (.error e, r)

theorem find_eq (r : JobRegistry) (jobId : String) :
    r.find jobId = match r.jobs.lookup jobId with
      | some sm => some sm
      | none => JobStateMachine.load jobId r.stateDir := by
  unfold find get
  cases r.jobs.lookup jobId with
  | some sm => rfl
  | none => cases JobStateMachine.load jobId r.stateDir <;> rfl

theorem find_jobId {r : JobRegistry} {jobId : String} {sm : JobStateMachine}
    (h : r.find jobId = some sm) : sm.jobId = jobId := by
  rw [find_eq] at h
  cases hm : r.jobs.lookup jobId with
  | some sm' =>
    rw [hm] at h
    exact r.keyed jobId sm (hm.trans h)
  | none =>
    rw [hm] at h
    exact JobStateMachine.load_jobId h

@[simp] theorem find_put (r : JobRegistry) (sm : JobStateMachine) :
    (r.put sm).find sm.jobId = some sm := by
  simp [find_eq, put]

theorem find_put_other (r : JobRegistry) (sm : JobStateMachine) {jobId : String}
    (h : jobId ≠ sm.jobId) : (r.put sm).find jobId = r.find jobId := by
  simp [find_eq, put, AList.lookup_insert_ne h]

/-- `get` gives back the registry, or the registry with the machine it found put in. -/
theorem get_cases (r : JobRegistry) (jobId : String) :
    (r.get jobId).2 = r ∨ ∃ sm, r.jobs.lookup jobId = none ∧
      JobStateMachine.load jobId r.stateDir = some sm ∧ (r.get jobId).2 = r.put sm := by
  unfold get
  cases hm : r.jobs.lookup jobId with
  | some sm => exact .inl rfl
  | none =>
    cases hl : JobStateMachine.load jobId r.stateDir with
    | none => exact .inl rfl
    | some sm => exact .inr ⟨sm, rfl, rfl, rfl⟩

/-- Looking a job up changes no job's machine. -/
@[simp] theorem find_get (r : JobRegistry) (a b : String) : (r.get a).2.find b = r.find b := by
  rcases get_cases r a with h | ⟨sm, hm, hl, h⟩
  · rw [h]
  · have hk := JobStateMachine.load_jobId hl
    rw [h]
    by_cases he : b = sm.jobId
    · subst he
      rw [find_put, find_eq, hk, hm, hl]
    · exact find_put_other r sm he

/-- No machine, a move the table allows, or one it refuses. -/
theorem advance_cases (r : JobRegistry) (jobId : String) (st : JobState) (reason now : String) :
    (r.find jobId = none ∧ r.advance jobId st reason now = (.ok (), (r.get jobId).2)) ∨
    (∃ sm sm', r.find jobId = some sm ∧ sm.transition st reason now = .ok sm' ∧
      r.advance jobId st reason now = (.ok (), (r.get jobId).2.put sm')) ∨
    (∃ sm e, r.find jobId = some sm ∧ sm.transition st reason now = .error e ∧
      r.advance jobId st reason now = (.error e, (r.get jobId).2)) := by
  unfold advance find
  obtain ⟨found, r'⟩ := r.get jobId
  cases found with
  | none => exact .inl ⟨rfl, rfl⟩
  | some sm =>
    cases ht : sm.transition st reason now with
    | ok sm' => exact .inr (.inl ⟨sm, sm', rfl, ht, by simp [ht]⟩)
    | error e => exact .inr (.inr ⟨sm, e, rfl, ht, by simp [ht]⟩)

/-- The registry has a machine for the job and the table lets it move to `st`. -/
def moves (r : JobRegistry) (jobId : String) (st : JobState) : Bool :=
  match r.find jobId with
  | some sm => sm.canTransition st
  | none => false

theorem transition_of_moves_false {r : JobRegistry} {jobId : String} {st : JobState} {sm : JobStateMachine}
    (h : r.moves jobId st = false) (hf : r.find jobId = some sm) (reason now : String) :
    ∃ e, sm.transition st reason now = .error e := by
  simp only [moves, hf] at h
  exact ⟨_, if_neg (by simp [h])⟩

/-- Where the table refuses the move, or there is nothing to move, `advance` only looks up. -/
theorem advance_of_moves_false {r : JobRegistry} {jobId : String} {st : JobState}
    (h : r.moves jobId st = false) (reason now : String) :
    (r.advance jobId st reason now).2 = (r.get jobId).2 := by
  rcases advance_cases r jobId st reason now with ⟨-, he⟩ | ⟨sm, sm', hf, ht, -⟩ | ⟨sm, e, -, -, he⟩
  · rw [he]
  · obtain ⟨e, hr⟩ := transition_of_moves_false h hf reason now
    rw [hr] at ht
    simp at ht
  · rw [he]

/-- The table lets the job's machine, if there is one, move to `st`. -/
def Accepts (r : JobRegistry) (jobId : String) (st : JobState) : Prop :=
  ∀ sm ∈ r.find jobId, sm.canTransition st = true

theorem advance_ok_iff (r : JobRegistry) (jobId : String) (st : JobState) (reason now : String) :
    (r.advance jobId st reason now).1 = .ok () ↔ r.Accepts jobId st := by
  rcases advance_cases r jobId st reason now with ⟨hf, he⟩ | ⟨sm, sm', hf, ht, he⟩ | ⟨sm, e, hf, ht, he⟩
  · simp [he, Accepts, hf]
  · have hc := (JobStateMachine.transition_ok_iff sm sm' st reason now).mp ht
    simp [he, Accepts, hf, JobStateMachine.canTransition_iff, hc.1]
  · have hc := (JobStateMachine.transition_error_iff sm st reason now).mp ⟨e, ht⟩
    simp [he, Accepts, hf, JobStateMachine.canTransition_iff, hc]

theorem find_advance_of_refused {r : JobRegistry} {jobId : String} {st : JobState} {reason now : String}
    (h : ¬ r.Accepts jobId st) (other : String) :
    (r.advance jobId st reason now).2.find other = r.find other := by
  rcases advance_cases r jobId st reason now with ⟨-, he⟩ | ⟨sm, sm', -, -, he⟩ | ⟨sm, e, -, -, he⟩
  · rw [he, find_get]
  · have hok := (advance_ok_iff r jobId st reason now).not.mpr h
    simp [he] at hok
  · rw [he, find_get]

@[simp] theorem find_save_put (r : JobRegistry) (sm : JobStateMachine) (w : Write) (jobId : String) :
    ((r.put sm).save sm w).find jobId = (r.put sm).find jobId := by
  by_cases he : jobId = sm.jobId
  · subst he
    simp [find_eq, save, put]
  · simp [find_eq, save, put, AList.lookup_insert_ne he, JobStateMachine.load_save_other sm r.stateDir w he]

end JobRegistry

end H2kvm.Worker
