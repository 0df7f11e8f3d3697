import H2kvm.Framework.Run
import H2kvm.Web.Manager

namespace H2kvm.Web

open Framework

def JobStatus.isTerminal : JobStatus → Bool
  | .pending | .running => false
  | .completed | .failed | .cancelled => true

namespace Manager

variable {Config Progress : Type}

/-- Every job that is at its end in `m` is still there in `m'`, with the same status. -/
def Keeps (m m' : Manager Config Progress) : Prop :=
  ∀ (p : Nat) (job : Job Config Progress), m.heap[p]? = some job → job.status.isTerminal = true →
    ∃ job' : Job Config Progress, m'.heap[p]? = some job' ∧ job'.status = job.status

theorem keeps_refl (m : Manager Config Progress) : Keeps m m := fun _ job h _ => ⟨job, h, rfl⟩

theorem keeps_trans (m m' m'' : Manager Config Progress) (h : Keeps m m') (h' : Keeps m' m'') : Keeps m m'' := by
  intro p job hp ht
  obtain ⟨job', hp', hs'⟩ := h p job hp ht
  obtain ⟨job'', hp'', hs''⟩ := h' p job' hp' (by rw [hs']; exact ht)
  exact ⟨job'', hp'', hs''.trans hs'⟩

theorem keeps_of_heap {m m' : Manager Config Progress} (h : m'.heap = m.heap) : Keeps m m' := by
  intro p job hp _
  exact ⟨job, by rw [h]; exact hp, rfl⟩

/-- A write through one pointer keeps the ends exactly when it keeps the end of that job. -/
theorem keeps_modify_iff {m m' : Manager Config Progress} {p : Nat} {f : Job Config Progress → Job Config Progress}
    (h : m'.heap = m.heap.modify p f) :
    Keeps m m' ↔ ∀ job, m.heap[p]? = some job → job.status.isTerminal = true → (f job).status = job.status := by
  have read (q : Nat) : m'.heap[q]? = if p = q then (m.heap[q]?).map f else m.heap[q]? := by
    rw [h, List.getElem?_modify]
    split_ifs <;> simp
  constructor
  · intro keeps job hp ht
    obtain ⟨job', hp', hs⟩ := keeps p job hp ht
    rw [read, if_pos rfl, hp, Option.map_some, Option.some.injEq] at hp'
    rw [hp', hs]
  · intro hf q job hq ht
    by_cases hpq : p = q
    · subst hpq
      exact ⟨f job, by rw [read, if_pos rfl, hq, Option.map_some], hf job hq ht⟩
    · exact ⟨job, by rw [read, if_neg hpq, hq], rfl⟩

theorem lookup_heap {m : Manager Config Progress} {id : String} {p : Nat} {job : Job Config Progress}
    (h : m.lookup id = some (p, job)) : m.heap[p]? = some job := by
  obtain ⟨q, -, hq⟩ := Option.bind_eq_some_iff.mp h
  obtain ⟨job', hj, he⟩ := Option.map_eq_some_iff.mp hq
  obtain ⟨rfl, rfl⟩ := Prod.mk.inj he
  exact hj

/-- The goroutine stands at `point`. -/
def At (m : Manager Config Progress) (g : Nat) (jobId : String) (point : RoutinePoint) : Prop :=
  m.routines[g]? = some ⟨jobId, point⟩

/-- The step writes no status over the end of a job. `execute` starts a job that is not
cancelled, a failed `Run` finds it neither completed nor cancelled, and so for the exit of
the process. -/
def Respects (m : Manager Config Progress) : Action Config Progress → Prop
  | .submit _ _ _ => True
  | .cancel _ _ => True
  | .executeStart g _ => ∀ jobId, m.At g jobId .spawned →
      ∀ p job, m.lookup jobId = some (p, job) → job.status.isTerminal = false
  | .runReturned g err _ => ∀ jobId p, m.At g jobId (.starting p) →
      ∀ job, m.heap[p]? = some job → err ≠ none → job.status ≠ .completed ∧ job.status ≠ .cancelled
  | .event g (.done exitCode err) _ => ∀ jobId, m.At g jobId .processing → ∀ p job, m.lookup jobId = some (p, job) →
      if exitCode = 0 ∧ err = none then job.status ≠ .failed ∧ job.status ≠ .cancelled
      else job.status ≠ .completed
  | .event _ _ _ => True
  | .report _ => True
  | .eventsClosed _ => True

theorem keeps_iff_of_idle {m : Manager Config Progress} {a : Action Config Progress} (idle : m.step a = m)
    (respects : m.Respects a) : Keeps m (m.step a) ↔ m.Respects a := by
  refine iff_of_true ?_ respects
  rw [idle]
  exact keeps_refl m

theorem submit_keeps (m : Manager Config Progress) (id : String) (config : Config) (now : Time) :
    Keeps m (m.submit id config now) := by
  intro p job hp _
  refine ⟨job, ?_, rfl⟩
  have inside : p < m.heap.length := (List.getElem?_eq_some_iff.mp hp).1
  change (m.heap ++ [_])[p]? = some job
  rw [List.getElem?_append_left inside, hp]

theorem cancel_keeps (m : Manager Config Progress) (id : String) (now : Time) : Keeps m (m.cancel id now).2 := by
  unfold cancel
  cases hl : m.lookup id with
  | none => exact keeps_refl m
  | some found =>
    obtain ⟨p, job⟩ := found
    by_cases hs : job.status ≠ .running ∧ job.status ≠ .pending
    · simp only [if_pos hs]
      exact keeps_refl m
    · simp only [if_neg hs]
      refine (keeps_modify_iff rfl).mpr fun job' hp ht => ?_
      have same : job = job' := Option.some.inj ((lookup_heap hl).symm.trans hp)
      subst same
      exfalso
      apply hs
      cases hj : job.status <;> simp [hj, JobStatus.isTerminal] at ht ⊢

theorem executeStart_keeps_iff (m : Manager Config Progress) (g : Nat) (now : Time) :
    Keeps m (m.step (.executeStart g now)) ↔ m.Respects (.executeStart g now) := by
  by_cases ready : ∃ jobId, m.At g jobId .spawned
  · obtain ⟨jobId, hr⟩ := ready
    unfold At at hr
    have hstep : m.step (.executeStart g now) = m.executeStart g jobId now := by simp only [step, hr]
    have respects : m.Respects (.executeStart g now) ↔
        ∀ p job, m.lookup jobId = some (p, job) → job.status.isTerminal = false := by simp [Respects, At, hr]
    rw [hstep, respects]
    cases hl : m.lookup jobId with
    | none => exact iff_of_true (keeps_of_heap (by simp only [executeStart, hl]; rfl)) (by simp)
    | some found =>
      obtain ⟨p, job⟩ := found
      rw [keeps_modify_iff (p := p) (f := fun job => { job with status := .running, startedAt := some now })
        (by simp only [executeStart, hl]; rfl), lookup_heap hl]
      simp only [Option.some.injEq, Prod.mk.injEq, and_imp, forall_eq', forall_apply_eq_imp_iff]
      cases job.status <;> simp [JobStatus.isTerminal]
  · refine keeps_iff_of_idle ?_ fun jobId hr => absurd ⟨jobId, hr⟩ ready
    dsimp only [step]
    split
    · rename_i jobId hr
      exact absurd ⟨jobId, hr⟩ ready
    · rfl

theorem runReturned_keeps_iff (m : Manager Config Progress) (g : Nat) (err : Option String) (now : Time) :
    Keeps m (m.step (.runReturned g err now)) ↔ m.Respects (.runReturned g err now) := by
  by_cases ready : ∃ jobId p, m.At g jobId (.starting p)
  · obtain ⟨jobId, p, hr⟩ := ready
    unfold At at hr
    have hstep : m.step (.runReturned g err now) = m.runReturned g jobId p err now := by simp only [step, hr]
    have respects : m.Respects (.runReturned g err now) ↔
        ∀ job, m.heap[p]? = some job → err ≠ none → job.status ≠ .completed ∧ job.status ≠ .cancelled := by
      simp [Respects, At, hr]
    rw [hstep, respects]
    cases err with
    | none => exact iff_of_true (keeps_of_heap rfl) (by simp)
    | some err =>
      rw [keeps_modify_iff (p := p)
        (f := fun job => { job with status := .failed, error := err, completedAt := some now }) rfl]
      refine forall_congr' fun job => imp_congr_right fun _ => ?_
      cases job.status <;> simp [JobStatus.isTerminal]
  · refine keeps_iff_of_idle ?_ fun jobId p hr => absurd ⟨jobId, p, hr⟩ ready
    dsimp only [step]
    split
    · rename_i jobId p hr
      exact absurd ⟨jobId, p, hr⟩ ready
    · rfl

theorem finish_status (exitCode : Int) (err : Option String) (now : Time) (job : Job Config Progress)
    (h : job.status.isTerminal = true) : (finish exitCode err now job).1.status = job.status ↔
      if exitCode = 0 ∧ err = none then job.status ≠ .failed ∧ job.status ≠ .cancelled
      else job.status ≠ .completed := by
  unfold finish
  by_cases clean : exitCode = 0 ∧ err = none
  · simp only [if_pos clean]
    cases hs : job.status <;> simp [hs, JobStatus.isTerminal] at h ⊢
  · simp only [if_neg clean]
    cases hs : job.status <;> simp [hs, JobStatus.isTerminal] at h ⊢

theorem processEvent_keeps_iff (m : Manager Config Progress) {g : Nat} {jobId : String}
    (hr : m.At g jobId .processing) (event : RunnerEvent Progress) (now : Time) :
    Keeps m (m.processEvent g jobId event now) ↔ m.Respects (.event g event now) := by
  unfold At at hr
  cases hl : m.lookup jobId with
  | none =>
    refine iff_of_true (keeps_of_heap (by simp only [processEvent, hl])) ?_
    cases event <;> simp [Respects, At, hr, hl]
  | some found =>
    obtain ⟨p, job⟩ := found
    cases event with
    | log line =>
      refine iff_of_true ((keeps_modify_iff (p := p)
        (f := fun job => { job with logLines := appendLog job.logLines line }) ?_).mpr fun _ _ _ => rfl) trivial
      simp only [processEvent, hl]
      rfl
    | progress progress =>
      refine iff_of_true ((keeps_modify_iff (p := p)
        (f := fun job => { job with progress }) ?_).mpr fun _ _ _ => rfl) trivial
      simp only [processEvent, hl]
      rfl
    | started pid =>
      refine iff_of_true ((keeps_modify_iff (p := p)
        (f := fun job => { job with pid }) ?_).mpr fun _ _ _ => rfl) trivial
      simp only [processEvent, hl]
      rfl
    | done exitCode err =>
      have written : (m.processEvent g jobId (.done exitCode err) now).heap =
          m.heap.modify p fun job => (finish exitCode err now job).1 := by
        simp only [processEvent, hl]
        split <;> rfl
      rw [keeps_modify_iff written, lookup_heap hl]
      simp only [Respects, At, hr, hl, Option.some.injEq, Prod.mk.injEq, Routine.mk.injEq, and_true, and_imp,
        forall_eq', forall_apply_eq_imp_iff]
      by_cases ht : job.status.isTerminal = true
      · rw [forall_prop_of_true ht, finish_status exitCode err now job ht]
      · refine iff_of_true (fun h => absurd h ht) ?_
        cases hs : job.status <;> simp [hs, JobStatus.isTerminal] at ht ⊢

theorem event_keeps_iff (m : Manager Config Progress) (g : Nat) (event : RunnerEvent Progress) (now : Time) :
    Keeps m (m.step (.event g event now)) ↔ m.Respects (.event g event now) := by
  by_cases ready : ∃ jobId, m.At g jobId .processing
  · obtain ⟨jobId, hr⟩ := ready
    rw [← processEvent_keeps_iff m hr]
    unfold At at hr
    simp only [step, hr]
  · refine keeps_iff_of_idle ?_ ?_
    · dsimp only [step]
      split
      · rename_i jobId hr
        exact absurd ⟨jobId, hr⟩ ready
      · rfl
    · cases event with
      | done exitCode err =>
        intro jobId hr
        exact absurd ⟨jobId, hr⟩ ready
      | _ => trivial

theorem step_keeps_iff (m : Manager Config Progress) (a : Action Config Progress) :
    Keeps m (m.step a) ↔ m.Respects a := by
  cases a with
  | submit id config now => exact iff_of_true (submit_keeps m id config now) trivial
  | cancel id now => exact iff_of_true (cancel_keeps m id now) trivial
  | executeStart g now => exact executeStart_keeps_iff m g now
  | runReturned g err now => exact runReturned_keeps_iff m g err now
  | event g event now => exact event_keeps_iff m g event now
  | report g =>
    refine iff_of_true (keeps_of_heap ?_) trivial
    dsimp only [step]
    split <;> rfl
  | eventsClosed g =>
    refine iff_of_true (keeps_of_heap ?_) trivial
    dsimp only [step]
    split <;> rfl

/-- Once a job has reached its end, its status stays in every later state of the run. -/
def EndsFinal (ops : List (Action Config Progress)) : Prop :=
  ∀ pre mid, pre ++ mid <+: ops → Keeps (run step new pre) (run step new (pre ++ mid))

/-- Once `Cancel(id)` has returned nil, the job it found is cancelled in every later state. -/
def CancelsFinal (ops : List (Action Config Progress)) : Prop :=
  ∀ pre id now mid, pre ++ [.cancel id now] ++ mid <+: ops →
    ((run step new pre).cancel id now).1 = .ok () → ∀ p job, (run step new pre).lookup id = some (p, job) →
      ∃ job' : Job Config Progress, (run step new (pre ++ [.cancel id now] ++ mid)).heap[p]? = some job' ∧
        job'.status = .cancelled

theorem cancel_ok {m : Manager Config Progress} {id : String} {now : Time} {p : Nat} {job : Job Config Progress}
    (h : (m.cancel id now).1 = .ok ()) (hl : m.lookup id = some (p, job)) :
    ∃ job' : Job Config Progress, (m.cancel id now).2.heap[p]? = some job' ∧ job'.status = .cancelled := by
  unfold cancel at h ⊢
  simp only [hl] at h ⊢
  by_cases hs : job.status ≠ .running ∧ job.status ≠ .pending
  · simp [if_pos hs] at h
  · simp only [if_neg hs]
    refine ⟨{ job with status := .cancelled, completedAt := some now }, ?_, rfl⟩
    change (m.heap.modify p _)[p]? = _
    rw [List.getElem?_modify, lookup_heap hl]
    simp

theorem cancelsFinal_of_endsFinal {ops : List (Action Config Progress)} (h : EndsFinal ops) : CancelsFinal ops := by
  intro pre id now mid hp hok p job hl
  obtain ⟨job', hp', hs'⟩ := cancel_ok hok hl
  have cancelled : (run step new (pre ++ [.cancel id now])).heap[p]? = some job' := by
    rw [run_concat]
    exact hp'
  obtain ⟨job'', hp'', hs''⟩ := h (pre ++ [.cancel id now]) mid hp p job' cancelled (by rw [hs']; rfl)
  exact ⟨job'', hp'', hs''.trans hs'⟩

/-- Over every interleaving, cancelled jobs stay cancelled and jobs at their end keep their
status, exactly when no step of the run writes over the end of a job. -/
theorem status_final_iff (ops : List (Action Config Progress)) :
    CancelsFinal ops ∧ EndsFinal ops ↔ EachStep step Respects new ops := by
  rw [and_iff_right_of_imp cancelsFinal_of_endsFinal]
  unfold EndsFinal
  rw [onward_iff keeps_refl keeps_trans, eachStep_iff_prefixes, eachStep_iff_prefixes]
  exact forall_congr' fun pre => forall_congr' fun a => imp_congr_right fun _ => step_keeps_iff _ a

/-- A job is cancelled while its process runs, and the process then exits with code 0. -/
theorem cancel_not_final :
    let pre : List (Action Unit Unit) := [.submit "a" () 0, .executeStart 0 1, .runReturned 0 none 2]
    let ops := pre ++ [.cancel "a" 3] ++ [.event 0 (.done 0 none) 4]
    ((run step new pre).cancel "a" 3).1 = .ok () ∧
      ((run step new ops).lookup "a").map (fun found => found.2.status) = some .completed ∧
      ¬ CancelsFinal ops ∧ ¬ EndsFinal ops := by
  intro pre ops
  have returned : ((run step new pre).cancel "a" 3).1 = .ok () := by decide
  have found : ((run step new pre).lookup "a").map Prod.fst = some 0 := by decide
  have ended : ((run step new ops).heap[0]?).map Job.status = some .completed := by decide
  have not_final : ¬ CancelsFinal ops := by
    intro final
    obtain ⟨⟨p, job⟩, hl, hp⟩ := Option.map_eq_some_iff.mp found
    obtain ⟨job', hj, hs⟩ := final pre "a" 3 [.event 0 (.done 0 none) 4] List.prefix_rfl returned p job hl
    change (run step new ops).heap[p]? = some job' at hj
    have hp0 : p = 0 := hp
    rw [hp0] at hj
    rw [hj, Option.map_some, hs] at ended
    simp at ended
  exact ⟨returned, by decide, not_final, fun final => not_final (cancelsFinal_of_endsFinal final)⟩

end Manager

end H2kvm.Web
