import Mathlib.Tactic.Common
import H2kvm.Operator.HyperConversion

namespace H2kvm.Operator

open Framework

namespace Phase

def rank : Phase → Nat
  | .unset | .pending => 0
  | .uploading => 1
  | .converting => 2
  | .fixing => 3
  | .creatingVM => 4
  | .ready => 5
  | .failed => 6

def terminal (p : Phase) : Bool := p == .ready || p == .failed

/-- A phase is kept, or left for a later one; Ready and Failed are not left. -/
def Forward (p q : Phase) : Prop := p = q ∨ p.terminal = false ∧ p.rank < q.rank

instance (p q : Phase) : Decidable (p.Forward q) := inferInstanceAs (Decidable (_ ∨ _))

theorem Forward.later {p q : Phase} (running : p.terminal = false) (later : p.rank < q.rank) : p.Forward q :=
  .inr ⟨running, later⟩

end Phase

namespace Status

/-- A terminal status has its completion time. -/
def Timed (st : Status) : Prop := st.phase.terminal = true → st.completionTime.isSome = true

/-- An import has its DataVolume's name, which a pending one has not, and only a finished conversion has a
VM's and a completion time. -/
structure Named (st : Status) : Prop where
  fresh : st.phase = .unset ∨ st.phase = .pending → st.dataVolumeName = ""
  volume : st.phase = .uploading → st.dataVolumeName ≠ ""
  machine : st.phase.terminal = false → st.virtualMachineName = ""
  time : st.phase.terminal = false → st.completionTime = none

theorem Named.failed {st : Status} (h : st.phase = .failed) : st.Named := by
  constructor <;> simp [h, Phase.terminal]

theorem Named.ready {st : Status} (h : st.phase = .ready) : st.Named := by
  constructor <;> simp [h, Phase.terminal]

end Status

namespace Namespace

/-- What the phase machine promises of a step. -/
structure Lawful (env : Env) (ns : Namespace) (e : Event) : Prop where
  forward : ∀ hc hc', ns.hyperConversion = some hc → (ns.step env e).hyperConversion = some hc' →
    hc.status.phase.Forward hc'.status.phase
  completed : ∀ hc', (ns.step env e).hyperConversion = some hc' → hc'.status.Timed
  settled : ∀ api hc hc', e = .reconcile api → ns.hyperConversion = some hc → hc.deletionTimestamp = none →
    (ns.reconcile env api).2 = .done → (ns.step env e).hyperConversion = some hc' → hc'.status.phase.terminal = true

/-- The API answers that `createDataVolume` needs. -/
def MakesDataVolume (api : Api) (ns : Namespace) (hc : HyperConversion) : Prop :=
  api.createDataVolume = .ok ∧ ((ns.dataVolumes hc.dataVolumeName).isSome → api.getDataVolume = .ok)

/-- While an import is watched, its DataVolume is there, and if it has failed or takes too long, the
status write has its effect. -/
def WatchesImport (api : Api) (ns : Namespace) (hc : HyperConversion) : Prop :=
  api.getDataVolume = .ok →
    match ns.dataVolumes hc.status.dataVolumeName with
    | none => False
    | some dv => hc.timedOut hc.status.startTime ns.now = true ∨ dv.phase = "Failed" → api.statusUpdate.applied = true

/-- While the fixer Job is watched, if it is gone, has failed or takes too long, the status write has its
effect. -/
def WatchesFixer (api : Api) (ns : Namespace) (hc : HyperConversion) : Prop :=
  hc.status.fixerJobName ≠ "" → api.getJob = .ok →
    match ns.jobs hc.status.fixerJobName with
    | none => api.statusUpdate.applied = true
    | some job =>
      match job.verdict with
      | some .complete => True
      | some (.failed _) => api.statusUpdate.applied = true
      | none => hc.timedOut job.startTime ns.now = true → api.statusUpdate.applied = true

def OrderlyPhase (api : Api) (ns : Namespace) (hc : HyperConversion) : Prop :=
  match hc.status.phase with
  | .unset | .pending => api.statusUpdate.applied = true → ns.MakesDataVolume api hc
  | .uploading => ns.WatchesImport api hc
  | .fixing => ns.WatchesFixer api hc
  | .converting | .creatingVM | .ready | .failed => True

/-- The steps that do not go wrong. -/
def Orderly (ns : Namespace) : Event → Prop
  | .reconcile api => ∀ hc, ns.hyperConversion = some hc → api.getHyperConversion = .ok →
      hyperConversionFinalizer ∈ hc.finalizers → hc.deletionTimestamp = none → ns.OrderlyPhase api hc
  | _ => True

/-- How a handler leaves a conversion: its phase went forward, and all is well exactly when `Q` holds. -/
def Leaves (hc : HyperConversion) (p : Namespace × Result) (Q : Prop) : Prop :=
  ∃ hc', p.1.hyperConversion = some hc' ∧ hc'.uid = hc.uid ∧ hc.status.phase.Forward hc'.status.phase ∧ hc'.status.Named ∧
    (hc'.status.Timed ∧ (p.2 = .done → hc'.status.phase.terminal = true) ↔ Q)

@[simp] theorem touch_hyperConversion (ns : Namespace) (use : Use) (kind : Kind) (name : String) :
    (ns.touch use kind name).hyperConversion = ns.hyperConversion := by
  unfold touch
  split <;> rfl

theorem touches_hyperConversion (ns : Namespace) (names : List (Kind × String)) :
    (names.foldl (fun ns n => ns.touch .recorded n.1 n.2) ns).hyperConversion = ns.hyperConversion := by
  induction names generalizing ns with
  | nil => rfl
  | cons n names ih => rw [List.foldl_cons, ih, touch_hyperConversion]

section Exits

variable {ns : Namespace} {hc : HyperConversion} {r : Result}

theorem statusUpdate_hyperConversion (api : Api) (st : Status) (stored : ns.hyperConversion = some hc) :
    (ns.statusUpdate api st).1.hyperConversion =
      some { hc with status := if api.statusUpdate.applied then st else hc.status } := by
  unfold statusUpdate
  split
  · simp [storeStatus, touches_hyperConversion, stored]
  · exact stored

theorem Leaves.congr {p : Namespace × Result} {Q Q' : Prop} (h : Leaves hc p Q) (same : Q ↔ Q') : Leaves hc p Q' := by
  obtain ⟨hc', stored, uid, forward, named, fine⟩ := h
  exact ⟨hc', stored, uid, forward, named, fine.trans same⟩

variable (stored : ns.hyperConversion = some hc) (named : hc.status.Named) (running : hc.status.phase.terminal = false)

include stored named running

/-- Nothing is written and an error is returned. -/
theorem leaves_error (err : String) : Leaves hc (ns, .error err) True := by
  refine ⟨hc, stored, rfl, .inl rfl, named, ?_⟩
  simp [Status.Timed, running]

theorem leaves_writeDiscarding (api : Api) (st : Status) (forward : hc.status.phase.Forward st.phase) (named' : st.Named)
    (done : r = .done → st.phase.terminal = true) :
    Leaves hc (ns.writeDiscarding api st r)
      ((api.statusUpdate.applied = true → st.Timed) ∧ (r = .done → api.statusUpdate.applied = true)) := by
  refine ⟨_, statusUpdate_hyperConversion api st stored, rfl, ?_⟩
  cases applied : api.statusUpdate.applied with
  | true =>
    refine ⟨forward, named', ?_⟩
    simpa [writeDiscarding] using fun _ => done
  | false =>
    refine ⟨.inl rfl, named, ?_⟩
    simp [writeDiscarding, Status.Timed, running]

theorem leaves_write (api : Api) (st : Status) (forward : hc.status.phase.Forward st.phase) (named' : st.Named)
    (done : r = .done → st.phase.terminal = true) :
    Leaves hc (ns.write api st r) (api.statusUpdate.applied = true → st.Timed) := by
  refine ⟨_, statusUpdate_hyperConversion api st stored, rfl, ?_⟩
  cases answer : api.statusUpdate with
  | ok => simpa [write, statusUpdate, answer, Answer.applied, Answer.error?] using ⟨forward, named', fun _ => done⟩
  | refused err =>
    simpa [write, statusUpdate, answer, Answer.applied, Answer.error?, Status.Timed, running] using ⟨.inl rfl, named⟩
  | lost err => simpa [write, statusUpdate, answer, Answer.applied, Answer.error?] using ⟨forward, named'⟩

end Exits

section Handlers

variable {env : Env} {api : Api} {ns : Namespace} {hc : HyperConversion}

theorem createFixerJob_hyperConversion (env : Env) (api : Api) (ns : Namespace) (hc : HyperConversion) :
    (ns.createFixerJob env api hc).1.hyperConversion = ns.hyperConversion := by
  unfold createFixerJob
  split
  · rfl
  · dsimp only
    split
    · exact touch_hyperConversion _ _ _ _
    · rfl

@[simp] theorem deleteDataVolume_hyperConversion (api : Api) (ns : Namespace) (name : String) :
    (ns.deleteDataVolume api name).hyperConversion = ns.hyperConversion := by
  unfold deleteDataVolume
  dsimp only
  split
  · exact touch_hyperConversion _ _ _ _
  · rfl

@[simp] theorem deleteJob_hyperConversion (api : Api) (ns : Namespace) (name : String) :
    (ns.deleteJob api name).hyperConversion = ns.hyperConversion := by
  unfold deleteJob
  dsimp only
  split
  · exact touch_hyperConversion _ _ _ _
  · rfl

@[simp] theorem deleteVirtualMachine_hyperConversion (api : Api) (ns : Namespace) (name : String) :
    (ns.deleteVirtualMachine api name).hyperConversion = ns.hyperConversion := by
  unfold deleteVirtualMachine
  dsimp only
  split
  · exact touch_hyperConversion _ _ _ _
  · rfl

theorem cleanUp_hyperConversion (api : Api) (ns : Namespace) (st : Status) :
    (ns.cleanUp api st).hyperConversion = ns.hyperConversion := by
  unfold cleanUp cleanUpVirtualMachine cleanUpJob cleanUpDataVolume
  split_ifs <;> simp

/-- `createDataVolume` gives the derived name exactly when the calls it needs succeed. -/
theorem createDataVolume_cases (api : Api) (ns : Namespace) (hc : HyperConversion) :
    (ns.MakesDataVolume api hc ∧ (ns.createDataVolume api hc).2 = .ok hc.dataVolumeName) ∨
      (¬ ns.MakesDataVolume api hc ∧ ∃ err, (ns.createDataVolume api hc).2 = .error err) := by
  have makes : (ns.dataVolumes.ensure "datavolumes.cdi.kubevirt.io" api.createDataVolume api.getDataVolume
      hc.dataVolumeName ⟨some hc.uid, "", "", []⟩).2 = none ↔ ns.MakesDataVolume api hc := Objects.ensure_eq_none_iff
  unfold createDataVolume
  dsimp only
  split
  · next h => exact .inl ⟨makes.mp h, rfl⟩
  all_goals
    next h =>
    refine .inr ⟨fun m => ?_, _, rfl⟩
    rw [makes.mpr m] at h
    cases h

theorem dataVolumeName_ne_nil (hc : HyperConversion) : hc.dataVolumeName ≠ "" := by
  intro h
  have := congrArg String.length h
  simp [HyperConversion.dataVolumeName] at this

variable (stored : ns.hyperConversion = some hc) (named : hc.status.Named)

include stored named

theorem handlePending_leaves (phase : hc.status.phase = .unset ∨ hc.status.phase = .pending) :
    Leaves hc (ns.handlePending api hc) (api.statusUpdate.applied = true → ns.MakesDataVolume api hc) := by
  have running : hc.status.phase.terminal = false := by
    rcases phase with h | h <;> rw [h] <;> rfl
  have forward : ∀ q : Phase, 0 < q.rank → hc.status.phase.Forward q := by
    intro q later
    rcases phase with h | h <;> rw [h] <;> exact .later rfl later
  have kept : (ns.createDataVolume api hc).1.hyperConversion = some hc := stored
  unfold handlePending
  dsimp only
  rcases createDataVolume_cases api ns hc with ⟨makes, ok⟩ | ⟨fails, err, error⟩
  · rw [ok]
    refine Leaves.congr (leaves_write kept named running api _ (forward .uploading (by decide)) ?_ nofun) ?_
    · exact ⟨nofun, fun _ => dataVolumeName_ne_nil hc, fun _ => named.machine running, fun _ => named.time running⟩
    · simp [makes, Status.Timed, Phase.terminal]
  · rw [error]
    refine Leaves.congr (leaves_writeDiscarding kept named running api _ (forward .failed (by decide))
      (.failed rfl) nofun) ?_
    simp [fails, Status.Timed, Phase.terminal, named.time running]

theorem handleUploading_leaves (phase : hc.status.phase = .uploading) :
    Leaves hc (ns.handleUploading env api hc) (ns.WatchesImport api hc) := by
  have running : hc.status.phase.terminal = false := by rw [phase]; rfl
  have forward : ∀ q : Phase, 1 < q.rank → hc.status.phase.Forward q :=
    fun q later => .later running (by rw [phase]; exact later)
  unfold handleUploading
  dsimp only
  rw [if_neg (named.volume phase)]
  split
  · next h =>
    obtain ⟨asked, missing, -⟩ := Objects.get_eq_notFound.mp h
    refine Leaves.congr (leaves_writeDiscarding stored named running api _ (forward .failed (by decide))
      (.failed rfl) fun _ => rfl) ?_
    simp [WatchesImport, asked, missing, Status.Timed, Phase.terminal, named.time running]
  · next other h =>
    refine Leaves.congr (leaves_error stored named running _) ?_
    simp [WatchesImport, Objects.ne_ok_of_get_eq_error h other]
  · next dv h =>
    obtain ⟨asked, found⟩ := Objects.get_eq_ok.mp h
    split
    · next late =>
      refine Leaves.congr (leaves_writeDiscarding stored named running api _ (forward .failed (by decide))
        (.failed rfl) fun _ => rfl) ?_
      simp [WatchesImport, asked, found, late, Status.Timed]
    · next early =>
      split
      · next succeeded =>
        refine Leaves.congr (leaves_write stored named running api _ (forward .converting (by decide)) ?_ nofun) ?_
        · exact ⟨nofun, nofun, fun _ => named.machine running, fun _ => named.time running⟩
        · simp [WatchesImport, asked, found, early, succeeded, Status.Timed, Phase.terminal]
      · split
        · next failed =>
          refine Leaves.congr (leaves_writeDiscarding stored named running api _ (forward .failed (by decide))
            (.failed rfl) fun _ => rfl) ?_
          simp [WatchesImport, asked, found, failed, Status.Timed]
        · next importing =>
          refine Leaves.congr (leaves_writeDiscarding stored named running api _ (.inl rfl) ?_ nofun) ?_
          · exact ⟨named.fresh, named.volume, named.machine, named.time⟩
          · simp [WatchesImport, asked, found, early, importing, Status.Timed, running]

theorem handleConverting_leaves (phase : hc.status.phase = .converting) :
    Leaves hc (ns.handleConverting api hc) True := by
  have running : hc.status.phase.terminal = false := by rw [phase]; rfl
  have forward : ∀ q : Phase, 2 < q.rank → hc.status.phase.Forward q :=
    fun q later => .later running (by rw [phase]; exact later)
  unfold handleConverting
  dsimp only
  split
  · refine Leaves.congr (leaves_write stored named running api _ (forward .fixing (by decide)) ?_ nofun) ?_
    · exact ⟨nofun, nofun, fun _ => named.machine running, fun _ => named.time running⟩
    · simp [Status.Timed, Phase.terminal]
  · split
    · refine Leaves.congr (leaves_write stored named running api _ (forward .ready (by decide)) (.ready rfl)
        fun _ => rfl) ?_
      simp [Status.Timed]
    · refine Leaves.congr (leaves_write stored named running api _ (forward .creatingVM (by decide)) ?_ nofun) ?_
      · exact ⟨nofun, nofun, fun _ => named.machine running, fun _ => named.time running⟩
      · simp [Status.Timed, Phase.terminal]

theorem handleFixing_leaves (phase : hc.status.phase = .fixing) :
    Leaves hc (ns.handleFixing env api hc) (ns.WatchesFixer api hc) := by
  have running : hc.status.phase.terminal = false := by rw [phase]; rfl
  have forward : ∀ q : Phase, 3 < q.rank → hc.status.phase.Forward q :=
    fun q later => .later running (by rw [phase]; exact later)
  have kept := (createFixerJob_hyperConversion env api ns hc).trans stored
  unfold handleFixing
  dsimp only
  split
  · next unnamed =>
    have watches : ns.WatchesFixer api hc := fun h => absurd unnamed h
    split
    · refine Leaves.congr (leaves_writeDiscarding kept named running api _ (forward .failed (by decide))
        (.failed rfl) (fun h => by cases h)) ?_
      simp [watches, Status.Timed]
    · refine Leaves.congr (leaves_write kept named running api _ (.inl rfl) ?_ (fun h => by cases h)) ?_
      · exact ⟨named.fresh, named.volume, named.machine, named.time⟩
      · simp [watches, Status.Timed, running]
  · next jobNamed =>
    split
    · next h =>
      obtain ⟨asked, missing, -⟩ := Objects.get_eq_notFound.mp h
      refine Leaves.congr (leaves_writeDiscarding stored named running api _ (forward .failed (by decide))
        (.failed rfl) fun _ => rfl) ?_
      simp [WatchesFixer, jobNamed, asked, missing, Status.Timed]
    · next other h =>
      refine Leaves.congr (leaves_error stored named running _) ?_
      simp [WatchesFixer, Objects.ne_ok_of_get_eq_error h other]
    · next job h =>
      obtain ⟨asked, found⟩ := Objects.get_eq_ok.mp h
      split
      · next verdict =>
        split
        · refine Leaves.congr (leaves_write stored named running api _ (forward .ready (by decide)) (.ready rfl)
            (fun h => by cases h)) ?_
          simp [WatchesFixer, asked, found, verdict, Status.Timed]
        · refine Leaves.congr (leaves_write stored named running api _ (forward .creatingVM (by decide)) ?_ (fun h => by cases h)) ?_
          · exact ⟨by simp, by simp, fun _ => named.machine running, fun _ => named.time running⟩
          · simp [WatchesFixer, asked, found, verdict, Status.Timed, Phase.terminal]
      · next verdict =>
        refine Leaves.congr (leaves_writeDiscarding stored named running api _ (forward .failed (by decide))
          (.failed rfl) fun _ => rfl) ?_
        simp [WatchesFixer, jobNamed, asked, found, verdict, Status.Timed]
      · next verdict =>
        split
        · next late =>
          have deleted := (deleteJob_hyperConversion api ns hc.status.fixerJobName).trans stored
          refine Leaves.congr (leaves_writeDiscarding deleted named running api _ (forward .failed (by decide))
            (.failed rfl) fun _ => rfl) ?_
          simp [WatchesFixer, jobNamed, asked, found, verdict, late, Status.Timed]
        · next early =>
          refine Leaves.congr (leaves_writeDiscarding stored named running api _ (.inl rfl) ?_ (fun h => by cases h)) ?_
          · exact ⟨named.fresh, named.volume, named.machine, named.time⟩
          · simp [WatchesFixer, asked, found, verdict, early, Status.Timed, running]

theorem handleCreatingVM_leaves (phase : hc.status.phase = .creatingVM) :
    Leaves hc (ns.handleCreatingVM api hc) True := by
  have running : hc.status.phase.terminal = false := by rw [phase]; rfl
  have forward : ∀ q : Phase, 4 < q.rank → hc.status.phase.Forward q :=
    fun q later => .later running (by rw [phase]; exact later)
  unfold handleCreatingVM
  dsimp only
  split
  · refine Leaves.congr (leaves_write stored named running api _ (forward .ready (by decide)) (.ready rfl)
      fun _ => rfl) ?_
    simp [Status.Timed]
  · next vm requested =>
    have kept : (ns.createVirtualMachine api hc vm).1.hyperConversion = some hc := stored
    rw [if_pos (named.machine running)]
    unfold makeVM
    dsimp only
    split
    · refine Leaves.congr (leaves_writeDiscarding kept named running api _ (forward .failed (by decide))
        (.failed rfl) nofun) ?_
      simp [Status.Timed]
    · refine Leaves.congr (leaves_write kept named running api _ (forward .ready (by decide)) (.ready rfl)
        fun _ => rfl) ?_
      simp [Status.Timed]

theorem handlePhase_leaves (env : Env) (api : Api) (timed : hc.status.Timed) :
    Leaves hc (ns.handlePhase env api hc) (ns.OrderlyPhase api hc) := by
  have settled (phase : hc.status.phase.terminal = true) : Leaves hc (ns, .done) True :=
    ⟨hc, stored, rfl, .inl rfl, named, by simp [timed, phase]⟩
  cases phase : hc.status.phase with
  | unset => simpa only [handlePhase, OrderlyPhase, phase] using handlePending_leaves stored named (.inl phase)
  | pending => simpa only [handlePhase, OrderlyPhase, phase] using handlePending_leaves stored named (.inr phase)
  | uploading => simpa only [handlePhase, OrderlyPhase, phase] using handleUploading_leaves stored named phase
  | converting => simpa only [handlePhase, OrderlyPhase, phase] using handleConverting_leaves stored named phase
  | fixing => simpa only [handlePhase, OrderlyPhase, phase] using handleFixing_leaves stored named phase
  | creatingVM => simpa only [handlePhase, OrderlyPhase, phase] using handleCreatingVM_leaves stored named phase
  | ready => simpa only [handlePhase, OrderlyPhase, phase] using settled (by rw [phase]; rfl)
  | failed => simpa only [handlePhase, OrderlyPhase, phase] using settled (by rw [phase]; rfl)

end Handlers

section Steps

variable {env : Env} {ns : Namespace} {hc : HyperConversion}

theorem update_stored {api : Api} {new hc' : HyperConversion} (stored : ns.hyperConversion = some hc)
    (after : (ns.update api new).1.hyperConversion = some hc') : hc' = new ∨ hc' = hc := by
  unfold update at after
  dsimp only at after
  split at after
  · dsimp only at after
    split at after
    · cases after
    · exact .inl (Option.some.inj after).symm
  · exact .inr (Option.some.inj (stored.symm.trans after)).symm

theorem reconcile_of_none (env : Env) (api : Api) (gone : ns.hyperConversion = none) :
    (ns.reconcile env api).1 = ns := by
  cases answer : api.getHyperConversion.error? <;> simp [reconcile, answer, gone]

/-- Whether a Reconcile comes to the phases. -/
def Handles (api : Api) (hc : HyperConversion) : Prop :=
  api.getHyperConversion = .ok ∧ hyperConversionFinalizer ∈ hc.finalizers ∧ hc.deletionTimestamp = none

theorem reconcile_of_handles {api : Api} (env : Env) (stored : ns.hyperConversion = some hc) (handles : Handles api hc) :
    ns.reconcile env api = ns.handlePhase env api hc := by
  obtain ⟨got, finalizer, live⟩ := handles
  simp [reconcile, got, Answer.error?, stored, finalizer, live]

/-- A Reconcile that does not come to the phases leaves the status, and is not done with a live object. -/
theorem reconcile_of_not_handles {api : Api} (env : Env) (stored : ns.hyperConversion = some hc)
    (other : ¬ Handles api hc) :
    (∀ hc', (ns.reconcile env api).1.hyperConversion = some hc' → hc'.uid = hc.uid ∧ hc'.status = hc.status) ∧
      (hc.deletionTimestamp = none → (ns.reconcile env api).2 ≠ .done) := by
  have unchanged : ∀ hc', ns.hyperConversion = some hc' → hc'.uid = hc.uid ∧ hc'.status = hc.status := by
    intro hc' h
    rw [stored, Option.some.injEq] at h
    simp [h]
  unfold reconcile
  cases got : api.getHyperConversion.error? with
  | some err => exact ⟨unchanged, fun _ => nofun⟩
  | none =>
    rw [stored]
    dsimp only
    split
    · refine ⟨fun hc' h => ?_, fun _ => ?_⟩
      · rcases update_stored stored h with rfl | rfl <;> exact ⟨rfl, rfl⟩
      · cases answer : api.update.error? <;> simp [update, answer]
    · next present =>
      split
      · next deleted =>
        refine ⟨fun hc' h => ?_, fun live => by rw [live] at deleted; cases deleted⟩
        unfold handleDeletion at h
        split at h
        · exact unchanged hc' h
        · rcases update_stored ((cleanUp_hyperConversion api ns hc.status).trans stored) h with rfl | rfl <;>
            exact ⟨rfl, rfl⟩
      · next live =>
        have live : hc.deletionTimestamp = none := by simpa using live
        refine absurd ⟨Answer.error?_eq_none.mp got, ?_, live⟩ other
        by_contra absent
        exact present ⟨absent, live⟩

/-- The statuses a run can store. -/
def Tidy (ns : Namespace) : Prop := ∀ hc, ns.hyperConversion = some hc → hc.status.Named ∧ hc.status.Timed

/-- A step that leaves the status keeps the law, if it does not return from a live conversion. -/
theorem lawful_of_status {e : Event} (tidy : ns.Tidy)
    (same : ∀ hc', (ns.step env e).hyperConversion = some hc' →
      ∃ hc, ns.hyperConversion = some hc ∧ hc'.status = hc.status)
    (unsettled : ∀ api hc, e = .reconcile api → ns.hyperConversion = some hc → hc.deletionTimestamp = none →
      (ns.reconcile env api).2 ≠ .done) : Lawful env ns e ∧ (ns.step env e).Tidy := by
  have after : (ns.step env e).Tidy := by
    intro hc' h
    obtain ⟨hc, stored, status⟩ := same hc' h
    rw [status]
    exact tidy hc stored
  refine ⟨⟨?_, fun hc' h => (after hc' h).2, ?_⟩, after⟩
  · intro hc hc' stored h
    obtain ⟨before, stored', status⟩ := same hc' h
    rw [stored, Option.some.injEq] at stored'
    subst stored'
    exact .inl (congrArg Status.phase status.symm)
  · intro api hc hc' event stored live done
    exact absurd done (unsettled api hc event stored live)

/-- A Reconcile keeps the law exactly when it is orderly, and is tidy if it does. -/
theorem reconcile_lawful_iff (api : Api) (tidy : ns.Tidy) :
    (Lawful env ns (.reconcile api) ↔ ns.Orderly (.reconcile api)) ∧
      (Lawful env ns (.reconcile api) → (ns.step env (.reconcile api)).Tidy) := by
  by_cases handled : ∃ hc, ns.hyperConversion = some hc ∧ Handles api hc
  · obtain ⟨hc, stored, handles⟩ := handled
    obtain ⟨named, timed⟩ := tidy hc stored
    obtain ⟨hc', after, -, forward, named', fine⟩ := handlePhase_leaves stored named env api timed
    have same := reconcile_of_handles env stored handles
    have stored' : (ns.step env (.reconcile api)).hyperConversion = some hc' := by
      rw [← after, ← same]
      rfl
    rw [← same] at fine
    constructor
    · constructor
      · intro lawful hc₁ stored₁ got finalizer live
        rw [stored, Option.some.injEq] at stored₁
        subst stored₁
        refine fine.mp ⟨lawful.completed hc' stored', fun done => ?_⟩
        exact lawful.settled api hc hc' rfl stored live done stored'
      · intro orderly
        obtain ⟨timed', settled⟩ := fine.mpr (orderly hc stored handles.1 handles.2.1 handles.2.2)
        refine ⟨?_, ?_, ?_⟩
        · intro hc₁ hc₂ stored₁ stored₂
          rw [stored, Option.some.injEq] at stored₁
          rw [stored', Option.some.injEq] at stored₂
          rwa [← stored₁, ← stored₂]
        · intro hc₂ stored₂
          rw [stored', Option.some.injEq] at stored₂
          rwa [← stored₂]
        · intro api' _ hc₂ event _ _ done stored₂
          rw [stored', Option.some.injEq] at stored₂
          rw [← stored₂]
          cases event
          exact settled done
    · intro lawful hc₂ stored₂
      refine ⟨?_, lawful.completed hc₂ stored₂⟩
      rw [stored', Option.some.injEq] at stored₂
      rwa [← stored₂]
  · have other : ∀ hc, ns.hyperConversion = some hc → ¬ Handles api hc := fun hc stored h => handled ⟨hc, stored, h⟩
    have same : ∀ hc', (ns.step env (.reconcile api)).hyperConversion = some hc' →
        ∃ hc, ns.hyperConversion = some hc ∧ hc'.status = hc.status := by
      intro hc' after
      cases stored : ns.hyperConversion with
      | none =>
        rw [step, reconcile_of_none env api stored, stored] at after
        cases after
      | some hc => exact ⟨hc, rfl, ((reconcile_of_not_handles env stored (other hc stored)).1 hc' after).2⟩
    obtain ⟨lawful, tidy'⟩ := lawful_of_status tidy same fun api' hc event stored live => by
      cases event
      exact (reconcile_of_not_handles env stored (other hc stored)).2 live
    refine ⟨⟨fun _ hc stored got finalizer live => ?_, fun _ => lawful⟩, fun _ => tidy'⟩
    exact absurd ⟨got, finalizer, live⟩ (other hc stored)

theorem lawful_of_quiet {e : Event} (tidy : ns.Tidy) (quiet : ∀ api, e ≠ .reconcile api)
    (same : ∀ hc', (ns.step env e).hyperConversion = some hc' →
      ∃ hc, ns.hyperConversion = some hc ∧ hc'.status = hc.status) :
    (Lawful env ns e ↔ True) ∧ (Lawful env ns e → (ns.step env e).Tidy) := by
  obtain ⟨lawful, tidy'⟩ := lawful_of_status tidy same fun api _ event => absurd event (quiet api)
  exact ⟨iff_of_true lawful trivial, fun _ => tidy'⟩

theorem step_lawful_iff (e : Event) (tidy : ns.Tidy) :
    (Lawful env ns e ↔ ns.Orderly e) ∧ (Lawful env ns e → (ns.step env e).Tidy) := by
  cases e with
  | reconcile api => exact reconcile_lawful_iff api tidy
  | cluster dvs jobs vms elapsed =>
    apply lawful_of_quiet tidy (by simp)
    intro hc' after
    exact ⟨hc', after, rfl⟩
  | edit spec =>
    apply lawful_of_quiet tidy (by simp)
    intro hc' after
    obtain ⟨hc, stored, rfl⟩ := Option.map_eq_some_iff.mp after
    exact ⟨hc, stored, rfl⟩
  | delete =>
    apply lawful_of_quiet tidy (by simp)
    intro hc' after
    obtain ⟨hc, stored, marked⟩ := Option.bind_eq_some_iff.mp after
    refine ⟨hc, stored, ?_⟩
    unfold markDeleted at marked
    split at marked
    · cases marked
    · rw [← Option.some.inj marked]

theorem tidy_created (name inNamespace uid : String) (finalizers : List String) (spec : Spec)
    (dvs : Objects DataVolume) (jobs : Objects Job) (vms : Objects VirtualMachine) (now : Nat) :
    (created name inNamespace uid finalizers spec dvs jobs vms now).Tidy := by
  intro hc h
  rw [← Option.some.inj h]
  exact ⟨⟨fun _ => rfl, nofun, fun _ => rfl, fun _ => rfl⟩, nofun⟩

/-- The phase machine keeps its law throughout a run exactly when every Reconcile of the run is orderly. -/
theorem lawful_iff_orderly (env : Env) (name inNamespace uid : String) (finalizers : List String) (spec : Spec)
    (dvs : Objects DataVolume) (jobs : Objects Job) (vms : Objects VirtualMachine) (now : Nat) (es : List Event) :
    EachStep (step env) (Lawful env) (created name inNamespace uid finalizers spec dvs jobs vms now) es ↔
      EachStep (step env) Orderly (created name inNamespace uid finalizers spec dvs jobs vms now) es := by
  apply eachStep_congr (I := Tidy)
  · intro ns e tidy
    exact (step_lawful_iff e tidy).1
  · intro ns e tidy orderly
    exact (step_lawful_iff e tidy).2 ((step_lawful_iff e tidy).1.mpr orderly)
  · exact tidy_created name inNamespace uid finalizers spec dvs jobs vms now

end Steps

def plainEnv : Env where
  scanProgress _ := none

/-- A disk to import, in an empty namespace. -/
def webCreated : Namespace :=
  created "web" "default" "uid-web" [] { source := { url := "https://images/web.vmdk", format := "vmdk" } }
    (fun _ => none) (fun _ => none) (fun _ => none) 0

/-- CDI refuses the DataVolume. -/
def importRefused : List Event :=
  [.reconcile {}, .reconcile { createDataVolume := .refused "no matches for kind DataVolume" }]

/-- The import fails, and the write that would say so is refused. -/
def failureUnwritten : List Event :=
  [.reconcile {}, .reconcile {},
    .cluster (fun name => if name = "web-dv" then some { owner := some "uid-web", phase := "Failed" } else none)
      (fun _ => none) (fun _ => none) 10,
    .reconcile { statusUpdate := .refused "conflict" }]

/-- A refused import is stored as Failed with no completion time, and a failed one whose write is refused is
left in Uploading by a Reconcile that asks for no other. -/
theorem phaseMachine_breaks :
    ¬ EachStep (step plainEnv) (Lawful plainEnv) webCreated importRefused ∧
      ¬ EachStep (step plainEnv) (Lawful plainEnv) webCreated failureUnwritten := by
  constructor
  · intro lawful
    have timed := lawful.2.1.completed _ rfl rfl
    exact absurd timed (by decide +kernel)
  · intro lawful
    have settled := lawful.2.2.2.1.settled _ _ _ rfl rfl rfl rfl rfl
    exact absurd settled (by decide +kernel)

end Namespace

end H2kvm.Operator
