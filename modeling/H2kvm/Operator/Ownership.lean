import H2kvm.Operator.PhaseMachine

namespace H2kvm.Operator

open Framework

namespace Namespace

/-- An object that bears a name has this HyperConversion as its controller owner. -/
def Owned (uid : String) (ns : Namespace) (kind : Kind) (name : String) : Prop :=
  ∀ owner, ns.ownerOf kind name = some owner → owner = some uid

/-- All that was recorded, mounted or deleted was this HyperConversion's own. -/
def AllOwned (uid : String) (ns : Namespace) : Prop := ∀ t ∈ ns.touched, t.owner = some uid

/-- The API answers that `createFixerJob` needs. -/
def MakesJob (api : Api) (ns : Namespace) (hc : HyperConversion) : Prop :=
  fixerRefusal hc = none ∧ api.createJob = .ok ∧ ((ns.jobs hc.fixerJobName).isSome → api.getJob = .ok)

/-- The API answers that `createVirtualMachine` needs. -/
def MakesVM (api : Api) (ns : Namespace) (hc : HyperConversion) (vm : VMSpec) : Prop :=
  api.createVirtualMachine = .ok ∧
    ((ns.virtualMachines (hc.virtualMachineName vm)).isSome → api.getExistingVirtualMachine = .ok)

/-- No other owner's Job bears the name of the fixer, nor its DataVolume that of the claim a new fixer mounts. -/
def ClearFixer (api : Api) (ns : Namespace) (hc : HyperConversion) : Prop :=
  (fixerRefusal hc = none → ns.jobs hc.fixerJobName = none → api.createJob.applied = true →
    ns.Owned hc.uid .dataVolume hc.status.dataVolumeName) ∧
  (ns.MakesJob api hc → api.statusUpdate.applied = true → ns.Owned hc.uid .job hc.fixerJobName)

/-- The fixer that takes too long and is deleted is not another owner's. -/
def ClearTimeout (api : Api) (ns : Namespace) (hc : HyperConversion) : Prop :=
  api.getJob = .ok → ∀ job, ns.jobs hc.status.fixerJobName = some job → job.verdict = none →
    hc.timedOut job.startTime ns.now = true → api.deleteJob.applied = true → job.owner = some hc.uid

def ClearPhase (api : Api) (ns : Namespace) (hc : HyperConversion) : Prop :=
  match hc.status.phase with
  | .unset | .pending => ns.MakesDataVolume api hc → api.statusUpdate.applied = true →
      ns.Owned hc.uid .dataVolume hc.dataVolumeName
  | .fixing => if hc.status.fixerJobName = "" then ns.ClearFixer api hc else ns.ClearTimeout api hc
  | .creatingVM => ∀ vm, hc.spec.vm = some vm → hc.virtualMachineName vm ≠ "" → ns.MakesVM api hc vm →
      api.statusUpdate.applied = true → ns.Owned hc.uid .virtualMachine (hc.virtualMachineName vm)
  | .uploading | .converting | .ready | .failed => True

/-- What still bears the recorded names when they are cleaned up is not another owner's. -/
structure ClearCleanUp (api : Api) (ns : Namespace) (hc : HyperConversion) : Prop where
  volume : hc.status.dataVolumeName ≠ "" → api.getDataVolume = .ok → api.deleteDataVolume.applied = true →
    ns.Owned hc.uid .dataVolume hc.status.dataVolumeName
  job : hc.status.fixerJobName ≠ "" → api.getJob = .ok → api.deleteJob.applied = true →
    ns.Owned hc.uid .job hc.status.fixerJobName
  machine : hc.status.virtualMachineName ≠ "" → api.getVirtualMachine = .ok → api.deleteVirtualMachine.applied = true →
    ns.Owned hc.uid .virtualMachine hc.status.virtualMachineName

/-- The steps in which no other owner's object stands in the way. -/
def Clear (ns : Namespace) : Event → Prop
  | .reconcile api => ∀ hc, ns.hyperConversion = some hc → api.getHyperConversion = .ok →
      hyperConversionFinalizer ∈ hc.finalizers →
      if hc.deletionTimestamp.isSome then ns.ClearCleanUp api hc else ns.ClearPhase api hc
  | _ => True

section Touches

variable {uid : String} {ns : Namespace} {hc : HyperConversion}

@[simp] theorem touch_ownerOf (ns : Namespace) (use : Use) (kind : Kind) (name : String) :
    (ns.touch use kind name).ownerOf = ns.ownerOf := by
  unfold touch
  split <;> rfl

theorem owned_touch {use : Use} {kind kind' : Kind} {name name' : String} :
    (ns.touch use kind name).Owned uid kind' name' ↔ ns.Owned uid kind' name' := by
  simp [Owned]

theorem allOwned_touch (use : Use) (kind : Kind) (name : String) :
    (ns.touch use kind name).AllOwned uid ↔ ns.AllOwned uid ∧ ns.Owned uid kind name := by
  unfold touch
  cases h : ns.ownerOf kind name with
  | none => simp [Owned, h]
  | some owner => simp [AllOwned, Owned, h, or_imp, forall_and]

theorem allOwned_touches (names : List (Kind × String)) :
    (names.foldl (fun ns n => ns.touch .recorded n.1 n.2) ns).AllOwned uid ↔
      ns.AllOwned uid ∧ ∀ n ∈ names, ns.Owned uid n.1 n.2 := by
  induction names generalizing ns with
  | nil => simp
  | cons n names ih =>
    rw [List.foldl_cons, ih, allOwned_touch]
    simp [owned_touch, and_assoc]

theorem allOwned_statusUpdate (api : Api) (st : Status) :
    (ns.statusUpdate api st).1.AllOwned uid ↔
      ns.AllOwned uid ∧ (api.statusUpdate.applied = true → ∀ n ∈ ns.newNames st, ns.Owned uid n.1 n.2) := by
  unfold statusUpdate
  split
  · next h =>
    simp only [h, true_imp_iff]
    exact allOwned_touches (ns.newNames st)
  · next h => simp [h]

/-- A write that records no new name touches nothing. -/
theorem allOwned_statusUpdate_same (api : Api) (stored : ns.hyperConversion = some hc) (st : Status)
    (same : st.names = hc.status.names) : (ns.statusUpdate api st).1.AllOwned uid ↔ ns.AllOwned uid := by
  have none_new : ns.newNames st = [] := by
    rw [newNames, stored, same, List.filter_eq_nil_iff]
    intro n recorded
    simp [recorded]
  simp [allOwned_statusUpdate, none_new]

theorem newNames_dataVolume (stored : ns.hyperConversion = some hc) (st : Status)
    (fresh : hc.status.dataVolumeName = "") (named : st.dataVolumeName ≠ "")
    (job : st.fixerJobName = hc.status.fixerJobName) (machine : st.virtualMachineName = hc.status.virtualMachineName) :
    ns.newNames st = [(.dataVolume, st.dataVolumeName)] := by
  simp [newNames, stored, Status.names, fresh, named, job, machine]

theorem newNames_job (stored : ns.hyperConversion = some hc) (st : Status)
    (fresh : hc.status.fixerJobName = "") (named : st.fixerJobName ≠ "")
    (volume : st.dataVolumeName = hc.status.dataVolumeName) (machine : st.virtualMachineName = hc.status.virtualMachineName) :
    ns.newNames st = [(.job, st.fixerJobName)] := by
  simp [newNames, stored, Status.names, fresh, named, volume, machine]

theorem owned_newNames_virtualMachine (stored : ns.hyperConversion = some hc) (st : Status)
    (fresh : hc.status.virtualMachineName = "") (volume : st.dataVolumeName = hc.status.dataVolumeName)
    (job : st.fixerJobName = hc.status.fixerJobName) :
    (∀ n ∈ ns.newNames st, ns.Owned uid n.1 n.2) ↔
      (st.virtualMachineName ≠ "" → ns.Owned uid .virtualMachine st.virtualMachineName) := by
  by_cases named : st.virtualMachineName = ""
  · simp [newNames, stored, Status.names, fresh, named, volume, job]
  · simp [newNames, stored, Status.names, fresh, named, volume, job]

/-- Making an object that is this owner's leaves what bears its name this owner's or another's, as it was. -/
theorem owner_ensure {α : Type} (owner : α → Option String) {resource name : String} {objs : Objects α} {a b : Answer}
    {x : α} (mine : owner x = some uid) :
    (∀ y, (objs.ensure resource a b name x).1 name = some y → owner y = some uid) ↔
      ∀ y, objs name = some y → owner y = some uid := by
  constructor
  · intro h y found
    apply h
    simp [Objects.ensure_fst, Objects.create, found]
  · intro h y found
    rcases Objects.ensure_lookup found with old | rfl
    · exact h y old
    · exact mine

theorem allOwned_touch_if (applied : Bool) (use : Use) (kind : Kind) (name : String) :
    (if applied then ns.touch use kind name else ns).AllOwned uid ↔
      ns.AllOwned uid ∧ (applied = true → ns.Owned uid kind name) := by
  cases applied with
  | true => simp [allOwned_touch]
  | false => simp

theorem allOwned_deleteDataVolume (api : Api) (name : String) :
    (ns.deleteDataVolume api name).AllOwned uid ↔
      ns.AllOwned uid ∧ (api.deleteDataVolume.applied = true → ns.Owned uid .dataVolume name) :=
  allOwned_touch_if api.deleteDataVolume.applied .deleted .dataVolume name

theorem allOwned_deleteJob (api : Api) (name : String) :
    (ns.deleteJob api name).AllOwned uid ↔
      ns.AllOwned uid ∧ (api.deleteJob.applied = true → ns.Owned uid .job name) :=
  allOwned_touch_if api.deleteJob.applied .deleted .job name

theorem allOwned_deleteVirtualMachine (api : Api) (name : String) :
    (ns.deleteVirtualMachine api name).AllOwned uid ↔
      ns.AllOwned uid ∧ (api.deleteVirtualMachine.applied = true → ns.Owned uid .virtualMachine name) :=
  allOwned_touch_if api.deleteVirtualMachine.applied .deleted .virtualMachine name

theorem cleanUpDataVolume_ownerOf (api : Api) (name : String) {kind : Kind} (other : kind ≠ .dataVolume) :
    (ns.cleanUpDataVolume api name).ownerOf kind = ns.ownerOf kind := by
  have noted := congrFun (touch_ownerOf ns .deleted .dataVolume name) kind
  unfold cleanUpDataVolume deleteDataVolume
  dsimp only
  cases kind with
  | dataVolume => contradiction
  | job => split_ifs <;> first | exact noted | rfl
  | virtualMachine => split_ifs <;> first | exact noted | rfl

theorem cleanUpJob_ownerOf (api : Api) (name : String) {kind : Kind} (other : kind ≠ .job) :
    (ns.cleanUpJob api name).ownerOf kind = ns.ownerOf kind := by
  have noted := congrFun (touch_ownerOf ns .deleted .job name) kind
  unfold cleanUpJob deleteJob
  dsimp only
  cases kind with
  | job => contradiction
  | dataVolume => split_ifs <;> first | exact noted | rfl
  | virtualMachine => split_ifs <;> first | exact noted | rfl

/-- One part of the cleanup: an object that is found under a recorded name is deleted. -/
theorem allOwned_cleanUp_part {ns' : Namespace} {kind : Kind} {name : String} {applied get found : Prop} [Decidable get]
    [Decidable found] (deletes : ns'.AllOwned uid ↔ ns.AllOwned uid ∧ (applied → ns.Owned uid kind name))
    (missing : ¬ found → ns.ownerOf kind name = none) :
    (if name ≠ "" ∧ get ∧ found then ns' else ns).AllOwned uid ↔
      ns.AllOwned uid ∧ (name ≠ "" → get → applied → ns.Owned uid kind name) := by
  split
  · next h => simp [deletes, h]
  · next h =>
    by_cases there : found
    · have unasked : name ≠ "" → ¬ get := fun named asked => h ⟨named, asked, there⟩
      simp only [iff_self_and]
      exact fun _ named asked => absurd asked (unasked named)
    · have vacuous : ns.Owned uid kind name := by
        intro owner found
        rw [missing there] at found
        cases found
      simp [vacuous]

theorem allOwned_cleanUpDataVolume (api : Api) (name : String) :
    (ns.cleanUpDataVolume api name).AllOwned uid ↔ ns.AllOwned uid ∧ (name ≠ "" → api.getDataVolume = .ok →
      api.deleteDataVolume.applied = true → ns.Owned uid .dataVolume name) := by
  apply allOwned_cleanUp_part (allOwned_deleteDataVolume api name)
  intro missing
  simpa [ownerOf] using missing

theorem allOwned_cleanUpJob (api : Api) (name : String) :
    (ns.cleanUpJob api name).AllOwned uid ↔ ns.AllOwned uid ∧ (name ≠ "" → api.getJob = .ok →
      api.deleteJob.applied = true → ns.Owned uid .job name) := by
  apply allOwned_cleanUp_part (allOwned_deleteJob api name)
  intro missing
  simpa [ownerOf] using missing

theorem allOwned_cleanUpVirtualMachine (api : Api) (name : String) :
    (ns.cleanUpVirtualMachine api name).AllOwned uid ↔ ns.AllOwned uid ∧ (name ≠ "" → api.getVirtualMachine = .ok →
      api.deleteVirtualMachine.applied = true → ns.Owned uid .virtualMachine name) := by
  apply allOwned_cleanUp_part (allOwned_deleteVirtualMachine api name)
  intro missing
  simpa [ownerOf] using missing

theorem cleanUp_owned (api : Api) :
    (ns.cleanUp api hc.status).AllOwned hc.uid ↔ ns.AllOwned hc.uid ∧ ns.ClearCleanUp api hc := by
  have clear : ns.ClearCleanUp api hc ↔ _ ∧ _ ∧ _ :=
    ⟨fun h => ⟨h.volume, h.job, h.machine⟩, fun h => ⟨h.1, h.2.1, h.2.2⟩⟩
  -- A part of the cleanup does not change who owns objects of another kind.
  have job : (ns.cleanUpDataVolume api hc.status.dataVolumeName).Owned hc.uid .job hc.status.fixerJobName ↔
      ns.Owned hc.uid .job hc.status.fixerJobName := by
    rw [Owned, Owned, cleanUpDataVolume_ownerOf api _ (by decide)]
  have machine : ((ns.cleanUpDataVolume api hc.status.dataVolumeName).cleanUpJob api hc.status.fixerJobName).Owned hc.uid
      .virtualMachine hc.status.virtualMachineName ↔ ns.Owned hc.uid .virtualMachine hc.status.virtualMachineName := by
    rw [Owned, Owned, cleanUpJob_ownerOf api _ (by decide), cleanUpDataVolume_ownerOf api _ (by decide)]
  rw [cleanUp, allOwned_cleanUpVirtualMachine, allOwned_cleanUpJob, allOwned_cleanUpDataVolume, job, machine, clear,
    and_assoc, and_assoc]

theorem createFixerJob_cases (env : Env) (api : Api) (ns : Namespace) (hc : HyperConversion) :
    (ns.MakesJob api hc ∧ (ns.createFixerJob env api hc).2 = .ok hc.fixerJobName) ∨
      (¬ ns.MakesJob api hc ∧ ∃ err, (ns.createFixerJob env api hc).2 = .error err) := by
  unfold createFixerJob
  dsimp only
  split
  · next refused =>
    refine .inr ⟨fun makes => ?_, _, rfl⟩
    rw [makes.1] at refused
    cases refused
  · next allowed =>
    have makes : (ns.jobs.ensure "jobs.batch" api.createJob api.getJob hc.fixerJobName
        { owner := some hc.uid
          claimName := hc.status.dataVolumeName
          diskFormat := if hc.spec.source.format = "" then "qcow2" else hc.spec.source.format }).2 = none ↔
        ns.MakesJob api hc := by
      simp [Objects.ensure_eq_none_iff, MakesJob, allowed]
    dsimp only
    cases made : (ns.jobs.ensure "jobs.batch" api.createJob api.getJob hc.fixerJobName
        { owner := some hc.uid
          claimName := hc.status.dataVolumeName
          diskFormat := if hc.spec.source.format = "" then "qcow2" else hc.spec.source.format }).2 with
    | none => exact .inl ⟨makes.mp made, rfl⟩
    | some e =>
      refine .inr ⟨fun m => ?_, ?_⟩
      · rw [makes.mpr m] at made
        cases made
      · cases e <;> exact ⟨_, rfl⟩

theorem createVirtualMachine_cases (api : Api) (ns : Namespace) (hc : HyperConversion) (vm : VMSpec) :
    (ns.MakesVM api hc vm ∧ (ns.createVirtualMachine api hc vm).2 = .ok (hc.virtualMachineName vm)) ∨
      (¬ ns.MakesVM api hc vm ∧ ∃ err, (ns.createVirtualMachine api hc vm).2 = .error err) := by
  have makes : (ns.virtualMachines.ensure "virtualmachines.kubevirt.io" api.createVirtualMachine
      api.getExistingVirtualMachine (hc.virtualMachineName vm) ⟨some hc.uid, hc.status.dataVolumeName⟩).2 = none ↔
      ns.MakesVM api hc vm := Objects.ensure_eq_none_iff
  unfold createVirtualMachine
  dsimp only
  split
  · next h => exact .inl ⟨makes.mp h, rfl⟩
  all_goals
    next h =>
    refine .inr ⟨fun m => ?_, _, rfl⟩
    rw [makes.mpr m] at h
    cases h

theorem owned_createFixerJob (env : Env) (api : Api) :
    (ns.createFixerJob env api hc).1.Owned hc.uid .job hc.fixerJobName ↔ ns.Owned hc.uid .job hc.fixerJobName := by
  unfold createFixerJob
  dsimp only
  split
  · rfl
  · simpa [Owned, ownerOf] using owner_ensure Job.owner rfl

theorem allOwned_createFixerJob (env : Env) (api : Api) :
    (ns.createFixerJob env api hc).1.AllOwned uid ↔
      ns.AllOwned uid ∧ (fixerRefusal hc = none → ns.jobs hc.fixerJobName = none → api.createJob.applied = true →
        ns.Owned uid .dataVolume hc.status.dataVolumeName) := by
  unfold createFixerJob
  dsimp only
  split
  · next refused => simp [refused]
  · next allowed =>
    split
    · next made =>
      obtain ⟨absent, applied⟩ := made
      simp only [allowed, Option.isNone_iff_eq_none.mp absent, applied, true_imp_iff]
      exact allOwned_touch .mounted .dataVolume _
    · next unmade =>
      have vacuous : fixerRefusal hc = none → ns.jobs hc.fixerJobName = none → api.createJob.applied = true →
          ns.Owned uid .dataVolume hc.status.dataVolumeName :=
        fun _ absent applied => absurd ⟨Option.isNone_iff_eq_none.mpr absent, applied⟩ unmade
      simp only [iff_true_intro vacuous, and_true]
      rfl

end Touches

section Handlers

variable {env : Env} {api : Api} {ns : Namespace} {hc : HyperConversion}
  (stored : ns.hyperConversion = some hc)

include stored

omit stored in
theorem fixerJobName_ne_nil : hc.fixerJobName ≠ "" := by
  intro h
  have := congrArg String.length h
  simp [HyperConversion.fixerJobName] at this

theorem handlePending_owned (named : hc.status.Named) (phase : hc.status.phase = .unset ∨ hc.status.phase = .pending) :
    (ns.handlePending api hc).1.AllOwned hc.uid ↔
      ns.AllOwned hc.uid ∧ (ns.MakesDataVolume api hc → api.statusUpdate.applied = true →
        ns.Owned hc.uid .dataVolume hc.dataVolumeName) := by
  have kept : (ns.createDataVolume api hc).1.hyperConversion = some hc := stored
  unfold handlePending
  dsimp only
  rcases createDataVolume_cases api ns hc with ⟨makes, ok⟩ | ⟨fails, err, error⟩
  · rw [ok]
    dsimp only [write]
    have owned : (ns.createDataVolume api hc).1.Owned hc.uid .dataVolume hc.dataVolumeName ↔
        ns.Owned hc.uid .dataVolume hc.dataVolumeName := by
      simpa [Owned, ownerOf, createDataVolume] using owner_ensure DataVolume.owner rfl
    rw [allOwned_statusUpdate, newNames_dataVolume kept]
    · simp only [List.mem_singleton, forall_eq, owned, makes, true_imp_iff]
      rfl
    · exact named.fresh phase
    · exact dataVolumeName_ne_nil hc
    all_goals rfl
  · rw [error]
    dsimp only [writeDiscarding]
    rw [allOwned_statusUpdate_same api kept]
    · simp only [fails, false_imp_iff, and_true]
      rfl
    · rfl

theorem handleUploading_owned : (ns.handleUploading env api hc).1.AllOwned hc.uid ↔ ns.AllOwned hc.uid := by
  unfold handleUploading
  dsimp only [write, writeDiscarding]
  split
  · rw [allOwned_statusUpdate_same api stored]
    rfl
  · split
    · rw [allOwned_statusUpdate_same api stored]
      rfl
    · rfl
    · split_ifs
      all_goals
        rw [allOwned_statusUpdate_same api stored]
        rfl

theorem handleConverting_owned : (ns.handleConverting api hc).1.AllOwned hc.uid ↔ ns.AllOwned hc.uid := by
  unfold handleConverting
  dsimp only [write]
  split_ifs
  all_goals
    rw [allOwned_statusUpdate_same api stored]
    rfl

theorem handleFixing_owned_new (unnamed : hc.status.fixerJobName = "") :
    (ns.handleFixing env api hc).1.AllOwned hc.uid ↔ ns.AllOwned hc.uid ∧ ns.ClearFixer api hc := by
  have kept := (createFixerJob_hyperConversion env api ns hc).trans stored
  unfold handleFixing
  dsimp only [write, writeDiscarding]
  rw [if_pos unnamed]
  rcases createFixerJob_cases env api ns hc with ⟨makes, ok⟩ | ⟨fails, err, error⟩
  · rw [ok]
    dsimp only
    rw [allOwned_statusUpdate, newNames_job kept]
    · simp only [List.mem_singleton, forall_eq, owned_createFixerJob, allOwned_createFixerJob, ClearFixer, makes,
        true_imp_iff, and_assoc]
    · exact unnamed
    · exact fixerJobName_ne_nil
    all_goals rfl
  · rw [error]
    dsimp only
    rw [allOwned_statusUpdate_same api kept]
    · simp only [allOwned_createFixerJob, ClearFixer, fails, false_imp_iff, and_true]
    · rfl

theorem handleFixing_owned_watched (jobNamed : hc.status.fixerJobName ≠ "") :
    (ns.handleFixing env api hc).1.AllOwned hc.uid ↔ ns.AllOwned hc.uid ∧ ns.ClearTimeout api hc := by
  unfold handleFixing
  dsimp only [write, writeDiscarding]
  rw [if_neg jobNamed]
  split
  · next h =>
    obtain ⟨-, missing, -⟩ := Objects.get_eq_notFound.mp h
    rw [allOwned_statusUpdate_same api stored]
    · simp [ClearTimeout, missing]
    · rfl
  · next other h => simp [ClearTimeout, Objects.ne_ok_of_get_eq_error h other]
  · next job h =>
    obtain ⟨asked, found⟩ := Objects.get_eq_ok.mp h
    split
    · next verdict =>
      rw [allOwned_statusUpdate_same api stored]
      · simp [ClearTimeout, found, verdict]
      · split <;> rfl
    · next verdict =>
      rw [allOwned_statusUpdate_same api stored]
      · simp [ClearTimeout, found, verdict]
      · rfl
    · next verdict =>
      split
      · next late =>
        rw [allOwned_statusUpdate_same api ((deleteJob_hyperConversion api ns hc.status.fixerJobName).trans stored)]
        · simp [allOwned_deleteJob, ClearTimeout, asked, found, verdict, late, Owned, ownerOf]
        · rfl
      · next early =>
        rw [allOwned_statusUpdate_same api stored]
        · simp [ClearTimeout, found, early]
        · rfl

theorem handleCreatingVM_owned (named : hc.status.Named) (phase : hc.status.phase = .creatingVM) :
    (ns.handleCreatingVM api hc).1.AllOwned hc.uid ↔
      ns.AllOwned hc.uid ∧ ∀ vm, hc.spec.vm = some vm → hc.virtualMachineName vm ≠ "" → ns.MakesVM api hc vm →
        api.statusUpdate.applied = true → ns.Owned hc.uid .virtualMachine (hc.virtualMachineName vm) := by
  have running : hc.status.phase.terminal = false := by rw [phase]; rfl
  unfold handleCreatingVM
  dsimp only [write]
  split
  · next unrequested =>
    rw [allOwned_statusUpdate_same api stored]
    · simp [unrequested]
    · rfl
  · next vm requested =>
    have kept : (ns.createVirtualMachine api hc vm).1.hyperConversion = some hc := stored
    rw [if_pos (named.machine running)]
    unfold makeVM
    dsimp only [write, writeDiscarding]
    rcases createVirtualMachine_cases api ns hc vm with ⟨makes, ok⟩ | ⟨fails, err, error⟩
    · rw [ok]
      dsimp only
      have owned : (ns.createVirtualMachine api hc vm).1.Owned hc.uid .virtualMachine (hc.virtualMachineName vm) ↔
          ns.Owned hc.uid .virtualMachine (hc.virtualMachineName vm) := by
        simpa [Owned, ownerOf, createVirtualMachine] using owner_ensure VirtualMachine.owner rfl
      rw [allOwned_statusUpdate, owned_newNames_virtualMachine kept]
      · simp only [owned, makes, requested, Option.some.injEq, forall_eq', true_imp_iff]
        exact and_congr_right fun _ => ⟨fun h named applied => h applied named, fun h applied named => h named applied⟩
      · exact named.machine running
      all_goals rfl
    · rw [error]
      dsimp only
      rw [allOwned_statusUpdate_same api kept]
      · simp only [requested, Option.some.injEq, forall_eq', fails, false_imp_iff, implies_true, and_true]
        rfl
      · rfl

theorem handlePhase_owned (named : hc.status.Named) :
    (ns.handlePhase env api hc).1.AllOwned hc.uid ↔ ns.AllOwned hc.uid ∧ ns.ClearPhase api hc := by
  cases phase : hc.status.phase with
  | unset => simpa only [handlePhase, ClearPhase, phase] using handlePending_owned stored named (.inl phase)
  | pending => simpa only [handlePhase, ClearPhase, phase] using handlePending_owned stored named (.inr phase)
  | uploading => simpa only [handlePhase, ClearPhase, phase, and_true] using handleUploading_owned stored
  | converting => simpa only [handlePhase, ClearPhase, phase, and_true] using handleConverting_owned stored
  | fixing =>
    simp only [handlePhase, ClearPhase, phase]
    split
    · next unnamed => exact handleFixing_owned_new stored unnamed
    · next jobNamed => exact handleFixing_owned_watched stored jobNamed
  | creatingVM => simpa only [handlePhase, ClearPhase, phase] using handleCreatingVM_owned stored named phase
  | ready => simp [handlePhase, ClearPhase, phase]
  | failed => simp [handlePhase, ClearPhase, phase]

end Handlers

/-- The stored conversion is this one, with a status that a run can store. -/
def Mine (uid : String) (ns : Namespace) : Prop := ∀ hc, ns.hyperConversion = some hc → hc.uid = uid ∧ hc.status.Named

section Runs

variable {env : Env} {uid : String} {ns : Namespace} {hc : HyperConversion}

theorem handlePhase_mine (env : Env) (api : Api) (stored : ns.hyperConversion = some hc) (named : hc.status.Named) :
    ∃ hc', (ns.handlePhase env api hc).1.hyperConversion = some hc' ∧ hc'.uid = hc.uid ∧ hc'.status.Named := by
  cases terminal : hc.status.phase.terminal with
  | false =>
    have timed : hc.status.Timed := by
      intro h
      rw [terminal] at h
      cases h
    obtain ⟨hc', after, uid, -, named', -⟩ := handlePhase_leaves stored named env api timed
    exact ⟨hc', after, uid, named'⟩
  | true =>
    refine ⟨hc, ?_, rfl, named⟩
    cases phase : hc.status.phase <;> simp_all [handlePhase, Phase.terminal]

theorem reconcile_mine (api : Api) (mine : ns.Mine uid) : (ns.reconcile env api).1.Mine uid := by
  cases stored : ns.hyperConversion with
  | none =>
    rw [reconcile_of_none env api stored]
    exact mine
  | some hc =>
    obtain ⟨same, named⟩ := mine hc stored
    by_cases handles : Handles api hc
    · obtain ⟨hc', after, uid', named'⟩ := handlePhase_mine env api stored named
      rw [reconcile_of_handles env stored handles]
      intro hc₁ h
      rw [after, Option.some.injEq] at h
      subst h
      exact ⟨uid'.trans same, named'⟩
    · intro hc' h
      obtain ⟨uid', status⟩ := (reconcile_of_not_handles env stored handles).1 hc' h
      rw [uid', status]
      exact ⟨same, named⟩

theorem step_mine (e : Event) (mine : ns.Mine uid) : (ns.step env e).Mine uid := by
  cases e with
  | reconcile api => exact reconcile_mine api mine
  | cluster dvs jobs vms elapsed => exact mine
  | edit spec =>
    intro hc' h
    obtain ⟨hc, stored, rfl⟩ := Option.map_eq_some_iff.mp h
    exact mine hc stored
  | delete =>
    intro hc' h
    obtain ⟨hc, stored, marked⟩ := Option.bind_eq_some_iff.mp h
    unfold markDeleted at marked
    split at marked
    · cases marked
    · rw [← Option.some.inj marked]
      exact mine hc stored

theorem allOwned_update (api : Api) (new : HyperConversion) :
    (ns.update api new).1.AllOwned uid ↔ ns.AllOwned uid := by
  unfold update
  dsimp only
  split <;> rfl

theorem reconcile_owned_iff (api : Api) (mine : ns.Mine uid) :
    (ns.reconcile env api).1.AllOwned uid ↔ ns.AllOwned uid ∧ ns.Clear (.reconcile api) := by
  cases stored : ns.hyperConversion with
  | none =>
    rw [reconcile_of_none env api stored]
    simp [Clear, stored]
  | some hc =>
    obtain ⟨rfl, named⟩ := mine hc stored
    by_cases got : api.getHyperConversion = .ok
    · by_cases finalizer : hyperConversionFinalizer ∈ hc.finalizers
      · simp only [Clear, stored, Option.some.injEq, forall_eq', got, finalizer, true_imp_iff]
        cases deleted : hc.deletionTimestamp with
        | none =>
          rw [reconcile_of_handles env stored ⟨got, finalizer, deleted⟩]
          exact handlePhase_owned stored named
        | some time =>
          have handled : (ns.reconcile env api).1 = (ns.handleDeletion api hc).1 := by
            simp [reconcile, got, Answer.error?, stored, finalizer, deleted]
          rw [handled, handleDeletion, if_neg (not_not_intro finalizer)]
          exact (allOwned_update api _).trans (cleanUp_owned api)
      · have vacuous : ns.Clear (.reconcile api) := by
          simp [Clear, stored, finalizer]
        have kept : (ns.reconcile env api).1.AllOwned hc.uid ↔ ns.AllOwned hc.uid := by
          cases deleted : hc.deletionTimestamp with
          | none => simp [reconcile, got, Answer.error?, stored, finalizer, deleted, allOwned_update]
          | some time => simp [reconcile, got, Answer.error?, stored, finalizer, deleted, handleDeletion]
        simp [kept, vacuous]
    · have vacuous : ns.Clear (.reconcile api) := by
        simp [Clear, got]
      obtain ⟨err, failed⟩ := Option.ne_none_iff_exists'.mp (mt Answer.error?_eq_none.mp got)
      simp [reconcile, failed, vacuous]

theorem step_owned_iff (e : Event) (mine : ns.Mine uid) :
    (ns.step env e).AllOwned uid ↔ ns.AllOwned uid ∧ ns.Clear e := by
  cases e with
  | reconcile api => exact reconcile_owned_iff api mine
  | cluster dvs jobs vms elapsed => exact (and_iff_left trivial).symm
  | edit spec => exact (and_iff_left trivial).symm
  | delete => exact (and_iff_left trivial).symm

/-- A DataVolume of another tenant bears the name the import would take. -/
def volumeTaken : Objects DataVolume := fun name => if name = "web-dv" then some { owner := some "uid-other" } else none

def webAmongOthers : Namespace :=
  created "web" "default" "uid-web" [] { source := { url := "https://images/web.vmdk", format := "vmdk" } }
    volumeTaken (fun _ => none) (fun _ => none) 0

end Runs

end Namespace

end H2kvm.Operator
