import H2kvm.Operator.Validation

namespace H2kvm.Operator

open Framework

def ValidationPhase.early : ValidationPhase → Bool
  | .unset | .pending => true
  | .running | .validated | .failed | .kubeVirtCreated => false

/-- No call fails, and the log can be read. -/
def ValidationApi.Faultless (api : ValidationApi) : Prop := ∃ body, api = { logs := .text body }

/-- Where a Validation whose pod succeeds is to arrive. -/
def ValidationSpec.goal (spec : ValidationSpec) : ValidationPhase :=
  if spec.createKubeVirtVM then .kubeVirtCreated else .validated

namespace Validations

/-- Finitely many Reconcile calls without failures bring a Validation to its goal, once a pod of its own has
succeeded. -/
def Recovers (env : ValidationEnv) (s : Validations) : Prop :=
  ∀ name v, s.objects name = some v → v.deletionTimestamp = none → name ∈ s.succeeded →
    ∃ k, ∀ apis : List ValidationApi, apis.length = k → (∀ api ∈ apis, api.Faultless) →
      ∃ v', (run (fun s api => (s.reconcile env name api).1) s apis).objects name = some v' ∧
        v'.status.phase = v.spec.goal

/-- A Validation is not failed for the lack of a pod while a pod of its own exists. -/
def KeepsPod (env : ValidationEnv) (s : Validations) : ValidationEvent → Prop
  | .reconcile name api => ∀ v v', s.objects name = some v → v.status.phase = .running →
      (s.reconcile env name api).1.objects name = some v' → v'.status.phase = .failed →
      v'.status.message = disappeared → ∀ p pod, s.pods p = some pod → pod.controller ≠ some name
  | _ => True

/-- The first status write of a Pending Validation is not lost, and once it is made the second one has its
effect and the pod is not made without an answer. -/
def SmoothPending (api : ValidationApi) : Prop :=
  (∀ err, api.statusUpdate ≠ .lost err) ∧
    (api.statusUpdate = .ok → api.secondStatusUpdate.applied = true ∧ ∀ err, api.createPod ≠ .lost err)

/-- A Running Validation whose pod is got is not written to if there is no pod; where it ends, the write has
its effect; a pod that ran out of time goes, and the log of one that succeeded can be read. -/
def SmoothRunning (api : ValidationApi) (s : Validations) (v : Validation) : Prop :=
  api.getPod = .ok →
    match s.pods v.status.validationPod with
    | none => api.statusUpdate.applied = false
    | some pod =>
      if v.timedOut s.now then api.statusUpdate.applied = true ∧ api.deletePod.applied = true
      else
        match pod.phase with
        | .succeeded => api.statusUpdate.applied = true ∧ ∃ body, api.logs = .text body
        | .failed => api.statusUpdate.applied = true
        | .pending | .running | .unknown => True

/-- The VM is refused, or made with an answer and written down. -/
def SmoothValidated (api : ValidationApi) (v : Validation) : Prop :=
  v.spec.createKubeVirtVM = true →
    (∃ err, api.createVM = .refused err) ∨ api.createVM = .ok ∧ api.statusUpdate.applied = true

def SmoothPhase (api : ValidationApi) (s : Validations) (v : Validation) : Prop :=
  match v.status.phase with
  | .unset | .pending => SmoothPending api
  | .running => s.SmoothRunning api v
  | .validated => SmoothValidated api v
  | .failed | .kubeVirtCreated => True

/-- A Validation that is running does not go. -/
def SmoothDeletion (api : ValidationApi) (v : Validation) : Prop :=
  v.finalizers.filter (· ≠ validationFinalizer) = [] → api.update.applied = true → v.status.phase ≠ .running

/-- The steps that do not go wrong. -/
def Smooth (env : ValidationEnv) (s : Validations) : ValidationEvent → Prop
  | .reconcile name api => ∀ v, s.objects name = some v → api.getValidation = .ok →
      validationFinalizer ∈ v.finalizers →
      if v.deletionTimestamp.isSome then SmoothDeletion api v else s.SmoothPhase api v
  | .podPhase name phase _ => phase = .succeeded → ∀ pod n v, s.pods name = some pod → pod.controller = some n →
      s.objects n = some v → v.timedOut s.now = false ∧ (v.spec.createKubeVirtVM = true → v.templateError env = none)
  | .deletePod name => ∀ n v, s.objects n = some v → v.status.phase = .running → n ∈ s.succeeded →
      name ≠ Validation.podName n
  | .createVM name => ∀ n v, s.objects n = some v → v.spec.createKubeVirtVM = true →
      v.status.phase ≠ .kubeVirtCreated → name ≠ Validation.vmName n
  | .tick seconds => ∀ n v, s.objects n = some v → v.status.phase = .running → n ∈ s.succeeded →
      v.timedOut (s.now + seconds) = false
  | .createPod _ _ | .deleteVM _ | .delete _ => True

/-- All that a run knows of one Validation. -/
structure Slice where
  object : Option Validation
  pod : Option Pod
  vm : Option Unit
  counted : Prop
  succeeded : Prop
  now : Nat

def slice (s : Validations) (name : String) : Slice :=
  ⟨s.objects name, s.pods (Validation.podName name), s.vms (Validation.vmName name), name ∈ s.counted,
    name ∈ s.succeeded, s.now⟩

/-- What smooth steps keep of a stored Validation. -/
structure Fits (env : ValidationEnv) (name : String) (x : Slice) (v : Validation) : Prop where
  keyed : v.name = name
  recorded : v.status.validationPod = "" ∨ v.status.validationPod = Validation.podName name
  early : v.status.phase.early = true → ¬ x.counted ∧ ∀ pod, x.pod = some pod → pod.controller ≠ some name
  running : v.status.phase = .running → x.counted ∧ v.status.validationPod = Validation.podName name
  told : v.status.phase = .running → v.status.message ≠ disappeared
  held : v.deletionTimestamp = none → v.status.phase.early = false → validationFinalizer ∈ v.finalizers
  own : ∀ pod, x.pod = some pod → pod.controller = some name → pod.phase.terminal = false → v.status.phase = .running
  free : v.spec.createKubeVirtVM = true → v.status.phase ≠ .kubeVirtCreated → x.vm = none ∧ v.status.kubeVirtVM = ""
  asked : v.status.phase = .kubeVirtCreated → v.spec.createKubeVirtVM = true
  won : v.deletionTimestamp = none → x.succeeded →
    (v.spec.createKubeVirtVM = true → v.templateError env = none) ∧
      (v.status.phase = .validated ∨ v.status.phase = .kubeVirtCreated ∨
        v.status.phase = .running ∧ v.timedOut x.now = false ∧ ∃ pod, x.pod = some pod ∧ pod.phase = .succeeded)

structure Inv (env : ValidationEnv) (s : Validations) : Prop where
  gauge : s.gauge = s.active.card
  named : ∀ p pod n, s.pods p = some pod → pod.controller = some n → p = Validation.podName n
  fits : ∀ n v, s.objects n = some v → Fits env n (s.slice n) v

theorem podName_inj {a b : String} : Validation.podName a = Validation.podName b ↔ a = b :=
  String.append_left_inj "-validation"

theorem vmName_inj {a b : String} : Validation.vmName a = Validation.vmName b ↔ a = b :=
  String.append_left_inj "-vm"

/-- A step that is about one Validation. -/
def Elsewhere (name : String) (s s' : Validations) : Prop := ∀ m, m ≠ name → s'.slice m = s.slice m

section Local

variable {env : ValidationEnv} {name : String} {s s' s'' : Validations}

theorem mem_active {m : String} :
    m ∈ s.active ↔ m ∈ s.counted ∧ ∃ v, s.objects m = some v ∧ v.status.phase.finished = false := by
  unfold active
  cases h : s.objects m <;> simp [h]

theorem Elsewhere.mem_active_iff (h : Elsewhere name s s') {m : String} (other : m ≠ name) :
    m ∈ s'.active ↔ m ∈ s.active := by
  have same := h m other
  have object : s'.objects m = s.objects m := congrArg Slice.object same
  have counted : (m ∈ s'.counted) = (m ∈ s.counted) := congrArg Slice.counted same
  rw [mem_active, mem_active, object, counted]

/-- What one Validation adds to the number of active ones. -/
def weight (s : Validations) (name : String) : Int := if name ∈ s.active then 1 else 0

theorem card_active_eq (s : Validations) (name : String) :
    (s.active.card : Int) = (s.active.erase name).card + s.weight name := by
  unfold weight
  split
  · next h =>
    have := Finset.card_erase_add_one h
    omega
  · next h =>
    rw [Finset.erase_eq_of_notMem h]
    omega

theorem Elsewhere.card_active (h : Elsewhere name s s') :
    (s'.active.card : Int) - s.active.card = s'.weight name - s.weight name := by
  have same : s'.active.erase name = s.active.erase name := by
    ext m
    by_cases other : m = name
    · simp [other]
    · simp [other, h.mem_active_iff other]
  have before := card_active_eq s name
  have after := card_active_eq s' name
  rw [same] at after
  omega

theorem Inv.touch (inv : Inv env s) (elsewhere : Elsewhere name s s')
    (named : ∀ pod n, s'.pods (Validation.podName name) = some pod → pod.controller = some n →
      n = name ∨ s.pods (Validation.podName name) = some pod)
    (pods : ∀ p, p ≠ Validation.podName name → s'.pods p = s.pods p)
    (count : s'.gauge - s.gauge = s'.weight name - s.weight name)
    (fits : ∀ v, s'.objects name = some v → Fits env name (s'.slice name) v) : Inv env s' := by
  refine ⟨?_, ?_, ?_⟩
  · have card := elsewhere.card_active
    have before := inv.gauge
    omega
  · intro p pod n found controller
    by_cases here : p = Validation.podName name
    · subst here
      rcases named pod n found controller with rfl | old
      · rfl
      · exact inv.named _ pod n old controller
    · rw [pods p here] at found
      exact inv.named p pod n found controller
  · intro m v stored
    by_cases here : m = name
    · subst here
      exact fits v stored
    · have same := elsewhere m here
      rw [same]
      apply inv.fits m v
      rw [← stored]
      exact (congrArg Slice.object same).symm

end Local

/-- A state with one Validation, its pod and its VM changed, and the gauge moved. -/
def edit (s : Validations) (name : String) (object : Option Validation) (pod : Option Pod) (vm : Option Unit)
    (counted : Bool) (moved : Int) : Validations :=
  { s with
    objects := Function.update s.objects name object
    pods := Function.update s.pods (Validation.podName name) pod
    vms := Function.update s.vms (Validation.vmName name) vm
    counted := if counted then insert name s.counted else s.counted
    gauge := s.gauge + moved }

section Edits

variable {env : ValidationEnv} {name : String} {s : Validations} {object : Option Validation} {pod : Option Pod}
  {vm : Option Unit} {counted : Bool} {moved : Int}

theorem edit_elsewhere : Elsewhere name s (s.edit name object pod vm counted moved) := by
  intro m other
  have podName : Validation.podName m ≠ Validation.podName name := fun h => other (podName_inj.mp h)
  have vmName : Validation.vmName m ≠ Validation.vmName name := fun h => other (vmName_inj.mp h)
  cases counted <;> simp [slice, edit, other, podName, vmName]

theorem edit_slice : (s.edit name object pod vm counted moved).slice name =
    ⟨object, pod, vm, counted = true ∨ name ∈ s.counted, name ∈ s.succeeded, s.now⟩ := by
  cases counted <;> simp [slice, edit]

/-- The invariant after an edit, from what it says of the one Validation. -/
theorem Inv.edit (inv : Inv env s)
    (named : ∀ p n, pod = some p → p.controller = some n → n = name ∨ s.pods (Validation.podName name) = some p)
    (count : moved = (s.edit name object pod vm counted moved).weight name - s.weight name)
    (fits : ∀ v, object = some v →
      Fits env name ⟨object, pod, vm, counted = true ∨ name ∈ s.counted, name ∈ s.succeeded, s.now⟩ v) :
    Inv env (s.edit name object pod vm counted moved) := by
  apply inv.touch edit_elsewhere
  · intro p n found controller
    exact named p n (by simpa [Validations.edit] using found) controller
  · intro p other
    simp [Validations.edit, other]
  · rw [← count]
    show s.gauge + moved - s.gauge = moved
    omega
  · intro v stored
    rw [edit_slice]
    exact fits v (by simpa [Validations.edit] using stored)

/-- A Validation counts as active while it is running. -/
theorem weight_eq {x : Slice} {v : Validation} (counted : (name ∈ s.counted) = x.counted) (stored : s.objects name = some v)
    (fits : Fits env name x v) : s.weight name = if v.status.phase = .running then 1 else 0 := by
  have mem : name ∈ s.active ↔ v.status.phase = .running := by
    rw [mem_active, counted, stored]
    cases phase : v.status.phase with
    | unset => simp [(fits.early (by rw [phase]; rfl)).1]
    | pending => simp [(fits.early (by rw [phase]; rfl)).1]
    | running => simp [phase, (fits.running phase).1, ValidationPhase.finished]
    | validated | failed | kubeVirtCreated => simp [phase, ValidationPhase.finished]
  simp only [weight, mem]

theorem edit_weight_none : (s.edit name none pod vm counted moved).weight name = 0 := by
  simp [weight, mem_active, Validations.edit]

/-- An edit of a stored Validation moves the gauge by whether it runs after and before. -/
theorem Inv.edit_some (inv : Inv env s) {v v' : Validation} (stored : s.objects name = some v)
    (named : ∀ p n, pod = some p → p.controller = some n → n = name ∨ s.pods (Validation.podName name) = some p)
    (count : moved = (if v'.status.phase = .running then 1 else 0) - (if v.status.phase = .running then 1 else 0))
    (fits : Fits env name ⟨some v', pod, vm, counted = true ∨ name ∈ s.counted, name ∈ s.succeeded, s.now⟩ v') :
    Inv env (s.edit name (some v') pod vm counted moved) := by
  refine inv.edit named ?_ ?_
  · have before := weight_eq rfl stored (inv.fits name v stored)
    have after := weight_eq (s := s.edit name (some v') pod vm counted moved) (v := v')
      (congrArg Slice.counted edit_slice) (by simp [Validations.edit]) fits
    rw [before, after]
    exact count
  · intro v₁ same
    cases same
    exact fits

variable {v : Validation} {st : ValidationStatus}

theorem statusUpdate_eq (keyed : v.name = name) (a : Answer) :
    (s.statusUpdate a v st).1 = if a.applied then
      s.edit name (some { v with status := st }) (s.pods (Validation.podName name)) (s.vms (Validation.vmName name)) false 0
    else s := by
  unfold statusUpdate
  split
  · simp [Validations.edit, keyed]
  · rfl

theorem dec_statusUpdate_eq (keyed : v.name = name) {a : Answer} (applied : a.applied = true) :
    (s.dec.statusUpdate a v st).1 =
      s.edit name (some { v with status := st }) (s.pods (Validation.podName name)) (s.vms (Validation.vmName name)) false
        (-1) := by
  simp only [statusUpdate, applied, if_true]
  simp [Validations.edit, keyed, dec, Int.sub_eq_add_neg]

theorem edit_update (a : Answer) (finalizers : List String) :
    ((s.edit v.name object pod vm counted moved).update a { v with finalizers := finalizers }).1 = if a.applied then
      s.edit v.name
        (if v.deletionTimestamp.isSome ∧ finalizers = [] then none else some { v with finalizers := finalizers }) pod vm
        counted moved
    else s.edit v.name object pod vm counted moved := by
  unfold update
  split
  · simp [Validations.edit]
  · rfl

theorem eq_edit (stored : s.objects name = object) :
    s.edit name object (s.pods (Validation.podName name)) (s.vms (Validation.vmName name)) false 0 = s := by
  subst stored
  simp [Validations.edit]

theorem vm_statusUpdate_eq (keyed : v.name = name) {a : Answer} (applied : a.applied = true) :
    (({ s with vms := Function.update s.vms (Validation.vmName v.name) (some ()) } : Validations).statusUpdate a v st).1 =
      s.edit name (some { v with status := st }) (s.pods (Validation.podName name)) (some ()) false 0 := by
  simp only [statusUpdate, applied, if_true]
  simp [Validations.edit, keyed]

theorem edit_deletePod (a : Answer) :
    (s.edit name object pod vm counted moved).deletePod a (Validation.podName name) =
      s.edit name object (if a.applied then none else pod) vm counted moved := by
  simp only [deletePod, Objects.delete]
  split
  · simp [Validations.edit]
  · rfl

theorem Inv.of_started {a : Answer} (applied : a.applied = true) {first : Validation} {started : Validations}
    (edited : Inv env (s.edit v.name (some { v with status := st }) pod (s.vms (Validation.vmName v.name)) true moved))
    (pods : started.pods = Function.update s.pods (Validation.podName v.name) pod)
    (objects : started.objects = Function.update s.objects v.name (some first)) (vms : started.vms = s.vms)
    (now : started.now = s.now) (gauge : started.gauge = s.gauge + moved) (counted : started.counted = insert v.name s.counted)
    (succeeded : started.succeeded = s.succeeded) : Inv env (started.statusUpdate a v st).1 := by
  have same : (started.statusUpdate a v st).1 =
      s.edit v.name (some { v with status := st }) pod (s.vms (Validation.vmName v.name)) true moved := by
    simp only [statusUpdate, applied, if_true, objects, pods, vms, now, gauge, counted, succeeded]
    simp [Validations.edit]
  rw [same]
  exact edited

/-- A write that changes only what is told of a Validation. -/
theorem Inv.note (inv : Inv env s) (stored : s.objects name = some v) (a : Answer) (phase : st.phase = v.status.phase)
    (validationPod : st.validationPod = v.status.validationPod) (kubeVirtVM : st.kubeVirtVM = v.status.kubeVirtVM)
    (startTime : st.startTime = v.status.startTime)
    (told : v.status.phase = .running → st.message ≠ disappeared) : Inv env (s.statusUpdate a v st).1 := by
  have fits := inv.fits name v stored
  rw [statusUpdate_eq fits.keyed]
  split
  · apply inv.edit_some stored
    · intro p n found _
      exact .inr found
    · simp [phase]
    · have same : ∀ now, Validation.timedOut { v with status := st } now = v.timedOut now := by
        intro now
        show st.startTime.any _ = v.status.startTime.any _
        rw [startTime]
        rfl
      refine ⟨fits.keyed, ?_, ?_, ?_, ?_, ?_, ?_, ?_, ?_, ?_⟩
      · simpa only [validationPod] using fits.recorded
      · simpa [phase, slice] using fits.early
      · simpa [phase, validationPod, slice] using fits.running
      · simpa only [phase] using told
      · simpa only [phase] using fits.held
      · dsimp only
        rw [phase]
        exact fits.own
      · dsimp only
        rw [phase, kubeVirtVM]
        exact fits.free
      · simpa only [phase] using fits.asked
      · dsimp only
        rw [phase, same]
        exact fits.won
  · exact inv

/-- A Validation that ends: the gauge falls and what is left of its pod cannot succeed any more. -/
theorem Inv.finish (inv : Inv env s) (stored : s.objects name = some v) (running : v.status.phase = .running)
    (finished : st.phase.finished = true) (unmade : st.phase ≠ .kubeVirtCreated)
    (kubeVirtVM : st.kubeVirtVM = v.status.kubeVirtVM) (validationPod : st.validationPod = v.status.validationPod)
    (left : ∀ p, pod = some p → s.pods (Validation.podName name) = some p ∧ p.phase.terminal = true)
    (won : v.deletionTimestamp = none → name ∈ s.succeeded → st.phase = .validated) :
    Inv env (s.edit name (some { v with status := st }) pod (s.vms (Validation.vmName name)) false (-1)) := by
  have fits := inv.fits name v stored
  have ended : st.phase ≠ .running := by
    intro h
    rw [h] at finished
    cases finished
  have late : st.phase.early = false := by
    cases phase : st.phase <;> simp_all [ValidationPhase.finished, ValidationPhase.early]
  apply inv.edit_some stored
  · intro p n found _
    exact .inr (left p found).1
  · simp [ended, running]
  · refine ⟨fits.keyed, ?_, ?_, ?_, ?_, ?_, ?_, ?_, ?_, ?_⟩
    · simpa only [validationPod] using fits.recorded
    · simp [late]
    · simp [ended]
    · simp [ended]
    · intro live _
      exact fits.held live (by rw [running]; rfl)
    · intro p found _ going
      rw [(left p found).2] at going
      cases going
    · intro asked _
      rw [kubeVirtVM]
      exact fits.free asked (by simp [running])
    · simp [unmade]
    · intro live succeeded
      exact ⟨(fits.won live succeeded).1, .inl (won live succeeded)⟩

end Edits

/-- The pod of a running Validation that has succeeded is still there, in time. -/
theorem won_running {phase : ValidationPhase} {A : Prop}
    (won : phase = .validated ∨ phase = .kubeVirtCreated ∨ phase = .running ∧ A) (running : phase = .running) :
    phase = .running ∧ A := by
  subst running
  simpa using won

section Handlers

variable {env : ValidationEnv} {api : ValidationApi} {name : String} {s : Validations} {v : Validation}
  (inv : Inv env s) (stored : s.objects name = some v)

include inv stored

theorem handleTimeout_inv (running : v.status.phase = .running) (late : v.timedOut s.now = true)
    (written : api.statusUpdate.applied = true) (gone : api.deletePod.applied = true) :
    Inv env (s.handleTimeout api v).1 := by
  have fits := inv.fits name v stored
  unfold handleTimeout
  dsimp only
  rw [dec_statusUpdate_eq fits.keyed written, (fits.running running).2, edit_deletePod, gone]
  apply inv.finish stored running
  · rfl
  · simp
  · rfl
  · exact (fits.running running).2.symm
  · simp
  · intro live succeeded
    obtain ⟨-, early, -⟩ := won_running (fits.won live succeeded).2 running
    rw [show (s.slice name).now = s.now from rfl, late] at early
    cases early

theorem handleValidationSuccess_inv (running : v.status.phase = .running) {pod : Pod}
    (found : s.pods (Validation.podName name) = some pod) (succeeded : pod.phase = .succeeded)
    (written : api.statusUpdate.applied = true) {body : String} (read : api.logs = .text body) :
    Inv env (s.handleValidationSuccess env api v).1 := by
  have fits := inv.fits name v stored
  have left : ∀ p, s.pods (Validation.podName name) = some p →
      s.pods (Validation.podName name) = some p ∧ p.phase.terminal = true := by
    intro p same
    refine ⟨same, ?_⟩
    rw [found, Option.some.injEq] at same
    rw [← same, succeeded]
    rfl
  unfold handleValidationSuccess
  rw [read]
  dsimp only [parseValidationResults]
  split
  · rw [dec_statusUpdate_eq fits.keyed written]
    apply inv.finish stored running
    · rfl
    · simp
    · rfl
    · rfl
    · exact left
    · exact fun _ _ => rfl
  · rw [dec_statusUpdate_eq fits.keyed written, (fits.running running).2, edit_deletePod]
    apply inv.finish stored running
    · rfl
    · simp
    · rfl
    · exact (fits.running running).2.symm
    · intro p same
      split at same
      · cases same
      · exact left p same
    · exact fun _ _ => rfl

theorem handleValidationFailure_inv (running : v.status.phase = .running) {pod : Pod}
    (found : s.pods (Validation.podName name) = some pod) (failed : pod.phase = .failed)
    (written : api.statusUpdate.applied = true) : Inv env (s.handleValidationFailure api v pod).1 := by
  have fits := inv.fits name v stored
  have left : ∀ p, s.pods (Validation.podName name) = some p →
      s.pods (Validation.podName name) = some p ∧ p.phase.terminal = true := by
    intro p same
    refine ⟨same, ?_⟩
    rw [found, Option.some.injEq] at same
    rw [← same, failed]
    rfl
  have lost : v.deletionTimestamp = none → name ∉ s.succeeded := by
    intro live succeeded
    obtain ⟨-, -, p, same, succeeded⟩ := won_running (fits.won live succeeded).2 running
    rw [show (s.slice name).pod = some pod from found, Option.some.injEq] at same
    rw [← same, failed] at succeeded
    cases succeeded
  unfold handleValidationFailure
  dsimp only
  split
  · rw [dec_statusUpdate_eq fits.keyed written]
    apply inv.finish stored running
    · rfl
    · simp
    · rfl
    · rfl
    · exact left
    · exact fun live succeeded => absurd succeeded (lost live)
  · rw [dec_statusUpdate_eq fits.keyed written, (fits.running running).2, edit_deletePod]
    apply inv.finish stored running
    · rfl
    · simp
    · rfl
    · exact (fits.running running).2.symm
    · intro p same
      split at same
      · cases same
      · exact left p same
    · exact fun live succeeded => absurd succeeded (lost live)

theorem handleRunning_inv (running : v.status.phase = .running) (smooth : s.SmoothRunning api v) :
    Inv env (s.handleRunning env api v).1 := by
  have fits := inv.fits name v stored
  have recorded := (fits.running running).2
  unfold SmoothRunning at smooth
  unfold handleRunning
  rw [recorded] at smooth ⊢
  split
  · next h =>
    obtain ⟨asked, missing, -⟩ := Objects.get_eq_notFound.mp h
    have unwritten := smooth asked
    rw [missing] at unwritten
    dsimp only [writeDiscarding, statusUpdate]
    rw [unwritten]
    exact inv
  · exact inv
  · next pod h =>
    obtain ⟨asked, found⟩ := Objects.get_eq_ok.mp h
    have smooth := smooth asked
    rw [found] at smooth
    dsimp only at smooth
    split
    · next late =>
      rw [if_pos late] at smooth
      exact handleTimeout_inv inv stored running late smooth.1 smooth.2
    · next early =>
      rw [if_neg early] at smooth
      cases phase : pod.phase with
      | pending => exact inv.note stored api.statusUpdate rfl rfl rfl rfl fun _ => by simp [disappeared]
      | running => exact inv.note stored api.statusUpdate rfl rfl rfl rfl fun _ => by simp [disappeared]
      | succeeded =>
        rw [phase] at smooth
        obtain ⟨written, body, read⟩ := smooth
        exact handleValidationSuccess_inv inv stored running found phase written read
      | failed =>
        rw [phase] at smooth
        exact handleValidationFailure_inv inv stored running found phase smooth
      | unknown => exact inv

theorem handleValidated_inv (phase : v.status.phase = .validated) (smooth : SmoothValidated api v) :
    Inv env (s.handleValidated env api v).1 := by
  have fits := inv.fits name v stored
  unfold handleValidated
  split
  · exact inv
  · next needed =>
    have asked : v.spec.createKubeVirtVM = true := by simpa using (not_or.mp needed).1
    obtain ⟨free, unmade⟩ := fits.free asked (by simp [phase])
    have free : s.vms (Validation.vmName v.name) = none := by rw [fits.keyed]; exact free
    unfold createKubeVirtVM
    cases template : v.templateError env with
    | some err => exact inv.note stored api.statusUpdate rfl rfl rfl rfl fun running => by simp [phase] at running
    | none =>
      rcases smooth asked with ⟨err, refused⟩ | ⟨made, written⟩
      · have same : (s.vms.create "virtualmachines.kubevirt.io" api.createVM (Validation.vmName v.name) ()).1 = s.vms := by
          simp [Objects.create, free, refused, Answer.applied]
        simp only [same]
        have failed : (s.vms.create "virtualmachines.kubevirt.io" api.createVM (Validation.vmName v.name) ()).2 =
            some (.other err) := by
          simp [Objects.create, free, refused, Answer.error?]
        simp only [failed, Option.map_some]
        exact inv.note stored api.statusUpdate rfl rfl rfl rfl fun running => by simp [phase] at running
      · simp only [Objects.create, free, made, Answer.applied, Answer.error?, if_true, Option.map_none, write]
        rw [vm_statusUpdate_eq fits.keyed written]
        apply inv.edit_some stored
        · intro p n found _
          exact .inr found
        · simp [phase]
        · refine ⟨fits.keyed, fits.recorded, ?_, ?_, ?_, ?_, ?_, ?_, fun _ => asked, ?_⟩
          · intro early
            cases early
          · intro early
            cases early
          · intro running
            cases running
          · exact fun live _ => fits.held live (by rw [phase]; rfl)
          · intro p found controller going
            have running := fits.own p found controller going
            rw [phase] at running
            cases running
          · simp
          · exact fun _ _ => ⟨fun _ => template, .inr (.inl rfl)⟩

/-- The pod a Pending Validation starts with: the one that was there, or one of its own. -/
theorem startPod_inv (early : v.status.phase.early = true) (live : v.deletionTimestamp = none)
    (held : validationFinalizer ∈ v.finalizers) (written : api.secondStatusUpdate.applied = true)
    (answered : ∀ err, api.createPod ≠ .lost err) (st : ValidationStatus) (phase : st.phase = .running)
    (kubeVirtVM : st.kubeVirtVM = v.status.kubeVirtVM) (validationPod : st.validationPod = v.status.validationPod)
    (told : st.message ≠ disappeared) : Inv env (({ s with objects := Function.update s.objects v.name (some { v with status := st }) } :
      Validations).startPod api v st).1 := by
  have fits := inv.fits name v stored
  obtain ⟨uncounted, foreign⟩ := fits.early early
  have unmade : v.status.phase ≠ .kubeVirtCreated := by
    intro h
    rw [h] at early
    cases early
  have idle : v.status.phase ≠ .running := by
    intro h
    rw [h] at early
    cases early
  have unwon : name ∉ s.succeeded := by
    intro succeeded
    rcases (fits.won live succeeded).2 with h | h | h <;> simp_all [ValidationPhase.early]
  obtain rfl := fits.keyed
  have pods := @Objects.ensure_eq_update _ "pods" s.pods api.createPod (Validation.podName v.name)
    { controller := some v.name } api.getExistingPod
  -- What stands under the pod's name afterwards: another's pod as it was, or its own.
  have named : ∀ p n, (s.pods.ensure "pods" api.createPod api.getExistingPod (Validation.podName v.name)
      { controller := some v.name }).1 (Validation.podName v.name) = some p → p.controller = some n →
      n = v.name ∨ s.pods (Validation.podName v.name) = some p := by
    intro p n found controller
    rcases Objects.ensure_lookup found with old | rfl
    · exact .inr old
    · exact .inl (Option.some.inj controller).symm
  have free := fun asked => fits.free asked unmade
  unfold startPod
  dsimp only
  split
  · refine Inv.of_started (s := s) written ?_ pods rfl rfl rfl rfl rfl rfl
    apply inv.edit_some stored named
    · simp [phase, idle]
    · refine ⟨rfl, .inr rfl, ?_, fun _ => ⟨.inl rfl, rfl⟩, fun _ => told, fun _ _ => held, fun _ _ _ _ => phase, ?_, ?_, ?_⟩
      · simp [phase, ValidationPhase.early]
      · intro asked _
        dsimp only
        rw [kubeVirtVM]
        exact free asked
      · simp [phase]
      · exact fun _ succeeded => absurd succeeded unwon
  all_goals
    next failed =>
    have kept : (s.pods.ensure "pods" api.createPod api.getExistingPod (Validation.podName v.name)
        { controller := some v.name }).1 = s.pods := by
      apply Objects.ensure_of_failed _ answered
      intro h
      cases failed.symm.trans h
    refine Inv.of_started (s := s) written ?_ pods rfl rfl rfl (Int.add_sub_cancel s.gauge 1 |>.trans
      (Int.add_zero s.gauge).symm) rfl rfl
    rw [kept] at named ⊢
    apply inv.edit_some stored named
    · simp [idle]
    · refine ⟨rfl, ?_, nofun, nofun, nofun, fun _ _ => held, ?_, ?_, nofun, ?_⟩
      · simpa only [validationPod] using fits.recorded
      · exact fun p found controller => absurd controller (foreign p found)
      · intro asked _
        dsimp only
        rw [kubeVirtVM]
        exact free asked
      · exact fun _ succeeded => absurd succeeded unwon

theorem handlePending_inv (early : v.status.phase.early = true) (live : v.deletionTimestamp = none)
    (held : validationFinalizer ∈ v.finalizers) (smooth : SmoothPending api) :
    Inv env (s.handlePending api v).1 := by
  obtain ⟨unlost, written⟩ := smooth
  unfold handlePending
  dsimp only [statusUpdate]
  cases answer : api.statusUpdate with
  | refused err => exact inv
  | lost err => exact absurd answer (unlost err)
  | ok =>
    obtain ⟨written, answered⟩ := written answer
    exact startPod_inv inv stored early live held written answered _ rfl rfl rfl (by simp [disappeared])

omit inv stored in
theorem Fits.deleted {x : Slice} (fits : Fits env name x v) (deleted : v.deletionTimestamp.isSome = true)
    (finalizers : List String) {object : Option Validation} {pod : Option Pod} {counted : Prop}
    (pods : pod = none ∨ pod = x.pod) (same : counted = x.counted) :
    Fits env name ⟨object, pod, x.vm, counted, x.succeeded, x.now⟩ { v with finalizers := finalizers } := by
  have old : ∀ p, pod = some p → x.pod = some p := by
    intro p found
    rcases pods with h | h
    · rw [h] at found
      cases found
    · rw [← h, found]
  subst same
  have dying : ∀ {P : Prop}, v.deletionTimestamp = none → P := by
    intro P live
    rw [live] at deleted
    cases deleted
  refine ⟨fits.keyed, fits.recorded, ?_, fits.running, fits.told, dying, ?_, fits.free, fits.asked, dying⟩
  · intro early
    exact ⟨(fits.early early).1, fun p found => (fits.early early).2 p (old p found)⟩
  · exact fun p found => fits.own p (old p found)

theorem handleDeletion_inv (deleted : v.deletionTimestamp.isSome = true)
    (smooth : validationFinalizer ∈ v.finalizers → SmoothDeletion api v) : Inv env (s.handleDeletion api v).1 := by
  have fits := inv.fits name v stored
  obtain rfl := fits.keyed
  unfold handleDeletion
  split
  · exact inv
  · next held =>
    have smooth := smooth (not_not.mp held)
    have cleaned : ∃ pod, (pod = none ∨ pod = s.pods (Validation.podName v.name)) ∧
        (if v.status.validationPod ≠ "" ∧ api.getPod = .ok ∧ (s.pods v.status.validationPod).isSome
          then s.deletePod api.deletePod v.status.validationPod else s) =
        s.edit v.name (some v) pod (s.vms (Validation.vmName v.name)) false 0 := by
      have unchanged := eq_edit stored
      split
      · next found =>
        refine ⟨if api.deletePod.applied then none else s.pods (Validation.podName v.name), ?_, ?_⟩
        · split <;> simp
        · rw [fits.recorded.resolve_left found.1, ← edit_deletePod, unchanged]
      · exact ⟨_, .inr rfl, unchanged.symm⟩
    obtain ⟨pod, pods, cleaned⟩ := cleaned
    dsimp only
    rw [cleaned]
    have named : ∀ p n, pod = some p → p.controller = some n → n = v.name ∨ s.pods (Validation.podName v.name) = some p := by
      intro p n found _
      rcases pods with h | h
      · rw [h] at found
        cases found
      · exact .inr (h.symm.trans found)
    have kept (finalizers : List String) : Inv env (s.edit v.name (some { v with finalizers := finalizers }) pod
        (s.vms (Validation.vmName v.name)) false 0) := by
      apply inv.edit_some stored named
      · simp
      · exact fits.deleted deleted finalizers pods (by simp [slice])
    rw [edit_update]
    split
    · next applied =>
      split
      · next last =>
        apply inv.edit named
        · have weight := weight_eq rfl stored fits
          rw [if_neg (smooth last.2 applied)] at weight
          rw [edit_weight_none, weight, Int.sub_zero]
        · intro v' h
          cases h
      · exact kept _
    · exact kept v.finalizers

theorem handlePhase_inv (live : v.deletionTimestamp = none) (held : validationFinalizer ∈ v.finalizers)
    (smooth : s.SmoothPhase api v) : Inv env (s.handlePhase env api v).1 := by
  unfold handlePhase
  unfold SmoothPhase at smooth
  cases phase : v.status.phase with
  | unset =>
    rw [phase] at smooth
    exact handlePending_inv inv stored (by rw [phase]; rfl) live held smooth
  | pending =>
    rw [phase] at smooth
    exact handlePending_inv inv stored (by rw [phase]; rfl) live held smooth
  | running =>
    rw [phase] at smooth
    exact handleRunning_inv inv stored phase smooth
  | validated =>
    rw [phase] at smooth
    exact handleValidated_inv inv stored phase smooth
  | failed => exact inv
  | kubeVirtCreated => exact inv

theorem hold_inv (live : v.deletionTimestamp = none) (a : Answer) :
    Inv env (s.update a { v with finalizers := v.finalizers ++ [validationFinalizer] }).1 := by
  have fits := inv.fits name v stored
  obtain rfl := fits.keyed
  rw [← eq_edit stored, edit_update]
  split
  · rw [if_neg (by simp [live])]
    apply inv.edit_some stored
    · intro p n found _
      exact .inr found
    · simp
    · refine ⟨rfl, fits.recorded, ?_, ?_, fits.told, ?_, fits.own, fits.free, fits.asked, fits.won⟩
      · simpa [slice] using fits.early
      · simpa [slice] using fits.running
      · simp
  · rw [eq_edit stored]
    exact inv

theorem reconcile_inv_stored (smooth : s.Smooth env (.reconcile name api)) : Inv env (s.reconcile env name api).1 := by
  unfold reconcile
  rw [stored]
  cases got : api.getValidation.error? with
  | some err => exact inv
  | none =>
    have smooth := smooth v stored (Answer.error?_eq_none.mp got)
    dsimp only
    split
    · next deleted =>
      rw [if_pos deleted] at smooth
      exact handleDeletion_inv inv stored deleted smooth
    · next live =>
      rw [if_neg live] at smooth
      have live : v.deletionTimestamp = none := by simpa using live
      split
      · exact hold_inv inv stored live api.update
      · next held => exact handlePhase_inv inv stored live (not_not.mp held) (smooth (not_not.mp held))

end Handlers

section Events

variable {env : ValidationEnv} {name : String} {s : Validations}

theorem reconcile_inv (inv : Inv env s) {api : ValidationApi} (smooth : s.Smooth env (.reconcile name api)) :
    Inv env (s.reconcile env name api).1 := by
  cases stored : s.objects name with
  | some v => exact reconcile_inv_stored inv stored smooth
  | none =>
    have unchanged : (s.reconcile env name api).1 = s := by
      cases got : api.getValidation.error? <;> simp [reconcile, got, stored]
    rw [unchanged]
    exact inv

/-- A step that leaves the Validations and the gauge keeps the invariant if it keeps what it says of pods, VMs
and the clock. -/
theorem Inv.around {s' : Validations} (inv : Inv env s) (objects : s'.objects = s.objects) (counted : s'.counted = s.counted)
    (gauge : s'.gauge = s.gauge)
    (named : ∀ p pod n, s'.pods p = some pod → pod.controller = some n → p = Validation.podName n)
    (fits : ∀ n v, s.objects n = some v → Fits env n (s.slice n) v → Fits env n (s'.slice n) v) : Inv env s' := by
  refine ⟨?_, named, ?_⟩
  · have same : s'.active = s.active := by
      unfold active
      rw [objects, counted]
    rw [gauge, same]
    exact inv.gauge
  · intro n v stored
    rw [objects] at stored
    exact fits n v stored (inv.fits n v stored)

/-- A pod that goes on changes its phase. -/
theorem Fits.podPhase {n : String} {x : Slice} {v : Validation} {pod : Pod} (fits : Fits env n x v)
    (found : x.pod = some pod) (going : pod.phase.terminal = false) (phase : PodPhase) (reason : Option String)
    {succeeded : Prop} (new : succeeded → x.succeeded ∨ phase = .succeeded ∧ pod.controller = some n)
    (smooth : phase = .succeeded → pod.controller = some n →
      v.timedOut x.now = false ∧ (v.spec.createKubeVirtVM = true → v.templateError env = none)) :
    Fits env n ⟨x.object, some { pod with phase := phase, terminatedReason := reason }, x.vm, x.counted, succeeded, x.now⟩
      v := by
  refine ⟨fits.keyed, fits.recorded, ?_, fits.running, fits.told, fits.held, ?_, fits.free, fits.asked, ?_⟩
  · intro early
    refine ⟨(fits.early early).1, ?_⟩
    intro p same
    rw [← Option.some.inj same]
    exact (fits.early early).2 pod found
  · intro p same controller _
    rw [← Option.some.inj same] at controller
    exact fits.own pod found controller going
  · intro live won
    rcases new won with old | ⟨rfl, mine⟩
    · obtain ⟨template, won⟩ := fits.won live old
      refine ⟨template, ?_⟩
      rcases won with validated | kept | ⟨-, -, p, there, ended⟩
      · exact .inl validated
      · exact .inr (.inl kept)
      · rw [found, Option.some.injEq] at there
        rw [← there] at ended
        rw [ended] at going
        cases going
    · obtain ⟨early, template⟩ := smooth rfl mine
      exact ⟨template, .inr (.inr ⟨fits.own pod found mine going, early, _, rfl, rfl⟩)⟩

theorem podPhase_inv (inv : Inv env s) {phase : PodPhase} {reason : Option String}
    (smooth : s.Smooth env (.podPhase name phase reason)) : Inv env (s.podPhase name phase reason) := by
  unfold podPhase
  cases found : s.pods name with
  | none => exact inv
  | some pod =>
    dsimp only
    split
    · exact inv
    · next going =>
      have going : pod.phase.terminal = false := by simpa using going
      have new : ∀ n, n ∈ (if phase = .succeeded then pod.controller.elim s.succeeded (insert · s.succeeded)
          else s.succeeded) → n ∈ s.succeeded ∨ phase = .succeeded ∧ pod.controller = some n := by
        intro n h
        split at h
        · next succeeded =>
          cases controller : pod.controller with
          | none =>
            rw [controller] at h
            exact .inl h
          | some m =>
            rw [controller] at h
            rcases Finset.mem_insert.mp h with rfl | old
            · exact .inr ⟨succeeded, rfl⟩
            · exact .inl old
        · exact .inl h
      refine inv.around rfl rfl rfl ?_ ?_
      · intro p q n there controller
        dsimp only at there
        by_cases here : p = name
        · subst here
          rw [Function.update_self, Option.some.injEq] at there
          rw [← there] at controller
          exact inv.named p pod n found controller
        · rw [Function.update_of_ne here] at there
          exact inv.named p q n there controller
      · intro n v stored fits
        by_cases here : Validation.podName n = name
        · subst here
          have changed := fits.podPhase found going phase reason (new n) fun succeeded mine =>
            smooth succeeded pod n v found mine stored
          simpa only [slice, Function.update_self] using changed
        · refine ⟨fits.keyed, fits.recorded, ?_, fits.running, fits.told, fits.held, ?_, fits.free, fits.asked, ?_⟩
          · simpa only [slice, Function.update_of_ne here] using fits.early
          · simpa only [slice, Function.update_of_ne here] using fits.own
          · intro live succeeded
            have old : n ∈ s.succeeded := by
              rcases new n succeeded with old | ⟨-, mine⟩
              · exact old
              · exact absurd (inv.named name pod n found mine).symm here
            simpa only [slice, Function.update_of_ne here] using fits.won live old

theorem tick_inv (inv : Inv env s) {seconds : Nat} (smooth : s.Smooth env (.tick seconds)) :
    Inv env { s with now := s.now + seconds } := by
  refine inv.around rfl rfl rfl inv.named ?_
  intro n v stored fits
  refine ⟨fits.keyed, fits.recorded, fits.early, fits.running, fits.told, fits.held, fits.own, fits.free, fits.asked, ?_⟩
  intro live succeeded
  obtain ⟨template, won⟩ := fits.won live succeeded
  refine ⟨template, ?_⟩
  rcases won with validated | made | ⟨running, -, pod⟩
  · exact .inl validated
  · exact .inr (.inl made)
  · exact .inr (.inr ⟨running, smooth n v stored running succeeded, pod⟩)

theorem createVM_inv (inv : Inv env s) (smooth : s.Smooth env (.createVM name)) :
    Inv env { s with vms := (s.vms.create "virtualmachines.kubevirt.io" .ok name ()).1 } := by
  refine inv.around rfl rfl rfl inv.named ?_
  intro n v stored fits
  refine ⟨fits.keyed, fits.recorded, fits.early, fits.running, fits.told, fits.held, fits.own, ?_, fits.asked, fits.won⟩
  intro asked unmade
  obtain ⟨free, none⟩ := fits.free asked unmade
  exact ⟨(Objects.create_other (smooth n v stored asked unmade).symm).trans free, none⟩

theorem deleteVM_inv (inv : Inv env s) :
    Inv env { s with vms := (s.vms.delete "virtualmachines.kubevirt.io" .ok name).1 } := by
  refine inv.around rfl rfl rfl inv.named ?_
  intro n v stored fits
  refine ⟨fits.keyed, fits.recorded, fits.early, fits.running, fits.told, fits.held, fits.own, ?_, fits.asked, fits.won⟩
  intro asked unmade
  obtain ⟨free, none⟩ := fits.free asked unmade
  refine ⟨?_, none⟩
  by_cases here : Validation.vmName n = name
  · simp [slice, here, Objects.delete_self, Answer.applied]
  · rw [← free]
    simp only [slice, Objects.delete_other here]

theorem createPod_inv (inv : Inv env s) (phase : PodPhase) :
    Inv env { s with pods := (s.pods.create "pods" .ok name { phase := phase }).1 } := by
  cases found : s.pods name with
  | some pod =>
    have same : (s.pods.create "pods" .ok name { phase := phase }).1 = s.pods := by
      simp [Objects.create, found]
    rw [same]
    exact inv
  | none =>
    have made : (s.pods.create "pods" .ok name { phase := phase }).1 =
        Function.update s.pods name (some { phase := phase }) := by
      simp [Objects.create, found, Answer.applied]
    rw [made]
    refine inv.around rfl rfl rfl ?_ ?_
    · intro p q n there controller
      dsimp only at there
      by_cases here : p = name
      · subst here
        rw [Function.update_self, Option.some.injEq] at there
        rw [← there] at controller
        cases controller
      · rw [Function.update_of_ne here] at there
        exact inv.named p q n there controller
    · intro n v stored fits
      by_cases here : Validation.podName n = name
      · subst here
        refine ⟨fits.keyed, fits.recorded, ?_, fits.running, fits.told, fits.held, ?_, fits.free, fits.asked, ?_⟩
        · intro early
          refine ⟨(fits.early early).1, ?_⟩
          simp [slice]
        · simp [slice]
        · intro live succeeded
          obtain ⟨template, won⟩ := fits.won live succeeded
          refine ⟨template, ?_⟩
          rcases won with validated | kept | ⟨-, -, pod, there, -⟩
          · exact .inl validated
          · exact .inr (.inl kept)
          · rw [show (s.slice n).pod = none from found] at there
            cases there
      · have pods : Function.update s.pods name (some { phase := phase }) (Validation.podName n) =
            s.pods (Validation.podName n) := Function.update_of_ne here _ _
        have same : ({ s with pods := Function.update s.pods name (some { phase := phase }) } : Validations).slice n =
            s.slice n := by
          simp only [slice, pods]
        rw [same]
        exact fits

theorem deletePod_inv (inv : Inv env s) (smooth : s.Smooth env (.deletePod name)) : Inv env (s.deletePod .ok name) := by
  refine inv.around rfl rfl rfl ?_ ?_
  · intro p q n there controller
    by_cases here : p = name
    · subst here
      dsimp only [deletePod] at there
      rw [Objects.delete_self] at there
      cases there
    · dsimp only [deletePod] at there
      rw [Objects.delete_other here] at there
      exact inv.named p q n there controller
  · intro n v stored fits
    by_cases here : Validation.podName n = name
    · have gone : ((s.deletePod .ok name).slice n).pod = none := by
        simp [slice, deletePod, here, Objects.delete_self, Answer.applied]
      refine ⟨fits.keyed, fits.recorded, ?_, fits.running, fits.told, fits.held, ?_, fits.free, fits.asked, ?_⟩
      · exact fun early => ⟨(fits.early early).1, by simp [gone]⟩
      · simp [gone]
      · intro live succeeded
        obtain ⟨template, won⟩ := fits.won live succeeded
        refine ⟨template, ?_⟩
        rcases won with validated | kept | ⟨running, -, -⟩
        · exact .inl validated
        · exact .inr (.inl kept)
        · exact absurd here.symm (smooth n v stored running succeeded)
    · have same : (s.deletePod .ok name).slice n = s.slice n := by
        simp only [slice, deletePod, Objects.delete_other here]
      rw [same]
      exact fits

theorem delete_inv (inv : Inv env s) : Inv env (s.delete name) := by
  unfold delete
  cases stored : s.objects name with
  | none => exact inv
  | some v =>
    have fits := inv.fits name v stored
    obtain rfl := fits.keyed
    have edited (object : Option Validation) : ({ s with objects := Function.update s.objects v.name object } :
        Validations) = s.edit v.name object (s.pods (Validation.podName v.name)) (s.vms (Validation.vmName v.name)) false
        0 := by
      simp [edit]
    dsimp only
    rw [edited]
    have named : ∀ p n, s.pods (Validation.podName v.name) = some p → p.controller = some n →
        n = v.name ∨ s.pods (Validation.podName v.name) = some p := fun p n found _ => .inr found
    split
    · rw [eq_edit stored]
      exact inv
    · next live =>
      have live : v.deletionTimestamp = none := by simpa using live
      split
      · next unheld =>
        -- Only a Validation that was never started has no finalizer.
        have early : v.status.phase.early = true := by
          by_contra late
          have held := fits.held live (by simpa using late)
          rw [unheld] at held
          cases held
        apply inv.edit named
        · have weight := weight_eq rfl stored fits
          rw [if_neg (by intro h; rw [h] at early; cases early)] at weight
          rw [edit_weight_none, weight, Int.sub_zero]
        · intro v' h
          cases h
      · apply inv.edit_some stored named
        · simp
        · refine ⟨rfl, fits.recorded, ?_, ?_, fits.told, nofun, fits.own, fits.free, fits.asked, nofun⟩
          · simpa [slice] using fits.early
          · simpa [slice] using fits.running

theorem step_inv (inv : Inv env s) (e : ValidationEvent) (smooth : s.Smooth env e) : Inv env (s.step env e) := by
  cases e with
  | reconcile name api => exact reconcile_inv inv smooth
  | podPhase name phase reason => exact podPhase_inv inv smooth
  | createPod name phase => exact createPod_inv inv phase
  | deletePod name => exact deletePod_inv inv smooth
  | createVM name => exact createVM_inv inv smooth
  | deleteVM name => exact deleteVM_inv inv
  | delete name => exact delete_inv inv
  | tick seconds => exact tick_inv inv smooth

theorem created_inv (inNamespace : String) (specs : String → Option (ValidationSpec × List String)) (now : Nat) :
    Inv env (created inNamespace specs now) := by
  refine ⟨rfl, nofun, ?_⟩
  intro n v stored
  obtain ⟨given, -, rfl⟩ := Option.map_eq_some_iff.mp stored
  exact ⟨rfl, .inl rfl, fun _ => ⟨nofun, nofun⟩, nofun, nofun, nofun, nofun, fun _ _ => ⟨rfl, rfl⟩, nofun, nofun⟩

end Events

end Validations

end H2kvm.Operator
