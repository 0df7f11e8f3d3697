import H2kvm.Operator.ValidationInvariant

namespace H2kvm.Operator

open Framework

namespace Validations

section Faultless

variable {env : ValidationEnv} {name : String} {s : Validations} {v : Validation} {api : ValidationApi}

theorem reconcile_live (stored : s.objects name = some v) (live : v.deletionTimestamp = none)
    (held : validationFinalizer ∈ v.finalizers) (got : api.getValidation = .ok) :
    s.reconcile env name api = s.handlePhase env api v := by
  simp [reconcile, got, Answer.error?, stored, live, held]

theorem rests_at_goal (stored : s.objects name = some v) (live : v.deletionTimestamp = none)
    (held : validationFinalizer ∈ v.finalizers) (faultless : api.Faultless)
    (goal : v.status.phase = .kubeVirtCreated ∨ v.status.phase = .validated ∧ v.spec.createKubeVirtVM = false) :
    (s.reconcile env name api).1 = s := by
  obtain ⟨body, rfl⟩ := faultless
  rw [reconcile_live stored live held rfl]
  rcases goal with made | ⟨validated, unasked⟩
  · simp [handlePhase, made]
  · simp [handlePhase, validated, handleValidated, unasked]

theorem validates (stored : s.objects name = some v) (fits : Fits env name (s.slice name) v)
    (live : v.deletionTimestamp = none) (held : validationFinalizer ∈ v.finalizers) (running : v.status.phase = .running)
    (early : v.timedOut s.now = false) {pod : Pod} (found : s.pods (Validation.podName name) = some pod)
    (succeeded : pod.phase = .succeeded) (faultless : api.Faultless) :
    ∃ st : ValidationStatus, (s.reconcile env name api).1.objects name = some { v with status := st } ∧
      (s.reconcile env name api).1.vms = s.vms ∧ st.phase = .validated ∧ st.kubeVirtVM = v.status.kubeVirtVM := by
  obtain ⟨body, rfl⟩ := faultless
  obtain rfl := fits.keyed
  rw [reconcile_live stored live held rfl]
  have recorded := (fits.running running).2
  have asked : s.pods.get "pods" .ok (Validation.podName v.name) = .ok pod := Objects.get_eq_ok.mpr ⟨rfl, found⟩
  simp only [handlePhase, running, handleRunning, recorded, asked, early, succeeded]
  rw [if_neg (by simp)]
  simp only [handleValidationSuccess, parseValidationResults, statusUpdate, dec, Answer.applied, Answer.error?, deletePod,
    if_true]
  exact ⟨_, Function.update_self _ _ _, trivial, rfl, rfl⟩

theorem makes_vm (stored : s.objects name = some v) (keyed : v.name = name) (live : v.deletionTimestamp = none)
    (held : validationFinalizer ∈ v.finalizers) (validated : v.status.phase = .validated)
    (asked : v.spec.createKubeVirtVM = true) (unmade : v.status.kubeVirtVM = "")
    (free : s.vms (Validation.vmName name) = none) (template : v.templateError env = none) (faultless : api.Faultless) :
    ∃ st : ValidationStatus, (s.reconcile env name api).1.objects name = some { v with status := st } ∧
      st.phase = .kubeVirtCreated := by
  obtain ⟨body, rfl⟩ := faultless
  obtain rfl := keyed
  rw [reconcile_live stored live held rfl]
  simp only [handlePhase, validated, handleValidated, asked, unmade, createKubeVirtVM, template, Objects.create, free,
    Answer.error?, Answer.applied, write, statusUpdate]
  simp

/-- Two Reconcile calls without failures are enough. -/
theorem Inv.recovers (inv : Inv env s) : s.Recovers env := by
  intro name v stored live succeeded
  have fits := inv.fits name v stored
  obtain ⟨template, won⟩ := fits.won live succeeded
  refine ⟨2, fun apis length faultless => ?_⟩
  obtain ⟨first, second, rfl⟩ := List.length_eq_two.mp length
  have first_faultless := faultless first (by simp)
  have second_faultless := faultless second (by simp)
  have held (late : v.status.phase.early = false) := fits.held live late
  show ∃ v', ((s.reconcile env name first).1.reconcile env name second).1.objects name = some v' ∧ _
  cases asked : v.spec.createKubeVirtVM with
  | false =>
    have goal : v.spec.goal = .validated := by simp [ValidationSpec.goal, asked]
    rw [goal]
    rcases won with validated | made | ⟨running, early, pod, found, ended⟩
    · have held := held (by rw [validated]; rfl)
      rw [rests_at_goal stored live held first_faultless (.inr ⟨validated, asked⟩),
        rests_at_goal stored live held second_faultless (.inr ⟨validated, asked⟩)]
      exact ⟨v, stored, validated⟩
    · have contradiction := fits.asked made
      rw [asked] at contradiction
      cases contradiction
    · have held := held (by rw [running]; rfl)
      obtain ⟨st, stored', -, validated, -⟩ := validates stored fits live held running early found ended first_faultless
      rw [rests_at_goal stored' live held second_faultless (.inr ⟨validated, asked⟩)]
      exact ⟨_, stored', validated⟩
  | true =>
    have goal : v.spec.goal = .kubeVirtCreated := by simp [ValidationSpec.goal, asked]
    rw [goal]
    rcases won with validated | made | ⟨running, early, pod, found, ended⟩
    · have held := held (by rw [validated]; rfl)
      obtain ⟨free, unmade⟩ := fits.free asked (by simp [validated])
      obtain ⟨st, stored', made⟩ := makes_vm stored fits.keyed live held validated asked unmade free (template asked)
        first_faultless
      rw [rests_at_goal stored' live held second_faultless (.inl made)]
      exact ⟨_, stored', made⟩
    · have held := held (by rw [made]; rfl)
      rw [rests_at_goal stored live held first_faultless (.inl made),
        rests_at_goal stored live held second_faultless (.inl made)]
      exact ⟨v, stored, made⟩
    · have held := held (by rw [running]; rfl)
      obtain ⟨free, unmade⟩ := fits.free asked (by simp [running])
      obtain ⟨st, stored', vms, validated, kept⟩ := validates stored fits live held running early found ended
        first_faultless
      obtain ⟨st', stored'', made⟩ := makes_vm stored' fits.keyed live held validated asked (kept.trans unmade)
        (by rw [vms]; exact free) (template asked) second_faultless
      exact ⟨_, stored'', made⟩

theorem retries_vm (stored : s.objects name = some v) (keyed : v.name = name) (live : v.deletionTimestamp = none)
    (held : validationFinalizer ∈ v.finalizers) (validated : v.status.phase = .validated)
    (asked : v.spec.createKubeVirtVM = true) (unmade : v.status.kubeVirtVM = "") {vm : Unit}
    (taken : s.vms (Validation.vmName name) = some vm) (faultless : api.Faultless) :
    ∃ message, (s.reconcile env name api).1.objects name = some { v with status := { v.status with message := message } } ∧
      (s.reconcile env name api).1.vms = s.vms := by
  obtain ⟨body, rfl⟩ := faultless
  obtain rfl := keyed
  rw [reconcile_live stored live held rfl]
  cases template : v.templateError env with
  | some err =>
    simp [handlePhase, validated, handleValidated, asked, unmade, createKubeVirtVM, template, Answer.applied,
      writeDiscarding, statusUpdate]
  | none =>
    simp [handlePhase, validated, handleValidated, asked, unmade, createKubeVirtVM, template, Objects.create, taken,
      Answer.error?, Answer.applied, writeDiscarding, statusUpdate]

theorem never_makes_vm (stored : s.objects name = some v) (keyed : v.name = name) (live : v.deletionTimestamp = none)
    (held : validationFinalizer ∈ v.finalizers) (validated : v.status.phase = .validated)
    (asked : v.spec.createKubeVirtVM = true) (unmade : v.status.kubeVirtVM = "") {vm : Unit}
    (taken : s.vms (Validation.vmName name) = some vm) {apis : List ValidationApi} (faultless : ∀ api ∈ apis, api.Faultless)
    {v' : Validation} (after : (run (fun s api => (s.reconcile env name api).1) s apis).objects name = some v') :
    v'.status.phase = .validated := by
  induction apis generalizing s v with
  | nil =>
    rw [run_nil, stored, Option.some.injEq] at after
    rw [← after]
    exact validated
  | cons api apis ih =>
    obtain ⟨message, stored', vms⟩ := retries_vm stored keyed live held validated asked unmade taken
      (faultless api (by simp))
    apply ih stored' keyed live held validated asked unmade (by rw [vms]; exact taken)
    · exact fun other member => faultless other (by simp [member])
    · exact after

end Faultless

section Disappearance

variable {env : ValidationEnv} {name : String} {s : Validations} {v v' : Validation} {api : ValidationApi}

/-- A text that differs from the message at its twelfth letter. -/
theorem ne_disappeared {text : String} (h : (text.toList.take 12) ≠ disappeared.toList.take 12) : text ≠ disappeared :=
  fun same => h (by rw [same])

theorem object_statusUpdate {a : Answer} {st : ValidationStatus}
    (after : (s.statusUpdate a v st).1.objects v.name = some v') : v'.status = st ∨ s.objects v.name = some v' := by
  unfold statusUpdate at after
  dsimp only at after
  split at after
  · dsimp only at after
    rw [Function.update_self, Option.some.injEq] at after
    rw [← after]
    exact .inl rfl
  · exact .inr after

theorem object_handleValidationSuccess {body : String} (read : api.logs = .text body)
    (after : (s.handleValidationSuccess env api v).1.objects v.name = some v') :
    v'.status.phase = .validated ∨ s.objects v.name = some v' := by
  unfold handleValidationSuccess at after
  rw [read] at after
  dsimp only [parseValidationResults] at after
  split at after
  all_goals
    rcases object_statusUpdate after with status | same
    · rw [status]
      exact .inl rfl
    · exact .inr same

theorem object_handleValidationFailure {pod : Pod} (told : v.status.message ≠ disappeared)
    (after : (s.handleValidationFailure api v pod).1.objects v.name = some v') :
    v'.status.message ≠ disappeared ∨ s.objects v.name = some v' := by
  have orDefault {text : String} (told : text ≠ disappeared) :
      (if text = "" then "Validation failed" else text) ≠ disappeared := by
    split
    · simp [disappeared]
    · exact told
  unfold handleValidationFailure at after
  dsimp only at after
  split at after
  all_goals
    rcases object_statusUpdate after with status | same
    · rw [status]
      refine .inl (orDefault ?_)
      cases pod.terminatedReason with
      | none => exact told
      | some reason =>
        apply ne_disappeared
        simp [disappeared]
    · exact .inr same

/-- What a running Validation that a smooth Reconcile fails is told is never that its pod disappeared. -/
theorem failed_otherwise (inv : Inv env s) (stored : s.objects name = some v) (running : v.status.phase = .running)
    (smooth : s.SmoothRunning api v) (after : (s.handleRunning env api v).1.objects name = some v')
    (failed : v'.status.phase = .failed) : v'.status.message ≠ disappeared := by
  have fits := inv.fits name v stored
  obtain rfl := fits.keyed
  have unchanged : s.objects v.name = some v' → v'.status.message ≠ disappeared := by
    intro same
    rw [stored, Option.some.injEq] at same
    rw [← same, running] at failed
    cases failed
  unfold SmoothRunning at smooth
  unfold handleRunning at after
  split at after
  · next h =>
    obtain ⟨asked, missing, -⟩ := Objects.get_eq_notFound.mp h
    have unwritten := smooth asked
    rw [missing] at unwritten
    dsimp only [writeDiscarding, statusUpdate] at after
    rw [unwritten] at after
    exact unchanged after
  · exact unchanged after
  · next pod h =>
    obtain ⟨asked, found⟩ := Objects.get_eq_ok.mp h
    have smooth := smooth asked
    rw [found] at smooth
    dsimp only at smooth
    split at after
    · rcases object_statusUpdate after with status | same
      · rw [status]
        apply ne_disappeared
        simp [disappeared]
      · exact unchanged same
    · next early =>
      rw [if_neg early] at smooth
      cases phase : pod.phase with
      | pending =>
        rw [phase] at after
        rcases object_statusUpdate after with status | same
        · rw [status, running] at failed
          cases failed
        · exact unchanged same
      | running =>
        rw [phase] at after
        rcases object_statusUpdate after with status | same
        · rw [status, running] at failed
          cases failed
        · exact unchanged same
      | unknown =>
        rw [phase] at after
        exact unchanged after
      | succeeded =>
        rw [phase] at after smooth
        obtain ⟨-, body, read⟩ := smooth
        rcases object_handleValidationSuccess read after with validated | same
        · rw [validated] at failed
          cases failed
        · exact unchanged same
      | failed =>
        rw [phase] at after
        rcases object_handleValidationFailure (fits.told running) after with other | same
        · exact other
        · exact unchanged same

theorem object_update {a : Answer} {w : Validation} (after : (s.update a w).1.objects w.name = some v') :
    v' = w ∨ s.objects w.name = some v' := by
  unfold update at after
  dsimp only at after
  split at after
  · dsimp only at after
    rw [Function.update_self] at after
    split at after
    · cases after
    · exact .inl (Option.some.inj after).symm
  · exact .inr after

/-- A Reconcile that does not come to the phases leaves the status. -/
theorem status_kept (inv : Inv env s) (stored : s.objects name = some v)
    (after : (s.reconcile env name api).1.objects name = some v') :
    v'.status = v.status ∨ (api.getValidation = .ok ∧ validationFinalizer ∈ v.finalizers ∧ v.deletionTimestamp = none) := by
  obtain rfl := (inv.fits name v stored).keyed
  have same : s.objects v.name = some v' → v'.status = v.status := by
    intro h
    rw [stored, Option.some.injEq] at h
    rw [h]
  unfold reconcile at after
  rw [stored] at after
  cases got : api.getValidation.error? with
  | some err =>
    rw [got] at after
    exact .inl (same after)
  | none =>
    rw [got] at after
    dsimp only at after
    split at after
    · refine .inl ?_
      unfold handleDeletion at after
      split at after
      · exact same after
      · dsimp only at after
        rcases object_update after with rfl | unchanged
        · rfl
        · apply same
          split at unchanged <;> exact unchanged
    · next live =>
      split at after
      · refine .inl ?_
        rcases object_update after with rfl | unchanged
        · rfl
        · exact same unchanged
      · next held =>
        exact .inr ⟨Answer.error?_eq_none.mp got, not_not.mp held, by simpa using live⟩

theorem step_keepsPod (inv : Inv env s) (e : ValidationEvent) (smooth : s.Smooth env e) : s.KeepsPod env e := by
  cases e with
  | reconcile name api =>
    intro v v' stored running after failed told
    rcases status_kept inv stored after with same | ⟨got, held, live⟩
    · rw [same, running] at failed
      cases failed
    · have smooth := smooth v stored got held
      rw [live] at smooth
      have smooth : s.SmoothRunning api v := by simpa [SmoothPhase, running] using smooth
      rw [reconcile_live stored live held got] at after
      simp only [handlePhase, running] at after
      exact absurd told (failed_otherwise inv stored running smooth after failed)
  | _ => trivial

end Disappearance

/-- What is promised of a state: the gauge tells the number of active Validations, and a Validation whose pod
has succeeded still comes to its goal. -/
structure Sound (env : ValidationEnv) (s : Validations) : Prop where
  gauge : s.gauge = s.active.card
  recovers : s.Recovers env

/-- In a run of smooth steps every state is sound, and no Validation is failed for the lack of a pod that
exists. -/
theorem sound_of_smooth (env : ValidationEnv) (inNamespace : String)
    (specs : String → Option (ValidationSpec × List String)) (now : Nat) (es : List ValidationEvent)
    (smooth : EachStep (step env) (Smooth env) (created inNamespace specs now) es) :
    (∀ pre, pre <+: es → Sound env (run (step env) (created inNamespace specs now) pre)) ∧
      EachStep (step env) (KeepsPod env) (created inNamespace specs now) es := by
  constructor
  · intro pre initial
    obtain ⟨rest, rfl⟩ := initial
    have inv := invariant_of_eachStep (I := Inv env) (fun s e inv smooth => step_inv inv e smooth)
      (created_inv inNamespace specs now) (eachStep_append.mp smooth).1
    exact ⟨inv.gauge, inv.recovers⟩
  · exact eachStep_of_invariant (I := Inv env) (fun s e inv smooth => ⟨step_inv inv e smooth, step_keepsPod inv e smooth⟩)
      (created_inv inNamespace specs now) smooth

def plainValidationEnv : ValidationEnv where
  checksOf _ := none
  unmarshalTemplate _ := none

/-- One Validation, which asks for a VM. -/
def webValidation : Validations :=
  created "default" (fun name => if name = "web" then some ({ createKubeVirtVM := true }, []) else none) 0

/-- The pod of the Validation is made and succeeds. -/
def podSucceeds : List ValidationEvent :=
  [.reconcile "web" {}, .reconcile "web" {}, .podPhase "web-validation" .succeeded none]

theorem sound_podSucceeds : Sound plainValidationEnv (run (step plainValidationEnv) webValidation podSucceeds) := by
  refine (sound_of_smooth plainValidationEnv "default" _ 0 podSucceeds ⟨?_, ?_, ?_, trivial⟩).1 podSucceeds
    List.prefix_rfl
  · intro v stored _ held
    cases stored
    cases held
  · intro v stored _ _
    cases stored
    exact ⟨nofun, fun _ => ⟨rfl, nofun⟩⟩
  · intro _ pod n v found mine stored
    cases found
    cases mine
    cases stored
    exact ⟨rfl, fun _ => rfl⟩

/-- The status write that ends the first Reconcile after the pod's success conflicts, and so does the retry. -/
def countedOutTwice : List ValidationEvent :=
  podSucceeds ++ List.replicate 2 (.reconcile "web" { statusUpdate := .refused "conflict" })

/-- The pod is made, but its name is not recorded. -/
def podUnrecorded : List ValidationEvent :=
  [.reconcile "web" {}, .reconcile "web" { secondStatusUpdate := .refused "conflict" }]

/-- The VM is made, but not recorded. -/
def vmUnrecorded : List ValidationEvent :=
  podSucceeds ++ [.reconcile "web" {}, .reconcile "web" { statusUpdate := .refused "conflict" }]

theorem validation_breaks :
    (run (step plainValidationEnv) webValidation countedOutTwice).gauge = -1 ∧
      (run (step plainValidationEnv) webValidation countedOutTwice).active.card = 1 ∧
      ¬ KeepsPod plainValidationEnv (run (step plainValidationEnv) webValidation podUnrecorded) (.reconcile "web" {}) ∧
      ¬ Recovers plainValidationEnv (run (step plainValidationEnv) webValidation vmUnrecorded) := by
  refine ⟨by decide +kernel, by decide +kernel, ?_, ?_⟩
  · intro kept
    exact kept _ _ rfl rfl rfl rfl rfl "web-validation" { controller := some "web" } rfl rfl
  · intro recovers
    have stored : (run (step plainValidationEnv) webValidation vmUnrecorded).objects "web" = some _ := rfl
    obtain ⟨k, all⟩ := recovers "web" _ stored rfl (by decide +kernel)
    have faultless : ∀ api ∈ List.replicate k ({} : ValidationApi), api.Faultless := by
      intro api member
      exact ⟨"", (List.mem_replicate.mp member).2⟩
    obtain ⟨v', after, made⟩ := all (List.replicate k {}) (by simp) faultless
    have held : validationFinalizer ∈ [validationFinalizer] := by simp
    have validated := never_makes_vm stored rfl rfl held rfl rfl rfl rfl faultless after
    rw [validated] at made
    cases made

end Validations

end H2kvm.Operator
