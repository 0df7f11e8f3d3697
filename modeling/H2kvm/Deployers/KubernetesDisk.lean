import H2kvm.Deployers.Kubernetes

namespace H2kvm.Deployers

open Framework

variable {r : Run} {u u' : Upload}

/-! ### The upload -/

/-- An upload goes on: it keeps to its PVC, which is there once it is written to. -/
structure Grows (u u' : Upload) : Prop where
  pvcName : u'.pvcName = u.pvcName
  image : u'.containerDiskImage = u.containerDiskImage
  stays : u.pvcName ∈ u.storage.pvcs → u.pvcName ∈ u'.storage.pvcs
  written : ∀ p ∈ u'.written, p ∈ u.written ∨ p = u.pvcName ∧ u.pvcName ∈ u'.storage.pvcs

theorem Grows.refl (u : Upload) : Grows u u where
  pvcName := rfl
  image := rfl
  stays h := h
  written _ member := .inl member

theorem Grows.trans {u'' : Upload} (first : Grows u u') (second : Grows u' u'') : Grows u u'' where
  pvcName := second.pvcName.trans first.pvcName
  image := second.image.trans first.image
  stays h := first.pvcName ▸ second.stays (first.pvcName ▸ first.stays h)
  written p member := by
    obtain early | ⟨same, there⟩ := second.written p member
    · obtain old | ⟨same, there⟩ := first.written p early
      · exact .inl old
      · exact .inr ⟨same, first.pvcName ▸ second.stays (first.pvcName ▸ there)⟩
    · exact .inr ⟨same.trans first.pvcName, first.pvcName ▸ there⟩

theorem grows_provide (u : Upload) : Grows u u.provide := by
  unfold Upload.provide
  split
  · exact .refl u
  · exact ⟨rfl, rfl, fun _ => (AList.mem_insert _).mpr (.inl rfl), fun p member => .inl member⟩

theorem provide_mem (u : Upload) : u.pvcName ∈ u.provide.storage.pvcs := by
  unfold Upload.provide
  split
  · rename_i there
    exact there
  · exact (AList.mem_insert _).mpr (.inl rfl)

theorem grows_write (u : Upload) (content : Content) : Grows u (u.write content) where
  pvcName := rfl
  image := rfl
  stays _ := (AList.mem_insert _).mpr (.inl rfl)
  written p member := by
    obtain old | here := List.mem_append.mp member
    · exact .inl old
    · exact .inr ⟨List.mem_singleton.mp here, (AList.mem_insert _).mpr (.inl rfl)⟩

theorem grows_addDataVolume (u : Upload) : Grows u (Run.addDataVolume u) := ⟨rfl, rfl, fun h => h, fun _ member => .inl member⟩

/-- The PVC has been filled with a content. -/
def Filled (u : Upload) (content : Content) : Prop :=
  u.storage.pvcs.lookup u.pvcName = some content ∧ u.pvcName ∈ u.written

theorem filled_write (u : Upload) (content : Content) : Filled (u.write content) content := by
  refine ⟨AList.lookup_insert _, ?_⟩
  exact List.mem_append_right _ (List.mem_singleton.mpr rfl)

/-- What a part of `_upload_via_cdi` comes to. -/
def Leads (r : Run) (u : Upload) (result : Option (Upload × Bool)) : Prop :=
  ∀ u' uploaded, result = some (u', uploaded) → Grows u u' ∧ (uploaded = true → Filled u' r.imported)

theorem leads_none : Leads r u none := nofun

theorem leads_failed (grows : Grows u u') : Leads r u (some (u', false)) := by
  intro v uploaded h
  cases h
  exact ⟨grows, nofun⟩

theorem leads_written (grows : Grows u u') : Leads r u (some (u'.write r.imported, true)) := by
  intro v uploaded h
  cases h
  exact ⟨grows.trans (grows_write _ _), fun _ => filled_write _ _⟩

theorem Leads.of_grows (grows : Grows u u') {result : Option (Upload × Bool)} (leads : Leads r u' result) :
    Leads r u result := by
  intro v uploaded h
  obtain ⟨more, filled⟩ := leads v uploaded h
  exact ⟨grows.trans more, filled⟩

/-- A run of `virtctl` and what follows it. -/
theorem leads_runVirtctl (k : Nat) {next : Upload → Name → Option (Upload × Bool)}
    (onward : ∀ u stderr, Leads r u (next u stderr)) :
    Leads r u (match r.runVirtctl u k with
      | none => none
      | some (u, none) => some (u, true)
      | some (u, some stderr) => next u stderr) := by
  unfold Run.runVirtctl
  cases r.outcomes.transfers k with
  | raised => exact leads_none
  | done => exact leads_written (.refl u)
  | failed stderr wrote =>
    cases wrote with
    | true => exact (onward _ stderr).of_grows (grows_write u .broken)
    | false => exact onward u stderr

theorem leads_lastAttempt (preencoded : Bool) (u : Upload) (stderr : Name) :
    Leads r u (r.lastAttempt u preencoded stderr) := by
  unfold Run.lastAttempt
  split
  · exact leads_failed (.refl u)
  · split
    · exact leads_failed (.refl u)
    · split
      · exact leads_none
      · exact leads_failed (.refl u)
      · exact leads_runVirtctl 2 fun u _ => leads_failed (.refl u)

theorem grows_wait {read : PvcRead} {there : Bool} (h : r.waitForCdiUploadPvc u read = some (u', there)) :
    Grows u u' ∧ (there = true → u.pvcName ∈ u'.storage.pvcs) ∧ (there = false → u' = u) := by
  unfold Run.waitForCdiUploadPvc at h
  split at h
  · cases h
  · split at h
    · rename_i found
      cases h
      exact ⟨.refl u, fun _ => found, nofun⟩
    · split at h
      · cases h
        exact ⟨grows_provide u, fun _ => provide_mem u, nofun⟩
      · cases h
        exact ⟨.refl u, nofun, fun _ => rfl⟩

theorem leads_secondAttempt (preencoded : Bool) (u : Upload) (stderr : Name) :
    Leads r u (r.secondAttempt u preencoded stderr) := by
  unfold Run.secondAttempt
  split
  · exact leads_lastAttempt preencoded u stderr
  · split
    · exact leads_none
    · rename_i waited
      exact (leads_lastAttempt preencoded _ stderr).of_grows (grows_wait waited).1
    · rename_i waited
      exact (leads_runVirtctl 1 fun u stderr => leads_lastAttempt preencoded u stderr).of_grows (grows_wait waited).1

theorem leads_firstAttempt (preencoded : Bool) (u : Upload) : Leads r u (r.firstAttempt u preencoded) :=
  leads_runVirtctl 0 fun u stderr => leads_secondAttempt preencoded u stderr

theorem leads_transfer (u : Upload) : Leads r u (r.transfer u) := by
  unfold Run.transfer
  split
  · split
    · exact leads_none
    · exact leads_failed (.refl u)
    · exact leads_firstAttempt true u
  · exact leads_firstAttempt false u

theorem grows_ensureDatavolume {target : Target} (h : r.ensureCdiUploadDatavolume u = some (u', target)) : Grows u u' := by
  unfold Run.ensureCdiUploadDatavolume at h
  split at h
  · cases h
    exact grows_addDataVolume u
  · split at h
    · cases h
      exact .refl u
    · cases h
  · cases h
    exact .refl u
  · cases h

theorem leads_uploadViaCdi (u : Upload) : Leads r u (r.uploadViaCdi u) := by
  unfold Run.uploadViaCdi
  split
  · exact leads_failed (.refl u)
  · split
    · exact leads_none
    · rename_i ensured
      exact (leads_transfer _).of_grows (grows_ensureDatavolume ensured)
    · rename_i ensured
      have grows := grows_ensureDatavolume ensured
      split
      · exact leads_none
      · rename_i waited
        exact leads_failed (grows.trans (grows_wait waited).1)
      · rename_i waited
        split
        · exact (leads_transfer _).of_grows (grows.trans (grows_wait waited).1)
        · exact leads_failed (grows.trans (grows_wait waited).1)

@[simp] theorem provide_written (u : Upload) : u.provide.written = u.written := by
  unfold Upload.provide
  split <;> rfl

@[simp] theorem provide_image (u : Upload) : u.provide.containerDiskImage = u.containerDiskImage :=
  (grows_provide u).image

theorem wait_written {read : PvcRead} {there : Bool} (h : r.waitForCdiUploadPvc u read = some (u', there)) :
    u'.written = u.written := by
  unfold Run.waitForCdiUploadPvc at h
  split at h
  · cases h
  · split at h
    · cases h
      rfl
    · split at h <;> cases h
      · exact provide_written u
      · rfl

/-- A PVC for the upload: what was written stays, and a PVC that is there is used as it is. -/
theorem ensurePvc_spec (h : r.ensurePvcForUpload u = some u') :
    u'.containerDiskImage = u.containerDiskImage ∧ u'.written = u.written ∧
      (u.pvcName ∈ u.storage.pvcs → u'.pvcName = u.pvcName) := by
  unfold Run.ensurePvcForUpload at h
  split at h
  · cases h
  · split at h
    · cases h
      exact ⟨rfl, rfl, fun _ => rfl⟩
    · rename_i absent
      split at h
      · cases h
      · rename_i waited
        cases h
        exact ⟨(grows_wait waited).1.image, wait_written waited, fun there => absurd there absent⟩
      · rename_i waited
        rw [(grows_wait waited).2.2 rfl] at h
        unfold Run.createPvc at h
        split at h
        · cases h
        · cases h
          exact ⟨provide_image _, provide_written _, fun there => absurd there absent⟩

/-- What `_upload_via_cdi` leaves for the fall-back. -/
def Run.afterCdi (r : Run) (storage : Storage) : Upload :=
  if r.outcomes.hasCdi then ((r.uploadViaCdi (r.start storage)).map Prod.fst).getD (r.start storage)
  else r.start storage

/-- `_upload_via_cdi` is tried and succeeds. -/
def Run.uploadsViaCdi (r : Run) (storage : Storage) : Bool :=
  r.outcomes.hasCdi && (r.uploadViaCdi (r.start storage)).any Prod.snd

/-- The PVC that the disk goes to: the one that was asked for if it is there or CDI provides it, else one that is created. -/
def Run.pvcFilled (r : Run) (storage : Storage) : Name :=
  match r.ensurePvcForUpload (r.afterCdi storage) with
  | some u => u.pvcName
  | none => r.pvcTarget

theorem uploadByCopy_spec (h : r.uploadByCopy u = some u') (known : ∀ p ∈ u.written, p = u.pvcName ∧ u.pvcName ∈ u.storage.pvcs) :
    u'.containerDiskImage = u.containerDiskImage ∧ Filled u' r.copied ∧ (∀ p ∈ u'.written, p = u'.pvcName) ∧
      ∃ v, r.ensurePvcForUpload u = some v ∧ u'.pvcName = v.pvcName := by
  unfold Run.uploadByCopy at h
  split at h
  · cases h
  · rename_i v ensured
    obtain ⟨image, written, kept⟩ := ensurePvc_spec ensured
    unfold Run.uploadImage at h
    split at h
    · cases h
      refine ⟨image, filled_write _ _, fun p member => ?_, v, ensured, rfl⟩
      obtain old | here := List.mem_append.mp member
      · rw [written] at old
        obtain ⟨same, there⟩ := known p old
        exact same.trans (kept there).symm
      · exact List.mem_singleton.mp here
    · cases h

section Auto

variable {storage : Storage} (h : r.uploadImageAuto (r.start storage) = some u)

include h

theorem uploadImageAuto_container (builds : r.buildsContainerDisk = true) : u = r.putImage (r.start storage) := by
  unfold Run.uploadImageAuto at h
  rw [if_pos builds] at h
  exact (Option.some.inj h).symm

/-- Without a container disk one PVC is written to, the one the disk goes to. -/
theorem uploadImageAuto_pvc (plain : r.buildsContainerDisk = false) :
    u.containerDiskImage = none ∧ Filled u (if r.uploadsViaCdi storage then r.imported else r.copied) ∧
      (∀ p ∈ u.written, p = u.pvcName) ∧ u.pvcName = r.pvcFilled storage := by
  unfold Run.uploadImageAuto at h
  rw [plain] at h
  simp only [Bool.false_eq_true, if_false] at h
  have leads := leads_uploadViaCdi (r := r) (r.start storage)
  unfold Run.uploadsViaCdi Run.pvcFilled Run.afterCdi
  cases cdi : r.outcomes.hasCdi with
  | false =>
    rw [cdi] at h
    simp only [Bool.false_eq_true, if_false] at h
    obtain ⟨image, filled, only, v, ensured, same⟩ := uploadByCopy_spec h fun p member => absurd member List.not_mem_nil
    simp only [Bool.false_and, Bool.false_eq_true, if_false]
    rw [ensured]
    exact ⟨image, filled, only, same⟩
  | true =>
    rw [cdi] at h
    simp only [if_true] at h
    cases course : r.uploadViaCdi (r.start storage) with
    | none => rw [course] at h; cases h
    | some result =>
      obtain ⟨v, uploaded⟩ := result
      rw [course] at h leads
      obtain ⟨grows, filled⟩ := leads v uploaded rfl
      have only : ∀ p ∈ v.written, p = v.pvcName ∧ v.pvcName ∈ v.storage.pvcs := by
        intro p member
        obtain old | ⟨same, there⟩ := grows.written p member
        · exact absurd old List.not_mem_nil
        · exact ⟨same.trans grows.pvcName.symm, grows.pvcName ▸ there⟩
      cases uploaded with
      | true =>
        cases h
        refine ⟨grows.image, filled rfl, fun p member => (only p member).1, ?_⟩
        have there := (only _ (filled rfl).2).2
        dsimp only [Option.map_some, Option.getD_some]
        split
        · rename_i w ensured
          exact ((ensurePvc_spec ensured).2.2 there).symm
        · exact grows.pvcName
      | false =>
        obtain ⟨image, copied, all, w, ensured, same⟩ := uploadByCopy_spec h only
        simp only [Option.map_some, Option.getD_some, if_true, ensured]
        exact ⟨image.trans grows.image, copied, all, same⟩

end Auto

/-! ### VirtualMachines and their instances -/

section Compute

variable {c c' : Compute} {vm : Name}

/-- The same VirtualMachines with the same volumes. -/
def SameVms (c c' : Compute) : Prop :=
  ∀ vm, (c.vms.lookup vm).map (fun v => v.root :: v.others) = (c'.vms.lookup vm).map fun v => v.root :: v.others

theorem SameVms.refl (c : Compute) : SameVms c c := fun _ => rfl

theorem SameVms.trans {c'' : Compute} (first : SameVms c c') (second : SameVms c' c'') : SameVms c c'' :=
  fun vm => (first vm).trans (second vm)

theorem claims_iff {pvc : Name} :
    c.Claims vm pvc ↔ ∃ l, (c.vms.lookup vm).map (fun v => v.root :: v.others) = some l ∧
      Volume.persistentVolumeClaim pvc ∈ l := by
  simp only [Compute.Claims, Option.map_eq_some_iff]
  constructor
  · intro claims
    obtain ⟨v, found, member⟩ := claims
    exact ⟨_, ⟨v, found, rfl⟩, member⟩
  · intro claims
    obtain ⟨l, ⟨v, found, rfl⟩, member⟩ := claims
    exact ⟨v, found, member⟩

theorem SameVms.claims (same : SameVms c c') {pvc : Name} : c.Claims vm pvc ↔ c'.Claims vm pvc := by
  rw [claims_iff, claims_iff, same vm]

theorem SameVms.mem (same : SameVms c c') (vm : Name) : vm ∈ c.vms ↔ vm ∈ c'.vms := by
  have here := congrArg Option.isSome (same vm)
  rw [Option.isSome_map, Option.isSome_map] at here
  rw [← AList.lookup_isSome, ← AList.lookup_isSome, here]

theorem sameVms_halt (c : Compute) (vm : Name) : SameVms c (c.halt vm) := by
  intro other
  unfold Compute.halt
  cases found : c.vms.lookup vm with
  | none => rfl
  | some v =>
    by_cases same : other = vm
    · subst same
      rw [found]
      dsimp only
      rw [AList.lookup_insert]
      rfl
    · dsimp only
      rw [AList.lookup_insert_ne same]

theorem sameVms_reconcile (c : Compute) (vm : Name) : SameVms c (c.reconcile vm) := by
  unfold Compute.reconcile
  split
  · split
    · exact .refl c
    · exact .refl c
  · exact .refl c

theorem sameVms_stopVmi {stop : Stop} (h : r.stopVmi c stop = some c') : SameVms c c' := by
  unfold Run.stopVmi at h
  split at h
  · cases h
    exact sameVms_halt c r.vmTarget
  · cases h

theorem sameVms_stopExisting (h : r.stopExistingKubevirtVmIfNeeded c = some c') : SameVms c c' := by
  unfold Run.stopExistingKubevirtVmIfNeeded at h
  split at h
  · cases h
    exact .refl c
  · split at h
    · cases h
    · split at h
      · cases h
        exact .refl c
      · split at h
        · cases h
        · split at h
          · cases h
            exact .refl c
          · exact sameVms_stopVmi h

theorem sameVms_beforeUpload (h : r.beforeUpload c = some c') : SameVms c c' := by
  unfold Run.beforeUpload at h
  split at h
  · cases h
  · rename_i stopped
    cases h
    have same := sameVms_stopExisting stopped
    split
    · exact same.trans (sameVms_reconcile _ _)
    · exact same

/-- The target's instance exists while the disk is written, although it was to be stopped: it has no VirtualMachine, or
its VirtualMachine was not halted because it had no instance. -/
def Run.Exposed (r : Run) (c : Compute) : Prop :=
  (r.vmTarget ∉ c.vms ∧ r.vmTarget ∈ c.vmis) ∨
    (r.outcomes.controllerStarts = true ∧ r.vmTarget ∉ c.vmis ∧ ∃ v, c.vms.lookup r.vmTarget = some v ∧ v.runs = true)

theorem reconcile_mem : vm ∈ (c.reconcile vm).vmis ↔
    vm ∈ c.vmis ∨ ∃ v, c.vms.lookup vm = some v ∧ v.runs = true := by
  unfold Compute.reconcile
  cases found : c.vms.lookup vm with
  | none => simp
  | some v =>
    by_cases there : vm ∈ c.vmis
    · simp [there]
    · cases runs : v.runs <;> simp [there, runs]

theorem halt_runs {v : VirtualMachine} (h : (c.halt vm).vms.lookup vm = some v) : v.runs = false := by
  unfold Compute.halt at h
  cases found : c.vms.lookup vm with
  | none =>
    rw [found] at h
    dsimp only at h
    rw [found] at h
    cases h
  | some w =>
    rw [found] at h
    dsimp only at h
    rw [AList.lookup_insert] at h
    cases h
    rfl

theorem stopExisting_cases (stops : r.args.stopBeforeDeploy = true) (h : r.stopExistingKubevirtVmIfNeeded c = some c') :
    (r.vmTarget ∉ c.vms ∧ c' = c) ∨ (r.vmTarget ∈ c.vms ∧ r.vmTarget ∉ c.vmis ∧ c' = c) ∨
      (r.vmTarget ∈ c.vms ∧ r.vmTarget ∈ c.vmis ∧ c' = (c.halt r.vmTarget).withoutVmi r.vmTarget) := by
  unfold Run.stopExistingKubevirtVmIfNeeded at h
  rw [stops] at h
  simp only [Bool.not_true, Bool.false_eq_true, if_false] at h
  split at h
  · cases h
  · split at h
    · rename_i absent
      cases h
      exact .inl ⟨absent, rfl⟩
    · rename_i present
      rw [not_not] at present
      split at h
      · cases h
      · split at h
        · rename_i idle
          cases h
          exact .inr (.inl ⟨present, idle, rfl⟩)
        · rename_i running
          rw [not_not] at running
          unfold Run.stopVmi at h
          split at h
          · cases h
            exact .inr (.inr ⟨present, running, rfl⟩)
          · cases h

theorem beforeUpload_vmi (stops : r.args.stopBeforeDeploy = true) (h : r.beforeUpload c = some c') :
    r.vmTarget ∈ c'.vmis ↔ r.Exposed c := by
  unfold Run.beforeUpload at h
  split at h
  · cases h
  · rename_i d stopped
    have after : c' = if r.outcomes.controllerStarts then d.reconcile r.vmTarget else d := (Option.some.inj h).symm
    have seen : r.vmTarget ∈ c'.vmis ↔ r.vmTarget ∈ d.vmis ∨
        (r.outcomes.controllerStarts = true ∧ ∃ v, d.vms.lookup r.vmTarget = some v ∧ v.runs = true) := by
      rw [after]
      cases starts : r.outcomes.controllerStarts with
      | true => simp [reconcile_mem]
      | false => simp
    rw [seen]
    unfold Run.Exposed
    obtain ⟨absent, rfl⟩ | ⟨present, idle, rfl⟩ | ⟨present, running, rfl⟩ := stopExisting_cases stops stopped
    · rw [AList.lookup_eq_none.mpr absent]
      simp [absent]
    · simp [present, idle]
    · have gone : r.vmTarget ∉ ((c.halt r.vmTarget).withoutVmi r.vmTarget).vmis := by
        simp [Compute.withoutVmi]
      have halted : ¬ ∃ v, ((c.halt r.vmTarget).withoutVmi r.vmTarget).vms.lookup r.vmTarget = some v ∧ v.runs = true := by
        intro some
        obtain ⟨v, found, runs⟩ := some
        rw [halt_runs found] at runs
        cases runs
      simp [gone, halted, present, running]

/-- The VirtualMachine of the target name is gone if it was to be removed; the others are as they were. -/
theorem removeExisting_spec (h : r.removeExistingKubevirtVmBeforeRecreate c = some c') :
    ∀ vm, vm ∈ c'.vms ↔ vm ∈ c.vms ∧ ¬ (r.args.stopBeforeDeploy = true ∧ vm = r.vmTarget) := by
  intro vm
  unfold Run.removeExistingKubevirtVmBeforeRecreate at h
  cases stops : r.args.stopBeforeDeploy with
  | false =>
    rw [stops] at h
    cases h
    simp
  | true =>
    rw [stops] at h
    simp only [Bool.not_true, Bool.false_eq_true, if_false] at h
    split at h
    · cases h
    · split at h
      · rename_i absent
        cases h
        constructor
        · exact fun there => ⟨there, fun target => absent (target.2 ▸ there)⟩
        · exact And.left
      · split at h
        · cases h
        · split at h
          · cases h
          · rename_i d stopped
            have same : SameVms c d := by
              split at stopped
              · exact sameVms_stopVmi stopped
              · cases stopped
                exact .refl c
            split at h
            · cases h
              show vm ∈ d.vms.erase r.vmTarget ↔ _
              rw [AList.mem_erase, ← same.mem vm]
              simp [and_comm]
            · cases h

end Compute

/-! ### The name of the VirtualMachine -/

theorem firstAccepted_spec {answer : Nat → Answer} {left attempt k : Nat} (h : firstAccepted answer left attempt = some k) :
    answer k = .created := by
  induction left generalizing attempt with
  | zero => cases h
  | succ left ih =>
    unfold firstAccepted at h
    split at h
    · rename_i created
      cases h
      exact created
    · exact ih h
    · cases h
    · cases h

theorem firstAccepted_congr {answer answer' : Nat → Answer} (same : ∀ k, answer k = answer' k) (left attempt : Nat) :
    firstAccepted answer left attempt = firstAccepted answer' left attempt := by
  rw [funext same]

theorem answerFor_created {taken : Bool} {answer : Answer} (h : Run.answerFor taken answer = .created) : taken = false := by
  cases taken with
  | false => rfl
  | true => cases answer <;> simp [Run.answerFor] at h

/-- The VirtualMachine that is created: its name was free. -/
theorem createVm_spec {c c' : Compute} {vmName : Name} (h : r.createVm c u = some (c', vmName)) :
    vmName ∉ c.vms ∧ c' = c.withVm vmName (r.newVm u) ∧
      (firstAccepted (r.vmAnswer c) 16 0).map r.vmNameAt = some vmName := by
  unfold Run.createVm at h
  split at h
  · cases h
  · rename_i attempt found
    cases h
    refine ⟨?_, rfl, by rw [found]; rfl⟩
    have free := answerFor_created (firstAccepted_spec found)
    simpa using free

/-! ### What a deployment promises -/

/-- A volume holds the guest's disk, a PVC in raw form. -/
def HoldsGuest (storage : Storage) (guest : Nat) : Volume → Prop
  | .persistentVolumeClaim pvc => storage.pvcs.lookup pvc = some (.disk guest .raw)
  | .containerDisk image => ∃ format, storage.images.lookup image = some (.disk guest format)

/-- The VirtualMachine that is returned is this run's, it boots this run's disk from the PVC that is returned, and no disk of
another VirtualMachine, nor one of a running instance that was to be stopped, has been written to. -/
structure Faithful (r : Run) (d : Deployment) : Prop where
  created : ∃ v, d.compute.vms.lookup d.vmName = some v ∧ v.ours = true
  disk : ∀ v, d.compute.vms.lookup d.vmName = some v → HoldsGuest d.upload.storage r.image.guest v.root
  unshared : ∀ pvc ∈ d.upload.written, ∀ vm, vm ≠ d.vmName → ¬ d.during.Claims vm pvc
  stopped : r.args.stopBeforeDeploy = true → d.upload.written ≠ [] → r.vmTarget ∉ d.during.vmis
  named : ∀ v, d.compute.vms.lookup d.vmName = some v → v.root = .persistentVolumeClaim d.pvcName

namespace Run

variable (r : Run) (compute : Compute) (storage : Storage)

/-- With its VirtualMachine removed, the target name is given to the new one. -/
def RegainsName : Prop :=
  (firstAccepted (r.vmAnswer (compute.withoutVm r.vmTarget)) 16 0).map r.vmNameAt = some r.vmTarget

/-- No container disk is built; CDI takes the image, or it is raw or is converted; a VirtualMachine that claims the PVC is
the target, which is removed and created again; and the target has no instance that the run overlooks. -/
structure Careful : Prop where
  plain : r.buildsContainerDisk = false
  raw : r.uploadsViaCdi storage = true ∨ r.image.format = .raw ∨
    (r.image.format = .qcow2 ∧ r.outcomes.probes = true ∧ r.outcomes.converts = true ∧ r.outcomes.probesRaw = true)
  free : ∀ vm, compute.Claims vm (r.pvcFilled storage) →
    r.args.stopBeforeDeploy = true ∧ vm = r.vmTarget ∧ r.RegainsName compute
  idle : r.args.stopBeforeDeploy = true → ¬ r.Exposed compute

end Run

/-- A run that returns, step by step. -/
structure Deployed (r : Run) (compute : Compute) (storage : Storage) (d : Deployment) (c : Compute) : Prop where
  before : r.beforeUpload compute = some d.during
  uploaded : r.uploadImageAuto (r.start storage) = some d.upload
  removed : r.removeExistingKubevirtVmBeforeRecreate d.during = some c
  created : r.createVm c d.upload = some (d.compute, d.vmName)
  pvcName : d.pvcName = d.upload.pvcName

section Deploy

variable {compute c : Compute} {storage : Storage} {d : Deployment}

theorem deployed_of_deploy (h : r.deploy compute storage = some d) : ∃ c, Deployed r compute storage d c := by
  unfold Run.deploy at h
  split at h
  · split at h
    · cases h
    · rename_i during before
      split at h
      · cases h
      · rename_i u uploaded
        unfold Run.finish at h
        split at h
        · cases h
        · rename_i c removed
          split at h
          · cases h
          · rename_i final vmName created
            split at h
            · cases h
              exact ⟨c, before, uploaded, removed, created, rfl⟩
            · cases h
  · cases h

theorem Deployed.lookup (run : Deployed r compute storage d c) :
    d.compute.vms.lookup d.vmName = some (r.newVm d.upload) := by
  rw [(createVm_spec run.created).2.1]
  exact AList.lookup_insert _

/-- The names that are free when the VirtualMachine is created. -/
theorem Deployed.mem (run : Deployed r compute storage d c) (vm : Name) :
    vm ∈ c.vms ↔ vm ∈ compute.vms ∧ ¬ (r.args.stopBeforeDeploy = true ∧ vm = r.vmTarget) := by
  rw [removeExisting_spec run.removed vm, ← (sameVms_beforeUpload run.before).mem vm]

theorem Deployed.vmAnswer (run : Deployed r compute storage d c) (stops : r.args.stopBeforeDeploy = true) (k : Nat) :
    r.vmAnswer c k = r.vmAnswer (compute.withoutVm r.vmTarget) k := by
  unfold Run.vmAnswer
  have same : r.vmNameAt k ∈ c.vms ↔ r.vmNameAt k ∈ (compute.withoutVm r.vmTarget).vms := by
    rw [run.mem, Compute.withoutVm, AList.mem_erase]
    simp [stops, and_comm]
  rw [decide_eq_decide.mpr same]

theorem Deployed.regains_iff (run : Deployed r compute storage d c) (stops : r.args.stopBeforeDeploy = true) :
    r.RegainsName compute ↔ d.vmName = r.vmTarget := by
  unfold Run.RegainsName
  rw [← firstAccepted_congr (run.vmAnswer stops), (createVm_spec run.created).2.2]
  exact Option.some_inj

theorem Deployed.unshared_iff (run : Deployed r compute storage d c) (pvc : Name) :
    (∀ vm, vm ≠ d.vmName → ¬ d.during.Claims vm pvc) ↔
      ∀ vm, compute.Claims vm pvc → r.args.stopBeforeDeploy = true ∧ vm = r.vmTarget ∧ r.RegainsName compute := by
  have same := sameVms_beforeUpload run.before
  constructor
  · intro unshared vm claims
    have named : vm = d.vmName := by
      by_contra other
      exact unshared vm other (same.claims.mp claims)
    have listed : vm ∈ compute.vms := by
      obtain ⟨v, found, -⟩ := claims
      exact AList.lookup_isSome.mp (by rw [found]; rfl)
    have removed : r.args.stopBeforeDeploy = true ∧ vm = r.vmTarget := by
      by_contra stays
      exact (createVm_spec run.created).1 (named ▸ (run.mem vm).mpr ⟨listed, stays⟩)
    exact ⟨removed.1, removed.2, (run.regains_iff removed.1).mpr (named.symm.trans removed.2)⟩
  · intro only vm other claims
    obtain ⟨stops, target, regains⟩ := only vm (same.claims.mpr claims)
    exact other (target.trans ((run.regains_iff stops).mp regains).symm)

theorem copied_eq_iff : r.copied = .disk r.image.guest .raw ↔ r.image.format = .raw ∨
    (r.image.format = .qcow2 ∧ r.outcomes.probes = true ∧ r.outcomes.converts = true ∧ r.outcomes.probesRaw = true) := by
  unfold Run.copied
  split
  · rename_i converted
    simp only [Bool.and_eq_true, beq_iff_eq] at converted
    simp [converted]
  · rename_i failed
    simp only [Bool.and_eq_true, beq_iff_eq, not_and] at failed
    simp only [Content.disk.injEq, true_and]
    constructor
    · exact .inl
    · intro either
      obtain raw | ⟨qcow2, probes, converts, probesRaw⟩ := either
      · exact raw
      · exact absurd probesRaw (failed ⟨⟨probes, qcow2⟩, converts⟩)

theorem not_faithful_container (run : Deployed r compute storage d c) (builds : r.buildsContainerDisk = true) :
    ¬ Faithful r d := by
  intro faithful
  have named := faithful.named _ run.lookup
  rw [uploadImageAuto_container run.uploaded builds] at named
  cases named

/-- Without one, each promise is a condition of its own. -/
theorem faithful_iff (run : Deployed r compute storage d c) (plain : r.buildsContainerDisk = false) :
    Faithful r d ↔
      (r.uploadsViaCdi storage = true ∨ r.copied = .disk r.image.guest .raw) ∧
      (∀ vm, vm ≠ d.vmName → ¬ d.during.Claims vm (r.pvcFilled storage)) ∧
      (r.args.stopBeforeDeploy = true → r.vmTarget ∉ d.during.vmis) := by
  obtain ⟨image, ⟨content, member⟩, only, filled⟩ := uploadImageAuto_pvc run.uploaded plain
  have root : (r.newVm d.upload).root = .persistentVolumeClaim d.upload.pvcName := by
    show Run.rootVolume d.upload = _
    unfold Run.rootVolume
    rw [image]
  have holds : HoldsGuest d.upload.storage r.image.guest (r.newVm d.upload).root ↔
      r.uploadsViaCdi storage = true ∨ r.copied = .disk r.image.guest .raw := by
    rw [root]
    show d.upload.storage.pvcs.lookup d.upload.pvcName = some _ ↔ _
    rw [content, Option.some.injEq]
    cases r.uploadsViaCdi storage with
    | true => simp [Run.imported]
    | false => simp
  constructor
  · intro faithful
    refine ⟨holds.mp (faithful.disk _ run.lookup), ?_, fun stops => ?_⟩
    · exact filled ▸ faithful.unshared _ member
    · exact faithful.stopped stops (List.ne_nil_of_mem member)
  · intro conditions
    obtain ⟨disk, unshared, stopped⟩ := conditions
    constructor
    case created => exact ⟨_, run.lookup, rfl⟩
    case disk =>
      intro v found
      cases found.symm.trans run.lookup
      exact holds.mpr disk
    case unshared =>
      intro pvc inside
      rw [only pvc inside, filled]
      exact unshared
    case stopped => exact fun stops _ => stopped stops
    case named =>
      intro v found
      cases found.symm.trans run.lookup
      rw [run.pvcName]
      exact root

theorem faithful_iff_conditions (run : Deployed r compute storage d c) : Faithful r d ↔ r.Careful compute storage := by
  cases builds : r.buildsContainerDisk with
  | true =>
    constructor
    · exact fun faithful => absurd faithful (not_faithful_container run builds)
    · intro careful
      rw [careful.plain] at builds
      cases builds
  | false =>
    rw [faithful_iff run builds, copied_eq_iff, run.unshared_iff]
    constructor
    · intro conditions
      obtain ⟨raw, free, idle⟩ := conditions
      exact ⟨builds, raw, free, fun stops => mt (beforeUpload_vmi stops run.before).mpr (idle stops)⟩
    · intro careful
      exact ⟨careful.raw, careful.free, fun stops => mt (beforeUpload_vmi stops run.before).mp (careful.idle stops)⟩

end Deploy

/-- The image `web.qcow2`, deployed where neither a container builder nor CDI is at hand. -/
def webRun (outcomes : Outcomes) : Run where
  args := {}
  image := { name := "web.qcow2".toList, guest := 7, format := .qcow2 }
  outcomes := outcomes

def webVm : VirtualMachine where
  root := .persistentVolumeClaim "web-disk".toList
  runs := true

/-- An earlier deployment of the same machine, which is running. -/
def webCompute : Compute where
  vms := (∅ : Dict Name VirtualMachine).insert "web".toList webVm
  vmis := ["web".toList]

def webStorage : Storage where
  pvcs := (∅ : Dict Name Content).insert "web-disk".toList (.disk 3 .raw)

end H2kvm.Deployers
