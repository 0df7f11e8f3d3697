import H2kvm.Framework.Run
import H2kvm.Batch.Orchestrator

namespace H2kvm.Batch

open Framework

section resume

namespace Pool

/-- Some VM other than number `i` has a result under this id. -/
def NamesBeside (pool : Pool) (i : Nat) (vmId : String) : Prop :=
  ∃ j r, j ≠ i ∧ j < pool.vms.length ∧ pool.resultsDict j = some r ∧ r.vmId = vmId

theorem mem_ordered_ids {pool : Pool} {vmId : String} :
    vmId ∈ pool.ordered.map VMConversionResult.vmId ↔
      ∃ j r, j < pool.vms.length ∧ pool.resultsDict j = some r ∧ r.vmId = vmId := by
  simp only [ordered, List.mem_map, List.mem_filterMap, List.mem_range]
  constructor
  · intro h
    obtain ⟨r, ⟨j, hj, hr⟩, he⟩ := h
    exact ⟨j, r, hj, hr, he⟩
  · intro h
    obtain ⟨j, r, hj, hr, he⟩ := h
    exact ⟨r, ⟨j, hj, hr⟩, he⟩

theorem namesBeside_of_ordered {pool : Pool} {i : Nat} (h : pool.resultsDict i = none) {vmId : String}
    (hm : vmId ∈ pool.ordered.map VMConversionResult.vmId) : pool.NamesBeside i vmId := by
  obtain ⟨j, r, hj, hr, he⟩ := mem_ordered_ids.mp hm
  refine ⟨j, r, ?_, hj, hr, he⟩
  intro hji
  rw [hji, h] at hr
  simp at hr

end Pool

namespace BatchOrchestrator

/-- The ids in the saved checkpoint. -/
def recorded (b : BatchOrchestrator) : List String := (b.checkpoint.map Checkpoint.ids).getD []

/-- With checkpoints on, what is saved is among the results the next save will write. -/
def Covered (b : BatchOrchestrator) : Prop :=
  b.enableCheckpoint = true → match b.phase with
    | .idle => True
    | .sequential _ => b.recorded ⊆ b.results.map VMConversionResult.vmId
    | .parallel pool => b.recorded ⊆ pool.ordered.map VMConversionResult.vmId

/-- The VMs the current call of `run` may still process. -/
def phaseVms (b : BatchOrchestrator) : List VMBatchItem :=
  match b.phase with
  | .idle => []
  | .sequential todo => todo
  | .parallel pool => pool.vms

theorem covered_of_idle {b : BatchOrchestrator} (h : b.phase = .idle) : b.Covered := by
  intro _
  rw [h]
  trivial

theorem Covered.sequential {b : BatchOrchestrator} {todo : List VMBatchItem} (h : b.Covered)
    (hp : b.phase = .sequential todo) (he : b.enableCheckpoint = true) :
    b.recorded ⊆ b.results.map VMConversionResult.vmId := by
  have covered := h he
  rw [hp] at covered
  exact covered

theorem Covered.parallel {b : BatchOrchestrator} {pool : Pool} (h : b.Covered) (hp : b.phase = .parallel pool)
    (he : b.enableCheckpoint = true) : b.recorded ⊆ pool.ordered.map VMConversionResult.vmId := by
  have covered := h he
  rw [hp] at covered
  exact covered

theorem recorded_of_checkpoint {b b' : BatchOrchestrator} (h : b'.checkpoint = b.checkpoint) :
    b'.recorded = b.recorded := by
  unfold recorded
  rw [h]

@[simp] theorem saveCheckpointState_recorded (b : BatchOrchestrator) (vmId : String) :
    vmId ∈ b.saveCheckpointState.recorded ↔ vmId ∈ b.results.map VMConversionResult.vmId := by
  simp [recorded, saveCheckpointState]

/-- What a step does to the saved checkpoint: it is removed, or names what it named. -/
def Grows (b b' : BatchOrchestrator) : Prop :=
  (b.checkpoint.isSome = true ∧ b'.checkpoint = none) ∨ b.recorded ⊆ b'.recorded

theorem grows_of_checkpoint {b b' : BatchOrchestrator} (h : b'.checkpoint = b.checkpoint) : b.Grows b' :=
  .inr (by rw [recorded_of_checkpoint h]; exact List.Subset.refl _)

/-- Everything a step keeps: the checkpoint names no fewer VMs and the results cover it, and
no VM comes to be processed that was not to be processed before. -/
structure Steps (b b' : BatchOrchestrator) : Prop where
  grows : b.Grows b'
  covered : b'.Covered
  enabled : b'.phase ≠ .idle → b'.enableCheckpoint = b.enableCheckpoint
  vms : b'.phaseVms ⊆ b.phaseVms

theorem steps_to_idle {b b' : BatchOrchestrator} (hc : b'.checkpoint = b.checkpoint) (hp : b'.phase = .idle) :
    b.Steps b' :=
  ⟨grows_of_checkpoint hc, covered_of_idle hp, fun h => absurd hp h, by simp [phaseVms, hp]⟩

theorem steps_refl {b : BatchOrchestrator} (h : b.Covered) : b.Steps b :=
  ⟨grows_of_checkpoint rfl, h, fun _ => rfl, List.Subset.refl _⟩

theorem interrupt_steps {b : BatchOrchestrator} (h : b.Covered) (killed : Bool) : b.Steps (b.interrupt killed) := by
  unfold interrupt
  cases killed with
  | true => exact steps_to_idle rfl rfl
  | false =>
    cases hp : b.phase with
    | idle => exact steps_to_idle rfl rfl
    | sequential todo => exact steps_to_idle rfl rfl
    | parallel pool =>
      have before := h.parallel hp
      exact ⟨grows_of_checkpoint rfl, before, fun _ => rfl, by simp [phaseVms, hp]⟩

theorem complete_steps (b : BatchOrchestrator) (reported removed : Bool) : b.Steps (b.complete reported removed) := by
  unfold complete
  dsimp only
  split
  · refine ⟨?_, covered_of_idle rfl, fun h => absurd rfl h, by simp [phaseVms]⟩
    cases hc : b.checkpoint with
    | none => exact .inr (by simp [recorded, hc])
    | some cp => exact .inl ⟨by simp [hc], rfl⟩
  · exact steps_to_idle rfl rfl

/-- The sequential loop adds a result to those it already has, and saves them all. -/
theorem processNext_steps {b : BatchOrchestrator} {vm : VMBatchItem} {rest : List VMBatchItem} (h : b.Covered)
    (hp : b.phase = .sequential (vm :: rest)) (c : Conversion) (saved : Bool) :
    b.Steps (b.processNext vm rest c saved) := by
  unfold processNext
  cases processSingleVm vm c with
  | raised message => exact steps_to_idle rfl rfl
  | aborted => exact steps_to_idle rfl rfl
  | returned result =>
    dsimp only
    cases he : b.enableCheckpoint with
    | false =>
      simp only [Bool.false_and, Bool.false_eq_true, if_false]
      split
      · exact ⟨grows_of_checkpoint rfl, fun hf => absurd hf (by simp), fun _ => he.symm, by simp [phaseVms]⟩
      · exact ⟨grows_of_checkpoint rfl, fun hf => absurd hf (by simp), fun _ => he.symm, by simp [phaseVms, hp]⟩
    | true =>
      have before := h.sequential hp he
      cases saved with
      | false => exact steps_to_idle rfl rfl
      | true =>
        simp only [Bool.not_true, Bool.and_false, Bool.false_eq_true, if_false, if_true]
        let b1 : BatchOrchestrator := { b with results := b.results ++ [result] }
        have grows : b.recorded ⊆ b1.saveCheckpointState.recorded := by
          intro vmId hm
          rw [saveCheckpointState_recorded, List.map_append]
          exact List.mem_append_left _ (before hm)
        have covered : b1.saveCheckpointState.recorded ⊆ b1.results.map VMConversionResult.vmId := by
          intro vmId hm
          rwa [saveCheckpointState_recorded] at hm
        split
        · exact ⟨.inr grows, fun _ => covered, fun _ => he.symm, by simp [phaseVms]⟩
        · exact ⟨.inr grows, fun _ => covered, fun _ => he.symm, by simp [phaseVms, hp]⟩

theorem record_checkpoint_failed (b : BatchOrchestrator) (pool : Pool) (i : Nat) (result : VMConversionResult)
    (error : String) : (b.record pool i result (some error)).1.checkpoint = b.checkpoint := by
  unfold record
  dsimp only
  split <;> rfl

theorem namesBeside_ordered {pool : Pool} {i : Nat} {vmId : String} (h : pool.NamesBeside i vmId)
    (result : VMConversionResult) :
    vmId ∈ ({ pool with resultsDict := Function.update pool.resultsDict i (some result) } : Pool).ordered.map
      VMConversionResult.vmId := by
  obtain ⟨j, r, hji, hj, hr, he⟩ := h
  refine Pool.mem_ordered_ids.mpr ⟨j, r, hj, ?_, he⟩
  rw [← hr]
  exact Function.update_of_ne hji _ _

theorem record_recorded {b : BatchOrchestrator} {pool : Pool} {i : Nat}
    (beside : b.enableCheckpoint = true → ∀ vmId ∈ b.recorded, pool.NamesBeside i vmId)
    (result : VMConversionResult) (error : Option String) :
    b.recorded ⊆ (b.record pool i result error).1.recorded ∧
      (b.enableCheckpoint = true → (b.record pool i result error).1.recorded ⊆
        (b.record pool i result error).2.ordered.map VMConversionResult.vmId) := by
  rw [record_pool]
  have kept (he : b.enableCheckpoint = true) : b.recorded ⊆
      ({ pool with resultsDict := Function.update pool.resultsDict i (some result) } : Pool).ordered.map
        VMConversionResult.vmId :=
    fun vmId hm => namesBeside_ordered (beside he vmId hm) result
  by_cases he : b.enableCheckpoint = true
  · cases error with
    | some error =>
      have same := recorded_of_checkpoint (record_checkpoint_failed b pool i result error)
      rw [same]
      exact ⟨List.Subset.refl _, kept⟩
    | none =>
      have saved : (b.record pool i result none).1 = saveCheckpointState
          { b with results :=
              ({ pool with resultsDict := Function.update pool.resultsDict i (some result) } : Pool).ordered } := by
        simp only [record, he, if_true]
      rw [saved]
      refine ⟨fun vmId hm => ?_, fun _ vmId hm => ?_⟩
      · exact (saveCheckpointState_recorded _ _).mpr (kept he hm)
      · exact (saveCheckpointState_recorded _ _).mp hm
  · have same : (b.record pool i result error).1 = b := by simp [record, he]
    rw [same]
    exact ⟨List.Subset.refl _, fun hf => absurd hf he⟩

/-- A step that leaves the main thread at `main`, after records that lose nothing. -/
theorem steps_to_parallel {b b' : BatchOrchestrator} {pool pool' : Pool} (hp : b.phase = .parallel pool)
    (grows : b.recorded ⊆ b'.recorded) (he : b'.enableCheckpoint = b.enableCheckpoint) (hv : pool'.vms = pool.vms)
    (covered : b.enableCheckpoint = true → b'.recorded ⊆ pool'.ordered.map VMConversionResult.vmId)
    (main : MainPoint) : b.Steps { b' with phase := .parallel { pool' with main := main } } :=
  ⟨.inr grows, fun hf => covered (he.symm.trans hf), fun _ => he, by simp [phaseVms, hp, hv]⟩

theorem collectException_steps {b b' : BatchOrchestrator} {pool pool' : Pool} {i : Nat}
    (hp : b.phase = .parallel pool) (grows : b.recorded ⊆ b'.recorded)
    (he : b'.enableCheckpoint = b.enableCheckpoint) (hv : pool'.vms = pool.vms)
    (beside : b'.enableCheckpoint = true → ∀ vmId ∈ b'.recorded, pool'.NamesBeside i vmId)
    (vm : VMBatchItem) (message : String) (second : Option String) :
    b.Steps (b'.collectException pool' i vm message second) := by
  have recorded := record_recorded beside (Pool.failure vm message) second
  have enabled := (record_enabled b' pool' i (Pool.failure vm message) second).trans he
  have vms : (b'.record pool' i (Pool.failure vm message) second).2.vms = pool.vms := by
    rw [record_pool]
    exact hv
  have covered (hf : b.enableCheckpoint = true) := recorded.2 (he.trans hf)
  have steps := steps_to_parallel hp (List.Subset.trans grows recorded.1) enabled vms covered
  unfold collectException
  dsimp only
  split
  · exact steps .raising
  · split
    · exact steps (.cancelling 0)
    · exact steps (b'.record pool' i (Pool.failure vm message) second).2.main

/-- A turn of the loop over `as_completed` adds one result, whatever becomes of its saves. -/
theorem collect_steps {b : BatchOrchestrator} {pool : Pool} {i : Nat} (h : b.Covered) (hp : b.phase = .parallel pool)
    (hi : pool.resultsDict i = none) (vm : VMBatchItem) (outcome : Outcome) (first second : Option String) :
    b.Steps (b.collect pool i vm outcome first second) := by
  have before := h.parallel hp
  have beside (he : b.enableCheckpoint = true) (vmId : String) (hm : vmId ∈ b.recorded) : pool.NamesBeside i vmId :=
    Pool.namesBeside_of_ordered hi (before he hm)
  cases outcome with
  | raised message => exact collectException_steps hp (List.Subset.refl _) rfl rfl beside vm message second
  | aborted => exact steps_to_parallel hp (List.Subset.refl _) rfl rfl before .raising
  | returned result =>
    have recorded := record_recorded beside result first
    have enabled := record_enabled b pool i result first
    have vms : (b.record pool i result first).2.vms = pool.vms := by rw [record_pool]
    have steps := steps_to_parallel hp recorded.1 enabled vms recorded.2
    unfold collect
    dsimp only
    cases hs : (b.record pool i result first).1.raisedBySave first with
    | none =>
      dsimp only
      split
      · exact steps (.cancelling 0)
      · exact steps (b.record pool i result first).2.main
    | some error =>
      obtain ⟨he, hfirst⟩ := raisedBySave_eq_some.mp hs
      refine collectException_steps hp recorded.1 enabled vms ?_ vm error second
      -- the failed save left the old file, whose ids are still those beside number `i`
      intro _ vmId hm
      rw [hfirst, recorded_of_checkpoint (record_checkpoint_failed b pool i result error)] at hm
      obtain ⟨j, r, hji, hj, hr, hid⟩ := beside (enabled.symm.trans he) vmId hm
      rw [record_pool]
      exact ⟨j, r, hji, hj, (Function.update_of_ne hji _ _).trans hr, hid⟩

theorem poolStep_steps {b : BatchOrchestrator} {pool : Pool} (h : b.Covered) (hp : b.phase = .parallel pool)
    (a : Action) : b.Steps (b.poolStep pool a) := by
  have before := h.parallel hp
  -- a step of the pool that records nothing
  have moves (pool' : Pool) (hv : pool'.vms = pool.vms) (hd : pool'.resultsDict = pool.resultsDict) :
      b.Steps { b with phase := .parallel pool' } := by
    refine steps_to_parallel hp (List.Subset.refl _) rfl hv (fun he => ?_) pool'.main
    have same : pool'.ordered = pool.ordered := by simp [Pool.ordered, hv, hd]
    rw [same]
    exact before he
  have stays : b.Steps b := steps_refl h
  cases a with
  | newOrchestrator enable => exact stays
  | startRun manifest prepared cpus => exact stays
  | processNext c saved => exact stays
  | start i =>
    dsimp only [poolStep]
    split
    · exact moves _ rfl rfl
    · exact stays
  | finish i c =>
    dsimp only [poolStep]
    split
    · exact moves _ rfl rfl
    · exact stays
  | collect i first second =>
    dsimp only [poolStep]
    split
    · rename_i outcome vm _ _ _ hi
      exact collect_steps h hp hi vm outcome first second
    · exact stays
  | loopEnd =>
    dsimp only [poolStep]
    split
    · exact moves _ rfl rfl
    · exact stays
  | cancelNext =>
    dsimp only [poolStep]
    split
    · rename_i k _
      refine moves (BatchOrchestrator.cancelNext pool k) ?_ ?_
      · unfold BatchOrchestrator.cancelNext
        split <;> rfl
      · unfold BatchOrchestrator.cancelNext
        split <;> rfl
    · exact stays
  | leave =>
    dsimp only [poolStep]
    split
    · let b' : BatchOrchestrator := { b with results := pool.ordered }
      have kept : b.recorded ⊆ b'.recorded := List.Subset.refl _
      exact steps_to_parallel hp kept rfl rfl before .returned
    · exact steps_to_idle rfl rfl
    · exact stays
  | complete reported removed =>
    dsimp only [poolStep]
    split
    · exact complete_steps b reported removed
    · exact stays
  | interrupt killed => exact interrupt_steps h killed

/-- The run that `startRun` begins resumes from a checkpoint that names VMs and would go on
in parallel. -/
def ResumesParallel (b : BatchOrchestrator) (manifest : BatchManifest) : Prop :=
  b.enableCheckpoint = true ∧ b.recorded ≠ [] ∧ 1 < manifest.parallelLimit ∧ 1 < (b.remaining manifest).length

/-- No run that resumes from a checkpoint with VMs in it goes on in parallel. -/
def Sequenced (b : BatchOrchestrator) : Action → Prop
  | .startRun manifest _ _ => ¬ b.ResumesParallel manifest
  | _ => True

theorem restorePreviousResults_frame (b : BatchOrchestrator) :
    b.restorePreviousResults.checkpoint = b.checkpoint ∧
      b.restorePreviousResults.enableCheckpoint = b.enableCheckpoint ∧ b.restorePreviousResults.phase = b.phase := by
  unfold restorePreviousResults
  split <;> exact ⟨rfl, rfl, rfl⟩

theorem restorePreviousResults_covers {b : BatchOrchestrator} (h : b.enableCheckpoint = true) :
    b.recorded ⊆ b.restorePreviousResults.results.map VMConversionResult.vmId := by
  intro vmId hm
  cases hc : b.checkpoint with
  | none => simp [recorded, hc] at hm
  | some cp =>
    have named : vmId ∈ cp.ids := by simpa [recorded, hc] using hm
    simp only [restorePreviousResults, h, hc, List.map_append, Checkpoint.restoredResults_ids]
    exact List.mem_append_right _ named

theorem remaining_fresh {b : BatchOrchestrator} (h : b.enableCheckpoint = true) (manifest : BatchManifest) :
    ∀ vm ∈ b.remaining manifest, vm.id ∉ b.recorded := by
  intro vm hm
  cases hc : b.checkpoint with
  | none => simp [recorded, hc]
  | some cp =>
    simp only [remaining, h, hc, List.mem_filter] at hm
    have skip : ¬ cp.shouldSkipVm vm.id = true := by simpa using hm.2
    rw [Checkpoint.shouldSkipVm_iff] at skip
    simpa [recorded, hc] using skip

theorem processVmsParallel_frame (b : BatchOrchestrator) (vms : List VMBatchItem) (parallelLimit cpus : Nat) :
    (b.processVmsParallel vms parallelLimit cpus).checkpoint = b.checkpoint ∧
      (b.processVmsParallel vms parallelLimit cpus).enableCheckpoint = b.enableCheckpoint ∧
      ((b.processVmsParallel vms parallelLimit cpus).phase = .idle ∨
        ∃ workers, (b.processVmsParallel vms parallelLimit cpus).phase = .parallel (.new vms workers)) := by
  unfold processVmsParallel
  dsimp only
  split
  · exact ⟨rfl, rfl, .inl rfl⟩
  · exact ⟨rfl, rfl, .inr ⟨_, rfl⟩⟩

/-- A call of `run` leaves the checkpoint, has results that cover it, and has only VMs before it
that the checkpoint does not name. -/
theorem startRun_steps {b : BatchOrchestrator} {manifest : BatchManifest} (hp : b.phase = .idle)
    (hs : ¬ b.ResumesParallel manifest) (prepared : Bool) (cpus : Nat) :
    (b.startRun manifest prepared cpus).checkpoint = b.checkpoint ∧
      (b.startRun manifest prepared cpus).Covered ∧
      (b.startRun manifest prepared cpus).enableCheckpoint = b.enableCheckpoint ∧
      (b.startRun manifest prepared cpus).phaseVms ⊆ b.remaining manifest := by
  obtain ⟨hc, he, hph⟩ := restorePreviousResults_frame (b.load manifest)
  have idle (b' : BatchOrchestrator) (h : b'.phase = .idle) : b'.phaseVms ⊆ b.remaining manifest := by
    simp [phaseVms, h]
  have loaded : (b.load manifest).phase = .idle := hp
  unfold startRun
  dsimp only
  split
  · exact ⟨rfl, covered_of_idle loaded, rfl, idle _ loaded⟩
  split
  · exact ⟨rfl, covered_of_idle loaded, rfl, idle _ loaded⟩
  split
  · exact ⟨hc, covered_of_idle (hph.trans loaded), he, idle _ (hph.trans loaded)⟩
  split
  · rename_i parallel
    obtain ⟨hc', he', hph'⟩ := processVmsParallel_frame (b.load manifest).restorePreviousResults
      (b.remaining manifest) manifest.parallelLimit cpus
    refine ⟨hc'.trans hc, ?_, he'.trans he, ?_⟩
    · rcases hph' with hph' | ⟨workers, hph'⟩
      · exact covered_of_idle hph'
      · intro henabled
        rw [hph', recorded_of_checkpoint (hc'.trans hc)]
        -- the checkpoint names no VM, or this run would have gone on one by one
        have none_recorded : b.recorded = [] := by
          by_contra hne
          exact hs ⟨(he'.trans he).symm.trans henabled, hne, parallel⟩
        have same : (b.load manifest).recorded = b.recorded := rfl
        simp [same, none_recorded]
    · rcases hph' with hph' | ⟨workers, hph'⟩
      · exact idle _ hph'
      · simp [phaseVms, hph', Pool.new]
  · refine ⟨hc, fun henabled => ?_, he, by simp [phaseVms]⟩
    have covers := restorePreviousResults_covers (he.symm.trans henabled)
    have same : (b.load manifest).restorePreviousResults.recorded = (b.load manifest).recorded :=
      recorded_of_checkpoint hc
    exact fun vmId hm => covers (same ▸ hm)

theorem step_steps {b : BatchOrchestrator} (h : b.Covered) (a : Action)
    (hr : ∀ manifest prepared cpus, b.phase = .idle → a ≠ .startRun manifest prepared cpus) : b.Steps (b.step a) := by
  unfold step
  cases hp : b.phase with
  | idle =>
    cases a with
    | newOrchestrator enable => exact steps_to_idle rfl rfl
    | startRun manifest prepared cpus => exact absurd rfl (hr manifest prepared cpus hp)
    | _ => exact steps_refl h
  | sequential todo =>
    dsimp only
    split
    · exact processNext_steps h hp _ _
    · exact complete_steps b _ _
    · exact interrupt_steps h _
    · exact steps_refl h
  | parallel pool => exact poolStep_steps h hp a

end BatchOrchestrator

end resume

section resumeSession

namespace BatchOrchestrator

/-- The VM whose processing a step begins. -/
def processes (b : BatchOrchestrator) : Action → Option String
  | .processNext _ _ =>
    match b.phase with
    | .sequential (vm :: _) => some vm.id
    | _ => none
  | .start i =>
    match b.phase with
    | .parallel pool => if pool.startable i then (pool.vms[i]?).map VMBatchItem.id else none
    | _ => none
  | _ => none

/-- A step that begins a call of `run`. -/
def starts (b : BatchOrchestrator) : Action → Bool
  | .startRun _ _ _ =>
    match b.phase with
    | .idle => true
    | _ => false
  | _ => false

theorem processes_mem {b : BatchOrchestrator} {a : Action} {vmId : String} (h : b.processes a = some vmId) :
    ∃ vm ∈ b.phaseVms, vm.id = vmId := by
  cases a with
  | processNext c saved =>
    dsimp only [processes] at h
    split at h
    · rename_i vm rest hp
      exact ⟨vm, by simp [phaseVms, hp], Option.some.inj h⟩
    · simp at h
  | start i =>
    dsimp only [processes] at h
    split at h
    · rename_i pool hp
      split at h
      · obtain ⟨vm, hv, he⟩ := Option.map_eq_some_iff.mp h
        exact ⟨vm, by simpa [phaseVms, hp] using List.mem_of_getElem? hv, he⟩
      · simp at h
    · simp at h
  | _ => simp [processes] at h

theorem starts_iff {b : BatchOrchestrator} {a : Action} :
    b.starts a = true ↔ b.phase = .idle ∧ ∃ manifest prepared cpus, a = .startRun manifest prepared cpus := by
  cases a with
  | startRun manifest prepared cpus =>
    cases hp : b.phase <;> simp [starts, hp]
  | _ => simp [starts]

end BatchOrchestrator

/-- A batch over many calls of `run`: how many there were, how often the checkpoint was cleaned
up, and what it named when the current call began. -/
structure BatchSession where
  batch : BatchOrchestrator
  runs : Nat
  cleanups : Nat
  resumedFrom : List String

namespace BatchSession

open BatchOrchestrator (Action)

def start (checkpoint : Option Checkpoint) : BatchSession := ⟨.init checkpoint, 0, 0, []⟩

def step (t : BatchSession) (a : Action) : BatchSession where
  batch := t.batch.step a
  runs := if t.batch.starts a then t.runs + 1 else t.runs
  cleanups := if t.batch.checkpoint.isSome && (t.batch.step a).checkpoint.isNone then t.cleanups + 1 else t.cleanups
  resumedFrom := if t.batch.starts a then t.batch.recorded else t.resumedFrom

/-- No run that resumes from a checkpoint with VMs in it goes on in parallel. -/
def Sequenced (t : BatchSession) (a : Action) : Prop := t.batch.Sequenced a

/-- The results cover the checkpoint, and a resumed run has no VM before it that the checkpoint
named when it began. -/
structure Inv (t : BatchSession) : Prop where
  covered : t.batch.Covered
  fresh : t.batch.enableCheckpoint = true → ∀ vm ∈ t.batch.phaseVms, vm.id ∉ t.resumedFrom

/-- What holds between a state and a later one. -/
structure Follows (t u : BatchSession) : Prop where
  cleanups : t.cleanups ≤ u.cleanups
  runs : t.runs ≤ u.runs
  same_run : t.runs = u.runs → u.resumedFrom = t.resumedFrom
  grows : t.cleanups = u.cleanups → t.batch.recorded ⊆ u.batch.recorded
  resumed : t.cleanups = u.cleanups → t.runs < u.runs → t.batch.recorded ⊆ u.resumedFrom

theorem follows_refl (t : BatchSession) : t.Follows t :=
  ⟨Nat.le_refl _, Nat.le_refl _, fun _ => rfl, fun _ => List.Subset.refl _, fun _ h => absurd h (Nat.lt_irrefl _)⟩

theorem follows_trans (s t u : BatchSession) (h : s.Follows t) (h' : t.Follows u) : s.Follows u := by
  have hc := h.cleanups
  have hc' := h'.cleanups
  have hr := h.runs
  have hr' := h'.runs
  refine ⟨by omega, by omega, fun he => ?_, fun he => ?_, fun he hlt => ?_⟩
  · rw [h'.same_run (by omega), h.same_run (by omega)]
  · exact List.Subset.trans (h.grows (by omega)) (h'.grows (by omega))
  · by_cases later : t.runs < u.runs
    · exact List.Subset.trans (h.grows (by omega)) (h'.resumed (by omega) later)
    · rw [h'.same_run (by omega)]
      exact h.resumed (by omega) (by omega)

theorem start_inv (checkpoint : Option Checkpoint) : (start checkpoint).Inv :=
  ⟨BatchOrchestrator.covered_of_idle rfl, by simp [start, BatchOrchestrator.init, BatchOrchestrator.phaseVms]⟩

theorem startRun_inv {t : BatchSession} {manifest : BatchManifest} (hp : t.batch.phase = .idle)
    (hs : ¬ t.batch.ResumesParallel manifest) (prepared : Bool) (cpus : Nat) :
    (t.step (.startRun manifest prepared cpus)).Inv ∧ t.Follows (t.step (.startRun manifest prepared cpus)) := by
  obtain ⟨hc, covered, he, vms⟩ := BatchOrchestrator.startRun_steps hp hs prepared cpus
  have begins : t.batch.starts (.startRun manifest prepared cpus) = true :=
    BatchOrchestrator.starts_iff.mpr ⟨hp, manifest, prepared, cpus, rfl⟩
  have batch : t.batch.step (.startRun manifest prepared cpus) = t.batch.startRun manifest prepared cpus := by
    simp only [BatchOrchestrator.step, hp]
  have runs : (t.step (.startRun manifest prepared cpus)).runs = t.runs + 1 := if_pos begins
  have resumedFrom : (t.step (.startRun manifest prepared cpus)).resumedFrom = t.batch.recorded := if_pos begins
  have cleanups : (t.step (.startRun manifest prepared cpus)).cleanups = t.cleanups := by
    change (if _ then _ else _) = _
    rw [batch, hc]
    cases t.batch.checkpoint <;> simp
  have same : (t.batch.startRun manifest prepared cpus).recorded = t.batch.recorded :=
    BatchOrchestrator.recorded_of_checkpoint hc
  refine ⟨⟨?_, ?_⟩, ?_⟩
  · change (t.batch.step _).Covered
    rw [batch]
    exact covered
  · change (t.batch.step _).enableCheckpoint = true → ∀ vm ∈ (t.batch.step _).phaseVms, _
    rw [batch, resumedFrom, he]
    exact fun henabled vm hm => BatchOrchestrator.remaining_fresh henabled manifest vm (vms hm)
  · refine ⟨by omega, by omega, fun h => by omega, fun _ => ?_, fun _ _ => ?_⟩
    · change _ ⊆ (t.batch.step _).recorded
      rw [batch, same]
      exact List.Subset.refl _
    · rw [resumedFrom]
      exact List.Subset.refl _

theorem other_inv {t : BatchSession} (h : t.Inv) {a : Action} (hr : t.batch.starts a = false) :
    (t.step a).Inv ∧ t.Follows (t.step a) := by
  have steps : t.batch.Steps (t.batch.step a) := by
    refine BatchOrchestrator.step_steps h.covered a fun manifest prepared cpus hp ha => ?_
    have begins := BatchOrchestrator.starts_iff.mpr ⟨hp, manifest, prepared, cpus, ha⟩
    rw [hr] at begins
    simp at begins
  have runs : (t.step a).runs = t.runs := by simp [step, hr]
  have resumedFrom : (t.step a).resumedFrom = t.resumedFrom := by simp [step, hr]
  have cleanups : t.cleanups ≤ (t.step a).cleanups := by
    dsimp only [step]
    split <;> omega
  refine ⟨⟨steps.covered, fun he vm hm => ?_⟩, ⟨cleanups, by omega, fun _ => resumedFrom, fun hsame => ?_, ?_⟩⟩
  · have active : (t.batch.step a).phase ≠ .idle := by
      intro hp
      change vm ∈ (t.batch.step a).phaseVms at hm
      simp [BatchOrchestrator.phaseVms, hp] at hm
    rw [resumedFrom]
    exact h.fresh ((steps.enabled active).symm.trans he) vm (steps.vms hm)
  · rcases steps.grows with ⟨hsome, hnone⟩ | hsub
    · have counted : (t.step a).cleanups = t.cleanups + 1 := by simp [step, hsome, hnone]
      omega
    · exact hsub
  · intro _ hlt
    omega

theorem step_inv (t : BatchSession) (a : Action) (h : t.Inv) (hs : t.Sequenced a) :
    (t.step a).Inv ∧ t.Follows (t.step a) := by
  cases hb : t.batch.starts a with
  | true =>
    obtain ⟨hp, manifest, prepared, cpus, ha⟩ := BatchOrchestrator.starts_iff.mp hb
    subst ha
    exact startRun_inv hp hs prepared cpus
  | false => exact other_inv h hb

/-- Over every sequence of runs and interruptions in which no run resumes in parallel: the ids
in the checkpoint only grow until it is cleaned up, and an id that was in it is not
processed by a later run that resumes. -/
theorem resume_keeps_work (checkpoint : Option Checkpoint) (acts : List Action)
    (h : EachStep step Sequenced (start checkpoint) acts) :
    (∀ pre mid, pre ++ mid <+: acts →
      (run step (start checkpoint) pre).cleanups = (run step (start checkpoint) (pre ++ mid)).cleanups →
        (run step (start checkpoint) pre).batch.recorded ⊆ (run step (start checkpoint) (pre ++ mid)).batch.recorded) ∧
    (∀ pre mid a vmId, pre ++ mid ++ [a] <+: acts →
      (run step (start checkpoint) pre).cleanups = (run step (start checkpoint) (pre ++ mid)).cleanups →
      (run step (start checkpoint) pre).runs < (run step (start checkpoint) (pre ++ mid)).runs →
      (run step (start checkpoint) (pre ++ mid)).batch.enableCheckpoint = true →
      (run step (start checkpoint) (pre ++ mid)).batch.processes a = some vmId →
        vmId ∉ (run step (start checkpoint) pre).batch.recorded) := by
  have follows := (onward_iff follows_refl follows_trans).mpr
    (eachStep_of_invariant (I := Inv) (H := fun t a => t.Follows (t.step a)) step_inv (start_inv checkpoint) h)
  refine ⟨fun pre mid hp he => (follows pre mid hp).grows he, ?_⟩
  intro pre mid a vmId hp hc hr he hproc
  have before : pre ++ mid <+: acts := (List.prefix_append _ _).trans hp
  obtain ⟨post, hpost⟩ := before
  rw [← hpost] at h
  have inv : (run step (start checkpoint) (pre ++ mid)).Inv :=
    invariant_of_eachStep (fun t a ht hg => (step_inv t a ht hg).1) (start_inv checkpoint) (eachStep_append.mp h).1
  obtain ⟨vm, hm, hid⟩ := BatchOrchestrator.processes_mem hproc
  intro recorded
  have named := (follows pre mid ⟨post, hpost⟩).resumed hc hr recorded
  exact inv.fresh he vm hm (hid ▸ named)

/-- A run one VM at a time is killed after its first VM and resumed. -/
theorem resume_keeps_work_killed :
    let manifest : BatchManifest :=
      { parallelLimit := 1, vms := [⟨0, "/m/a", 0, [], "a", true⟩, ⟨1, "/m/b", 0, [], "b", true⟩]
        ids_distinct := by decide }
    let converted : Conversion := ⟨.ok (), .ok [], .ok (), 1⟩
    let pre := [Action.startRun manifest true 4, .processNext converted true]
    let mid := [Action.interrupt true, .startRun manifest true 4]
    let next := Action.processNext converted true
    (run step (start none) pre).batch.recorded = ["a"] ∧
      (run step (start none) (pre ++ mid)).batch.processes next = some "b" ∧
      "b" ∉ (run step (start none) pre).batch.recorded := by
  intro manifest converted pre mid next
  have alone (b : BatchOrchestrator) : ¬ b.ResumesParallel manifest := by
    intro resumes
    exact absurd resumes.2.2.1 (by decide)
  have sequenced : EachStep step Sequenced (start none) (pre ++ mid ++ [next]) :=
    ⟨alone _, trivial, trivial, alone _, trivial, trivial⟩
  have processed : (run step (start none) (pre ++ mid)).batch.processes next = some "b" := by decide
  have keeps := (resume_keeps_work none (pre ++ mid ++ [next]) sequenced).2
  refine ⟨by decide, processed, ?_⟩
  exact keeps pre mid next "b" List.prefix_rfl (by decide) (by decide) (by decide) processed

/-- Three VMs in parallel. The first run is killed after VM a; the second resumes with the
others and its first save drops a from the checkpoint; the third processes a again. -/
theorem parallel_resume_loses_work :
    let manifest : BatchManifest :=
      { vms := [⟨0, "/m/a", 0, [], "a", true⟩, ⟨1, "/m/b", 0, [], "b", true⟩, ⟨2, "/m/c", 0, [], "c", true⟩]
        ids_distinct := by decide }
    let converted : Conversion := ⟨.ok (), .ok [], .ok (), 1⟩
    let first := [Action.startRun manifest true 4, .start 0, .finish 0 converted, .collect 0 none none]
    let again := Action.interrupt true :: first
    let third := [Action.interrupt true, .startRun manifest true 4]
    let t1 := run step (start none) first
    let t2 := run step (start none) (first ++ again)
    let t3 := run step (start none) (first ++ (again ++ third))
    t1.batch.recorded = ["a"] ∧ t2.batch.recorded = ["b"] ∧ t2.cleanups = t1.cleanups ∧
      t3.cleanups = t1.cleanups ∧ t1.runs < t3.runs ∧ t3.batch.enableCheckpoint = true ∧
      t3.batch.processes (.start 0) = some "a" ∧ ¬ t1.batch.recorded ⊆ t2.batch.recorded := by
  intro manifest converted first again third t1 t2 t3
  have before : t1.batch.recorded = ["a"] := by decide
  have after : t2.batch.recorded = ["b"] := by decide
  refine ⟨before, after, by decide, by decide, by decide, by decide, by decide, ?_⟩
  rw [before, after]
  simp

end BatchSession

end resumeSession

end H2kvm.Batch
