import H2kvm.Framework.Run
import H2kvm.Batch.Orchestrator

namespace H2kvm.Batch

open Framework

namespace Pool

/-- No VM is running, and every one that has returned has a result. -/
def Quiet (pool : Pool) : Prop :=
  ∀ j f, pool.futures[j]? = some f →
    f ≠ .running ∧ ∀ r, f = .done (.returned r) → (pool.resultsDict j).isSome = true

/-- The same of every VM but number `i`. -/
def QuietBeside (pool : Pool) (i : Nat) : Prop :=
  ∀ j f, j ≠ i → pool.futures[j]? = some f →
    f ≠ .running ∧ ∀ r, f = .done (.returned r) → (pool.resultsDict j).isSome = true

/-- Quiet, and no VM is still to start. -/
def Settled (pool : Pool) : Prop := pool.Quiet ∧ ∀ j : Nat, pool.futures[j]? ≠ some .pending

end Pool

/-- The outcome stops the batch when errors are not to be passed over. -/
def Outcome.fails : Outcome → Prop
  | .returned result => result.success = false
  | .raised _ => True
  | .aborted => True

namespace BatchOrchestrator

/-- Once `_process_vms_parallel` has returned, the results and the saved checkpoint hold, in the
order of the VMs and for each VM at most once, every outcome a VM returned. -/
def Accounted (b : BatchOrchestrator) : Prop :=
  ∀ pool, b.phase = .parallel pool → pool.main = .returned →
    ∃ entries : List (Nat × VMConversionResult),
      entries.Pairwise (fun x y => x.1 < y.1) ∧ b.results = entries.map Prod.snd ∧
      (∀ i r, pool.futures[i]? = some (.done (.returned r)) → (i, r) ∈ entries) ∧
      (b.enableCheckpoint = true → (∃ (i : Nat) (r : VMConversionResult), pool.futures[i]? = some (.done (.returned r))) →
        ∃ batchId totalVms, b.checkpoint = some (.ofResults batchId totalVms b.results))

/-- The save of a returned result succeeds; with `continue_on_error` off, the VM that stops the
batch finds no other running or returned and not yet collected, and none starts while the
rest are cancelled. -/
def Undisturbed (b : BatchOrchestrator) : Action → Prop
  | .start _ => ∀ pool k, b.phase = .parallel pool → pool.main ≠ .cancelling k
  | .collect i first _ => ∀ pool outcome, b.phase = .parallel pool → pool.futures[i]? = some (.done outcome) →
      (∀ result, outcome = .returned result → b.enableCheckpoint = true → first = none) ∧
      (b.continueOnError = false → outcome.fails → pool.QuietBeside i)
  | _ => True

/-- What the point of the main thread says about the pool. -/
def AtPoint (b : BatchOrchestrator) (pool : Pool) : Prop :=
  match pool.main with
  | .iterating => True
  | .cancelling k => pool.Quiet ∧ ∀ j < k, pool.futures[j]? ≠ some .pending
  | .draining => pool.Settled
  | .raising => True
  | .returned => pool.Settled ∧ b.results = pool.ordered

/-- The dictionary holds outcomes of ended VMs, as they returned them, and the checkpoint what
the dictionary holds. -/
structure Kept (b : BatchOrchestrator) (pool : Pool) : Prop where
  sized : pool.futures.length = pool.vms.length
  agrees : ∀ i r r', pool.futures[i]? = some (.done (.returned r)) → pool.resultsDict i = some r' → r' = r
  collected : ∀ i r, pool.resultsDict i = some r → ∃ o, pool.futures[i]? = some (.done o)
  saved : b.enableCheckpoint = true → (∃ i r, pool.resultsDict i = some r) →
    ∃ batchId totalVms, b.checkpoint = some (.ofResults batchId totalVms pool.ordered)
  at_point : b.AtPoint pool

/-- A pool on its way to a return is kept. -/
def Inv (b : BatchOrchestrator) : Prop := ∀ pool, b.phase = .parallel pool → pool.main ≠ .raising → b.Kept pool

theorem inv_of_not_parallel {b : BatchOrchestrator} (h : ∀ pool, b.phase ≠ .parallel pool) : b.Inv :=
  fun pool hp => absurd hp (h pool)

theorem inv_of_idle {b : BatchOrchestrator} (h : b.phase = .idle) : b.Inv :=
  inv_of_not_parallel (by simp [h])

theorem inv_parallel {b : BatchOrchestrator} {pool : Pool} (h : pool.main ≠ .raising → b.Kept pool) :
    Inv { b with phase := .parallel pool } := by
  intro pool' hp hr
  obtain rfl := Phase.parallel.inj hp
  have kept := h hr
  exact ⟨kept.sized, kept.agrees, kept.collected, kept.saved, kept.at_point⟩

theorem kept_new (b : BatchOrchestrator) (vms : List VMBatchItem) (workers : Nat) : b.Kept (.new vms workers) where
  sized := by simp [Pool.new]
  agrees := by simp [Pool.new]
  collected := by simp [Pool.new]
  saved := by simp [Pool.new]
  at_point := trivial

/-- The entries of a returned pool: its dictionary in the order of the keys. -/
def entries (pool : Pool) : List (Nat × VMConversionResult) :=
  (List.range pool.vms.length).filterMap fun i => (pool.resultsDict i).map fun r => (i, r)

theorem entries_results (pool : Pool) : (entries pool).map Prod.snd = pool.ordered := by
  unfold entries Pool.ordered
  rw [List.map_filterMap]
  congr 1
  funext i
  cases pool.resultsDict i <;> rfl

theorem entries_increasing (pool : Pool) : (entries pool).Pairwise (fun x y => x.1 < y.1) := by
  unfold entries
  rw [List.pairwise_filterMap]
  refine List.pairwise_lt_range.imp fun {i j} hij => ?_
  intro x hx y hy
  obtain ⟨r, -, rfl⟩ := Option.map_eq_some_iff.mp hx
  obtain ⟨r', -, rfl⟩ := Option.map_eq_some_iff.mp hy
  exact hij

theorem Inv.accounted {b : BatchOrchestrator} (h : b.Inv) : b.Accounted := by
  intro pool hp hm
  have kept := h pool hp (by simp [hm])
  have point := kept.at_point
  simp only [AtPoint, hm] at point
  obtain ⟨⟨quiet, -⟩, results⟩ := point
  have held (i : Nat) (r : VMConversionResult) (hf : pool.futures[i]? = some (.done (.returned r))) :
      pool.resultsDict i = some r := by
    have some := (quiet i _ hf).2 _ rfl
    obtain ⟨r', hr'⟩ := Option.isSome_iff_exists.mp some
    rw [hr', kept.agrees i r r' hf hr']
  refine ⟨entries pool, entries_increasing pool, by rw [entries_results, results], fun i r hf => ?_, fun he hex => ?_⟩
  · have inside : i < pool.vms.length := by
      rw [← kept.sized]
      exact (List.getElem?_eq_some_iff.mp hf).1
    refine List.mem_filterMap.mpr ⟨i, List.mem_range.mpr inside, ?_⟩
    rw [held i r hf]
    rfl
  · obtain ⟨i, r, hf⟩ := hex
    rw [results]
    exact kept.saved he ⟨i, r, held i r hf⟩

theorem start_kept {b : BatchOrchestrator} {pool : Pool} (h : b.Kept pool) {i : Nat}
    (hi : pool.futures[i]? = some .pending) (hk : ∀ k, pool.main ≠ .cancelling k) :
    b.Kept { pool with futures := pool.futures.set i .running } := by
  have read (j : Nat) (o : Outcome) (hj : (pool.futures.set i .running)[j]? = some (.done o)) :
      pool.futures[j]? = some (.done o) := by
    rw [List.getElem?_set] at hj
    split at hj
    · split at hj <;> simp at hj
    · exact hj
  refine ⟨by simp [h.sized], fun j r r' hj hr => h.agrees j r r' (read j _ hj) hr, fun j r hr => ?_, h.saved, ?_⟩
  · obtain ⟨o, ho⟩ := h.collected j r hr
    refine ⟨o, ?_⟩
    have other : i ≠ j := by
      intro hij
      rw [← hij, hi] at ho
      simp at ho
    rw [← ho]
    exact List.getElem?_set_ne other
  · have point := h.at_point
    unfold AtPoint at point ⊢
    cases hm : pool.main with
    | iterating => trivial
    | raising => trivial
    | cancelling k => exact absurd hm (hk k)
    | draining =>
      rw [hm] at point
      exact absurd hi (point.2 i)
    | returned =>
      rw [hm] at point
      exact absurd hi (point.1.2 i)

theorem finish_kept {b : BatchOrchestrator} {pool : Pool} (h : b.Kept pool) {i : Nat}
    (hi : pool.futures[i]? = some .running) (outcome : Outcome) :
    b.Kept { pool with futures := pool.futures.set i (.done outcome) } := by
  have fresh : pool.resultsDict i = none := by
    cases hd : pool.resultsDict i with
    | none => rfl
    | some r =>
      obtain ⟨o, ho⟩ := h.collected i r hd
      rw [hi] at ho
      simp at ho
  have other (j : Nat) (hj : i ≠ j) : (pool.futures.set i (.done outcome))[j]? = pool.futures[j]? :=
    List.getElem?_set_ne hj
  have apart (j : Nat) (r : VMConversionResult) (hr : pool.resultsDict j = some r) : i ≠ j := by
    intro hij
    rw [← hij, fresh] at hr
    simp at hr
  refine ⟨by simp [h.sized], fun j r r' hj hr => ?_, fun j r hr => ?_, h.saved, ?_⟩
  · rw [other j (apart j r' hr)] at hj
    exact h.agrees j r r' hj hr
  · obtain ⟨o, ho⟩ := h.collected j r hr
    exact ⟨o, (other j (apart j r hr)).trans ho⟩
  · have point := h.at_point
    unfold AtPoint at point ⊢
    cases hm : pool.main with
    | iterating => trivial
    | raising => trivial
    | cancelling k =>
      rw [hm] at point
      exact absurd rfl (point.1 i _ hi).1
    | draining =>
      rw [hm] at point
      exact absurd rfl (point.1 i _ hi).1
    | returned =>
      rw [hm] at point
      exact absurd rfl (point.1.1 i _ hi).1

theorem loopEnd_kept {b : BatchOrchestrator} {pool : Pool} (h : b.Kept pool) (he : pool.exhausted = true) :
    b.Kept { pool with main := .draining } := by
  refine ⟨h.sized, h.agrees, h.collected, h.saved, ?_⟩
  have ended (j : Nat) (f : Future) (hf : pool.futures[j]? = some f) :
      (pool.resultsDict j).isSome = true ∧ ∃ o, f = .done o := by
    have inside : j < pool.vms.length := by
      rw [← h.sized]
      exact (List.getElem?_eq_some_iff.mp hf).1
    have some := List.all_eq_true.mp he j (List.mem_range.mpr inside)
    obtain ⟨r, hr⟩ := Option.isSome_iff_exists.mp some
    obtain ⟨o, ho⟩ := h.collected j r hr
    exact ⟨some, o, Option.some.inj (hf.symm.trans ho)⟩
  refine ⟨fun j f hf => ?_, fun j hj => ?_⟩
  · obtain ⟨some, o, ho⟩ := ended j f hf
    exact ⟨by simp [ho], fun _ _ => some⟩
  · obtain ⟨-, o, ho⟩ := ended j _ hj
    simp at ho

/-- One `cancel` after the other leaves no VM pending. -/
theorem cancelNext_kept {b : BatchOrchestrator} {pool : Pool} (h : b.Kept pool) {k : Nat}
    (hm : pool.main = .cancelling k) : b.Kept (cancelNext pool k) := by
  have point := h.at_point
  simp only [AtPoint, hm] at point
  obtain ⟨quiet, gone⟩ := point
  unfold cancelNext
  split
  · have read (j : Nat) : (pool.futures.modify k fun f => if f = .pending then .cancelled else f)[j]? =
        (pool.futures[j]?).map fun f => if k = j ∧ f = .pending then .cancelled else f := by
      rw [List.getElem?_modify]
      by_cases hkj : k = j <;> simp [hkj]
    have ended (j : Nat) (o : Outcome) :
        (pool.futures.modify k fun f => if f = .pending then .cancelled else f)[j]? = some (.done o) ↔
          pool.futures[j]? = some (.done o) := by
      rw [read]
      cases pool.futures[j]? with
      | none => simp
      | some f => by_cases hf : k = j ∧ f = .pending <;> simp [hf]
    refine ⟨by simp [h.sized], fun j r r' hj hr => h.agrees j r r' ((ended j _).mp hj) hr, fun j r hr => ?_,
      h.saved, ?_, fun j hj => ?_⟩
    · obtain ⟨o, ho⟩ := h.collected j r hr
      exact ⟨o, (ended j o).mpr ho⟩
    · intro j f hf
      refine ⟨fun hrun => ?_, fun r hr => ?_⟩
      · rw [hrun, read] at hf
        obtain ⟨f', hf', he⟩ := Option.map_eq_some_iff.mp hf
        split at he
        · simp at he
        · exact (quiet j f' hf').1 he
      · rw [hr] at hf
        exact (quiet j _ ((ended j _).mp hf)).2 r rfl
    · intro hpend
      rw [read] at hpend
      obtain ⟨f', hf', he⟩ := Option.map_eq_some_iff.mp hpend
      split at he
      · simp at he
      · rename_i hne
        rw [he] at hf' hne
        have before : j < k := by
          have : k ≠ j := fun hkj => hne ⟨hkj, rfl⟩
          omega
        exact gone j before hf'
  · refine ⟨h.sized, h.agrees, h.collected, h.saved, quiet, fun j hj => ?_⟩
    have inside : j < pool.futures.length := (List.getElem?_eq_some_iff.mp hj).1
    exact gone j (by omega) hj

/-- A result recorded as the VM returned it, or for a VM that raised, with its save done. -/
theorem record_kept {b : BatchOrchestrator} {pool : Pool} (h : b.Kept pool) {i : Nat} {outcome : Outcome}
    (hm : pool.main = .iterating) (hi : pool.futures[i]? = some (.done outcome)) (result : VMConversionResult)
    (hr : ∀ r, outcome = .returned r → result = r) (error : Option String) (hs : b.raisedBySave error = none) :
    (b.record pool i result error).1.Kept (b.record pool i result error).2 := by
  rw [record_pool]
  refine ⟨h.sized, fun j r r' hj hd => ?_, fun j r hd => ?_, fun he _ => ?_, ?_⟩
  · by_cases hji : j = i
    · subst hji
      have same : Function.update pool.resultsDict j (some result) j = some result := Function.update_self _ _ _
      rw [hi] at hj
      have returned : outcome = .returned r := Future.done.inj (Option.some.inj hj)
      rw [← hr r returned]
      exact Option.some.inj (hd.symm.trans same)
    · exact h.agrees j r r' hj ((Function.update_of_ne hji _ _).symm.trans hd)
  · by_cases hji : j = i
    · subst hji
      exact ⟨outcome, hi⟩
    · exact h.collected j r ((Function.update_of_ne hji _ _).symm.trans hd)
  · have enabled : b.enableCheckpoint = true := (record_enabled b pool i result error).symm.trans he
    have done : error = none := by simpa [raisedBySave, enabled] using hs
    subst done
    refine ⟨b.batchId, (getVms b.loaderVms).length, ?_⟩
    simp only [record, enabled, if_true]
    rfl
  · unfold AtPoint
    simp only [hm]

theorem stop_kept {b : BatchOrchestrator} {pool : Pool} (h : b.Kept pool) (quiet : pool.Quiet) :
    b.Kept { pool with main := .cancelling 0 } :=
  ⟨h.sized, h.agrees, h.collected, h.saved, quiet, fun j hj => absurd hj (Nat.not_lt_zero j)⟩

/-- Where the other VMs are quiet, all are once number `i` has its result. -/
theorem record_quiet {b : BatchOrchestrator} {pool : Pool} {i : Nat} {outcome : Outcome}
    (hi : pool.futures[i]? = some (.done outcome)) (others : pool.QuietBeside i)
    (result : VMConversionResult) (error : Option String) : (b.record pool i result error).2.Quiet := by
  rw [record_pool]
  intro j f hf
  by_cases hji : j = i
  · subst hji
    have ended : f = .done outcome := Option.some.inj (hf.symm.trans hi)
    refine ⟨by simp [ended], fun _ _ => ?_⟩
    simp
  · refine ⟨(others j f hji hf).1, fun r hr => ?_⟩
    have kept : Function.update pool.resultsDict i (some result) j = pool.resultsDict j :=
      Function.update_of_ne hji _ _
    change (Function.update pool.resultsDict i (some result) j).isSome = true
    rw [kept]
    exact (others j f hji hf).2 r hr

theorem collectException_inv {b : BatchOrchestrator} {pool : Pool} (h : b.Kept pool) {i : Nat} {message : String}
    (hm : pool.main = .iterating) (hi : pool.futures[i]? = some (.done (.raised message)))
    (others : b.continueOnError = false → pool.QuietBeside i) (vm : VMBatchItem) (second : Option String) :
    (b.collectException pool i vm message second).Inv := by
  unfold collectException
  dsimp only
  split
  · exact inv_parallel fun hr => absurd rfl hr
  · rename_i hs
    have saved : b.raisedBySave second = none := by
      have same : (b.record pool i (Pool.failure vm message) second).1.raisedBySave second = b.raisedBySave second := by
        simp only [raisedBySave, record_enabled]
      rw [← same]
      simpa using hs
    have kept := record_kept h hm hi (Pool.failure vm message) (by simp) second saved
    split
    · rename_i stops
      rw [record_continueOnError] at stops
      exact inv_parallel fun _ => stop_kept kept (record_quiet hi (others (by simpa using stops)) _ _)
    · exact inv_parallel fun _ => kept

theorem collect_inv {b : BatchOrchestrator} {pool : Pool} (h : b.Kept pool) (hp : b.phase = .parallel pool)
    {i : Nat} {outcome : Outcome} (hm : pool.main = .iterating) (hi : pool.futures[i]? = some (.done outcome))
    {first second : Option String} (hg : b.Undisturbed (.collect i first second)) (vm : VMBatchItem) :
    (b.collect pool i vm outcome first second).Inv := by
  obtain ⟨saves, others⟩ := hg pool outcome hp hi
  cases outcome with
  | raised message => exact collectException_inv h hm hi (fun hc => others hc trivial) vm second
  | aborted => exact inv_parallel fun hr => absurd rfl hr
  | returned result =>
    have saved : b.raisedBySave first = none := by
      unfold raisedBySave
      split
      · rename_i he
        exact saves result rfl he
      · rfl
    have saved' : (b.record pool i result first).1.raisedBySave first = none := by
      simpa only [raisedBySave, record_enabled] using saved
    have kept := record_kept h hm hi result (fun r hr => Outcome.returned.inj hr) first saved
    unfold collect
    dsimp only
    rw [saved']
    dsimp only
    split
    · rename_i stops
      rw [record_continueOnError, Bool.and_eq_true, Bool.not_eq_true', Bool.not_eq_true'] at stops
      exact inv_parallel fun _ => stop_kept kept (record_quiet hi (others stops.2 stops.1) _ _)
    · exact inv_parallel fun _ => kept

theorem poolStep_inv {b : BatchOrchestrator} {pool : Pool} (h : b.Inv) (hp : b.phase = .parallel pool) (a : Action)
    (hg : b.Undisturbed a) : (b.poolStep pool a).Inv := by
  cases a with
  | newOrchestrator enable => exact h
  | startRun manifest prepared cpus => exact h
  | processNext c saved => exact h
  | start i =>
    dsimp only [poolStep]
    split
    · rename_i hs
      simp only [Pool.startable, Bool.and_eq_true, decide_eq_true_eq] at hs
      exact inv_parallel fun hr => start_kept (h pool hp hr) hs.1.1 fun k => hg pool k hp
    · exact h
  | finish i c =>
    dsimp only [poolStep]
    split
    · rename_i vm hi hv
      exact inv_parallel fun hr => finish_kept (h pool hp hr) hi _
    · exact h
  | collect i first second =>
    dsimp only [poolStep]
    split
    · rename_i outcome vm hm hi hv hd
      exact collect_inv (h pool hp (by simp [hm])) hp hm hi hg vm
    · exact h
  | loopEnd =>
    dsimp only [poolStep]
    split
    · rename_i hs
      simp only [Bool.and_eq_true, decide_eq_true_eq] at hs
      exact inv_parallel fun _ => loopEnd_kept (h pool hp (by simp [hs.1])) hs.2
    · exact h
  | cancelNext =>
    dsimp only [poolStep]
    split
    · rename_i k hm
      exact inv_parallel fun _ => cancelNext_kept (h pool hp (by simp [hm])) hm
    · exact h
  | leave =>
    dsimp only [poolStep]
    split
    · rename_i hm hidle
      have kept := h pool hp (by simp [hm])
      have point := kept.at_point
      simp only [AtPoint, hm] at point
      let b' : BatchOrchestrator := { b with results := pool.ordered }
      have ended : b'.Kept { pool with main := .returned } :=
        ⟨kept.sized, kept.agrees, kept.collected, kept.saved, point, rfl⟩
      exact inv_parallel fun _ => ended
    · exact inv_of_idle rfl
    · exact h
  | complete reported removed =>
    dsimp only [poolStep]
    split
    · refine inv_of_idle ?_
      unfold complete
      dsimp only
      split <;> rfl
    · exact h
  | interrupt killed =>
    change (b.interrupt killed).Inv
    unfold interrupt
    cases killed with
    | true => exact inv_of_idle rfl
    | false =>
      rw [hp]
      exact inv_parallel fun hr => absurd rfl hr

theorem processVmsParallel_inv (b : BatchOrchestrator) (vms : List VMBatchItem) (parallelLimit cpus : Nat) :
    (b.processVmsParallel vms parallelLimit cpus).Inv := by
  unfold processVmsParallel
  dsimp only
  split
  · exact inv_of_idle rfl
  · exact inv_parallel fun _ => kept_new b vms _

theorem startRun_inv {b : BatchOrchestrator} (hp : b.phase = .idle) (manifest : BatchManifest) (prepared : Bool)
    (cpus : Nat) : (b.startRun manifest prepared cpus).Inv := by
  have restored : (b.load manifest).restorePreviousResults.phase = .idle := by
    unfold restorePreviousResults
    split <;> exact hp
  unfold startRun
  dsimp only
  split
  · exact inv_of_idle hp
  split
  · exact inv_of_idle hp
  split
  · exact inv_of_idle restored
  split
  · exact processVmsParallel_inv _ _ _ _
  · exact inv_of_not_parallel (by simp)

theorem processNext_inv (b : BatchOrchestrator) (vm : VMBatchItem) (rest : List VMBatchItem) (c : Conversion)
    (saved : Bool) : (b.processNext vm rest c saved).Inv := by
  unfold processNext
  cases processSingleVm vm c with
  | raised message => exact inv_of_idle rfl
  | aborted => exact inv_of_idle rfl
  | returned result =>
    dsimp only
    split
    · exact inv_of_idle rfl
    · split
      · split <;> exact inv_of_not_parallel (by simp)
      · split <;> exact inv_of_not_parallel (by simp)

theorem step_inv (b : BatchOrchestrator) (a : Action) (h : b.Inv) (hg : b.Undisturbed a) : (b.step a).Inv := by
  unfold step
  cases hp : b.phase with
  | idle =>
    cases a with
    | newOrchestrator enable => exact inv_of_idle rfl
    | startRun manifest prepared cpus => exact startRun_inv hp manifest prepared cpus
    | _ => exact h
  | sequential todo =>
    dsimp only
    split
    · exact processNext_inv b _ _ _ _
    · refine inv_of_idle ?_
      unfold complete
      dsimp only
      split <;> rfl
    · unfold interrupt
      rw [hp]
      split
      · exact inv_of_idle rfl
      · exact inv_of_idle rfl
    · exact h
  | parallel pool => exact poolStep_inv h hp a hg

/-- Over every schedule of the pool: when `_process_vms_parallel` returns, each VM that ran to
its return has its outcome in the results and in the checkpoint, once, if nothing disturbed
the collection. -/
theorem parallel_accounts (b : BatchOrchestrator) (vms : List VMBatchItem) (parallelLimit cpus : Nat)
    (acts : List Action) (h : EachStep step Undisturbed (b.processVmsParallel vms parallelLimit cpus) acts) :
    ∀ pre, pre <+: acts → (run step (b.processVmsParallel vms parallelLimit cpus) pre).Accounted := by
  intro pre hp
  obtain ⟨post, rfl⟩ := hp
  exact (invariant_of_eachStep step_inv (processVmsParallel_inv b vms parallelLimit cpus)
    (eachStep_append.mp h).1).accounted

/-- Two VMs end in the other order than they started, the second with an error that is passed
over. -/
theorem parallel_accounts_two :
    let vms : List VMBatchItem := [⟨0, "/m/a", 0, [], "a", true⟩, ⟨1, "/m/b", 0, [], "b", true⟩]
    let converted : Conversion := ⟨.ok (), .ok [], .ok (), 1⟩
    let failed : Conversion := ⟨.ok (), .error ⟨"RuntimeError", "disk", false⟩, .ok (), 1⟩
    let b0 := (BatchOrchestrator.init none).processVmsParallel vms 2 4
    let acts := [Action.start 0, .start 1, .finish 1 failed, .collect 1 none none, .finish 0 converted,
      .collect 0 none none, .loopEnd, .leave]
    let b := run step b0 acts
    b.results.map (fun r => (r.vmId, r.success)) = [("a", true), ("b", false)] ∧ b.Accounted := by
  intro vms converted failed b0 acts b
  have saves (s : BatchOrchestrator) (i : Nat) (hc : s.continueOnError = true) :
      s.Undisturbed (.collect i none none) := by
    intro pool outcome _ _
    exact ⟨fun _ _ _ => rfl, fun hf => by simp [hc] at hf⟩
  have free (s : BatchOrchestrator) (i : Nat) (hm : ∀ pool, s.phase = .parallel pool → pool.main = .iterating) :
      s.Undisturbed (.start i) := by
    intro pool k hp
    simp [hm pool hp]
  refine ⟨by decide, parallel_accounts _ vms 2 4 acts ?_ acts List.prefix_rfl⟩
  refine ⟨free _ 0 ?_, free _ 1 ?_, trivial, saves _ 1 (by decide), trivial, saves _ 0 (by decide), trivial, trivial,
    trivial⟩
  · intro pool hp
    cases hp
    rfl
  · intro pool hp
    cases hp
    rfl

/-- With `continue_on_error` off, the first VM fails while the second still runs: the executor
waits for it, and its result is nowhere. -/
theorem parallel_drops_running :
    let vms : List VMBatchItem := [⟨0, "/m/a", 0, [], "a", true⟩, ⟨1, "/m/b", 0, [], "b", true⟩]
    let converted : Conversion := ⟨.ok (), .ok [], .ok (), 1⟩
    let failed : Conversion := ⟨.ok (), .error ⟨"RuntimeError", "disk", false⟩, .ok (), 1⟩
    let b0 := ({ BatchOrchestrator.init none with continueOnError := false } : BatchOrchestrator).processVmsParallel vms 2 4
    let acts := [Action.start 0, .start 1, .finish 0 failed, .collect 0 none none, .cancelNext, .cancelNext,
      .cancelNext, .finish 1 converted, .leave]
    let b := run step b0 acts
    b.results.map VMConversionResult.vmId = ["a"] ∧ ¬ b.Accounted := by
  intro vms converted failed b0 acts b
  have results : b.results.map VMConversionResult.vmId = ["a"] := by decide
  refine ⟨results, fun accounted => ?_⟩
  obtain ⟨pool, hp⟩ : ∃ pool, b.phase = .parallel pool := ⟨_, rfl⟩
  have main : pool.main = .returned := by
    cases hp
    rfl
  have ran : pool.futures[1]? = some (.done (.returned ⟨⟨1, "/m/b", 0, [], "b", true⟩, true, 1, none, []⟩)) := by
    cases hp
    rfl
  obtain ⟨entries, -, hres, held, -⟩ := accounted pool hp main
  have listed : "b" ∈ b.results.map VMConversionResult.vmId := by
    rw [hres]
    exact List.mem_map.mpr ⟨_, List.mem_map.mpr ⟨_, held 1 _ ran, rfl⟩, rfl⟩
  rw [results] at listed
  simp at listed

end BatchOrchestrator

end H2kvm.Batch
