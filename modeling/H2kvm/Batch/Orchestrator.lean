import Mathlib.Logic.Function.Basic
import H2kvm.Batch.Checkpoint

namespace H2kvm.Batch

open Framework

/-- A future of the thread pool. -/
inductive Future where
  | pending
  | running
  | done (outcome : Outcome)
  | cancelled
  deriving DecidableEq

/-- Where the main thread stands in `_process_vms_parallel`: in the loop over
`as_completed`, calling `cancel` on the futures in turn, in the exit of the executor, in
that exit with an exception on its way, or at the end. -/
inductive MainPoint where
  | iterating
  | cancelling (k : Nat)
  | draining
  | raising
  | returned
  deriving DecidableEq

/-- A call of `_process_vms_parallel`. The index of a future is that of its VM. -/
structure Pool where
  vms : List VMBatchItem
  maxWorkers : Nat
  futures : List Future
  resultsDict : Nat → Option VMConversionResult
  main : MainPoint

namespace Pool

/-- The call after it has submitted every VM. -/
def new (vms : List VMBatchItem) (maxWorkers : Nat) : Pool :=
  ⟨vms, maxWorkers, vms.map fun _ => .pending, fun _ => none, .iterating⟩

/-- `[results_dict[i] for i in sorted(results_dict.keys())]`. -/
def ordered (pool : Pool) : List VMConversionResult := (List.range pool.vms.length).filterMap pool.resultsDict

/-- A worker is free and `i` is next in the queue of the executor. -/
def startable (pool : Pool) (i : Nat) : Bool :=
  pool.futures[i]? = some .pending && (pool.futures.take i).all (· ≠ .pending) &&
    pool.futures.count .running < pool.maxWorkers

/-- No future is still to come. -/
def idle (pool : Pool) : Bool := pool.futures.all fun f => f ≠ .pending && f ≠ .running

/-- Every future has come out of `as_completed`. -/
def exhausted (pool : Pool) : Bool := (List.range pool.vms.length).all fun i => (pool.resultsDict i).isSome

/-- The result an exception is recorded as. -/
def failure (vm : VMBatchItem) (message : String) : VMConversionResult :=
  { vmItem := vm, success := false, duration := 0, error := some message }

end Pool

/-- Where a call of `run` stands. -/
inductive Phase where
  | idle
  | sequential (todo : List VMBatchItem)
  | parallel (pool : Pool)

/-- `BatchOrchestrator` and the checkpoint file of its batch. -/
structure BatchOrchestrator where
  checkpoint : Option Checkpoint
  enableCheckpoint : Bool
  loaderVms : List VMBatchItem
  results : List VMConversionResult
  batchId : String
  continueOnError : Bool
  phase : Phase

namespace BatchOrchestrator

/-- Nothing run yet, with the checkpoint an earlier process left. -/
def init (checkpoint : Option Checkpoint) : BatchOrchestrator := ⟨checkpoint, true, [], [], "", true, .idle⟩

/-- `BatchOrchestrator(path, enable_checkpoint)`. -/
def newOrchestrator (b : BatchOrchestrator) (enableCheckpoint : Bool) : BatchOrchestrator :=
  { b with enableCheckpoint, loaderVms := [], results := [], phase := .idle }

/-- `_save_checkpoint_state`, when `save_checkpoint` succeeds. A failed one leaves the old
file, for the new one is written beside it. -/
def saveCheckpointState (b : BatchOrchestrator) : BatchOrchestrator :=
  { b with checkpoint := some (.ofResults b.batchId (getVms b.loaderVms).length b.results) }

/-- The VMs left after those the checkpoint names have been filtered out. -/
def remaining (b : BatchOrchestrator) (manifest : BatchManifest) : List VMBatchItem :=
  let vms := getVms (b.loaderVms ++ manifest.vms)
  match b.enableCheckpoint, b.checkpoint with
  | true, some cp => vms.filter fun vm => !cp.shouldSkipVm vm.id
  | _, _ => vms

/-- `_process_vms_parallel` up to its loop; an executor without workers is a `ValueError`. -/
def processVmsParallel (b : BatchOrchestrator) (vms : List VMBatchItem) (parallelLimit cpus : Nat) :
    BatchOrchestrator :=
  let maxWorkers := min (min parallelLimit vms.length) cpus
  if maxWorkers = 0 then { b with phase := .idle } else { b with phase := .parallel (.new vms maxWorkers) }

/-- `loader.load` and the settings `run` takes from the manifest. -/
def load (b : BatchOrchestrator) (manifest : BatchManifest) : BatchOrchestrator :=
  { b with loaderVms := b.loaderVms ++ manifest.vms, batchId := manifest.batchId
           continueOnError := manifest.continueOnError }

/-- `_restore_previous_results`, where there is a checkpoint to resume from. -/
def restorePreviousResults (b : BatchOrchestrator) : BatchOrchestrator :=
  match b.enableCheckpoint, b.checkpoint with
  | true, some cp => { b with results := b.results ++ cp.restoredResults }
  | _, _ => b

/-- `run` up to the processing of the VMs. `prepared` says that the checkpoint could be
read; where it could not, `run` raises. -/
def startRun (b : BatchOrchestrator) (manifest : BatchManifest) (prepared : Bool) (cpus : Nat) : BatchOrchestrator :=
  let loaded := b.load manifest
  if getVms loaded.loaderVms = [] then loaded
  else if loaded.enableCheckpoint && !prepared then loaded
  else
    let restored := loaded.restorePreviousResults
    let vms := b.remaining manifest
    if vms = [] then restored
    else if 1 < manifest.parallelLimit ∧ 1 < vms.length then
      restored.processVmsParallel vms manifest.parallelLimit cpus
    else { restored with phase := .sequential vms }

/-- One turn of the loop of `_process_vms_sequential`. -/
def processNext (b : BatchOrchestrator) (vm : VMBatchItem) (rest : List VMBatchItem) (c : Conversion)
    (saved : Bool) : BatchOrchestrator :=
  match processSingleVm vm c with
  | .returned result =>
    let b := { b with results := b.results ++ [result] }
    if b.enableCheckpoint && !saved then { b with phase := .idle }
    else
      let b := if b.enableCheckpoint then b.saveCheckpointState else b
      if !result.success && !b.continueOnError then { b with phase := .sequential [] }
      else { b with phase := .sequential rest }
  | .raised _ => { b with phase := .idle }
  | .aborted => { b with phase := .idle }

/-- `results_dict[idx] = result` and, with checkpoints on, the results in order and the save.
`error` is the text of the exception the save raised, if it did. -/
def record (b : BatchOrchestrator) (pool : Pool) (i : Nat) (result : VMConversionResult) (error : Option String) :
    BatchOrchestrator × Pool :=
  let pool := { pool with resultsDict := Function.update pool.resultsDict i (some result) }
  if b.enableCheckpoint then
    let b := { b with results := pool.ordered }
    match error with
    | none => (b.saveCheckpointState, pool)
    | some _ => (b, pool)
  else (b, pool)

/-- The exception a save raises; without checkpoints there is no save. -/
def raisedBySave (b : BatchOrchestrator) (error : Option String) : Option String :=
  if b.enableCheckpoint then error else none

/-- The `except` block of the loop. -/
def collectException (b : BatchOrchestrator) (pool : Pool) (i : Nat) (vm : VMBatchItem) (message : String)
    (second : Option String) : BatchOrchestrator :=
  let (b, pool) := b.record pool i (Pool.failure vm message) second
  if (b.raisedBySave second).isSome then { b with phase := .parallel { pool with main := .raising } }
  else if !b.continueOnError then { b with phase := .parallel { pool with main := .cancelling 0 } }
  else { b with phase := .parallel pool }

/-- One turn of the loop over `as_completed`, for the finished future `i`. -/
def collect (b : BatchOrchestrator) (pool : Pool) (i : Nat) (vm : VMBatchItem) (outcome : Outcome)
    (first second : Option String) : BatchOrchestrator :=
  match outcome with
  | .returned result =>
    let (b, pool) := b.record pool i result first
    match b.raisedBySave first with
    | some error => b.collectException pool i vm error second
    | none =>
      if !result.success && !b.continueOnError then { b with phase := .parallel { pool with main := .cancelling 0 } }
      else { b with phase := .parallel pool }
  | .raised message => b.collectException pool i vm message second
  | .aborted => { b with phase := .parallel { pool with main := .raising } }

/-- The next `f.cancel()` of the loop over the futures; it does nothing to one that has
started. -/
def cancelNext (pool : Pool) (k : Nat) : Pool :=
  if k < pool.futures.length then
    { pool with futures := pool.futures.modify k fun f => if f = .pending then .cancelled else f
                main := .cancelling (k + 1) }
  else { pool with main := .draining }

/-- The end of `run`: the report, and the checkpoint removed if nothing failed. -/
def complete (b : BatchOrchestrator) (reported removed : Bool) : BatchOrchestrator :=
  let failedCount := (b.results.filter fun r => !r.success).length
  if reported && b.enableCheckpoint && failedCount = 0 && removed then
    { b with checkpoint := none, phase := .idle }
  else { b with phase := .idle }

/-- A signal ends the process, or is raised as an exception in the main thread. -/
def interrupt (b : BatchOrchestrator) (killed : Bool) : BatchOrchestrator :=
  if killed then b.newOrchestrator b.enableCheckpoint
  else
    match b.phase with
    | .parallel pool => { b with phase := .parallel { pool with main := .raising } }
    | _ => { b with phase := .idle }

/-- A step of the program that drives the batch, of the main thread in `run`, of a worker
thread, or an interruption. -/
inductive Action where
  | newOrchestrator (enableCheckpoint : Bool)
  | startRun (manifest : BatchManifest) (prepared : Bool) (cpus : Nat)
  | processNext (c : Conversion) (saved : Bool)
  | start (i : Nat)
  | finish (i : Nat) (c : Conversion)
  | collect (i : Nat) (first second : Option String)
  | loopEnd
  | cancelNext
  | leave
  | complete (reported removed : Bool)
  | interrupt (killed : Bool)

/-- A step of a running pool. -/
def poolStep (b : BatchOrchestrator) (pool : Pool) : Action → BatchOrchestrator
  | .start i =>
    if pool.startable i then { b with phase := .parallel { pool with futures := pool.futures.set i .running } } else b
  | .finish i c =>
    match pool.futures[i]?, pool.vms[i]? with
    | some .running, some vm =>
      { b with phase := .parallel { pool with futures := pool.futures.set i (.done (processSingleVm vm c)) } }
    | _, _ => b
  | .collect i first second =>
    match pool.main, pool.futures[i]?, pool.vms[i]?, pool.resultsDict i with
    | .iterating, some (.done outcome), some vm, none => b.collect pool i vm outcome first second
    | _, _, _, _ => b
  | .loopEnd =>
    if pool.main = .iterating && pool.exhausted then { b with phase := .parallel { pool with main := .draining } } else b
  | .cancelNext =>
    match pool.main with
    | .cancelling k => { b with phase := .parallel (cancelNext pool k) }
    | _ => b
  | .leave =>
    match pool.main, pool.idle with
    | .draining, true => { b with results := pool.ordered, phase := .parallel { pool with main := .returned } }
    | .raising, true => { b with phase := .idle }
    | _, _ => b
  | .complete reported removed => if pool.main = .returned then b.complete reported removed else b
  | .interrupt killed => b.interrupt killed
  | .newOrchestrator _ => b
  | .startRun _ _ _ => b
  | .processNext _ _ => b

def step (b : BatchOrchestrator) (a : Action) : BatchOrchestrator :=
  match b.phase with
  | .idle =>
    match a with
    | .newOrchestrator enableCheckpoint => b.newOrchestrator enableCheckpoint
    | .startRun manifest prepared cpus => b.startRun manifest prepared cpus
    | _ => b
  | .sequential todo =>
    match todo, a with
    | vm :: rest, .processNext c saved => b.processNext vm rest c saved
    | [], .complete reported removed => b.complete reported removed
    | _, .interrupt killed => b.interrupt killed
    | _, _ => b
  | .parallel pool => b.poolStep pool a

theorem record_pool (b : BatchOrchestrator) (pool : Pool) (i : Nat) (result : VMConversionResult)
    (error : Option String) : (b.record pool i result error).2 =
      { pool with resultsDict := Function.update pool.resultsDict i (some result) } := by
  unfold record
  cases b.enableCheckpoint with
  | false => rfl
  | true => cases error <;> rfl

theorem record_enabled (b : BatchOrchestrator) (pool : Pool) (i : Nat) (result : VMConversionResult)
    (error : Option String) : (b.record pool i result error).1.enableCheckpoint = b.enableCheckpoint := by
  unfold record
  dsimp only
  split
  · cases error <;> rfl
  · rfl

theorem record_continueOnError (b : BatchOrchestrator) (pool : Pool) (i : Nat) (result : VMConversionResult)
    (error : Option String) : (b.record pool i result error).1.continueOnError = b.continueOnError := by
  unfold record
  dsimp only
  split
  · cases error <;> rfl
  · rfl

theorem raisedBySave_eq_some {b : BatchOrchestrator} {error : Option String} {e : String} :
    b.raisedBySave error = some e ↔ b.enableCheckpoint = true ∧ error = some e := by
  unfold raisedBySave
  split <;> simp [*]

end BatchOrchestrator

end H2kvm.Batch
