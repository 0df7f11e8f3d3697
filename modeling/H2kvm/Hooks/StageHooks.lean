import Mathlib.Data.List.AList
import H2kvm.Framework.Data
import H2kvm.Framework.Run

namespace H2kvm.Hooks

open Framework

section runner

/-- How one attempt of a hook ends: with a result, or with an exception. -/
inductive Outcome where
  | succeeded
  | failed
  /-- `HookExecutionError`, which a hook that times out raises. -/
  | hookError
  | otherError
  deriving DecidableEq

structure HookConfig where
  type : Option String
  /-- The keys `path`, `module`, `function` and `url` that are there. -/
  keys : List String := []
  continueOnError : Bool := false
  maxRetries : Int := 0
  retryOnTimeout : Bool := true

/-- A hook configuration, with what its attempts end in. -/
structure Hook where
  config : HookConfig
  outcomes : Nat → Outcome

structure HookResult where
  success : Bool
  deriving DecidableEq

inductive Raised where
  | hookExecutionError
  | other
  deriving DecidableEq

/-- `create_hook`, which raises a `ValueError` for a configuration it does not know or that is not complete. -/
def createHook (config : HookConfig) : Except Raised Unit :=
  match config.type.map String.toLower with
  | some "script" => if "path" ∈ config.keys then .ok () else .error .other
  | some "python" => if "module" ∈ config.keys ∧ "function" ∈ config.keys then .ok () else .error .other
  | some "http" => if "url" ∈ config.keys then .ok () else .error .other
  | _ => .error .other

/-- The loop of `_execute_single_hook`, with the attempts that are left; also the attempts that are made. -/
def attempts (hook : Hook) : Nat → Nat → HookResult → List Outcome × Except Raised HookResult
  | _, 0, last => ([], .ok last)
  | attempt, left + 1, last =>
    match hook.outcomes attempt with
    | .succeeded => ([.succeeded], .ok ⟨true⟩)
    | .failed =>
      let (rest, result) := attempts hook (attempt + 1) left ⟨false⟩
      (.failed :: rest, result)
    | .hookError =>
      if !hook.config.retryOnTimeout || left = 0 then ([.hookError], .error .hookExecutionError)
      else
        let (rest, result) := attempts hook (attempt + 1) left last
        (.hookError :: rest, result)
    | .otherError => ([.otherError], .error .other)

/-- `_execute_single_hook`. -/
def executeSingleHook (hook : Hook) : List Outcome × Except Raised HookResult :=
  attempts hook 0 (hook.config.maxRetries + 1).toNat ⟨false⟩

/-- What a stage leaves: the attempts of each hook that was started, the recorded results, and the answer. -/
structure StageRun where
  started : List (List Outcome)
  results : List HookResult
  answer : Except Raised Bool

/-- A hook that was started, before the rest of the stage. -/
def StageRun.after (tries : List Outcome) (recorded : List HookResult) (rest : StageRun) : StageRun :=
  ⟨tries :: rest.started, recorded ++ rest.results, rest.answer⟩

/-- A hook after which the stage stops. -/
def StageRun.stop (tries : List Outcome) (recorded : List HookResult) : StageRun :=
  ⟨[tries], recorded, .error .hookExecutionError⟩

/-- The handler of `HookExecutionError` in the loop, after the results that are recorded already. -/
def handleHookError (hook : Hook) (tries : List Outcome) (recorded : List HookResult) (rest : StageRun) : StageRun :=
  let recorded := recorded ++ [⟨false⟩]
  if hook.config.continueOnError then rest.after tries recorded else .stop tries recorded

/-- The loop of `execute_stage_hooks`; the flag is `all_succeeded` so far. -/
def executeHooks : Bool → List Hook → StageRun
  | allSucceeded, [] => ⟨[], [], .ok allSucceeded⟩
  | allSucceeded, hook :: hooks =>
    match createHook hook.config with
    | .error _ => .stop [] [⟨false⟩]
    | .ok () =>
      match executeSingleHook hook with
      | (tries, .ok result) =>
        if result.success then (executeHooks allSucceeded hooks).after tries [result]
        else if hook.config.continueOnError then (executeHooks false hooks).after tries [result]
        -- The exception for a failed hook is raised in the block whose handler records a result as well.
        else handleHookError hook tries [result] (executeHooks false hooks)
      | (tries, .error .hookExecutionError) => handleHookError hook tries [] (executeHooks false hooks)
      | (tries, .error .other) => .stop tries [⟨false⟩]

/-- What the manifest has for a stage. -/
inductive StageHooks where
  | hooks (hooks : List Hook)
  | other

structure HookRunner where
  hooksConfig : String → Option StageHooks
  results : Dict String (List HookResult) := ∅

namespace HookRunner

def supportedStages : List String :=
  ["pre_extraction", "post_extraction", "pre_fix", "post_fix", "pre_convert", "post_convert", "post_validate"]

/-- `execute_stage_hooks`: the answer, the attempts of each hook that was started, and the runner then. -/
def executeStageHooks (r : HookRunner) (stage : String) : Except Raised Bool × List (List Outcome) × HookRunner :=
  if stage ∉ supportedStages then (.ok true, [], r)
  else
    match r.hooksConfig stage with
    | none | some (.hooks []) | some .other => (.ok true, [], r)
    | some (.hooks hooks) =>
      let run := executeHooks true hooks
      (run.answer, run.started, { r with results := r.results.insert stage run.results })

/-- `get_stage_results`. -/
def stageResults (r : HookRunner) (stage : String) : List HookResult := (r.results.lookup stage).getD []

end HookRunner

end runner

section stageHooks

namespace Hook

variable (hook : Hook)

def created : Bool := (createHook hook.config).isOk

/-- An outcome after which a hook is not tried again. -/
def conclusive : Outcome → Bool
  | .succeeded | .otherError => true
  | .failed => false
  | .hookError => !hook.config.retryOnTimeout

/-- The first conclusive outcome, or the last one. -/
def concluding : List Outcome → Option Outcome
  | [] => none
  | o :: os => if hook.conclusive o || os.isEmpty then some o else concluding os

/-- What the attempts end in that the configuration allows. -/
def allowed : Nat := (hook.config.maxRetries + 1).toNat

def final : Option Outcome := hook.concluding ((List.range hook.allowed).map hook.outcomes)

def succeeds : Bool := hook.created && hook.final == some .succeeded

/-- The hook finally fails, and the stage is not to go on. -/
def stops : Bool := !hook.succeeds && !hook.config.continueOnError

/-- The attempts that are made. -/
def tries : List Outcome := if hook.created then (executeSingleHook hook).1 else []

/-- The last attempt ends with a failed result, and the stage is not to go on. -/
def failsWithResult : Bool :=
  hook.created && (hook.final == some .failed || hook.final == none) && !hook.config.continueOnError

/-- The hook is not known or raises what no hook should, though the stage is to go on. -/
def failsAbruptly : Bool := (!hook.created || hook.final == some .otherError) && hook.config.continueOnError

end Hook

/-- The hooks up to the first that stops the stage. -/
def started : List Hook → List Hook
  | [] => []
  | hook :: hooks => if hook.stops then [hook] else hook :: started hooks

/-- What a run of the hooks of a stage is to leave. -/
structure Orderly (hooks : List Hook) (run : StageRun) : Prop where
  order : run.started = (started hooks).map Hook.tries
  attempts : ∀ hook ∈ hooks, hook.tries.length ≤ hook.allowed ∧ Outcome.succeeded ∉ hook.tries.dropLast
  recorded : run.results = (started hooks).map fun hook => ⟨hook.succeeds⟩
  stopped : (∃ e, run.answer = .error e) ↔ ∃ hook ∈ started hooks, hook.stops
  answered : run.answer = .ok true ↔ ∀ hook ∈ hooks, hook.succeeds

section attempts

variable {hook : Hook} {attempt left : Nat} {last : HookResult}

theorem concluding_cons {o : Outcome} {os : List Outcome} (going : hook.conclusive o = false) (more : os ≠ []) :
    hook.concluding (o :: os) = hook.concluding os := by
  rw [Hook.concluding, going, List.isEmpty_eq_false_iff.mpr more]
  rfl

theorem exists_concluding (hook : Hook) {os : List Outcome} (more : os ≠ []) : ∃ o, hook.concluding os = some o := by
  induction os with
  | nil => exact absurd rfl more
  | cons o os ih =>
    rw [Hook.concluding]
    split
    · exact ⟨o, rfl⟩
    · next going =>
      refine ih fun none => going ?_
      rw [none, List.isEmpty_nil, Bool.or_true]

/-- The result of the attempts from one on, by the outcome that concludes them. -/
theorem attempts_result : (attempts hook attempt left last).2 =
    match hook.concluding ((List.range' attempt left).map hook.outcomes) with
    | none => .ok last
    | some .succeeded => .ok ⟨true⟩
    | some .failed => .ok ⟨false⟩
    | some .hookError => .error .hookExecutionError
    | some .otherError => .error .other := by
  induction left generalizing attempt last with
  | zero => rfl
  | succ left ih =>
    have more (exists_more : left ≠ 0) : (List.range' (attempt + 1) left).map hook.outcomes ≠ [] := by
      simpa using exists_more
    rw [List.range'_succ, List.map_cons, attempts]
    cases outcome : hook.outcomes attempt with
    | succeeded => simp [Hook.concluding, Hook.conclusive]
    | otherError => simp [Hook.concluding, Hook.conclusive]
    | failed =>
      dsimp only
      rcases Nat.eq_zero_or_pos left with rfl | rest
      · simp [Hook.concluding, attempts]
      · have exists_more : left ≠ 0 := by omega
        rw [concluding_cons rfl (more exists_more), ih]
        obtain ⟨o, continues⟩ := exists_concluding hook (more exists_more)
        rw [continues]
        cases o <;> rfl
    | hookError =>
      by_cases ends : hook.config.retryOnTimeout = false ∨ left = 0
      · have concludes : (hook.conclusive .hookError || ((List.range' (attempt + 1) left).map hook.outcomes).isEmpty) = true := by
          rcases ends with once | rfl
          · simp [Hook.conclusive, once]
          · simp
        rw [if_pos (by simpa using ends), Hook.concluding, if_pos concludes]
      · rw [if_neg (by simpa using ends)]
        rw [not_or] at ends
        rw [concluding_cons (by simpa [Hook.conclusive] using ends.1) (more ends.2)]
        exact ih

theorem attempts_length : (attempts hook attempt left last).1.length ≤ left := by
  induction left generalizing attempt last with
  | zero => simp [attempts]
  | succ left ih =>
    rw [attempts]
    split
    · simp
    · simpa using ih
    · split
      · simp
      · simpa using ih
    · simp

theorem attempts_dropLast : Outcome.succeeded ∉ (attempts hook attempt left last).1.dropLast := by
  have going {o : Outcome} {os : List Outcome} (other : o ≠ .succeeded) (rest : Outcome.succeeded ∉ os.dropLast) :
      Outcome.succeeded ∉ (o :: os).dropLast := by
    cases os with
    | nil => simp
    | cons o' os => simpa [List.dropLast_cons_cons] using ⟨other.symm, rest⟩
  induction left generalizing attempt last with
  | zero => simp [attempts]
  | succ left ih =>
    rw [attempts]
    split
    · simp
    · exact going (by decide) ih
    · split
      · simp
      · exact going (by decide) ih
    · simp

theorem executeSingleHook_result : (executeSingleHook hook).2 =
    match hook.final with
    | none => .ok ⟨false⟩
    | some .succeeded => .ok ⟨true⟩
    | some .failed => .ok ⟨false⟩
    | some .hookError => .error .hookExecutionError
    | some .otherError => .error .other := by
  rw [Hook.final, List.range_eq_range']
  exact attempts_result

end attempts

section stage

variable {hook : Hook} {hooks : List Hook} {allSucceeded : Bool}

/-- What one hook adds to the run of its stage. -/
theorem executeHooks_cons : executeHooks allSucceeded (hook :: hooks) =
    if hook.succeeds then (executeHooks allSucceeded hooks).after hook.tries [⟨true⟩]
    else if hook.failsWithResult then .stop hook.tries [⟨false⟩, ⟨false⟩]
    else if hook.failsAbruptly || hook.stops then .stop hook.tries [⟨false⟩]
    else (executeHooks false hooks).after hook.tries [⟨false⟩] := by
  rw [executeHooks]
  cases creation : createHook hook.config with
  | error e =>
    have created : hook.created = false := by rw [Hook.created, creation]; rfl
    cases continues : hook.config.continueOnError <;>
      simp [Hook.succeeds, Hook.failsWithResult, Hook.failsAbruptly, Hook.stops, Hook.tries, created, continues]
  | ok u =>
    have created : hook.created = true := by rw [Hook.created, creation]; rfl
    have made : hook.tries = (executeSingleHook hook).1 := by rw [Hook.tries, created]; rfl
    have run : executeSingleHook hook = (hook.tries, _) := Prod.ext made.symm executeSingleHook_result
    rw [run]
    rcases final : hook.final with _ | _ | _ | _ | _ <;>
      cases continues : hook.config.continueOnError <;>
      simp [Hook.succeeds, Hook.failsWithResult, Hook.failsAbruptly, Hook.stops, handleHookError, created, continues,
        final]

/-- No hook that is started makes the stage record twice or stop against its configuration. -/
def Plain (hooks : List Hook) : Prop :=
  ∀ hook ∈ started hooks, hook.failsWithResult = false ∧ hook.failsAbruptly = false

theorem mem_started_cons : hook ∈ started (hook :: hooks) := by
  rw [started]
  split <;> simp

theorem executeHooks_of_plain (plain : Plain hooks) : executeHooks allSucceeded hooks =
    { started := (started hooks).map Hook.tries
      results := (started hooks).map fun hook => ⟨hook.succeeds⟩
      answer := if (started hooks).any Hook.stops then .error .hookExecutionError
        else .ok (allSucceeded && hooks.all Hook.succeeds) } := by
  induction hooks generalizing allSucceeded with
  | nil => simp [executeHooks, started]
  | cons hook hooks ih =>
    obtain ⟨once, due⟩ := plain hook mem_started_cons
    rw [executeHooks_cons, once, due]
    cases stops : hook.stops with
    | true =>
      have fails : hook.succeeds = false := by
        rw [Hook.stops, Bool.and_eq_true, Bool.not_eq_true'] at stops
        exact stops.1
      simp [started, stops, fails, StageRun.stop]
    | false =>
      have rest : Plain hooks := fun other there => plain other (by simp [started, stops, there])
      cases succeeds : hook.succeeds <;> simp [started, stops, succeeds, ih rest, StageRun.after]

/-- What a stage leaves shows whether a hook was recorded twice or stopped the stage against its configuration. -/
theorem plain_of_executeHooks
    (recorded : (executeHooks allSucceeded hooks).results.length = (started hooks).length)
    (order : (executeHooks allSucceeded hooks).started.length = (started hooks).length)
    (stopped : (∃ e, (executeHooks allSucceeded hooks).answer = .error e) ↔ ∃ hook ∈ started hooks, hook.stops) :
    Plain hooks := by
  induction hooks generalizing allSucceeded with
  | nil => simp [Plain, started]
  | cons hook hooks ih =>
    have goes_on {flag : Bool} {result : HookResult} (goes : hook.stops = false)
        (runs : executeHooks allSucceeded (hook :: hooks) = (executeHooks flag hooks).after hook.tries [result])
        (once : hook.failsWithResult = false) (due : hook.failsAbruptly = false) : Plain (hook :: hooks) := by
      have split : started (hook :: hooks) = hook :: started hooks := by rw [started, goes, if_neg Bool.false_ne_true]
      rw [runs, split] at recorded order stopped
      have rest : Plain hooks := by
        refine ih (by simpa [StageRun.after, Nat.add_comm] using recorded) (by simpa [StageRun.after] using order) ?_
        simpa [StageRun.after, goes] using stopped
      intro other mem
      rw [split] at mem
      rcases List.mem_cons.mp mem with rfl | mem
      · exact ⟨once, due⟩
      · exact rest other mem
    have runs : executeHooks allSucceeded (hook :: hooks) = _ := executeHooks_cons
    cases succeeds : hook.succeeds with
    | true =>
      rw [succeeds, if_pos rfl] at runs
      have concluded : hook.created = true ∧ hook.final = some .succeeded := by
        simpa [Hook.succeeds] using succeeds
      refine goes_on ?_ runs ?_ ?_
      · rw [Hook.stops, succeeds]
        rfl
      · simp [Hook.failsWithResult, concluded]
      · simp [Hook.failsAbruptly, concluded]
    | false =>
      rw [succeeds, if_neg Bool.false_ne_true] at runs
      cases once : hook.failsWithResult with
      | true =>
        rw [once, if_pos rfl] at runs
        have stops : hook.stops = true := by
          simp only [Hook.failsWithResult, Bool.and_eq_true] at once
          rw [Hook.stops, succeeds, once.2]
          rfl
        rw [runs, started, stops, if_pos rfl] at recorded
        cases recorded
      | false =>
        rw [once, if_neg Bool.false_ne_true] at runs
        cases due : hook.failsAbruptly with
        | true =>
          rw [due, Bool.true_or, if_pos rfl] at runs
          have goes : hook.stops = false := by
            simp only [Hook.failsAbruptly, Bool.and_eq_true] at due
            rw [Hook.stops, succeeds, due.2]
            rfl
          have split : started (hook :: hooks) = hook :: started hooks := by rw [started, goes, if_neg Bool.false_ne_true]
          rw [runs, split] at order stopped
          have none : started hooks = [] := by
            have count : 1 = (started hooks).length + 1 := order
            exact List.length_eq_zero_iff.mp (by omega)
          obtain ⟨other, mem, stops⟩ := stopped.mp ⟨_, rfl⟩
          rw [none, List.mem_singleton] at mem
          rw [mem, goes] at stops
          cases stops
        | false =>
          rw [due, Bool.false_or] at runs
          cases goes : hook.stops with
          | true =>
            intro other mem
            rw [started, goes, if_pos rfl, List.mem_singleton] at mem
            subst mem
            exact ⟨once, due⟩
          | false =>
            rw [goes, if_neg Bool.false_ne_true] at runs
            exact goes_on goes runs once due

theorem mem_of_mem_started (mem : hook ∈ started hooks) : hook ∈ hooks := by
  induction hooks with
  | nil => exact mem
  | cons first hooks ih =>
    rw [started] at mem
    split at mem
    · exact List.mem_cons.mpr (Or.inl (List.mem_singleton.mp mem))
    · rcases List.mem_cons.mp mem with rfl | mem
      · exact List.mem_cons_self ..
      · exact List.mem_cons_of_mem _ (ih mem)

theorem orderly_iff (hooks : List Hook) : Orderly hooks (executeHooks true hooks) ↔ Plain hooks := by
  constructor
  · intro orderly
    refine plain_of_executeHooks ?_ ?_ orderly.stopped
    · rw [orderly.recorded, List.length_map]
    · rw [orderly.order, List.length_map]
  · intro plain
    rw [executeHooks_of_plain plain]
    refine ⟨rfl, fun hook mem => ?_, rfl, ?_, ?_⟩
    · rw [Hook.tries]
      split
      · exact ⟨attempts_length, attempts_dropLast⟩
      · simp
    · split
      · next any => simpa [List.any_eq_true] using any
      · next none => simpa [List.any_eq_true] using none
    · split
      · next any =>
        obtain ⟨hook, mem, stops⟩ := List.any_eq_true.mp any
        refine iff_of_false (by simp) fun all => ?_
        rw [Hook.stops, all hook (mem_of_mem_started mem)] at stops
        cases stops
      · simp

end stage

namespace HookRunner

/-- The runner after a stage. -/
def next (r : HookRunner) (stage : String) : HookRunner := (r.executeStageHooks stage).2.2

/-- Nothing is recorded for a stage that has no hooks. -/
def Idle (config : String → Option StageHooks) (r : HookRunner) : Prop :=
  r.hooksConfig = config ∧ ∀ stage, config stage = some (.hooks []) → r.stageResults stage = []

theorem idle_next {config : String → Option StageHooks} (r : HookRunner) (stage : String) (idle : Idle config r) :
    Idle config (r.next stage) := by
  obtain ⟨same, none⟩ := idle
  rw [next, executeStageHooks]
  split
  · exact ⟨same, none⟩
  · split
    · exact ⟨same, none⟩
    · exact ⟨same, none⟩
    · exact ⟨same, none⟩
    · next hooks some listed =>
      refine ⟨same, fun other empty => ?_⟩
      have different : other ≠ stage := by
        rintro rfl
        rw [same, empty] at listed
        cases listed
        exact some rfl
      rw [← none other empty, stageResults, stageResults]
      exact congrArg (Option.getD · []) (AList.lookup_insert_ne different)

/-- A script that fails at once, and is not to be passed over. -/
def failingScript : Hook := ⟨{ type := some "script", keys := ["path"] }, fun _ => .failed⟩

/-- A script that succeeds at the second of three attempts. -/
def retriedScript : Hook :=
  ⟨{ type := some "script", keys := ["path"], maxRetries := 2 }, fun attempt => if attempt = 0 then .hookError else .succeeded⟩

end HookRunner

end stageHooks

end H2kvm.Hooks
