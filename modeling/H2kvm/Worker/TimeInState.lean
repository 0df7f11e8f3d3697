import Mathlib.Data.List.Chain
import Mathlib.Algebra.Order.Field.Rat
import Mathlib.Logic.Equiv.Nat
import Mathlib.Algebra.BigOperators.Field
import Mathlib.Tactic.Linarith
import H2kvm.Framework.Run
import H2kvm.Worker.Schemas
import H2kvm.Framework.Usage

namespace H2kvm.Worker

section stateMachine

open Framework

/-- `TRANSITIONS`: the states each state may move to. -/
def transitions : JobState → List JobState
  | .created => [.validated, .cancelled]
  | .validated => [.queued, .cancelled]
  | .queued => [.assigned, .cancelled]
  | .assigned => [.running, .cancelled]
  | .running => [.progressing, .completed, .failed, .retrying, .cancelled]
  | .progressing => [.progressing, .completed, .failed, .retrying, .cancelled]
  | .retrying => [.queued, .failed, .cancelled]
  | .completed => [.completed]
  | .failed => [.failed]
  | .cancelled => [.cancelled]

/-- `TERMINAL_STATES`. -/
def terminalStates : List JobState := [.completed, .failed, .cancelled]

/-- An entry of `state_history`. The first one names a state, the others a move; both hold
the states by value. -/
inductive HistoryEntry where
  | created (state timestamp reason : String)
  | moved (fromState toState timestamp reason : String)
  deriving DecidableEq

namespace HistoryEntry

/-- The state an entry leaves the job in, by value. -/
def target : HistoryEntry → String
  | .created state _ _ => state
  | .moved _ toState _ _ => toState

/-- `entry.get("from_state")`. -/
def fromState : HistoryEntry → Option String
  | .created _ _ _ => none
  | .moved fromState _ _ _ => some fromState

end HistoryEntry

/-- Raised when attempting an invalid state transition. -/
structure InvalidStateTransition where
  fromState : JobState
  toState : JobState
  reason : String
  deriving DecidableEq

def InvalidStateTransition.message (e : InvalidStateTransition) : String :=
  "Invalid transition from " ++ e.fromState.value ++ " to " ++ e.toState.value ++
    (if e.reason = "" then "" else ": " ++ e.reason)

structure JobStateMachine where
  jobId : String
  currentState : JobState
  stateHistory : List HistoryEntry
  deriving DecidableEq

namespace JobStateMachine

/-- `JobStateMachine(job_id, initial_state)`; `now` is the ISO text of the clock. -/
def init (jobId : String) (initialState : JobState) (now : String) : JobStateMachine :=
  ⟨jobId, initialState, [.created initialState.value now "Job created"]⟩

def canTransition (sm : JobStateMachine) (toState : JobState) : Bool :=
  sm.currentState = toState || toState ∈ transitions sm.currentState

def transition (sm : JobStateMachine) (toState : JobState) (reason now : String) :
    Except InvalidStateTransition JobStateMachine :=
  if sm.canTransition toState then
    .ok { sm with
      stateHistory := sm.stateHistory ++
        [.moved sm.currentState.value toState.value now reason]
      currentState := toState }
  else
    .error ⟨sm.currentState, toState, if reason = "" then "Transition not allowed" else reason⟩

def isTerminal (sm : JobStateMachine) : Bool := sm.currentState ∈ terminalStates

/-- The dictionary `to_dict` builds. `state_history` may be missing from one read back. -/
structure Data where
  jobId : String
  currentState : String
  stateHistory : Option (List HistoryEntry)
  isTerminal : Bool
  deriving DecidableEq

def toDict (sm : JobStateMachine) : Data :=
  ⟨sm.jobId, sm.currentState.value, some sm.stateHistory, sm.isTerminal⟩

/-- `from_dict`; an unknown state value is Python's `ValueError`. -/
def fromDict (data : Data) : Option JobStateMachine :=
  (JobState.ofValue data.currentState).map fun st =>
    ⟨data.jobId, st, data.stateHistory.getD []⟩

@[simp] theorem fromDict_toDict (sm : JobStateMachine) : fromDict sm.toDict = some sm := by
  simp [fromDict, toDict]

/-- A move from one state to another that `can_transition` lets through. -/
def Allowed (a b : JobState) : Prop := a = b ∨ b ∈ transitions a

instance (a b : JobState) : Decidable (Allowed a b) := inferInstanceAs (Decidable (_ ∨ _))

theorem canTransition_iff (sm : JobStateMachine) (st : JobState) :
    sm.canTransition st = true ↔ Allowed sm.currentState st := by
  simp [canTransition, Allowed]

theorem transition_ok_iff (sm sm' : JobStateMachine) (st : JobState) (reason now : String) :
    sm.transition st reason now = .ok sm' ↔
      Allowed sm.currentState st ∧
        sm' = ⟨sm.jobId, st, sm.stateHistory ++ [.moved sm.currentState.value st.value now reason]⟩ := by
  unfold transition
  rw [← canTransition_iff]
  split_ifs with h
  · simp only [Except.ok.injEq, h, true_and]
    exact eq_comm
  · simp [h]

theorem transition_error_iff (sm : JobStateMachine) (st : JobState) (reason now : String) :
    (∃ e, sm.transition st reason now = .error e) ↔ ¬ Allowed sm.currentState st := by
  unfold transition
  rw [← canTransition_iff]
  split_ifs with h <;> simp [h]

theorem allowed_of_terminal {a b : JobState} (ha : a ∈ terminalStates) (h : Allowed a b) : b = a := by
  revert ha h
  cases a <;> cases b <;> decide

/-- One call of `transition`, the exception caught by the caller. -/
structure Call where
  toState : JobState
  reason : String
  now : String

def attempt (sm : JobStateMachine) (c : Call) : JobStateMachine :=
  match sm.transition c.toState c.reason c.now with
  | .ok sm' => sm'
  | .error _ => sm

/-- Two neighbouring history entries: the later one starts where the earlier one ended and
takes a self-step or an edge of the table. -/
def Follows (e e' : HistoryEntry) : Prop :=
  ∃ a b : JobState, e.target = a.value ∧ e'.fromState = some a.value ∧ e'.target = b.value ∧ Allowed a b

/-- The history starts at `initialState`, is a chain of allowed moves and ends in the
current state. -/
structure Faithful (initialState : JobState) (sm : JobStateMachine) : Prop where
  head : ∃ now, sm.stateHistory.head? = some (.created initialState.value now "Job created")
  chain : sm.stateHistory.IsChain Follows
  last : sm.stateHistory.getLast?.map HistoryEntry.target = some sm.currentState.value

theorem init_faithful (jobId : String) (st : JobState) (now : String) :
    Faithful st (init jobId st now) :=
  ⟨⟨now, rfl⟩, List.isChain_singleton _, rfl⟩

theorem transition_faithful {st next : JobState} {sm sm' : JobStateMachine} {reason now : String}
    (hf : Faithful st sm) (h : sm.transition next reason now = .ok sm') : Faithful st sm' := by
  obtain ⟨hallowed, rfl⟩ := (transition_ok_iff _ _ _ _ _).mp h
  obtain ⟨t, ht⟩ := hf.head
  refine ⟨⟨t, ?_⟩, ?_, ?_⟩
  · simp [List.head?_append, ht]
  · refine List.isChain_append.mpr ⟨hf.chain, List.isChain_singleton _, ?_⟩
    intro e he e' he'
    have hl := hf.last
    rw [Option.mem_def.mp he] at hl
    simp only [List.head?_cons, Option.mem_def, Option.some.injEq] at he'
    subst he'
    exact ⟨sm.currentState, next, by simpa using hl, rfl, rfl, hallowed⟩
  · simp [HistoryEntry.target]

theorem attempt_faithful (st : JobState) (sm : JobStateMachine) (c : Call) (hf : Faithful st sm) :
    Faithful st (sm.attempt c) := by
  unfold attempt
  split
  · exact transition_faithful hf ‹_›
  · exact hf

theorem attempt_jobId (sm : JobStateMachine) (c : Call) : (sm.attempt c).jobId = sm.jobId := by
  unfold attempt
  split
  · rename_i heq
    obtain ⟨_, rfl⟩ := (transition_ok_iff _ _ _ _ _).mp heq
    rfl
  · rfl

theorem attempt_terminal (sm : JobStateMachine) (c : Call) (h : sm.currentState ∈ terminalStates) :
    (sm.attempt c).currentState = sm.currentState := by
  unfold attempt
  split
  · rename_i sm' heq
    obtain ⟨hallowed, rfl⟩ := (transition_ok_iff _ _ _ _ _).mp heq
    exact allowed_of_terminal h hallowed
  · rfl

theorem run_terminal (sm : JobStateMachine) (calls : List Call) (h : sm.currentState ∈ terminalStates) :
    (run attempt sm calls).currentState = sm.currentState := by
  induction calls generalizing sm with
  | nil => rfl
  | cons c calls ih =>
    have hc := attempt_terminal sm c h
    rw [run_cons, ih _ (hc ▸ h), hc]

/-- Over every sequence of calls from every initial state: the history is a chain from the
initial to the current state, an accepted call appends the move it made, a rejected one
changes nothing, terminal states are final and the dictionary form reads back. -/
theorem history_faithful (jobId : String) (st : JobState) (now : String) (calls : List Call) :
    (∀ pre, pre <+: calls → Faithful st (run attempt (init jobId st now) pre)) ∧
    (∀ pre c, pre ++ [c] <+: calls →
      let sm := run attempt (init jobId st now) pre
      let sm' := run attempt (init jobId st now) (pre ++ [c])
      (∃ e, sm.transition c.toState c.reason c.now = .error e ∧ sm' = sm) ∨
      (sm.transition c.toState c.reason c.now = .ok sm' ∧ sm'.currentState = c.toState ∧
        Allowed sm.currentState c.toState ∧
        sm'.stateHistory = sm.stateHistory ++
          [.moved sm.currentState.value c.toState.value c.now c.reason])) ∧
    (∀ pre mid, pre ++ mid <+: calls →
      (run attempt (init jobId st now) pre).currentState ∈ terminalStates →
      (run attempt (init jobId st now) (pre ++ mid)).currentState =
        (run attempt (init jobId st now) pre).currentState) ∧
    (∀ pre, pre <+: calls →
      let sm := run attempt (init jobId st now) pre
      ∃ restored, fromDict sm.toDict = some restored ∧ restored.jobId = jobId ∧
        restored.currentState = sm.currentState ∧ restored.stateHistory = sm.stateHistory) := by
  have keepsId (pre : List Call) : (run attempt (init jobId st now) pre).jobId = jobId :=
    invariant_run (I := fun sm : JobStateMachine => sm.jobId = jobId)
      (fun sm c h => (attempt_jobId sm c).trans h) rfl pre
  refine ⟨fun pre _ => ?_, fun pre c _ => ?_, fun pre mid _ h => ?_, fun pre _ => ?_⟩
  · exact invariant_run (fun sm c h => attempt_faithful st sm c h) (init_faithful jobId st now) pre
  · simp only [run_concat]
    generalize run attempt (init jobId st now) pre = sm
    cases h : sm.transition c.toState c.reason c.now with
    | error e => exact .inl ⟨e, rfl, by simp [attempt, h]⟩
    | ok sm' =>
      obtain ⟨hallowed, rfl⟩ := (transition_ok_iff _ _ _ _ _).mp h
      exact .inr ⟨by simp [attempt, h], by simp [attempt, h], hallowed, by simp [attempt, h]⟩
  · rw [run_append]
    exact run_terminal _ mid h
  · exact ⟨_, fromDict_toDict _, keepsId pre, rfl, rfl⟩

end JobStateMachine

end stateMachine

section timeInState

open Framework Dwell

/-- `isoformat` and `fromisoformat` of `datetime`. -/
structure IsoFormat where
  isoformat : Datetime → String
  fromisoformat : String → Datetime
  inverse : ∀ t, fromisoformat (isoformat t) = t

namespace HistoryEntry

/-- `entry.get("to_state")`. -/
def toState : HistoryEntry → Option String
  | .created _ _ _ => none
  | .moved _ toState _ _ => some toState

def timestamp : HistoryEntry → String
  | .created _ timestamp _ => timestamp
  | .moved _ _ timestamp _ => timestamp

end HistoryEntry

/-- `total_seconds()` of a difference of two times; the float is taken as exact. -/
def totalSeconds (d : Datetime) : ℚ := d / 1000000

namespace JobStateMachine

variable (iso : IsoFormat)

def getStateDuration (sm : JobStateMachine) (state : JobState) (utcnow : Datetime) : Option ℚ :=
  match sm.stateHistory.filter fun h => h.toState = some state.value with
  | [] => none
  | entry :: _ =>
    let entryTime := iso.fromisoformat entry.timestamp
    let entryIdx := sm.stateHistory.idxOf entry
    let exitTime :=
      match sm.stateHistory[entryIdx + 1]? with
      | some next => iso.fromisoformat next.timestamp
      | none => utcnow
    some (totalSeconds (exitTime - entryTime))

/-- A call of `transition` at a time. -/
structure TimedCall where
  toState : JobState
  reason : String
  now : Datetime

def TimedCall.toCall (c : TimedCall) : Call := ⟨c.toState, c.reason, iso.isoformat c.now⟩

/-- A job from its creation on. -/
structure JobRun where
  jobId : String
  initialState : JobState
  createdAt : Datetime
  calls : List TimedCall

/-- The states that calls move a job to, each with the time; one the table does not allow moves it nowhere. -/
def moves (current : JobState) : List TimedCall → List (JobState × Datetime)
  | [] => []
  | c :: calls => if Allowed current c.toState then (c.toState, c.now) :: moves c.toState calls else moves current calls

namespace JobRun

variable (r : JobRun)

def machine : JobStateMachine :=
  run attempt (init r.jobId r.initialState (iso.isoformat r.createdAt)) (r.calls.map (TimedCall.toCall iso))

def moves : List (JobState × Datetime) := JobStateMachine.moves r.initialState r.calls

/-- The states the job enters. -/
def stays : List (JobState × Datetime) := (r.initialState, r.createdAt) :: r.moves

end JobRun

section history

variable {iso : IsoFormat}

theorem attempt_history (sm : JobStateMachine) (c : TimedCall) :
    sm.attempt (c.toCall iso) = if Allowed sm.currentState c.toState then
      ⟨sm.jobId, c.toState, sm.stateHistory ++
        [.moved sm.currentState.value c.toState.value (iso.isoformat c.now) c.reason]⟩
      else sm := by
  unfold attempt
  split
  · next sm' moved =>
    obtain ⟨allowed, rfl⟩ := (transition_ok_iff _ _ _ _ _).mp moved
    exact (if_pos allowed).symm
  · next e refused => exact (if_neg ((transition_error_iff _ _ _ _).mp ⟨e, refused⟩)).symm

theorem run_history (sm : JobStateMachine) (calls : List TimedCall) :
    ∃ entries, (run attempt sm (calls.map (TimedCall.toCall iso))).stateHistory = sm.stateHistory ++ entries ∧
      entries.map (fun e => (e.toState, iso.fromisoformat e.timestamp)) =
        (JobStateMachine.moves sm.currentState calls).map fun m => (some m.1.value, m.2) := by
  induction calls generalizing sm with
  | nil => exact ⟨[], by simp, rfl⟩
  | cons c calls ih =>
    rw [List.map_cons, run_cons, attempt_history, JobStateMachine.moves]
    split
    · obtain ⟨entries, history, told⟩ := ih ⟨sm.jobId, c.toState, sm.stateHistory ++
        [.moved sm.currentState.value c.toState.value (iso.isoformat c.now) c.reason]⟩
      refine ⟨.moved sm.currentState.value c.toState.value (iso.isoformat c.now) c.reason :: entries, ?_, ?_⟩
      · rw [history, List.append_assoc]
        rfl
      · rw [List.map_cons, told, List.map_cons]
        simp only [HistoryEntry.toState, HistoryEntry.timestamp, iso.inverse]
    · exact ih sm

theorem value_injective {a b : JobState} (h : a.value = b.value) : a = b := by
  have := JobState.ofValue_value b
  rw [← h, JobState.ofValue_value] at this
  exact Option.some.inj this

variable {sm : JobStateMachine} {state : JobState} {utcnow : Datetime}

theorem getStateDuration_none (h : ∀ e ∈ sm.stateHistory, e.toState ≠ some state.value) :
    sm.getStateDuration iso state utcnow = none := by
  have entries : sm.stateHistory.filter (fun h => h.toState = some state.value) = [] := by
    simpa [List.filter_eq_nil_iff] using h
  rw [getStateDuration, entries]

theorem getStateDuration_first {before after : List HistoryEntry} {entry : HistoryEntry}
    (history : sm.stateHistory = before ++ entry :: after) (other : ∀ e ∈ before, e.toState ≠ some state.value)
    (entered : entry.toState = some state.value) :
    sm.getStateDuration iso state utcnow = some (totalSeconds
      (left utcnow (after.map fun e => (e.toState, iso.fromisoformat e.timestamp)) -
        iso.fromisoformat entry.timestamp)) := by
  have skipped : before.filter (fun h => h.toState = some state.value) = [] := by
    simpa [List.filter_eq_nil_iff] using other
  have entries : sm.stateHistory.filter (fun h => h.toState = some state.value) =
      entry :: after.filter (fun h => h.toState = some state.value) := by
    rw [history, List.filter_append, skipped, List.nil_append, List.filter_cons_of_pos (by simpa using entered)]
  have new : entry ∉ before := fun mem => other entry mem entered
  have entryIdx : sm.stateHistory.idxOf entry = before.length := by
    rw [history, List.idxOf_append_of_notMem new, List.idxOf_cons_self, Nat.add_zero]
  have next : sm.stateHistory[before.length + 1]? = after.head? := by
    rw [history, List.getElem?_append_right (by omega), Nat.add_sub_cancel_left, List.getElem?_cons_succ,
      List.head?_eq_getElem?]
  rw [getStateDuration, entries]
  dsimp only
  rw [entryIdx, next]
  cases after with
  | nil => rfl
  | cons next after => rfl

end history

namespace JobRun

variable (iso : IsoFormat) (r : JobRun) (utcnow : Datetime)

/-- The timestamps never decrease, up to the time of the query. -/
def Timely : Prop := (r.createdAt :: r.calls.map TimedCall.now ++ [utcnow]).Pairwise (· ≤ ·)

/-- `get_state_duration(state)` is the time the job spent in the state. -/
def Measured (state : JobState) : Prop :=
  (r.machine iso).getStateDuration iso state utcnow =
    if state ∈ r.stays.map Prod.fst then some (totalSeconds (spent state utcnow r.stays)) else none

/-- The durations of the states the job was in add up to its age. -/
def AddsUp : Prop :=
  ∑ state ∈ (r.stays.map Prod.fst).toFinset, ((r.machine iso).getStateDuration iso state utcnow).getD 0 =
    totalSeconds (utcnow - r.createdAt)

/-- A job that was created in the state has moved to it since, and only its stay after the first such
move takes any time. -/
def OnlyFirst (state : JobState) : Prop :=
  (state = r.initialState → state ∈ r.moves.map Prod.fst) ∧
    ∀ before t after, r.stays = before ++ (state, t) :: after →
      (before = [] ∨ state ∈ before.tail.map Prod.fst) → left utcnow after = t

section measure

variable {iso r utcnow} {state : JobState}

theorem machine_history (iso : IsoFormat) (r : JobRun) : ∃ entries,
    (r.machine iso).stateHistory = .created r.initialState.value (iso.isoformat r.createdAt) "Job created" :: entries ∧
      entries.map (fun e => (e.toState, iso.fromisoformat e.timestamp)) = r.moves.map fun m => (some m.1.value, m.2) :=
  run_history (init r.jobId r.initialState (iso.isoformat r.createdAt)) r.calls

theorem left_map {σ τ T : Type} (f : σ → τ) (now : T) (entries : List (σ × T)) :
    left now (entries.map fun m => (f m.1, m.2)) = left now entries := by
  cases entries <;> rfl

theorem getStateDuration_unmoved (h : state ∉ r.moves.map Prod.fst) :
    (r.machine iso).getStateDuration iso state utcnow = none := by
  obtain ⟨entries, history, told⟩ := machine_history iso r
  apply getStateDuration_none
  rw [history]
  intro e mem entered
  rcases List.mem_cons.mp mem with rfl | mem
  · cases entered
  · have move := List.mem_map_of_mem (f := fun e => (e.toState, iso.fromisoformat e.timestamp)) mem
    rw [told] at move
    obtain ⟨m, moved, same⟩ := List.mem_map.mp move
    have value : m.1.value = state.value := Option.some.inj ((congrArg Prod.fst same).trans entered)
    exact h (List.mem_map.mpr ⟨m, moved, value_injective value⟩)

theorem getStateDuration_moved {before after : List (JobState × Datetime)} {t : Datetime}
    (moves : r.moves = before ++ (state, t) :: after) (first : state ∉ before.map Prod.fst) :
    (r.machine iso).getStateDuration iso state utcnow = some (totalSeconds (left utcnow after - t)) := by
  obtain ⟨entries, history, told⟩ := machine_history iso r
  rw [moves, List.map_append, List.map_cons] at told
  obtain ⟨pre, rest, rfl, told_before, told⟩ := List.map_eq_append_iff.mp told
  obtain ⟨entry, post, rfl, told_entry, told_after⟩ := List.map_eq_cons_iff.mp told
  have entered : entry.toState = some state.value := congrArg Prod.fst told_entry
  have time : iso.fromisoformat entry.timestamp = t := congrArg Prod.snd told_entry
  have other : ∀ e ∈ HistoryEntry.created r.initialState.value (iso.isoformat r.createdAt) "Job created" :: pre,
      e.toState ≠ some state.value := by
    intro e mem same
    rcases List.mem_cons.mp mem with rfl | mem
    · cases same
    · have move := List.mem_map_of_mem (f := fun e => (e.toState, iso.fromisoformat e.timestamp)) mem
      rw [told_before] at move
      obtain ⟨m, moved, told⟩ := List.mem_map.mp move
      have value : m.1.value = state.value := Option.some.inj ((congrArg Prod.fst told).trans same)
      exact first (List.mem_map.mpr ⟨m, moved, value_injective value⟩)
  rw [getStateDuration_first history other entered, told_after, time, left_map fun state : JobState => some state.value]

theorem totalSeconds_injective : Function.Injective totalSeconds := by
  intro a b h
  have : (a : ℚ) = b := by
    unfold totalSeconds at h
    linarith
  exact_mod_cast this

theorem moves_sublist (current : JobState) (calls : List TimedCall) :
    ((JobStateMachine.moves current calls).map Prod.snd).Sublist (calls.map TimedCall.now) := by
  induction calls generalizing current with
  | nil => exact .slnil
  | cons c calls ih =>
    rw [JobStateMachine.moves]
    split
    · exact (ih c.toState).cons_cons c.now
    · exact (ih current).cons c.now

theorem Timely.ordered (timely : r.Timely utcnow) : Ordered utcnow r.stays :=
  timely.sublist (((moves_sublist r.initialState r.calls).cons_cons r.createdAt).append (.refl [utcnow]))

theorem stays_states : state ∈ r.stays.map Prod.fst ↔ state = r.initialState ∨ state ∈ r.moves.map Prod.fst := by
  rw [stays, List.map_cons, List.mem_cons]

theorem not_onlyFirst_unmoved (h : state ∉ r.moves.map Prod.fst) :
    r.OnlyFirst utcnow state ↔ state ≠ r.initialState := by
  constructor
  · rintro ⟨moved, -⟩ rfl
    exact h (moved rfl)
  · intro other
    refine ⟨fun same => absurd same other, fun before t after split _ => ?_⟩
    have mem : state ∈ r.stays.map Prod.fst := by simp [split]
    exact absurd (stays_states.mp mem) (not_or.mpr ⟨other, h⟩)

/-- The stays in a state but the one its first move to it begins. -/
theorem onlyFirst_moved {before after : List (JobState × Datetime)} {t : Datetime}
    (moves : r.moves = before ++ (state, t) :: after) (first : state ∉ before.map Prod.fst) :
    r.OnlyFirst utcnow state ↔ (r.initialState = state → left utcnow r.moves = r.createdAt) ∧ Brief state utcnow after := by
  constructor
  · rintro ⟨-, brief⟩
    constructor
    · rintro rfl
      exact brief [] r.createdAt r.moves rfl (.inl rfl)
    · rintro pre u post rfl
      apply brief ((r.initialState, r.createdAt) :: before ++ (state, t) :: pre) u post
      · simp [stays, moves]
      · simp
  · rintro ⟨created, brief⟩
    refine ⟨fun _ => by simp [moves], fun pre u post split again => ?_⟩
    cases pre with
    | nil =>
      obtain ⟨same, rfl⟩ := List.cons.inj split
      cases same
      exact created rfl
    | cons entry pre =>
      have split := (List.cons.inj split).2
      have again : state ∈ pre.map Prod.fst := again.resolve_left (List.cons_ne_nil _ _)
      have split : before ++ (state, t) :: after = pre ++ (state, u) :: post := moves.symm.trans split
      -- the first move to the state comes before this one
      rcases List.append_eq_append_iff.mp split with ⟨mid, rfl, rest⟩ | ⟨mid, rfl, rest⟩
      · cases mid with
        | nil =>
          rw [List.append_nil] at again
          exact absurd again first
        | cons entry mid =>
          exact brief mid u post (List.cons.inj rest).2
      · rw [List.map_append] at first
        exact absurd (List.mem_append_left _ again) first

theorem spent_moved {before after : List (JobState × Datetime)} {t : Datetime}
    (moves : r.moves = before ++ (state, t) :: after) (first : state ∉ before.map Prod.fst) :
    spent state utcnow r.stays = (if r.initialState = state then left utcnow r.moves - r.createdAt else 0) +
      ((left utcnow after - t) + spent state utcnow after) := by
  rw [stays, spent, ← spent_append_cons first, ← moves]

theorem only_stay {stay other later : Int} (hother : 0 ≤ other) (hlater : 0 ≤ later) :
    stay = other + (stay + later) ↔ other = 0 ∧ later = 0 := by
  omega

theorem measured_iff (timely : r.Timely utcnow) : r.Measured iso utcnow state ↔ r.OnlyFirst utcnow state := by
  unfold Measured
  by_cases moved : state ∈ r.moves.map Prod.fst
  · obtain ⟨before, after, t, moves, first⟩ :
        ∃ before after t, r.moves = before ++ (state, t) :: after ∧ state ∉ before.map Prod.fst := by
      obtain ⟨states, later, split, first⟩ := List.eq_append_cons_of_mem moved
      obtain ⟨before, rest, moves, rfl, told⟩ := List.map_eq_append_iff.mp split
      obtain ⟨⟨_, t⟩, after, rfl, rfl, -⟩ := List.map_eq_cons_iff.mp told
      exact ⟨before, after, t, moves, first⟩
    have ordered := timely.ordered
    have ordered_after : Ordered utcnow after := by
      rw [stays, moves, ← List.cons_append] at ordered
      exact ordered.of_append.tail
    have created : 0 ≤ left utcnow r.moves - r.createdAt := sub_nonneg.mpr ordered.le_left
    have rest := spent_nonneg (s := state) ordered_after
    rw [getStateDuration_moved moves first, if_pos (stays_states.mpr (.inr moved)), onlyFirst_moved moves first,
      ← spent_eq_zero_iff ordered_after, Option.some.injEq, totalSeconds_injective.eq_iff, spent_moved moves first]
    split
    · next same => rw [only_stay created rest, sub_eq_zero]; simp [same]
    · next other => rw [only_stay le_rfl rest]; simp [other]
  · rw [getStateDuration_unmoved moved, not_onlyFirst_unmoved moved]
    have visited : state ∈ r.stays.map Prod.fst ↔ state = r.initialState := by simp [stays_states, moved]
    simp [visited]

theorem totalSeconds_sum {ι : Type} (f : ι → Datetime) (states : Finset ι) :
    ∑ state ∈ states, totalSeconds (f state) = totalSeconds (∑ state ∈ states, f state) := by
  simp only [totalSeconds, ← Finset.sum_div, Int.cast_sum]

theorem addsUp_of_measured (h : ∀ state, r.Measured iso utcnow state) : r.AddsUp iso utcnow := by
  have each : ∀ state ∈ (r.stays.map Prod.fst).toFinset, ((r.machine iso).getStateDuration iso state utcnow).getD 0 =
      totalSeconds (spent state utcnow r.stays) := by
    intro state mem
    rw [h state, if_pos (List.mem_toFinset.mp mem), Option.getD_some]
  rw [AddsUp, Finset.sum_congr rfl each, totalSeconds_sum, sum_spent]
  · rfl
  · intro entry mem
    exact List.mem_toFinset.mpr (List.mem_map_of_mem mem)

end measure

end JobRun

/-- Texts that read back, the epoch's as Python writes it. -/
def epochFormat : IsoFormat where
  isoformat t := "1970-01-01T00:00:00" ++ String.ofList (List.replicate (Equiv.intEquivNat t) '+')
  fromisoformat s := Equiv.intEquivNat.symm (s.length - 19)
  inverse t := by
    have epoch : "1970-01-01T00:00:00".length = 19 := by decide
    simp [epoch]

/-- A job that is created and queried at once. -/
def newJob : JobRun := ⟨"j", .created, 0, []⟩

end JobStateMachine

end timeInState

end H2kvm.Worker
