import Mathlib.Data.Rat.Defs
import Mathlib.Algebra.Order.Field.Rat
import H2kvm.Framework.Data
import H2kvm.Framework.Run

namespace H2kvm.Core

open Framework

inductive CircuitState where
  | closed
  | opened
  | halfOpen
  deriving DecidableEq

structure CircuitOpenError where
  name : String
  remainingSeconds : ℚ
  deriving DecidableEq

structure BreakerConfig where
  name : String := "default"
  failureThreshold : Int := 5
  recoveryTimeout : ℚ := 60
  halfOpenMaxCalls : Int := 1

structure CircuitBreaker where
  state : CircuitState := .closed
  failureCount : Nat := 0
  successCount : Nat := 0
  halfOpenCalls : Nat := 0
  lastFailureTime : ℚ := 0
  openedAt : ℚ := 0
  deriving DecidableEq

namespace CircuitBreaker

/-- `_transition`. -/
def transition (b : CircuitBreaker) (new : CircuitState) (now : ℚ) : CircuitBreaker :=
  match new with
  | .closed => { b with state := .closed, failureCount := 0, successCount := 0, halfOpenCalls := 0 }
  | .opened => { b with state := .opened, openedAt := now, halfOpenCalls := 0, successCount := 0 }
  | .halfOpen => { b with state := .halfOpen, halfOpenCalls := 0, successCount := 0 }

variable (cfg : BreakerConfig)

/-- `_maybe_transition_to_half_open`. -/
def maybeTransitionToHalfOpen (b : CircuitBreaker) (now : ℚ) : CircuitBreaker :=
  if b.state = .opened ∧ cfg.recoveryTimeout ≤ now - b.openedAt then b.transition .halfOpen now else b

def openError (b : CircuitBreaker) (now : ℚ) : CircuitOpenError :=
  ⟨cfg.name, max 0 (cfg.recoveryTimeout - (now - b.openedAt))⟩

/-- `before_call`. -/
def beforeCall (b : CircuitBreaker) (now : ℚ) : CircuitBreaker × Except CircuitOpenError Unit :=
  let b := b.maybeTransitionToHalfOpen cfg now
  match b.state with
  | .closed => (b, .ok ())
  | .opened => (b, .error (b.openError cfg now))
  | .halfOpen =>
    if cfg.halfOpenMaxCalls ≤ b.halfOpenCalls then (b, .error (b.openError cfg now))
    else ({ b with halfOpenCalls := b.halfOpenCalls + 1 }, .ok ())

/-- `record_success`. -/
def recordSuccess (b : CircuitBreaker) (now : ℚ) : CircuitBreaker :=
  if b.state = .halfOpen then
    let b := { b with successCount := b.successCount + 1 }
    if cfg.halfOpenMaxCalls ≤ b.successCount then b.transition .closed now else b
  else { b with failureCount := 0, successCount := b.successCount + 1 }

/-- `record_failure`. -/
def recordFailure (b : CircuitBreaker) (now : ℚ) : CircuitBreaker :=
  let b := { b with failureCount := b.failureCount + 1, lastFailureTime := now }
  match b.state with
  | .halfOpen => b.transition .opened now
  | .closed => if cfg.failureThreshold ≤ b.failureCount then b.transition .opened now else b
  | .opened => b

end CircuitBreaker

/-- What was seen since the breaker last changed its state: the results recorded, the last first,
the calls admitted, and how many of them have succeeded. -/
structure Period where
  number : Nat := 0
  since : ℚ := 0
  results : List Bool := []
  admitted : Nat := 0
  probes : Nat := 0
  deriving DecidableEq

/-- A breaker with its clock and the calls in flight, each with the period it was admitted in. -/
structure Guarded where
  breaker : CircuitBreaker := {}
  now : ℚ := 0
  inFlight : List Nat := []
  period : Period := {}
  deriving DecidableEq

/-- What can happen: the clock goes on, the state is read, a call is made, and a call in flight returns,
raises an `Exception` or is torn down by another `BaseException`, of which the decorator records
nothing. -/
inductive BreakerEvent where
  | tick (now : ℚ)
  | readState
  | call
  | returned (i : Nat)
  | raised (i : Nat)
  | interrupted (i : Nat)

namespace Guarded

variable (cfg : BreakerConfig)

/-- Goes over to the next breaker; a new state starts a new period. -/
def become (s : Guarded) (b : CircuitBreaker) : Guarded :=
  if b.state = s.breaker.state then { s with breaker := b }
  else { s with breaker := b, period := { number := s.period.number + 1, since := s.now } }

/-- The result of a call in flight belongs to the period it is recorded in. -/
def note (s : Guarded) (admittedIn : Nat) (success : Bool) : Guarded :=
  let own := decide (admittedIn = s.period.number)
  { s with period := { s.period with
      results := success :: s.period.results
      probes := if own && success then s.period.probes + 1 else s.period.probes } }

/-- A call that was let through is in flight. -/
def letThrough (s : Guarded) : Guarded :=
  { s with
    inFlight := s.inFlight ++ [s.period.number]
    period := { s.period with admitted := s.period.admitted + 1 } }

/-- Whether `before_call` lets a call through at a time. -/
def admits (s : Guarded) (now : ℚ) : Bool := (s.breaker.beforeCall cfg now).2.isOk

def step (s : Guarded) : BreakerEvent → Guarded
  | .tick now => { s with now := max s.now now }
  | .readState => s.become (s.breaker.maybeTransitionToHalfOpen cfg s.now)
  | .call =>
    let next := s.become (s.breaker.beforeCall cfg s.now).1
    if s.admits cfg s.now then next.letThrough else next
  | .returned i =>
    match s.inFlight[i]? with
    | none => s
    | some n => ({ s.note n true with inFlight := s.inFlight.eraseIdx i }).become (s.breaker.recordSuccess cfg s.now)
  | .raised i =>
    match s.inFlight[i]? with
    | none => s
    | some n => ({ s.note n false with inFlight := s.inFlight.eraseIdx i }).become (s.breaker.recordFailure cfg s.now)
  | .interrupted i => { s with inFlight := s.inFlight.eraseIdx i }

/-- The results recorded in the period, with the one the event records. -/
def resultsAfter (s : Guarded) : BreakerEvent → List Bool
  | .returned i => if (s.inFlight[i]?).isSome then true :: s.period.results else s.period.results
  | .raised i => if (s.inFlight[i]?).isSome then false :: s.period.results else s.period.results
  | _ => s.period.results

/-- The probes of the period that have succeeded, with the one of the event. -/
def probesAfter (s : Guarded) : BreakerEvent → Nat
  | .returned i => if s.inFlight[i]? = some s.period.number then s.period.probes + 1 else s.period.probes
  | _ => s.period.probes

/-- What the breaker promises of a step. -/
structure Protocol (s : Guarded) (e : BreakerEvent) : Prop where
  trips : s.breaker.state = .closed →
    ((s.step cfg e).breaker.state ≠ .closed ↔ List.replicate cfg.failureThreshold.toNat false <+: s.resultsAfter e)
  limits : (s.step cfg e).breaker.state = .halfOpen → (s.step cfg e).period.admitted ≤ cfg.halfOpenMaxCalls
  rejects : s.breaker.state = .opened → s.now < s.period.since + cfg.recoveryTimeout → s.admits cfg s.now = false
  closes : s.breaker.state = .halfOpen → (s.step cfg e).breaker.state = .closed → cfg.halfOpenMaxCalls ≤ s.probesAfter e

/-- A success recorded in HALF_OPEN is that of a call admitted in the same period. -/
def OwnProbe (s : Guarded) : BreakerEvent → Prop
  | .returned i => s.breaker.state = .halfOpen → ∀ n, s.inFlight[i]? = some n → n = s.period.number
  | _ => True

/-- No call admitted in the HALF_OPEN period is torn down in it. -/
def NoLostProbe (s : Guarded) : BreakerEvent → Prop
  | .interrupted i => s.breaker.state = .halfOpen → s.inFlight[i]? ≠ some s.period.number
  | _ => True

end Guarded

end H2kvm.Core

namespace H2kvm.Core.Guarded

open Framework CircuitBreaker

variable {cfg : BreakerConfig} {s s' : Guarded} {e : BreakerEvent}

/-- The breaker goes to HALF_OPEN. -/
def halfOpened (s : Guarded) : Guarded :=
  { s with breaker := s.breaker.transition .halfOpen s.now, period := { number := s.period.number + 1, since := s.now } }

/-- A call in flight has ended with a result. -/
def ended (s : Guarded) (i n : Nat) (success : Bool) : Guarded :=
  { s.note n success with inFlight := s.inFlight.eraseIdx i }

/-- What a step can do. -/
inductive Move (cfg : BreakerConfig) (s : Guarded) : BreakerEvent → Guarded → Prop where
  | tick (now : ℚ) : Move cfg s (.tick now) { s with now := max s.now now }
  | idle (e : BreakerEvent) (results : s.resultsAfter e = s.period.results) (probes : s.probesAfter e = s.period.probes) :
      Move cfg s e s
  | lost (i : Nat) : Move cfg s (.interrupted i) { s with inFlight := s.inFlight.eraseIdx i }
  | probing (h : s.breaker.state = .opened) : Move cfg s .readState s.halfOpened
  | probe (h : s.breaker.state = .opened) :
      Move cfg s .call ({ s.halfOpened with breaker := { s.halfOpened.breaker with halfOpenCalls := 1 } }).letThrough
  | admitted (h : s.breaker.state = .closed) : Move cfg s .call s.letThrough
  | furtherProbe (h : s.breaker.state = .halfOpen) (free : s.breaker.halfOpenCalls < cfg.halfOpenMaxCalls) :
      Move cfg s .call ({ s with breaker := { s.breaker with halfOpenCalls := s.breaker.halfOpenCalls + 1 } }).letThrough
  | succeeded (i n : Nat) (at_i : s.inFlight[i]? = some n) (h : s.breaker.state ≠ .halfOpen) :
      Move cfg s (.returned i)
        { s.ended i n true with breaker := { s.breaker with failureCount := 0, successCount := s.breaker.successCount + 1 } }
  | probeSucceeded (i n : Nat) (at_i : s.inFlight[i]? = some n) (h : s.breaker.state = .halfOpen)
      (few : s.breaker.successCount + 1 < cfg.halfOpenMaxCalls) :
      Move cfg s (.returned i)
        { s.ended i n true with breaker := { s.breaker with successCount := s.breaker.successCount + 1 } }
  | closing (i n : Nat) (at_i : s.inFlight[i]? = some n) (h : s.breaker.state = .halfOpen)
      (enough : cfg.halfOpenMaxCalls ≤ s.breaker.successCount + 1) :
      Move cfg s (.returned i)
        { s with
          inFlight := s.inFlight.eraseIdx i
          breaker := s.breaker.transition .closed s.now
          period := { number := s.period.number + 1, since := s.now } }
  | failed (i n : Nat) (at_i : s.inFlight[i]? = some n) (h : s.breaker.state ≠ .halfOpen)
      (few : s.breaker.state = .closed → s.breaker.failureCount + 1 < cfg.failureThreshold) :
      Move cfg s (.raised i)
        { s.ended i n false with
          breaker := { s.breaker with failureCount := s.breaker.failureCount + 1, lastFailureTime := s.now } }
  | opening (i n : Nat) (at_i : s.inFlight[i]? = some n) (h : s.breaker.state ≠ .opened)
      (enough : s.breaker.state = .closed → cfg.failureThreshold ≤ s.breaker.failureCount + 1) :
      Move cfg s (.raised i)
        { s with
          inFlight := s.inFlight.eraseIdx i
          breaker := { s.breaker with
            state := .opened, failureCount := s.breaker.failureCount + 1, lastFailureTime := s.now, openedAt := s.now,
            halfOpenCalls := 0, successCount := 0 }
          period := { number := s.period.number + 1, since := s.now } }

section inversion

theorem become_same {b : CircuitBreaker} (h : b.state = s.breaker.state) : s.become b = { s with breaker := b } := if_pos h

theorem become_other {b : CircuitBreaker} (h : b.state ≠ s.breaker.state) :
    s.become b = { s with breaker := b, period := { number := s.period.number + 1, since := s.now } } := if_neg h

theorem move_readState (s : Guarded) : Move cfg s .readState (s.step cfg .readState) := by
  simp only [step, maybeTransitionToHalfOpen]
  split
  · rename_i late
    rw [become_other (by rw [late.1]; exact CircuitState.noConfusion)]
    exact .probing late.1
  · rw [become_same rfl]
    exact .idle _ rfl rfl

theorem move_call (probes : 1 ≤ cfg.halfOpenMaxCalls) (s : Guarded) : Move cfg s .call (s.step cfg .call) := by
  by_cases late : s.breaker.state = .opened ∧ cfg.recoveryTimeout ≤ s.now - s.breaker.openedAt
  · have free : ¬cfg.halfOpenMaxCalls ≤ ((0 : Nat) : Int) := by omega
    have before : s.breaker.beforeCall cfg s.now = ({ s.halfOpened.breaker with halfOpenCalls := 1 }, .ok ()) := by
      simp only [beforeCall, maybeTransitionToHalfOpen, if_pos late, transition, if_neg free, halfOpened]
    have other : ({ s.halfOpened.breaker with halfOpenCalls := 1 } : CircuitBreaker).state ≠ s.breaker.state := by
      rw [late.1]
      exact CircuitState.noConfusion
    have result : s.step cfg .call = ({ s.halfOpened with breaker := { s.halfOpened.breaker with halfOpenCalls := 1 } }).letThrough := by
      simp only [step, admits, before]
      rw [become_other other]
      rfl
    rw [result]
    exact .probe late.1
  · have before : s.breaker.maybeTransitionToHalfOpen cfg s.now = s.breaker := if_neg late
    cases state : s.breaker.state with
    | closed =>
      have let' : s.breaker.beforeCall cfg s.now = (s.breaker, .ok ()) := by simp only [beforeCall, before, state]
      have result : s.step cfg .call = s.letThrough := by
        simp only [step, admits, let']
        rw [become_same rfl]
        rfl
      rw [result]
      exact .admitted state
    | opened =>
      have reject : s.breaker.beforeCall cfg s.now = (s.breaker, .error (s.breaker.openError cfg s.now)) := by
        simp only [beforeCall, before, state]
      have result : s.step cfg .call = s := by
        simp only [step, admits, reject]
        rw [become_same rfl]
        rfl
      rw [result]
      exact .idle _ rfl rfl
    | halfOpen =>
      by_cases full : cfg.halfOpenMaxCalls ≤ s.breaker.halfOpenCalls
      · have reject : s.breaker.beforeCall cfg s.now = (s.breaker, .error (s.breaker.openError cfg s.now)) := by
          simp only [beforeCall, before, state, if_pos full]
        have result : s.step cfg .call = s := by
          simp only [step, admits, reject]
          rw [become_same rfl]
          rfl
        rw [result]
        exact .idle _ rfl rfl
      · have let' : s.breaker.beforeCall cfg s.now =
            ({ s.breaker with halfOpenCalls := s.breaker.halfOpenCalls + 1 }, .ok ()) := by
          simp only [beforeCall, before, state, if_neg full]
        have result : s.step cfg .call =
            ({ s with breaker := { s.breaker with halfOpenCalls := s.breaker.halfOpenCalls + 1 } }).letThrough := by
          simp only [step, admits, let']
          exact congrArg letThrough (become_same rfl)
        rw [result]
        exact .furtherProbe state (not_le.mp full)

theorem move_returned (s : Guarded) (i : Nat) : Move cfg s (.returned i) (s.step cfg (.returned i)) := by
  cases at_i : s.inFlight[i]? with
  | none =>
    have result : s.step cfg (.returned i) = s := by simp only [step, at_i]
    rw [result]
    exact .idle _ (by simp [resultsAfter, at_i]) (by simp [probesAfter, at_i])
  | some n =>
    have result : s.step cfg (.returned i) = (s.ended i n true).become (s.breaker.recordSuccess cfg s.now) := by
      simp only [step, at_i, ended]
    rw [result]
    by_cases half : s.breaker.state = .halfOpen
    · by_cases enough : cfg.halfOpenMaxCalls ≤ ((s.breaker.successCount + 1 : Nat) : Int)
      · have recorded : s.breaker.recordSuccess cfg s.now = s.breaker.transition .closed s.now := by
          simp only [recordSuccess, if_pos half, if_pos enough, transition]
        rw [recorded, become_other (by show CircuitState.closed ≠ s.breaker.state; rw [half]; exact CircuitState.noConfusion)]
        exact .closing i n at_i half (by omega)
      · have recorded : s.breaker.recordSuccess cfg s.now = { s.breaker with successCount := s.breaker.successCount + 1 } := by
          simp only [recordSuccess, if_pos half, if_neg enough]
        rw [recorded]
        refine Eq.mpr (congrArg (Move cfg s _) (become_same rfl)) ?_
        exact .probeSucceeded i n at_i half (by omega)
    · have recorded : s.breaker.recordSuccess cfg s.now =
          { s.breaker with failureCount := 0, successCount := s.breaker.successCount + 1 } := by
        simp only [recordSuccess, if_neg half]
      rw [recorded]
      refine Eq.mpr (congrArg (Move cfg s _) (become_same rfl)) ?_
      exact .succeeded i n at_i half

theorem move_raised (s : Guarded) (i : Nat) : Move cfg s (.raised i) (s.step cfg (.raised i)) := by
  cases at_i : s.inFlight[i]? with
  | none =>
    have result : s.step cfg (.raised i) = s := by simp only [step, at_i]
    rw [result]
    exact .idle _ (by simp [resultsAfter, at_i]) rfl
  | some n =>
    have result : s.step cfg (.raised i) = (s.ended i n false).become (s.breaker.recordFailure cfg s.now) := by
      simp only [step, at_i, ended]
    rw [result]
    cases state : s.breaker.state with
    | opened =>
      have recorded : s.breaker.recordFailure cfg s.now =
          { s.breaker with failureCount := s.breaker.failureCount + 1, lastFailureTime := s.now } := by
        simp only [recordFailure, state]
      rw [recorded]
      refine Eq.mpr (congrArg (Move cfg s _) (become_same rfl)) ?_
      exact .failed i n at_i (by rw [state]; exact CircuitState.noConfusion) (fun closed => absurd (state.symm.trans closed) CircuitState.noConfusion)
    | halfOpen =>
      have recorded : s.breaker.recordFailure cfg s.now =
          { s.breaker with
            state := .opened, failureCount := s.breaker.failureCount + 1, lastFailureTime := s.now, openedAt := s.now,
            halfOpenCalls := 0, successCount := 0 } := by
        simp only [recordFailure, state, transition]
      rw [recorded, become_other (by show CircuitState.opened ≠ s.breaker.state; rw [state]; exact CircuitState.noConfusion)]
      exact .opening i n at_i (by rw [state]; exact CircuitState.noConfusion) (fun closed => absurd (state.symm.trans closed) CircuitState.noConfusion)
    | closed =>
      by_cases enough : cfg.failureThreshold ≤ ((s.breaker.failureCount + 1 : Nat) : Int)
      · have recorded : s.breaker.recordFailure cfg s.now =
            { s.breaker with
              state := .opened, failureCount := s.breaker.failureCount + 1, lastFailureTime := s.now, openedAt := s.now,
              halfOpenCalls := 0, successCount := 0 } := by
          simp only [recordFailure, state, if_pos enough, transition]
        rw [recorded, become_other (by show CircuitState.opened ≠ s.breaker.state; rw [state]; exact CircuitState.noConfusion)]
        exact .opening i n at_i (by rw [state]; exact CircuitState.noConfusion) (fun _ => by omega)
      · have recorded : s.breaker.recordFailure cfg s.now =
            { s.breaker with failureCount := s.breaker.failureCount + 1, lastFailureTime := s.now } := by
          simp only [recordFailure, state, if_neg enough]
        rw [recorded]
        refine Eq.mpr (congrArg (Move cfg s _) (become_same rfl)) ?_
        exact .failed i n at_i (by rw [state]; exact CircuitState.noConfusion) (fun _ => by omega)

theorem step_move (probes : 1 ≤ cfg.halfOpenMaxCalls) (s : Guarded) (e : BreakerEvent) : Move cfg s e (s.step cfg e) := by
  cases e with
  | tick now => exact .tick now
  | readState => exact move_readState s
  | call => exact move_call probes s
  | returned i => exact move_returned s i
  | raised i => exact move_raised s i
  | interrupted i => exact .lost i

end inversion

/-- How many of the last results are failures. -/
def streak (results : List Bool) : Nat := (results.takeWhile fun success => !success).length

/-- What the counters of the breaker stand for. -/
structure Counted (cfg : BreakerConfig) (s : Guarded) : Prop where
  past : ∀ n ∈ s.inFlight, n ≤ s.period.number
  closed : s.breaker.state = .closed →
    s.breaker.failureCount = streak s.period.results ∧ s.breaker.failureCount < cfg.failureThreshold
  opened : s.breaker.state = .opened → s.breaker.openedAt = s.period.since
  halfOpen : s.breaker.state = .halfOpen →
    s.period.admitted = s.breaker.halfOpenCalls ∧ s.breaker.halfOpenCalls ≤ cfg.halfOpenMaxCalls ∧
      s.breaker.successCount < cfg.halfOpenMaxCalls

section counted

theorem replicate_prefix_iff {n : Nat} {results : List Bool} :
    List.replicate n false <+: results ↔ n ≤ streak results := by
  induction results generalizing n with
  | nil =>
    rw [List.prefix_nil, List.replicate_eq_nil_iff]
    exact Nat.le_zero.symm
  | cons r results ih =>
    cases n with
    | zero => simp
    | succ n =>
      rw [List.replicate_succ, List.cons_prefix_cons, ih]
      cases r with
      | false => simp [streak]
      | true => simp [streak]

theorem past_eraseIdx (past : ∀ n ∈ s.inFlight, n ≤ s.period.number) (i : Nat) :
    ∀ n ∈ s.inFlight.eraseIdx i, n ≤ s.period.number :=
  fun n hn => past n (List.mem_of_mem_eraseIdx hn)

theorem past_next {ns : List Nat} (past : ∀ n ∈ ns, n ≤ s.period.number) : ∀ n ∈ ns, n ≤ s.period.number + 1 :=
  fun n hn => Nat.le_succ_of_le (past n hn)

theorem past_concat {ns : List Nat} {m : Nat} (past : ∀ n ∈ ns, n ≤ m) : ∀ n ∈ ns ++ [m], n ≤ m := by
  intro n hn
  rcases List.mem_append.mp hn with old | new
  · exact past n old
  · exact (List.mem_singleton.mp new).le

theorem Counted.move (threshold : 1 ≤ cfg.failureThreshold) (probes : 1 ≤ cfg.halfOpenMaxCalls) (h : Counted cfg s)
    (m : Move cfg s e s') : Counted cfg s' := by
  cases m with
  | tick now => exact ⟨h.past, h.closed, h.opened, h.halfOpen⟩
  | idle e results probes => exact h
  | lost i => exact ⟨past_eraseIdx h.past i, h.closed, h.opened, h.halfOpen⟩
  | probing state =>
    refine ⟨past_next h.past, CircuitState.noConfusion, CircuitState.noConfusion, fun _ => ⟨rfl, ?_, ?_⟩⟩
    · show ((0 : Nat) : Int) ≤ _
      omega
    · show ((0 : Nat) : Int) < _
      omega
  | probe state =>
    refine ⟨past_concat (past_next h.past), CircuitState.noConfusion, CircuitState.noConfusion, fun _ => ⟨rfl, ?_, ?_⟩⟩
    · show ((1 : Nat) : Int) ≤ _
      omega
    · show ((0 : Nat) : Int) < _
      omega
  | admitted state =>
    refine ⟨past_concat h.past, h.closed, h.opened, ?_⟩
    intro half
    exact absurd (state.symm.trans half) CircuitState.noConfusion
  | furtherProbe state free =>
    obtain ⟨same, -, few⟩ := h.halfOpen state
    refine ⟨past_concat h.past, h.closed, h.opened, fun _ => ⟨?_, ?_, few⟩⟩
    · show s.period.admitted + 1 = s.breaker.halfOpenCalls + 1
      rw [same]
    · show ((s.breaker.halfOpenCalls + 1 : Nat) : Int) ≤ _
      omega
  | succeeded i n at_i state =>
    refine ⟨past_eraseIdx h.past i, fun _ => ⟨rfl, ?_⟩, h.opened, fun half => absurd half state⟩
    show ((0 : Nat) : Int) < _
    omega
  | probeSucceeded i n at_i state few =>
    obtain ⟨same, most, -⟩ := h.halfOpen state
    refine ⟨past_eraseIdx h.past i, ?_, ?_, fun _ => ⟨same, most, ?_⟩⟩
    · exact fun closed => absurd (state.symm.trans closed) CircuitState.noConfusion
    · exact fun opened => absurd (state.symm.trans opened) CircuitState.noConfusion
    · show ((s.breaker.successCount + 1 : Nat) : Int) < _
      omega
  | closing i n at_i state enough =>
    refine ⟨past_next (past_eraseIdx h.past i), fun _ => ⟨rfl, ?_⟩, CircuitState.noConfusion, CircuitState.noConfusion⟩
    show ((0 : Nat) : Int) < _
    omega
  | failed i n at_i state few =>
    refine ⟨past_eraseIdx h.past i, ?_, h.opened, fun half => absurd half state⟩
    intro closed
    refine ⟨?_, ?_⟩
    · show s.breaker.failureCount + 1 = streak (false :: s.period.results)
      rw [(h.closed closed).1]
      rfl
    · have fewer := few closed
      show ((s.breaker.failureCount + 1 : Nat) : Int) < _
      omega
  | opening i n at_i state enough =>
    exact ⟨past_next (past_eraseIdx h.past i), CircuitState.noConfusion, fun _ => rfl, CircuitState.noConfusion⟩

/-- The breaker leaves CLOSED exactly at the threshold. -/
theorem trips_of_move (threshold : 1 ≤ cfg.failureThreshold) (h : Counted cfg s) (m : Move cfg s e s')
    (closed : s.breaker.state = .closed) :
    s'.breaker.state ≠ .closed ↔ List.replicate cfg.failureThreshold.toNat false <+: s.resultsAfter e := by
  obtain ⟨counts, few⟩ := h.closed closed
  rw [replicate_prefix_iff]
  have stays (same : s.resultsAfter e = s.period.results) (state : s'.breaker.state = .closed) :
      s'.breaker.state ≠ .closed ↔ cfg.failureThreshold.toNat ≤ streak (s.resultsAfter e) := by
    refine iff_of_false (fun left => left state) ?_
    rw [same, ← counts]
    omega
  cases m with
  | tick now => exact stays rfl closed
  | idle e results probes => exact stays results closed
  | lost i => exact stays rfl closed
  | admitted state => exact stays rfl closed
  | succeeded i n at_i state =>
    refine iff_of_false (fun left => left closed) ?_
    have reset : streak (s.resultsAfter (.returned i)) = 0 := by
      rw [resultsAfter, at_i]
      rfl
    rw [reset]
    omega
  | failed i n at_i state few' =>
    refine iff_of_false (fun left => left closed) ?_
    have more : streak (s.resultsAfter (.raised i)) = s.breaker.failureCount + 1 := by
      rw [resultsAfter, at_i, counts]
      rfl
    have fewer := few' closed
    rw [more]
    omega
  | opening i n at_i state enough =>
    refine iff_of_true CircuitState.noConfusion ?_
    have more : streak (s.resultsAfter (.raised i)) = s.breaker.failureCount + 1 := by
      rw [resultsAfter, at_i, counts]
      rfl
    have reached := enough closed
    rw [more]
    omega
  | probing state => exact absurd (state.symm.trans closed) CircuitState.noConfusion
  | probe state => exact absurd (state.symm.trans closed) CircuitState.noConfusion
  | furtherProbe state free => exact absurd (state.symm.trans closed) CircuitState.noConfusion
  | probeSucceeded i n at_i state few' => exact absurd (state.symm.trans closed) CircuitState.noConfusion
  | closing i n at_i state enough => exact absurd (state.symm.trans closed) CircuitState.noConfusion

theorem rejects_of_counted (h : Counted cfg s) (opened : s.breaker.state = .opened)
    (early : s.now < s.period.since + cfg.recoveryTimeout) : s.admits cfg s.now = false := by
  have before : s.breaker.maybeTransitionToHalfOpen cfg s.now = s.breaker := by
    apply if_neg
    intro late
    have due := late.2
    rw [h.opened opened] at due
    exact absurd (le_sub_iff_add_le'.mp due) (not_le.mpr early)
  simp only [admits, beforeCall, before, opened]
  rfl

end counted

/-- In HALF_OPEN the successes counted are those of the period's own probes. -/
def ProbesCounted (s : Guarded) : Prop := s.breaker.state = .halfOpen → s.breaker.successCount = s.period.probes

theorem ProbesCounted.move (h : ProbesCounted s) (own : s.OwnProbe e) (m : Move cfg s e s') : ProbesCounted s' := by
  cases m with
  | tick now => exact h
  | idle e results probes => exact h
  | lost i => exact h
  | probing state => exact fun _ => rfl
  | probe state => exact fun _ => rfl
  | admitted state => exact h
  | furtherProbe state free => exact h
  | succeeded i n at_i state => exact fun half => absurd half state
  | probeSucceeded i n at_i state few =>
    have here : n = s.period.number := own state n at_i
    intro _
    show s.breaker.successCount + 1 = (if decide (n = s.period.number) && true then s.period.probes + 1 else s.period.probes)
    rw [here, h state]
    simp
  | closing i n at_i state enough => exact CircuitState.noConfusion
  | failed i n at_i state few => exact fun half => absurd half state
  | opening i n at_i state enough => exact CircuitState.noConfusion

theorem closes_of_move (h : ProbesCounted s) (own : s.OwnProbe e) (m : Move cfg s e s') (half : s.breaker.state = .halfOpen)
    (closed : s'.breaker.state = .closed) : cfg.halfOpenMaxCalls ≤ s.probesAfter e := by
  have apart : s.breaker.state ≠ .closed := by
    rw [half]
    exact CircuitState.noConfusion
  cases m with
  | closing i n at_i state enough =>
    have here : n = s.period.number := own half n at_i
    have counts := h half
    have more : s.probesAfter (.returned i) = s.period.probes + 1 := by rw [probesAfter, at_i, if_pos (by rw [here])]
    rw [more]
    omega
  | tick now => exact absurd closed apart
  | idle e results probes => exact absurd closed apart
  | lost i => exact absurd closed apart
  | probing state => exact absurd (half.symm.trans state) CircuitState.noConfusion
  | probe state => exact absurd (half.symm.trans state) CircuitState.noConfusion
  | admitted state => exact absurd state apart
  | furtherProbe state free => exact absurd closed apart
  | succeeded i n at_i state => exact absurd half state
  | probeSucceeded i n at_i state few => exact absurd closed apart
  | failed i n at_i state few => exact absurd half state
  | opening i n at_i state enough => cases closed

theorem counted_start (threshold : 1 ≤ cfg.failureThreshold) : Counted cfg {} := by
  refine ⟨fun n hn => (List.not_mem_nil hn).elim, fun _ => ⟨rfl, ?_⟩, CircuitState.noConfusion, CircuitState.noConfusion⟩
  show ((0 : Nat) : Int) < _
  omega

/-- As long as no success of an older call is recorded in HALF_OPEN, the breaker keeps its protocol. -/
theorem protocol_of_ownProbes (cfg : BreakerConfig) (threshold : 1 ≤ cfg.failureThreshold)
    (probes : 1 ≤ cfg.halfOpenMaxCalls) {events : List BreakerEvent} (own : EachStep (step cfg) OwnProbe {} events) :
    EachStep (step cfg) (Protocol cfg) {} events := by
  have start : Counted cfg {} ∧ ProbesCounted {} := ⟨counted_start threshold, CircuitState.noConfusion⟩
  apply eachStep_of_invariant (I := fun s => Counted cfg s ∧ ProbesCounted s) _ start own
  intro s e inv here
  have m := step_move probes s e
  have counted := inv.1.move threshold probes m
  refine ⟨⟨counted, inv.2.move here m⟩, ?_, ?_, ?_, ?_⟩
  · exact trips_of_move threshold inv.1 m
  · intro half
    obtain ⟨same, most, -⟩ := counted.halfOpen half
    rw [same]
    exact most
  · exact rejects_of_counted inv.1
  · exact closes_of_move inv.2 here m

/-- A breaker that opens at the first failure. -/
def eager : BreakerConfig := { failureThreshold := 1 }

/-- The breaker opens, and a probe closes it again. -/
def recovery : List BreakerEvent := [.call, .raised 0, .tick 60, .call, .returned 0]

theorem protocol_recovery :
    (run (step eager) {} recovery).breaker.state = .closed ∧ EachStep (step eager) (Protocol eager) {} recovery := by
  refine ⟨by decide +kernel, protocol_of_ownProbes eager (by decide) (by decide) ?_⟩
  refine ⟨trivial, trivial, trivial, trivial, ?_, trivial⟩
  intro _ n at_i
  have probe : (run (step eager) {} (recovery.take 4)).inFlight[0]? =
      some (run (step eager) {} (recovery.take 4)).period.number := by decide +kernel
  exact Option.some.inj (at_i.symm.trans probe)

/-- A call from before the breaker opened returns while a probe is under way. -/
def lateSuccess : List BreakerEvent := [.call, .call, .raised 0, .tick 60, .call, .returned 0]

theorem lateSuccess_closes : ¬EachStep (step eager) (Protocol eager) {} lateSuccess := by
  intro protocol
  have last := protocol.2.2.2.2.2.1.closes (by decide +kernel) (by decide +kernel)
  exact absurd last (by decide +kernel)

/-- The slots taken in HALF_OPEN are those of successes and of calls that are still in flight. -/
structure SlotsKept (cfg : BreakerConfig) (s : Guarded) : Prop where
  past : ∀ n ∈ s.inFlight, n ≤ s.period.number
  halfOpen : s.breaker.state = .halfOpen →
    s.breaker.successCount < cfg.halfOpenMaxCalls ∧
      s.breaker.halfOpenCalls ≤ s.breaker.successCount + s.inFlight.count s.period.number

section slots

theorem count_eraseIdx_of_ne {l : List Nat} {i m : Nat} (h : l[i]? ≠ some m) : (l.eraseIdx i).count m = l.count m := by
  cases at_i : l[i]? with
  | none => rw [List.eraseIdx_of_length_le (List.getElem?_eq_none_iff.mp at_i)]
  | some n =>
    obtain ⟨before, after, was, erased, -⟩ := split_at at_i
    have apart : n ≠ m := fun same => h (at_i.trans (congrArg some same))
    rw [erased, was, List.count_append, List.count_append, List.count_cons_of_ne apart]

theorem count_le_eraseIdx (l : List Nat) (i m : Nat) : l.count m ≤ (l.eraseIdx i).count m + 1 := by
  by_cases here : l[i]? = some m
  · obtain ⟨before, after, was, erased, -⟩ := split_at here
    rw [erased, was, List.count_append, List.count_append, List.count_cons_self]
    omega
  · rw [count_eraseIdx_of_ne here]
    exact Nat.le_succ _

theorem SlotsKept.move (probes : 1 ≤ cfg.halfOpenMaxCalls) (h : SlotsKept cfg s) (kept : s.NoLostProbe e)
    (m : Move cfg s e s') : SlotsKept cfg s' := by
  cases m with
  | tick now => exact ⟨h.past, h.halfOpen⟩
  | idle e results probes => exact h
  | lost i =>
    refine ⟨past_eraseIdx h.past i, ?_⟩
    intro half
    obtain ⟨few, slots⟩ := h.halfOpen half
    refine ⟨few, ?_⟩
    show s.breaker.halfOpenCalls ≤ s.breaker.successCount + (s.inFlight.eraseIdx i).count s.period.number
    rw [count_eraseIdx_of_ne (kept half)]
    exact slots
  | probing state =>
    refine ⟨past_next h.past, fun _ => ⟨?_, Nat.zero_le _⟩⟩
    show ((0 : Nat) : Int) < _
    omega
  | probe state =>
    refine ⟨past_concat (past_next h.past), fun _ => ⟨?_, ?_⟩⟩
    · show ((0 : Nat) : Int) < _
      omega
    · show 1 ≤ 0 + (s.inFlight ++ [s.period.number + 1]).count (s.period.number + 1)
      rw [List.count_append, List.count_singleton_self]
      omega
  | admitted state =>
    refine ⟨past_concat h.past, ?_⟩
    intro half
    exact absurd (state.symm.trans half) CircuitState.noConfusion
  | furtherProbe state free =>
    obtain ⟨few, slots⟩ := h.halfOpen state
    refine ⟨past_concat h.past, fun _ => ⟨few, ?_⟩⟩
    show s.breaker.halfOpenCalls + 1 ≤ s.breaker.successCount + (s.inFlight ++ [s.period.number]).count s.period.number
    rw [List.count_append, List.count_singleton_self]
    omega
  | succeeded i n at_i state => exact ⟨past_eraseIdx h.past i, fun half => absurd half state⟩
  | probeSucceeded i n at_i state few =>
    obtain ⟨-, slots⟩ := h.halfOpen state
    have fewer := count_le_eraseIdx s.inFlight i s.period.number
    refine ⟨past_eraseIdx h.past i, fun _ => ⟨?_, ?_⟩⟩
    · show ((s.breaker.successCount + 1 : Nat) : Int) < _
      omega
    · show s.breaker.halfOpenCalls ≤ s.breaker.successCount + 1 + (s.inFlight.eraseIdx i).count s.period.number
      omega
  | closing i n at_i state enough => exact ⟨past_next (past_eraseIdx h.past i), CircuitState.noConfusion⟩
  | failed i n at_i state few => exact ⟨past_eraseIdx h.past i, fun half => absurd half state⟩
  | opening i n at_i state enough => exact ⟨past_next (past_eraseIdx h.past i), CircuitState.noConfusion⟩

theorem SlotsKept.admits_later (probes : 1 ≤ cfg.halfOpenMaxCalls) (h : SlotsKept cfg s) (idle : s.inFlight = []) :
    ∃ t, s.now ≤ t ∧ s.admits cfg t = true := by
  cases state : s.breaker.state with
  | closed =>
    have before : s.breaker.maybeTransitionToHalfOpen cfg s.now = s.breaker := if_neg (by simp [state])
    refine ⟨s.now, le_refl _, ?_⟩
    simp only [admits, beforeCall, before, state]
    rfl
  | opened =>
    refine ⟨max s.now (s.breaker.openedAt + cfg.recoveryTimeout), le_max_left _ _, ?_⟩
    have late : cfg.recoveryTimeout ≤ max s.now (s.breaker.openedAt + cfg.recoveryTimeout) - s.breaker.openedAt :=
      le_sub_iff_add_le'.mpr (le_max_right _ _)
    have free : ¬cfg.halfOpenMaxCalls ≤ ((0 : Nat) : Int) := by omega
    simp only [admits, beforeCall, maybeTransitionToHalfOpen, if_pos (And.intro state late), transition, if_neg free]
    rfl
  | halfOpen =>
    have before : s.breaker.maybeTransitionToHalfOpen cfg s.now = s.breaker := if_neg (by simp [state])
    obtain ⟨few, slots⟩ := h.halfOpen state
    have none : s.inFlight.count s.period.number = 0 := by rw [idle, List.count_nil]
    have free : ¬cfg.halfOpenMaxCalls ≤ (s.breaker.halfOpenCalls : Int) := by omega
    refine ⟨s.now, le_refl _, ?_⟩
    simp only [admits, beforeCall, before, state, if_neg free]
    rfl

end slots

/-- As long as no probe is torn down, the breaker admits a call sooner or later whenever none is in flight. -/
theorem admits_later_of_noLostProbe (cfg : BreakerConfig) (probes : 1 ≤ cfg.halfOpenMaxCalls) {events : List BreakerEvent}
    (kept : EachStep (step cfg) NoLostProbe {} events) {pre : List BreakerEvent} (hp : pre <+: events)
    (idle : (run (step cfg) {} pre).inFlight = []) :
    ∃ t, (run (step cfg) {} pre).now ≤ t ∧ (run (step cfg) {} pre).admits cfg t = true := by
  obtain ⟨post, rfl⟩ := hp
  have upto := (eachStep_append.mp kept).1
  have start : SlotsKept cfg {} := ⟨fun n hn => (List.not_mem_nil hn).elim, CircuitState.noConfusion⟩
  have slots : SlotsKept cfg (run (step cfg) {} pre) := by
    apply invariant_of_eachStep (I := SlotsKept cfg) _ start upto
    exact fun s e h kept => h.move probes kept (step_move probes s e)
  exact slots.admits_later probes idle

/-- A probe fails, and the breaker opens once more. -/
def failedProbe : List BreakerEvent := [.call, .raised 0, .tick 60, .call, .raised 0]

theorem admits_after_failedProbe :
    (run (step eager) {} failedProbe).breaker.state = .opened ∧
      ∃ t, (run (step eager) {} failedProbe).now ≤ t ∧ (run (step eager) {} failedProbe).admits eager t = true := by
  refine ⟨by decide +kernel, admits_later_of_noLostProbe eager (by decide) ?_ List.prefix_rfl (by decide +kernel)⟩
  exact ⟨trivial, trivial, trivial, trivial, trivial, trivial⟩

/-- The probe is torn down by a `KeyboardInterrupt`. -/
def tornProbe : List BreakerEvent := [.call, .raised 0, .tick 60, .call, .interrupted 0]

theorem tornProbe_stuck :
    (run (step eager) {} tornProbe).inFlight = [] ∧
      ¬∃ t, (run (step eager) {} tornProbe).now ≤ t ∧ (run (step eager) {} tornProbe).admits eager t = true := by
  refine ⟨by decide +kernel, ?_⟩
  intro ⟨t, _, admitted⟩
  have breaker : (run (step eager) {} tornProbe).breaker =
      { state := .halfOpen, failureCount := 1, halfOpenCalls := 1 } := by decide +kernel
  rw [admits, breaker] at admitted
  have rejected : (beforeCall eager { state := .halfOpen, failureCount := 1, halfOpenCalls := 1 } t).2.isOk = false := by
    simp only [beforeCall, maybeTransitionToHalfOpen, eager]
    rfl
  exact absurd (rejected.symm.trans admitted) (by decide)

end H2kvm.Core.Guarded
