import H2kvm.Framework.Since
import Mathlib.Data.Finset.Card

namespace H2kvm.Worker

open Framework

/-- A `HealthServer` and the HTTP servers it has made, by number. The attributes that `__init__` leaves
unset are `none` until a method sets them; a thread is named by the server it serves. -/
structure HealthServer where
  port : Nat
  activeJobs : Int := 0
  httpd : Option (Option Nat) := none
  thread : Option (Option Nat) := none
  logger : Option Unit := none
  serving : Finset Nat := ∅
  launched : Nat := 0

namespace HealthServer

/-- What a call leaves, and the attribute it read unset, if it did. -/
abbrev Result : Type := HealthServer × Option String

/-- A call on the object. `bound` says whether the port can be had, as far as other programs go. -/
inductive Call where
  | start (bound : Bool)
  | stop
  | incrementActiveJobs
  | decrementActiveJobs
  | read
  deriving DecidableEq

variable (s : HealthServer)

/-- `self._logger`, before a line is logged. -/
def log : Result :=
  match s.logger with
  | some () => (s, none)
  | none => (s, some "_logger")

/-- `HTTPServer((host, port), ...)` raises no `OSError`: port 0 is any free one, another must not be
in use. -/
def canBind (bound : Bool) : Bool := bound && (s.port = 0 || s.serving = ∅)

def start (bound : Bool) : Result :=
  match s.thread with
  | none => (s, some "_thread")
  | some thread =>
    if thread.any (· ∈ s.serving) then (s, none)
    else if s.canBind bound then
      log { s with httpd := some (some s.launched), thread := some (some s.launched)
                   serving := insert s.launched s.serving, launched := s.launched + 1 }
    else s.log

/-- The first block of `stop`. -/
def shutdown (httpd : Option Nat) : HealthServer :=
  match httpd with
  | some n => { s with serving := s.serving.erase n, httpd := some none }
  | none => s

def stop : Result :=
  match s.httpd with
  | none => (s, some "_httpd")
  | some httpd =>
    match s.thread with
    | none => (s.shutdown httpd, some "_thread")
    | some _ => log { s.shutdown httpd with thread := some none }

def incrementActiveJobs : HealthServer := { s with activeJobs := s.activeJobs + 1 }

/-- The three attributes are set here and not by `__init__`. -/
def decrementActiveJobs : HealthServer :=
  { s with activeJobs := max 0 (s.activeJobs - 1), httpd := some none, thread := some none, logger := some () }

def call : Call → Result
  | .start bound => s.start bound
  | .stop => s.stop
  | .incrementActiveJobs => (s.incrementActiveJobs, none)
  | .decrementActiveJobs => (s.decrementActiveJobs, none)
  | .read => (s, none)

def step (c : Call) : HealthServer := (s.call c).1

/-- A call reads no unset attribute and leaves a count that is not negative and at most one server, which
`stop` shuts down. -/
def Safe (c : Call) : Prop :=
  (s.call c).2 = none ∧ 0 ≤ (s.step c).activeJobs ∧ (s.step c).serving.card ≤ 1 ∧
    (c = .stop → ∀ n < s.launched, n ∉ (s.step c).serving)

section past

/-- A start that could have the port, and no stop since. -/
def Up (calls : List Call) : Prop := Since (fun _ c => c = .start true) (· ≠ .stop) calls

/-- A decrement while the server is up, and no stop since. -/
def Lost (calls : List Call) : Prop := Since (fun before c => Up before ∧ c = .decrementActiveJobs) (· ≠ .stop) calls

/-- Where the calls before allow one: a start or stop needs an earlier decrement, and after a decrement while
the server was up neither a stop nor, on port 0, a start that makes another. -/
def Allowed (port : Nat) (before : List Call) : Call → Prop
  | .start bound => .decrementActiveJobs ∈ before ∧ (port = 0 → bound = true → ¬ Lost before)
  | .stop => .decrementActiveJobs ∈ before ∧ ¬ Lost before
  | _ => True

variable {calls : List Call} {c : Call}

theorem up_concat : Up (calls ++ [c]) ↔ c = .start true ∨ c ≠ .stop ∧ Up calls := since_concat

theorem lost_concat : Lost (calls ++ [c]) ↔ (Up calls ∧ c = .decrementActiveJobs) ∨ c ≠ .stop ∧ Lost calls := since_concat

theorem Lost.up (h : Lost calls) : Up calls := by
  induction calls using List.reverseRecOn with
  | nil => exact absurd h not_since_nil
  | append_singleton calls c ih =>
    rw [up_concat]
    rcases lost_concat.mp h with ⟨up, rfl⟩ | ⟨other, lost⟩
    · exact .inr ⟨by decide, up⟩
    · exact .inr ⟨other, ih lost⟩

end past

/-- What the calls so far make of the attributes and the servers. -/
inductive Phase (calls : List Call) (s : HealthServer) : Prop where
  | unset (never : .decrementActiveJobs ∉ calls) (down : ¬ Up calls) (httpd : s.httpd = none) (thread : s.thread = none)
      (serving : s.serving = ∅)
  | down (set : .decrementActiveJobs ∈ calls) (down : ¬ Up calls) (logger : s.logger = some ())
      (httpd : s.httpd = some none) (thread : s.thread = some none) (serving : s.serving = ∅)
  | up (n : Nat) (set : .decrementActiveJobs ∈ calls) (up : Up calls) (kept : ¬ Lost calls) (logger : s.logger = some ())
      (httpd : s.httpd = some (some n)) (thread : s.thread = some (some n)) (serving : s.serving = {n})
      (launched : n < s.launched)
  | lost (n : Nat) (set : .decrementActiveJobs ∈ calls) (lost : Lost calls) (logger : s.logger = some ())
      (httpd : s.httpd = some none) (thread : s.thread = some none) (serving : s.serving = {n}) (launched : n < s.launched)

structure Reflects (port : Nat) (calls : List Call) (s : HealthServer) : Prop where
  port : s.port = port
  activeJobs : 0 ≤ s.activeJobs
  phase : Phase calls s

variable {port : Nat} {calls : List Call} {s : HealthServer}

@[simp] theorem log_eq (h : s.logger = some ()) : s.log = (s, none) := by
  rw [log, h]

theorem Phase.idle {c : Call} (h : Phase calls s) (jobs : Int) (idle : c = .incrementActiveJobs ∨ c = .read) :
    Phase (calls ++ [c]) { s with activeJobs := jobs } := by
  have up : Up (calls ++ [c]) ↔ Up calls := by rcases idle with rfl | rfl <;> simp [up_concat]
  have lost : Lost (calls ++ [c]) ↔ Lost calls := by rcases idle with rfl | rfl <;> simp [lost_concat]
  have set : .decrementActiveJobs ∈ calls ++ [c] ↔ .decrementActiveJobs ∈ calls := by rcases idle with rfl | rfl <;> simp
  cases h with
  | unset never down httpd thread serving => exact .unset (set.not.mpr never) (up.not.mpr down) httpd thread serving
  | down setBefore down logger httpd thread serving =>
    exact .down (set.mpr setBefore) (up.not.mpr down) logger httpd thread serving
  | up n setBefore upBefore kept logger httpd thread serving launched =>
    exact .up n (set.mpr setBefore) (up.mpr upBefore) (lost.not.mpr kept) logger httpd thread serving launched
  | lost n setBefore lostBefore logger httpd thread serving launched =>
    exact .lost n (set.mpr setBefore) (lost.mpr lostBefore) logger httpd thread serving launched

/-- At most one server serves between calls. -/
theorem Phase.card_le (h : Phase calls s) : s.serving.card ≤ 1 := by
  cases h <;> simp [*]

theorem step_idle {c : Call} (h : Reflects port calls s) (idle : c = .incrementActiveJobs ∨ c = .read) :
    s.Safe c ∧ Reflects port (calls ++ [c]) (s.step c) := by
  obtain ⟨ports, jobs, phase⟩ := h
  rcases idle with rfl | rfl
  · have more : 0 ≤ s.activeJobs + 1 := by omega
    exact ⟨⟨rfl, more, phase.card_le, nofun⟩, ports, more, phase.idle (s.activeJobs + 1) (.inl rfl)⟩
  · exact ⟨⟨rfl, jobs, phase.card_le, nofun⟩, ports, jobs, phase.idle s.activeJobs (.inr rfl)⟩

theorem step_decrement (h : Reflects port calls s) :
    s.Safe .decrementActiveJobs ∧ Reflects port (calls ++ [.decrementActiveJobs]) (s.step .decrementActiveJobs) := by
  obtain ⟨ports, jobs, phase⟩ := h
  have less : 0 ≤ max 0 (s.activeJobs - 1) := le_max_left _ _
  refine ⟨⟨rfl, less, phase.card_le, nofun⟩, ports, less, ?_⟩
  cases phase with
  | unset never down httpd thread serving => exact .down (by simp) (by simp [up_concat, down]) rfl rfl rfl serving
  | down set down logger httpd thread serving => exact .down (by simp) (by simp [up_concat, down]) rfl rfl rfl serving
  | up n set up kept logger httpd thread serving launched =>
    exact .lost n (by simp) (by simp [lost_concat, up]) rfl rfl rfl serving launched
  | lost n set lost logger httpd thread serving launched =>
    exact .lost n (by simp) (by simp [lost_concat, lost]) rfl rfl rfl serving launched

theorem step_stop (h : Reflects port calls s) :
    (s.Safe .stop ↔ Allowed port calls .stop) ∧
      (Allowed port calls .stop → Reflects port (calls ++ [.stop]) (s.step .stop)) := by
  obtain ⟨ports, jobs, phase⟩ := h
  cases phase with
  | unset never down httpd thread serving => simp [Safe, Allowed, call, stop, httpd, never]
  | down set down logger httpd thread serving =>
    have lost : ¬ Lost calls := fun lost => down lost.up
    have stopped : s.call .stop = ({ s with thread := some none }, none) := by
      simp [call, stop, httpd, thread, shutdown, logger]
    refine ⟨by simp [Safe, Allowed, step, stopped, set, lost, jobs, serving], fun _ => ?_⟩
    rw [step, stopped]
    exact ⟨ports, jobs, .down (by simp [set]) (by simp [up_concat]) logger httpd rfl serving⟩
  | up n set up kept logger httpd thread serving launched =>
    have stopped : s.call .stop = ({ s with serving := ∅, httpd := some none, thread := some none }, none) := by
      simp [call, stop, httpd, thread, shutdown, logger, serving]
    refine ⟨by simp [Safe, Allowed, step, stopped, set, kept, jobs], fun _ => ?_⟩
    rw [step, stopped]
    exact ⟨ports, jobs, .down (by simp [set]) (by simp [up_concat]) logger rfl rfl rfl⟩
  | lost n set lost logger httpd thread serving launched =>
    have stopped : s.call .stop = ({ s with thread := some none }, none) := by
      simp [call, stop, httpd, thread, shutdown, logger]
    have kept : ¬ s.Safe .stop := by
      rintro ⟨-, -, -, shut⟩
      rw [step, stopped] at shut
      exact shut rfl n launched (by simp [serving])
    simp [Allowed, kept, lost]

theorem step_start (bound : Bool) (h : Reflects port calls s) :
    (s.Safe (.start bound) ↔ Allowed port calls (.start bound)) ∧
      (Allowed port calls (.start bound) → Reflects port (calls ++ [.start bound]) (s.step (.start bound))) := by
  obtain ⟨ports, jobs, phase⟩ := h
  cases phase with
  | unset never down httpd thread serving => simp [Safe, Allowed, call, start, thread, never]
  | down set down logger httpd thread serving =>
    have lost : ¬ Lost calls := fun lost => down lost.up
    have binds : s.canBind bound = bound := by simp [canBind, serving]
    cases bound with
    | false =>
      have started : s.call (.start false) = (s, none) := by simp [call, start, thread, binds, logger]
      refine ⟨by simp [Safe, Allowed, step, started, set, jobs, serving], fun _ => ?_⟩
      rw [step, started]
      exact ⟨ports, jobs, .down (by simp [set]) (by simp [up_concat, down]) logger httpd thread serving⟩
    | true =>
      have started : s.call (.start true) =
          ({ s with httpd := some (some s.launched), thread := some (some s.launched), serving := {s.launched}
                    launched := s.launched + 1 }, none) := by
        simp [call, start, thread, binds, logger, serving]
      refine ⟨by simp [Safe, Allowed, step, started, set, jobs, lost], fun _ => ?_⟩
      rw [step, started]
      exact ⟨ports, jobs, .up s.launched (by simp [set]) (by simp [up_concat]) (by simp [lost_concat, lost]) logger rfl rfl
        rfl (Nat.lt_succ_self _)⟩
  | up n set up kept logger httpd thread serving launched =>
    have started : s.call (.start bound) = (s, none) := by simp [call, start, thread, serving]
    refine ⟨by simp [Safe, Allowed, step, started, set, jobs, kept, serving], fun _ => ?_⟩
    rw [step, started]
    exact ⟨ports, jobs, .up n (by simp [set]) (by simp [up_concat, up]) (by simp [lost_concat, kept]) logger httpd thread
      serving launched⟩
  | lost n set lost logger httpd thread serving launched =>
    by_cases free : port = 0 ∧ bound = true
    · obtain ⟨rfl, rfl⟩ := free
      have started : s.call (.start true) =
          ({ s with httpd := some (some s.launched), thread := some (some s.launched)
                    serving := insert s.launched s.serving, launched := s.launched + 1 }, none) := by
        simp [call, start, thread, canBind, ports, logger]
      have two : ({s.launched, n} : Finset Nat).card = 2 := Finset.card_pair launched.ne'
      have second : ¬ s.Safe (.start true) := by
        rintro ⟨-, -, one, -⟩
        rw [step, started] at one
        simp only [serving] at one
        omega
      simp [Allowed, second, lost]
    · have started : s.call (.start bound) = (s, none) := by
        have refused : s.canBind bound = false := by
          simp only [canBind, ports, serving, Finset.singleton_ne_empty]
          cases bound <;> simp_all
        simp [call, start, thread, refused, logger]
      have allowed : Allowed port calls (.start bound) := ⟨set, fun zero have_port => absurd ⟨zero, have_port⟩ free⟩
      refine ⟨iff_of_true ?_ allowed, fun _ => ?_⟩
      · simp [Safe, step, started, jobs, serving]
      · rw [step, started]
        exact ⟨ports, jobs, .lost n (by simp [set]) (by simp [lost_concat, lost]) logger httpd thread serving launched⟩

theorem step_safe_iff (c : Call) (h : Reflects port calls s) : s.Safe c ↔ Allowed port calls c := by
  cases c with
  | start bound => exact (step_start bound h).1
  | stop => exact (step_stop h).1
  | incrementActiveJobs => exact iff_of_true (step_idle h (.inl rfl)).1 trivial
  | decrementActiveJobs => exact iff_of_true (step_decrement h).1 trivial
  | read => exact iff_of_true (step_idle h (.inr rfl)).1 trivial

theorem step_reflects (c : Call) (h : Reflects port calls s) (allowed : Allowed port calls c) :
    Reflects port (calls ++ [c]) (s.step c) := by
  cases c with
  | start bound => exact (step_start bound h).2 allowed
  | stop => exact (step_stop h).2 allowed
  | incrementActiveJobs => exact (step_idle h (.inl rfl)).2
  | decrementActiveJobs => exact (step_decrement h).2
  | read => exact (step_idle h (.inr rfl)).2

theorem new_reflects (port : Nat) : Reflects port [] { port } :=
  ⟨rfl, le_rfl, .unset List.not_mem_nil not_since_nil rfl rfl rfl⟩

/-- The calls on a new server are safe exactly if each comes where the ones before it allow it. -/
theorem safe_iff (port : Nat) (calls : List Call) :
    EachStep step Safe { port } calls ↔ ∀ before c, before ++ [c] <+: calls → Allowed port before c :=
  eachStep_iff_past (fun _ _ c reflects => step_reflects c reflects) (fun _ _ c reflects => step_safe_iff c reflects)
    (new_reflects port) calls

/-- A new server that is started, as `WorkerEngine` does it, has no `_thread` to look at. -/
theorem not_safe_start : ¬ EachStep step Safe { port := 8081 } [.start true] := by
  rintro ⟨⟨set, -⟩, -⟩
  cases set

end HealthServer

end H2kvm.Worker
