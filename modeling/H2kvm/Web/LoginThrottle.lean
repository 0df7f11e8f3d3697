import Mathlib.Logic.Function.Basic
import H2kvm.Framework.Data
import H2kvm.Framework.Run

namespace H2kvm.Web

open Framework

/-- A login request: who the client is, and what the server sees of it, the address with its port and the `X-Real-Ip`
header. -/
structure LoginRequest where
  host : String
  remoteAddr : String
  realIp : String := ""
  deriving DecidableEq

/-- The key `handleLogin` counts failures under. -/
def LoginRequest.clientIP (r : LoginRequest) : String := if r.realIp ≠ "" then r.realIp else r.remoteAddr

structure LoginAttempt where
  count : Nat
  firstAt : Nat
  deriving DecidableEq

def loginRateMaxAttempts : Nat := 5

/-- Five minutes in nanoseconds. -/
def loginRateWindow : Nat := 5 * 60 * 1000000000

/-- A request that was let through: its password is still to be checked, or it is still to be recorded that the check
failed or succeeded. -/
inductive LoginPhase where
  | checked
  | failed
  | succeeded
  deriving DecidableEq

inductive LoginEntry where
  | failure (host : String) (time : Nat)
  | success (host : String)
  deriving DecidableEq

/-- The table of failures, the clock, the requests under way, and the password checks that failed and the logins so far,
the last first. -/
structure Logins where
  loginRates : String → Option LoginAttempt := fun _ => none
  now : Nat := 0
  requests : List (LoginRequest × LoginPhase) := []
  log : List LoginEntry := []

inductive LoginEvent where
  | tick (now : Nat)
  | arrive (r : LoginRequest)
  | refuse (i : Nat)
  | authenticate (i : Nat) (ok : Bool)
  | settle (i : Nat)

namespace Logins

variable (s : Logins)

def expired (attempt : LoginAttempt) : Bool := loginRateWindow < s.now - attempt.firstAt

/-- `checkLoginRate`. -/
def checkLoginRate (ip : String) : Logins × Bool :=
  match s.loginRates ip with
  | none => (s, false)
  | some attempt =>
    if s.expired attempt then ({ s with loginRates := Function.update s.loginRates ip none }, false)
    else (s, loginRateMaxAttempts ≤ attempt.count)

def startCounting (ip : String) : Logins :=
  { s with loginRates := Function.update s.loginRates ip (some ⟨1, s.now⟩) }

/-- `recordLoginFailure`. -/
def recordLoginFailure (ip : String) : Logins :=
  match s.loginRates ip with
  | none => s.startCounting ip
  | some attempt =>
    if s.expired attempt then s.startCounting ip
    else { s with loginRates := Function.update s.loginRates ip (some { attempt with count := attempt.count + 1 }) }

/-- `resetLoginRate`. -/
def resetLoginRate (ip : String) : Logins := { s with loginRates := Function.update s.loginRates ip none }

/-- The next part of `handleLogin` for one of the requests. -/
def step : LoginEvent → Logins
  | .tick now => { s with now := max s.now now }
  | .arrive r =>
    match s.checkLoginRate r.clientIP with
    | (s, true) => s
    | (s, false) => { s with requests := s.requests ++ [(r, .checked)] }
  | .refuse i => if (s.requests[i]?).map Prod.snd = some .checked then { s with requests := s.requests.eraseIdx i } else s
  | .authenticate i ok =>
    match s.requests[i]? with
    | some (r, .checked) =>
      if ok then { s with requests := s.requests.set i (r, .succeeded) }
      else { s with requests := s.requests.set i (r, .failed), log := .failure r.host s.now :: s.log }
    | _ => s
  | .settle i =>
    match s.requests[i]? with
    | some (r, .failed) => ({ s with requests := s.requests.eraseIdx i }).recordLoginFailure r.clientIP
    | some (r, .succeeded) =>
      ({ s with requests := s.requests.eraseIdx i, log := .success r.host :: s.log }).resetLoginRate r.clientIP
    | _ => s

/-- When the checks failed that a host has had since its last login. -/
def failuresIn (host : String) : List LoginEntry → List Nat
  | [] => []
  | .failure h t :: log => if h = host then t :: failuresIn host log else failuresIn host log
  | .success h :: log => if h = host then [] else failuresIn host log

def failures (host : String) : List Nat := failuresIn host s.log

/-- Between two logins of a host no more checks than allowed have failed in a window of time. -/
def Throttled : Prop :=
  ∀ host start, (s.failures host).countP (fun t => start ≤ t ∧ t ≤ start + loginRateWindow) ≤ loginRateMaxAttempts

def inPhase (host : String) (phase : LoginPhase) : Nat := s.requests.countP fun e => e.1.host = host ∧ e.2 = phase

/-- The checks of a host that failed in the last window. -/
def recent (host : String) : Nat := (s.failures host).countP fun t => s.now ≤ t + loginRateWindow

/-- The failures that count against a key. -/
def countOf (ip : String) : Nat := ((s.loginRates ip).filter fun attempt => ! s.expired attempt).elim 0 (·.count)

def isExpired (ip : String) : Bool := (s.loginRates ip).any s.expired

/-- An entry whose time is over has no failure of the last window in it: those there are have still to be recorded. -/
def OutOfDate (host ip : String) : Prop := s.isExpired ip = true → s.recent host ≤ s.inPhase host .failed

/-- The hosts have keys of their own, a request that is let through leaves room for those under way, and an entry that
is given up is out of date. -/
def Orderly (key : String → String) : LoginEvent → Prop
  | .arrive r => r.clientIP = key r.host ∧ s.OutOfDate r.host r.clientIP ∧
      ((s.checkLoginRate r.clientIP).2 = false →
        s.countOf r.clientIP + s.inPhase r.host .checked + s.inPhase r.host .failed < loginRateMaxAttempts)
  | .settle i =>
    match s.requests[i]? with
    | some (r, .failed) => s.OutOfDate r.host r.clientIP
    | _ => True
  | _ => True

instance (host ip : String) : Decidable (s.OutOfDate host ip) := inferInstanceAs (Decidable (_ → _))

instance (key : String → String) (e : LoginEvent) : Decidable (s.Orderly key e) := by
  cases e with
  | arrive r => exact inferInstanceAs (Decidable (_ ∧ _ ∧ (_ → _)))
  | settle i =>
    unfold Orderly
    dsimp only
    split <;> infer_instance
  | _ => exact inferInstanceAs (Decidable True)

end Logins

end H2kvm.Web

namespace H2kvm.Web.Logins

open Framework

variable {s s' : Logins} {key : String → String} {host ip : String} {r : LoginRequest} {phase : LoginPhase} {i : Nat}

def entryCount (s : Logins) (ip : String) : Nat := (s.loginRates ip).elim 0 (·.count)

/-- What keeps a host throttled: the checks of the last window that failed, with those still to be made, do not exceed
the limit, and each of them is in the table or still to be recorded. -/
structure Bounded (key : String → String) (s : Logins) (host : String) : Prop where
  fits : s.recent host + s.inPhase host .checked ≤ loginRateMaxAttempts
  counted : s.recent host ≤ s.entryCount (key host) + s.inPhase host .failed
  past : ∀ start, (s.failures host).countP (fun t => start ≤ t ∧ t ≤ start + loginRateWindow) ≤ loginRateMaxAttempts

structure Kept (key : String → String) (s : Logins) : Prop where
  keyed : ∀ e ∈ s.requests, e.1.clientIP = key e.1.host
  bounded : ∀ host, Bounded key s host

/-- What concerns a host is as before. -/
theorem Bounded.congr (h : Bounded key s host) (now : s.now = s'.now) (failures : s'.failures host = s.failures host)
    (checked : s'.inPhase host .checked ≤ s.inPhase host .checked)
    (failed : s'.inPhase host .failed = s.inPhase host .failed)
    (count : s'.entryCount (key host) = s.entryCount (key host)) : Bounded key s' host := by
  have recent : s'.recent host = s.recent host := by rw [Logins.recent, Logins.recent, failures, now]
  refine ⟨?_, ?_, ?_⟩
  · have := h.fits
    omega
  · rw [recent, count, failed]
    exact h.counted
  · rw [failures]
    exact h.past

theorem inPhase_erase (found : s.requests[i]? = some (r, phase)) (host : String) (p : LoginPhase) :
    (s.requests.eraseIdx i).countP (fun e => e.1.host = host ∧ e.2 = p) + (if r.host = host ∧ phase = p then 1 else 0) =
      s.inPhase host p := by
  have count := countP_eraseIdx found fun e => decide (e.1.host = host ∧ e.2 = p)
  unfold inPhase
  simpa only [decide_eq_true_eq] using count

theorem inPhase_set (found : s.requests[i]? = some (r, phase)) (phase' : LoginPhase) (host : String) (p : LoginPhase) :
    (s.requests.set i (r, phase')).countP (fun e => e.1.host = host ∧ e.2 = p) +
        (if r.host = host ∧ phase = p then 1 else 0) =
      s.inPhase host p + (if r.host = host ∧ phase' = p then 1 else 0) := by
  have count := countP_set found (r, phase') fun e => decide (e.1.host = host ∧ e.2 = p)
  unfold inPhase
  simpa only [decide_eq_true_eq] using count

theorem recent_le (h : Bounded key s host) (outOfDate : s.OutOfDate host (key host)) :
    s.recent host ≤ s.countOf (key host) + s.inPhase host .failed := by
  by_cases lapsed : s.isExpired (key host) = true
  · have := outOfDate lapsed
    omega
  · have counted := h.counted
    have same : s.countOf (key host) = s.entryCount (key host) := by
      unfold countOf entryCount
      cases entry : s.loginRates (key host) with
      | none => rfl
      | some attempt =>
        have valid : s.expired attempt = false := by simpa [isExpired, entry] using lapsed
        simp [Option.filter, valid]
    omega

theorem Kept.tick (h : Kept key s) (now : Nat) : Kept key (s.step (.tick now)) := by
  refine ⟨h.keyed, fun host => ?_⟩
  have later : (s.step (.tick now)).recent host ≤ s.recent host := by
    apply List.countP_mono_left
    intro t _ inside
    have still : max s.now now ≤ t + loginRateWindow := of_decide_eq_true inside
    have : s.now ≤ t + loginRateWindow := (le_max_left _ _).trans still
    simpa using this
  have fits := (h.bounded host).fits
  have counted := (h.bounded host).counted
  exact ⟨(Nat.add_le_add_right later _).trans fits, later.trans counted, (h.bounded host).past⟩

section Arrive

theorem check_limited (limited : (s.checkLoginRate ip).2 = true) : (s.checkLoginRate ip).1 = s := by
  unfold checkLoginRate at limited ⊢
  split at limited
  · cases limited
  · split at limited
    · cases limited
    · next valid => rw [if_neg valid]

theorem check_table (s : Logins) (ip : String) : ∃ table, (s.checkLoginRate ip).1 = { s with loginRates := table } ∧
    (∀ other, other ≠ ip → table other = s.loginRates other) ∧ (table ip).elim 0 (·.count) = s.countOf ip := by
  unfold checkLoginRate countOf
  cases entry : s.loginRates ip with
  | none => exact ⟨s.loginRates, rfl, fun _ _ => rfl, by simp [entry]⟩
  | some attempt =>
    dsimp only
    split
    · next lapsed =>
      refine ⟨_, rfl, fun other apart => Function.update_of_ne apart _ _, ?_⟩
      simp [Option.filter, lapsed]
    · next valid =>
      refine ⟨s.loginRates, rfl, fun _ _ => rfl, ?_⟩
      simp [entry, Option.filter, valid]

theorem Kept.arrive (injective : Function.Injective key) (h : Kept key s) (orderly : s.Orderly key (.arrive r)) :
    Kept key (s.step (.arrive r)) := by
  obtain ⟨keyed, outOfDate, room⟩ := orderly
  simp only [step]
  split
  · next s' limited =>
    have same : (s.checkLoginRate r.clientIP).1 = s := check_limited (by rw [limited])
    rw [limited] at same
    rw [show s' = s from same]
    exact h
  · next s' free =>
    have space := room (by rw [free])
    obtain ⟨table, same, others, count⟩ := check_table s r.clientIP
    rw [free] at same
    subst same
    refine ⟨?_, fun host => ?_⟩
    · intro e member
      rcases List.mem_append.mp member with old | new
      · exact h.keyed e old
      · rw [List.mem_singleton.mp new]
        exact keyed
    · have failed : ∀ host, (s.requests ++ [(r, LoginPhase.checked)]).countP
          (fun e => e.1.host = host ∧ e.2 = LoginPhase.failed) = s.inPhase host .failed := by
        intro host
        simp [inPhase, List.countP_append]
      by_cases mine : r.host = host
      · subst mine
        have recent := recent_le (h.bounded r.host) (by rw [← keyed]; exact outOfDate)
        have checked : (s.requests ++ [(r, LoginPhase.checked)]).countP
            (fun e => e.1.host = r.host ∧ e.2 = LoginPhase.checked) = s.inPhase r.host .checked + 1 := by
          simp [inPhase, List.countP_append]
        rw [keyed] at space count
        refine ⟨?_, ?_, (h.bounded r.host).past⟩
        · show s.recent r.host + _ ≤ _
          rw [inPhase, checked]
          omega
        · show s.recent r.host ≤ (table (key r.host)).elim 0 (·.count) + _
          rw [inPhase, failed, count]
          exact recent
      · have apart : key host ≠ r.clientIP := by
          rw [keyed]
          exact fun same => mine (injective same).symm
        refine (h.bounded host).congr rfl rfl ?_ (failed host) ?_
        · simp [inPhase, List.countP_append, mine]
        · simp only [entryCount, others (key host) apart]

end Arrive

section Settle

theorem Kept.refuse (h : Kept key s) : Kept key (s.step (.refuse i)) := by
  simp only [step]
  split
  · next checked =>
    obtain ⟨⟨r, phase⟩, found, same⟩ := Option.map_eq_some_iff.mp checked
    dsimp only at same
    subst same
    refine ⟨fun e member => h.keyed e (List.mem_of_mem_eraseIdx member), fun host => ?_⟩
    have few := inPhase_erase found host .checked
    have failed := inPhase_erase found host .failed
    refine (h.bounded host).congr rfl rfl ?_ ?_ rfl
    · rw [inPhase]
      dsimp only
      omega
    · rw [inPhase]
      simpa using failed
  · exact h

/-- A check that fails is one of those for which there is room. -/
theorem Bounded.fail (h : Bounded key s r.host) (found : s.requests[i]? = some (r, .checked)) :
    Bounded key { s with requests := s.requests.set i (r, .failed), log := .failure r.host s.now :: s.log } r.host := by
  have checked := inPhase_set found .failed r.host .checked
  have failed := inPhase_set found .failed r.host .failed
  simp only [reduceCtorEq, and_false, and_true, if_true, if_false, Nat.add_zero] at checked failed
  have fits := h.fits
  have counted := h.counted
  have log : failuresIn r.host (.failure r.host s.now :: s.log) = s.now :: s.failures r.host := if_pos rfl
  have recent : ({ s with requests := s.requests.set i (r, .failed), log := .failure r.host s.now :: s.log } :
      Logins).recent r.host = s.recent r.host + 1 := by
    rw [Logins.recent, failures, log, List.countP_cons, if_pos (by simp)]
    rfl
  refine ⟨?_, ?_, fun start => ?_⟩
  · rw [recent, inPhase]
    dsimp only
    omega
  · rw [recent, inPhase]
    show s.recent r.host + 1 ≤ s.entryCount (key r.host) + _
    dsimp only
    omega
  · rw [failures, log, List.countP_cons]
    split
    · next inside =>
      have window : start ≤ s.now ∧ s.now ≤ start + loginRateWindow := of_decide_eq_true inside
      have few : (s.failures r.host).countP (fun t => start ≤ t ∧ t ≤ start + loginRateWindow) ≤ s.recent r.host := by
        apply List.countP_mono_left
        intro t _ within
        have bounds : start ≤ t ∧ t ≤ start + loginRateWindow := of_decide_eq_true within
        exact decide_eq_true (by omega)
      omega
    · exact h.past start

theorem mem_set {l : List (LoginRequest × LoginPhase)} {e : LoginRequest × LoginPhase} (found : l[i]? = some (r, phase))
    (phase' : LoginPhase) (member : e ∈ l.set i (r, phase')) : ∃ p, (e.1, p) ∈ l := by
  rcases List.mem_or_eq_of_mem_set member with old | rfl
  · exact ⟨e.2, old⟩
  · exact ⟨phase, List.mem_of_getElem? found⟩

theorem Kept.authenticate (h : Kept key s) (ok : Bool) : Kept key (s.step (.authenticate i ok)) := by
  simp only [step]
  split
  · next r found =>
    have keyed : ∀ phase, ∀ e ∈ s.requests.set i (r, phase), e.1.clientIP = key e.1.host := by
      intro phase e member
      obtain ⟨p, old⟩ := mem_set found phase member
      exact h.keyed (e.1, p) old
    cases ok with
    | true =>
      refine ⟨keyed .succeeded, fun host => ?_⟩
      have checked := inPhase_set found .succeeded host .checked
      have failed := inPhase_set found .succeeded host .failed
      simp only [reduceCtorEq, and_false, if_false, Nat.add_zero] at checked failed
      exact (h.bounded host).congr rfl rfl (Nat.le.intro checked) failed rfl
    | false =>
      refine ⟨keyed .failed, fun host => ?_⟩
      by_cases mine : r.host = host
      · subst mine
        exact (h.bounded r.host).fail found
      · have checked := inPhase_set found .failed host .checked
        have failed := inPhase_set found .failed host .failed
        simp only [mine, false_and, if_false, Nat.add_zero] at checked failed
        exact (h.bounded host).congr rfl (if_neg mine) checked.le failed rfl
  · exact h

theorem record_table (s : Logins) (ip : String) : ∃ table, s.recordLoginFailure ip = { s with loginRates := table } ∧
    (∀ other, other ≠ ip → table other = s.loginRates other) ∧
    (table ip).elim 0 (·.count) = (if s.isExpired ip then 0 else s.entryCount ip) + 1 := by
  unfold recordLoginFailure startCounting isExpired entryCount
  cases entry : s.loginRates ip with
  | none => exact ⟨_, rfl, fun other apart => Function.update_of_ne apart _ _, by simp⟩
  | some attempt =>
    dsimp only
    split
    · next lapsed => exact ⟨_, rfl, fun other apart => Function.update_of_ne apart _ _, by simp [lapsed]⟩
    · next valid => exact ⟨_, rfl, fun other apart => Function.update_of_ne apart _ _, by simp [valid]⟩

theorem Kept.record (injective : Function.Injective key) (h : Kept key s) (found : s.requests[i]? = some (r, .failed))
    (outOfDate : s.OutOfDate r.host r.clientIP) :
    Kept key (({ s with requests := s.requests.eraseIdx i } : Logins).recordLoginFailure r.clientIP) := by
  have keyed : r.clientIP = key r.host := h.keyed _ (List.mem_of_getElem? found)
  obtain ⟨table, same, others, recorded⟩ := record_table { s with requests := s.requests.eraseIdx i } r.clientIP
  have count : (table r.clientIP).elim 0 (·.count) =
      (if s.isExpired r.clientIP then 0 else s.entryCount r.clientIP) + 1 := recorded
  rw [same]
  refine ⟨fun e member => h.keyed e (List.mem_of_mem_eraseIdx member), fun host => ?_⟩
  have checked := inPhase_erase found host .checked
  have failed := inPhase_erase found host .failed
  simp only [reduceCtorEq, and_false, and_true, if_false, Nat.add_zero] at checked failed
  by_cases mine : r.host = host
  · subst mine
    rw [if_pos rfl] at failed
    refine ⟨?_, ?_, (h.bounded r.host).past⟩
    · show s.recent r.host + (s.requests.eraseIdx i).countP _ ≤ _
      rw [checked]
      exact (h.bounded r.host).fits
    · show s.recent r.host ≤ (table (key r.host)).elim 0 (·.count) + (s.requests.eraseIdx i).countP _
      rw [keyed] at count outOfDate
      rw [count]
      have counted := (h.bounded r.host).counted
      by_cases lapsed : s.isExpired (key r.host) = true
      · have := outOfDate lapsed
        rw [if_pos lapsed]
        omega
      · rw [if_neg lapsed]
        show s.recent r.host ≤ s.entryCount (key r.host) + 1 + _
        omega
  · have apart : key host ≠ r.clientIP := by
      rw [keyed]
      exact fun same => mine (injective same).symm
    rw [if_neg mine, Nat.add_zero] at failed
    refine (h.bounded host).congr rfl rfl checked.le failed ?_
    simp only [entryCount, others (key host) apart]

theorem Kept.reset (injective : Function.Injective key) (h : Kept key s) (found : s.requests[i]? = some (r, .succeeded)) :
    Kept key (({ s with requests := s.requests.eraseIdx i, log := .success r.host :: s.log } : Logins).resetLoginRate
      r.clientIP) := by
  have keyed : r.clientIP = key r.host := h.keyed _ (List.mem_of_getElem? found)
  refine ⟨fun e member => h.keyed e (List.mem_of_mem_eraseIdx member), fun host => ?_⟩
  have checked := inPhase_erase found host .checked
  have failed := inPhase_erase found host .failed
  simp only [reduceCtorEq, and_false, if_false, Nat.add_zero] at checked failed
  by_cases mine : r.host = host
  · subst mine
    have none : failuresIn r.host (.success r.host :: s.log) = [] := if_pos rfl
    have fits := (h.bounded r.host).fits
    refine ⟨?_, ?_, fun start => ?_⟩
    · rw [Logins.recent, failures]
      show (failuresIn r.host (.success r.host :: s.log)).countP _ + (s.requests.eraseIdx i).countP _ ≤ _
      rw [none, checked]
      simp only [List.countP_nil]
      omega
    · rw [Logins.recent, failures]
      show (failuresIn r.host (.success r.host :: s.log)).countP _ ≤ _
      rw [none]
      exact Nat.zero_le _
    · rw [failures]
      show (failuresIn r.host (.success r.host :: s.log)).countP _ ≤ _
      rw [none]
      exact Nat.zero_le _
  · have apart : key host ≠ r.clientIP := by
      rw [keyed]
      exact fun same => mine (injective same).symm
    have log : failuresIn host (.success r.host :: s.log) = s.failures host := if_neg mine
    refine (h.bounded host).congr rfl log checked.le failed ?_
    simp only [entryCount, resetLoginRate, Function.update_of_ne apart]

end Settle

theorem kept_step (injective : Function.Injective key) (e : LoginEvent) (h : Kept key s) (orderly : s.Orderly key e) :
    Kept key (s.step e) := by
  cases e with
  | tick now => exact h.tick now
  | arrive r => exact h.arrive injective orderly
  | refuse i => exact h.refuse
  | authenticate i ok => exact h.authenticate ok
  | settle i =>
    simp only [step]
    split
    · next r found =>
      simp only [Orderly, found] at orderly
      exact h.record injective found orderly
    · next r found => exact h.reset injective found
    · exact h

/-- Logins are throttled in every run in which each host has a key of its own, the requests under way leave room for one
another, and no entry is given up before its failures are past. -/
theorem throttled_of_orderly {events : List LoginEvent} (injective : Function.Injective key)
    (orderly : EachStep step (Orderly · key) {} events) : (run step {} events).Throttled := by
  have start : Kept key {} := by
    refine ⟨fun e member => absurd member List.not_mem_nil, fun host => ⟨?_, Nat.zero_le _, fun _ => Nat.zero_le _⟩⟩
    exact Nat.zero_le _
  have kept := invariant_of_eachStep (fun s e inv allowed => kept_step injective e inv allowed) start orderly
  exact fun host => (kept.bounded host).past

/-- A client behind a proxy that fails twice, logs in and fails again. -/
def proxied : LoginRequest := ⟨"10.0.0.7", "127.0.0.1:40001", "10.0.0.7"⟩

def retries : List LoginEvent :=
  [.arrive proxied, .arrive proxied, .authenticate 0 false, .settle 0, .tick 1000, .authenticate 0 false, .settle 0,
    .arrive proxied, .authenticate 0 true, .settle 0, .arrive proxied, .authenticate 0 false, .settle 0]

theorem throttled_retries : EachStep step (Orderly · id) {} retries ∧ (run step {} retries).Throttled :=
  have orderly : EachStep step (Orderly · id) {} retries := by decide +kernel
  ⟨orderly, throttled_of_orderly Function.injective_id orderly⟩

/-- Six requests that are let through before the first of them is counted. -/
def burst : List LoginEvent := List.replicate 6 (.arrive proxied) ++ (List.range 6).map (.authenticate · false)

def attempt (r : LoginRequest) : List LoginEvent := [.arrive r, .authenticate 0 false, .settle 0]

/-- Six connections of one client, each from a port of its own. -/
def reconnecting : List LoginEvent :=
  ["10.0.0.7:1", "10.0.0.7:2", "10.0.0.7:3", "10.0.0.7:4", "10.0.0.7:5", "10.0.0.7:6"].flatMap fun addr =>
    attempt ⟨"10.0.0.7", addr, ""⟩

/-- Failures at the end of a window and after it. -/
def straddling : List LoginEvent :=
  attempt proxied ++ [.tick loginRateWindow] ++ (List.replicate 4 (attempt proxied)).flatten ++
    [.tick (loginRateWindow + 1)] ++ (List.replicate 5 (attempt proxied)).flatten

theorem login_unthrottled : ¬ (run step {} burst).Throttled ∧ ¬ (run step {} reconnecting).Throttled ∧
    ¬ (run step {} straddling).Throttled := by
  have six : loginRateMaxAttempts < ((run step {} burst).failures "10.0.0.7").countP
      (fun t => 0 ≤ t ∧ t ≤ 0 + loginRateWindow) := by decide +kernel
  have ports : loginRateMaxAttempts < ((run step {} reconnecting).failures "10.0.0.7").countP
      (fun t => 0 ≤ t ∧ t ≤ 0 + loginRateWindow) := by decide +kernel
  have late : loginRateMaxAttempts < ((run step {} straddling).failures "10.0.0.7").countP
      (fun t => loginRateWindow ≤ t ∧ t ≤ loginRateWindow + loginRateWindow) := by decide +kernel
  exact ⟨fun h => absurd (h _ _) (Nat.not_le.mpr six), fun h => absurd (h _ _) (Nat.not_le.mpr ports),
    fun h => absurd (h _ _) (Nat.not_le.mpr late)⟩

end H2kvm.Web.Logins
