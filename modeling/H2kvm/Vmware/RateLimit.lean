import Mathlib.Tactic.Linarith
import Mathlib.Tactic.Positivity
import H2kvm.Vmware.Download

namespace H2kvm.Vmware

open Framework

namespace Slots

/-- The entry in the statistics is the number of those inside, of so many slots. -/
structure Counted (s : Slots) (slots : Nat) : Prop where
  active : s.active = s.semaphore.inside.length
  holds : s.semaphore.Holds slots

variable {s : Slots} {slots c : Nat}

theorem Counted.entered (h : s.Counted slots) (free : s.semaphore.isFree = true) : (s.entered c).Counted slots where
  active := by
    simp only [Slots.entered, Semaphore.grant, List.length_cons, h.active]
    omega
  holds := h.holds.grant free

theorem Counted.enter (h : s.Counted slots) : (s.enter c).Counted slots := by
  unfold Slots.enter
  split
  · next free => exact h.entered free
  · exact ⟨h.active, h.holds⟩

theorem Counted.giveUp (h : s.Counted slots) : (s.giveUp c).Counted slots := ⟨h.active, h.holds⟩

theorem Counted.letIn (h : s.Counted slots) : (s.letIn c).Counted slots := by
  unfold Slots.letIn
  split
  · next lets =>
    have free := Semaphore.isFree_of_lets lets
    exact Counted.entered h.giveUp free
  · exact h

theorem Counted.leave (h : s.Counted slots) : (s.leave c).Counted slots := by
  unfold Slots.leave
  split
  · next member =>
    have positive : 0 < s.semaphore.inside.length := List.length_pos_of_mem member
    refine ⟨?_, h.holds.release member⟩
    simp only [Semaphore.release, List.length_erase_of_mem member, h.active]
    omega
  · exact h

end Slots

namespace ConcurrencyManager

variable {m : ConcurrencyManager} {c : Nat}

structure Counts (m : ConcurrencyManager) : Prop where
  vms : m.vms.Counted m.limits.maxConcurrentVms
  exports : m.exports.Counted m.limits.maxConcurrentExports
  total : m.apiCallsTotal = m.completions.length
  holds : m.api.Holds m.limits.maxApiCallsPerSecond

/-- The semaphore of the API is held by those asleep. -/
def SleepersInside (m : ConcurrencyManager) : Prop := (m.asleep.map Prod.fst).Perm m.api.inside

theorem Counts.onSlots (h : m.Counts) {f : Slots → Slots} (keep : ∀ s slots, s.Counted slots → (f s).Counted slots)
    (kind : SlotKind) : (m.onSlots f kind).Counts := by
  cases kind with
  | vm => exact ⟨keep _ _ h.vms, h.exports, h.total, h.holds⟩
  | «export» => exact ⟨h.vms, keep _ _ h.exports, h.total, h.holds⟩

theorem Counts.complete (h : m.Counts) (member : c ∈ m.api.inside) : (m.complete c).Counts where
  vms := h.vms
  exports := h.exports
  total := by simp [ConcurrencyManager.complete, h.total]
  holds := h.holds.release member

theorem Counts.proceed (h : m.Counts) (free : m.api.isFree = true) : (m.proceed c).Counts := by
  have granted : ({ m with api := m.api.grant c } : ConcurrencyManager).Counts :=
    ⟨h.vms, h.exports, h.total, h.holds.grant free⟩
  unfold ConcurrencyManager.proceed
  dsimp only
  split
  · exact ⟨h.vms, h.exports, h.total, granted.holds⟩
  · exact granted.complete List.mem_cons_self

theorem sleepersInside_proceed (h : m.SleepersInside) : (m.proceed c).SleepersInside := by
  unfold ConcurrencyManager.proceed
  dsimp only
  split
  · exact h.cons c
  · show (m.asleep.map Prod.fst).Perm ((c :: m.api.inside).erase c)
    rw [List.erase_cons_head]
    exact h

theorem sleepers_erase (h : m.SleepersInside) {e : Nat × ℚ} (member : e ∈ m.asleep) :
    e.1 ∈ m.api.inside ∧ ((m.asleep.erase e).map Prod.fst).Perm (m.api.inside.erase e.1) := by
  have front : (e.1 :: (m.asleep.erase e).map Prod.fst).Perm m.api.inside :=
    ((List.perm_cons_erase member).map Prod.fst).symm.trans h
  refine ⟨front.mem_iff.mp List.mem_cons_self, ?_⟩
  have rest := front.erase e.1
  rwa [List.erase_cons_head] at rest

/-- What every run keeps. -/
theorem counts_step (a : Await) (h : m.Counts ∧ m.SleepersInside) : (m.step a).Counts ∧ (m.step a).SleepersInside := by
  obtain ⟨counts, sleepers⟩ := h
  cases a with
  | tick now => exact ⟨⟨counts.vms, counts.exports, counts.total, counts.holds⟩, sleepers⟩
  | enter kind c =>
    refine ⟨counts.onSlots (fun _ _ h => h.enter) kind, ?_⟩
    cases kind <;> exact sleepers
  | letIn kind c =>
    refine ⟨counts.onSlots (fun _ _ h => h.letIn) kind, ?_⟩
    cases kind <;> exact sleepers
  | giveUp kind c =>
    refine ⟨counts.onSlots (fun _ _ h => h.giveUp) kind, ?_⟩
    cases kind <;> exact sleepers
  | leave kind c =>
    refine ⟨counts.onSlots (fun _ _ h => h.leave) kind, ?_⟩
    cases kind <;> exact sleepers
  | call c =>
    simp only [step]
    split
    · next free => exact ⟨counts.proceed free, sleepersInside_proceed sleepers⟩
    · exact ⟨⟨counts.vms, counts.exports, counts.total, counts.holds⟩, sleepers⟩
  | admitCall c =>
    simp only [step]
    split
    · next lets =>
      have dequeued : ({ m with api := m.api.dequeue c } : ConcurrencyManager).Counts :=
        ⟨counts.vms, counts.exports, counts.total, counts.holds⟩
      have free : m.api.isFree = true := Semaphore.isFree_of_lets lets
      exact ⟨dequeued.proceed free, sleepersInside_proceed sleepers⟩
    · exact ⟨counts, sleepers⟩
  | wake c =>
    simp only [step]
    split
    · next e found =>
      have who : e.1 = c := by
        have := List.find?_some found
        simp only [wakes, decide_eq_true_eq] at this
        exact this.1
      obtain ⟨member, rest⟩ := sleepers_erase sleepers (List.mem_of_find?_eq_some found)
      rw [who] at member rest
      have awake : ({ m with asleep := m.asleep.erase e } : ConcurrencyManager).Counts :=
        ⟨counts.vms, counts.exports, counts.total, counts.holds⟩
      exact ⟨awake.complete member, rest⟩
    · exact ⟨counts, sleepers⟩
  | cancelCall c =>
    simp only [step]
    split
    · next e found =>
      have who : e.1 = c := by simpa using List.find?_some found
      obtain ⟨member, rest⟩ := sleepers_erase sleepers (List.mem_of_find?_eq_some found)
      rw [who] at member rest
      exact ⟨⟨counts.vms, counts.exports, counts.total, counts.holds.release member⟩, rest⟩
    · exact ⟨⟨counts.vms, counts.exports, counts.total, counts.holds⟩, sleepers⟩

/-- Whoever is asleep sleeps until an interval after the last call, and is the only one. -/
structure Paced (m : ConcurrencyManager) : Prop where
  interval : 0 < m.apiInterval
  last : ∀ t ∈ m.completions, t ≤ m.apiLastCall
  spaced : m.completions.Pairwise fun later earlier => earlier + m.apiInterval ≤ later
  lone : m.asleep.length ≤ 1
  until_next : ∀ e ∈ m.asleep, m.apiLastCall + m.apiInterval ≤ e.2

theorem Paced.complete {asleep : List (Nat × ℚ)} (h : m.Paced) (due : m.apiLastCall + m.apiInterval ≤ m.now)
    (empty : asleep = []) : (({ m with asleep } : ConcurrencyManager).complete c).Paced := by
  have positive := h.interval
  have kept : (({ m with asleep } : ConcurrencyManager).complete c).apiInterval = m.apiInterval := rfl
  have now_last : (({ m with asleep } : ConcurrencyManager).complete c).apiLastCall = m.now := if_pos positive
  refine ⟨positive, ?_, ?_, ?_, ?_⟩
  · intro t member
    rw [now_last]
    rcases List.mem_cons.mp member with rfl | old
    · exact le_refl _
    · have := h.last t old
      linarith
  · rw [kept]
    refine List.pairwise_cons.mpr ⟨?_, h.spaced⟩
    intro t old
    have := h.last t old
    linarith
  · show asleep.length ≤ 1
    simp [empty]
  · intro e member
    have none : e ∈ asleep := member
    rw [empty] at none
    cases none

theorem Paced.proceed {api : Semaphore} (h : m.Paced) (empty : m.asleep = []) :
    (({ m with api } : ConcurrencyManager).proceed c).Paced := by
  have positive := h.interval
  unfold ConcurrencyManager.proceed
  dsimp only
  split
  · refine ⟨positive, h.last, h.spaced, ?_, ?_⟩
    · show m.asleep.length + 1 ≤ 1
      simp [empty]
    · intro e member
      have here : e ∈ (c, m.now + (m.apiInterval - (m.now - m.apiLastCall))) :: m.asleep := member
      rw [empty, List.mem_singleton] at here
      rw [here]
      show m.apiLastCall + m.apiInterval ≤ m.now + (m.apiInterval - (m.now - m.apiLastCall))
      linarith
  · next late =>
    have due : ¬ m.now - m.apiLastCall < m.apiInterval := fun early => late ⟨positive, early⟩
    exact Paced.complete (m := { m with api := api.grant c }) ⟨positive, h.last, h.spaced, h.lone, h.until_next⟩
      (by
        show m.apiLastCall + m.apiInterval ≤ m.now
        linarith) empty

theorem Paced.onSlots (h : m.Paced) (f : Slots → Slots) (kind : SlotKind) : (m.onSlots f kind).Paced := by
  cases kind <;> exact ⟨h.interval, h.last, h.spaced, h.lone, h.until_next⟩

theorem paced_step (a : Await) (h : m.Paced) (alone : m.Alone a) : (m.step a).Paced := by
  cases a with
  | tick now => exact ⟨h.interval, h.last, h.spaced, h.lone, h.until_next⟩
  | enter kind c => exact h.onSlots (·.enter c) kind
  | letIn kind c => exact h.onSlots (·.letIn c) kind
  | giveUp kind c => exact h.onSlots (·.giveUp c) kind
  | leave kind c => exact h.onSlots (·.leave c) kind
  | call c =>
    simp only [step]
    split
    · next free => exact h.proceed (alone free)
    · exact ⟨h.interval, h.last, h.spaced, h.lone, h.until_next⟩
  | admitCall c =>
    simp only [step]
    split
    · next lets => exact h.proceed (alone lets)
    · exact h
  | wake c =>
    simp only [step]
    split
    · next e found =>
      have member := List.mem_of_find?_eq_some found
      have awake : e.2 ≤ m.now := by
        have := List.find?_some found
        simp only [wakes, decide_eq_true_eq] at this
        exact this.2
      have next := h.until_next e member
      apply h.complete (by linarith)
      rw [← List.length_eq_zero_iff, List.length_erase_of_mem member]
      have := h.lone
      omega
    · exact h
  | cancelCall c =>
    simp only [step]
    split
    · next e found =>
      refine ⟨h.interval, h.last, h.spaced, ?_, fun d member => h.until_next d (List.mem_of_mem_erase member)⟩
      exact (List.length_erase_le).trans h.lone
    · exact ⟨h.interval, h.last, h.spaced, h.lone, h.until_next⟩

theorem limits_step (a : Await) : (m.step a).limits = m.limits := by
  cases a with
  | tick now => rfl
  | enter kind c => cases kind <;> rfl
  | letIn kind c => cases kind <;> rfl
  | giveUp kind c => cases kind <;> rfl
  | leave kind c => cases kind <;> rfl
  | call c =>
    simp only [step, proceed]
    split
    · split <;> rfl
    · rfl
  | admitCall c =>
    simp only [step, proceed]
    split
    · split <;> rfl
    · rfl
  | wake c =>
    simp only [step]
    split <;> rfl
  | cancelCall c =>
    simp only [step]
    split <;> rfl

theorem apiInterval_eq {limits : ConcurrencyLimits} (same : m.limits = limits)
    (positive : 1 ≤ limits.maxApiCallsPerSecond) : m.apiInterval = 1 / limits.maxApiCallsPerSecond := by
  have some_calls : 0 < limits.maxApiCallsPerSecond := positive
  rw [apiInterval, same, if_pos some_calls]

theorem rateLimited_of (counts : m.Counts) (spaced : m.Spaced) : m.RateLimited where
  spaced := spaced
  total := counts.total
  slots := ⟨⟨counts.vms.active, counts.vms.holds.le⟩, counts.exports.active, counts.exports.holds.le⟩

theorem alone_of_one (counts : m.Counts) (sleepers : m.SleepersInside) (one : m.limits.maxApiCallsPerSecond = 1)
    (free : m.api.isFree = true) : m.asleep = [] := by
  have holds := counts.holds
  have positive : 0 < m.api.value := by simpa [Semaphore.isFree] using free
  have same := sleepers.length_eq
  rw [List.length_map] at same
  unfold Semaphore.Holds at holds
  rw [← List.length_eq_zero_iff]
  omega

/-- Two calls that arrive together. -/
def together (limits : ConcurrencyLimits) : List Await :=
  [.call 0, .call 1, .tick (1 / limits.maxApiCallsPerSecond), .wake 0, .wake 1]

theorem completions_together {limits : ConcurrencyLimits} (two : 2 ≤ limits.maxApiCallsPerSecond) :
    (run step (new limits) (together limits)).completions =
      [(1 / limits.maxApiCallsPerSecond : ℚ), (1 / limits.maxApiCallsPerSecond : ℚ)] := by
  have calls : 0 < limits.maxApiCallsPerSecond := by omega
  have second : 0 < limits.maxApiCallsPerSecond - 1 := by omega
  simp [run, together, step, new, proceed, complete, Semaphore.isFree, Semaphore.grant, apiInterval, wakes, calls, second]

/-- What holds of every run from a new manager. -/
structure Running (limits : ConcurrencyLimits) (m : ConcurrencyManager) : Prop where
  limits : m.limits = limits
  counts : m.Counts
  sleepers : m.SleepersInside

theorem Running.step {limits : ConcurrencyLimits} (h : Running limits m) (a : Await) : Running limits (m.step a) := by
  obtain ⟨counts, sleepers⟩ := counts_step a ⟨h.counts, h.sleepers⟩
  exact ⟨(limits_step a).trans h.limits, counts, sleepers⟩

theorem running_new (limits : ConcurrencyLimits) : Running limits (new limits) where
  limits := rfl
  counts := ⟨⟨rfl, rfl⟩, ⟨rfl, rfl⟩, rfl, rfl⟩
  sleepers := .refl _

theorem paced_new {limits : ConcurrencyLimits} (positive : 1 ≤ limits.maxApiCallsPerSecond) : (new limits).Paced where
  interval := by
    rw [apiInterval_eq rfl positive]
    have : 0 < limits.maxApiCallsPerSecond := positive
    positivity
  last t member := absurd member List.not_mem_nil
  spaced := .nil
  lone := by simp [new]
  until_next e member := absurd member List.not_mem_nil

theorem rateLimited_of_paced {limits : ConcurrencyLimits} (positive : 1 ≤ limits.maxApiCallsPerSecond)
    (running : Running limits m) (paced : m.Paced) : m.RateLimited := by
  apply rateLimited_of running.counts
  have spaced := paced.spaced
  rw [apiInterval_eq running.limits positive] at spaced
  unfold Spaced
  rw [running.limits]
  exact spaced

/-- The rate limit holds in every run in which calls pass the semaphore one by one; without that it holds of one call
in a second only, since all who are asleep wake up together. -/
theorem rateLimited_of_alone (limits : ConcurrencyLimits) (positive : 1 ≤ limits.maxApiCallsPerSecond) :
    (∀ awaits, EachStep step Alone (new limits) awaits → (run step (new limits) awaits).RateLimited) ∧
      ((∀ awaits, (run step (new limits) awaits).RateLimited) ↔ limits.maxApiCallsPerSecond = 1) := by
  have holds : ∀ awaits, EachStep step Alone (new limits) awaits → (run step (new limits) awaits).RateLimited := by
    intro awaits alone
    obtain ⟨running, paced⟩ := invariant_of_eachStep (I := fun m => Running limits m ∧ m.Paced)
      (fun m a inv allowed => ⟨inv.1.step a, paced_step a inv.2 allowed⟩) ⟨running_new limits, paced_new positive⟩ alone
    exact rateLimited_of_paced positive running paced
  refine ⟨holds, ?_, ?_⟩
  · intro always
    by_contra more
    have two : 2 ≤ limits.maxApiCallsPerSecond := by omega
    have running : Running limits (run step (new limits) (together limits)) :=
      invariant_run (I := Running limits) (fun m a inv => inv.step a) (running_new limits) (together limits)
    have spaced := (always (together limits)).spaced
    unfold Spaced at spaced
    rw [completions_together two, running.limits] at spaced
    have apart := (List.pairwise_cons.mp spaced).1 _ (List.mem_singleton.mpr rfl)
    have some_calls : 0 < limits.maxApiCallsPerSecond := positive
    have interval : (0 : ℚ) < 1 / limits.maxApiCallsPerSecond := by positivity
    linarith
  · intro one awaits
    apply holds
    apply eachStep_of_invariant (I := Running limits) (G := fun _ _ => True) _ (running_new limits) _
    · intro m a inv _
      refine ⟨inv.step a, ?_⟩
      have single : m.limits.maxApiCallsPerSecond = 1 := by rw [inv.limits, one]
      cases a with
      | call c => exact alone_of_one inv.counts inv.sleepers single
      | admitCall c => exact fun lets => alone_of_one inv.counts inv.sleepers single (Semaphore.isFree_of_lets lets)
      | _ => trivial
    · rw [eachStep_iff_prefixes]
      exact fun _ _ _ => trivial

/-- One call after the other. -/
def oneByOne : List Await := [.enter .vm 7, .call 7, .tick 1, .wake 7, .call 8, .tick 2, .wake 8, .leave .vm 7]

theorem rateLimited_oneByOne : EachStep step Alone (new {}) oneByOne ∧ (run step (new {}) oneByOne).RateLimited :=
  have alone : EachStep step Alone (new {}) oneByOne := by decide +kernel
  ⟨alone, (rateLimited_of_alone {} (by decide)).1 oneByOne alone⟩

theorem together_bursts : ¬ (run step (new {}) (together {})).RateLimited := by
  intro limited
  have spaced := limited.spaced
  unfold Spaced at spaced
  rw [completions_together (by decide)] at spaced
  revert spaced
  decide +kernel

end ConcurrencyManager

end H2kvm.Vmware
