import H2kvm.Framework.Run
import H2kvm.Framework.Buckets
import Mathlib.Algebra.Order.Field.Rat

namespace H2kvm.Core.RateLimiter

open Framework TokenBucket

/-- `_TokenBucketRateLimiter`: the tokens of each event name with the time they were counted, and how many
of its events were suppressed. -/
structure TokenBucketRateLimiter where
  buckets : String → Option (ℚ × ℚ) := fun _ => none
  suppressed : String → Option Nat := fun _ => none

/-- An event on its way through the processors, with the sampling rules of that time and a draw. -/
structure Arrival where
  event : String
  now : ℚ
  rules : List (String × ℚ) := []
  draw : ℚ := 0

/-- A dropped event, or one that passed the limiter with its `_suppressed_count` and is then emitted or
sampled out. -/
inductive Outcome where
  | dropped
  | passed (suppressedCount : Option Nat) (emitted : Bool)
  deriving DecidableEq

/-- The limiter, and what came of the events so far, newest first. -/
structure Pipeline where
  limiter : TokenBucketRateLimiter := {}
  past : List (Arrival × Outcome) := []

section code

variable (rate burst : ℚ)

/-- The tokens an event finds. -/
def TokenBucketRateLimiter.tokens (l : TokenBucketRateLimiter) (event : String) (now : ℚ) : ℚ :=
  match l.buckets event with
  | some (tokens, lastTs) => refill rate burst tokens (now - lastTs)
  | none => burst

/-- The call on an event: what it attaches as `_suppressed_count`, or `none` where it drops the event. -/
def TokenBucketRateLimiter.call (l : TokenBucketRateLimiter) (audit : Bool) (event : String) (now : ℚ) :
    TokenBucketRateLimiter × Option (Option Nat) :=
  if audit then (l, some none)
  else
    let tokens := l.tokens rate burst event now
    if 1 ≤ tokens then
      let suppressed := (l.suppressed event).getD 0
      ({ buckets := Function.update l.buckets event (some (tokens - 1, now))
         suppressed := Function.update l.suppressed event none },
        some (if 0 < suppressed then some suppressed else none))
    else
      ({ buckets := Function.update l.buckets event (some (tokens, now))
         suppressed := Function.update l.suppressed event (some ((l.suppressed event).getD 0 + 1)) }, none)

/-- `_sampling_processor`: whether the event is kept. The first rule whose prefix it has decides. -/
def sampling (rules : List (String × ℚ)) (audit : Bool) (event : String) (draw : ℚ) : Bool :=
  if audit then true
  else
    match rules.find? fun rule => rule.1.toList.isPrefixOf event.toList with
    | some rule => !decide (rule.2 ≤ draw)
    | none => true

/-- The rate limit and then the sampling of an event that is no audit event. -/
def step (p : Pipeline) (a : Arrival) : Pipeline :=
  match p.limiter.call rate burst false a.event a.now with
  | (limiter, none) => ⟨limiter, (a, .dropped) :: p.past⟩
  | (limiter, some suppressed) => ⟨limiter, (a, .passed suppressed (sampling a.rules false a.event a.draw)) :: p.past⟩

end code

section past

/-- The event of this name passed the limiter. -/
def passedBy (name : String) : Arrival × Outcome → Bool
  | (a, .passed _ _) => a.event = name
  | (_, .dropped) => false

def droppedBy (name : String) : Arrival × Outcome → Bool
  | (_, .passed _ _) => false
  | (a, .dropped) => a.event = name

/-- The `_suppressed_count` on an event of this name. -/
def countOn (name : String) : Arrival × Outcome → Nat
  | (a, .passed (some n) _) => if a.event = name then n else 0
  | _ => 0

variable (name : String) (past : List (Arrival × Outcome))

/-- When events of this name passed, newest first. -/
def passTimes : List ℚ := (past.filter (passedBy name)).map fun r => r.1.now

end past

section steps

variable {rate burst : ℚ} {p : Pipeline} (a : Arrival)

/-- What is attached to an event that passes. -/
def attached (p : Pipeline) (event : String) : Option Nat :=
  let suppressed := (p.limiter.suppressed event).getD 0
  if 0 < suppressed then some suppressed else none

theorem step_passed (enough : 1 ≤ p.limiter.tokens rate burst a.event a.now) :
    step rate burst p a =
      ⟨{ buckets := Function.update p.limiter.buckets a.event (some (p.limiter.tokens rate burst a.event a.now - 1, a.now))
         suppressed := Function.update p.limiter.suppressed a.event none },
        (a, .passed (attached p a.event) (sampling a.rules false a.event a.draw)) :: p.past⟩ := by
  simp only [step, TokenBucketRateLimiter.call, enough, if_true, Bool.false_eq_true, if_false]
  rfl

theorem step_dropped (few : p.limiter.tokens rate burst a.event a.now < 1) :
    step rate burst p a =
      ⟨{ buckets := Function.update p.limiter.buckets a.event (some (p.limiter.tokens rate burst a.event a.now, a.now))
         suppressed := Function.update p.limiter.suppressed a.event (some ((p.limiter.suppressed a.event).getD 0 + 1)) },
        (a, .dropped) :: p.past⟩ := by
  simp only [step, TokenBucketRateLimiter.call, not_le.mpr few, if_false, Bool.false_eq_true]

theorem step_past : (step rate burst p a).past.map Prod.fst = a :: p.past.map Prod.fst := by
  rcases le_or_gt 1 (p.limiter.tokens rate burst a.event a.now) with enough | few
  · rw [step_passed a enough]
    rfl
  · rw [step_dropped a few]
    rfl

/-- The buckets hold the tokens of the ideal ones, and each event was treated as these allow. -/
structure Reflects (rate burst : ℚ) (p : Pipeline) : Prop where
  tokens : ∀ name t, (∀ b ∈ p.past.map Prod.fst, b.now ≤ t) →
    p.limiter.tokens rate burst name t = ideal rate burst (passTimes name p.past) t
  fair : ∀ name, Fair rate burst (passTimes name p.past)
  drops : ∀ newer b older, p.past = newer ++ (b, .dropped) :: older →
    ideal rate burst (passTimes b.event older) b.now < 1
  conserved : ∀ name, p.past.countP (droppedBy name) = (p.past.map (countOn name)).sum + (p.limiter.suppressed name).getD 0

theorem reflects_new : Reflects rate burst {} where
  tokens _ _ _ := rfl
  fair _ := trivial
  drops newer b older split := by simp at split
  conserved _ := rfl

theorem passTimes_passed (past : List (Arrival × Outcome)) (name : String) (count : Option Nat) (emitted : Bool) :
    passTimes name ((a, .passed count emitted) :: past) =
      if a.event = name then a.now :: passTimes name past else passTimes name past := by
  unfold passTimes
  split
  · next same => rw [List.filter_cons_of_pos (by simpa [passedBy] using same), List.map_cons]
  · next other => rw [List.filter_cons_of_neg (by simpa [passedBy] using other)]

theorem passTimes_dropped (past : List (Arrival × Outcome)) (name : String) :
    passTimes name ((a, .dropped) :: past) = passTimes name past := rfl

theorem countOn_attached (name : String) (emitted : Bool) :
    countOn name (a, .passed (attached p a.event) emitted) =
      if a.event = name then (p.limiter.suppressed name).getD 0 else 0 := by
  unfold attached
  split
  · next same =>
    subst same
    dsimp only
    split
    · simp [countOn]
    · next none_suppressed =>
      simp only [countOn]
      omega
  · next other =>
    dsimp only
    split <;> simp [countOn, other]

theorem Reflects.passed (h : Reflects rate burst p) (later : ∀ b ∈ p.past.map Prod.fst, b.now ≤ a.now)
    (enough : 1 ≤ p.limiter.tokens rate burst a.event a.now) : Reflects rate burst (step rate burst p a) := by
  have full := h.tokens a.event a.now later
  rw [step_passed a enough]
  refine ⟨fun name t after => ?_, fun name => ?_, fun newer b older split => ?_, fun name => ?_⟩
  · rw [passTimes_passed]
    by_cases same : a.event = name
    · subst same
      rw [if_pos rfl, ideal, ← full]
      simp [TokenBucketRateLimiter.tokens]
    · rw [if_neg same, ← h.tokens name t fun b mem => after b (List.mem_cons_of_mem _ mem)]
      simp [TokenBucketRateLimiter.tokens, Function.update_of_ne (Ne.symm same)]
  · rw [passTimes_passed]
    split
    · next same =>
      subst same
      exact ⟨full ▸ enough, h.fair a.event⟩
    · exact h.fair name
  · cases newer with
    | nil => cases split
    | cons r newer => exact h.drops newer b older (List.cons.inj split).2
  · have before := h.conserved name
    rw [List.countP_cons_of_neg (by simp [droppedBy]), List.map_cons, List.sum_cons, countOn_attached]
    by_cases same : a.event = name
    · subst same
      simp only [if_true, Function.update_self, Option.getD_none]
      omega
    · simp only [if_neg same, Function.update_of_ne (Ne.symm same)]
      omega

theorem Reflects.dropped (h : Reflects rate burst p) (nonneg : 0 ≤ rate) (later : ∀ b ∈ p.past.map Prod.fst, b.now ≤ a.now)
    (few : p.limiter.tokens rate burst a.event a.now < 1) : Reflects rate burst (step rate burst p a) := by
  have full := h.tokens a.event a.now later
  rw [step_dropped a few]
  refine ⟨fun name t after => ?_, fun name => ?_, fun newer b older split => ?_, fun name => ?_⟩
  · rw [passTimes_dropped]
    by_cases same : a.event = name
    · subst same
      rw [← refill_ideal nonneg (passTimes a.event p.past) (after a List.mem_cons_self), ← full]
      simp [TokenBucketRateLimiter.tokens]
    · rw [← h.tokens name t fun b mem => after b (List.mem_cons_of_mem _ mem)]
      simp [TokenBucketRateLimiter.tokens, Function.update_of_ne (Ne.symm same)]
  · exact h.fair name
  · cases newer with
    | nil =>
      obtain ⟨same, rfl⟩ := List.cons.inj split
      cases same
      exact full ▸ few
    | cons r newer => exact h.drops newer b older (List.cons.inj split).2
  · have before := h.conserved name
    rw [List.map_cons, List.sum_cons]
    by_cases same : a.event = name
    · subst same
      rw [List.countP_cons_of_pos (by simp [droppedBy])]
      simp only [Function.update_self, Option.getD_some, countOn]
      omega
    · rw [List.countP_cons_of_neg (by simpa [droppedBy] using same)]
      simp only [countOn, Function.update_of_ne (Ne.symm same)]
      omega

theorem Reflects.step (h : Reflects rate burst p) (nonneg : 0 ≤ rate) (later : ∀ b ∈ p.past.map Prod.fst, b.now ≤ a.now) :
    Reflects rate burst (step rate burst p a) := by
  rcases le_or_gt 1 (p.limiter.tokens rate burst a.event a.now) with enough | few
  · exact h.passed a later enough
  · exact h.dropped a nonneg later few

end steps

section runs

variable {rate burst : ℚ}

theorem run_past (arrivals : List Arrival) :
    (run (step rate burst) {} arrivals).past.map Prod.fst = arrivals.reverse := by
  induction arrivals using List.reverseRecOn with
  | nil => rfl
  | append_singleton arrivals a ih => rw [run_concat, step_past, ih, List.reverse_concat']

theorem run_reflects (nonneg : 0 ≤ rate) {arrivals : List Arrival} (sorted : arrivals.Pairwise fun a b => a.now ≤ b.now) :
    Reflects rate burst (run (step rate burst) {} arrivals) := by
  induction arrivals using List.reverseRecOn with
  | nil => exact reflects_new
  | append_singleton arrivals a ih =>
    obtain ⟨before, -, last⟩ := List.pairwise_append.mp sorted
    rw [run_concat]
    apply (ih before).step a nonneg
    intro b mem
    rw [run_past, List.mem_reverse] at mem
    exact last b mem a (List.mem_singleton_self a)

theorem passTimes_sorted {arrivals : List Arrival} (sorted : arrivals.Pairwise fun a b => a.now ≤ b.now) (name : String) :
    (passTimes name (run (step rate burst) {} arrivals).past).Pairwise (· ≥ ·) := by
  have all : ((run (step rate burst) {} arrivals).past.map fun r => r.1.now).Pairwise (· ≥ ·) := by
    rw [← Function.comp_def, ← List.map_map, run_past, List.pairwise_map, List.pairwise_reverse]
    exact sorted
  exact all.sublist (List.filter_sublist.map _)

/-- Two runs agree on the events of a name. -/
structure Alike (name : String) (p q : Pipeline) : Prop where
  buckets : p.limiter.buckets name = q.limiter.buckets name
  suppressed : p.limiter.suppressed name = q.limiter.suppressed name
  past : p.past.filter (fun r => r.1.event = name) = q.past.filter fun r => r.1.event = name

variable {p q : Pipeline} {name : String} {a : Arrival}

theorem Alike.other (h : Alike name p q) (other : a.event ≠ name) : Alike name (step rate burst p a) q := by
  have skipped (outcome : Outcome) : ((a, outcome) :: p.past).filter (fun r => r.1.event = name) =
      q.past.filter fun r => r.1.event = name := by
    rw [List.filter_cons_of_neg (by simpa using other), h.past]
  rcases le_or_gt 1 (p.limiter.tokens rate burst a.event a.now) with enough | few
  · rw [step_passed a enough]
    exact ⟨(Function.update_of_ne other.symm ..).trans h.buckets, (Function.update_of_ne other.symm ..).trans h.suppressed,
      skipped _⟩
  · rw [step_dropped a few]
    exact ⟨(Function.update_of_ne other.symm ..).trans h.buckets, (Function.update_of_ne other.symm ..).trans h.suppressed,
      skipped _⟩

theorem Alike.same (h : Alike a.event p q) : Alike a.event (step rate burst p a) (step rate burst q a) := by
  have tokens : p.limiter.tokens rate burst a.event a.now = q.limiter.tokens rate burst a.event a.now := by
    simp only [TokenBucketRateLimiter.tokens, h.buckets]
  have counts : attached p a.event = attached q a.event := by simp only [attached, h.suppressed]
  have recorded (outcome : Outcome) : ((a, outcome) :: p.past).filter (fun r => r.1.event = a.event) =
      ((a, outcome) :: q.past).filter fun r => r.1.event = a.event := by
    rw [List.filter_cons_of_pos (by simp), List.filter_cons_of_pos (by simp), h.past]
  rcases le_or_gt 1 (p.limiter.tokens rate burst a.event a.now) with enough | few
  · rw [step_passed a enough, step_passed a (tokens ▸ enough), ← tokens, ← counts]
    exact ⟨by simp, by simp, recorded _⟩
  · rw [step_dropped a few, step_dropped a (tokens ▸ few), ← tokens, ← h.suppressed]
    exact ⟨by simp, by simp, recorded _⟩

theorem run_alike (name : String) (arrivals : List Arrival) (h : Alike name p q) :
    Alike name (run (step rate burst) p arrivals) (run (step rate burst) q (arrivals.filter fun a => a.event = name)) := by
  induction arrivals generalizing p q with
  | nil => exact h
  | cons a arrivals ih =>
    by_cases same : a.event = name
    · subst same
      rw [List.filter_cons_of_pos (by simp)]
      exact ih h.same
    · rw [List.filter_cons_of_neg (by simpa using same)]
      exact ih (h.other same)

/-- Every suppression count that was taken is on an event that is emitted. -/
def Delivered (p : Pipeline) : Prop := ∀ a n emitted, (a, .passed (some n) emitted) ∈ p.past → emitted = true

/-- An event that has a token and takes a count is not sampled out. -/
def Carried (rate burst : ℚ) (p : Pipeline) (a : Arrival) : Prop :=
  1 ≤ p.limiter.tokens rate burst a.event a.now → 0 < (p.limiter.suppressed a.event).getD 0 →
    sampling a.rules false a.event a.draw = true

theorem delivered_step : Delivered (step rate burst p a) ↔ Delivered p ∧ Carried rate burst p a := by
  unfold Delivered Carried
  rcases le_or_gt 1 (p.limiter.tokens rate burst a.event a.now) with enough | few
  · rw [step_passed a enough]
    simp only [List.mem_cons, Prod.mk.injEq, Outcome.passed.injEq, enough, true_implies, attached]
    constructor
    · intro h
      refine ⟨fun b n emitted mem => h b n emitted (.inr mem), fun some_suppressed => ?_⟩
      exact h a _ _ (.inl ⟨rfl, (if_pos some_suppressed).symm, rfl⟩)
    · rintro ⟨before, kept⟩ b n emitted (⟨-, count, rfl⟩ | mem)
      · apply kept
        by_contra none_suppressed
        rw [if_neg none_suppressed] at count
        cases count
      · exact before b n emitted mem
  · rw [step_dropped a few]
    simp [few.not_ge]

/-- The accounts of a run from a fresh limiter. -/
structure Accounted (rate burst : ℚ) (arrivals : List Arrival) : Prop where
  window : ∀ name start T, 0 ≤ T →
    ((passTimes name (run (step rate burst) {} arrivals).past).countP (fun u => start ≤ u ∧ u ≤ start + T) : ℚ) ≤
      burst + rate * T
  drops : ∀ newer b older, (run (step rate burst) {} arrivals).past = newer ++ (b, .dropped) :: older →
    ideal rate burst (passTimes b.event older) b.now < 1
  apart : ∀ name, (run (step rate burst) {} arrivals).past.filter (fun r => r.1.event = name) =
    (run (step rate burst) {} (arrivals.filter fun a => a.event = name)).past.filter fun r => r.1.event = name
  conserved : ∀ name, (run (step rate burst) {} arrivals).past.countP (droppedBy name) =
    ((run (step rate burst) {} arrivals).past.map (countOn name)).sum +
      ((run (step rate burst) {} arrivals).limiter.suppressed name).getD 0
  delivered : Delivered (run (step rate burst) {} arrivals)

end runs

/-- Over every non-decreasing clock the limiter keeps its bounds, and no count is lost exactly if no event that carries one
is sampled out. -/
theorem waits_accounted_iff (rate burst : ℚ) (nonneg : 0 ≤ rate) (large : 1 ≤ burst) (arrivals : List Arrival)
    (sorted : arrivals.Pairwise fun a b => a.now ≤ b.now) :
    Accounted rate burst arrivals ↔ EachStep (step rate burst) (Carried rate burst) {} arrivals := by
  have delivered : Delivered (run (step rate burst) {} arrivals) ↔
      EachStep (step rate burst) (Carried rate burst) {} arrivals := by
    have none_lost : Delivered {} := by simp [Delivered]
    rw [run_iff_eachStep (I := fun _ => True) (fun _ _ _ => trivial) (fun _ _ _ => delivered_step) trivial]
    exact and_iff_right none_lost
  rw [← delivered]
  refine ⟨fun h => h.delivered, fun h => ?_⟩
  have reflects : Reflects rate burst (run (step rate burst) {} arrivals) := run_reflects nonneg sorted
  have apart (name : String) : Alike name (run (step rate burst) {} arrivals)
      (run (step rate burst) {} (arrivals.filter fun a => a.event = name)) := run_alike name arrivals ⟨rfl, rfl, rfl⟩
  exact ⟨fun name start T => count_window_le nonneg (by linarith) (passTimes_sorted sorted name) (reflects.fair name) start,
    reflects.drops, fun name => (apart name).past, reflects.conserved, h⟩

/-- Three events at a rate and a burst of one. The second is suppressed; the third takes that count, and a rule that keeps
nothing samples it out. -/
def sampledOut : List Arrival := [⟨"e", 0, [], 0⟩, ⟨"e", 0, [], 0⟩, ⟨"e", 1, [("", 0)], 0⟩]

theorem accounted_iff_sampledOut :
    Accounted 1 1 sampledOut ↔ EachStep (step 1 1) (Carried 1 1) {} sampledOut :=
  waits_accounted_iff 1 1 (by decide) (by decide) sampledOut (by simp [sampledOut])

theorem not_accounted_sampledOut : ¬ Accounted 1 1 sampledOut := by
  intro h
  have empty : ¬ (1 : ℚ) ≤ 0 := by decide
  have lost : (⟨"e", 1, [("", 0)], 0⟩, Outcome.passed (some 1) false) ∈ (run (step 1 1) {} sampledOut).past := by
    simp [sampledOut, step, TokenBucketRateLimiter.call, TokenBucketRateLimiter.tokens, refill, sampling, empty]
  cases h.delivered _ _ _ lost

end H2kvm.Core.RateLimiter
