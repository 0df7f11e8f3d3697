import Mathlib.Data.List.Basic
import Mathlib.Data.List.Infix

namespace H2kvm.Framework

variable {σ α : Type*} (step : σ → α → σ)

/-- The state a run of `step` over a list of actions ends in. -/
def run (s : σ) (as : List α) : σ := as.foldl step s

/-- Every action of the run is taken in a state where `G` allows it. -/
def EachStep (G : σ → α → Prop) : σ → List α → Prop
  | _, [] => True
  | s, a :: as => G s a ∧ EachStep G (step s a) as

instance decidableEachStep (G : σ → α → Prop) [∀ s a, Decidable (G s a)] :
    (s : σ) → (as : List α) → Decidable (EachStep step G s as)
  | _, [] => inferInstanceAs (Decidable True)
  | s, a :: as =>
    have := decidableEachStep G (step s a) as
    inferInstanceAs (Decidable (G s a ∧ EachStep step G (step s a) as))

@[simp] theorem run_nil (s : σ) : run step s [] = s := rfl

@[simp] theorem run_cons (s : σ) (a : α) (as : List α) :
    run step s (a :: as) = run step (step s a) as := rfl

theorem run_append (s : σ) (as bs : List α) :
    run step s (as ++ bs) = run step (run step s as) bs := by
  simp [run]

theorem run_concat (s : σ) (as : List α) (a : α) :
    run step s (as ++ [a]) = step (run step s as) a := by
  rw [run_append]
  rfl

variable {step}

theorem eachStep_append {G : σ → α → Prop} {s : σ} {as bs : List α} :
    EachStep step G s (as ++ bs) ↔ EachStep step G s as ∧ EachStep step G (run step s as) bs := by
  induction as generalizing s with
  | nil => simp [EachStep]
  | cons a as ih => simp [EachStep, ih, and_assoc]

/-- The recursive reading and the reading by prefixes say the same. -/
theorem eachStep_iff_prefixes {G : σ → α → Prop} {s : σ} {as : List α} :
    EachStep step G s as ↔ ∀ pre a, pre ++ [a] <+: as → G (run step s pre) a := by
  constructor
  · intro h pre a hp
    obtain ⟨post, rfl⟩ := hp
    have upto := (eachStep_append.mp h).1
    exact (eachStep_append.mp upto).2.1
  · intro h
    induction as using List.reverseRecOn with
    | nil => trivial
    | append_singleton as a ih =>
      refine eachStep_append.mpr ⟨ih fun pre b hb => ?_, ?_, trivial⟩
      · exact h pre b (hb.trans (List.prefix_append as [a]))
      · exact h as a List.prefix_rfl

/-- A property that guarded steps keep holds in every state of a guarded run. -/
theorem invariant_of_eachStep {I : σ → Prop} {G : σ → α → Prop}
    (keep : ∀ s a, I s → G s a → I (step s a)) {s : σ} {as : List α}
    (hs : I s) (hg : EachStep step G s as) : I (run step s as) := by
  induction as generalizing s with
  | nil => exact hs
  | cons a as ih => exact ih (keep s a hs hg.1) hg.2

/-- What a guarded step shows from an invariant it keeps, every step of a guarded run shows. -/
theorem eachStep_of_invariant {I : σ → Prop} {G H : σ → α → Prop}
    (keep : ∀ s a, I s → G s a → I (step s a) ∧ H s a) {s : σ} {as : List α}
    (hs : I s) (hg : EachStep step G s as) : EachStep step H s as := by
  induction as generalizing s with
  | nil => trivial
  | cons a as ih =>
    obtain ⟨kept, shown⟩ := keep s a hs hg.1
    exact ⟨shown, ih kept hg.2⟩

/-- Two guards that agree wherever an invariant of the guarded steps holds guard the same runs. -/
theorem eachStep_congr {I : σ → Prop} {G H : σ → α → Prop} (same : ∀ s a, I s → (H s a ↔ G s a))
    (keep : ∀ s a, I s → G s a → I (step s a)) {s : σ} {as : List α} (hs : I s) :
    EachStep step H s as ↔ EachStep step G s as := by
  induction as generalizing s with
  | nil => exact Iff.rfl
  | cons a as ih =>
    show H s a ∧ EachStep step H (step s a) as ↔ G s a ∧ EachStep step G (step s a) as
    rw [same s a hs]
    exact and_congr_right fun allowed => ih (keep s a hs allowed)

/-- A property that each step keeps exactly where `G` allows it is one of the whole run exactly when `G`
allows each step. -/
theorem run_iff_eachStep {I P : σ → Prop} {G : σ → α → Prop} (keep : ∀ s a, I s → I (step s a))
    (each : ∀ s a, I s → (P (step s a) ↔ P s ∧ G s a)) {s : σ} {as : List α} (hs : I s) :
    P (run step s as) ↔ P s ∧ EachStep step G s as := by
  induction as generalizing s with
  | nil => simp [EachStep]
  | cons a as ih =>
    show P (run step (step s a) as) ↔ P s ∧ G s a ∧ EachStep step G (step s a) as
    rw [ih (keep s a hs), each s a hs, and_assoc]

/-- A property every step keeps holds at the end of every run. -/
theorem invariant_run {I : σ → Prop} (keep : ∀ s a, I s → I (step s a)) {s : σ}
    (hs : I s) (as : List α) : I (run step s as) := by
  induction as generalizing s with
  | nil => exact hs
  | cons a as ih => exact ih (keep s a hs)

theorem invariant_prefix_iff {I : σ → Prop} {G : σ → α → Prop}
    (exact_step : ∀ s a, I s → (I (step s a) ↔ G s a)) {s : σ} {as : List α} (hs : I s) :
    (∀ pre, pre <+: as → I (run step s pre)) ↔ EachStep step G s as := by
  rw [eachStep_iff_prefixes]
  constructor
  · intro h pre a hp
    have before := h pre ((List.prefix_append pre [a]).trans hp)
    have after := h _ hp
    rw [run_concat] at after
    exact (exact_step _ _ before).mp after
  · intro h pre hp
    induction pre using List.reverseRecOn with
    | nil => exact hs
    | append_singleton pre a ih =>
      have before := ih ((List.prefix_append pre [a]).trans hp)
      rw [run_concat]
      exact (exact_step _ _ before).mpr (h pre a hp)

/-- A reflexive and transitive relation holds between every state of a run and all later
ones exactly when it holds across each single step. -/
theorem onward_iff {R : σ → σ → Prop} (refl : ∀ s, R s s)
    (trans : ∀ s t u, R s t → R t u → R s u) {s : σ} {as : List α} :
    (∀ pre mid, pre ++ mid <+: as → R (run step s pre) (run step s (pre ++ mid))) ↔
      EachStep step (fun t a => R t (step t a)) s as := by
  rw [eachStep_iff_prefixes]
  constructor
  · intro h pre a hp
    have := h pre [a] hp
    rwa [run_concat] at this
  · intro h pre mid hp
    induction mid using List.reverseRecOn with
    | nil => rw [List.append_nil]; exact refl _
    | append_singleton mid a ih =>
      rw [← List.append_assoc] at hp ⊢
      have near := ih ((List.prefix_append _ [a]).trans hp)
      rw [run_concat]
      exact trans _ _ _ near (h _ a hp)

end H2kvm.Framework
