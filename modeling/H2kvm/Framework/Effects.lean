import Mathlib

namespace H2kvm.Framework

variable {ε ε' σ α β : Type}

/-- The state code leaves, whether it returns or raises. -/
def endState (x : EStateM ε σ α) (s : σ) : σ :=
  match x s with
  | .ok _ s' | .error _ s' => s'

/-- `assert`, with the exception a failure raises. -/
def require (holds : Bool) (e : ε) : EStateM ε σ Unit := if holds then pure () else throw e

/-- Code run for what it does; what it raises is dropped. -/
def suppress (x : EStateM ε σ Unit) : EStateM ε' σ Unit := fun s => .ok () (endState x s)

section states

variable (s : σ)

@[simp] theorem endState_pure (a : α) : endState (pure a : EStateM ε σ α) s = s := rfl

@[simp] theorem endState_throw (e : ε) : endState (throw e : EStateM ε σ α) s = s := rfl

@[simp] theorem endState_get : endState (get : EStateM ε σ σ) s = s := rfl

@[simp] theorem endState_suppress (x : EStateM ε σ Unit) : endState (suppress x : EStateM ε' σ Unit) s = endState x s := rfl

@[simp] theorem endState_require (holds : Bool) (e : ε) : endState (require holds e : EStateM ε σ Unit) s = s := by
  cases holds <;> rfl

@[simp] theorem endState_adaptExcept (f : ε → ε') (x : EStateM ε σ α) : endState (x.adaptExcept f) s = endState x s := by
  simp only [endState, EStateM.adaptExcept]
  cases x s <;> rfl

end states

variable {s s' : σ} {a : α} {e : ε} {x : EStateM ε σ α}

theorem endState_of_ok (h : x s = .ok a s') : endState x s = s' := by rw [endState, h]

theorem endState_of_error (h : x s = .error e s') : endState x s = s' := by rw [endState, h]

theorem bind_of_ok {f : α → EStateM ε σ β} (h : x s = .ok a s') : (x >>= f) s = f a s' := by
  simp [bind, EStateM.bind, h]

theorem bind_of_error {f : α → EStateM ε σ β} (h : x s = .error e s') : (x >>= f) s = .error e s' := by
  simp [bind, EStateM.bind, h]

theorem bind_eq_ok_iff {f : α → EStateM ε σ β} {b : β} {s'' : σ} :
    (x >>= f) s = .ok b s'' ↔ ∃ a s', x s = .ok a s' ∧ f a s' = .ok b s'' := by
  cases h : x s with
  | ok a s' =>
    rw [bind_of_ok h]
    constructor
    · exact fun run => ⟨a, s', rfl, run⟩
    · rintro ⟨_, _, same, run⟩
      cases same
      exact run
  | error e s' =>
    rw [bind_of_error h]
    exact iff_of_false (fun run => nomatch run) fun ⟨_, _, same, _⟩ => nomatch same

theorem bind_get (s : σ) (f : σ → EStateM ε σ α) : (get >>= f) s = f s s := rfl

theorem tryCatch_of_ok {handle : ε → EStateM ε σ α} (h : x s = .ok a s') : tryCatch x handle s = .ok a s' := by
  simp [tryCatch, tryCatchThe, MonadExceptOf.tryCatch, EStateM.tryCatch, h]

theorem tryCatch_of_error {handle : ε → EStateM ε σ α} (h : x s = .error e s') : tryCatch x handle s = handle e s' := by
  simp [tryCatch, tryCatchThe, MonadExceptOf.tryCatch, EStateM.tryCatch, h, EStateM.Backtrackable.restore, EStateM.dummyRestore]

theorem require_of_ok {holds : Bool} {u : Unit} (h : (require holds e : EStateM ε σ Unit) s = .ok u s') :
    holds = true ∧ s' = s := by
  cases holds with
  | false => cases h
  | true =>
    cases h
    exact ⟨rfl, rfl⟩

/-- Code that leaves the state as it was. -/
def Reads (x : EStateM ε σ α) : Prop := ∀ s, endState x s = s

namespace Reads

theorem of_pure (a : α) : Reads (pure a : EStateM ε σ α) := fun _ => rfl

theorem of_get : Reads (get : EStateM ε σ σ) := fun _ => rfl

theorem of_require (holds : Bool) (e : ε) : Reads (require holds e : EStateM ε σ Unit) := fun s => endState_require s holds e

theorem of_ok (reads : Reads x) (h : x s = .ok a s') : s' = s := (endState_of_ok h).symm.trans (reads s)

theorem bind {f : α → EStateM ε σ β} (first : Reads x) (second : ∀ a, Reads (f a)) : Reads (x >>= f) := by
  intro s
  cases h : x s with
  | ok a s' =>
    obtain rfl := first.of_ok h
    rw [endState, bind_of_ok h]
    exact second a s'
  | error e s' =>
    rw [endState_of_error (bind_of_error h), ← endState_of_error h]
    exact first s

theorem bind_ok {f : α → EStateM ε σ β} {b : β} {s'' : σ} (reads : Reads x) (h : (x >>= f) s = .ok b s'') :
    ∃ a, x s = .ok a s ∧ f a s = .ok b s'' := by
  obtain ⟨a, s', first, second⟩ := bind_eq_ok_iff.mp h
  obtain rfl := reads.of_ok first
  exact ⟨a, first, second⟩

theorem foldlM {body : β → α → EStateM ε σ β} (reads : ∀ b a, Reads (body b a)) (as : List α) (b : β) :
    Reads (as.foldlM body b) := by
  induction as generalizing b with
  | nil => exact of_pure b
  | cons a as ih =>
    rw [List.foldlM_cons]
    exact (reads b a).bind fun b' => ih b'

end Reads

/-- What is asked of each round of a loop, in the state in which it begins. -/
def EachRound (body : β → α → EStateM ε σ β) (G : σ → α → Prop) : List α → β → σ → Prop
  | [], _, _ => True
  | a :: as, b, s => G s a ∧ ∀ b' s', body b a s = .ok b' s' → EachRound body G as b' s'

/-- An invariant that shows what is asked shows it in each round. -/
theorem eachRound_of_invariant {body : β → α → EStateM ε σ β} {G : σ → α → Prop} {I : σ → Prop} {as : List α} {b : β}
    (keep : ∀ b a s, I s → I (endState (body b a) s)) (shown : ∀ s a, I s → G s a) (start : I s) :
    EachRound body G as b s := by
  induction as generalizing b s with
  | nil => trivial
  | cons a as ih =>
    refine ⟨shown s a start, fun b' s' run => ih ?_⟩
    rw [← endState_of_ok run]
    exact keep b a s start

section preorders

variable {r : σ → σ → Prop} [IsPreorder σ r]

/-- What each part of a sequence does to the state in which it is run, the sequence does. -/
theorem endState_bind {f : α → EStateM ε σ β} (first : r s (endState x s))
    (second : ∀ a s', x s = .ok a s' → r s s' → r s' (endState (f a) s')) : r s (endState (x >>= f) s) := by
  cases h : x s with
  | ok a s' =>
    rw [endState_of_ok h] at first
    have run : endState (x >>= f) s = endState (f a) s' := by rw [endState, bind_of_ok h, endState]
    rw [run]
    exact trans_of r first (second a s' h first)
  | error e s' =>
    rw [endState_of_error h] at first
    rw [endState_of_error (bind_of_error h)]
    exact first

/-- What comes after code that only reads goes on in the same state. -/
theorem Reads.endState_bind {f : α → EStateM ε σ β} (reads : Reads x) (second : ∀ a, x s = .ok a s → r s (endState (f a) s)) :
    r s (endState (x >>= f) s) := by
  refine Framework.endState_bind ?_ fun a s' h _ => ?_
  · rw [reads s]
    exact refl_of r s
  · obtain rfl := reads.of_ok h
    exact second a h

theorem endState_tryCatch {handle : ε → EStateM ε σ α} (first : r s (endState x s))
    (second : ∀ e s', x s = .error e s' → r s s' → r s' (endState (handle e) s')) : r s (endState (tryCatch x handle) s) := by
  cases h : x s with
  | ok a s' =>
    rw [endState_of_ok h] at first
    rw [endState_of_ok (tryCatch_of_ok h)]
    exact first
  | error e s' =>
    rw [endState_of_error h] at first
    have run : endState (tryCatch x handle) s = endState (handle e) s' := by rw [endState, tryCatch_of_error h, endState]
    rw [run]
    exact trans_of r first (second e s' h first)

/-- What each round of a loop does, under an invariant and what is asked of it, the loop does. -/
theorem endState_foldlM {body : β → α → EStateM ε σ β} {G : σ → α → Prop} {I : σ → Prop} {as : List α} {b : β}
    (step : ∀ b, ∀ a ∈ as, ∀ s, I s → G s a → r s (endState (body b a) s)) (keep : ∀ s s', I s → r s s' → I s')
    (start : I s) (rounds : EachRound body G as b s) : r s (endState (as.foldlM body b) s) := by
  induction as generalizing b s with
  | nil => exact refl_of r s
  | cons a as ih =>
    rw [List.foldlM_cons]
    refine endState_bind (step b a List.mem_cons_self s start rounds.1) fun b' s' run done => ?_
    have later : ∀ b, ∀ other ∈ as, ∀ s, I s → G s other → r s (endState (body b other) s) := fun b other member =>
      step b other (List.mem_cons_of_mem a member)
    exact ih later (keep s s' start done) (rounds.2 b' s' run)

end preorders

end H2kvm.Framework
