import Mathlib.Data.List.Basic

namespace H2kvm.Framework

/-- A computation that asks a store for the values of some cells, each question depending on
the answers before it. -/
inductive Query (K V R : Type) where
  | done (result : R)
  | ask (cell : K) (next : V → Query K V R)

namespace Query

variable {K V R S : Type}

protected def bind (f : R → Query K V S) : Query K V R → Query K V S
  | .done r => f r
  | .ask k next => .ask k fun v => (next v).bind f

instance : Monad (Query K V) where
  pure := .done
  bind q f := q.bind f

/-- Asks for one cell. -/
def read (k : K) : Query K V V := .ask k .done

/-- The result over the store `s`. -/
def answer (s : K → V) : Query K V R → R
  | .done r => r
  | .ask k next => (next (s k)).answer s

/-- The cells asked for over the store `s`. -/
def asked (s : K → V) : Query K V R → List K
  | .done _ => []
  | .ask k next => k :: (next (s k)).asked s

theorem answer_bind (q : Query K V R) (f : R → Query K V S) (s : K → V) :
    (q >>= f).answer s = (f (q.answer s)).answer s := by
  induction q with
  | done r => rfl
  | ask k next ih => exact ih (s k)

/-- An exception of the first part ends the computation. -/
theorem answer_run_bind {ε : Type} (x : ExceptT ε (Query K V) R) (f : R → ExceptT ε (Query K V) S) (s : K → V) :
    (x >>= f).run.answer s =
      match x.run.answer s with
      | .ok a => (f a).run.answer s
      | .error e => .error e := by
  rw [ExceptT.run_bind, answer_bind]
  cases x.run.answer s <;> rfl

theorem answer_congr {s t : K → V} {q : Query K V R} (h : ∀ k ∈ q.asked s, t k = s k) :
    q.answer t = q.answer s := by
  induction q with
  | done r => rfl
  | ask k next ih =>
    have here : t k = s k := h k List.mem_cons_self
    have later : ∀ k' ∈ (next (s k)).asked s, t k' = s k' := fun k' hk => h k' (List.mem_cons_of_mem k hk)
    show (next (t k)).answer t = (next (s k)).answer s
    rw [here]
    exact ih (s k) later

end Query

end H2kvm.Framework
