import Mathlib.Data.List.Perm.Subperm

namespace H2kvm.Framework

/-- Why a line of ancestors cannot be followed to its end. -/
inductive LineageError where
  | missing
  | revisited
  | exhausted
  deriving DecidableEq

section lineage

variable {α N : Type} (next : α → Option N) (parent : N → Option α)

/-- The ancestor some generations up, if the line goes that far. -/
def ancestor : Nat → α → Option α
  | 0, a => some a
  | k + 1, a => ((next a).bind parent).bind (ancestor k)

/-- The line comes to a name that nothing has. -/
def Missing (a : α) : Prop := ∃ k b n, ancestor next parent k a = some b ∧ next b = some n ∧ parent n = none

/-- One of these names is named somewhere in the line. -/
def Names (visited : List N) (a : α) : Prop :=
  ∃ k b, ∃ n ∈ visited, ancestor next parent k a = some b ∧ next b = some n

/-- Two of the line name the same. -/
def Revisits (a : α) : Prop :=
  ∃ i j b c n, i < j ∧ ancestor next parent i a = some b ∧ ancestor next parent j a = some c ∧
    next b = some n ∧ next c = some n

/-- The line up to its end, the names already met in the second argument. -/
def lineage [DecidableEq N] : Nat → List N → α → Except LineageError (List α)
  | 0, _, _ => .error .exhausted
  | room + 1, visited, a =>
    match next a with
    | none => .ok [a]
    | some n =>
      if n ∈ visited then .error .revisited
      else
        match parent n with
        | none => .error .missing
        | some p => (lineage room (n :: visited) p).map (a :: ·)

variable {next parent} {a p : α} {n : N} {visited : List N}

theorem ancestor_succ (named : next a = some n) (found : parent n = some p) (k : Nat) :
    ancestor next parent (k + 1) a = ancestor next parent k p := by
  simp [ancestor, named, found]

theorem ancestor_of_last (last : next a = none) (k : Nat) : ancestor next parent (k + 1) a = none := by
  simp [ancestor, last]

theorem missing_iff (named : next a = some n) (found : parent n = some p) :
    Missing next parent a ↔ Missing next parent p := by
  constructor
  · rintro ⟨_ | k, b, m, there, names, absent⟩
    · obtain rfl := Option.some.inj there
      rw [named, Option.some.injEq] at names
      rw [← names, found] at absent
      cases absent
    · exact ⟨k, b, m, (ancestor_succ named found k).symm.trans there, names, absent⟩
  · rintro ⟨k, b, m, there, rest⟩
    exact ⟨k + 1, b, m, (ancestor_succ named found k).trans there, rest⟩

theorem names_iff (named : next a = some n) (found : parent n = some p) :
    Names next parent visited a ↔ n ∈ visited ∨ Names next parent visited p := by
  constructor
  · rintro ⟨_ | k, b, m, mem, there, names⟩
    · obtain rfl := Option.some.inj there
      rw [named, Option.some.injEq] at names
      exact .inl (names ▸ mem)
    · exact .inr ⟨k, b, m, mem, (ancestor_succ named found k).symm.trans there, names⟩
  · rintro (mem | ⟨k, b, m, mem, there, names⟩)
    · exact ⟨0, a, n, mem, rfl, named⟩
    · exact ⟨k + 1, b, m, mem, (ancestor_succ named found k).trans there, names⟩

theorem revisits_iff (named : next a = some n) (found : parent n = some p) :
    Revisits next parent a ↔ Names next parent [n] p ∨ Revisits next parent p := by
  have up (k : Nat) := ancestor_succ named found k
  constructor
  · rintro ⟨i, _ | j, b, c, m, before, hi, hj, names, names'⟩
    · omega
    · rw [up] at hj
      cases i with
      | zero =>
        obtain rfl := Option.some.inj hi
        rw [named, Option.some.injEq] at names
        exact .inl ⟨j, c, n, List.mem_singleton_self n, hj, names ▸ names'⟩
      | succ i =>
        rw [up] at hi
        exact .inr ⟨i, j, b, c, m, by omega, hi, hj, names, names'⟩
  · rintro (⟨k, b, m, mem, there, names⟩ | ⟨i, j, b, c, m, before, hi, hj, names, names'⟩)
    · rw [List.mem_singleton] at mem
      exact ⟨0, k + 1, a, b, n, by omega, rfl, (up k).trans there, named, mem ▸ names⟩
    · exact ⟨i + 1, j + 1, b, c, m, by omega, (up i).trans hi, (up j).trans hj, names, names'⟩

theorem names_cons : Names next parent (n :: visited) a ↔ Names next parent [n] a ∨ Names next parent visited a := by
  constructor
  · rintro ⟨k, b, m, mem, rest⟩
    rcases List.mem_cons.mp mem with rfl | mem
    · exact .inl ⟨k, b, m, List.mem_singleton_self m, rest⟩
    · exact .inr ⟨k, b, m, mem, rest⟩
  · rintro (⟨k, b, m, mem, rest⟩ | ⟨k, b, m, mem, rest⟩)
    · rw [List.mem_singleton] at mem
      exact ⟨k, b, m, mem ▸ List.mem_cons_self, rest⟩
    · exact ⟨k, b, m, List.mem_cons_of_mem n mem, rest⟩

variable [DecidableEq N] {room : Nat}

theorem lineage_last (last : next a = none) : lineage next parent (room + 1) visited a = .ok [a] := by
  simp [lineage, last]

theorem lineage_met (named : next a = some n) (met : n ∈ visited) :
    lineage next parent (room + 1) visited a = .error .revisited := by
  simp [lineage, named, met]

theorem lineage_missing (named : next a = some n) (new : n ∉ visited) (missing : parent n = none) :
    lineage next parent (room + 1) visited a = .error .missing := by
  simp [lineage, named, new, missing]

theorem lineage_parent (named : next a = some n) (new : n ∉ visited) (found : parent n = some p) :
    lineage next parent (room + 1) visited a = (lineage next parent room (n :: visited) p).map (a :: ·) := by
  simp [lineage, named, new, found]

theorem map_eq_error_iff {ε β γ : Type} {x : Except ε β} {f : β → γ} {e : ε} : x.map f = .error e ↔ x = .error e := by
  cases x <;> simp [Except.map]

theorem lineage_ne_exhausted {names : List N}
    (known : ∀ p m, p = a ∨ (∃ n, parent n = some p) → next p = some m → m ∈ names)
    (enough : names.length < room + visited.length) (distinct : visited.Nodup) (among : visited ⊆ names) :
    lineage next parent room visited a ≠ .error .exhausted := by
  induction room generalizing visited a with
  | zero =>
    have few := (distinct.subperm among).length_le
    omega
  | succ room ih =>
    cases named : next a with
    | none => simp [lineage_last named]
    | some n =>
      by_cases met : n ∈ visited
      · simp [lineage_met named met]
      · cases found : parent n with
        | none => simp [lineage_missing named met found]
        | some p =>
          rw [lineage_parent named met found, ne_eq, map_eq_error_iff]
          apply ih
          · intro q m from'
            apply known
            rcases from' with rfl | other
            · exact .inr ⟨n, found⟩
            · exact .inr other
          · rw [List.length_cons]
            omega
          · exact List.nodup_cons.mpr ⟨met, distinct⟩
          · exact List.cons_subset.mpr ⟨known a n (.inl rfl) named, among⟩

theorem lineage_error_iff (ends : lineage next parent room visited a ≠ .error .exhausted) :
    (∃ e, lineage next parent room visited a = .error e) ↔
      Missing next parent a ∨ Revisits next parent a ∨ Names next parent visited a := by
  induction room generalizing visited a with
  | zero => exact absurd rfl ends
  | succ room ih =>
    cases named : next a with
    | none =>
      have only {k : Nat} {b : α} {m : N} (there : ancestor next parent k a = some b) (names : next b = some m) : False := by
        cases k with
        | zero => simp [← Option.some.inj there, named] at names
        | succ k => simp [ancestor_of_last named k] at there
      refine iff_of_false (by simp [lineage_last named]) ?_
      rintro (⟨k, b, m, there, names, -⟩ | ⟨i, j, b, c, m, -, there, -, names, -⟩ | ⟨k, b, m, -, there, names⟩)
      · exact only there names
      · exact only there names
      · exact only there names
    | some n =>
      by_cases met : n ∈ visited
      · exact iff_of_true ⟨_, lineage_met named met⟩ (.inr (.inr ⟨0, a, n, met, rfl, named⟩))
      · cases found : parent n with
        | none => exact iff_of_true ⟨_, lineage_missing named met found⟩ (.inl ⟨0, a, n, rfl, named, found⟩)
        | some p =>
          rw [lineage_parent named met found] at ends ⊢
          simp only [ne_eq, map_eq_error_iff] at ends ⊢
          rw [ih ends, missing_iff named found, revisits_iff named found, names_iff named found, names_cons]
          simp only [met, false_or, or_left_comm, or_assoc]

/-- A line that was followed is all the ancestors there are. -/
theorem lineage_ok {line : List α} (run : lineage next parent room visited a = .ok line) (k : Nat) :
    (line)[k]? = ancestor next parent k a := by
  induction room generalizing visited a line k with
  | zero => cases run
  | succ room ih =>
    cases named : next a with
    | none =>
      rw [lineage_last named, Except.ok.injEq] at run
      subst run
      cases k with
      | zero => rfl
      | succ k => simp [ancestor_of_last named k]
    | some n =>
      by_cases met : n ∈ visited
      · rw [lineage_met named met] at run
        cases run
      · cases found : parent n with
        | none =>
          rw [lineage_missing named met found] at run
          cases run
        | some p =>
          rw [lineage_parent named met found] at run
          cases above : lineage next parent room (n :: visited) p with
          | error e =>
            rw [above] at run
            cases run
          | ok rest =>
            rw [above] at run
            obtain rfl := Except.ok.inj run
            cases k with
            | zero => rfl
            | succ k =>
              rw [ancestor_succ named found, ← ih above k]
              rfl

end lineage

end H2kvm.Framework
