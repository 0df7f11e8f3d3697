import Mathlib.Logic.Function.Basic

namespace H2kvm.Framework

/-- What a name stands for. -/
inductive Entry (P δ : Type)
  | file (content : δ)
  | directory
  | link (target : P)

/-- The names, with what they stand for, and those that have been written or taken away. -/
structure Shelf (P δ : Type) where
  entry : P → Option (Entry P δ)
  changed : List P

/-- What a program leaves where it was told to write. -/
inductive Trace (δ : Type)
  | untouched
  | wrote (content : δ)
  | removed

namespace Shelf

variable {P δ : Type} [DecidableEq P]

section operations

variable (s : Shelf P δ) (hops : Nat) (p : P)

/-- Where a name leads. -/
def follow : Nat → P → P
  | 0, p => p
  | hops + 1, p =>
    match s.entry p with
    | some (.link target) => follow hops target
    | _ => p

def put (e : Option (Entry P δ)) : Shelf P δ := ⟨Function.update s.entry p e, p :: s.changed⟩

/-- `Path.exists`. -/
def isPresent : Bool :=
  match s.entry (s.follow hops p) with
  | some (.file _) | some .directory => true
  | some (.link _) | none => false

/-- `Path.is_file`. -/
def isFile : Bool :=
  match s.entry (s.follow hops p) with
  | some (.file _) => true
  | _ => false

/-- A name that `unlink` can take away. -/
def removable : Bool :=
  match s.entry p with
  | some (.file _) | some (.link _) => true
  | some .directory | none => false

/-- `Path.unlink`, where the directory allows it. -/
def unlink (allowed : Bool) : Shelf P δ := if allowed && s.removable p then s.put p none else s

/-- A program writes to a name, through the links. -/
def leave : Trace δ → Shelf P δ
  | .untouched => s
  | .wrote content =>
    match s.entry (s.follow hops p) with
    | some (.file _) | none => s.put (s.follow hops p) (some (.file content))
    | some .directory | some (.link _) => s
  | .removed => s.unlink p true

end operations

/-- Nothing is left that was not there, and what was there has not been touched. -/
structure Tidy (before : P → Option (Entry P δ)) (after : Shelf P δ) : Prop where
  absent : ∀ p, before p = none → after.entry p = none
  kept : ∀ p, before p ≠ none → after.entry p = before p ∧ p ∉ after.changed

/-- A file is made under a name for a while: what stands there is taken away first, a program writes, and the file is taken
away again. -/
def borrow (s : Shelf P δ) (hops : Nat) (p : P) (first : Bool) (trace : Trace δ) (last : Bool) : Shelf P δ :=
  (((s.unlink p first).leave hops p trace).unlink p last)

variable {s : Shelf P δ} {hops : Nat} {p q : P} {allowed first last : Bool} {trace : Trace δ}
  {before : P → Option (Entry P δ)}

theorem unlink_cases (s : Shelf P δ) (p : P) (allowed : Bool) :
    s.unlink p allowed = s ∨ (s.removable p = true ∧ s.unlink p allowed = s.put p none) := by
  unfold unlink
  split
  · next both => exact .inr ⟨(Bool.and_eq_true_iff.mp both).2, rfl⟩
  · exact .inl rfl

theorem unlink_eq_self_iff (s : Shelf P δ) (p : P) (allowed : Bool) :
    s.unlink p allowed = s ↔ (allowed && s.removable p) = false := by
  unfold unlink
  split
  · next both =>
    rw [both]
    refine iff_of_false (fun same => ?_) nofun
    have longer := congrArg (fun s => s.changed.length) same
    simp [put] at longer
  · next not => exact iff_of_true rfl (Bool.eq_false_iff.mpr not)

theorem leave_cases (s : Shelf P δ) (hops : Nat) (p : P) (trace : Trace δ) :
    s.leave hops p trace = s ∨
    (∃ content, trace = .wrote content ∧
      s.leave hops p trace = s.put (s.follow hops p) (some (.file content))) ∨
    (s.removable p = true ∧ s.leave hops p trace = s.put p none) := by
  cases trace with
  | untouched => exact .inl rfl
  | wrote content =>
    rw [leave]
    split
    · exact .inr (.inl ⟨content, rfl, rfl⟩)
    · exact .inr (.inl ⟨content, rfl, rfl⟩)
    · exact .inl rfl
    · exact .inl rfl
  | removed => exact (unlink_cases s p true).imp_right .inr

theorem put_entry (s : Shelf P δ) (p : P) (e : Option (Entry P δ)) : (s.put p e).entry p = e := Function.update_self _ _ _

theorem put_entry_of_ne (other : q ≠ p) (e : Option (Entry P δ)) : (s.put p e).entry q = s.entry q :=
  Function.update_of_ne other _ _

theorem changed_unlink (member : q ∈ s.changed) : q ∈ (s.unlink p allowed).changed := by
  rcases unlink_cases s p allowed with same | ⟨-, gone⟩
  · rwa [same]
  · rw [gone]
    exact List.mem_cons_of_mem _ member

theorem changed_leave (member : q ∈ s.changed) : q ∈ (s.leave hops p trace).changed := by
  rcases leave_cases s hops p trace with same | ⟨content, -, wrote⟩ | ⟨-, gone⟩
  · rwa [same]
  · rw [wrote]
    exact List.mem_cons_of_mem _ member
  · rw [gone]
    exact List.mem_cons_of_mem _ member

section free

/-- Under a name that stood for nothing only a file can be, and nothing else has changed. -/
structure Lent (before : P → Option (Entry P δ)) (p : P) (s : Shelf P δ) : Prop where
  plain : s.entry p = none ∨ ∃ content, s.entry p = some (.file content)
  elsewhere : ∀ q, q ≠ p → s.entry q = before q
  changed : ∀ q ∈ s.changed, q = p

theorem Lent.put (lent : Lent before p s) {e : Option (Entry P δ)} (plain : e = none ∨ ∃ content, e = some (.file content)) :
    Lent before p (s.put p e) where
  plain := by rwa [put_entry]
  elsewhere q other := (put_entry_of_ne other e).trans (lent.elsewhere q other)
  changed q member := (List.mem_cons.mp member).elim id (lent.changed q)

omit [DecidableEq P] in
theorem Lent.follow (lent : Lent before p s) (hops : Nat) : s.follow hops p = p := by
  cases hops with
  | zero => rfl
  | succ hops =>
    rcases lent.plain with absent | ⟨content, file⟩
    · rw [Shelf.follow, absent]
    · rw [Shelf.follow, file]

theorem Lent.unlink (lent : Lent before p s) (allowed : Bool) :
    Lent before p (s.unlink p allowed) ∧ ((s.unlink p allowed).entry p = none ↔ allowed = true ∨ s.entry p = none) := by
  have removable : s.removable p = true ↔ s.entry p ≠ none := by
    rcases lent.plain with absent | ⟨content, file⟩
    · simp [Shelf.removable, absent]
    · simp [Shelf.removable, file]
  unfold Shelf.unlink
  split
  · next both => exact ⟨lent.put (.inl rfl), iff_of_true (put_entry _ _ _) (.inl (Bool.and_eq_true_iff.mp both).1)⟩
  · next not =>
    refine ⟨lent, (or_iff_right_of_imp fun yes => ?_).symm⟩
    rw [yes, Bool.true_and, removable, not_not] at not
    exact not

theorem Lent.leave (lent : Lent before p s) (absent : s.entry p = none) (hops : Nat) (trace : Trace δ) :
    Lent before p (s.leave hops p trace) ∧ ((s.leave hops p trace).entry p = none ↔ ∀ content, trace ≠ .wrote content) := by
  cases trace with
  | untouched => exact ⟨lent, iff_of_true absent nofun⟩
  | wrote content =>
    rw [Shelf.leave, lent.follow hops, absent]
    refine ⟨lent.put (.inr ⟨content, rfl⟩), iff_of_false ?_ fun none => none content rfl⟩
    rw [put_entry]
    exact nofun
  | removed => exact ⟨(lent.unlink true).1, iff_of_true ((lent.unlink true).2.mpr (.inl rfl)) nofun⟩

theorem Lent.tidy_iff (lent : Lent before p s) (free : before p = none) : Tidy before s ↔ s.entry p = none := by
  constructor
  · exact fun tidy => tidy.absent p free
  · intro gone
    refine ⟨fun q absent => ?_, fun q there => ?_⟩
    · by_cases same : q = p
      · rw [same]
        exact gone
      · rw [lent.elsewhere q same]
        exact absent
    · have other : q ≠ p := fun same => there (same ▸ free)
      exact ⟨lent.elsewhere q other, fun member => other (lent.changed q member)⟩

end free

section taken

/-- What stood under the name is kept only where no step touches it. -/
theorem tidy_borrow_taken_iff (taken : before p ≠ none) :
    Tidy before (borrow ⟨before, []⟩ hops p first trace last) ↔
      unlink ⟨before, []⟩ p first = ⟨before, []⟩ ∧ leave ⟨before, []⟩ hops p trace = ⟨before, []⟩ ∧
        unlink ⟨before, []⟩ p last = ⟨before, []⟩ := by
  constructor
  · intro tidy
    have untouched : p ∉ (borrow ⟨before, []⟩ hops p first trace last).changed := (tidy.kept p taken).2
    unfold borrow at tidy untouched
    have start : unlink ⟨before, []⟩ p first = ⟨before, []⟩ := by
      rcases unlink_cases ⟨before, []⟩ p first with same | ⟨-, gone⟩
      · exact same
      · refine absurd (changed_unlink (changed_leave ?_)) untouched
        rw [gone]
        exact List.mem_cons_self
    rw [start] at tidy untouched
    have middle : leave ⟨before, []⟩ hops p trace = ⟨before, []⟩ := by
      rcases leave_cases ⟨before, []⟩ hops p trace with same | ⟨content, -, wrote⟩ | ⟨-, gone⟩
      · exact same
      · exfalso
        have member : follow ⟨before, []⟩ hops p ∈ (unlink (leave ⟨before, []⟩ hops p trace) p last).changed := by
          refine changed_unlink ?_
          rw [wrote]
          exact List.mem_cons_self
        by_cases absent : before (follow ⟨before, []⟩ hops p) = none
        · have other : follow ⟨before, []⟩ hops p ≠ p := fun same => taken (same ▸ absent)
          have nothing := tidy.absent _ absent
          rcases unlink_cases (leave ⟨before, []⟩ hops p trace) p last with same | ⟨-, gone⟩
          · rw [same, wrote, put_entry] at nothing
            cases nothing
          · rw [gone, put_entry_of_ne other, wrote, put_entry] at nothing
            cases nothing
        · exact (tidy.kept _ absent).2 member
      · refine absurd (changed_unlink ?_) untouched
        rw [gone]
        exact List.mem_cons_self
    rw [middle] at untouched
    refine ⟨start, middle, ?_⟩
    rcases unlink_cases ⟨before, []⟩ p last with same | ⟨-, gone⟩
    · exact same
    · refine absurd ?_ untouched
      rw [gone]
      exact List.mem_cons_self
  · rintro ⟨start, middle, done⟩
    rw [borrow, start, middle, done]
    exact ⟨fun _ absent => absent, fun _ _ => ⟨rfl, nofun⟩⟩

end taken

/-- A name that is free is given back where nothing is written to it, or what is written is taken away at last; one that is
taken is left alone where no step does anything. -/
theorem tidy_borrow_iff : Tidy before (borrow ⟨before, []⟩ hops p first trace last) ↔
    (before p = none ∧ (last = true ∨ ∀ content, trace ≠ .wrote content)) ∨
    (before p ≠ none ∧ unlink ⟨before, []⟩ p first = ⟨before, []⟩ ∧ leave ⟨before, []⟩ hops p trace = ⟨before, []⟩ ∧
      unlink ⟨before, []⟩ p last = ⟨before, []⟩) := by
  by_cases free : before p = none
  · have lent : Lent before p ⟨before, []⟩ := ⟨.inl free, fun _ _ => rfl, nofun⟩
    obtain ⟨lent', gone⟩ := lent.unlink first
    obtain ⟨lent'', left⟩ := lent'.leave (gone.mpr (.inr free)) hops trace
    obtain ⟨lent₃, gone'⟩ := lent''.unlink last
    rw [borrow, lent₃.tidy_iff free, gone', left]
    simp [free]
  · rw [tidy_borrow_taken_iff free]
    simp [free]

end Shelf

end H2kvm.Framework
