import Mathlib.Data.List.Infix
import H2kvm.Framework.Lines

namespace H2kvm.Framework.Paths

/-- A path by its components. -/
abbrev Path := List (List Char)

def up : List Char := ['.', '.']

/-- A component that names something. -/
def Proper (c : List Char) : Prop := c ≠ [] ∧ c ≠ ['.'] ∧ c ≠ up

instance (c : List Char) : Decidable (Proper c) := inferInstanceAs (Decidable (_ ∧ _ ∧ _))

/-- One component of `posixpath.normpath`. -/
def push (absolute : Bool) (path : Path) (c : List Char) : Path :=
  if c = [] ∨ c = ['.'] then path
  else if c ≠ up ∨ (absolute = false ∧ path = []) ∨ path.getLast? = some up then path ++ [c]
  else path.dropLast

/-- `posixpath.normpath` of the components. -/
def normpath (absolute : Bool) (components : Path) : Path := components.foldl (push absolute) []

/-- The components of a text. -/
def components (text : List Char) : Path := Text.words (· == '/') text

/-- `posixpath.dirname`. -/
def dirname (path : Path) : Path := path.dropLast

def Normal (path : Path) : Prop := ∀ c ∈ path, Proper c

instance (path : Path) : Decidable (Normal path) := inferInstanceAs (Decidable (∀ c ∈ path, _))

variable {absolute : Bool} {path rest : Path} {c : List Char}

theorem proper_of_length (long : 2 < c.length) : Proper c := by
  refine ⟨?_, ?_, ?_⟩
  all_goals
    rintro rfl
    revert long
    decide

theorem push_proper (proper : Proper c) : push absolute path c = path ++ [c] := by
  obtain ⟨nonempty, nodot, noup⟩ := proper
  simp [push, nonempty, nodot, noup]

theorem foldl_push_normal (normal : Normal rest) : rest.foldl (push absolute) path = path ++ rest := by
  induction rest generalizing path with
  | nil => simp
  | cons c rest ih =>
    rw [List.foldl_cons, push_proper (normal c List.mem_cons_self),
      ih fun d member => normal d (List.mem_cons_of_mem c member)]
    simp

theorem normpath_normal (normal : Normal path) : normpath absolute path = path := foldl_push_normal normal

/-- A normal path is not changed by what is normal after it. -/
theorem normpath_append (normal : Normal path) (normal' : Normal rest) : normpath absolute (path ++ rest) = path ++ rest := by
  apply normpath_normal
  intro c member
  rcases List.mem_append.mp member with left | right
  · exact normal c left
  · exact normal' c right

theorem normpath_concat (proper : Proper c) : normpath absolute (path ++ [c]) = normpath absolute path ++ [c] := by
  rw [normpath, List.foldl_append, List.foldl_cons, List.foldl_nil, push_proper proper]
  rfl

theorem Normal.dropLast (normal : Normal path) : Normal path.dropLast := fun c member =>
  normal c (List.mem_of_mem_dropLast member)

theorem Normal.dirname (normal : Normal path) : Normal (dirname path) := normal.dropLast

theorem not_proper_up : ¬ Proper up := fun proper => proper.2.2 rfl

theorem Normal.getLast?_ne_up (normal : Normal path) : path.getLast? ≠ some up := by
  intro last
  exact not_proper_up (normal up (List.mem_of_getLast? last))

theorem foldl_push_ups {n : Nat} (normal : Normal path) : (List.replicate n up).foldl (push true) path <+: path := by
  induction n generalizing path with
  | zero => exact List.prefix_rfl
  | succ n ih =>
    have popped : push true path up = path.dropLast := by
      have last := normal.getLast?_ne_up
      have named : up ≠ [] ∧ up ≠ ['.'] := by decide
      simp [push, last, named.1, named.2]
    rw [List.replicate_succ, List.foldl_cons, popped]
    exact (ih normal.dropLast).trans (List.dropLast_prefix path)

theorem normal_normpath (components : Path) : Normal (normpath true components) := by
  induction components using List.reverseRecOn with
  | nil => nofun
  | append_singleton components c ih =>
    rw [normpath, List.foldl_append, List.foldl_cons, List.foldl_nil]
    have before : Normal (components.foldl (push true) []) := ih
    unfold push
    split
    · exact before
    · next named =>
      split
      · next kept =>
        have proper : Proper c := by
          obtain ⟨nonempty, nodot⟩ := not_or.mp named
          refine ⟨nonempty, nodot, ?_⟩
          rcases kept with noup | ⟨relative, -⟩ | last
          · exact noup
          · cases relative
          · exact absurd last before.getLast?_ne_up
        intro d member
        rcases List.mem_append.mp member with old | new
        · exact before d old
        · rw [List.mem_singleton.mp new]
          exact proper
      · exact before.dropLast

/-- A relative path goes up some times, and then down. -/
theorem normpath_relative (components : Path) : ∃ n names, normpath false components = List.replicate n up ++ names ∧
    Normal names := by
  induction components using List.reverseRecOn with
  | nil => exact ⟨0, [], rfl, nofun⟩
  | append_singleton components c ih =>
    obtain ⟨n, names, before, normal⟩ := ih
    rw [normpath, List.foldl_append, List.foldl_cons, List.foldl_nil]
    change ∃ n' names', push false (normpath false components) c = _ ∧ _
    rw [before]
    by_cases empty : c = [] ∨ c = ['.']
    · exact ⟨n, names, by rw [push, if_pos empty], normal⟩
    · obtain ⟨nonempty, nodot⟩ := not_or.mp empty
      by_cases ascends : c = up
      · subst ascends
        cases names using List.reverseRecOn with
        | nil =>
          refine ⟨n + 1, [], ?_, nofun⟩
          rw [List.append_nil, push, if_neg empty, if_pos, List.append_nil, List.replicate_succ']
          cases n with
          | zero => exact .inr (.inl ⟨rfl, rfl⟩)
          | succ n => exact .inr (.inr (by simp [List.replicate_succ']))
        | append_singleton names d =>
          have proper : Proper d := normal d (by simp)
          refine ⟨n, names, ?_, fun e member => normal e (by simp [member])⟩
          rw [push, if_neg empty, if_neg]
          · rw [← List.append_assoc, List.dropLast_concat]
          · have last : (List.replicate n up ++ (names ++ [d])).getLast? = some d := by simp [← List.append_assoc]
            rw [last]
            simp [proper.2.2]
      · have proper : Proper c := ⟨nonempty, nodot, ascends⟩
        refine ⟨n, names ++ [c], ?_, ?_⟩
        · rw [push_proper proper, List.append_assoc]
        · intro d member
          rcases List.mem_append.mp member with old | new
          · exact normal d old
          · rw [List.mem_singleton.mp new]
            exact proper

/-- It does not matter for an absolute path whether what is joined to it is brought to its normal form first. -/
theorem normpath_append_relative (normal : Normal path) (components : Path) :
    normpath true (path ++ components) = normpath true (path ++ normpath false components) := by
  have joined : ∀ rest, normpath true (path ++ rest) = rest.foldl (push true) path := by
    intro rest
    rw [normpath, List.foldl_append, foldl_push_normal normal, List.nil_append]
  rw [joined, joined]
  induction components using List.reverseRecOn with
  | nil => rfl
  | append_singleton components c ih =>
    obtain ⟨n, names, form, named⟩ := normpath_relative components
    have last : normpath false (components ++ [c]) = push false (normpath false components) c := by
      rw [normpath, List.foldl_append]
      rfl
    rw [List.foldl_append, List.foldl_cons, List.foldl_nil, ih, last]
    by_cases empty : c = [] ∨ c = ['.']
    · rw [push, if_pos empty, push, if_pos empty]
    · by_cases ascends : c = up
      · subst ascends
        rw [form]
        cases names using List.reverseRecOn with
        | nil =>
          have more : push false (List.replicate n up ++ []) up = List.replicate n up ++ [up] := by
            rw [List.append_nil, push, if_neg empty, if_pos]
            cases n with
            | zero => exact .inr (.inl ⟨rfl, rfl⟩)
            | succ n => exact .inr (.inr (by simp [List.replicate_succ']))
          rw [more, List.append_nil, List.foldl_append]
          rfl
        | append_singleton names d =>
          have proper : Proper d := named d (by simp)
          have popped : ∀ (absolute : Bool) (front : Path), push absolute (front ++ [d]) up = front := by
            intro absolute front
            rw [push, if_neg empty, if_neg]
            · exact List.dropLast_concat
            · simp [proper.2.2]
          rw [← List.append_assoc, popped, List.foldl_append, List.foldl_cons, List.foldl_nil, push_proper proper, popped]
      · obtain ⟨nonempty, nodot⟩ := not_or.mp empty
        have proper : Proper c := ⟨nonempty, nodot, ascends⟩
        rw [push_proper proper, push_proper proper, List.foldl_append, List.foldl_cons, List.foldl_nil, push_proper proper]

end H2kvm.Framework.Paths
