import Mathlib.Data.List.AList

namespace H2kvm.Framework

/-- A dictionary: at most one value for each key. -/
abbrev Dict (K V : Type) := AList (fun _ : K => V)

/-- The values `json.loads` returns and `json.dumps` accepts. A float is its 64 bits, which
the decimal text Python writes for it determines. -/
inductive Json where
  | null
  | bool (b : Bool)
  | int (n : Int)
  | float (bits : BitVec 64)
  | str (s : String)
  | arr (xs : List Json)
  | obj (fields : List (String × Json))
  deriving Repr

namespace Json

-- The derive handler does not reach through the two lists, so equality is decided by hand.
mutual

def decEq : (a b : Json) → Decidable (a = b)
  | .null, .null => isTrue rfl
  | .bool a, .bool b => decidable_of_iff (a = b) (by simp)
  | .int a, .int b => decidable_of_iff (a = b) (by simp)
  | .float a, .float b => decidable_of_iff (a = b) (by simp)
  | .str a, .str b => decidable_of_iff (a = b) (by simp)
  | .arr xs, .arr ys =>
    have := decEqList xs ys
    decidable_of_iff (xs = ys) (by simp)
  | .obj xs, .obj ys =>
    have := decEqFields xs ys
    decidable_of_iff (xs = ys) (by simp)
  | .null, .bool _ | .null, .int _ | .null, .float _ | .null, .str _ | .null, .arr _ | .null, .obj _
  | .bool _, .null | .bool _, .int _ | .bool _, .float _ | .bool _, .str _ | .bool _, .arr _ | .bool _, .obj _
  | .int _, .null | .int _, .bool _ | .int _, .float _ | .int _, .str _ | .int _, .arr _ | .int _, .obj _
  | .float _, .null | .float _, .bool _ | .float _, .int _ | .float _, .str _ | .float _, .arr _ | .float _, .obj _
  | .str _, .null | .str _, .bool _ | .str _, .int _ | .str _, .float _ | .str _, .arr _ | .str _, .obj _
  | .arr _, .null | .arr _, .bool _ | .arr _, .int _ | .arr _, .float _ | .arr _, .str _ | .arr _, .obj _
  | .obj _, .null | .obj _, .bool _ | .obj _, .int _ | .obj _, .float _ | .obj _, .str _ | .obj _, .arr _ =>
    isFalse (by simp)

def decEqList : (xs ys : List Json) → Decidable (xs = ys)
  | [], [] => isTrue rfl
  | x :: xs, y :: ys =>
    have := decEq x y
    have := decEqList xs ys
    decidable_of_iff (x = y ∧ xs = ys) (by simp)
  | [], _ :: _ | _ :: _, [] => isFalse (by simp)

def decEqFields : (xs ys : List (String × Json)) → Decidable (xs = ys)
  | [], [] => isTrue rfl
  | (k, x) :: xs, (l, y) :: ys =>
    have := decEq x y
    have := decEqFields xs ys
    decidable_of_iff (k = l ∧ x = y ∧ xs = ys) (by simp [and_assoc])
  | [], _ :: _ | _ :: _, [] => isFalse (by simp)

end

instance : DecidableEq Json := decEq

end Json

/-- A Python exception. `isFatal` marks those that are no `Exception`, which
`except Exception` lets through. -/
structure PyException where
  typeName : String
  message : String
  isFatal : Bool
  deriving DecidableEq

/-- A serialiser and its parser. `parse` fails on a text no value dumps to, and what was
dumped reads back as it was. -/
structure Codec (α : Type) where
  Text : Type
  dump : α → Text
  parse : Text → Option α
  parse_dump : ∀ a, parse (dump a) = some a

attribute [simp] Codec.parse_dump

/-- What stands before and after a position of a list. -/
theorem split_at {α : Type*} {l : List α} {i : Nat} {a : α} (h : l[i]? = some a) :
    ∃ before after, l = before ++ a :: after ∧ l.eraseIdx i = before ++ after ∧
      ∀ b, l.set i b = before ++ b :: after := by
  obtain ⟨hi, rfl⟩ := List.getElem?_eq_some_iff.mp h
  refine ⟨l.take i, l.drop (i + 1), ?_, ?_, ?_⟩
  · rw [List.getElem_cons_drop, List.take_append_drop]
  · exact List.eraseIdx_eq_take_drop_succ l i
  · intro b
    rw [List.set_eq_take_append_cons_drop, if_pos hi]

theorem countP_eraseIdx {α : Type*} {l : List α} {i : Nat} {a : α} (h : l[i]? = some a) (p : α → Bool) :
    (l.eraseIdx i).countP p + (if p a then 1 else 0) = l.countP p := by
  obtain ⟨before, after, was, erased, -⟩ := split_at h
  rw [erased, was, List.countP_append, List.countP_append, List.countP_cons]
  omega

theorem countP_set {α : Type*} {l : List α} {i : Nat} {a : α} (h : l[i]? = some a) (b : α) (p : α → Bool) :
    (l.set i b).countP p + (if p a then 1 else 0) = l.countP p + (if p b then 1 else 0) := by
  obtain ⟨before, after, was, -, set⟩ := split_at h
  rw [set, was, List.countP_append, List.countP_append, List.countP_cons, List.countP_cons]
  omega

namespace Codec

/-- The codec that keeps the value itself. -/
def value (α : Type) : Codec α := ⟨α, id, some, fun _ => rfl⟩

end Codec

/-- A serialiser whose texts are lines of a file, none of them blank. -/
structure LineCodec (α : Type) extends Codec α where
  blank : Text → Bool
  dump_not_blank : ∀ a, blank (dump a) = false

attribute [simp] LineCodec.dump_not_blank

namespace LineCodec

def value (α : Type) : LineCodec α := ⟨Codec.value α, fun _ => false, fun _ => rfl⟩

/-- Reads a file line by line; blank lines are skipped, and a line that does not parse ends
the reading. -/
def parseLines {α : Type} (c : LineCodec α) : List c.Text → List α
  | [] => []
  | line :: rest =>
    if c.blank line then parseLines c rest
    else match c.parse line with
      | some a => a :: parseLines c rest
      | none => []

@[simp] theorem parseLines_dump {α : Type} (c : LineCodec α) (as : List α) :
    c.parseLines (as.map c.dump) = as := by
  induction as with
  | nil => rfl
  | cons a as ih => simp [parseLines, ih]

end LineCodec

end H2kvm.Framework
