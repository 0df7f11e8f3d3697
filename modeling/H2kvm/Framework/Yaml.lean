import Mathlib.Data.List.Basic

namespace H2kvm.Framework

/-- The values `yaml.safe_load` returns. A float is the text `str` gives for it, with the
integer it equals if there is one; `scalar` is any other hashable value (bytes, a date). -/
inductive Yaml where
  | null
  | bool (b : Bool)
  | int (n : Int)
  | float (text : String) (whole : Option Int)
  | str (s : String)
  | scalar (typeName text : String) (truth : Bool)
  | set (members : List Yaml)
  | seq (items : List Yaml)
  | map (fields : List (Yaml × Yaml))
  deriving Repr

namespace Yaml

def typeName : Yaml → String
  | .null => "NoneType"
  | .bool _ => "bool"
  | .int _ => "int"
  | .float _ _ => "float"
  | .str _ => "str"
  | .scalar typeName _ _ => typeName
  | .set _ => "set"
  | .seq _ => "list"
  | .map _ => "dict"

/-- `bool(value)`. -/
def truthy : Yaml → Bool
  | .null => false
  | .bool b => b
  | .int n => n ≠ 0
  | .float _ whole => whole ≠ some 0
  | .str s => s ≠ ""
  | .scalar _ _ truth => truth
  | .set members => !members.isEmpty
  | .seq items => !items.isEmpty
  | .map fields => !fields.isEmpty

/-- `value or {}`. -/
def orEmptyDict (v : Yaml) : Yaml := if v.truthy then v else .map []

/-- `str(value)` of a hashable value; a collection has no hash. -/
def hashableText : Yaml → Option String
  | .null => some "None"
  | .bool b => some (if b then "True" else "False")
  | .int n => some (toString n)
  | .float text _ => some text
  | .str s => some s
  | .scalar _ text _ => some text
  | .set _ | .seq _ | .map _ => none

def wholeNumber : Yaml → Option Int
  | .bool b => some (if b then 1 else 0)
  | .int n => some n
  | .float _ whole => whole
  | _ => none

/-- Equality of two dictionary keys. Booleans, integers and floats compare by value. -/
def sameKey : Yaml → Yaml → Bool
  | .null, .null => true
  | .str a, .str b => a == b
  | .scalar t a _, .scalar u b _ => t == u && a == b
  | .float a none, .float b none => a == b
  | a, b =>
    match a.wholeNumber, b.wholeNumber with
    | some m, some n => m == n
    | _, _ => false

/-- The fields of a dictionary in insertion order. -/
abbrev Fields := List (Yaml × Yaml)

namespace Fields

/-- `d.get(k)`. -/
def get? (d : Fields) (k : Yaml) : Option Yaml := (d.find? fun f => sameKey f.1 k).map Prod.snd

/-- `d[k] = v`: a key that is there keeps its place, a new one goes to the end. -/
def set : Fields → Yaml → Yaml → Fields
  | [], k, v => [(k, v)]
  | f :: d, k, v => if sameKey f.1 k then (f.1, v) :: d else f :: set d k v

/-- `d.pop(k, None)`. -/
def pop (d : Fields) (k : Yaml) : Fields := d.filter fun f => !sameKey f.1 k

variable {d : Fields} {s s' : String} {v : Yaml}

theorem sameKey_str {k : Yaml} : sameKey k (.str s) = true ↔ k = .str s := by
  cases k with
  | str a => simp [sameKey]
  | _ => simp [sameKey, wholeNumber]

theorem sameKey_str_eq (s s' : String) : sameKey (.str s) (.str s') = decide (s = s') := rfl

theorem get?_cons (f : Yaml × Yaml) (d : Fields) (s : String) :
    get? (f :: d) (.str s) = if sameKey f.1 (.str s) then some f.2 else get? d (.str s) := by
  simp only [get?, List.find?_cons]
  cases sameKey f.1 (.str s) with
  | true => rfl
  | false => rfl

theorem get?_set (d : Fields) (s s' : String) (v : Yaml) :
    (d.set (.str s) v).get? (.str s') = if s = s' then some v else d.get? (.str s') := by
  induction d with
  | nil =>
    rw [set, get?_cons, sameKey_str_eq]
    simp only [decide_eq_true_eq]
  | cons f d ih =>
    rw [set]
    split
    · rename_i found
      rw [get?_cons, get?_cons, sameKey_str.mp found, sameKey_str_eq]
      by_cases same : s = s'
      · simp [same]
      · simp [same]
    · rename_i other
      rw [get?_cons, get?_cons, ih]
      by_cases key : sameKey f.1 (.str s') = true
      · have apart : s ≠ s' := fun same => other (same ▸ key)
        rw [if_pos key, if_pos key, if_neg apart]
      · rw [if_neg key, if_neg key]

theorem get?_pop (d : Fields) (s s' : String) :
    (d.pop (.str s)).get? (.str s') = if s = s' then none else d.get? (.str s') := by
  induction d with
  | nil =>
    split
    · rfl
    · rfl
  | cons f d ih =>
    by_cases found : sameKey f.1 (.str s) = true
    · have gone : Fields.pop (f :: d) (.str s) = Fields.pop d (.str s) := List.filter_cons_of_neg (by simp [found])
      rw [gone, ih, get?_cons, sameKey_str.mp found, sameKey_str_eq]
      by_cases same : s = s'
      · simp [same]
      · simp [same]
    · have kept : Fields.pop (f :: d) (.str s) = f :: Fields.pop d (.str s) := List.filter_cons_of_pos (by simpa using found)
      rw [kept, get?_cons, get?_cons, ih]
      by_cases key : sameKey f.1 (.str s') = true
      · have apart : s ≠ s' := fun same => found (same ▸ key)
        rw [if_pos key, if_pos key, if_neg apart]
      · rw [if_neg key, if_neg key]

/-- No key is there twice, nor two keys a dictionary takes for one. -/
def KeysDistinct (d : Fields) : Prop := d.Pairwise fun f f' => f.1 ≠ f'.1 ∧ sameKey f.1 f'.1 = false

end Fields

/-- Every dictionary in the value has distinct keys. -/
inductive Distinct : Yaml → Prop where
  | null : Distinct .null
  | bool (b : Bool) : Distinct (.bool b)
  | int (n : Int) : Distinct (.int n)
  | float (text : String) (whole : Option Int) : Distinct (.float text whole)
  | str (s : String) : Distinct (.str s)
  | scalar (typeName text : String) (truth : Bool) : Distinct (.scalar typeName text truth)
  | set (members : List Yaml) : Distinct (.set members)
  | seq {items : List Yaml} (h : ∀ v ∈ items, Distinct v) : Distinct (.seq items)
  | map {fields : Fields} (keys : fields.KeysDistinct) (h : ∀ f ∈ fields, Distinct f.2) : Distinct (.map fields)

namespace Fields

variable {d : Fields} {s : String} {v : Yaml}

theorem mem_set {f : Yaml × Yaml} (h : f ∈ d.set (.str s) v) : f ∈ d ∨ f = (.str s, v) := by
  induction d with
  | nil => exact .inr (List.mem_singleton.mp h)
  | cons g d ih =>
    rw [set] at h
    split at h
    · rename_i found
      rcases List.mem_cons.mp h with rfl | h
      · exact .inr (Prod.ext (sameKey_str.mp found) rfl)
      · exact .inl (List.mem_cons_of_mem _ h)
    · rcases List.mem_cons.mp h with rfl | h
      · exact .inl List.mem_cons_self
      · exact (ih h).imp_left (List.mem_cons_of_mem _)

theorem KeysDistinct.set (h : d.KeysDistinct) : (d.set (.str s) v).KeysDistinct := by
  induction d with
  | nil => exact List.pairwise_singleton _ _
  | cons f d ih =>
    obtain ⟨first, rest⟩ := List.pairwise_cons.mp h
    rw [Fields.set]
    split
    · exact List.pairwise_cons.mpr ⟨first, rest⟩
    · rename_i other
      refine List.pairwise_cons.mpr ⟨?_, ih rest⟩
      intro g hg
      rcases mem_set hg with old | rfl
      · exact first g old
      · exact ⟨mt sameKey_str.mpr other, Bool.eq_false_iff.mpr other⟩

theorem KeysDistinct.filter (h : d.KeysDistinct) (p : Yaml × Yaml → Bool) : KeysDistinct (d.filter p) :=
  List.Pairwise.filter p h

theorem KeysDistinct.of_keys {d' : Fields} (h : d.KeysDistinct) (same : d'.map Prod.fst = d.map Prod.fst) :
    d'.KeysDistinct := by
  have through (l : Fields) : l.KeysDistinct ↔ (l.map Prod.fst).Pairwise fun k k' => k ≠ k' ∧ sameKey k k' = false :=
    (List.pairwise_map (f := Prod.fst) (R := fun k k' => k ≠ k' ∧ sameKey k k' = false)).symm
  rw [through, same, ← through]
  exact h

/-- Of two entries with one key there is only one. -/
theorem KeysDistinct.eq_of_key (h : d.KeysDistinct) {f g : Yaml × Yaml} (hf : f ∈ d) (hg : g ∈ d) (same : f.1 = g.1) :
    f = g := by
  induction d with
  | nil => cases hf
  | cons e d ih =>
    obtain ⟨first, rest⟩ := List.pairwise_cons.mp h
    rcases List.mem_cons.mp hf with rfl | hf'
    · rcases List.mem_cons.mp hg with rfl | hg'
      · rfl
      · exact absurd same (first g hg').1
    · rcases List.mem_cons.mp hg with rfl | hg'
      · exact absurd same.symm (first f hf').1
      · exact ih rest hf' hg'

theorem set_eq_append (d : Fields) (s : String) (v : Yaml) :
    ∃ tail, d.set (.str s) v = d.takeWhile (fun f => !sameKey f.1 (.str s)) ++ (.str s, v) :: tail := by
  induction d with
  | nil => exact ⟨[], rfl⟩
  | cons f d ih =>
    rw [Fields.set, List.takeWhile_cons]
    split
    · rename_i found
      refine ⟨d, ?_⟩
      rw [found, sameKey_str.mp found]
      rfl
    · rename_i other
      obtain ⟨tail, rest⟩ := ih
      refine ⟨tail, ?_⟩
      rw [rest, Bool.eq_false_iff.mpr other]
      rfl

/-- The entries after an assignment. -/
theorem KeysDistinct.mem_set_iff (h : d.KeysDistinct) {f : Yaml × Yaml} :
    f ∈ d.set (.str s) v ↔ (f ∈ d ∧ f.1 ≠ .str s) ∨ f = (.str s, v) := by
  induction d with
  | nil => simp [Fields.set]
  | cons g d ih =>
    obtain ⟨first, rest⟩ := List.pairwise_cons.mp h
    rw [Fields.set]
    split
    · rename_i found
      have key : g.1 = .str s := sameKey_str.mp found
      have apart (f : Yaml × Yaml) (hf : f ∈ d) : f.1 ≠ .str s := fun same => (first f hf).1 (key.trans same.symm)
      constructor
      · intro hf
        rcases List.mem_cons.mp hf with rfl | hf
        · exact .inr (Prod.ext key rfl)
        · exact .inl ⟨List.mem_cons_of_mem _ hf, apart f hf⟩
      · intro hf
        rcases hf with ⟨hf, other⟩ | rfl
        · rcases List.mem_cons.mp hf with rfl | hf
          · exact absurd key other
          · exact List.mem_cons_of_mem _ hf
        · rw [key]
          exact List.mem_cons_self
    · rename_i other
      have apart : g.1 ≠ .str s := mt sameKey_str.mpr other
      rw [List.mem_cons, ih rest, List.mem_cons]
      constructor
      · intro hf
        rcases hf with rfl | ⟨hf, hs⟩ | rfl
        · exact .inl ⟨.inl rfl, apart⟩
        · exact .inl ⟨.inr hf, hs⟩
        · exact .inr rfl
      · intro hf
        rcases hf with ⟨rfl | hf, hs⟩ | rfl
        · exact .inl rfl
        · exact .inr (.inl ⟨hf, hs⟩)
        · exact .inr (.inr rfl)

end Fields

theorem Distinct.keys {d : Fields} (h : Distinct (.map d)) : d.KeysDistinct := by
  cases h
  assumption

theorem Distinct.values {d : Fields} (h : Distinct (.map d)) : ∀ f ∈ d, Distinct f.2 := by
  cases h
  assumption

theorem Distinct.setField {d : Fields} (h : Distinct (.map d)) (s : String) {v : Yaml} (hv : Distinct v) :
    Distinct (.map (d.set (.str s) v)) := by
  refine .map h.keys.set ?_
  intro f hf
  rcases Fields.mem_set hf with old | rfl
  · exact h.values f old
  · exact hv

theorem Distinct.filterFields {d : Fields} (h : Distinct (.map d)) (p : Yaml × Yaml → Bool) :
    Distinct (.map (d.filter p)) :=
  .map (h.keys.filter p) fun f hf => h.values f (List.mem_filter.mp hf).1

theorem Distinct.get {d : Fields} (h : Distinct (.map d)) {k v : Yaml} (found : d.get? k = some v) : Distinct v := by
  obtain ⟨f, hf, rfl⟩ := Option.map_eq_some_iff.mp found
  exact h.values f (List.mem_of_find?_eq_some hf)

end Yaml

end H2kvm.Framework

namespace H2kvm.Framework.Yaml

/-- What tells a key from the others: numbers are told apart by value, a collection is no key. -/
inductive KeyId where
  | null
  | str (s : String)
  | scalar (typeName text : String)
  | float (text : String)
  | number (n : Int)

def keyId : Yaml → Option KeyId
  | .null => some .null
  | .bool b => some (.number (if b then 1 else 0))
  | .int n => some (.number n)
  | .float text none => some (.float text)
  | .float _ (some n) => some (.number n)
  | .str s => some (.str s)
  | .scalar typeName text _ => some (.scalar typeName text)
  | .set _ | .seq _ | .map _ => none

theorem sameKey_iff {a b : Yaml} : sameKey a b = true ↔ ∃ i, keyId b = some i ∧ keyId a = some i := by
  rcases a with _ | _ | _ | ⟨_, _ | _⟩ | _ | _ | _ | _ | _ <;> rcases b with _ | _ | _ | ⟨_, _ | _⟩ | _ | _ | _ | _ | _ <;>
    simp [sameKey, keyId, wholeNumber]

theorem sameKey_symm {a b : Yaml} (h : sameKey a b = true) : sameKey b a = true := by
  obtain ⟨i, hb, ha⟩ := sameKey_iff.mp h
  exact sameKey_iff.mpr ⟨i, ha, hb⟩

/-- Two keys that a dictionary takes for one are the same to every other key. -/
theorem sameKey_congr {a b : Yaml} (h : sameKey a b = true) (k : Yaml) : sameKey a k = sameKey b k := by
  obtain ⟨i, hb, ha⟩ := sameKey_iff.mp h
  rw [Bool.eq_iff_iff, sameKey_iff, sameKey_iff, ha, hb]

theorem sameKey_congr_right {a b : Yaml} (h : sameKey a b = true) (k : Yaml) : sameKey k a = sameKey k b := by
  obtain ⟨i, hb, ha⟩ := sameKey_iff.mp h
  rw [Bool.eq_iff_iff, sameKey_iff, sameKey_iff, ha, hb]

theorem sameKey_of_hashable {a : Yaml} (h : a.hashableText.isSome) : sameKey a a = true := by
  rcases a with _ | _ | _ | ⟨_, _ | _⟩ | _ | _ | _ | _ | _ <;> simp_all [sameKey, wholeNumber, hashableText]

namespace Fields

variable {d : Fields} {k k' v : Yaml}

theorem find_cons (f : Yaml × Yaml) (d : Fields) (k : Yaml) :
    get? (f :: d) k = if sameKey f.1 k then some f.2 else d.get? k := by
  simp only [get?, List.find?_cons]
  cases sameKey f.1 k <;> rfl

theorem get?_congr (h : sameKey k k' = true) (d : Fields) : d.get? k = d.get? k' := by
  induction d with
  | nil => rfl
  | cons f d ih => rw [find_cons, find_cons, ih, sameKey_congr_right h]

theorem find_set (d : Fields) (k k' v : Yaml) :
    (d.set k v).get? k' = if sameKey k k' then some v else d.get? k' := by
  induction d with
  | nil => rw [set, find_cons]
  | cons f d ih =>
    rw [set]
    split
    · rename_i found
      rw [find_cons, find_cons, sameKey_congr found]
      cases sameKey k k' <;> rfl
    · rename_i other
      rw [find_cons, find_cons, ih]
      cases here : sameKey f.1 k' with
      | false => rfl
      | true =>
        have apart : sameKey k k' ≠ true := by
          intro same
          apply other
          rw [sameKey_congr here, sameKey_symm same]
        simp [apart]

theorem get?_eq_none_of_forall (h : ∀ f ∈ d, sameKey f.1 k = false) : d.get? k = none := by
  simp only [get?, Option.map_eq_none_iff, List.find?_eq_none]
  intro f mem
  simp [h f mem]

theorem find_pop (d : Fields) (k k' : Yaml) :
    (d.pop k).get? k' = if sameKey k k' then none else d.get? k' := by
  induction d with
  | nil => cases sameKey k k' <;> rfl
  | cons f d ih =>
    rw [pop, List.filter_cons] at *
    cases gone : sameKey f.1 k with
    | true =>
      simp only [Bool.not_true, Bool.false_eq_true, if_false, ih]
      rw [find_cons, sameKey_congr gone]
      cases sameKey k k' <;> rfl
    | false =>
      simp only [Bool.not_false, if_true]
      rw [find_cons, ih, find_cons]
      cases here : sameKey f.1 k' with
      | false => rfl
      | true =>
        have apart : sameKey k k' ≠ true := by
          intro same
          rw [sameKey_congr here, sameKey_symm same] at gone
          cases gone
        simp [apart]

theorem pop_set_self (h : sameKey k k' = true) (d : Fields) (v : Yaml) : (d.set k v).pop k' = d.pop k' := by
  induction d with
  | nil => simp [set, pop, h]
  | cons f d ih =>
    rw [set]
    split
    · rename_i found
      simp [pop, sameKey_congr found, h]
    · simp only [pop, List.filter_cons] at ih ⊢
      rw [ih]

theorem pop_set_other (h : sameKey k k' = false) (d : Fields) (v : Yaml) : (d.set k v).pop k' = (d.pop k').set k v := by
  induction d with
  | nil => simp [set, pop, h]
  | cons f d ih =>
    rw [set]
    split
    · rename_i found
      have kept : sameKey f.1 k' = false := by rw [sameKey_congr found, h]
      simp [pop, set, kept, found]
    · rename_i other
      simp only [pop, List.filter_cons] at ih ⊢
      rw [ih]
      split
      · simp [set, other]
      · rfl

end Fields

/-- The value at the end of a path of keys. -/
def follow : Yaml → List Yaml → Option Yaml
  | v, [] => some v
  | .map d, k :: path => (Fields.get? d k).bind (follow · path)
  | _, _ :: _ => none

/-- `isinstance(value, dict)`. -/
def isDict : Yaml → Bool
  | .map _ => true
  | _ => false

theorem isDict_iff {v : Yaml} : v.isDict = true ↔ ∃ d, v = .map d := by
  cases v <;> simp [isDict]

theorem follow_nil (v : Yaml) : v.follow [] = some v := by
  cases v <;> rfl

theorem follow_cons (d : Fields) (k : Yaml) (path : List Yaml) :
    (Yaml.map d).follow (k :: path) = (d.get? k).bind (follow · path) := rfl

/-- Nothing is below a value that is no dictionary. -/
theorem follow_of_not_isDict {v : Yaml} (h : v.isDict = false) {path : List Yaml} (below : path ≠ []) :
    v.follow path = none := by
  cases path with
  | nil => exact absurd rfl below
  | cons k path => cases v <;> first | rfl | simp [isDict] at h

mutual

/-- `a == b`; the order of a dictionary does not matter. -/
def equal : Yaml → Yaml → Bool
  | .seq items, .seq items' => equalItems items items'
  | .map fields, .map fields' => fields.length == fields'.length && equalFields fields fields'
  | .set members, .set members' => members.length == members'.length && members.all fun a => members'.any (sameKey a)
  | a, b => sameKey a b

def equalItems : List Yaml → List Yaml → Bool
  | [], [] => true
  | a :: items, b :: items' => equal a b && equalItems items items'
  | _, _ => false

def equalFields : List (Yaml × Yaml) → Fields → Bool
  | [], _ => true
  | (k, v) :: rest, fields =>
    (match fields.get? k with
      | some w => equal v w
      | none => false) && equalFields rest fields

end

end H2kvm.Framework.Yaml
