import Mathlib.Logic.Function.Basic
import H2kvm.Framework.Data

namespace H2kvm.Framework

section objects

/-- What becomes of a call to a remote store: it is carried out, it is refused and nothing is done, or it
is carried out and the answer is lost. -/
inductive Answer where
  | ok
  | refused (error : String)
  | lost (error : String)
  deriving DecidableEq

namespace Answer

/-- Whether the call has its effect. -/
def applied : Answer → Bool
  | .refused _ => false
  | .ok | .lost _ => true

def error? : Answer → Option String
  | .ok => none
  | .refused e | .lost e => some e

@[simp] theorem error?_eq_none {a : Answer} : a.error? = none ↔ a = .ok := by
  cases a <;> simp [error?]

end Answer

inductive ApiError where
  | notFound (resource name : String)
  | alreadyExists (resource name : String)
  | other (text : String)
  deriving DecidableEq

def ApiError.text : ApiError → String
  | .notFound resource name => resource ++ " \"" ++ name ++ "\" not found"
  | .alreadyExists resource name => resource ++ " \"" ++ name ++ "\" already exists"
  | .other text => text

/-- Which of the two calls of `Objects.ensure` failed. -/
inductive EnsureError where
  | create (error : ApiError)
  | get (error : ApiError)
  deriving DecidableEq

/-- The objects of one kind, by name. -/
abbrev Objects (α : Type) := String → Option α

namespace Objects

variable {α : Type}

def get (resource : String) (objs : Objects α) (a : Answer) (name : String) : Except ApiError α :=
  match a.error?, objs name with
  | some e, _ => .error (.other e)
  | none, some x => .ok x
  | none, none => .error (.notFound resource name)

def create (resource : String) (objs : Objects α) (a : Answer) (name : String) (x : α) :
    Objects α × Option ApiError :=
  match objs name with
  | some _ => (objs, some (a.error?.elim (.alreadyExists resource name) .other))
  | none => (if a.applied then Function.update objs name (some x) else objs, a.error?.map .other)

/-- Creates an object, or settles for the one of that name that is there already. -/
def ensure (resource : String) (objs : Objects α) (a b : Answer) (name : String) (x : α) :
    Objects α × Option EnsureError :=
  match objs.create resource a name x with
  | (objs, none) => (objs, none)
  | (objs, some (.alreadyExists _ _)) =>
    match objs.get resource b name with
    | .error e => (objs, some (.get e))
    | .ok _ => (objs, none)
  | (objs, some e) => (objs, some (.create e))

def delete (resource : String) (objs : Objects α) (a : Answer) (name : String) : Objects α × Option ApiError :=
  (if a.applied then Function.update objs name none else objs,
    a.error?.elim (if (objs name).isSome then none else some (.notFound resource name)) (some ∘ .other))

variable {resource : String} {objs : Objects α} {a : Answer} {name : String} {x : α}

theorem get_eq_ok : objs.get resource a name = .ok x ↔ a = .ok ∧ objs name = some x := by
  cases a <;> cases h : objs name <;> simp [get, h, Answer.error?]

theorem get_eq_notFound {r n : String} :
    objs.get resource a name = .error (.notFound r n) ↔ a = .ok ∧ objs name = none ∧ resource = r ∧ name = n := by
  cases a <;> cases h : objs name <;> simp [get, h, Answer.error?]

/-- Any other error comes from the call itself. -/
theorem ne_ok_of_get_eq_error {e : ApiError} (h : objs.get resource a name = .error e)
    (other : ∀ r n, e = .notFound r n → False) : a ≠ .ok := by
  intro asked
  rw [asked] at h
  cases found : objs name with
  | some x => simp [get, found, Answer.error?] at h
  | none =>
    simp only [get, found, Answer.error?, Except.error.injEq] at h
    exact other _ _ h.symm

theorem ensure_fst {b : Answer} :
    (objs.ensure resource a b name x).1 = (objs.create resource a name x).1 := by
  unfold ensure
  split
  · next h => rw [h]
  · next h =>
    rw [h]
    split <;> rfl
  · next h => rw [h]

/-- An object that was already there stays as it is, and one that is made is the one given. -/
theorem ensure_lookup {b : Answer} {y : α} (h : (objs.ensure resource a b name x).1 name = some y) :
    objs name = some y ∨ y = x := by
  rw [ensure_fst] at h
  cases found : objs name with
  | some z =>
    simp only [create, found] at h
    exact .inl h
  | none =>
    simp only [create, found] at h
    split at h
    · rw [Function.update_self, Option.some.injEq] at h
      exact .inr h.symm
    · rw [found] at h
      cases h

theorem create_other {other : String} (h : other ≠ name) :
    (objs.create resource a name x).1 other = objs other := by
  cases found : objs name with
  | some z => simp [create, found]
  | none =>
    simp only [create, found]
    split
    · exact Function.update_of_ne h _ _
    · rfl

theorem ensure_eq_update {b : Answer} :
    (objs.ensure resource a b name x).1 = Function.update objs name ((objs.ensure resource a b name x).1 name) := by
  funext other
  by_cases h : other = name
  · rw [h, Function.update_self]
  · rw [Function.update_of_ne h, ensure_fst, create_other h]

theorem delete_other {other : String} (h : other ≠ name) : (objs.delete resource a name).1 other = objs other := by
  simp only [delete]
  split
  · exact Function.update_of_ne h _ _
  · rfl

theorem delete_self : (objs.delete resource a name).1 name = if a.applied then none else objs name := by
  simp only [delete]
  split
  · exact Function.update_self _ _ _
  · rfl

/-- The calls `ensure` needs to succeed. -/
theorem ensure_eq_none_iff {b : Answer} :
    (objs.ensure resource a b name x).2 = none ↔ a = .ok ∧ ((objs name).isSome → b = .ok) := by
  cases found : objs name with
  | none => cases a <;> simp [ensure, create, found, Answer.error?, Answer.applied]
  | some y => cases a <;> cases b <;> simp [ensure, create, get, found, Answer.error?]

theorem ensure_of_failed {b : Answer} (failed : (objs.ensure resource a b name x).2 ≠ none)
    (answered : ∀ err, a ≠ .lost err) : (objs.ensure resource a b name x).1 = objs := by
  rw [ensure_fst]
  cases found : objs name with
  | some y => simp [create, found]
  | none =>
    cases a with
    | ok => simp [ensure_eq_none_iff, found] at failed
    | refused err => simp [create, found, Answer.applied]
    | lost err => exact absurd rfl (answered err)

end Objects

end objects

section mergePatch

/-! ### Dictionaries as lists -/

section entries

variable {K V : Type} [DecidableEq K]

/-- `d[key] = value`; a key that is new comes last. -/
def setEntry (key : K) (value : V) : List (K × V) → List (K × V)
  | [] => [(key, value)]
  | (k, v) :: rest => if k = key then (k, value) :: rest else (k, v) :: setEntry key value rest

def dropEntry (key : K) (entries : List (K × V)) : List (K × V) := entries.filter fun entry => entry.1 ≠ key

variable {key other : K} {value : V} {entries : List (K × V)}

theorem lookup_cons_other (apart : other ≠ key) : ((key, value) :: entries).lookup other = entries.lookup other := by
  rw [List.lookup_cons, beq_false_of_ne apart]

theorem lookup_setEntry_self (key : K) (value : V) (entries : List (K × V)) :
    (setEntry key value entries).lookup key = some value := by
  induction entries with
  | nil => rw [setEntry, List.lookup_cons_self]
  | cons entry rest ih =>
    obtain ⟨k, v⟩ := entry
    rw [setEntry]
    split
    · next same => rw [same, List.lookup_cons_self]
    · next apart => rw [lookup_cons_other (Ne.symm apart), ih]

theorem lookup_setEntry_other (apart : other ≠ key) : (setEntry key value entries).lookup other = entries.lookup other := by
  induction entries with
  | nil => rw [setEntry, lookup_cons_other apart]
  | cons entry rest ih =>
    obtain ⟨k, v⟩ := entry
    rw [setEntry]
    split
    · next same => rw [lookup_cons_other (same ▸ apart), lookup_cons_other (same ▸ apart)]
    · rw [List.lookup_cons, List.lookup_cons, ih]

theorem lookup_dropEntry (key other : K) (entries : List (K × V)) :
    (dropEntry key entries).lookup other = if other = key then none else entries.lookup other := by
  induction entries with
  | nil => simp [dropEntry]
  | cons entry rest ih =>
    obtain ⟨k, v⟩ := entry
    rw [dropEntry] at ih ⊢
    by_cases same : k = key
    · rw [List.filter_cons_of_neg (by simp [same]), ih]
      split
      · rfl
      · next apart => rw [lookup_cons_other (same ▸ apart)]
    · rw [List.filter_cons_of_pos (by simpa using same), List.lookup_cons, List.lookup_cons, ih]
      by_cases here : other = k
      · rw [here, beq_self_eq_true]
        exact (if_neg same).symm
      · rw [beq_false_of_ne here]

theorem keys_setEntry (key : K) (value : V) (entries : List (K × V)) : (setEntry key value entries).map Prod.fst =
    if key ∈ entries.map Prod.fst then entries.map Prod.fst else entries.map Prod.fst ++ [key] := by
  induction entries with
  | nil => rfl
  | cons entry rest ih =>
    obtain ⟨k, v⟩ := entry
    rw [setEntry]
    by_cases same : k = key
    · simp [same]
    · rw [if_neg same, List.map_cons, ih, List.map_cons]
      by_cases member : key ∈ rest.map Prod.fst
      · rw [if_pos member, if_pos (List.mem_cons_of_mem _ member)]
      · have absent : key ∉ (k, v).1 :: rest.map Prod.fst := by
          rw [List.mem_cons]
          rintro (rfl | there)
          · exact same rfl
          · exact member there
        rw [if_neg member, if_neg absent, List.cons_append]

end entries

/-! ### JSON merge patch -/

namespace Json

/-- The members of an object; of any other value there are none. -/
def members : Json → List (String × Json)
  | .obj fields => fields
  | _ => []

def field? (j : Json) (name : String) : Option Json := j.members.lookup name

def get? : Json → List String → Option Json
  | j, [] => some j
  | j, name :: path => (j.field? name).bind fun value => value.get? path

mutual

/-- RFC 7386. -/
def mergePatch (target : Json) : Json → Json
  | .obj patch => .obj (mergeMembers target.members patch)
  | patch => patch

def mergeMembers (fields : List (String × Json)) : List (String × Json) → List (String × Json)
  | [] => fields
  | (name, .null) :: patch => mergeMembers (dropEntry name fields) patch
  | (name, value) :: patch => mergeMembers (setEntry name (mergePatch ((fields.lookup name).getD .null) value) fields) patch

end

/-- What a patch makes of one member. -/
def mergeField (old : Option Json) : Option Json → Option Json
  | none => old
  | some .null => none
  | some value => some (mergePatch (old.getD .null) value)

theorem mergeMembers_cons (fields patch : List (String × Json)) (name : String) (value : Json) :
    mergeMembers fields ((name, value) :: patch) = mergeMembers (match mergeField (fields.lookup name) (some value) with
      | some merged => setEntry name merged fields
      | none => dropEntry name fields) patch := by
  cases value <;> rw [mergeMembers] <;> first | rfl | nofun

theorem lookup_mergeMembers {patch : List (String × Json)} (distinct : (patch.map Prod.fst).Nodup)
    (fields : List (String × Json)) (name : String) :
    (mergeMembers fields patch).lookup name = mergeField (fields.lookup name) (patch.lookup name) := by
  induction patch generalizing fields with
  | nil => rw [mergeMembers, List.lookup_nil, mergeField]
  | cons entry patch ih =>
    obtain ⟨k, value⟩ := entry
    rw [List.map_cons, List.nodup_cons] at distinct
    rw [mergeMembers_cons, ih distinct.2]
    by_cases here : name = k
    · have later : patch.lookup name = none := by
        rw [List.lookup_eq_none_iff]
        intro entry member
        rw [here]
        simp only [bne_iff_ne, ne_eq]
        exact fun same => distinct.1 (List.mem_map.mpr ⟨entry, member, same.symm⟩)
      rw [later, mergeField, here, List.lookup_cons_self]
      split
      · next merged => rw [lookup_setEntry_self, merged]
      · next merged => rw [lookup_dropEntry, if_pos rfl, merged]
    · rw [lookup_cons_other here]
      congr 1
      split
      · exact lookup_setEntry_other here
      · rw [lookup_dropEntry, if_neg here]

theorem field?_mergePatch {patch : List (String × Json)} (distinct : (patch.map Prod.fst).Nodup) (target : Json)
    (name : String) : (mergePatch target (.obj patch)).field? name = mergeField (target.field? name) (patch.lookup name) := by
  rw [mergePatch]
  exact lookup_mergeMembers distinct target.members name

/-- A patch says nothing about a place. -/
def Spares : Json → List String → Prop
  | .obj patch, name :: path => (patch.map Prod.fst).Nodup ∧ ∀ value, patch.lookup name = some value → value.Spares path
  | _, _ => False

theorem Spares.ne_nil {patch : Json} {path : List String} (spares : patch.Spares path) : path ≠ [] := by
  rintro rfl
  cases patch <;> exact spares

theorem Spares.ne_null {patch : Json} {path : List String} (spares : patch.Spares path) : patch ≠ .null := by
  rintro rfl
  cases path <;> exact spares

/-- What a patch says nothing about is as it was. -/
theorem get?_mergePatch_spared {patch : Json} {path : List String} (spares : patch.Spares path) (target : Json) :
    (mergePatch target patch).get? path = target.get? path := by
  induction path generalizing patch target with
  | nil => exact absurd rfl spares.ne_nil
  | cons name path ih =>
    cases patch with
    | obj patch =>
      obtain ⟨distinct, below⟩ := spares
      rw [get?, field?_mergePatch distinct, get?]
      cases named : patch.lookup name with
      | none => rw [mergeField]
      | some value =>
        have spared := below value named
        have merged : mergeField (target.field? name) (some value) =
            some (mergePatch ((target.field? name).getD .null) value) := by
          cases value <;> first | rfl | exact absurd rfl spared.ne_null
        rw [merged, Option.bind_some, ih spared]
        cases old : target.field? name with
        | some child => rfl
        | none =>
          obtain ⟨next, rest, rfl⟩ := List.exists_cons_of_ne_nil spared.ne_nil
          rfl
    | _ => exact absurd spares id

theorem get?_mergePatch_cons {patch : List (String × Json)} {name : String} {value : Json}
    (distinct : (patch.map Prod.fst).Nodup) (named : patch.lookup name = some value) (some : value ≠ .null) (target : Json)
    (path : List String) : (mergePatch target (.obj patch)).get? (name :: path) =
      (mergePatch ((target.field? name).getD .null) value).get? path := by
  have merged : mergeField (target.field? name) (.some value) =
      .some (mergePatch ((target.field? name).getD .null) value) := by
    cases value <;> first | rfl | exact absurd rfl some
  rw [get?, field?_mergePatch distinct, named, merged, Option.bind_some]

/-- A patch has a value at a place. -/
def Reaches : Json → List String → Json → Prop
  | patch, [], value => patch = value
  | .obj patch, name :: path, value =>
    (patch.map Prod.fst).Nodup ∧ ∃ below, patch.lookup name = some below ∧ below.Reaches path value
  | _, _, _ => False

theorem Reaches.ne_null {patch value : Json} {path : List String} (reaches : patch.Reaches path value)
    (some : value ≠ .null) : patch ≠ .null := by
  rintro rfl
  cases path with
  | nil => exact some reaches.symm
  | cons name path => exact reaches

theorem get?_mergePatch_reached {patch value : Json} {path : List String} (reaches : patch.Reaches path value)
    (some : value ≠ .null) (target : Json) (rest : List String) : (mergePatch target patch).get? (path ++ rest) =
      (mergePatch ((target.get? path).getD .null) value).get? rest := by
  induction path generalizing patch target with
  | nil =>
    cases reaches
    rfl
  | cons name path ih =>
    cases patch with
    | obj patch =>
      obtain ⟨distinct, below, named, reaches⟩ := reaches
      rw [List.cons_append, get?_mergePatch_cons distinct named (reaches.ne_null some), ih reaches, get?]
      cases target.field? name with
      | some child => rfl
      | none => cases path <;> rfl
    | _ => exact absurd reaches id

/-- A value at a place, and nothing else. -/
def nest : List String → Json → Json
  | [], value => value
  | name :: path, value => .obj [(name, nest path value)]

theorem reaches_nest {path rest : List String} {patch value : Json} (reaches : patch.Reaches rest value) :
    (nest path patch).Reaches (path ++ rest) value := by
  induction path with
  | nil => exact reaches
  | cons name path ih => exact ⟨List.nodup_singleton name, _, List.lookup_cons_self, ih⟩

/-- A patch of one place spares the places that are neither above it nor within. -/
theorem spares_nest {path place : List String} {patch : Json} (above : ¬ place <+: path)
    (within : ∀ rest, place = path ++ rest → patch.Spares rest) : (nest path patch).Spares place := by
  induction path generalizing place with
  | nil => exact within place rfl
  | cons name path ih =>
    cases place with
    | nil => exact absurd List.nil_prefix above
    | cons other place =>
      refine ⟨List.nodup_singleton name, fun value named => ?_⟩
      by_cases same : other = name
      · subst same
        rw [List.lookup_cons_self] at named
        cases named
        refine ih (fun before => above ?_) fun rest split => within rest (by rw [split, List.cons_append])
        obtain ⟨more, rfl⟩ := before
        exact ⟨more, rfl⟩
      · rw [lookup_cons_other same] at named
        cases named

end Json

end mergePatch

end H2kvm.Framework
