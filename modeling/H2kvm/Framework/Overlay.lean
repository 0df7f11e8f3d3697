import Mathlib.Logic.Relation
import Mathlib.Logic.Function.Basic

namespace H2kvm.Framework

/-- A disk image file: raw data, or an overlay that holds the blocks written to it and may
name the file the others are read from. -/
inductive Image (P B : Type) where
  | raw (data : Nat → B)
  | overlay (backing : Option P) (blocks : Nat → Option B)

namespace Image

variable {P B : Type}

def backing : Image P B → Option P
  | .raw _ => none
  | .overlay backing _ => backing

/-- Writes one block in place. -/
def write (i : Nat) (b : B) : Image P B → Image P B
  | .raw data => .raw (Function.update data i b)
  | .overlay backing blocks => .overlay backing (Function.update blocks i (some b))

@[simp] theorem backing_write (i : Nat) (b : B) (image : Image P B) :
    (image.write i b).backing = image.backing := by
  cases image <;> rfl

variable (fs : P → Option (Image P B))

/-- The disk read at a path, through the backing files. An image whose chain of backing files
is broken or runs in a circle has no content. -/
inductive Reads [Zero B] : P → (Nat → B) → Prop
  | raw {p data} (found : fs p = some (.raw data)) : Reads p data
  | base {p blocks} (found : fs p = some (.overlay none blocks)) : Reads p fun i => (blocks i).getD 0
  | overlay {p q blocks below} (found : fs p = some (.overlay (some q) blocks)) (lower : Reads q below) :
      Reads p fun i => (blocks i).getD (below i)

/-- The image at `p` names `q` as its backing file. -/
def Backs (p q : P) : Prop := ∃ image, fs p = some image ∧ image.backing = some q

/-- `q` is `p` or in its chain of backing files. -/
abbrev InChain (p q : P) : Prop := Relation.ReflTransGen (Backs fs) p q

variable {fs} {fs' : P → Option (Image P B)} {p q : P}

theorem Backs.unique {r : P} (hq : Backs fs p q) (hr : Backs fs p r) : q = r := by
  obtain ⟨image, found, names⟩ := hq
  obtain ⟨image', found', names'⟩ := hr
  obtain rfl := Option.some.inj (found.symm.trans found')
  exact Option.some.inj (names.symm.trans names')

theorem Backs.absurd_of_none {image : Image P B} (names : Backs fs p q) (found : fs p = some image)
    (none : image.backing = none) : False := by
  obtain ⟨image', found', backing⟩ := names
  obtain rfl := Option.some.inj (found.symm.trans found')
  cases none.symm.trans backing

/-- Two file systems that differ at one file have the same chains up to that file. -/
theorem InChain.congr_upto (chain : InChain fs p q) (same : ∀ r, r ≠ q → fs' r = fs r) : InChain fs' p q := by
  induction chain using Relation.ReflTransGen.head_induction_on with
  | refl => exact .refl
  | @head a b names rest ih =>
    by_cases ha : a = q
    · rw [ha]
    · obtain ⟨image, found, backing⟩ := names
      exact Relation.ReflTransGen.head ⟨image, (same a ha).trans found, backing⟩ ih

variable [Zero B]

theorem Reads.lower {c : Nat → B} (h : Reads fs p c) (names : Backs fs p q) : ∃ below, Reads fs q below := by
  cases h with
  | raw found => exact (names.absurd_of_none found rfl).elim
  | base found => exact (names.absurd_of_none found rfl).elim
  | overlay found lower =>
    have next : Backs fs _ _ := ⟨_, found, rfl⟩
    obtain rfl := names.unique next
    exact ⟨_, lower⟩

/-- An image whose chain comes back to it cannot be read. -/
theorem Reads.no_loop {c : Nat → B} (h : Reads fs p c) : ¬ Relation.TransGen (Backs fs) p p := by
  induction h with
  | raw found | base found =>
    intro loop
    obtain ⟨q, names, -⟩ := Relation.TransGen.head'_iff.mp loop
    exact names.absurd_of_none found rfl
  | overlay found lower ih =>
    -- the loop leaves through the backing file, so it is one of that file as well
    intro loop
    obtain ⟨q, names, back⟩ := Relation.TransGen.head'_iff.mp loop
    have next : Backs fs _ _ := ⟨_, found, rfl⟩
    obtain rfl := names.unique next
    exact ih (Relation.TransGen.tail' back names)

theorem Reads.congr {c : Nat → B} (h : Reads fs p c) (same : ∀ q, InChain fs p q → fs' q = fs q) :
    Reads fs' p c := by
  induction h with
  | raw found => exact .raw ((same _ .refl).trans found)
  | base found => exact .base ((same _ .refl).trans found)
  | overlay found lower ih =>
    have next : Backs fs _ _ := ⟨_, found, rfl⟩
    refine .overlay ((same _ .refl).trans found) (ih fun q hq => same q ?_)
    exact Relation.ReflTransGen.head next hq

section Overwritten

/-! A file `b` is overwritten by an image that names the backing file of the image at `s`. -/

variable {s b : P} (apart : b ≠ s) (others : ∀ p, p ≠ b → fs' p = fs p)
  (names : (fs' b).map Image.backing = (fs s).map Image.backing)

include apart others names in
theorem not_reads_of_overwritten (chain : InChain fs s b) (c : Nat → B) : ¬ Reads fs' s c := by
  intro h
  rcases Relation.ReflTransGen.cases_head chain with same | ⟨x, first, rest⟩
  · exact apart same.symm
  obtain ⟨image, found, backing⟩ := first
  have first' : Backs fs' s x := ⟨image, (others s apart.symm).trans found, backing⟩
  have rest' : InChain fs' x b := InChain.congr_upto rest others
  have back : Backs fs' b x := by
    rw [found, Option.map_some, backing] at names
    obtain ⟨image', found', backing'⟩ := Option.map_eq_some_iff.mp names
    exact ⟨image', found', backing'⟩
  obtain ⟨below, lower⟩ := h.lower first'
  exact lower.no_loop (Relation.TransGen.tail' rest' back)

include others in
theorem reads_iff_of_not_inChain (chain : ¬ InChain fs s b) (c : Nat → B) : Reads fs' s c ↔ Reads fs s c := by
  have chain' : ¬ InChain fs' s b := fun h => chain (h.congr_upto fun p hp => (others p hp).symm)
  constructor
  · intro h
    apply h.congr
    intro q hq
    exact (others q fun hb => chain' (hb ▸ hq)).symm
  · intro h
    apply h.congr
    intro q hq
    exact others q fun hb => chain (hb ▸ hq)

include apart others names in
theorem reads_overwritten_iff :
    (∀ c, Reads fs' s c ↔ Reads fs s c) ↔ ¬ InChain fs s b ∨ ∀ c, ¬ Reads fs s c := by
  by_cases chain : InChain fs s b
  · have gone := not_reads_of_overwritten apart others names chain
    constructor
    · intro same
      exact .inr fun c h => gone c ((same c).mpr h)
    · intro h
      have unreadable := h.resolve_left (not_not_intro chain)
      exact fun c => ⟨fun h => (gone c h).elim, fun h => (unreadable c h).elim⟩
  · exact ⟨fun _ => .inl chain, fun _ => reads_iff_of_not_inChain others chain⟩

end Overwritten

end Image

end H2kvm.Framework
