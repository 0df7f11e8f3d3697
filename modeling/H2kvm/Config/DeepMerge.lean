import H2kvm.Framework.Yaml
import H2kvm.Profiles.Loader

namespace H2kvm.Config

open Framework Yaml Profiles

mutual

/-- The value the batch orchestrator's `deep_merge` gives a key that has the value `old` so far. -/
def deepMergeValue (old : Option Yaml) : Yaml → Yaml
  | .map overlay =>
    match old with
    | some (.map base) => .map (deepMerge base overlay)
    | _ => .map overlay
  | value => value

def deepMergeField (result : Fields) : Yaml × Yaml → Fields
  | (key, value) => result.set key (deepMergeValue (result.get? key) value)

/-- `deep_merge` of `_apply_config_overrides`, as the loop over the items of `overlay` into `result`. -/
def deepMerge (result : Fields) : List (Yaml × Yaml) → Fields
  | [] => result
  | item :: rest => deepMerge (deepMergeField result item) rest

end

mutual

theorem deepMergeValue_eq (old : Option Yaml) : ∀ value, deepMergeValue old value = mergeValue .replace old value
  | .map overlay => by
    rcases old with _ | _ | _ | _ | _ | _ | _ | _ | _ | base
    case some.map => simp only [deepMergeValue, mergeValue, deepMerge_eq base overlay]
    all_goals simp only [deepMergeValue, mergeValue]
  | .seq items => by
    rcases old with _ | _ | _ | _ | _ | _ | _ | _ | base | _ <;> simp only [deepMergeValue, mergeValue]
  | .null | .bool _ | .int _ | .float _ _ | .str _ | .scalar _ _ _ | .set _ => by simp only [deepMergeValue, mergeValue]

theorem deepMergeField_eq (result : Fields) : ∀ item, deepMergeField result item = mergeField .replace result item
  | (key, value) => by simp only [deepMergeField, mergeField, deepMergeValue_eq (result.get? key) value]

theorem deepMerge_eq (result : Fields) : ∀ overlay, deepMerge result overlay = mergeDicts .replace result overlay
  | [] => by simp only [deepMerge, mergeDicts]
  | item :: rest => by
    simp only [deepMerge, mergeDicts, deepMergeField_eq result item]
    exact deepMerge_eq (mergeField .replace result item) rest

end

section paths

variable {mode : ListMode} {base override : Fields} {k v : Yaml} {path : List Yaml}

theorem mergeValue_map (d d' : Fields) : mergeValue mode (some (.map d)) (.map d') = .map (mergeDicts mode d d') := by
  simp only [mergeValue]

theorem mergeValue_map_other {old : Option Yaml} (other : ∀ d, old ≠ some (.map d)) (d : Fields) :
    mergeValue mode old (.map d) = .map d := by
  rcases old with _ | _ | _ | _ | _ | _ | _ | _ | _ | base
  case some.map => exact absurd rfl (other base)
  all_goals simp only [mergeValue]

theorem mergeValue_replace {old : Option Yaml} (other : v.isDict = false) : mergeValue .replace old v = v := by
  cases v with
  | map d => cases other
  | seq items => rcases old with _ | _ | _ | _ | _ | _ | _ | _ | _ | _ <;> simp only [mergeValue]
  | _ => simp only [mergeValue]

theorem mergeValue_none : mergeValue mode none v = v := by
  cases v <;> cases mode <;> simp only [mergeValue]

/-- What a key has after the merge. -/
theorem get?_mergeDicts (distinct : override.KeysDistinct) :
    (mergeDicts mode base override).get? k =
      match override.get? k with
      | some v => some (mergeValue mode (base.get? k) v)
      | none => base.get? k := by
  induction override generalizing base with
  | nil => simp only [mergeDicts]; rfl
  | cons f rest ih =>
    obtain ⟨first, others⟩ := List.pairwise_cons.mp distinct
    rw [mergeDicts, ih others, mergeField, Fields.find_cons]
    cases here : sameKey f.1 k with
    | true =>
      -- no later entry has the key, so the assignment stays
      have later : Fields.get? rest k = none := by
        apply Fields.get?_eq_none_of_forall
        intro g mem
        rw [← sameKey_congr_right here]
        have apart := (first g mem).2
        rw [Bool.eq_false_iff] at apart ⊢
        exact fun same => apart (sameKey_symm same)
      rw [later, Fields.find_set, if_pos here, Fields.get?_congr here]
      rfl
    | false =>
      rw [Fields.find_set, here]
      rfl

/-- Where `override` has a value, it is merged into what `base` has there. -/
theorem follow_mergeDicts_of_some (distinct : Distinct (.map override)) (there : (Yaml.map override).follow path = some v) :
    (Yaml.map (mergeDicts mode base override)).follow path =
      some (mergeValue mode ((Yaml.map base).follow path) v) := by
  induction path generalizing base override with
  | nil =>
    obtain rfl := Option.some.inj there
    rw [follow_nil, follow_nil, mergeValue_map]
  | cons k path ih =>
    rw [follow_cons, Option.bind_eq_some_iff] at there
    obtain ⟨w, found, below⟩ := there
    rw [follow_cons, follow_cons, get?_mergeDicts distinct.keys, found]
    simp only [Option.bind_some]
    cases dict : w.isDict with
    | false =>
      have last : path = [] := by
        by_contra more
        rw [follow_of_not_isDict dict more] at below
        cases below
      subst last
      rw [follow_nil] at below ⊢
      obtain rfl := Option.some.inj below
      cases base.get? k <;> simp [follow_nil]
    | true =>
      obtain ⟨d', rfl⟩ := isDict_iff.mp dict
      by_cases both : ∃ d, base.get? k = some (.map d)
      · obtain ⟨d, old⟩ := both
        rw [old, mergeValue_map, Option.bind_some]
        exact ih (distinct.get found) below
      · rw [mergeValue_map_other (fun d old => both ⟨d, old⟩), below]
        cases path with
        | nil =>
          obtain rfl := Option.some.inj below
          have old : (base.get? k).bind (follow · []) = base.get? k := by
            cases base.get? k <;> simp [follow_nil]
          rw [old, mergeValue_map_other (fun d old => both ⟨d, old⟩)]
        | cons k' path =>
          have old : (base.get? k).bind (follow · (k' :: path)) = none := by
            cases value : base.get? k with
            | none => rfl
            | some x =>
              have plain : x.isDict = false := by
                rw [Bool.eq_false_iff, ne_eq, isDict_iff]
                rintro ⟨d, rfl⟩
                exact both ⟨d, value⟩
              exact follow_of_not_isDict plain (List.cons_ne_nil _ _)
          rw [old, mergeValue_none]

/-- A value of the dictionary stands in the way: it is at the path or above it, and is no dictionary. -/
def Blocks (override : Yaml) (path : List Yaml) : Prop :=
  ∃ above, above <+: path ∧ ∃ w, override.follow above = some w ∧ w.isDict = false

/-- Where `override` has no value and nothing in the way, what `base` has there stays. -/
theorem follow_mergeDicts_of_none (distinct : Distinct (.map override))
    (absent : (Yaml.map override).follow path = none) (free : ¬ Blocks (.map override) path) :
    (Yaml.map (mergeDicts mode base override)).follow path = (Yaml.map base).follow path := by
  induction path generalizing base override with
  | nil => cases absent
  | cons k path ih =>
    rw [follow_cons, follow_cons, get?_mergeDicts distinct.keys]
    rw [follow_cons] at absent
    cases found : override.get? k with
    | none => rfl
    | some w =>
      rw [found, Option.bind_some] at absent
      have dict : w.isDict = true := by
        by_contra plain
        refine free ⟨[k], List.cons_prefix_cons.mpr ⟨rfl, List.nil_prefix⟩, w, ?_, Bool.eq_false_iff.mpr plain⟩
        rw [follow_cons, found]
        exact follow_nil w
      obtain ⟨d', rfl⟩ := isDict_iff.mp dict
      have free' : ¬ Blocks (.map d') path := by
        rintro ⟨above, before, w, there, plain⟩
        refine free ⟨k :: above, List.cons_prefix_cons.mpr ⟨rfl, before⟩, w, ?_, plain⟩
        rw [follow_cons, found]
        exact there
      cases value : base.get? k with
      | none =>
        simp only [Option.bind_some, mergeValue_none, absent, Option.bind_none]
      | some x =>
        simp only [Option.bind_some]
        cases both : x.isDict with
        | true =>
          obtain ⟨d, rfl⟩ := isDict_iff.mp both
          rw [mergeValue_map]
          exact ih (distinct.get found) absent free'
        | false =>
          have more : path ≠ [] := by
            rintro rfl
            rw [follow_nil] at absent
            cases absent
          rw [mergeValue_map_other, absent, follow_of_not_isDict both more]
          rintro d same
          rw [Option.some.inj same] at both
          cases both

end paths

section lists

/-- Two items that Python takes for one. -/
abbrev Same (a b : Yaml) : Prop := sameKey a b = true

/-- The items that no earlier item is equal to. -/
def firstOccurrences (items : List Yaml) : List Yaml :=
  (items.zipIdx.filter fun x => !(items.take x.2).any (sameKey · x.1)).map Prod.fst

/-- What a merged list is promised to be. -/
structure UniqueUnion (xs ys merged : List Yaml) : Prop where
  duplicateFree : merged.Pairwise fun a b => ¬ Same a b
  order : merged = firstOccurrences (xs ++ ys)
  sound : ∀ z ∈ merged, z ∈ xs ∨ z ∈ ys
  complete : ∀ x, x ∈ xs ∨ x ∈ ys → ∃ z ∈ merged, Same z x

variable {seen items : List Yaml} {item : Yaml}

theorem extendUnique_cons (hashable : item.hashableText.isSome) :
    extendUnique seen (item :: items) =
      if seen.any (sameKey · item) then extendUnique seen items else item :: extendUnique (item :: seen) items := by
  have notNone : ¬ item.hashableText.isNone = true := by simp [Option.isSome_iff_ne_none.mp hashable]
  rw [extendUnique, if_neg notNone]

theorem extendUnique_sublist : (extendUnique seen items).Sublist items := by
  induction items generalizing seen with
  | nil => exact List.Sublist.refl _
  | cons item items ih =>
    rw [extendUnique]
    split
    · exact ih.cons_cons item
    · split
      · exact ih.cons item
      · exact ih.cons_cons item

theorem extendUnique_apart (hashable : ∀ x ∈ items, x.hashableText.isSome) :
    (∀ z ∈ extendUnique seen items, seen.any (sameKey · z) = false) ∧
      (extendUnique seen items).Pairwise fun a b => ¬ Same a b := by
  induction items generalizing seen with
  | nil => simp [extendUnique]
  | cons item items ih =>
    rw [List.forall_mem_cons] at hashable
    rw [extendUnique_cons hashable.1]
    split
    · exact ih hashable.2
    · rename_i new
      obtain ⟨apart, distinct⟩ := @ih (item :: seen) hashable.2
      simp only [List.any_cons, Bool.or_eq_false_iff] at apart
      constructor
      · intro z mem
        rcases List.mem_cons.mp mem with rfl | mem
        · simpa using new
        · exact (apart z mem).2
      · refine List.pairwise_cons.mpr ⟨fun z mem => ?_, distinct⟩
        simp [Same, (apart z mem).1]

theorem extendUnique_complete (hashable : ∀ x ∈ items, x.hashableText.isSome) {x : Yaml} (mem : x ∈ items) :
    seen.any (sameKey · x) = true ∨ ∃ z ∈ extendUnique seen items, Same z x := by
  induction items generalizing seen with
  | nil => cases mem
  | cons item items ih =>
    rw [List.forall_mem_cons] at hashable
    rw [extendUnique_cons hashable.1]
    split
    · rename_i old
      rcases List.mem_cons.mp mem with rfl | mem
      · exact .inl old
      · exact ih hashable.2 mem
    · rcases List.mem_cons.mp mem with rfl | mem
      · exact .inr ⟨x, List.mem_cons_self, sameKey_of_hashable hashable.1⟩
      · rcases @ih (item :: seen) hashable.2 mem with old | ⟨z, there, same⟩
        · rw [List.any_cons, Bool.or_eq_true] at old
          rcases old with same | old
          · exact .inr ⟨item, List.mem_cons_self, same⟩
          · exact .inl old
        · exact .inr ⟨z, List.mem_cons_of_mem _ there, same⟩

theorem extendUnique_eq (hashable : ∀ x ∈ items, x.hashableText.isSome) :
    extendUnique seen items =
      (items.zipIdx.filter fun x => !seen.any (sameKey · x.1) && !(items.take x.2).any (sameKey · x.1)).map Prod.fst := by
  induction items generalizing seen with
  | nil => rfl
  | cons item items ih =>
    rw [List.forall_mem_cons] at hashable
    rw [extendUnique_cons hashable.1, List.zipIdx_cons, List.zipIdx_succ, List.filter_cons, List.filter_map]
    simp only [List.take_zero, List.any_nil, Bool.not_false, Bool.and_true, Function.comp_def, List.take_succ_cons, List.any_cons]
    cases old : seen.any (sameKey · item) with
    | true =>
      -- what is equal to the item is equal to what was seen
      have covered (x : Yaml) : (!seen.any (sameKey · x) && !(sameKey item x)) = !seen.any (sameKey · x) := by
        cases same : sameKey item x with
        | false => simp
        | true =>
          obtain ⟨y, mem, first⟩ := List.any_eq_true.mp old
          have met : seen.any (sameKey · x) = true := List.any_eq_true.mpr ⟨y, mem, by rw [sameKey_congr first, same]⟩
          simp [met]
      simp only [Bool.not_or, ← Bool.and_assoc, covered]
      simp [ih hashable.2, List.map_map, Function.comp_def]
    | false =>
      simp only [Bool.false_eq_true, if_false, Bool.not_false, if_true, ih hashable.2, List.map_cons, List.map_map]
      simp only [List.any_cons, Bool.not_or, Function.comp_def]
      congr 3
      funext x
      cases sameKey item x.1 <;> cases seen.any (sameKey · x.1) <;> rfl

theorem uniqueUnion_extendUnique {xs ys : List Yaml} (hashable : ∀ x ∈ xs ++ ys, x.hashableText.isSome) :
    UniqueUnion xs ys (extendUnique [] (xs ++ ys)) where
  duplicateFree := (extendUnique_apart hashable).2
  order := by
    rw [extendUnique_eq hashable]
    rfl
  sound z mem := List.mem_append.mp (extendUnique_sublist.subset mem)
  complete x mem := (extendUnique_complete hashable (List.mem_append.mpr mem)).resolve_left nofun

end lists

/-- What a deep merge is: `override` wins at its values, `base` stays where `override` has none. -/
structure DeepMerged (base override merged : Yaml) : Prop where
  replaced : ∀ path v, override.follow path = some v → v.isDict = false → merged.follow path = some v
  kept : ∀ path v, base.follow path = some v → v.isDict = false → ¬ Blocks override path →
    override.follow path = none → merged.follow path = some v
  covered : ∀ path v d, base.follow path = some v → v.isDict = false → override.follow path = some (.map d) →
    merged.follow path = some (.map d)
  nested : ∀ path d, base.follow path = some (.map d) → ¬ Blocks override path →
    ∃ d', merged.follow path = some (.map d')

theorem deepMerged_mergeDicts {base override : Fields} (distinct : Distinct (.map override)) :
    DeepMerged (.map base) (.map override) (.map (mergeDicts .replace base override)) where
  replaced path v there plain := by rw [follow_mergeDicts_of_some distinct there, mergeValue_replace plain]
  kept path v old _ free absent := (follow_mergeDicts_of_none distinct absent free).trans old
  covered path v d old plain there := by
    rw [follow_mergeDicts_of_some distinct there, old, mergeValue_map_other]
    rintro d' same
    rw [Option.some.inj same] at plain
    cases plain
  nested path d old free := by
    cases there : (Yaml.map override).follow path with
    | none => exact ⟨d, (follow_mergeDicts_of_none distinct there free).trans old⟩
    | some w =>
      have dict : w.isDict = true := by
        by_contra plain
        exact free ⟨path, List.prefix_refl path, w, there, Bool.eq_false_iff.mpr plain⟩
      obtain ⟨d', rfl⟩ := isDict_iff.mp dict
      exact ⟨_, by rw [follow_mergeDicts_of_some distinct there, old, mergeValue_map]⟩

/-- The merge is a deep merge, it is that of the batch orchestrator, and with `extend_unique` a
list becomes the union of the two. -/
theorem mergeDicts_spec {base override : Fields} (distinct : Distinct (.map override)) :
    DeepMerged (.map base) (.map override) (.map (mergeDicts .replace base override)) ∧
      mergeDicts .replace base override = deepMerge base override ∧
      ∀ path xs ys, (Yaml.map base).follow path = some (.seq xs) → (Yaml.map override).follow path = some (.seq ys) →
        (∀ x ∈ xs ++ ys, x.hashableText.isSome) →
          ∃ merged, (Yaml.map (mergeDicts .extendUnique base override)).follow path = some (.seq merged) ∧
            UniqueUnion xs ys merged := by
  refine ⟨deepMerged_mergeDicts distinct, (deepMerge_eq base override).symm, ?_⟩
  intro path xs ys old there hashable
  refine ⟨extendUnique [] (xs ++ ys), ?_, uniqueUnion_extendUnique hashable⟩
  rw [follow_mergeDicts_of_some distinct there, old]
  simp only [mergeValue]

theorem mergeDicts_spec_lists :
    DeepMerged (.map [(.str "a", .map [(.str "b", .seq [.int 1, .int 2])])])
        (.map [(.str "a", .map [(.str "b", .seq [.int 2, .int 3])])])
        (.map [(.str "a", .map [(.str "b", .seq [.int 2, .int 3])])]) ∧
      UniqueUnion [.int 1, .int 2] [.int 2, .int 3] [.int 1, .int 2, .int 3] := by
  have distinct : Distinct (.map [(.str "a", .map [(.str "b", .seq [.int 2, .int 3])])]) := by
    have only {s : String} {v : Yaml} (h : Distinct v) : Distinct (.map [(.str s, v)]) :=
      .map (List.pairwise_singleton _ _) fun f mem => List.mem_singleton.mp mem ▸ h
    refine only (only (.seq fun v mem => ?_))
    simp only [List.mem_cons, List.not_mem_nil, or_false] at mem
    rcases mem with rfl | rfl
    · exact .int 2
    · exact .int 3
  obtain ⟨merged, -, lists⟩ :=
    @mergeDicts_spec [(.str "a", .map [(.str "b", .seq [.int 1, .int 2])])] _ distinct
  obtain ⟨list, there, union⟩ := lists [.str "a", .str "b"] [.int 1, .int 2] [.int 2, .int 3] rfl rfl (by decide)
  obtain rfl := Yaml.seq.inj (Option.some.inj there)
  exact ⟨merged, union⟩

/-- Every value of `base` stays that is at no path with a value of `override` in the way. -/
def KeepsOthers (base override merged : Yaml) : Prop :=
  ∀ path v, base.follow path = some v → v.isDict = false → ¬ Blocks override path → merged.follow path = some v

/-- A dictionary takes the place of a number, and nothing is in the way. -/
theorem not_keepsOthers_number :
    ¬ KeepsOthers (.map [(.str "a", .int 1)]) (.map [(.str "a", .map [])])
      (.map (mergeDicts .replace [(.str "a", .int 1)] [(.str "a", .map [])])) := by
  intro keeps
  have free : ¬ Blocks (.map [(.str "a", .map [])]) [.str "a"] := by
    rintro ⟨above, before, w, there, plain⟩
    cases above with
    | nil =>
      cases there
      cases plain
    | cons k rest =>
      obtain ⟨rfl, last⟩ := List.cons_prefix_cons.mp before
      obtain rfl := List.prefix_nil.mp last
      cases there
      cases plain
  have stays := keeps [.str "a"] (.int 1) rfl rfl free
  cases stays

end H2kvm.Config
