import Mathlib.Data.List.Basic

namespace H2kvm.Framework.Checks

variable {ε α β γ : Type} {P : ε → Prop} {x : Except ε α} {f : α → Except ε β} {b : β} {e : ε}

/-- A check raises an exception of the kind `P`. -/
def Raises (P : ε → Prop) (x : Except ε α) : Prop := ∃ e, x = .error e ∧ P e

/-- A check raises nothing. -/
def Passes (x : Except ε α) : Prop := ∃ a, x = .ok a

@[simp] theorem raises_ok (a : α) : ¬ Raises P (.ok a : Except ε α) := nofun

@[simp] theorem raises_pure (a : α) : ¬ Raises P (pure a : Except ε α) := nofun

@[simp] theorem raises_error : Raises P (.error e : Except ε α) ↔ P e := by
  constructor
  · rintro ⟨_, same, kind⟩
    cases same
    exact kind
  · exact fun kind => ⟨e, rfl, kind⟩

@[simp] theorem passes_ok (a : α) : Passes (.ok a : Except ε α) := ⟨a, rfl⟩

@[simp] theorem not_passes_error : ¬ Passes (.error e : Except ε α) := nofun

theorem not_passes_of_raises (h : Raises P x) : ¬ Passes x := by
  obtain ⟨e, rfl, -⟩ := h
  exact not_passes_error

theorem bind_eq_ok : x >>= f = .ok b ↔ ∃ a, x = .ok a ∧ f a = .ok b := by
  cases x with
  | error e => exact iff_of_false nofun nofun
  | ok a =>
    constructor
    · exact fun run => ⟨a, rfl, run⟩
    · rintro ⟨_, same, run⟩
      cases same
      exact run

/-- A sequence of checks raises what the first one that fails raises. -/
theorem raises_bind : Raises P (x >>= f) ↔ Raises P x ∨ ∃ a, x = .ok a ∧ Raises P (f a) := by
  cases x with
  | error e =>
    have first : (Except.error e >>= f) = .error e := rfl
    simp [first]
  | ok a =>
    have next : (Except.ok a >>= f) = f a := rfl
    simp [next]

variable {checks : List γ} {check : γ → Except ε Unit}

theorem forM_eq_ok : forM checks check = .ok () ↔ ∀ c ∈ checks, check c = .ok () := by
  induction checks with
  | nil => exact iff_of_true rfl nofun
  | cons c checks ih =>
    rw [List.forM_cons, bind_eq_ok, List.forall_mem_cons, ← ih]
    exact ⟨fun ⟨_, first, rest⟩ => ⟨first, rest⟩, fun ⟨first, rest⟩ => ⟨(), first, rest⟩⟩

theorem raises_forM (h : Raises P (forM checks check)) : ∃ c ∈ checks, Raises P (check c) := by
  induction checks with
  | nil => cases raises_ok _ h
  | cons c checks ih =>
    rw [List.forM_cons, raises_bind] at h
    rcases h with first | ⟨_, _, rest⟩
    · exact ⟨c, List.mem_cons_self, first⟩
    · obtain ⟨c', mem, raised⟩ := ih rest
      exact ⟨c', List.mem_cons_of_mem c mem, raised⟩

section collect

variable {ι : Type} (check : Nat → List ι → β → Except ε α) (id : α → ι)

/-- A loop over items that checks each with its place and the ids of those before it, and appends
what it makes of the item. It ends at the first item that does not pass. -/
def collect : Nat → List ι → List β → List α × Except ε Unit
  | _, _, [] => ([], .ok ())
  | idx, ids, item :: rest =>
    match check idx ids item with
    | .error e => ([], .error e)
    | .ok a =>
      let later := collect (idx + 1) (ids ++ [id a]) rest
      (a :: later.1, later.2)

/-- The ids seen after the items before. -/
def idsAfter (idx : Nat) (ids : List ι) (before : List β) : List ι := ids ++ (collect check id idx ids before).1.map id

variable {check id} {idx : Nat} {ids : List ι} {item : β} {a : α}

theorem collect_cons_error (h : check idx ids item = .error e) (rest : List β) :
    collect check id idx ids (item :: rest) = ([], .error e) := by
  rw [collect, h]

theorem collect_cons_ok (h : check idx ids item = .ok a) (rest : List β) :
    collect check id idx ids (item :: rest) =
      (a :: (collect check id (idx + 1) (ids ++ [id a]) rest).1, (collect check id (idx + 1) (ids ++ [id a]) rest).2) := by
  rw [collect, h]

theorem idsAfter_nil : idsAfter check id idx ids [] = ids := List.append_nil ids

theorem idsAfter_cons (h : check idx ids item = .ok a) (rest : List β) :
    idsAfter check id idx ids (item :: rest) = idsAfter check id (idx + 1) (ids ++ [id a]) rest := by
  rw [idsAfter, collect_cons_ok h, idsAfter, List.map_cons, List.append_assoc, List.singleton_append]

/-- The loop comes to an item, and checks it so. -/
def Reaches (check : Nat → List ι → β → Except ε α) (id : α → ι) (idx : Nat) (ids : List ι) (items : List β)
    (Q : Nat → List ι → β → Prop) : Prop :=
  ∃ before item rest, items = before ++ item :: rest ∧ Passes (collect check id idx ids before).2 ∧
    Q (idx + before.length) (idsAfter check id idx ids before) item

variable {Q : Nat → List ι → β → Prop}

theorem not_reaches_nil : ¬ Reaches check id idx ids [] Q := by
  rintro ⟨before, item, rest, split, -⟩
  cases before <;> cases split

/-- After an item that does not pass the loop comes to no other. -/
theorem reaches_cons_error (h : check idx ids item = .error e) (rest : List β) :
    Reaches check id idx ids (item :: rest) Q ↔ Q idx ids item := by
  constructor
  · rintro ⟨before, item', rest', split, passed, holds⟩
    cases before with
    | nil =>
      obtain ⟨rfl, rfl⟩ := List.cons.inj split
      rw [idsAfter_nil] at holds
      exact holds
    | cons item'' before =>
      obtain ⟨rfl, rfl⟩ := List.cons.inj split
      rw [collect_cons_error h] at passed
      cases not_passes_error passed
  · intro holds
    refine ⟨[], item, rest, rfl, passes_ok _, ?_⟩
    rw [idsAfter_nil]
    exact holds

theorem reaches_cons_ok (h : check idx ids item = .ok a) (rest : List β) :
    Reaches check id idx ids (item :: rest) Q ↔
      Q idx ids item ∨ Reaches check id (idx + 1) (ids ++ [id a]) rest Q := by
  constructor
  · rintro ⟨before, item', rest', split, passed, holds⟩
    cases before with
    | nil =>
      obtain ⟨rfl, rfl⟩ := List.cons.inj split
      rw [idsAfter_nil] at holds
      exact .inl holds
    | cons item'' before =>
      obtain ⟨rfl, rfl⟩ := List.cons.inj split
      rw [collect_cons_ok h] at passed
      rw [idsAfter_cons h, List.length_cons, ← Nat.add_assoc, Nat.add_right_comm] at holds
      exact .inr ⟨before, item', rest', rfl, passed, holds⟩
  · rintro (holds | ⟨before, item', rest', rfl, passed, holds⟩)
    · refine ⟨[], item, rest, rfl, passes_ok _, ?_⟩
      rw [idsAfter_nil]
      exact holds
    · refine ⟨item :: before, item', rest', rfl, ?_, ?_⟩
      · rw [collect_cons_ok h]
        exact passed
      · rw [idsAfter_cons h, List.length_cons, ← Nat.add_assoc, Nat.add_right_comm]
        exact holds

theorem raises_collect (items : List β) :
    Raises P (collect check id idx ids items).2 ↔
      Reaches check id idx ids items fun idx ids item => Raises P (check idx ids item) := by
  induction items generalizing idx ids with
  | nil => exact iff_of_false (raises_ok _) not_reaches_nil
  | cons item rest ih =>
    cases first : check idx ids item with
    | error e =>
      rw [collect_cons_error first, reaches_cons_error first, first, raises_error, raises_error]
    | ok a => rw [collect_cons_ok first, reaches_cons_ok first, ih, first, iff_false_intro (raises_ok a), false_or]

theorem mem_collect (items : List β) :
    a ∈ (collect check id idx ids items).1 ↔
      Reaches check id idx ids items fun idx ids item => check idx ids item = .ok a := by
  induction items generalizing idx ids with
  | nil => exact iff_of_false List.not_mem_nil not_reaches_nil
  | cons item rest ih =>
    cases first : check idx ids item with
    | error e =>
      rw [collect_cons_error first, reaches_cons_error first, first]
      exact iff_of_false List.not_mem_nil nofun
    | ok b =>
      rw [collect_cons_ok first, reaches_cons_ok first, List.mem_cons, ih, first, Except.ok.injEq, eq_comm]

theorem nodup_collect (fresh : ∀ idx ids item a, check idx ids item = .ok a → id a ∉ ids) (items : List β) :
    (∀ a ∈ (collect check id idx ids items).1, id a ∉ ids) ∧ ((collect check id idx ids items).1.map id).Nodup := by
  induction items generalizing idx ids with
  | nil => exact ⟨nofun, List.nodup_nil⟩
  | cons item rest ih =>
    cases first : check idx ids item with
    | error e =>
      rw [collect_cons_error first]
      exact ⟨nofun, List.nodup_nil⟩
    | ok a =>
      rw [collect_cons_ok first]
      obtain ⟨later, distinct⟩ :
          (∀ a' ∈ (collect check id (idx + 1) (ids ++ [id a]) rest).1, id a' ∉ ids ++ [id a]) ∧ _ := ih
      constructor
      · intro a' mem
        rcases List.mem_cons.mp mem with rfl | mem
        · exact fresh idx ids item a' first
        · exact fun seen => later a' mem (List.mem_append_left _ seen)
      · refine List.nodup_cons.mpr ⟨?_, distinct⟩
        intro mem
        obtain ⟨a', there, same⟩ := List.mem_map.mp mem
        exact later a' there (List.mem_append_right _ (List.mem_singleton.mpr same))

/-- A loop that comes to its end has appended something for each item. -/
theorem forall₂_collect (items : List β) (passed : Passes (collect check id idx ids items).2) :
    List.Forall₂ (fun x a => ∃ ids, check x.2 ids x.1 = .ok a) (items.zipIdx idx) (collect check id idx ids items).1 := by
  induction items generalizing idx ids with
  | nil => exact .nil
  | cons item rest ih =>
    cases first : check idx ids item with
    | error e =>
      rw [collect_cons_error first] at passed
      cases not_passes_error passed
    | ok a =>
      rw [collect_cons_ok first] at passed ⊢
      exact .cons ⟨ids, first⟩ (ih passed)

end collect

end H2kvm.Framework.Checks
