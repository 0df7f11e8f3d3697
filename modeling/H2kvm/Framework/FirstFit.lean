import Mathlib.Data.List.Count
import Mathlib.Data.List.Nodup

/-!
Places in a row, where each that asks for one is given the first that is free from there on.
-/

namespace H2kvm.Framework.FirstFit

/-- How many have asked for a place from `a` to before `b`. -/
def asked (asks : List Nat) (a b : Nat) : Nat := asks.countP fun k => decide (a ≤ k ∧ k < b)

/-- No stretch of places that ends with `p` is filled by those that asked for one of it. -/
def Free (asks : List Nat) (p : Nat) : Prop := ∀ a ≤ p, asked asks a (p + 1) ≤ p - a

/-- The first free place from `k` on. -/
def FirstFree (asks : List Nat) (k p : Nat) : Prop := k ≤ p ∧ Free asks p ∧ ∀ q, k ≤ q → q < p → ¬Free asks q

variable {asks : List Nat} {a b c k p q : Nat}

theorem asked_cons_of_mem (lower : a ≤ k) (upper : k < b) : asked (k :: asks) a b = asked asks a b + 1 := by
  simp [asked, lower, upper]

theorem asked_cons_of_lt (h : k < a) : asked (k :: asks) a b = asked asks a b := by
  have outside : ¬(a ≤ k ∧ k < b) := by omega
  simp [asked, outside]

theorem asked_cons_of_le (h : b ≤ k) : asked (k :: asks) a b = asked asks a b := by
  have outside : ¬(a ≤ k ∧ k < b) := by omega
  simp [asked, outside]

theorem asked_le_cons : asked asks a b ≤ asked (k :: asks) a b := by
  rw [asked, asked, List.countP_cons]
  omega

theorem asked_add (left : a ≤ b) (right : b ≤ c) : asked asks a b + asked asks b c = asked asks a c := by
  induction asks with
  | nil => rfl
  | cons k asks ih =>
    by_cases inside : a ≤ k ∧ k < c
    · rw [asked_cons_of_mem inside.1 inside.2]
      by_cases first : k < b
      · rw [asked_cons_of_mem inside.1 first, asked_cons_of_lt first]
        omega
      · have later : b ≤ k := by omega
        rw [asked_cons_of_le later, asked_cons_of_mem later inside.2]
        omega
    · have outside : k < a ∨ c ≤ k := by omega
      rcases outside with below | above
      · rw [asked_cons_of_lt below, asked_cons_of_lt below, asked_cons_of_lt (by omega), ih]
      · rw [asked_cons_of_le above, asked_cons_of_le above, asked_cons_of_le (by omega), ih]

theorem free_nil (p : Nat) : Free [] p := fun _ _ => Nat.zero_le _

theorem Free.of_cons (h : Free (k :: asks) p) : Free asks p := fun a ha => Nat.le_trans asked_le_cons (h a ha)

theorem exists_filled (taken : ∀ q, k ≤ q → q < p → ¬Free asks q) (q : Nat) (above : k ≤ q) (below : q < p) :
    ∃ a ≤ k, q + 1 - a ≤ asked asks a (q + 1) := by
  induction q using Nat.strongRecOn with
  | ind q ih =>
    have full := taken q above below
    simp only [Free, not_forall, Nat.not_le] at full
    obtain ⟨a, ha, filled⟩ := full
    by_cases first : a ≤ k
    · exact ⟨a, first, by omega⟩
    · -- the places before this stretch are not free either
      obtain ⟨a', ha', before⟩ := ih (a - 1) (by omega) (by omega) (by omega)
      have whole : asked asks a' (a - 1 + 1) + asked asks a (q + 1) = asked asks a' (q + 1) := by
        have same : a - 1 + 1 = a := by omega
        rw [same]
        exact asked_add (by omega) (by omega)
      exact ⟨a', ha', by omega⟩

/-- The first free place is taken, and every other stays what it was. -/
theorem FirstFree.free_cons (first : FirstFree asks k q) : Free (k :: asks) p ↔ Free asks p ∧ p ≠ q := by
  obtain ⟨from', free, taken⟩ := first
  constructor
  · intro h
    refine ⟨h.of_cons, ?_⟩
    rintro rfl
    rcases Nat.eq_or_lt_of_le from' with rfl | later
    · have one := h k (Nat.le_refl k)
      rw [asked_cons_of_mem (Nat.le_refl k) (Nat.lt_succ_self k)] at one
      omega
    · obtain ⟨a, ha, filled⟩ := exists_filled taken (p - 1) (by omega) (by omega)
      have whole := @asked_add asks a (p - 1 + 1) (p + 1) (by omega) (by omega)
      have tooMany := h a (by omega)
      rw [asked_cons_of_mem ha (by omega)] at tooMany
      omega
  · intro ⟨h, other⟩ a ha
    by_cases inside : a ≤ k ∧ k < p + 1
    · have beyond : q < p := by
        by_contra before
        exact taken p (by omega) (by omega) h
      have whole := @asked_add asks a (q + 1) (p + 1) (by omega) (by omega)
      have upTo := free a (by omega)
      have rest := h (q + 1) (by omega)
      rw [asked_cons_of_mem inside.1 inside.2]
      omega
    · have outside : k < a ∨ p + 1 ≤ k := by omega
      rcases outside with below | above
      · rw [asked_cons_of_lt below]
        exact h a ha
      · rw [asked_cons_of_le above]
        exact h a ha

theorem Free.firstFree (h : Free asks k) : FirstFree asks k k := ⟨Nat.le_refl k, h, fun _ _ _ => by omega⟩

theorem FirstFree.unique (hp : FirstFree asks k p) (hq : FirstFree asks k q) : p = q := by
  by_contra other
  rcases Nat.lt_or_gt_of_ne other with less | more
  · exact hq.2.2 p hp.1 less hp.2.1
  · exact hp.2.2 q hq.1 more hq.2.1

theorem free_iff_not_mem (distinct : asks.Nodup) : Free asks p ↔ p ∉ asks := by
  induction asks generalizing p with
  | nil => simp [free_nil]
  | cons k asks ih =>
    obtain ⟨fresh, distinct⟩ := List.nodup_cons.mp distinct
    have own : FirstFree asks k k := ((ih distinct).mpr fresh).firstFree
    rw [own.free_cons, ih distinct, List.mem_cons, not_or, and_comm]

end H2kvm.Framework.FirstFit
