import Mathlib.Data.List.Pairwise
import Mathlib.Data.List.Sort
import Mathlib.Data.Prod.Lex

namespace H2kvm.Framework.Sorting

variable {α κ : Type*}

section strict

variable {R S : α → α → Prop} {l l' : List α}

/-- A list in a strict order is the only one with its members. -/
theorem eq_of_pairwise (asymm : ∀ a b, R a b → ¬ R b a) (hl : l.Pairwise R) (hl' : l'.Pairwise R)
    (same : ∀ a, a ∈ l ↔ a ∈ l') : l = l' := by
  have apart (a b : α) (h : R a b) : a ≠ b := by
    rintro rfl
    exact asymm a a h h
  have perm : l.Perm l' := (List.perm_ext_iff_of_nodup (hl.imp (apart _ _)) (hl'.imp (apart _ _))).mpr same
  exact perm.eq_of_pairwise (fun a b _ _ ab ba => absurd ba (asymm a b ab)) hl hl'

theorem eq_iff_agree (asymmR : ∀ a b, R a b → ¬ R b a) (asymmS : ∀ a b, S a b → ¬ S b a)
    (total : ∀ a ∈ l, ∀ b ∈ l, R a b ∨ a = b ∨ R b a) (hl : l.Pairwise R) (hl' : l'.Pairwise S)
    (same : ∀ a, a ∈ l ↔ a ∈ l') : l = l' ↔ ∀ a ∈ l, ∀ b ∈ l, R a b → S a b := by
  constructor
  · rintro rfl a ha b hb ab
    let Both (a b : α) : Prop := (R a b ∧ S a b) ∨ (R b a ∧ S b a)
    have symm : Std.Symm Both := ⟨fun _ _ => Or.symm⟩
    have both : l.Pairwise Both := (hl.and hl').imp .inl
    have apart : a ≠ b := by
      rintro rfl
      exact asymmR a a ab ab
    rcases both.forall ha hb apart with h | h
    · exact h.2
    · exact absurd ab (asymmR b a h.1)
  · intro agree
    refine eq_of_pairwise asymmR hl (hl'.imp_of_mem fun {a b} ha hb ab => ?_) same
    have ha := (same a).mpr ha
    have hb := (same b).mpr hb
    rcases total a ha b hb with h | rfl | h
    · exact h
    · exact absurd ab (asymmS a a ab)
    · exact absurd (agree b hb a ha h) (asymmS a b ab)

end strict

section stable

variable [LinearOrder κ] (key : α → κ)

/-- `sorted(items, key)`. -/
def sortBy (items : List α) : List α := items.mergeSort fun a b => key a ≤ key b

variable {key} {items : List α}

theorem sortBy_perm : (sortBy key items).Perm items := List.mergeSort_perm _ _

theorem mem_sortBy {a : α} : a ∈ sortBy key items ↔ a ∈ items := sortBy_perm.mem_iff

theorem key_trans (a b c : α) (ab : decide (key a ≤ key b) = true) (bc : decide (key b ≤ key c) = true) :
    decide (key a ≤ key c) = true :=
  decide_eq_true ((of_decide_eq_true ab).trans (of_decide_eq_true bc))

theorem key_total (a b : α) : (decide (key a ≤ key b) || decide (key b ≤ key a)) = true := by
  rw [Bool.or_eq_true, decide_eq_true_eq, decide_eq_true_eq]
  exact le_total _ _

theorem sortBy_sorted : (sortBy key items).Pairwise fun a b => key a ≤ key b :=
  (List.pairwise_mergeSort key_trans key_total items).imp of_decide_eq_true

theorem filter_sortBy (k : κ) : (sortBy key items).filter (key · = k) = items.filter (key · = k) := by
  have ordered : (items.filter (key · = k)).Pairwise fun a b => decide (key a ≤ key b) = true := by
    refine List.pairwise_of_forall_mem_list fun a ha b hb => ?_
    rw [(of_decide_eq_true (List.mem_filter.mp ha).2 : key a = k), (of_decide_eq_true (List.mem_filter.mp hb).2 : key b = k)]
    exact decide_eq_true le_rfl
  have inside : (items.filter (key · = k)).Sublist (sortBy key items) := 
    List.sublist_mergeSort key_trans key_total ordered List.filter_sublist
  have again := inside.filter (key · = k)
  rw [List.filter_filter] at again
  simp only [Bool.and_self] at again
  exact (again.eq_of_length (sortBy_perm.filter _).length_eq.symm).symm

theorem sortBy_stable {R : α → α → Prop} (placed : items.Pairwise R) :
    (sortBy key items).Pairwise fun a b => key a < key b ∨ key a = key b ∧ R a b := by
  refine List.pairwise_of_forall_sublist fun {a b} sub => ?_
  rcases (sortBy_sorted.forall_sublist sub).lt_or_eq with less | same
  · exact .inl less
  · have kept : [a, b].Sublist (items.filter (key · = key b)) := by
      rw [← filter_sortBy]
      have sub' := sub.filter (key · = key b)
      simpa [same] using sub'
    exact .inr ⟨same, (placed.sublist List.filter_sublist).forall_sublist kept⟩

end stable

end H2kvm.Framework.Sorting
