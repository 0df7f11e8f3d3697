import Mathlib.Algebra.Order.Field.Basic
import Mathlib.Tactic.Linarith
import Mathlib.Tactic.Ring
import Mathlib.Data.List.Basic
import Mathlib.Data.List.Perm.Basic
import Mathlib.Logic.Function.Basic

namespace H2kvm.Framework.TokenBucket

/-! A bucket of at most `burst` tokens that fills at a rate and gives one token to each thing that passes. -/

variable {K : Type} [Field K] [LinearOrder K]

/-- The tokens after some time, never more than `burst`. -/
def refill (rate burst tokens elapsed : K) : K := min burst (tokens + elapsed * rate)

/-- The tokens at a time, of a bucket that was full and gave one at each of the times listed, newest first. -/
def ideal (rate burst : K) : List K → K → K
  | [], _ => burst
  | u :: earlier, t => refill rate burst (ideal rate burst earlier u - 1) (t - u)

/-- Each thing passed where there was a token for it. -/
def Fair (rate burst : K) : List K → Prop
  | [] => True
  | u :: earlier => 1 ≤ ideal rate burst earlier u ∧ Fair rate burst earlier

variable {rate burst : K}

theorem ideal_le (times : List K) (t : K) : ideal rate burst times t ≤ burst := by
  cases times with
  | nil => exact le_rfl
  | cons u earlier => exact min_le_left _ _

variable [IsStrictOrderedRing K] (nonneg : 0 ≤ rate)
include nonneg

theorem refill_refill (tokens a : K) {b : K} (hb : 0 ≤ b) :
    refill rate burst (refill rate burst tokens a) b = refill rate burst tokens (a + b) := by
  have grows : 0 ≤ b * rate := mul_nonneg hb nonneg
  unfold refill
  have full : burst ≤ burst + b * rate := by linarith
  rw [← min_add_add_right burst (tokens + a * rate) (b * rate), ← min_assoc, min_eq_left full]
  congr 1
  ring

theorem refill_ideal (times : List K) {t u : K} (later : t ≤ u) :
    refill rate burst (ideal rate burst times t) (u - t) = ideal rate burst times u := by
  cases times with
  | nil =>
    have grows : 0 ≤ (u - t) * rate := mul_nonneg (sub_nonneg.mpr later) nonneg
    rw [refill, ideal, ideal, min_eq_left]
    linarith
  | cons v earlier =>
    rw [ideal, refill_refill nonneg _ _ (sub_nonneg.mpr later), ideal]
    congr 1
    ring

theorem ideal_add_count_le {times : List K} {a t : K} (sorted : times.Pairwise (· ≥ ·)) (before : ∀ u ∈ times, u ≤ t)
    (at_or_after : a ≤ t) : ideal rate burst times t + (times.countP (a ≤ ·) : K) ≤ burst + rate * (t - a) := by
  induction times generalizing t with
  | nil =>
    have grows : 0 ≤ rate * (t - a) := mul_nonneg nonneg (sub_nonneg.mpr at_or_after)
    simp only [ideal, List.countP_nil, Nat.cast_zero, add_zero]
    linarith
  | cons u earlier ih =>
    obtain ⟨newest, sorted⟩ := List.pairwise_cons.mp sorted
    by_cases inside : a ≤ u
    · have earlier_bound := ih sorted newest inside
      have refilled : ideal rate burst (u :: earlier) t ≤ ideal rate burst earlier u - 1 + (t - u) * rate := min_le_right _ _
      rw [List.countP_cons_of_pos (by simpa using inside), Nat.cast_add, Nat.cast_one]
      linarith [mul_comm (t - u) rate, mul_sub rate t a, mul_sub rate u a, mul_sub rate t u]
    · have none_inside : (u :: earlier).countP (a ≤ ·) = 0 := by
        rw [List.countP_eq_zero]
        intro v mem
        have : v ≤ u := by
          rcases List.mem_cons.mp mem with rfl | mem
          · exact le_rfl
          · exact newest v mem
        simp only [decide_eq_true_eq, not_le]
        exact this.trans_lt (not_le.mp inside)
      have grows : 0 ≤ rate * (t - a) := mul_nonneg nonneg (sub_nonneg.mpr at_or_after)
      have full : ideal rate burst (u :: earlier) t ≤ burst := ideal_le (u :: earlier) t
      rw [none_inside, Nat.cast_zero, add_zero]
      linarith

theorem count_window_le (large : 0 ≤ burst) {times : List K} (sorted : times.Pairwise (· ≥ ·)) (fair : Fair rate burst times)
    (a : K) {T : K} (positive : 0 ≤ T) :
    (times.countP (fun u => a ≤ u ∧ u ≤ a + T) : K) ≤ burst + rate * T := by
  have allowed : 0 ≤ rate * T := mul_nonneg nonneg positive
  induction times with
  | nil =>
    simp only [List.countP_nil, Nat.cast_zero]
    linarith
  | cons u earlier ih =>
    obtain ⟨newest, sorted_earlier⟩ := List.pairwise_cons.mp sorted
    by_cases inside : a ≤ u ∧ u ≤ a + T
    · have bound : ideal rate burst earlier u + (earlier.countP (a ≤ ·) : K) ≤ burst + rate * (u - a) :=
        ideal_add_count_le nonneg sorted_earlier newest inside.1
      have same : earlier.countP (fun v => a ≤ v ∧ v ≤ a + T) = earlier.countP (a ≤ ·) := by
        apply List.countP_congr
        intro v mem
        have := (newest v mem).trans inside.2
        simp [this]
      have width : rate * (u - a) ≤ rate * T := mul_le_mul_of_nonneg_left (by linarith [inside.2]) nonneg
      rw [List.countP_cons_of_pos (by simpa using inside), same, Nat.cast_add, Nat.cast_one]
      linarith [fair.1]
    · rw [List.countP_cons_of_neg (by simpa using inside)]
      exact ih sorted_earlier fair.2

end H2kvm.Framework.TokenBucket

namespace H2kvm.Framework.Buckets

variable {ι α : Type*} [DecidableEq ι]

/-- All elements, bucket by bucket in the order of the keys. -/
def flat (keys : List ι) (b : ι → List α) : List α := keys.flatMap b

/-- The first element that passes `p` in the first bucket that has one, with its key. -/
def pick (keys : List ι) (b : ι → List α) (p : α → Bool) : Option (ι × α) :=
  keys.findSome? fun k => ((b k).find? p).map fun x => (k, x)

/-- Append to one bucket. -/
def push (b : ι → List α) (k : ι) (x : α) : ι → List α := Function.update b k (b k ++ [x])

/-- Remove the first occurrence from one bucket. -/
def pull [DecidableEq α] (b : ι → List α) (k : ι) (x : α) : ι → List α :=
  Function.update b k ((b k).erase x)

omit [DecidableEq ι] in
theorem mem_flat {keys : List ι} {b : ι → List α} {x : α} :
    x ∈ flat keys b ↔ ∃ k ∈ keys, x ∈ b k := List.mem_flatMap

theorem flat_update_of_notMem {keys : List ι} {b : ι → List α} {k : ι} (h : k ∉ keys) (xs : List α) :
    flat keys (Function.update b k xs) = flat keys b := by
  apply List.flatMap_congr
  intro l hl
  have hne : l ≠ k := by
    intro hlk
    rw [hlk] at hl
    exact h hl
  rw [Function.update_of_ne hne]

theorem flat_push {keys : List ι} {b : ι → List α} {k : ι} (hn : keys.Nodup) (hk : k ∈ keys) (x : α) :
    (flat keys (push b k x)).Perm (x :: flat keys b) := by
  induction keys with
  | nil => simp at hk
  | cons l keys ih =>
    obtain ⟨hl, hn⟩ := List.nodup_cons.mp hn
    rcases List.mem_cons.mp hk with rfl | hk
    · have rest : flat keys (push b k x) = flat keys b := flat_update_of_notMem hl _
      simp only [flat, List.flatMap_cons] at rest ⊢
      rw [rest, push, Function.update_self, List.append_assoc, List.singleton_append]
      exact List.perm_middle
    · have hne : l ≠ k := by
        intro hlk
        rw [hlk] at hl
        exact hl hk
      have bucket : push b k x l = b l := Function.update_of_ne hne _ _
      have h := (ih hn hk).append_left (b l)
      simp only [flat, List.flatMap_cons, bucket] at h ⊢
      exact h.trans List.perm_middle

theorem pull_sublist [DecidableEq α] (b : ι → List α) (k l : ι) (x : α) : (pull b k x l).Sublist (b l) := by
  by_cases h : l = k
  · subst h
    rw [pull, Function.update_self]
    exact List.erase_sublist
  · rw [pull, Function.update_of_ne h]

omit [DecidableEq ι] in
theorem map_snd_pick (keys : List ι) (b : ι → List α) (p : α → Bool) :
    (pick keys b p).map Prod.snd = (flat keys b).find? p := by
  induction keys with
  | nil => rfl
  | cons k keys ih =>
    simp only [pick, flat, List.findSome?_cons, List.flatMap_cons, List.find?_append] at ih ⊢
    cases h : (b k).find? p with
    | none => simpa using ih
    | some x => rfl

omit [DecidableEq ι] in
theorem pick_mem {keys : List ι} {b : ι → List α} {p : α → Bool} {k : ι} {x : α}
    (h : pick keys b p = some (k, x)) : k ∈ keys ∧ (b k).find? p = some x := by
  obtain ⟨l, hl, he⟩ := List.exists_of_findSome?_eq_some h
  obtain ⟨y, hy, heq⟩ := Option.map_eq_some_iff.mp he
  obtain ⟨rfl, rfl⟩ := Prod.mk.inj heq
  exact ⟨hl, hy⟩

/-- Taking the picked element out of its bucket takes it out of the flat list. -/
theorem flat_pull [DecidableEq α] {keys : List ι} {b : ι → List α} {p : α → Bool} {k : ι} {x : α}
    (hn : keys.Nodup) (h : pick keys b p = some (k, x)) :
    flat keys (pull b k x) = (flat keys b).erase x := by
  induction keys with
  | nil => simp [pick] at h
  | cons l keys ih =>
    obtain ⟨hl, hn⟩ := List.nodup_cons.mp hn
    simp only [pick, List.findSome?_cons] at h
    cases hf : (b l).find? p with
    | some y =>
      simp only [hf, Option.map_some, Option.some.injEq, Prod.mk.injEq] at h
      obtain ⟨rfl, rfl⟩ := h
      have rest : flat keys (pull b l y) = flat keys b := flat_update_of_notMem hl _
      simp only [flat, List.flatMap_cons] at rest ⊢
      rw [rest, pull, Function.update_self, List.erase_append_left _ (List.mem_of_find?_eq_some hf)]
    | none =>
      simp only [hf, Option.map_none] at h
      have hp := (pick_mem h).2
      have hne : l ≠ k := by
        intro hlk
        rw [hlk] at hl
        exact hl (pick_mem h).1
      have bucket : pull b k x l = b l := Function.update_of_ne hne _ _
      -- the earlier bucket holds no match, so in particular not the picked element
      have away : x ∉ b l := fun hx => List.find?_eq_none.mp hf x hx (List.find?_some hp)
      have rest := ih hn h
      simp only [flat, List.flatMap_cons, bucket] at rest ⊢
      rw [rest, List.erase_append_right _ away]

omit [DecidableEq ι] in
theorem pick_least {keys : List Nat} {b : Nat → List α} {p : α → Bool} {rank : α → Nat} {k : Nat} {x : α}
    (hs : keys.Pairwise (· < ·)) (hr : ∀ l, ∀ y ∈ b l, rank y = l)
    (h : pick keys b p = some (k, x)) {y : α} (hy : y ∈ flat keys b) (hm : p y = true) :
    rank x ≤ rank y := by
  induction keys with
  | nil => simp [pick] at h
  | cons l keys ih =>
    obtain ⟨hl, hs⟩ := List.pairwise_cons.mp hs
    have hx : rank x = k := hr k x (List.mem_of_find?_eq_some (pick_mem h).2)
    simp only [pick, List.findSome?_cons] at h
    cases hf : (b l).find? p with
    | some z =>
      simp only [hf, Option.map_some, Option.some.injEq, Prod.mk.injEq] at h
      obtain ⟨rfl, rfl⟩ := h
      obtain ⟨m, hkey, hym⟩ := mem_flat.mp hy
      rw [hx, hr m y hym]
      rcases List.mem_cons.mp hkey with rfl | hkey
      · exact Nat.le_refl _
      · exact Nat.le_of_lt (hl m hkey)
    | none =>
      simp only [hf, Option.map_none] at h
      have rest : y ∈ flat keys b := by
        simp only [flat, List.flatMap_cons, List.mem_append] at hy
        rcases hy with hy | hy
        · exact absurd hm (List.find?_eq_none.mp hf y hy)
        · exact hy
      exact ih hs h rest

end H2kvm.Framework.Buckets
