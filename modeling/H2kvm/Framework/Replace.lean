import H2kvm.Framework.Lines

namespace H2kvm.Framework.Text

/-- The text from a place on, where so many characters of the last match are still to be left out. -/
def replaceFrom (old new : List Char) : Nat → List Char → List Char
  | _, [] => []
  | 0, c :: s => if old <+: c :: s then new ++ replaceFrom old new (old.length - 1) s else c :: replaceFrom old new 0 s
  | n + 1, _ :: s => replaceFrom old new n s

/-- `str.replace`, of a text that is not empty. -/
def replace (old new s : List Char) : List Char := replaceFrom old new 0 s

section ends

variable {old new : List Char} {c : Char}

theorem getLast?_replaceFrom (last : new.getLast? = some c) {s : List Char} (ends : s.getLast? = some c) (n : Nat) :
    replaceFrom old new n s = [] ∧ s.length ≤ n ∨ (replaceFrom old new n s).getLast? = some c := by
  induction s generalizing n with
  | nil => cases ends
  | cons b s ih =>
    have rest (further : s ≠ []) : s.getLast? = some c := by
      rwa [List.getLast?_cons_of_ne_nil further] at ends
    cases n with
    | zero =>
      refine .inr ?_
      rw [replaceFrom]
      split
      · by_cases further : s = []
        · simpa [further, replaceFrom] using last
        · rcases ih (rest further) (old.length - 1) with ⟨none, -⟩ | some
          · rwa [none, List.append_nil]
          · simp [some]
      · by_cases further : s = []
        · simpa [further, replaceFrom] using ends
        · rcases ih (rest further) 0 with ⟨-, none⟩ | some
          · exact absurd (List.length_eq_zero_iff.mp (Nat.le_zero.mp none)) further
          · simp [List.getLast?_cons, some]
    | succ n =>
      rw [replaceFrom]
      by_cases further : s = []
      · exact .inl ⟨by rw [further, replaceFrom], by simp [further]⟩
      · exact (ih (rest further) n).imp (fun gone => ⟨gone.1, Nat.succ_le_succ gone.2⟩) id

theorem getLast?_replace (last : new.getLast? = some c) {s : List Char} (ends : s.getLast? = some c) :
    (replace old new s).getLast? = some c := by
  rcases getLast?_replaceFrom last ends 0 with ⟨-, none⟩ | some
  · rw [List.length_eq_zero_iff.mp (Nat.le_zero.mp none)] at ends
    cases ends
  · exact some

end ends

section occurrences

variable {old new s : List Char} {c : Char}

theorem replaceFrom_eq_drop (old new : List Char) (n : Nat) (s : List Char) :
    replaceFrom old new n s = replaceFrom old new 0 (s.drop n) := by
  induction n generalizing s with
  | zero => rfl
  | succ n ih =>
    cases s with
    | nil => rfl
    | cons c s => rw [replaceFrom, ih, List.drop_succ_cons]

theorem replace_eq_self (absent : ¬old <:+: s) : replace old new s = s := by
  induction s with
  | nil => rfl
  | cons c s ih =>
    rw [replace] at ih ⊢
    rw [replaceFrom, if_neg fun start => absent start.isInfix, ih fun inside => absent (inside.trans (List.suffix_cons c s).isInfix)]

/-- Where the first character does not occur, nothing is replaced. -/
theorem replace_append_free (first : old.head? = some c) (free : c ∉ s) (rest : List Char) :
    replace old new (s ++ rest) = s ++ replace old new rest := by
  induction s with
  | nil => rfl
  | cons d s ih =>
    obtain ⟨other, later⟩ := not_or.mp (mt List.mem_cons.mpr free)
    have start : ¬old <+: d :: (s ++ rest) := by
      cases old with
      | nil => cases first
      | cons b old =>
        cases first
        exact fun start => other (List.cons_prefix_cons.mp start).1
    rw [replace] at ih ⊢
    rw [List.cons_append, replaceFrom, if_neg start, ih later]
    rfl

theorem replace_match (some : old ≠ []) (rest : List Char) : replace old new (old ++ rest) = new ++ replace old new rest := by
  obtain ⟨c, old', rfl⟩ := List.exists_cons_of_ne_nil some
  rw [replace, List.cons_append, replaceFrom, ← List.cons_append, if_pos (List.prefix_append _ _), replaceFrom_eq_drop,
    List.length_cons, Nat.add_sub_cancel, List.drop_left]
  rfl

theorem mem_replace (member : c ∈ replace old new s) : c ∈ new ∨ c ∈ s := by
  have later (n : Nat) (s : List Char) (member : c ∈ replaceFrom old new n s) : c ∈ new ∨ c ∈ s := by
    induction s generalizing n with
    | nil => cases n <;> cases member
    | cons d s ih =>
      cases n with
      | zero =>
        rw [replaceFrom] at member
        split at member
        · rcases List.mem_append.mp member with put | rest
          · exact .inl put
          · exact (ih _ rest).imp_right (List.mem_cons_of_mem d)
        · rcases List.mem_cons.mp member with rfl | rest
          · exact .inr List.mem_cons_self
          · exact (ih 0 rest).imp_right (List.mem_cons_of_mem d)
      | succ n => exact (ih n member).imp_right (List.mem_cons_of_mem d)
  exact later 0 s member

/-- Of a character that is not put in there are no more than before. -/
theorem count_replaceFrom_le (absent : c ∉ new) (n : Nat) (s : List Char) :
    (replaceFrom old new n s).count c ≤ (s.drop n).count c := by
  induction s generalizing n with
  | nil => cases n <;> exact Nat.le_refl _
  | cons d s ih =>
    cases n with
    | zero =>
      rw [replaceFrom, List.drop_zero]
      split
      · rw [List.count_append, List.count_eq_zero_of_not_mem absent, Nat.zero_add]
        calc (replaceFrom old new (old.length - 1) s).count c
            ≤ (s.drop (old.length - 1)).count c := ih _
          _ ≤ (d :: s).count c := ((List.drop_sublist _ s).trans (List.sublist_cons_self d s)).count_le c
      · rw [List.count_cons, List.count_cons]
        exact Nat.add_le_add_right (ih 0) _
    | succ n => exact ih n

theorem count_replace_le (absent : c ∉ new) (s : List Char) : (replace old new s).count c ≤ s.count c :=
  count_replaceFrom_le absent 0 s

theorem count_replace_lt (absent : c ∉ new) (member : c ∈ old) (found : old <:+: s) :
    (replace old new s).count c < s.count c := by
  induction s with
  | nil =>
    rw [List.infix_nil.mp found] at member
    cases member
  | cons d s ih =>
    rw [replace] at ih ⊢
    rw [replaceFrom]
    split
    · next start =>
      obtain ⟨rest, split⟩ := start
      obtain ⟨b, old', rfl⟩ := List.exists_cons_of_ne_nil (List.ne_nil_of_mem member)
      obtain ⟨rfl, tail⟩ := List.cons.inj split
      have same : old' ++ rest = s := tail
      subst same
      have fewer : (replaceFrom (b :: old') new ((b :: old').length - 1) (old' ++ rest)).count c ≤
          ((old' ++ rest).drop ((b :: old').length - 1)).count c := count_replaceFrom_le absent _ _
      rw [List.length_cons, Nat.add_sub_cancel, List.drop_left] at fewer
      rw [List.length_cons, Nat.add_sub_cancel, List.count_append, List.count_eq_zero_of_not_mem absent, Nat.zero_add,
        ← List.cons_append, List.count_append]
      have some := List.count_pos_iff.mpr member
      omega
    · next elsewhere =>
      have inside : old <:+: s := (List.infix_cons_iff.mp found).resolve_left elsewhere
      rw [List.count_cons, List.count_cons]
      exact Nat.add_lt_add_right (ih inside) _

end occurrences

end H2kvm.Framework.Text
