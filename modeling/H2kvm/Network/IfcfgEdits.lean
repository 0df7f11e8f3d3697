import H2kvm.Network.IfcfgStatic

namespace H2kvm.Network

open Framework Text

/-- A value without line breaks, and without white space at its ends. -/
structure EditValue where
  text : List Char
  unbroken : ∀ c ∈ text, isBreak c = false
  stripped : strip text = text

/-- A call of the editor. -/
inductive Edit where
  | set (key : String) (value : EditValue) (quote : Bool)
  | commentOut (key tag : String)
  | delete (key tag : String)

def Edit.key : Edit → String
  | .set key _ _ | .commentOut key _ | .delete key _ => key

/-- `out_val`. -/
def EditValue.written (value : EditValue) (quote : Bool) : List Char :=
  if quote then '"' :: (value.text ++ ['"']) else value.text

namespace IfcfgKV

/-- `set` of a key in upper case, where `text` is written for the value. -/
def assign (m : IfcfgKV) (k : Key) (text value : List Char) : IfcfgKV :=
  let line := k.toList ++ '=' :: text
  let rest : IfcfgKV := { m with kv := m.kv.insert k value, commentedKeys := m.commentedKeys.filter (· ≠ k) }
  match if k ∈ m.commentedKeys then none else m.activeLine k with
  | some (i, _) => { rest with lines := m.lines.set i line }
  | none => { rest with lines := m.lines ++ [line], keyLineIdx := m.keyLineIdx.insert k m.lines.length }

variable (upper : String → String)

/-- `set`, `comment_out` and `delete`; `upper` is `str.upper`. -/
def edit (m : IfcfgKV) : Edit → IfcfgKV
  | .set key value quote => m.assign (upper key) (value.written quote) value.text
  | .commentOut key tag | .delete key tag => m.commentOutKey (upper key) tag

def edits (m : IfcfgKV) (es : List Edit) : IfcfgKV := es.foldl (edit upper) m

end IfcfgKV

namespace Ifcfg

/-- The last active line of a key. -/
def IsLast (k : Key) (lines : List (List Char)) (i : Nat) : Prop :=
  (∃ l, lines[i]? = some l ∧ (valueOf k l).isSome) ∧ ∀ i' l, i < i' → lines[i']? = some l → valueOf k l = none

/-- The model of the editor is what its text reads as, and the lines of the keys that were not touched are where
they were. -/
structure Faithful (content : List Char) (touched : Key → Prop) (m : IfcfgKV) : Prop where
  kv : ∀ k, (IfcfgKV.parse m.render).kv.lookup k = m.kv.lookup k
  untouched : ∀ k, ¬touched k → ∀ (i : Nat) l, (valueOf k l).isSome →
    ((splitlines m.render)[i]? = some l ↔ (splitlines content)[i]? = some l)
  index : ∀ k, (m.kv.lookup k).isSome → ∃ i, m.keyLineIdx.lookup k = some i ∧ IsLast k m.lines i

/-- A call that the text can follow: a key is made of letters, digits and `_` and its value is read as it is written;
of a key that is commented out there is one line, which stays one. -/
def Careful (upper : String → String) (m : IfcfgKV) : Edit → Prop
  | .set key value quote => KeyLike (upper key) ∧ (quote = false → plainValue value.text = value.text)
  | .commentOut key tag | .delete key tag =>
    m.has (upper key) = true → (keyLines (upper key) m.lines).length = 1 ∧ ∀ c ∈ tag.toList, isBreak c = false

/-- Each call of a run is careful when it is made. -/
def CarefulRun (upper : String → String) (m : IfcfgKV) : List Edit → Prop
  | [] => True
  | e :: es => Careful upper m e ∧ CarefulRun upper (m.edit upper e) es

section index

variable {kv : Dict Key (List Char)} {idx : Dict Key Nat} {lines : List (List Char)} {k : Key} {i : Nat}
  {line value : List Char}

/-- The index has the last active line of each key, and the values are those of these lines. -/
structure Indexed (kv : Dict Key (List Char)) (idx : Dict Key Nat) (lines : List (List Char)) : Prop where
  present : ∀ k i, idx.lookup k = some i → IsLast k lines i ∧ ((lines[i]?).bind (valueOf k)) = kv.lookup k
  absent : ∀ k, idx.lookup k = none → kv.lookup k = none ∧ ∀ l ∈ lines, valueOf k l = none

theorem valueOf_self (h : assignment? line = some (k, value)) : valueOf k line = some value := by
  rw [valueOf, h]
  exact if_pos rfl

/-- A line gives a value to one key. -/
theorem valueOf_eq_none_of_isSome {j : Key} (own : (valueOf k line).isSome) (other : j ≠ k) : valueOf j line = none := by
  obtain ⟨v, owner⟩ := Option.isSome_iff_exists.mp own
  rw [valueOf] at owner ⊢
  split at owner
  · rename_i key v' assigned
    split at owner
    · rename_i mine
      exact if_neg fun same => other (same.symm.trans mine)
    · cases owner
  · cases owner

theorem valueOf_of_none (h : assignment? line = none) (k : Key) : valueOf k line = none := by rw [valueOf, h]

theorem Indexed.of_empty : Indexed ∅ ∅ [] where
  present k i found := absurd found (by simp)
  absent k _ := ⟨AList.lookup_empty k, by simp⟩

theorem IsLast.inside (last : IsLast k lines i) : i < lines.length := by
  obtain ⟨⟨l, here, -⟩, -⟩ := last
  exact (List.getElem?_eq_some_iff.mp here).1

theorem isLast_concat (last : IsLast k lines i) (other : valueOf k line = none) : IsLast k (lines ++ [line]) i := by
  have inside := last.inside
  obtain ⟨⟨l, here, own⟩, later⟩ := last
  refine ⟨⟨l, by rw [List.getElem?_append_left inside, here], own⟩, fun i' l' after found => ?_⟩
  by_cases before : i' < lines.length
  · rw [List.getElem?_append_left before] at found
    exact later i' l' after found
  · rw [List.getElem?_append_right (by omega)] at found
    have first : l' = line := by
      cases rest : i' - lines.length with
      | zero =>
        rw [rest] at found
        exact (Option.some.inj found).symm
      | succ n =>
        rw [rest] at found
        simp at found
    rw [first]
    exact other

theorem Indexed.concat_other (h : Indexed kv idx lines) (other : ∀ k, valueOf k line = none) :
    Indexed kv idx (lines ++ [line]) where
  present k i found := by
    obtain ⟨last, same⟩ := h.present k i found
    exact ⟨isLast_concat last (other k), by rw [List.getElem?_append_left last.inside, same]⟩
  absent k none := by
    obtain ⟨missing, quiet⟩ := h.absent k none
    refine ⟨missing, fun l hl => ?_⟩
    rcases List.mem_append.mp hl with old | new
    · exact quiet l old
    · rw [List.mem_singleton.mp new]
      exact other k

/-- An assignment is put at the end. -/
theorem Indexed.concat_assign (h : Indexed kv idx lines) (assigned : assignment? line = some (k, value)) :
    Indexed (kv.insert k value) (idx.insert k lines.length) (lines ++ [line]) where
  present j i found := by
    by_cases same : j = k
    · subst same
      rw [AList.lookup_insert, Option.some.injEq] at found
      subst found
      have own := valueOf_self assigned
      have here : (lines ++ [line])[lines.length]? = some line := List.getElem?_concat_length
      refine ⟨⟨⟨line, here, by rw [own]; rfl⟩, fun i' l after at' => ?_⟩, ?_⟩
      · have inside : i' < (lines ++ [line]).length := (List.getElem?_eq_some_iff.mp at').1
        rw [List.length_append, List.length_singleton] at inside
        omega
      · rw [here, AList.lookup_insert]
        exact own
    · rw [AList.lookup_insert_ne same] at found
      obtain ⟨last, value'⟩ := h.present j i found
      refine ⟨isLast_concat last (valueOf_eq_none_of_other assigned (Ne.symm same)), ?_⟩
      rw [List.getElem?_append_left last.inside, value', AList.lookup_insert_ne same]
  absent j none := by
    by_cases same : j = k
    · subst same
      rw [AList.lookup_insert] at none
      cases none
    · rw [AList.lookup_insert_ne same] at none
      obtain ⟨missing, quiet⟩ := h.absent j none
      refine ⟨by rw [AList.lookup_insert_ne same, missing], fun l hl => ?_⟩
      rcases List.mem_append.mp hl with old | new
      · exact quiet l old
      · rw [List.mem_singleton.mp new]
        exact valueOf_eq_none_of_other assigned (Ne.symm same)

/-- A line that neither before nor after belongs to a key changes nothing about it. -/
theorem isLast_set {i' : Nat} {old : List Char} (last : IsLast k lines i) (at' : lines[i']? = some old)
    (before : valueOf k old = none) (after : valueOf k line = none) :
    IsLast k (lines.set i' line) i ∧ (lines.set i' line)[i]? = lines[i]? := by
  obtain ⟨⟨l, here, own⟩, later⟩ := last
  have apart : i' ≠ i := by
    rintro rfl
    have same : old = l := Option.some.inj (at'.symm.trans here)
    rw [← same, before] at own
    cases own
  have kept : (lines.set i' line)[i]? = lines[i]? := List.getElem?_set_ne apart
  refine ⟨⟨⟨l, by rw [kept, here], own⟩, fun j l' behind found => ?_⟩, kept⟩
  by_cases there : i' = j
  · subst there
    obtain ⟨inside, -⟩ := List.getElem?_eq_some_iff.mp at'
    rw [List.getElem?_set_self inside] at found
    rw [← Option.some.inj found]
    exact after
  · rw [List.getElem?_set_ne there] at found
    exact later j l' behind found

/-- The last active line of a key is replaced. -/
theorem Indexed.set_assign (h : Indexed kv idx lines) (found : idx.lookup k = some i)
    (assigned : assignment? line = some (k, value)) : Indexed (kv.insert k value) idx (lines.set i line) where
  present j i' found' := by
    obtain ⟨last, value'⟩ := h.present j i' found'
    by_cases same : j = k
    · subst same
      have one : i = i' := Option.some.inj (found.symm.trans found')
      subst one
      obtain ⟨⟨l, here, -⟩, later⟩ := last
      obtain ⟨inside, -⟩ := List.getElem?_eq_some_iff.mp here
      have own := valueOf_self assigned
      have new : (lines.set i line)[i]? = some line := List.getElem?_set_self inside
      refine ⟨⟨⟨line, new, by rw [own]; rfl⟩, fun j' l' behind at' => ?_⟩, ?_⟩
      · rw [List.getElem?_set_ne (by omega)] at at'
        exact later j' l' behind at'
      · rw [new, AList.lookup_insert]
        exact own
    · obtain ⟨⟨⟨old, here, own⟩, -⟩, -⟩ := h.present k i found
      obtain ⟨last', kept⟩ := isLast_set last here (valueOf_eq_none_of_isSome own same) (valueOf_eq_none_of_other assigned (Ne.symm same))
      exact ⟨last', by rw [kept, value', AList.lookup_insert_ne same]⟩
  absent j none := by
    have other : j ≠ k := by
      rintro rfl
      rw [found] at none
      cases none
    obtain ⟨missing, quiet⟩ := h.absent j none
    refine ⟨by rw [AList.lookup_insert_ne other, missing], fun l hl => ?_⟩
    rcases List.mem_or_eq_of_mem_set hl with old | rfl
    · exact quiet l old
    · exact valueOf_eq_none_of_other assigned (Ne.symm other)

theorem valueOf_eq_none_of_alone (alone : (keyLines k lines).length = 1) {old : List Char} (at' : lines[i]? = some old)
    (own : (valueOf k old).isSome) (quiet : valueOf k line = none) : ∀ l ∈ lines.set i line, valueOf k l = none := by
  obtain ⟨inside, here⟩ := List.getElem?_eq_some_iff.mp at'
  have parts : lines = lines.take i ++ old :: lines.drop (i + 1) := by
    rw [← here, List.getElem_cons_drop, List.take_append_drop]
  have count : (keyLines k (lines.take i)).length + (keyLines k (lines.drop (i + 1))).length = 0 := by
    rw [parts, keyLines, List.filter_append, List.filter_cons, if_pos own, List.length_append, List.length_cons] at alone
    simp only [keyLines]
    omega
  have none {part : List (List Char)} (empty : (keyLines k part).length = 0) : ∀ l ∈ part, valueOf k l = none := by
    intro l hl
    have out := List.filter_eq_nil_iff.mp (List.length_eq_zero_iff.mp empty) l hl
    simpa using out
  intro l hl
  rw [List.set_eq_take_append_cons_drop, if_pos inside] at hl
  rcases List.mem_append.mp hl with before | new
  · exact none (by omega) l before
  · rcases List.mem_cons.mp new with rfl | behind
    · exact quiet
    · exact none (by omega) l behind

theorem Indexed.erase (h : Indexed kv idx lines) (found : idx.lookup k = some i) (alone : (keyLines k lines).length = 1)
    (comment : ∀ j, valueOf j line = none) : Indexed (kv.erase k) (idx.erase k) (lines.set i line) := by
  obtain ⟨⟨⟨old, here, own⟩, -⟩, -⟩ := h.present k i found
  refine ⟨fun j i' found' => ?_, fun j none => ?_⟩
  · have differs : j ≠ k := by
      rintro rfl
      rw [AList.lookup_erase] at found'
      cases found'
    rw [AList.lookup_erase_ne differs] at found'
    obtain ⟨last, value'⟩ := h.present j i' found'
    obtain ⟨last', kept⟩ := isLast_set last here (valueOf_eq_none_of_isSome own differs) (comment j)
    exact ⟨last', by rw [kept, value', AList.lookup_erase_ne differs]⟩
  · by_cases same : j = k
    · subst same
      exact ⟨AList.lookup_erase .., valueOf_eq_none_of_alone alone here own (comment j)⟩
    · rw [AList.lookup_erase_ne same] at none
      obtain ⟨missing, quiet⟩ := h.absent j none
      refine ⟨by rw [AList.lookup_erase_ne same, missing], fun l hl => ?_⟩
      rcases List.mem_or_eq_of_mem_set hl with old' | rfl
      · exact quiet l old'
      · exact comment j

theorem Indexed.erase_absent (h : Indexed kv idx lines) (none : idx.lookup k = none) :
    Indexed (kv.erase k) (idx.erase k) lines := by
  have value (j : Key) : (kv.erase k).lookup j = kv.lookup j := by
    by_cases same : j = k
    · subst same
      rw [AList.lookup_erase, (h.absent j none).1]
    · exact AList.lookup_erase_ne same
  have place (j : Key) : (idx.erase k).lookup j = idx.lookup j := by
    by_cases same : j = k
    · subst same
      rw [AList.lookup_erase, none]
    · exact AList.lookup_erase_ne same
  refine ⟨fun j i found => ?_, fun j missing => ?_⟩
  · rw [place] at found
    rw [value]
    exact h.present j i found
  · rw [place] at missing
    rw [value]
    exact h.absent j missing

theorem Indexed.lookup_eq (h : Indexed kv idx lines) (k : Key) : kv.lookup k = valueIn k lines := by
  cases found : idx.lookup k with
  | none =>
    obtain ⟨missing, quiet⟩ := h.absent k found
    have nothing : lines.filterMap (valueOf k) = [] := List.filterMap_eq_nil_iff.mpr quiet
    rw [missing, valueIn, nothing]
    rfl
  | some i =>
    obtain ⟨⟨⟨l, here, own⟩, later⟩, value'⟩ := h.present k i found
    obtain ⟨inside, at'⟩ := List.getElem?_eq_some_iff.mp here
    have parts : lines = lines.take i ++ l :: lines.drop (i + 1) := by
      rw [← at', List.getElem_cons_drop, List.take_append_drop]
    have behind : (lines.drop (i + 1)).filterMap (valueOf k) = [] := by
      rw [List.filterMap_eq_nil_iff]
      intro l' hl'
      obtain ⟨n, there⟩ := List.mem_iff_getElem?.mp hl'
      rw [List.getElem?_drop] at there
      exact later (i + 1 + n) l' (by omega) there
    obtain ⟨v, owner⟩ := Option.isSome_iff_exists.mp own
    rw [← value', here, valueIn, parts, List.filterMap_append, List.filterMap_cons, owner, behind]
    simp [owner]

end index

section runs

variable {upper : String → String} {content : List Char} {m : IfcfgKV} {touched : Key → Prop}

/-- What holds of the editor between two calls. -/
structure Sound (content : List Char) (touched : Key → Prop) (m : IfcfgKV) : Prop where
  indexed : Indexed m.kv m.keyLineIdx m.lines
  free : ∀ l ∈ m.lines, ∀ c ∈ l, isBreak c = false
  commented : ∀ k ∈ m.commentedKeys, m.keyLineIdx.lookup k = none
  kept : ∀ k, ¬touched k → ∀ (i : Nat) l, (valueOf k l).isSome →
    (m.lines[i]? = some l ↔ (splitlines content)[i]? = some l)

theorem indexed_parseFrom (pre lines : List (List Char)) (m : IfcfgKV) (h : Indexed m.kv m.keyLineIdx pre) :
    Indexed (m.parseFrom pre.length lines).kv (m.parseFrom pre.length lines).keyLineIdx (pre ++ lines) := by
  induction lines generalizing pre m with
  | nil => rwa [List.append_nil]
  | cons line lines ih =>
    have length : pre.length + 1 = (pre ++ [line]).length := by simp
    have whole : pre ++ line :: lines = pre ++ [line] ++ lines := by simp
    rw [IfcfgKV.parseFrom, length, whole]
    apply ih
    rw [IfcfgKV.parseLine]
    split
    · rename_i none
      exact h.concat_other (valueOf_of_none none)
    · rename_i key value assigned
      exact h.concat_assign assigned

theorem sound_parse (content : List Char) : Sound content (fun _ => False) (IfcfgKV.parse content) where
  indexed := by
    have parsed := indexed_parseFrom [] (splitlines content) { lines := splitlines content } Indexed.of_empty
    have lines : (IfcfgKV.parse content).lines = splitlines content := lines_parseFrom _ _ _
    rw [lines]
    exact parsed
  free := (good_parse content).free
  commented k hk := by
    have none (lines : List (List Char)) (m : IfcfgKV) (i : Nat) : (m.parseFrom i lines).commentedKeys = m.commentedKeys := by
      induction lines generalizing m i with
      | nil => rfl
      | cons line lines ih =>
        rw [IfcfgKV.parseFrom, ih, IfcfgKV.parseLine]
        split <;> rfl
    rw [IfcfgKV.parse, none] at hk
    cases hk
  kept k _ i l _ := by
    have lines : (IfcfgKV.parse content).lines = splitlines content := lines_parseFrom _ _ _
    rw [lines]

theorem Sound.activeLine (sound : Sound content touched m) (k : Key) :
    (m.keyLineIdx.lookup k = none ∧ m.activeLine k = none) ∨
      ∃ i l, m.keyLineIdx.lookup k = some i ∧ m.activeLine k = some (i, l) ∧ m.lines[i]? = some l ∧ (valueOf k l).isSome := by
  cases found : m.keyLineIdx.lookup k with
  | none =>
    refine .inl ⟨rfl, ?_⟩
    rw [IfcfgKV.activeLine, found]
  | some i =>
    obtain ⟨⟨⟨l, here, own⟩, -⟩, -⟩ := sound.indexed.present k i found
    have active : isComment l = false := by
      by_contra comment
      rw [Bool.not_eq_false] at comment
      rw [valueOf_eq_none_of_isComment comment] at own
      cases own
    refine .inr ⟨i, l, rfl, ?_, here, own⟩
    rw [IfcfgKV.activeLine, found]
    simp [here, active]

/-- A key is set. -/
theorem Sound.assign (sound : Sound content touched m) {k : Key} (key : KeyLike k) {text value : List Char}
    (unbroken : ∀ c ∈ text, isBreak c = false) (reads : plainValue text = value) :
    Sound content (fun j => touched j ∨ k = j) (m.assign k text value) := by
  obtain ⟨assigned, -⟩ := assignment?_assign key text
  rw [reads] at assigned
  have free := free_assign key unbroken
  have other {j : Key} (untouched : ¬(touched j ∨ k = j)) : valueOf j (k.toList ++ '=' :: text) = none :=
    valueOf_eq_none_of_other assigned fun same => untouched (.inr same)
  have listed (place : m.keyLineIdx.lookup k = none ∨ k ∉ m.commentedKeys) {j : Key} {idx : Dict Key Nat}
      (same : ∀ j, j ≠ k → idx.lookup j = m.keyLineIdx.lookup j) (hj : j ∈ m.commentedKeys.filter (· ≠ k)) :
      idx.lookup j = none := by
    obtain ⟨old, differs⟩ := List.mem_filter.mp hj
    rw [same j (by simpa using differs)]
    exact sound.commented j old
  rw [IfcfgKV.assign]
  rcases sound.activeLine k with ⟨none, quiet⟩ | ⟨i, l, found, active, here, own⟩
  · have fresh : (if k ∈ m.commentedKeys then Option.none else m.activeLine k) = Option.none := by
      rw [quiet, ite_self]
    simp only [fresh]
    refine ⟨sound.indexed.concat_assign assigned, ?_, fun j hj => ?_, fun j untouched i' l' own => ?_⟩
    · intro l hl
      rcases List.mem_append.mp hl with old | new
      · exact sound.free l old
      · rw [List.mem_singleton.mp new]
        exact free
    · exact listed (.inl none) (fun j differs => AList.lookup_insert_ne differs) hj
    · rw [getElem?_concat_iff (other untouched) own]
      exact sound.kept j (fun old => untouched (.inl old)) i' l' own
  · have live : k ∉ m.commentedKeys := by
      intro commented
      rw [sound.commented k commented] at found
      cases found
    simp only [if_neg live, active]
    refine ⟨sound.indexed.set_assign found assigned, ?_, fun j hj => ?_, fun j untouched i' l' own' => ?_⟩
    · intro l' hl'
      rcases List.mem_or_eq_of_mem_set hl' with old | rfl
      · exact sound.free l' old
      · exact free
    · exact listed (.inr live) (fun _ _ => rfl) hj
    · have before : valueOf j l = none := valueOf_eq_none_of_isSome own fun same => untouched (.inr same.symm)
      rw [getElem?_set_iff here before (other untouched) own']
      exact sound.kept j (fun old => untouched (.inl old)) i' l' own'

/-- A key with one line, or none, is commented out. -/
theorem Sound.commentOutKey (sound : Sound content touched m) {k : Key} {tag : String}
    (careful : m.has k = true → (keyLines k m.lines).length = 1 ∧ ∀ c ∈ tag.toList, isBreak c = false) :
    Sound content (fun j => touched j ∨ k = j) (m.commentOutKey k tag) := by
  have listed {j : Key} (hj : j ∈ k :: m.commentedKeys) : (m.keyLineIdx.erase k).lookup j = none := by
    by_cases same : j = k
    · subst same
      exact AList.lookup_erase ..
    · rw [AList.lookup_erase_ne same]
      exact sound.commented j ((List.mem_cons.mp hj).resolve_left same)
  rcases sound.activeLine k with ⟨none, quiet⟩ | ⟨i, l, found, active, here, own⟩
  · refine ⟨?_, ?_, fun j hj => listed hj, fun j untouched i' l' own => ?_⟩
    · simp only [IfcfgKV.commentOutKey, quiet]
      exact sound.indexed.erase_absent none
    · simp only [IfcfgKV.commentOutKey, quiet]
      exact sound.free
    · simp only [IfcfgKV.commentOutKey, quiet]
      exact sound.kept j (fun old => untouched (.inl old)) i' l' own
  · have has : m.has k = true := by
      obtain ⟨last, value⟩ := sound.indexed.present k i found
      rw [IfcfgKV.has, ← value, here]
      exact own
    obtain ⟨alone, plain⟩ := careful has
    have comment (j : Key) : valueOf j (commentOut l tag) = none := valueOf_commentOut j l tag
    refine ⟨?_, ?_, fun j hj => listed hj, fun j untouched i' l' own' => ?_⟩
    · simp only [IfcfgKV.commentOutKey, active]
      exact sound.indexed.erase found alone comment
    · simp only [IfcfgKV.commentOutKey, active]
      intro l' hl'
      rcases List.mem_or_eq_of_mem_set hl' with old | rfl
      · exact sound.free l' old
      · exact free_commentOut (sound.free l (List.mem_of_getElem? here)) plain
    · simp only [IfcfgKV.commentOutKey, active]
      have before : valueOf j l = none := valueOf_eq_none_of_isSome own fun same => untouched (.inr same.symm)
      rw [getElem?_set_iff here before (comment j) own']
      exact sound.kept j (fun old => untouched (.inl old)) i' l' own'

theorem plainValue_quoted (value : List Char) : plainValue ('"' :: (value ++ ['"'])) = value := by
  have left : lstrip ('"' :: (value ++ ['"'])) = '"' :: (value ++ ['"']) := List.dropWhile_cons_of_neg (by decide)
  have whole : strip ('"' :: (value ++ ['"'])) = '"' :: (value ++ ['"']) := by
    rw [strip, left, rstrip, ← List.cons_append]
    exact List.rdropWhile_concat_neg _ _ _ (by decide)
  have last : ('"' :: (value ++ ['"'])).getLast? = some '"' := by
    rw [← List.cons_append, List.getLast?_concat]
  simp only [plainValue, whole]
  rw [if_pos (.inl ⟨rfl, last⟩)]
  simp

theorem Sound.edit (sound : Sound content touched m) {e : Edit} (careful : Careful upper m e) :
    Sound content (fun j => touched j ∨ upper e.key = j) (m.edit upper e) := by
  cases e with
  | set key value quote =>
    obtain ⟨like, reads⟩ := careful
    refine sound.assign like ?_ ?_
    · cases quote with
      | false => exact value.unbroken
      | true =>
        intro c hc
        rcases List.mem_cons.mp hc with rfl | rest
        · rfl
        · rcases List.mem_append.mp rest with inner | last
          · exact value.unbroken c inner
          · rw [List.mem_singleton.mp last]
            rfl
    · cases quote with
      | false => exact reads rfl
      | true => exact plainValue_quoted value.text
  | commentOut key tag => exact sound.commentOutKey careful
  | delete key tag => exact sound.commentOutKey careful

theorem Sound.faithful (sound : Sound content touched m) : Faithful content touched m := by
  refine ⟨fun k => ?_, fun k untouched i l own => ?_, fun k active => ?_⟩
  · rw [lookup_parse, valueIn_render k sound.free, sound.indexed.lookup_eq]
  · rw [← sound.kept k untouched i l own]
    have blank : valueOf k [] = none := rfl
    rcases splitlines_render sound.free with same | shorter | longer
    · rw [same]
    · rw [shorter, getElem?_concat_iff blank own]
    · rw [longer, getElem?_concat_iff blank own]
  · cases found : m.keyLineIdx.lookup k with
    | none =>
      rw [(sound.indexed.absent k found).1] at active
      cases active
    | some i => exact ⟨i, rfl, (sound.indexed.present k i found).1⟩

theorem Sound.mono {touched' : Key → Prop} (sound : Sound content touched m) (more : ∀ k, touched k → touched' k) :
    Sound content touched' m :=
  ⟨sound.indexed, sound.free, sound.commented, fun k untouched => sound.kept k fun old => untouched (more k old)⟩

theorem Sound.edits (sound : Sound content touched m) {es : List Edit} (careful : CarefulRun upper m es) :
    Sound content (fun k => touched k ∨ ∃ e ∈ es, upper e.key = k) (m.edits upper es) := by
  induction es generalizing touched m with
  | nil => exact sound.mono fun k old => .inl old
  | cons e es ih =>
    obtain ⟨here, rest⟩ := careful
    have next := ih (sound.edit here) rest
    refine next.mono fun k done => ?_
    rcases done with (old | same) | ⟨e', later, same⟩
    · exact .inl old
    · exact .inr ⟨e, List.mem_cons_self, same⟩
    · exact .inr ⟨e', List.mem_cons_of_mem _ later, same⟩

theorem CarefulRun.prefix {m : IfcfgKV} {done rest : List Edit} (careful : CarefulRun upper m (done ++ rest)) :
    CarefulRun upper m done := by
  induction done generalizing m with
  | nil => trivial
  | cons e done ih => exact ⟨careful.1, ih careful.2⟩

/-- As long as the calls are careful, the editor is faithful after each of them. -/
theorem faithful_of_careful (upper : String → String) (content : List Char) (done rest : List Edit)
    (careful : CarefulRun upper (IfcfgKV.parse content) (done ++ rest)) :
    Faithful content (fun k => ∃ e ∈ done, upper e.key = k) ((IfcfgKV.parse content).edits upper done) := by
  have sound := (sound_parse content).edits careful.prefix
  have touched := sound.mono fun k old => old.resolve_left id
  exact touched.faithful

/-- `str.upper()` of a key. -/
def upperKey (key : String) : String := String.ofList (Network.upper key.toList)

def plainEdit (key text : String) (unbroken : ∀ c ∈ text.toList, isBreak c = false)
    (stripped : strip text.toList = text.toList) : Edit := .set key ⟨text.toList, unbroken, stripped⟩ false

/-- An address is taken out and a name is set. -/
theorem faithful_hwaddr_name :
    CarefulRun upperKey (IfcfgKV.parse "HWADDR=0a\nNAME=ens192\n".toList)
        ([.commentOut "hwaddr" "gone"] ++ [plainEdit "NAME" "eth0" (by decide) (by decide)]) ∧
      Faithful "HWADDR=0a\nNAME=ens192\n".toList (fun k => ∃ e ∈ [Edit.commentOut "hwaddr" "gone"], upperKey e.key = k)
        ((IfcfgKV.parse "HWADDR=0a\nNAME=ens192\n".toList).edits upperKey [.commentOut "hwaddr" "gone"]) := by
  have careful : CarefulRun upperKey (IfcfgKV.parse "HWADDR=0a\nNAME=ens192\n".toList)
      ([.commentOut "hwaddr" "gone"] ++ [plainEdit "NAME" "eth0" (by decide) (by decide)]) := by
    refine ⟨fun _ => ⟨by decide +kernel, by decide⟩, ⟨by decide +kernel, fun _ => by decide +kernel⟩, trivial⟩
  exact ⟨careful, faithful_of_careful upperKey _ _ _ careful⟩

/-- Of two lines of a key one stays when it is commented out. -/
theorem not_faithful_duplicate :
    ¬Faithful "HWADDR=0a\nHWADDR=0b\n".toList (fun k => ∃ e ∈ [Edit.commentOut "HWADDR" "gone"], upperKey e.key = k)
      ((IfcfgKV.parse "HWADDR=0a\nHWADDR=0b\n".toList).edits upperKey [.commentOut "HWADDR" "gone"]) := by
  intro faithful
  have same := faithful.kv "HWADDR"
  exact absurd same (by decide +kernel)

end runs

end Ifcfg

end H2kvm.Network
