import H2kvm.Network.Ifcfg

namespace H2kvm.Network.Ifcfg

open Framework Text

/-- The value a line gives to a key. -/
def valueOf (k : Key) (line : List Char) : Option (List Char) :=
  match assignment? line with
  | some (key, value) => if key = k then some value else none
  | none => none

/-- The value a key has at the end of the file: the last line wins. -/
def valueIn (k : Key) (lines : List (List Char)) : Option (List Char) := (lines.filterMap (valueOf k)).getLast?

def addressKeys : List Key := ["IPADDR", "PREFIX", "NETMASK"]

/-- `BOOTPROTO=dhcp`. -/
def usesDhcp (lines : List (List Char)) : Prop :=
  lower (unquoted ((valueIn "BOOTPROTO" lines).getD [])) = "dhcp".toList

instance (lines : List (List Char)) : Decidable (usesDhcp lines) := inferInstanceAs (Decidable (_ = _))

/-- The static address is still there, and DHCP is not enabled. -/
def StaticKept (before after : List Char) : Prop :=
  (∃ k ∈ addressKeys, (valueIn k (splitlines before)).isSome = true) → ¬usesDhcp (splitlines before) →
    (∀ k ∈ addressKeys, valueIn k (splitlines after) = valueIn k (splitlines before)) ∧ ¬usesDhcp (splitlines after)

/-- A line that is not commented out for a VMware parameter. -/
def keeps (line : List Char) : Bool := decide (paramsIn line = []) || isComment line

/-- The addresses are what they are without the lines that go, and so is `BOOTPROTO`. -/
def Survives (lines : List (List Char)) : Prop :=
  (∀ k ∈ addressKeys, valueIn k (lines.filter keeps) = valueIn k lines) ∧ ¬usesDhcp (lines.filter keeps)

/-- The new names stay on the line. -/
def PlainNames (fixer : LineFixer) : Prop :=
  ∀ old new, fixer.renameMap.lookup old = some new → ∀ c ∈ new.toList, isBreak c = false

section lines

variable {k : Key} {line : List Char}

theorem valueOf_eq_none_of_isComment (h : isComment line = true) : valueOf k line = none := by
  rw [valueOf, assignment?, if_pos h]

theorem valueOf_commentOut (k : Key) (line : List Char) (tag : String) : valueOf k (commentOut line tag) = none :=
  valueOf_eq_none_of_isComment (isComment_commentOut line tag)

/-- What the parser finds. -/
theorem lookup_parseFrom (lines : List (List Char)) (m : IfcfgKV) (i : Nat) :
    (m.parseFrom i lines).kv.lookup k = (valueIn k lines).or (m.kv.lookup k) := by
  induction lines generalizing m i with
  | nil => rfl
  | cons line lines ih =>
    rw [IfcfgKV.parseFrom, ih]
    have step : (m.parseLine i line).kv.lookup k = (valueOf k line).or (m.kv.lookup k) := by
      unfold IfcfgKV.parseLine valueOf
      cases assignment? line with
      | none => rfl
      | some a =>
        simp only
        split
        · rename_i same
          subst same
          rw [AList.lookup_insert]
          rfl
        · rename_i other
          rw [AList.lookup_insert_ne (Ne.symm other)]
          rfl
    rw [step, valueIn, valueIn, List.filterMap_cons]
    cases valueOf k line with
    | none => rfl
    | some v =>
      simp only
      rw [List.getLast?_cons]
      cases (lines.filterMap (valueOf k)).getLast? with
      | none => rfl
      | some w => rfl

theorem lookup_parse (k : Key) (content : List Char) :
    (IfcfgKV.parse content).kv.lookup k = valueIn k (splitlines content) := by
  rw [IfcfgKV.parse, lookup_parseFrom]
  exact Option.or_none

end lines

/-- The lines that give a key a value. -/
def keyLines (k : Key) (lines : List (List Char)) : List (List Char) := lines.filter fun l => (valueOf k l).isSome

theorem valueIn_eq_of_keyLines {k : Key} {lines lines' : List (List Char)} (h : keyLines k lines' = keyLines k lines) :
    valueIn k lines' = valueIn k lines := by
  have through (l : List (List Char)) : (keyLines k l).filterMap (valueOf k) = l.filterMap (valueOf k) := by
    rw [keyLines, List.filterMap_filter]
    apply List.filterMap_congr
    intro line _
    cases valueOf k line with
    | none => rfl
    | some v => rfl
  rw [valueIn, valueIn, ← through, h, through]

/-- The index points at lines of its keys, or at comments, and no line has a break in it. -/
structure Good (m : IfcfgKV) : Prop where
  index : ∀ j i, m.keyLineIdx.lookup j = some i →
    ∃ l, m.lines[i]? = some l ∧ (isComment l = true ∨ ∃ v, assignment? l = some (j, v))
  free : ∀ l ∈ m.lines, ∀ c ∈ l, isBreak c = false

/-- The index points at lines of its keys, or at comments. -/
def Pointed (m : IfcfgKV) : Prop :=
  ∀ j i, m.keyLineIdx.lookup j = some i →
    ∃ l, m.lines[i]? = some l ∧ (isComment l = true ∨ ∃ v, assignment? l = some (j, v))

/-- A step that leaves a key alone. -/
structure Frame (k : Key) (m m' : IfcfgKV) : Prop where
  pointed : Pointed m → Pointed m'
  lines : Pointed m → ∀ (i : Nat) l, (valueOf k l).isSome → (m'.lines[i]? = some l ↔ m.lines[i]? = some l)
  lookup : m'.kv.lookup k = m.kv.lookup k
  index : m'.keyLineIdx.lookup k = m.keyLineIdx.lookup k

namespace Frame

variable {k : Key} {m m' m'' : IfcfgKV}

theorem refl (k : Key) (m : IfcfgKV) : Frame k m m := ⟨id, fun _ _ _ _ => Iff.rfl, rfl, rfl⟩

theorem trans (h : Frame k m m') (h' : Frame k m' m'') : Frame k m m'' where
  pointed pointed := h'.pointed (h.pointed pointed)
  lines pointed i l own := (h'.lines (h.pointed pointed) i l own).trans (h.lines pointed i l own)
  lookup := h'.lookup.trans h.lookup
  index := h'.index.trans h.index

end Frame

/-- The keys no step may touch. -/
def protectedKeys : List Key := ["IPADDR", "PREFIX", "NETMASK", "BOOTPROTO"]

/-- A step that leaves the protected keys alone. -/
structure Step (m m' : IfcfgKV) : Prop where
  good : Good m → Good m'
  lines : Good m → ∀ k ∈ protectedKeys, keyLines k m'.lines = keyLines k m.lines
  lookup : ∀ k ∈ protectedKeys, m'.kv.lookup k = m.kv.lookup k

namespace Step

variable {m m' m'' : IfcfgKV}

theorem refl (m : IfcfgKV) : Step m m := ⟨id, fun _ _ _ => rfl, fun _ _ => rfl⟩

theorem trans (h : Step m m') (h' : Step m' m'') : Step m m'' where
  good good := h'.good (h.good good)
  lines good k hk := (h'.lines (h.good good) k hk).trans (h.lines good k hk)
  lookup k hk := (h'.lookup k hk).trans (h.lookup k hk)

end Step

section edits

variable {m : IfcfgKV} {j : Key}

theorem keyLines_cons (k : Key) (l : List Char) (lines : List (List Char)) :
    keyLines k (l :: lines) = if (valueOf k l).isSome then l :: keyLines k lines else keyLines k lines :=
  List.filter_cons

theorem keyLines_eq_of_places {k : Key} {lines lines' : List (List Char)}
    (same : ∀ (i : Nat) l, (valueOf k l).isSome → (lines'[i]? = some l ↔ lines[i]? = some l)) :
    keyLines k lines' = keyLines k lines := by
  have nothing {some none : List (List Char)} (empty : none = [])
      (same : ∀ (i : Nat) l, (valueOf k l).isSome → some[i]? = .some l → none[i]? = .some l) : keyLines k some = [] := by
    apply List.filter_eq_nil_iff.mpr
    intro l hl own
    obtain ⟨i, at'⟩ := List.mem_iff_getElem?.mp hl
    have there := same i l own at'
    rw [empty] at there
    cases there
  induction lines generalizing lines' with
  | nil => exact nothing rfl fun i l own => (same i l own).mp
  | cons line lines ih =>
    cases lines' with
    | nil => exact (nothing rfl fun i l own => (same i l own).mpr).symm
    | cons line' lines' =>
      have rest : keyLines k lines' = keyLines k lines := ih fun i l own => same (i + 1) l own
      rw [keyLines_cons, keyLines_cons, rest]
      by_cases own : (valueOf k line').isSome
      · have one : line = line' := Option.some.inj ((same 0 line' own).mp rfl)
        rw [one]
      · have other : ¬(valueOf k line).isSome := by
          intro own'
          have one : line' = line := Option.some.inj ((same 0 line own').mpr rfl)
          exact own (one ▸ own')
        rw [if_neg own, if_neg other]

theorem valueOf_eq_none_of_other {k : Key} {l v : List Char} (h : assignment? l = some (j, v)) (other : j ≠ k) :
    valueOf k l = none := by
  rw [valueOf, h]
  exact if_neg other

theorem activeLine_eq_some {i : Nat} {l : List Char} (h : m.activeLine j = some (i, l)) :
    m.keyLineIdx.lookup j = some i ∧ m.lines[i]? = some l ∧ isComment l = false := by
  unfold IfcfgKV.activeLine at h
  split at h
  · cases h
  · rename_i i' found
    obtain ⟨line, at', rest⟩ := Option.bind_eq_some_iff.mp h
    split at rest
    · cases rest
    · rename_i active
      cases rest
      exact ⟨found, at', Bool.eq_false_iff.mpr active⟩

/-- The line the index gives for a key is one of that key. -/
theorem Pointed.assignment_of_activeLine (pointed : Pointed m) {i : Nat} {l : List Char}
    (h : m.activeLine j = some (i, l)) : ∃ v, assignment? l = some (j, v) := by
  obtain ⟨found, at', active⟩ := activeLine_eq_some h
  obtain ⟨l', at'', kind⟩ := pointed j i found
  have same : l' = l := Option.some.inj (at''.symm.trans at')
  subst same
  rcases kind with comment | key
  · exact absurd (active.symm.trans comment) (by decide)
  · exact key

theorem getElem?_set_iff {k : Key} {lines : List (List Char)} {i' : Nat} {old line l : List Char}
    (at' : lines[i']? = some old) (before : valueOf k old = none) (after : valueOf k line = none)
    (own : (valueOf k l).isSome) (i : Nat) : (lines.set i' line)[i]? = some l ↔ lines[i]? = some l := by
  have differs {l' : List Char} (quiet : valueOf k l' = none) : l' ≠ l := by
    rintro rfl
    rw [quiet] at own
    cases own
  by_cases here : i' = i
  · subst here
    obtain ⟨inside, -⟩ := List.getElem?_eq_some_iff.mp at'
    rw [List.getElem?_set_self inside, at', Option.some.injEq, Option.some.injEq]
    exact iff_of_false (differs after) (differs before)
  · rw [List.getElem?_set_ne here]

theorem getElem?_concat_iff {k : Key} {lines : List (List Char)} {line l : List Char} (other : valueOf k line = none)
    (own : (valueOf k l).isSome) (i : Nat) : (lines ++ [line])[i]? = some l ↔ lines[i]? = some l := by
  by_cases inside : i < lines.length
  · rw [List.getElem?_append_left inside]
  · rw [List.getElem?_append_right (by omega), List.getElem?_eq_none (l := lines) (by omega)]
    refine iff_of_false (fun found => ?_) (fun found => by cases found)
    have first := List.mem_of_getElem? found
    rw [List.mem_singleton.mp first, other] at own
    cases own

/-- A key as the editor writes it. -/
def KeyLike (j : Key) : Prop := j.toList ≠ [] ∧ ∀ c ∈ j.toList, isKeyChar c = true ∧ c.toUpper = c

instance (j : Key) : Decidable (KeyLike j) := inferInstanceAs (Decidable (_ ∧ _))

theorem assignment?_assign (hj : KeyLike j) (v : List Char) :
    assignment? (j.toList ++ '=' :: v) = some (j, plainValue v) ∧ isComment (j.toList ++ '=' :: v) = false := by
  obtain ⟨nonempty, chars⟩ := hj
  obtain ⟨c, rest, text⟩ := List.exists_cons_of_ne_nil nonempty
  have visible : isSpace c = false := by
    cases blank : isSpace c with
    | false => rfl
    | true =>
      have key := (chars c (text ▸ List.mem_cons_self)).1
      exact absurd ((not_alphanum_of_isSpace blank).symm.trans key) (by decide)
  have lead : lstrip (j.toList ++ '=' :: v) = j.toList ++ '=' :: v := by
    rw [text, List.cons_append, lstrip, List.dropWhile_cons, visible]
    rfl
  have active : isComment (j.toList ++ '=' :: v) = false := by
    rw [isComment, lead, text]
    apply decide_eq_false
    intro hash
    cases hash
    exact absurd (chars '#' (text ▸ List.mem_cons_self)).1 (by decide)
  have all : ∀ c ∈ j.toList, isKeyChar c = true := fun c hc => (chars c hc).1
  have taken : (j.toList ++ '=' :: v).takeWhile isKeyChar = j.toList := by
    rw [List.takeWhile_append_of_pos all]
    have stop : ('=' :: v).takeWhile isKeyChar = [] := rfl
    rw [stop, List.append_nil]
  have left : (j.toList ++ '=' :: v).dropWhile isKeyChar = '=' :: v := by
    rw [List.dropWhile_append_of_pos all]
    rfl
  have capital : j.toList.map Char.toUpper = j.toList := by
    have same := List.map_congr_left (g := id) fun c hc => (chars c hc).2
    rw [same, List.map_id]
  refine ⟨?_, active⟩
  rw [assignment?, active]
  simp only [lead, taken, left]
  have equals : lstrip ('=' :: v) = '=' :: v := rfl
  rw [equals]
  simp only [nonempty, capital, if_false, String.ofList_toList, Bool.false_eq_true]

theorem isBreak_eq : isBreak '=' = false := rfl

theorem free_assign (hj : KeyLike j) {v : List Char} (hv : ∀ c ∈ v, isBreak c = false) :
    ∀ c ∈ j.toList ++ '=' :: v, isBreak c = false := by
  intro c hc
  rcases List.mem_append.mp hc with key | rest
  · cases broken : isBreak c with
    | false => rfl
    | true =>
      have word := (hj.2 c key).1
      exact absurd ((not_alphanum_of_isSpace (isSpace_of_isBreak broken)).symm.trans word) (by decide)
  · rcases List.mem_cons.mp rest with rfl | value
    · exact isBreak_eq
    · exact hv c value

theorem lookup_erase_ne {k : Key} (other : k ≠ j) : (m.kv.erase j).lookup k = m.kv.lookup k :=
  AList.lookup_erase_ne other

/-- The line of a key is written over. -/
theorem Pointed.set_line (pointed : Pointed m) {i : Nat} {l l' : List Char} {idx : Dict Key Nat}
    (place : m.activeLine j = some (i, l)) (sub : ∀ j i, idx.lookup j = some i → m.keyLineIdx.lookup j = some i)
    (kind : isComment l' = true ∨ ∃ v, assignment? l' = some (j, v)) :
    ∀ j i', idx.lookup j = some i' →
      ∃ l, (m.lines.set i l')[i']? = some l ∧ (isComment l = true ∨ ∃ v, assignment? l = some (j, v)) := by
  obtain ⟨-, at', active⟩ := activeLine_eq_some place
  obtain ⟨length, -⟩ := List.getElem?_eq_some_iff.mp at'
  intro j' i' found
  obtain ⟨old, at'', kind'⟩ := pointed j' i' (sub j' i' found)
  by_cases here : i = i'
  · subst here
    refine ⟨l', by rw [List.getElem?_set_self length], ?_⟩
    -- Two keys can only point at one line if it is a comment, which this one is not.
    obtain ⟨u, own⟩ := pointed.assignment_of_activeLine place
    have same : old = l := Option.some.inj (at''.symm.trans at')
    subst same
    rcases kind' with comment | ⟨u', other⟩
    · exact absurd (active.symm.trans comment) (by decide)
    · have keys : j = j' := congrArg Prod.fst (Option.some.inj (own.symm.trans other))
      rw [← keys]
      exact kind
  · exact ⟨old, by rw [List.getElem?_set_ne here]; exact at'', kind'⟩

theorem set_frame {k : Key} (other : j ≠ k) (key : KeyLike j) (v : List Char) : Frame k m (m.set j v) := by
  obtain ⟨assigned, -⟩ := assignment?_assign key v
  have silent : valueOf k (j.toList ++ '=' :: v) = none := valueOf_eq_none_of_other assigned other
  have lookup : (m.kv.insert j v).lookup k = m.kv.lookup k := AList.lookup_insert_ne (Ne.symm other)
  unfold IfcfgKV.set
  simp only
  split
  · rename_i i l found
    have place : m.activeLine j = some (i, l) := by
      split at found
      · cases found
      · exact found
    refine ⟨fun pointed => ?_, fun pointed i' l' own => ?_, lookup, rfl⟩
    · exact pointed.set_line place (fun _ _ => id) (.inr ⟨plainValue v, assigned⟩)
    · obtain ⟨u, own'⟩ := pointed.assignment_of_activeLine place
      exact getElem?_set_iff (activeLine_eq_some place).2.1 (valueOf_eq_none_of_other own' other) silent own i'
  · refine ⟨fun pointed => ?_, fun _ i' l' own => getElem?_concat_iff silent own i', lookup,
      AList.lookup_insert_ne (Ne.symm other)⟩
    intro j' i' found'
    by_cases same : j' = j
    · subst same
      rw [AList.lookup_insert, Option.some.injEq] at found'
      subst found'
      exact ⟨_, List.getElem?_concat_length, .inr ⟨plainValue v, assigned⟩⟩
    · rw [AList.lookup_insert_ne same] at found'
      obtain ⟨l', at', kind⟩ := pointed j' i' found'
      obtain ⟨length, -⟩ := List.getElem?_eq_some_iff.mp at'
      exact ⟨l', by rw [List.getElem?_append_left length]; exact at', kind⟩

theorem mem_lines_set {v l : List Char} (h : l ∈ (m.set j v).lines) : l ∈ m.lines ∨ l = j.toList ++ '=' :: v := by
  unfold IfcfgKV.set at h
  simp only at h
  split at h
  · exact List.mem_or_eq_of_mem_set h
  · exact (List.mem_append.mp h).imp_right List.mem_singleton.mp

/-- A comment in the place of a line. -/
theorem free_commentOut {l : List Char} {tag : String} (hl : ∀ c ∈ l, isBreak c = false)
    (ht : ∀ c ∈ tag.toList, isBreak c = false) : ∀ c ∈ commentOut l tag, isBreak c = false := by
  have ends : ∀ c ∈ "# ".toList ++ "  # ".toList, isBreak c = false := by decide
  intro c hc
  simp only [commentOut, List.mem_append] at hc
  rcases hc with ((lead | old) | mid) | last
  · exact ends c (List.mem_append_left _ lead)
  · exact hl c old
  · exact ends c (List.mem_append_right _ mid)
  · exact ht c last

theorem commentOutKey_frame {k : Key} (other : j ≠ k) (tag : String) : Frame k m (m.commentOutKey j tag) := by
  have index {j' : Key} {i' : Nat} (h : (m.keyLineIdx.erase j).lookup j' = some i') : m.keyLineIdx.lookup j' = some i' := by
    by_cases same : j' = j
    · subst same
      rw [AList.lookup_erase] at h
      cases h
    · rwa [AList.lookup_erase_ne same] at h
  have place' : (m.keyLineIdx.erase j).lookup k = m.keyLineIdx.lookup k := AList.lookup_erase_ne (Ne.symm other)
  unfold IfcfgKV.commentOutKey
  cases place : m.activeLine j with
  | none =>
    refine ⟨fun pointed => ?_, fun _ _ _ _ => Iff.rfl, lookup_erase_ne (Ne.symm other), place'⟩
    exact fun j' i' found => pointed j' i' (index found)
  | some found =>
    obtain ⟨i, l⟩ := found
    refine ⟨fun pointed => ?_, fun pointed i' l' own => ?_, lookup_erase_ne (Ne.symm other), place'⟩
    · exact pointed.set_line place (fun _ _ => index) (.inl (isComment_commentOut l tag))
    · obtain ⟨u, own'⟩ := pointed.assignment_of_activeLine place
      exact getElem?_set_iff (activeLine_eq_some place).2.1 (valueOf_eq_none_of_other own' other)
        (valueOf_commentOut k l tag) own i'

theorem mem_lines_commentOutKey {tag : String} {l : List Char} (h : l ∈ (m.commentOutKey j tag).lines) :
    l ∈ m.lines ∨ ∃ l' ∈ m.lines, l = commentOut l' tag := by
  unfold IfcfgKV.commentOutKey at h
  simp only at h
  split at h
  · rename_i i line place
    obtain ⟨-, at', -⟩ := activeLine_eq_some place
    rcases List.mem_or_eq_of_mem_set h with old | new
    · exact .inl old
    · exact .inr ⟨line, List.mem_of_getElem? at', new⟩
  · exact .inl h

/-- `m'` comes from `m` by setting and commenting out some of `keys`, and no line break is brought in. -/
inductive Rewritten (keys : List Key) (m : IfcfgKV) : IfcfgKV → Prop where
  | refl : Rewritten keys m m
  | set {m' : IfcfgKV} {j : Key} {v : List Char} (mem : j ∈ keys) (key : KeyLike j) (free : ∀ c ∈ v, isBreak c = false)
      (h : Rewritten keys m m') : Rewritten keys m (m'.set j v)
  | commentOut {m' : IfcfgKV} {j : Key} {tag : String} (mem : j ∈ keys) (free : ∀ c ∈ tag.toList, isBreak c = false)
      (h : Rewritten keys m m') : Rewritten keys m (m'.commentOutKey j tag)

namespace Rewritten

variable {keys keys' : List Key} {m' m'' : IfcfgKV}

theorem frame (h : Rewritten keys m m') {k : Key} (other : k ∉ keys) : Frame k m m' := by
  induction h with
  | refl => exact .refl k m
  | set mem key _ _ ih => exact ih.trans (set_frame (ne_of_mem_of_not_mem mem other) key _)
  | commentOut mem _ _ ih => exact ih.trans (commentOutKey_frame (ne_of_mem_of_not_mem mem other) _)

theorem free (h : Rewritten keys m m') (old : ∀ l ∈ m.lines, ∀ c ∈ l, isBreak c = false) :
    ∀ l ∈ m'.lines, ∀ c ∈ l, isBreak c = false := by
  induction h with
  | refl => exact old
  | set _ key free _ ih =>
    intro l hl
    rcases mem_lines_set hl with kept | rfl
    · exact ih l kept
    · exact free_assign key free
  | commentOut _ free _ ih =>
    intro l hl
    rcases mem_lines_commentOutKey hl with kept | ⟨l', hl', rfl⟩
    · exact ih l kept
    · exact free_commentOut (ih l' hl') free

theorem trans (h : Rewritten keys m m') (h' : Rewritten keys' m' m'') (sub : ∀ k ∈ keys', k ∈ keys) :
    Rewritten keys m m'' := by
  induction h' with
  | refl => exact h
  | set mem key free _ ih => exact .set (sub _ mem) key free ih
  | commentOut mem free _ ih => exact .commentOut (sub _ mem) free ih

/-- A step that is made of calls on other keys leaves the protected ones alone. -/
theorem step (h : Rewritten keys m m') (apart : ∀ k ∈ protectedKeys, k ∉ keys) : Step m m' where
  good good := by
    have other : "IPADDR" ∉ keys := apart "IPADDR" (by decide)
    exact ⟨(h.frame other).pointed good.index, h.free good.free⟩
  lines good k hk := keyLines_eq_of_places ((h.frame (apart k hk)).lines good.index)
  lookup k hk := (h.frame (apart k hk)).lookup

end Rewritten

end edits

section steps

variable {fixer : LineFixer} {dev : List Char}

theorem dropDevice_rewritten (hd : ∀ c ∈ dev, isBreak c = false) (p : Pass) :
    Rewritten ["DEVICE", "TYPE", "NAME"] p.1 (dropDevice dev p).1 := by
  have tag : ∀ c ∈ ("VMware NIC name (" ++ vmwareTag dev ++ ") removed by h2kvm").toList, isBreak c = false := by
    unfold vmwareTag
    split
    · decide
    · decide
  have name : ∀ c ∈ "Migrated (".toList ++ dev ++ ")".toList, isBreak c = false := by
    intro c hc
    simp only [List.mem_append] at hc
    rcases hc with (lead | old) | last
    · have letters : ∀ c ∈ "Migrated (".toList, isBreak c = false := by decide
      exact letters c lead
    · exact hd c old
    · have letters : ∀ c ∈ ")".toList, isBreak c = false := by decide
      exact letters c last
  let m₁ := p.1.commentOutKey "DEVICE" ("VMware NIC name (" ++ vmwareTag dev ++ ") removed by h2kvm")
  let m₂ := if m₁.has "TYPE" then m₁ else m₁.set "TYPE" "Ethernet".toList
  have first : Rewritten ["DEVICE", "TYPE", "NAME"] p.1 m₁ := .commentOut (by decide) tag .refl
  have second : Rewritten ["DEVICE", "TYPE", "NAME"] p.1 m₂ := by
    simp only [m₂]
    split
    · exact first
    · exact .set (by decide) (by decide) (by decide) first
  have result : (dropDevice dev p).1 = if strip (m₂.get "NAME") = [] ∨ unquoted (m₂.get "NAME") = dev then
      m₂.set "NAME" ("Migrated (".toList ++ dev ++ ")".toList) else m₂ := by
    simp only [dropDevice, m₂, m₁]
    split
    · rfl
    · rfl
  rw [result]
  split
  · exact .set (by decide) (by decide) name second
  · exact second

theorem deleteKey_rewritten (k : Key) {tag : String} (ht : ∀ c ∈ tag.toList, isBreak c = false) (fix : String)
    (p : Pass) : Rewritten [k] p.1 (deleteKey k tag fix p).1 := by
  unfold deleteKey
  split
  · exact .commentOut (by simp) ht .refl
  · exact .refl

theorem deleteKeys_rewritten (keys : List (Key × String)) (p : Pass) :
    Rewritten (keys.map Prod.fst) p.1 (keys.foldl (fun p (k, small) =>
      deleteKey k "MAC pinning removed by h2kvm" ("removed-mac-pinning-" ++ small) p) p).1 := by
  apply List.foldlRecOn keys _ (motive := fun q : Pass => Rewritten (keys.map Prod.fst) p.1 q.1)
  · exact .refl
  · intro q ih k hk
    exact ih.trans (deleteKey_rewritten k.1 (by decide) _ q) (by simpa using ⟨k.2, hk⟩)

theorem dropMacs_rewritten (p : Pass) : Rewritten (macKeys.map Prod.fst) p.1 (dropMacs p).1 :=
  deleteKeys_rewritten macKeys p

theorem activate_eq (isVmwareNic : Bool) (p : Pass) :
    ∃ q : Pass, Rewritten ["ONBOOT", "NM_CONTROLLED"] p.1 q.1 ∧
      activate isVmwareNic p = deleteKey "UUID" "stale UUID removed by h2kvm" "removed-uuid" q := by
  unfold activate
  simp only
  split
  · split
    · refine ⟨_, ?_, rfl⟩
      exact .set (by decide) (by decide) (by decide) (.set (by decide) (by decide) (by decide) .refl)
    · refine ⟨_, ?_, rfl⟩
      exact .set (by decide) (by decide) (by decide) .refl
  · split
    · refine ⟨_, ?_, rfl⟩
      exact .set (by decide) (by decide) (by decide) .refl
    · exact ⟨_, .refl, rfl⟩

theorem activate_rewritten (isVmwareNic : Bool) (p : Pass) :
    Rewritten ["ONBOOT", "NM_CONTROLLED", "UUID"] p.1 (activate isVmwareNic p).1 := by
  obtain ⟨q, first, result⟩ := activate_eq isVmwareNic p
  rw [result]
  have whole : Rewritten ["ONBOOT", "NM_CONTROLLED", "UUID"] p.1 q.1 := .trans .refl first (by decide)
  exact whole.trans (deleteKey_rewritten "UUID" (by decide) _ q) (by decide)

/-- A pass that comments lines out. -/
theorem eachLine_good {fix : List Char → List Char × List String} {p : Pass} (good : Good p.1)
    (kind : ∀ l, (fix l).1 = l ∨ ∃ tag, (fix l).1 = commentOut l tag ∧ ∀ c ∈ tag.toList, isBreak c = false) :
    Good (eachLine fix p).1 := by
  refine ⟨?_, ?_⟩
  · intro j i found
    obtain ⟨l, at', active⟩ := good.index j i found
    refine ⟨(fix l).1, by simp only [eachLine, List.getElem?_map, at', Option.map_some], ?_⟩
    rcases kind l with same | ⟨tag, struck, -⟩
    · rw [same]
      exact active
    · rw [struck]
      exact .inl (isComment_commentOut _ _)
  · intro l' hl'
    obtain ⟨l, hl, rfl⟩ := List.mem_map.mp hl'
    rcases kind l with same | ⟨tag, struck, free⟩
    · rw [same]
      exact good.free l hl
    · rw [struck]
      exact free_commentOut (good.free l hl) free

theorem eachLine_step {fix : List Char → List Char × List String}
    (kind : ∀ l, (fix l).1 = l ∨ ∃ tag, (fix l).1 = commentOut l tag ∧ (∀ c ∈ tag.toList, isBreak c = false) ∧
      ∀ k ∈ protectedKeys, valueOf k l = none) (p : Pass) : Step p.1 (eachLine fix p).1 where
  good good := eachLine_good good fun l => (kind l).imp_right fun ⟨tag, struck, free, _⟩ => ⟨tag, struck, free⟩
  lines good k hk := by
    show keyLines k (p.1.lines.map fun l => (fix l).1) = keyLines k p.1.lines
    induction p.1.lines with
    | nil => rfl
    | cons l lines ih =>
      rw [List.map_cons, keyLines_cons, keyLines_cons, ih]
      rcases kind l with same | ⟨tag, struck, -, silent⟩
      · rw [same]
      · rw [struck, valueOf_commentOut, silent k hk]
        rfl
  lookup _ _ := rfl

theorem foldCase_of_isKeyChar {c : Char} (h : isKeyChar c = true) : foldCase c = c.toLower := by
  have special : ∀ d ∈ ['\u0130', '\u0131', '\u017f', '\u212a'], isKeyChar d = false := by decide
  have apart (d : Char) (hd : d ∈ ['\u0130', '\u0131', '\u017f', '\u212a']) : c ≠ d := by
    intro same
    exact absurd (h.symm.trans (same ▸ special d hd)) (by decide)
  rw [foldCase, if_neg (not_or.mpr ⟨apart _ (by decide), apart _ (by decide)⟩), if_neg (apart _ (by decide)),
    if_neg (apart _ (by decide))]

theorem toLower_toUpper_of_isKeyChar {c : Char} (h : isKeyChar c = true) : c.toUpper.toLower = c.toLower := by
  have ascii : c.toNat < 128 := by
    rcases Bool.or_eq_true_iff.mp h with word | underscore
    · simp only [Char.isAlphanum, Char.isAlpha, Char.isUpper, Char.isLower, Char.isDigit, Bool.or_eq_true,
        Bool.and_eq_true, decide_eq_true_eq, UInt32.le_iff_toNat_le, ge_iff_le] at word
      have number : c.toNat = c.val.toNat := rfl
      have z : 'z'.val.toNat = 122 := rfl
      have Z : 'Z'.val.toNat = 90 := rfl
      have nine : '9'.val.toNat = 57 := rfl
      omega
    · rw [of_decide_eq_true underscore]
      decide
  have table : ∀ n < 128, (Char.ofNat n).toUpper.toLower = (Char.ofNat n).toLower := by decide +kernel
  have entry := table c.toNat ascii
  rwa [Char.ofNat_toNat] at entry

theorem head_of_assignment {k : Key} {l v : List Char} (h : assignment? l = some (k, v)) :
    ∃ d, (lstrip l).head? = some d ∧ k.toList.head? = some d.toUpper ∧ isKeyChar d = true := by
  unfold assignment? at h
  split at h
  · cases h
  · simp only at h
    split at h
    · split at h
      · cases h
      · rename_i nonempty
        cases h
        cases text : lstrip l with
        | nil =>
          rw [text] at nonempty
          exact absurd rfl nonempty
        | cons d rest =>
          rw [text, List.takeWhile_cons] at nonempty
          split at nonempty
          · rename_i key
            refine ⟨d, rfl, ?_, key⟩
            rw [String.toList_ofList, List.takeWhile_cons, if_pos key]
            rfl
          · exact absurd rfl nonempty
    · cases h

theorem valueOf_eq_none_of_keyed {key l : List Char} {c : Char} (hk : key.head? = some c)
    (h : (keyed key l).isSome = true) {k : Key} (apart : ∀ d, k.toList.head? = some d → d.toLower ≠ c) :
    valueOf k l = none := by
  cases given : assignment? l with
  | none => rw [valueOf, given]
  | some a =>
    obtain ⟨j, v⟩ := a
    by_cases same : j = k
    · obtain ⟨d, first, fold⟩ := head_of_keyed hk h
      obtain ⟨d', first', upper, word⟩ := head_of_assignment given
      have one : d = d' := Option.some.inj (first.symm.trans first')
      rw [one, foldCase_of_isKeyChar word] at fold
      rw [same] at upper
      exact absurd ((toLower_toUpper_of_isKeyChar word).trans fold) (apart _ upper)
    · exact valueOf_eq_none_of_other given same

theorem strikeToken_cases (fixer : LineFixer) (l : List Char) :
    (strikeToken fixer l).1 = l ∨ ∃ tag, (strikeToken fixer l).1 = commentOut l tag ∧ (∀ c ∈ tag.toList, isBreak c = false) ∧
      ∀ k : Key, (∀ c ∈ ['d', 't', 'e', 'o'], k.toList.head?.map Char.toLower ≠ some c) → valueOf k l = none := by
  unfold strikeToken
  split
  · exact .inl rfl
  · split
    · rename_i hit
      refine .inr ⟨_, rfl, by decide, ?_⟩
      intro k differ
      obtain ⟨key, mem, found⟩ := List.any_eq_true.mp (Bool.and_eq_true_iff.mp hit).1
      have heads : ∀ key ∈ ["device", "type", "ethtool_opts", "options", "driver"], ∃ c ∈ ['d', 't', 'e', 'o'],
          key.toList.head? = some c := by simp
      obtain ⟨c, hc, head⟩ := heads key mem
      apply valueOf_eq_none_of_keyed head found
      intro d hd same
      exact differ c hc (by rw [hd, Option.map_some, same])
    · exact .inl rfl

theorem strikeToken_step (p : Pass) : Step p.1 (eachLine (strikeToken fixer) p).1 := by
  have differ : ∀ k ∈ protectedKeys, ∀ c ∈ ['d', 't', 'e', 'o'], k.toList.head?.map Char.toLower ≠ some c := by
    decide
  apply eachLine_step
  intro l
  rcases strikeToken_cases fixer l with same | ⟨tag, struck, free, silent⟩
  · exact .inl same
  · exact .inr ⟨tag, struck, free, fun k hk => silent k (differ k hk)⟩

theorem keyLines_strikeParams (k : Key) (lines : List (List Char)) :
    keyLines k (lines.map fun l => (strikeParams l).1) = (keyLines k lines).filter keeps := by
  induction lines with
  | nil => rfl
  | cons l lines ih =>
    rw [List.map_cons, keyLines_cons, keyLines_cons, ih]
    unfold strikeParams
    split
    · rename_i struck
      have gone : keeps l = false := by
        rw [keeps, decide_eq_false struck.1, Bool.false_or]
        simpa using struck.2
      rw [valueOf_commentOut]
      show (keyLines k lines).filter keeps = _
      cases valueOf k l with
      | none => rfl
      | some v =>
        rw [Option.isSome_some, if_pos rfl, List.filter_cons, gone]
        rfl
    · rename_i spared
      have stays : keeps l = true := by
        by_contra gone
        rw [keeps, Bool.or_eq_true, not_or] at gone
        exact spared ⟨mt decide_eq_true gone.1, by simpa using gone.2⟩
      split
      · rw [List.filter_cons, stays]
        rfl
      · rfl

theorem renameKey_step (plain : PlainNames fixer) {k : Key} (hk : k ∉ protectedKeys) (key : KeyLike k) (fix : String)
    (name : List Char) (p : Pass) : Step p.1 (renameKey fixer.renameMap k fix name p).1 := by
  unfold renameKey
  split
  · exact .refl _
  · rename_i new found
    split at found
    · cases found
    · have written : Rewritten [k] p.1 (p.1.set k new.toList) := .set (by simp) key (plain _ new found) .refl
      exact written.step fun j hj same => hk (List.mem_singleton.mp same ▸ hj)

theorem renamed_step (plain : PlainNames fixer) (p : Pass) : Step p.1 (renamed fixer dev p).1 := by
  unfold renamed
  split
  · unfold renames
    simp only
    have key (k : Key) (hk : k ∉ protectedKeys) (like : KeyLike k) (fix : String) (name : List Char) (q : Pass) :
        Step q.1 (renameKey fixer.renameMap k fix name q).1 := renameKey_step plain hk like fix name q
    refine Step.trans ?_ (key "BRIDGE" (by decide) (by decide) _ _ _)
    refine Step.trans ?_ (key "MASTER" (by decide) (by decide) _ _ _)
    refine Step.trans ?_ (key "PHYSDEV" (by decide) (by decide) _ _ _)
    refine Step.trans ?_ (key "NAME" (by decide) (by decide) _ _ _)
    split
    · exact .refl _
    · exact key "DEVICE" (by decide) (by decide) _ _ _
  · exact .refl _

end steps

section file

variable {fixer : LineFixer} {content : List Char}

theorem good_parseFrom (pre lines : List (List Char)) (m : IfcfgKV) (whole : m.lines = pre ++ lines) (good : Good m) :
    Good (m.parseFrom pre.length lines) := by
  induction lines generalizing pre m with
  | nil => exact good
  | cons line lines ih =>
    have next : (m.parseLine pre.length line).lines = (pre ++ [line]) ++ lines := by
      unfold IfcfgKV.parseLine
      split
      · rw [whole]
        simp
      · simp [whole]
    have good' : Good (m.parseLine pre.length line) := by
      unfold IfcfgKV.parseLine
      split
      · exact good
      · rename_i key value found
        refine ⟨?_, good.free⟩
        intro j i at'
        by_cases same : j = key
        · subst same
          rw [AList.lookup_insert, Option.some.injEq] at at'
          subst at'
          refine ⟨line, ?_, .inr ⟨value, found⟩⟩
          show m.lines[pre.length]? = some line
          rw [whole]
          simp
        · rw [AList.lookup_insert_ne same] at at'
          exact good.index j i at'
    have length : pre.length + 1 = (pre ++ [line]).length := by simp
    rw [IfcfgKV.parseFrom, length]
    exact ih (pre ++ [line]) _ next good'

theorem good_parse (content : List Char) : Good (IfcfgKV.parse content) := by
  apply good_parseFrom [] (splitlines content) _ rfl
  exact ⟨fun j i found => absurd found (by simp), fun l hl => mem_splitlines hl⟩

theorem lines_parseFrom (lines : List (List Char)) (m : IfcfgKV) (i : Nat) : (m.parseFrom i lines).lines = m.lines := by
  induction lines generalizing m i with
  | nil => rfl
  | cons line lines ih =>
    rw [IfcfgKV.parseFrom, ih]
    unfold IfcfgKV.parseLine
    split
    · rfl
    · rfl

/-- What is written reads as the lines do, save for an empty line at the end. -/
theorem splitlines_render {m : IfcfgKV} (free : ∀ l ∈ m.lines, ∀ c ∈ l, isBreak c = false) :
    splitlines m.render = m.lines ∨ m.lines = splitlines m.render ++ [[]] ∨ splitlines m.render = m.lines ++ [[]] := by
  by_cases empty : m.lines = []
  · have out : joinLines m.lines = [] := by
      rw [empty]
      rfl
    have text : m.render = ['\n'] := by
      simp only [IfcfgKV.render, out]
      rfl
    rw [text, empty]
    exact .inr (.inr rfl)
  unfold IfcfgKV.render
  simp only
  split
  · rename_i ended
    -- Only an empty last line ends in the newline before it.
    obtain ⟨init, last, split⟩ : ∃ init last, m.lines = init ++ [last] :=
      ⟨_, _, (List.dropLast_append_getLast empty).symm⟩
    rw [split] at ended free ⊢
    have whole (h : last.getLast? = some '\n') : False := by
      have newline := free last (List.mem_append_right _ List.mem_cons_self) '\n' (List.mem_of_getLast? h)
      exact absurd newline (by decide)
    by_cases only : init = []
    · subst only
      have alone : joinLines ([] ++ [last]) = last := by simp [joinLines, join, List.intercalate]
      rw [alone] at ended
      exact (whole ended).elim
    · have text : joinLines (init ++ [last]) = joinLines init ++ (['\n'] ++ last) := join_concat only
      by_cases none : last = []
      · subst none
        have read : splitlines (joinLines (init ++ [[]])) = init := by
          rw [text, List.append_nil]
          exact splitlines_join only fun l hl => free l (List.mem_append_left _ hl)
        rw [read]
        exact .inr (.inl rfl)
      · rw [text, ← List.append_assoc, List.getLast?_append_of_ne_nil _ none] at ended
        exact (whole ended).elim
  · exact .inl (splitlines_join empty free)

theorem valueIn_append_blank (k : Key) (lines : List (List Char)) : valueIn k (lines ++ [[]]) = valueIn k lines := by
  have blank : valueOf k [] = none := rfl
  simp [valueIn, blank]

theorem valueIn_render (k : Key) {m : IfcfgKV} (free : ∀ l ∈ m.lines, ∀ c ∈ l, isBreak c = false) :
    valueIn k (splitlines m.render) = valueIn k m.lines := by
  rcases splitlines_render free with same | shorter | longer
  · rw [same]
  · rw [shorter, valueIn_append_blank]
  · rw [longer, valueIn_append_blank]

theorem subset_beforeHash (s : List Char) : ∀ c ∈ beforeHash s, c ∈ s := by
  induction s with
  | nil => exact fun c hc => hc
  | cons d s ih =>
    intro c hc
    rw [beforeHash] at hc
    split at hc
    · cases hc
    · rcases List.mem_cons.mp hc with rfl | rest
      · exact List.mem_cons_self
      · exact List.mem_cons_of_mem _ (ih c rest)

theorem subset_plainValue (s : List Char) : ∀ c ∈ plainValue s, c ∈ s := by
  intro c hc
  unfold plainValue at hc
  simp only at hc
  split at hc
  · exact subset_strip s c (List.mem_of_mem_drop (List.mem_of_mem_dropLast hc))
  · have cut := (List.rdropWhile_prefix isSpace (beforeHash (strip s))).subset hc
    exact subset_strip s c (subset_beforeHash _ c cut)

theorem subset_valueOf {k : Key} {l v : List Char} (h : valueOf k l = some v) : ∀ c ∈ v, c ∈ l := by
  intro c hc
  unfold valueOf at h
  split at h
  · rename_i key value found
    split at h
    · cases h
      unfold assignment? at found
      split at found
      · cases found
      · simp only at found
        split at found
        · rename_i text rest
          split at found
          · cases found
          · cases found
            have inner : c ∈ lstrip ((lstrip l).dropWhile isKeyChar) :=
              rest ▸ List.mem_cons_of_mem _ (subset_plainValue _ c hc)
            have body := (List.dropWhile_sublist isSpace).subset inner
            exact (List.dropWhile_sublist isSpace).subset ((List.dropWhile_sublist isKeyChar).subset body)
        · cases found
    · cases h
  · cases h

theorem free_device (content : List Char) :
    ∀ c ∈ strip ((IfcfgKV.parse content).get "DEVICE"), isBreak c = false := by
  intro c hc
  have inside := subset_strip _ c hc
  rw [IfcfgKV.get, lookup_parse] at inside
  cases value : valueIn "DEVICE" (splitlines content) with
  | none =>
    rw [value] at inside
    cases inside
  | some v =>
    rw [value] at inside
    obtain ⟨l, hl, given⟩ := List.mem_filterMap.mp (List.mem_of_getLast? value)
    exact mem_splitlines hl c (subset_valueOf given c inside)

/-- What the cleaning leaves of the protected keys. -/
theorem cleaned_spec (fixer : LineFixer) {m : IfcfgKV} (good : Good m) {dev : List Char} (hd : ∀ c ∈ dev, isBreak c = false) :
    Good (cleaned fixer dev m).1 ∧ ∀ k ∈ protectedKeys,
      keyLines k (cleaned fixer dev m).1.lines = (keyLines k m.lines).filter keeps ∧
        (cleaned fixer dev m).1.kv.lookup k = m.kv.lookup k := by
  let isVmwareNic := fixer.level.atLeastModerate && isVmwareName dev
  let p₁ : Pass := if isVmwareNic then dropDevice dev (m, []) else (m, [])
  let p₂ : Pass := if fixer.level.atLeastModerate then activate isVmwareNic (dropMacs p₁) else p₁
  let p₃ : Pass := eachLine (strikeToken fixer) p₂
  have first : Step m p₁.1 := by
    simp only [p₁]
    split
    · exact (dropDevice_rewritten hd (m, [])).step (by decide)
    · exact .refl _
  have second : Step p₁.1 p₂.1 := by
    simp only [p₂]
    split
    · exact ((dropMacs_rewritten p₁).step (by decide)).trans ((activate_rewritten _ _).step (by decide))
    · exact .refl _
  have third : Step m p₃.1 := (first.trans second).trans (strikeToken_step p₂)
  have result : cleaned fixer dev m = eachLine strikeParams p₃ := rfl
  rw [result]
  refine ⟨?_, ?_⟩
  · apply eachLine_good (third.good good)
    intro l
    unfold strikeParams
    split
    · exact .inr ⟨_, rfl, by decide⟩
    · exact .inl rfl
  · intro k hk
    refine ⟨?_, third.lookup k hk⟩
    show keyLines k (p₃.1.lines.map fun l => (strikeParams l).1) = _
    rw [keyLines_strikeParams, third.lines good k hk]

theorem normalizeBootproto_of_static {level : FixLevel} {p : Pass} (static : hasStaticIntent p.1 = true)
    (isLowerMember isEthernet : Bool) : normalizeBootproto level isLowerMember isEthernet p = p := by
  simp only [normalizeBootproto, static, Bool.not_true, Bool.false_and, Bool.false_eq_true, if_false, and_false,
    false_and, ite_self]

theorem hasStaticIntent_of_lookup {m : IfcfgKV} {k : Key} (hk : k ∈ addressKeys) (h : (m.kv.lookup k).isSome = true) :
    hasStaticIntent m = true := by
  have sub : ∀ k ∈ addressKeys,
      k ∈ ["IPADDR", "IPADDR0", "PREFIX", "NETMASK", "GATEWAY", "DNS1", "DNS2", "IPV6ADDR", "IPV6_DEFAULTGW"] := by decide
  rw [hasStaticIntent, List.any_eq_true.mpr ⟨k, sub k hk, h⟩, Bool.true_or, Bool.true_or]

theorem valueIn_fixIfcfgRh (plain : PlainNames fixer) (topo : Option TopologyGraph) (path : String)
    (device : strip ((IfcfgKV.parse content).get "DEVICE") ≠ [])
    (static : ∃ k ∈ addressKeys, (valueIn k (splitlines content)).isSome = true) {k : Key} (hk : k ∈ protectedKeys) :
    valueIn k (splitlines (fixIfcfgRh fixer topo path content).newContent) = valueIn k ((splitlines content).filter keeps) := by
  let m := IfcfgKV.parse content
  let dev := strip (m.get "DEVICE")
  let q := renamed fixer dev (cleaned fixer dev m)
  obtain ⟨good, spec⟩ := cleaned_spec fixer (good_parse content) (free_device content)
  have step : Step (cleaned fixer dev m).1 q.1 := renamed_step plain _
  have intent : hasStaticIntent q.1 = true := by
    obtain ⟨j, hj, found⟩ := static
    have sub : ∀ k ∈ addressKeys, k ∈ protectedKeys := by decide
    apply hasStaticIntent_of_lookup hj
    rw [step.lookup j (sub j hj), (spec j (sub j hj)).2, lookup_parse]
    exact found
  have result : (fixIfcfgRh fixer topo path content).newContent = q.1.render := by
    unfold fixIfcfgRh
    simp only [if_neg device]
    rw [normalizeBootproto_of_static intent]
  have lines : m.lines = splitlines content := lines_parseFrom _ _ _
  rw [result, valueIn_render k (step.good good).free]
  apply valueIn_eq_of_keyLines
  rw [step.lines good k hk, (spec k hk).1, lines, keyLines, keyLines, List.filter_comm]

end file

theorem staticKept_iff {fixer : LineFixer} (plain : PlainNames fixer) (topo : Option TopologyGraph) (path : String)
    (content : List Char) :
    StaticKept content (fixIfcfgRh fixer topo path content).newContent ↔
      ((∃ k ∈ addressKeys, (valueIn k (splitlines content)).isSome = true) → ¬usesDhcp (splitlines content) →
        strip ((valueIn "DEVICE" (splitlines content)).getD []) ≠ [] → Survives (splitlines content)) := by
  unfold StaticKept
  refine forall₂_congr fun static noDhcp => ?_
  have dev : (IfcfgKV.parse content).get "DEVICE" = (valueIn "DEVICE" (splitlines content)).getD [] := by
    rw [IfcfgKV.get, lookup_parse]
  by_cases device : strip ((IfcfgKV.parse content).get "DEVICE") = []
  · have result : (fixIfcfgRh fixer topo path content).newContent = content := by
      unfold fixIfcfgRh
      simp only [if_pos device]
    rw [result]
    refine iff_of_true ⟨fun _ _ => rfl, noDhcp⟩ ?_
    intro named
    exact absurd (dev ▸ device) named
  · have named : strip ((valueIn "DEVICE" (splitlines content)).getD []) ≠ [] := dev ▸ device
    have sub : ∀ k ∈ addressKeys, k ∈ protectedKeys := by decide
    have same (k : Key) (hk : k ∈ protectedKeys) := valueIn_fixIfcfgRh plain topo path device static hk
    have dhcp : usesDhcp (splitlines (fixIfcfgRh fixer topo path content).newContent) ↔
        usesDhcp ((splitlines content).filter keeps) := by
      rw [usesDhcp, usesDhcp, same "BOOTPROTO" (by decide)]
    rw [imp_iff_right named, Survives, dhcp]
    refine and_congr_left fun _ => forall₂_congr fun k hk => ?_
    rw [same k (sub k hk)]

end H2kvm.Network.Ifcfg
