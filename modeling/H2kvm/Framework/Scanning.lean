import H2kvm.Framework.Lines
import H2kvm.Framework.Utf8

namespace H2kvm.Framework.Text

section scanning

/-- `\s+`, and what follows it. -/
def skipSpaces (s : List Char) : Option (List Char) := if s.head?.any isSpace then some (s.dropWhile isSpace) else none

/-- `(\d+)`, and what follows it. -/
def scanDigits (s : List Char) : Option (List Char × List Char) :=
  if s.takeWhile isDigit = [] then none else some (s.takeWhile isDigit, s.dropWhile isDigit)

/-- `"([^"]*)"`, and what follows it. -/
def scanQuoted : List Char → Option (List Char × List Char)
  | '"' :: s =>
    match s.dropWhile (· ≠ '"') with
    | _ :: rest => some (s.takeWhile (· ≠ '"'), rest)
    | [] => none
  | _ => none

/-- How a file is read as text: a CR, with a LF or without one, ends a line as a LF does. -/
def universalNewlines : List Char → List Char
  | '\r' :: '\n' :: s => '\n' :: universalNewlines s
  | '\r' :: s => '\n' :: universalNewlines s
  | c :: s => c :: universalNewlines s
  | [] => []

/-- Spaces, or nothing. -/
def Blank (gap : List Char) : Prop := ∀ c ∈ gap, isSpace c = true

/-- Some spaces. -/
structure Gap (gap : List Char) : Prop where
  some : gap ≠ []
  blank : Blank gap

/-- A number in digits. -/
structure Numeral (digits : List Char) (n : Nat) : Prop where
  some : digits ≠ []
  all : ∀ c ∈ digits, isDigit c = true
  value : intOf digits = n

/-- What is left of a text starts with a space, or is none. -/
def Ended (rest : List Char) : Prop := ∀ c, rest.head? = some c → isSpace c = true

variable {gap digits name word rest s : List Char} {c : Char} {n : Nat} {p : Char → Bool}

theorem dropWhile_until (all : ∀ c ∈ gap, p c = true) (stop : p c = false) : (gap ++ c :: rest).dropWhile p = c :: rest := by
  rw [List.dropWhile_append_of_pos all, List.dropWhile_cons_of_neg (by rw [stop]; decide)]

theorem takeWhile_until (all : ∀ c ∈ gap, p c = true) (stop : p c = false) : (gap ++ c :: rest).takeWhile p = gap := by
  rw [List.takeWhile_append_of_pos all, List.takeWhile_cons_of_neg (by rw [stop]; decide), List.append_nil]

theorem after_self (word rest : List Char) : after word (word ++ rest) = some rest := by
  rw [after, if_pos (List.prefix_append word rest), List.drop_left]

/-- A text is what is left of it without the spaces around it, between spaces. -/
theorem strip_split (s : List Char) : ∃ lead trail, s = lead ++ (strip s ++ trail) ∧ Blank lead ∧ Blank trail := by
  refine ⟨s.takeWhile isSpace, (lstrip s).rtakeWhile isSpace, ?_, ?_, ?_⟩
  · rw [strip, rstrip, List.rdropWhile_append_rtakeWhile, lstrip, List.takeWhile_append_dropWhile]
  · exact fun c member => List.mem_takeWhile_imp member
  · exact fun c member => List.mem_rtakeWhile_imp member

theorem Gap.ended (spaces : Gap gap) (rest : List Char) : Ended (gap ++ rest) := by
  obtain ⟨d, gap', rfl⟩ := List.exists_cons_of_ne_nil spaces.some
  intro c first
  cases first
  exact spaces.blank _ List.mem_cons_self

theorem skipSpaces_gap (spaces : Gap gap) (visible : isSpace c = false) :
    skipSpaces (gap ++ c :: rest) = some (c :: rest) := by
  obtain ⟨d, gap', rfl⟩ := List.exists_cons_of_ne_nil spaces.some
  have space : isSpace d = true := spaces.blank d List.mem_cons_self
  rw [skipSpaces, List.cons_append, List.head?_cons, Option.any_some, if_pos space, ← List.cons_append,
    dropWhile_until spaces.blank visible]

theorem skipSpaces_word (spaces : Gap gap) (some : word ≠ []) (visible : ∀ c ∈ word, isSpace c = false) :
    skipSpaces (gap ++ (word ++ rest)) = .some (word ++ rest) := by
  obtain ⟨c, word, rfl⟩ := List.exists_cons_of_ne_nil some
  exact skipSpaces_gap spaces (visible c List.mem_cons_self)

theorem head?_of_skipSpaces (skipped : skipSpaces s = some rest) : ∃ c s', s = c :: s' ∧ isSpace c = true := by
  rw [skipSpaces] at skipped
  split at skipped
  · next space =>
    cases s with
    | nil => cases space
    | cons c s => exact ⟨c, s, rfl, space⟩
  · cases skipped

theorem scanDigits_numeral (numeral : Numeral digits n) (stop : ∀ c, rest.head? = some c → isDigit c = false) :
    scanDigits (digits ++ rest) = some (digits, rest) := by
  cases rest with
  | nil =>
    rw [List.append_nil, scanDigits, List.takeWhile_eq_self_iff.mpr numeral.all, if_neg numeral.some,
      List.dropWhile_eq_nil_iff.mpr numeral.all]
  | cons c rest =>
    have stops := stop c rfl
    rw [scanDigits, takeWhile_until numeral.all stops, if_neg numeral.some, dropWhile_until numeral.all stops]

theorem scanQuoted_name (free : '"' ∉ name) : scanQuoted ('"' :: (name ++ '"' :: rest)) = some (name, rest) := by
  have all : ∀ c ∈ name, decide (c ≠ '"') = true := fun c member => decide_eq_true fun same => free (same ▸ member)
  rw [scanQuoted, dropWhile_until all (by decide), takeWhile_until all (by decide)]

theorem scanQuoted_other (other : s.head? ≠ some '"') : scanQuoted s = none := by
  unfold scanQuoted
  split
  · exact absurd rfl other
  · rfl

theorem isSpace_of_isDigit (digit : isDigit c = true) : isSpace c = false := by
  obtain ⟨value, found⟩ := Option.isSome_iff_exists.mp digit
  obtain ⟨origin, first, -⟩ := Option.map_eq_some_iff.mp found
  have apart : ∀ origin ∈ decimalZeros, 0x20 < origin ∧ (origin + 10 ≤ 0x85 ∨ 0xa0 < origin) ∧
      (origin + 10 ≤ 0x1680 ∨ 0x1680 < origin) ∧ (origin + 10 ≤ 0x2000 ∨ 0x205f < origin) ∧
      (origin + 10 ≤ 0x3000 ∨ 0x3000 < origin) := by decide
  have here := apart origin (List.mem_of_find?_eq_some first)
  have range := List.find?_some first
  simp only [Bool.and_eq_true, decide_eq_true_eq] at range
  rw [Bool.eq_false_iff]
  intro space
  simp only [isSpace, Bool.or_eq_true, Bool.and_eq_true, decide_eq_true_eq, beq_iff_eq] at space
  omega

theorem Ended.undigited (ended : Ended rest) : ∀ c, rest.head? = some c → isDigit c = false := by
  intro c first
  rw [Bool.eq_false_iff]
  intro digit
  exact absurd (ended c first) (by rw [isSpace_of_isDigit digit]; decide)

theorem word_unique {word' rest' : List Char} (visible : ∀ c ∈ word, isSpace c = false)
    (visible' : ∀ c ∈ word', isSpace c = false) (ended : Ended rest) (ended' : Ended rest')
    (same : word ++ rest = word' ++ rest') : word = word' := by
  have cut {w r : List Char} (visible : ∀ c ∈ w, isSpace c = false) (ended : Ended r) :
      (w ++ r).takeWhile (fun c => !isSpace c) = w := by
    have all : ∀ c ∈ w, (!isSpace c) = true := fun c member => by rw [visible c member]; rfl
    cases r with
    | nil => rw [List.append_nil, List.takeWhile_eq_self_iff.mpr all]
    | cons c r => exact takeWhile_until all (by rw [ended c rfl]; rfl)
  rw [← cut visible ended, same, cut visible' ended']

theorem mem_join_of_mem {sep part : List Char} {parts : List (List Char)} (listed : part ∈ parts) (member : c ∈ part) :
    c ∈ join sep parts := by
  induction parts with
  | nil => cases listed
  | cons first parts ih =>
    by_cases last : parts = []
    · subst last
      rw [← List.mem_singleton.mp listed, join, List.intercalate_singleton]
      exact member
    · rw [join_cons last]
      rcases List.mem_cons.mp listed with rfl | later
      · exact List.mem_append_left _ member
      · exact List.mem_append_right _ (List.mem_append_right _ (ih later))

/-- Of alternatives of which no other leads anywhere, one is taken. -/
theorem findSome?_only {α β : Type*} {f : α → Option β} {l : List α} {a : α} (member : a ∈ l)
    (others : ∀ b ∈ l, b ≠ a → f b = none) : l.findSome? f = f a := by
  cases found : l.findSome? f with
  | none => exact (List.findSome?_eq_none_iff.mp found a member).symm
  | some b =>
    obtain ⟨x, there, at'⟩ := List.exists_of_findSome?_eq_some found
    by_cases same : x = a
    · rw [← same, at']
    · rw [others x there same] at at'
      cases at'

theorem mem_universalNewlines (member : c ∈ universalNewlines s) : c = '\n' ∨ c ∈ s := by
  fun_induction universalNewlines s with
  | case1 s ih =>
    rcases List.mem_cons.mp member with rfl | rest
    · exact .inl rfl
    · exact (ih rest).imp_right fun there => List.mem_cons_of_mem _ (List.mem_cons_of_mem _ there)
  | case2 s _ ih =>
    rcases List.mem_cons.mp member with rfl | rest
    · exact .inl rfl
    · exact (ih rest).imp_right (List.mem_cons_of_mem _)
  | case3 d s _ _ ih =>
    rcases List.mem_cons.mp member with rfl | rest
    · exact .inr List.mem_cons_self
    · exact (ih rest).imp_right (List.mem_cons_of_mem _)
  | case4 => exact .inr member

theorem mem_universalNewlines_of_ne (other : c ≠ '\r') (member : c ∈ s) : c ∈ universalNewlines s := by
  fun_induction universalNewlines s with
  | case1 s ih =>
    simp only [List.mem_cons, other, false_or] at member ⊢
    exact member.imp_right ih
  | case2 s _ ih =>
    simp only [List.mem_cons, other, false_or] at member ⊢
    exact .inr (ih member)
  | case3 d s _ _ ih =>
    simp only [List.mem_cons] at member ⊢
    exact member.imp_right ih
  | case4 => exact member

section strips

variable {s gap word : List Char} {c : Char}

theorem strip_cons (visible : isSpace c = false) (s : List Char) : ∃ s', strip (c :: s) = c :: s' := by
  have start : lstrip (c :: s) = c :: s := List.dropWhile_cons_of_neg (by rw [visible]; decide)
  rw [strip, start, rstrip]
  clear start
  induction s using List.reverseRecOn with
  | nil => exact ⟨[], List.rdropWhile_concat_neg isSpace [] c (by rw [visible]; decide)⟩
  | append_singleton s d ih =>
    rw [← List.cons_append]
    by_cases space : isSpace d = true
    · rw [List.rdropWhile_concat_pos _ _ _ space]
      exact ih
    · exact ⟨s ++ [d], List.rdropWhile_concat_neg _ _ _ space⟩

/-- What starts and ends with no space is what is left of it between spaces. -/
theorem strip_between {lead trail : List Char} (blank : Blank lead) (blank' : Blank trail) (some : s ≠ [])
    (first : ∀ c, s.head? = .some c → isSpace c = false) (last : ∀ c, s.getLast? = .some c → isSpace c = false) :
    strip (lead ++ (s ++ trail)) = s := by
  have start : lstrip (lead ++ (s ++ trail)) = s ++ trail := by
    obtain ⟨c, cs, rfl⟩ := List.exists_cons_of_ne_nil some
    rw [lstrip, List.dropWhile_append_of_pos blank]
    exact List.dropWhile_cons_of_neg (by rw [first c rfl]; decide)
  rw [strip, start, rstrip]
  clear start
  induction trail using List.reverseRecOn with
  | nil =>
    rw [List.append_nil, List.rdropWhile_eq_self_iff]
    intro _
    rw [last _ (List.getLast?_eq_getLast_of_ne_nil some)]
    decide
  | append_singleton trail d ih =>
    rw [← List.append_assoc, List.rdropWhile_concat_pos _ _ _ (blank' d (by simp))]
    exact ih fun c member => blank' c (List.mem_append_left _ member)

theorem strip_word (some : word ≠ []) (visible : ∀ c ∈ word, isSpace c = false) (spaces : Blank gap) :
    strip (word ++ gap) = word := by
  rw [← List.nil_append (word ++ gap)]
  exact strip_between nofun spaces some (fun c first => visible c (List.mem_of_head? first))
    fun c last => visible c (List.mem_of_getLast? last)

theorem strip_eq_self (some : word ≠ []) (visible : ∀ c ∈ word, isSpace c = false) : strip word = word := by
  have nothing : Blank [] := nofun
  have alone := strip_word some visible nothing
  rwa [List.append_nil] at alone

/-- What is dropped at the end is not before one that is not dropped. -/
theorem rdropWhile_append {p : Char → Bool} (last : ∀ c, word.getLast? = some c → p c = false) (some : word ≠ [])
    (more : List Char) : (word ++ more).rdropWhile p = word ++ more.rdropWhile p := by
  induction more using List.reverseRecOn with
  | nil =>
    rw [List.append_nil, List.rdropWhile_nil, List.append_nil, List.rdropWhile_eq_self_iff]
    intro _
    rw [last _ (List.getLast?_eq_getLast_of_ne_nil some)]
    decide
  | append_singleton more d ih =>
    rw [← List.append_assoc]
    by_cases dropped : p d = true
    · rw [List.rdropWhile_concat_pos _ _ _ dropped, ih, List.rdropWhile_concat_pos _ _ _ dropped]
    · rw [List.rdropWhile_concat_neg _ _ _ dropped, List.rdropWhile_concat_neg _ _ _ dropped, List.append_assoc]

theorem strip_append {lead more : List Char} (blank : Blank lead) (some : word ≠ [])
    (visible : ∀ c ∈ word, isSpace c = false) : strip (lead ++ (word ++ more)) = word ++ rstrip more := by
  have start : lstrip (lead ++ (word ++ more)) = word ++ more := by
    obtain ⟨c, cs, rfl⟩ := List.exists_cons_of_ne_nil some
    rw [lstrip, List.dropWhile_append_of_pos blank]
    exact List.dropWhile_cons_of_neg (by rw [visible c List.mem_cons_self]; decide)
  rw [strip, start]
  exact rdropWhile_append (fun c last => visible c (List.mem_of_getLast? last)) some more

theorem strip_concat (space : isSpace c = true) (s : List Char) : strip (s ++ [c]) = strip s := by
  by_cases blank : ∀ d ∈ s, isSpace d = true
  · have all : ∀ d ∈ s ++ [c], isSpace d = true := by
      intro d member
      rcases List.mem_append.mp member with member | member
      · exact blank d member
      · exact List.mem_singleton.mp member ▸ space
    rw [strip, strip, lstrip, lstrip, List.dropWhile_eq_nil_iff.mpr all, List.dropWhile_eq_nil_iff.mpr blank]
  · have some' : s.dropWhile isSpace ≠ [] := fun none => blank (List.dropWhile_eq_nil_iff.mp none)
    have start : lstrip (s ++ [c]) = lstrip s ++ [c] := by
      rw [lstrip, lstrip, List.dropWhile_append, if_neg (by simpa using some')]
    rw [strip, start, rstrip, List.rdropWhile_concat_pos _ _ _ space]
    rfl

theorem strip_head (first : (strip s).head? = some c) : isSpace c = false := by
  obtain ⟨rest, form⟩ : strip s <+: lstrip s := List.rdropWhile_prefix isSpace (lstrip s)
  cases cut : strip s with
  | nil =>
    rw [cut] at first
    cases first
  | cons d t =>
    rw [cut] at first form
    cases first
    exact isSpace_head_lstrip form.symm

theorem strip_last (last : (strip s).getLast? = some c) : isSpace c = false := by
  have some : strip s ≠ [] := by
    rintro none
    rw [none] at last
    cases last
  have ends : ¬isSpace ((strip s).getLast some) = true := List.rdropWhile_last_not isSpace (lstrip s) some
  rw [List.getLast?_eq_getLast_of_ne_nil some] at last
  rw [Option.some.inj last] at ends
  exact Bool.eq_false_iff.mpr ends

end strips

theorem digit?_of_isDigit {c : Char} (h : c.isDigit = true) : digit? c = some (c.toNat - '0'.toNat) := by
  have range : '0'.toNat ≤ c.toNat ∧ c.toNat < '0'.toNat + 10 := by
    simp only [Char.isDigit, Bool.and_eq_true, decide_eq_true_eq] at h
    obtain ⟨lower, upper⟩ := h
    have lower' : 48 ≤ c.val.toNat := lower
    have upper' : c.val.toNat ≤ 57 := upper
    have zero : '0'.toNat = 48 := rfl
    have value : c.toNat = c.val.toNat := rfl
    omega
  have zero : '0'.toNat = 0x30 := rfl
  have found : ((0x30 : Nat) ≤ c.toNat && decide (c.toNat < 0x30 + 10)) = true := by
    simp only [Bool.and_eq_true, decide_eq_true_eq]
    omega
  have zeros : decimalZeros = 0x30 :: decimalZeros.tail := rfl
  rw [digit?, zeros, List.find?_cons, found]
  rfl

theorem isDigit_toDigits (k : Nat) : ∀ c ∈ Nat.toDigits 10 k, isDigit c = true := by
  intro c member
  have ascii : c.isDigit = true := Nat.isDigit_of_mem_toDigits (by decide) (by decide) member
  rw [isDigit, digit?_of_isDigit ascii]
  rfl

theorem intOf_toDigits (k : Nat) : intOf (Nat.toDigits 10 k) = k := by
  have digits : ∀ c ∈ Nat.toDigits 10 k, c.isDigit = true := fun c member =>
    Nat.isDigit_of_mem_toDigits (by decide) (by decide) member
  have same : intOf (Nat.toDigits 10 k) = Nat.ofDigitChars 10 (Nat.toDigits 10 k) 0 := by
    rw [intOf, Nat.ofDigitChars]
    apply List.foldl_ext
    intro n c member
    rw [digit?_of_isDigit (digits c member)]
    rfl
  rw [same, Nat.ofDigitChars_ten_toDigits]

end scanning

/-!
Lines as a separator ends them; the last one may go without. These are the lines of a file, where `str.splitlines` breaks at
more characters.
-/

end H2kvm.Framework.Text
