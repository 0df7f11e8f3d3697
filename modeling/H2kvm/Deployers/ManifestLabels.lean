import Mathlib
import H2kvm.Deployers.Firmware
import H2kvm.Deployers.NameGaps

namespace H2kvm.Deployers

open Framework Json Text

/-! ### Label values -/

def isLabelChar (c : Char) : Bool := c.isAlphanum || c == '-' || c == '_' || c == '.'

/-- A text that starts with a letter or digit, or is empty, and has only the characters of a label value. -/
structure Worded (s : Name) : Prop where
  chars : ∀ c ∈ s, isLabelChar c = true
  first : ∀ c, s.head? = some c → c.isAlphanum = true

/-- A valid value of a Kubernetes label. -/
structure LabelValue (s : Name) : Prop extends Worded s where
  short : s.length ≤ 63
  last : ∀ c, s.getLast? = some c → c.isAlphanum = true

section texts

variable {s t : Name} {c : Char}

theorem labelValue_nil : LabelValue [] := ⟨⟨nofun, nofun⟩, Nat.zero_le _, nofun⟩

theorem labelValue_literal (right : (s.all isLabelChar && s.head?.all Char.isAlphanum && s.getLast?.all Char.isAlphanum &&
    decide (s.length ≤ 63)) = true) : LabelValue s := by
  simp only [Bool.and_eq_true, List.all_eq_true, decide_eq_true_eq] at right
  obtain ⟨⟨⟨chars, first⟩, last⟩, short⟩ := right
  exact ⟨⟨chars, fun c head => by rwa [head] at first⟩, short, fun c ends => by rwa [ends] at last⟩

theorem isAlphanum_of_isAlphanumeric (alphanumeric : isAlphanumeric c = true) : c.isAlphanum = true := by
  unfold isAlphanumeric at alphanumeric
  simp only [Bool.or_eq_true, Bool.and_eq_true, decide_eq_true_eq] at alphanumeric
  simp only [Char.isAlphanum, Char.isAlpha, Char.isUpper, Char.isLower, Char.isDigit, Bool.or_eq_true, Bool.and_eq_true,
    decide_eq_true_eq]
  rcases alphanumeric with letter | digit
  · exact .inl (.inr letter)
  · exact .inr digit

theorem isLabelChar_of_isNameChar (name : isNameChar c = true) : isLabelChar c = true := by
  unfold isNameChar at name
  simp only [Bool.or_eq_true, beq_iff_eq] at name
  rcases name with (alphanumeric | rfl) | rfl
  · rw [isLabelChar, isAlphanum_of_isAlphanumeric alphanumeric]
    rfl
  · rfl
  · rfl

theorem labelValue_of_slug (slug : Slug s) (short : s.length ≤ 63) : LabelValue s where
  chars c member := isLabelChar_of_isNameChar (slug.chars c member)
  first c first := isAlphanum_of_isAlphanumeric (slug.first c first)
  short := short
  last c last := isAlphanum_of_isAlphanumeric (slug.last c last)

theorem toNat_of_isLabelChar (label : isLabelChar c = true) : c.toNat < 0x80 := by
  simp only [isLabelChar, Char.isAlphanum, Char.isAlpha, Char.isUpper, Char.isLower, Char.isDigit, Bool.or_eq_true,
    Bool.and_eq_true, decide_eq_true_eq, beq_iff_eq] at label
  rcases label with (((((⟨-, upper⟩ | ⟨-, upper⟩) | ⟨-, upper⟩) | rfl) | rfl) | rfl)
  · have most : c.toNat ≤ 0x5a := upper
    omega
  · have most : c.toNat ≤ 0x7a := upper
    omega
  · have most : c.toNat ≤ 0x39 := upper
    omega
  all_goals decide

theorem toLower_of_ascii (ascii : c.toNat < 0x80) : (c.isAlphanum = true → c.toLower.isAlphanum = true) ∧
    (isLabelChar c = true → isLabelChar c.toLower = true) ∧ (isLabelChar c = true → isSpace c.toLower = false) := by
  have all : ∀ n < 0x80, ((Char.ofNat n).isAlphanum = true → (Char.ofNat n).toLower.isAlphanum = true) ∧
      (isLabelChar (Char.ofNat n) = true → isLabelChar (Char.ofNat n).toLower = true) ∧
      (isLabelChar (Char.ofNat n) = true → isSpace (Char.ofNat n).toLower = false) := by decide +kernel
  have here := all c.toNat ascii
  rwa [Char.ofNat_toNat] at here

end texts

/-! ### Variants of the guest -/

section variants

variable {s t distro version like variant : Name} {c : Char}

def LabelChars (s : Name) : Prop := ∀ c ∈ s, isLabelChar c = true

theorem LabelChars.append (first : LabelChars s) (second : LabelChars t) : LabelChars (s ++ t) :=
  List.forall_mem_append.mpr ⟨first, second⟩

theorem LabelChars.worded {word : Name} (chars : LabelChars t)
    (start : (!word.isEmpty && word.all isLabelChar && word.head?.all Char.isAlphanum) = true) :
    Worded (word ++ t) ∧ word ++ t ≠ [] := by
  simp only [Bool.and_eq_true, List.all_eq_true] at start
  obtain ⟨⟨some, all⟩, first⟩ := start
  cases word with
  | nil => cases some
  | cons d word =>
    refine ⟨⟨List.forall_mem_append.mpr ⟨all, chars⟩, ?_⟩, by simp⟩
    rintro c ⟨⟩
    exact first

theorem worded_word {word : Name}
    (start : (!word.isEmpty && word.all isLabelChar && word.head?.all Char.isAlphanum) = true) :
    Worded word ∧ word ≠ [] := by
  have whole := LabelChars.worded (t := []) nofun start
  rwa [List.append_nil] at whole

theorem labelChars_strip (chars : LabelChars s) : LabelChars (strip s) := fun c member =>
  chars c ((isInfix_trim isSpace s).subset member)

theorem labelChars_major (chars : LabelChars s) : LabelChars (major s) := by
  intro c member
  unfold major at member
  cases parts : s.splitOn '.' with
  | nil =>
    rw [parts] at member
    cases member
  | cons part parts' =>
    rw [parts] at member
    have among : part ∈ s.splitOn '.' := by
      rw [parts]
      exact List.mem_cons_self
    exact chars c ((mem_splitOn among).2 c member)

theorem labelChars_minorSuffix (chars : LabelChars s) : LabelChars (minorSuffix s) := by
  intro c member
  unfold minorSuffix at member
  split at member
  · rw [List.getD_eq_getElem?_getD] at member
    cases found : (s.splitOn '.')[1]? with
    | none =>
      rw [found] at member
      rw [List.mem_singleton.mp member]
      rfl
    | some part =>
      rw [found] at member
      have among : part ∈ s.splitOn '.' := List.mem_of_getElem? found
      exact chars c ((mem_splitOn among).2 c member)
  · rw [List.mem_singleton.mp member]
    rfl

theorem worded_lower (worded : Worded s) : Worded (lower s) ∧ strip (lower s) = lower s := by
  have ascii : lower s = s.map Char.toLower := by
    have each : ∀ c ∈ s,
        (if c = '\u0130' then ['i', '\u0307'] else if c = '\u212a' then ['k'] else [c.toLower]) = [c.toLower] := by
      intro c member
      have small := toNat_of_isLabelChar (worded.chars c member)
      rw [if_neg, if_neg]
      all_goals
        rintro rfl
        exact absurd small (by decide)
    rw [lower, List.flatMap_congr each]
    exact List.flatMap_pure_eq_map Char.toLower s
  have chars : ∀ c ∈ lower s, isLabelChar c = true ∧ isSpace c = false := by
    intro c member
    rw [ascii] at member
    obtain ⟨d, inside, rfl⟩ := List.mem_map.mp member
    obtain ⟨-, label, visible⟩ := toLower_of_ascii (toNat_of_isLabelChar (worded.chars d inside))
    exact ⟨label (worded.chars d inside), visible (worded.chars d inside)⟩
  refine ⟨⟨fun c member => (chars c member).1, fun c first => ?_⟩, ?_⟩
  · rw [ascii, List.head?_map] at first
    obtain ⟨d, first', rfl⟩ := Option.map_eq_some_iff.mp first
    have small := toNat_of_isLabelChar (worded.chars d (List.mem_of_mem_head? first'))
    exact (toLower_of_ascii small).1 (worded.first d first')
  · by_cases some : lower s = []
    · rw [some]
      rfl
    · exact strip_eq_self some fun c member => (chars c member).2

/-- A variant, where there is one, that has the characters of a label value. -/
def WordedVariant (found : Option Name) : Prop := ∀ variant, found = some variant → Worded variant ∧ variant ≠ []

theorem wordedVariant_some (worded : Worded s ∧ s ≠ []) : WordedVariant (some s) := by
  rintro variant ⟨⟩
  exact worded

theorem wordedVariant_ite {p : Prop} [Decidable p] {a b : Option Name} (first : WordedVariant a)
    (second : ¬ p → WordedVariant b) : WordedVariant (if p then a else b) := by
  split
  · exact first
  · next other => exact second other

theorem wordedVariant_choice {p : Prop} [Decidable p] {a b : Name} (first : Worded a ∧ a ≠ []) (second : Worded b ∧ b ≠ []) :
    WordedVariant (some (if p then a else b)) := by
  split
  · exact wordedVariant_some first
  · exact wordedVariant_some second

/-- A variant that comes from a distribution and version has the characters of a label value. -/
theorem worded_kubevirtOsVariant (distroWorded : Worded distro) (versionChars : LabelChars version) (like : Name) :
    WordedVariant (kubevirtOsVariant distro version like) := by
  obtain ⟨didWorded, stripped⟩ := worded_lower distroWorded
  have ver : LabelChars (strip version) := labelChars_strip versionChars
  have majors : LabelChars (major (strip version)) := labelChars_major ver
  have minors : LabelChars (['.'] ++ minorSuffix (strip version)) :=
    LabelChars.append (List.forall_mem_singleton.mpr rfl) (labelChars_minorSuffix ver)
  have zero : LabelChars ".0".toList := by
    unfold LabelChars
    decide
  have numbered {word : Name} (start : (!word.isEmpty && word.all isLabelChar && word.head?.all Char.isAlphanum) = true) :
      Worded (word ++ major (strip version) ++ ['.'] ++ minorSuffix (strip version)) ∧
        word ++ major (strip version) ++ ['.'] ++ minorSuffix (strip version) ≠ [] := by
    rw [List.append_assoc, List.append_assoc]
    exact (majors.append minors).worded start
  have zeroed {word : Name} (start : (!word.isEmpty && word.all isLabelChar && word.head?.all Char.isAlphanum) = true) :
      Worded (word ++ major (strip version) ++ ".0".toList) ∧ word ++ major (strip version) ++ ".0".toList ≠ [] := by
    rw [List.append_assoc]
    exact (majors.append zero).worded start
  unfold kubevirtOsVariant
  dsimp only
  rw [stripped]
  refine wordedVariant_ite ?_ fun _ => ?_
  · exact wordedVariant_ite (wordedVariant_some (numbered rfl)) fun _ => wordedVariant_choice (worded_word rfl) (zeroed rfl)
  refine wordedVariant_ite (wordedVariant_choice (numbered rfl) (worded_word rfl)) fun _ => ?_
  refine wordedVariant_ite (wordedVariant_choice (numbered rfl) (worded_word rfl)) fun _ => ?_
  refine wordedVariant_ite ?_ fun _ => ?_
  · refine wordedVariant_ite (wordedVariant_some (worded_word rfl)) fun _ => ?_
    exact wordedVariant_ite (wordedVariant_some (zeroed rfl)) fun _ => wordedVariant_some (worded_word rfl)
  refine wordedVariant_ite (wordedVariant_choice (majors.worded rfl) (worded_word rfl)) fun _ => ?_
  refine wordedVariant_ite (wordedVariant_choice (ver.worded rfl) (worded_word rfl)) fun _ => ?_
  refine wordedVariant_ite (wordedVariant_choice (majors.worded rfl) (worded_word rfl)) fun _ => ?_
  refine wordedVariant_ite (wordedVariant_choice (ver.worded rfl) (worded_word rfl)) fun _ => ?_
  refine wordedVariant_ite (wordedVariant_choice (majors.worded rfl) (worded_word rfl)) fun _ => ?_
  refine wordedVariant_ite (wordedVariant_some (worded_word rfl)) fun _ => ?_
  split
  · next named =>
    refine wordedVariant_choice ⟨⟨LabelChars.append didWorded.chars ?_, fun c first => ?_⟩, ?_⟩
      ⟨didWorded, named⟩
    · exact fun c member => ver c (List.mem_of_mem_filter member)
    · obtain ⟨d, did, split⟩ := List.exists_cons_of_ne_nil named
      rw [split] at first didWorded
      exact didWorded.first c first
    · simp [named]
  · exact nofun

/-- Some letters and digits. -/
def Plain (s : Name) : Prop := s ≠ [] ∧ ∀ c ∈ s, c.isAlphanum = true

theorem Plain.chars (plain : Plain s) : LabelChars s := by
  intro c member
  rw [isLabelChar, plain.2 c member]
  rfl

theorem Plain.last (plain : Plain s) (c : Char) (last : (t ++ s).getLast? = some c) : c.isAlphanum = true := by
  rw [List.getLast?_append] at last
  cases found : s.getLast? with
  | none => exact absurd (List.getLast?_eq_none_iff.mp found) plain.1
  | some d =>
    rw [found] at last
    cases last
    exact plain.2 _ (List.mem_of_getLast? found)

theorem search_suffix {γ : Type} {p : Name → Option γ} {v : γ} (found : search p s = some v) :
    ∃ t, t <:+ s ∧ p t = some v := by
  obtain ⟨t, member, here⟩ := List.exists_of_findSome?_eq_some found
  exact ⟨t, (List.mem_tails t s).mp member, here⟩

theorem skipOne_suffix (chars : List Char) (s : Name) : skipOne chars s <:+ s := by
  unfold skipOne
  split
  · exact List.tail_suffix s
  · exact List.suffix_rfl

theorem after_suffix {word rest : Name} (found : after word s = some rest) : rest <:+ s := by
  unfold after at found
  split at found
  · cases found
    exact List.drop_suffix _ _
  · cases found

/-- Digits of a name that has the form are plain. -/
theorem plain_of_digits (slug : Slug s) (inside : ∀ c ∈ t, c ∈ s ∧ isDigit c = true) (some : t ≠ []) : Plain t := by
  refine ⟨some, fun c member => ?_⟩
  obtain ⟨there, digit⟩ := inside c member
  refine isAlphanum_of_isAlphanumeric (isAlphanumeric_of_isNameChar (slug.chars c there) ?_ ?_) <;>
  · rintro rfl
    cases digit

theorem scanDigits_plain {u rest : Name} (slug : Slug s) (within : u <:+ s)
    (found : scanDigits u = some (t, rest)) : Plain t := by
  unfold scanDigits at found
  split at found
  · cases found
  · next some =>
    cases found
    refine plain_of_digits slug (fun c member => ⟨within.subset ((List.takeWhile_prefix _).subset member), ?_⟩) some
    exact List.mem_takeWhile_imp member

theorem twoDigits_plain {u rest : Name} (slug : Slug s) (within : u <:+ s) (found : twoDigits u = some (t, rest)) :
    Plain t ∧ rest <:+ s := by
  unfold twoDigits at found
  split at found
  · next a b more =>
    split at found
    · next digits =>
      cases found
      rw [Bool.and_eq_true] at digits
      refine ⟨plain_of_digits slug (fun c member => ?_) (by simp), ?_⟩
      · rcases List.mem_cons.mp member with rfl | member
        · exact ⟨within.subset (by simp), digits.1⟩
        · rw [List.mem_singleton.mp member]
          exact ⟨within.subset (by simp), digits.2⟩
      · exact ((List.suffix_cons b _).trans (List.suffix_cons a _)).trans within
    · cases found
  · cases found

theorem numbered_plain {word v : Name} (slug : Slug s) (found : search (numbered word) s = some v) : Plain v := by
  obtain ⟨t, within, here⟩ := search_suffix found
  obtain ⟨rest, read, here⟩ := Option.bind_eq_some_iff.mp here
  obtain ⟨⟨digits, rest'⟩, scanned, rfl⟩ := Option.map_eq_some_iff.mp here
  exact scanDigits_plain slug ((skipOne_suffix _ _).trans ((after_suffix read).trans within)) scanned

theorem rhelVersion_plain {v : Name × Name} (slug : Slug s) (found : search rhelVersion s = some v) :
    Plain v.1 ∧ Plain v.2 := by
  obtain ⟨t, within, here⟩ := search_suffix found
  obtain ⟨rest, read, here⟩ := Option.bind_eq_some_iff.mp here
  have inside := (skipOne_suffix ['-', '_'] rest).trans ((after_suffix read).trans within)
  cases skipped : skipOne ['-', '_'] rest with
  | nil =>
    rw [skipped] at here
    cases here
  | cons d more =>
    rw [skipped] at here inside
    dsimp only at here
    split at here
    · next digit =>
      obtain ⟨⟨digits, rest'⟩, scanned, rfl⟩ := Option.map_eq_some_iff.mp here
      refine ⟨plain_of_digits slug (fun c member => ?_) (by simp), ?_⟩
      · rw [List.mem_singleton.mp member]
        exact ⟨inside.subset (by simp), digit⟩
      · exact scanDigits_plain slug ((skipOne_suffix _ _).trans ((List.suffix_cons d more).trans inside)) scanned
    · cases here

theorem ubuntuVersion_plain {v : Name × Name} (slug : Slug s) (found : search ubuntuVersion s = some v) :
    Plain v.1 ∧ Plain v.2 := by
  obtain ⟨t, within, here⟩ := search_suffix found
  obtain ⟨rest, read, here⟩ := Option.bind_eq_some_iff.mp here
  obtain ⟨⟨first, rest'⟩, digits, rfl⟩ := Option.map_eq_some_iff.mp here
  obtain ⟨plain, inside⟩ := twoDigits_plain slug ((skipOne_suffix _ _).trans ((after_suffix read).trans within)) digits
  refine ⟨plain, ?_⟩
  dsimp only
  cases minor : twoDigits (skipOne ['.'] rest') with
  | none =>
    have four : ∀ c ∈ "04".toList, c.isAlphanum = true := by decide
    exact ⟨by decide, four⟩
  | some second => exact (twoDigits_plain slug ((skipOne_suffix _ _).trans inside) minor).1

theorem shortUbuntu_plain {v : Name × Name} (slug : Slug s) (found : search shortUbuntu s = some v) :
    Plain v.1 ∧ Plain v.2 := by
  obtain ⟨t, within, here⟩ := search_suffix found
  obtain ⟨rest, read, here⟩ := Option.bind_eq_some_iff.mp here
  obtain ⟨⟨first, rest'⟩, digits, here⟩ := Option.bind_eq_some_iff.mp here
  obtain ⟨⟨second, rest''⟩, digits', rfl⟩ := Option.map_eq_some_iff.mp here
  obtain ⟨plain, inside⟩ := twoDigits_plain slug ((after_suffix read).trans within) digits
  exact ⟨plain, (twoDigits_plain slug inside digits').1⟩

/-- A variant that is read off a name is a label value but for its length. -/
theorem worded_kubevirtOsVariantFromName (slug : Slug s) (found : kubevirtOsVariantFromName s = some variant) :
    (Worded variant ∧ variant ≠ []) ∧ ∀ c, variant.getLast? = some c → c.isAlphanum = true := by
  have dot : LabelChars ['.'] := List.forall_mem_singleton.mpr rfl
  have zero : Plain ['0'] := ⟨by decide, List.forall_mem_singleton.mpr rfl⟩
  have versioned {word : Name} {v : Name × Name} (plain : Plain v.1 ∧ Plain v.2)
      (start : (!word.isEmpty && word.all isLabelChar && word.head?.all Char.isAlphanum) = true) :
      (Worded (word ++ v.1 ++ ['.'] ++ v.2) ∧ word ++ v.1 ++ ['.'] ++ v.2 ≠ []) ∧
        ∀ c, (word ++ v.1 ++ ['.'] ++ v.2).getLast? = some c → c.isAlphanum = true := by
    refine ⟨?_, plain.2.last⟩
    rw [List.append_assoc, List.append_assoc]
    exact (plain.1.chars.append (dot.append plain.2.chars)).worded start
  have zeroed {word v : Name} (plain : Plain v)
      (start : (!word.isEmpty && word.all isLabelChar && word.head?.all Char.isAlphanum) = true) :
      (Worded (word ++ v ++ ".0".toList) ∧ word ++ v ++ ".0".toList ≠ []) ∧
        ∀ c, (word ++ v ++ ".0".toList).getLast? = some c → c.isAlphanum = true := by
    have split : ".0".toList = ['.'] ++ ['0'] := rfl
    rw [split]
    refine ⟨?_, ?_⟩
    · rw [List.append_assoc]
      exact (plain.chars.append (dot.append zero.chars)).worded start
    · rw [← List.append_assoc]
      exact zero.last
  unfold kubevirtOsVariantFromName at found
  dsimp only at found
  rw [lower_of_isNameChar slug.chars] at found
  rcases Option.or_eq_some_iff.mp found with first | ⟨-, found⟩
  · obtain ⟨v, here, rfl⟩ := Option.map_eq_some_iff.mp first
    exact versioned (rhelVersion_plain slug here) rfl
  rcases Option.or_eq_some_iff.mp found with first | ⟨-, found⟩
  · obtain ⟨v, here, rfl⟩ := Option.map_eq_some_iff.mp first
    exact zeroed (numbered_plain slug here) rfl
  rcases Option.or_eq_some_iff.mp found with first | ⟨-, found⟩
  · obtain ⟨v, here, rfl⟩ := Option.map_eq_some_iff.mp first
    exact versioned (ubuntuVersion_plain slug here) rfl
  rcases Option.or_eq_some_iff.mp found with first | ⟨-, found⟩
  · obtain ⟨v, here, rfl⟩ := Option.map_eq_some_iff.mp first
    exact versioned (shortUbuntu_plain slug here) rfl
  rcases Option.or_eq_some_iff.mp found with first | ⟨-, found⟩
  · obtain ⟨v, here, rfl⟩ := Option.map_eq_some_iff.mp first
    exact zeroed (numbered_plain slug here) rfl
  · obtain ⟨v, here, rfl⟩ := Option.map_eq_some_iff.mp found
    have plain := numbered_plain slug here
    exact ⟨plain.chars.worded rfl, plain.last⟩

end variants

/-! ### The labels of a manifest -/

section labels

variable {spec : VmSpec} {args : GuestArgs} {variant : Name}

theorem setEntry_fresh {K V : Type} [DecidableEq K] {key : K} {value : V} {entries : List (K × V)}
    (fresh : key ∉ entries.map Prod.fst) : setEntry key value entries = entries ++ [(key, value)] := by
  induction entries with
  | nil => rfl
  | cons entry rest ih =>
    obtain ⟨k, v⟩ := entry
    rw [List.map_cons, List.mem_cons, not_or] at fresh
    rw [setEntry, if_neg (Ne.symm fresh.1), ih fresh.2, List.cons_append]

theorem update_fresh {entries d : List (String × Name)} (distinct : (entries.map Prod.fst).Nodup)
    (fresh : ∀ key ∈ entries.map Prod.fst, key ∉ d.map Prod.fst) : update entries d = d ++ entries := by
  induction entries generalizing d with
  | nil => exact (List.append_nil d).symm
  | cons entry entries ih =>
    obtain ⟨key, value⟩ := entry
    rw [List.map_cons, List.nodup_cons] at distinct
    have here : key ∉ d.map Prod.fst := fresh key List.mem_cons_self
    have later : ∀ other ∈ entries.map Prod.fst, other ∉ (d ++ [(key, value)]).map Prod.fst := by
      intro other member
      rw [List.map_append, List.mem_append, not_or]
      refine ⟨fresh other (List.mem_cons_of_mem _ member), ?_⟩
      rintro single
      rw [List.mem_singleton.mp single] at member
      exact distinct.1 member
    rw [update, List.foldl_cons, setEntry_fresh here]
    exact (ih distinct.2 later).trans (by rw [List.append_assoc, List.singleton_append])

theorem keys_entryIf (key : String) (value : Name) : ((entryIf key value).map Prod.fst).Sublist [key] := by
  unfold entryIf
  split
  · exact List.nil_sublist _
  · exact List.Sublist.refl _

/-- The labels that every VM has. -/
def ownLabels (spec : VmSpec) (family : Family) : List (String × Name) :=
  [("app", spec.vmName), ("h2kvm.io/migrated", "true".toList), ("h2kvm.io/guest-os", family.value),
    ("v9s.io/guest-os", family.value)]

theorem vmLabels_eq (spec : VmSpec) (args : GuestArgs) : vmLabels spec args =
    ownLabels spec (resolveGuestProfile args spec.vmName).family ++ (resolveGuestProfile args spec.vmName).extraLabels := by
  have keys : ((resolveGuestProfile args spec.vmName).extraLabels.map Prod.fst).Sublist
      ["v9s.io/rdp", "os.template.kubevirt.io/variant", "h2kvm.io/os-distro", "h2kvm.io/os-version"] := by
    unfold resolveGuestProfile
    split
    · exact List.Sublist.cons_cons _ (List.nil_sublist _)
    · rw [List.map_append, List.map_append]
      exact List.Sublist.cons _ (((keys_entryIf _ _).append (keys_entryIf _ _)).append (keys_entryIf _ _))
  have start : setEntry "v9s.io/guest-os" (resolveGuestProfile args spec.vmName).family.value
      (setEntry "h2kvm.io/guest-os" (resolveGuestProfile args spec.vmName).family.value
        [("app", spec.vmName), ("h2kvm.io/migrated", "true".toList)]) =
      ownLabels spec (resolveGuestProfile args spec.vmName).family := rfl
  rw [vmLabels, guestLabels, start]
  refine update_fresh (keys.nodup (by decide)) fun key member => ?_
  have apart : ∀ key ∈ ["v9s.io/rdp", "os.template.kubevirt.io/variant", "h2kvm.io/os-distro", "h2kvm.io/os-version"],
      key ∉ ["app", "h2kvm.io/migrated", "h2kvm.io/guest-os", "v9s.io/guest-os"] := by decide
  exact apart key (keys.subset member)

theorem labelValue_entryIf (key : String) (value : Name) :
    (∀ entry ∈ entryIf key value, LabelValue entry.2) ↔ LabelValue value := by
  unfold entryIf
  split
  · next nothing =>
    rw [nothing]
    exact iff_of_true nofun labelValue_nil
  · exact List.forall_mem_singleton

/-- The texts of a Linux guest that become labels are label values: the distribution and the version that are given, and
the variant, which is right but for its length and its end where it is derived. -/
structure LinuxTexts (args : GuestArgs) (vmName : Name) : Prop where
  distro : LabelValue (distroOf args)
  version : LabelValue (versionOf args)
  explicit : explicitOsVariant args ≠ [] → looksWindowsVariant (explicitOsVariant args) = false →
    LabelValue (explicitOsVariant args)
  derived : (explicitOsVariant args = [] ∨ looksWindowsVariant (explicitOsVariant args) = true) →
    ∀ variant, kubevirtOsVariant (distroOf args) (versionOf args) (osReleaseField args "ID_LIKE") = some variant →
      variant.length ≤ 63 ∧ ∀ c, variant.getLast? = some c → c.isAlphanum = true
  fromName : (explicitOsVariant args = [] ∨ looksWindowsVariant (explicitOsVariant args) = true) →
    kubevirtOsVariant (distroOf args) (versionOf args) (osReleaseField args "ID_LIKE") = none →
    ∀ variant, kubevirtOsVariantFromName vmName = some variant → variant.length ≤ 63

theorem labelValue_linuxOsVariantOf_iff {vmName : Name} (slug : Slug vmName) (distro : LabelValue (distroOf args))
    (version : LabelValue (versionOf args)) :
    LabelValue ((linuxOsVariantOf args vmName).getD []) ↔ LinuxTexts args vmName := by
  have derivedWorded := worded_kubevirtOsVariant distro.toWorded version.chars (osReleaseField args "ID_LIKE")
  unfold linuxOsVariantOf
  by_cases given : explicitOsVariant args ≠ [] ∧ looksWindowsVariant (explicitOsVariant args) = false
  · rw [if_pos given, Option.getD_some]
    constructor
    · intro value
      refine ⟨distro, version, fun _ _ => value, ?_, ?_⟩ <;>
      · rintro (none | windows)
        · exact absurd none given.1
        · rw [given.2] at windows
          cases windows
    · exact fun texts => texts.explicit given.1 given.2
  · have without : explicitOsVariant args = [] ∨ looksWindowsVariant (explicitOsVariant args) = true := by
      by_contra neither
      rw [not_or] at neither
      exact given ⟨neither.1, Bool.eq_false_iff.mpr neither.2⟩
    rw [if_neg given]
    unfold derivedOsVariant
    cases found : kubevirtOsVariant (distroOf args) (versionOf args) (osReleaseField args "ID_LIKE") with
    | some variant =>
      dsimp only
      rw [Option.getD_some]
      constructor
      · intro value
        refine ⟨distro, version, fun some windows => absurd ⟨some, windows⟩ given, ?_, fun _ none => ?_⟩
        · rintro - other same
          rw [found] at same
          cases same
          exact ⟨value.short, value.last⟩
        · rw [found] at none
          cases none
      · intro texts
        obtain ⟨short, last⟩ := texts.derived without variant found
        exact { (derivedWorded variant found).1 with short, last }
    | none =>
      dsimp only
      rw [if_neg slug.nonempty]
      constructor
      · intro value
        refine ⟨distro, version, fun some windows => absurd ⟨some, windows⟩ given, fun _ variant same => ?_,
          fun _ _ variant same => ?_⟩
        · rw [found] at same
          cases same
        · rw [same, Option.getD_some] at value
          exact value.short
      · intro texts
        cases read : kubevirtOsVariantFromName vmName with
        | none => exact labelValue_nil
        | some variant =>
          rw [Option.getD_some]
          obtain ⟨⟨worded, -⟩, last⟩ := worded_kubevirtOsVariantFromName slug read
          exact { worded with short := texts.fromName without found variant read, last }

/-- A manifest has label values only. -/
def Admissible (manifest : Json) : Prop :=
  ∀ path ∈ [["metadata", "labels"], ["spec", "template", "metadata", "labels"]], ∃ labels,
    manifest.get? path = some (.obj labels) ∧ ∀ entry ∈ labels, ∃ value, entry.2 = Manifest.text value ∧ LabelValue value

theorem text_injective {a b : Name} (same : Manifest.text a = Manifest.text b) : a = b := by
  unfold Manifest.text at same
  rw [Json.str.injEq] at same
  simpa using congrArg String.toList same

theorem admissible_texts (entries : List (String × Name)) :
    (∀ entry ∈ entries.map fun entry => (entry.1, Manifest.text entry.2),
      ∃ value, entry.2 = Manifest.text value ∧ LabelValue value) ↔
      ∀ entry ∈ entries, LabelValue entry.2 := by
  rw [List.forall_mem_map]
  refine forall₂_congr fun entry _ => ⟨?_, fun value => ⟨_, rfl, value⟩⟩
  rintro ⟨value, same, label⟩
  rwa [text_injective same]

theorem admissible_iff (spec : VmSpec) (args : GuestArgs) : Admissible (buildKubevirtVmManifest spec args) ↔
    (∀ entry ∈ vmLabels spec args, LabelValue entry.2) ∧ LabelValue spec.vmName := by
  have own : (buildKubevirtVmManifest spec args).get? ["metadata", "labels"] =
    some (Manifest.texts (vmLabels spec args)) := rfl
  have template : (buildKubevirtVmManifest spec args).get? ["spec", "template", "metadata", "labels"] =
    some (Manifest.texts (templateLabels spec)) := rfl
  unfold Admissible
  rw [List.forall_mem_cons, List.forall_mem_singleton, own, template]
  have single (entries : List (String × Name)) : (∃ labels, some (Manifest.texts entries) = some (.obj labels) ∧
      ∀ entry ∈ labels, ∃ value, entry.2 = Manifest.text value ∧ LabelValue value) ↔
        ∀ entry ∈ entries, LabelValue entry.2 := by
    rw [← admissible_texts]
    constructor
    · rintro ⟨labels, same, values⟩
      cases same
      exact values
    · exact fun values => ⟨_, rfl, values⟩
  rw [single, single, templateLabels, List.forall_mem_singleton]

theorem vmLabels_iff (slug : Slug spec.vmName) (short : spec.vmName.length ≤ 63) :
    Admissible (buildKubevirtVmManifest spec args) ↔ isWindowsGuest args = true ∨ LinuxTexts args spec.vmName := by
  have name : LabelValue spec.vmName := labelValue_of_slug slug short
  have values (family : Family) : ∀ entry ∈ ownLabels spec family, LabelValue entry.2 := by
    have guest : LabelValue family.value := by cases family <;> exact labelValue_literal rfl
    unfold ownLabels
    simp only [List.forall_mem_cons]
    exact ⟨name, labelValue_literal rfl, guest, guest, nofun⟩
  rw [admissible_iff, and_iff_left name, vmLabels_eq, List.forall_mem_append, and_iff_right (values _)]
  unfold resolveGuestProfile
  split
  · next windows =>
    rw [iff_true_right (.inl windows)]
    exact List.forall_mem_singleton.mpr (labelValue_literal rfl)
  · next linux =>
    rw [or_iff_right linux]
    dsimp only
    rw [List.forall_mem_append, List.forall_mem_append, labelValue_entryIf, labelValue_entryIf, labelValue_entryIf]
    constructor
    · rintro ⟨⟨variant, distro⟩, version⟩
      exact (labelValue_linuxOsVariantOf_iff slug distro version).mp variant
    · intro texts
      exact ⟨⟨(labelValue_linuxOsVariantOf_iff slug texts.distro texts.version).mpr texts, texts.distro⟩, texts.version⟩

theorem DnsSubdomain.slug {name : Name} (subdomain : DnsSubdomain name)
    (single : name.IsChain fun a b => ¬ (a = '-' ∧ b = '-')) : Slug name := by
  have whole := (dnsSubdomain_iff name).mp subdomain
  refine { whole with single := ?_ }
  rw [List.isChain_iff_getElem] at single ⊢
  have joined := List.isChain_iff_getElem.mp whole.joined
  exact fun i within => ⟨single i within, fun dots => (joined i within |>.1 dots.1).1 dots.2⟩

/-- Sanitized names are short and are not changed again, and are subdomains exactly when no gap that is kept is mixed; a
subdomain within the limit is left unchanged exactly when it has no two hyphens in a row; and the labels of a VM with a
sanitized name are admissible exactly where the guest runs Windows, or its texts are label values. -/
theorem kubernetesNames_iff (name : Name) (limit : Nat) :
    (2 ≤ limit →
      (sanitizeK8sDnsSubdomain name limit).length ≤ limit ∧
      sanitizeK8sDnsSubdomain (sanitizeK8sDnsSubdomain name limit) limit = sanitizeK8sDnsSubdomain name limit ∧
      (DnsSubdomain (sanitizeK8sDnsSubdomain name limit) ↔ Unmixed limit [] (core name))) ∧
    (DnsSubdomain name → name.length ≤ limit →
      (sanitizeK8sDnsSubdomain name limit = name ↔ name.IsChain fun a b => ¬ (a = '-' ∧ b = '-'))) ∧
    ∀ (spec : VmSpec) (args : GuestArgs), spec.vmName = sanitizeK8sDnsSubdomain name 63 →
      (Admissible (buildKubevirtVmManifest spec args) ↔ isWindowsGuest args = true ∨ LinuxTexts args spec.vmName) := by
  refine ⟨fun two => ?_, fun subdomain short => ?_, fun spec args named => ?_⟩
  · have positive : 1 ≤ limit := by omega
    exact ⟨(slug_sanitize name limit positive).2, sanitize_sanitize name positive, dnsSubdomain_sanitize_iff name two⟩
  · constructor
    · intro same
      have some := ((dnsSubdomain_iff name).mp subdomain).nonempty
      have positive : 1 ≤ limit := (List.length_pos_iff.mpr some).trans_le short
      have slug := (slug_sanitize name limit positive).1
      rw [same] at slug
      exact slug.single.imp fun _ _ apart => apart.1
    · exact fun single => sanitize_of_slug (subdomain.slug single) short
  · obtain ⟨slug, short⟩ := slug_sanitize name 63 (by decide)
    rw [← named] at slug short
    exact vmLabels_iff slug short

theorem dnsName_punycode : DnsName "xn--p1ai".toList where
  nonempty := by decide
  first := by
    rintro c ⟨⟩
    decide
  last := by
    rintro c ⟨⟩
    decide
  chars := by decide
  joined := by
    refine List.Pairwise.isChain (List.pairwise_iff_forall_sublist.mpr fun {a b} both => ?_)
    have free : ∀ c ∈ "xn--p1ai".toList, c ≠ '.' := by decide
    exact joined_of_ne_dot (free a (both.subset (by simp))) (free b (both.subset (by simp)))

/-- A hyphen beside a dot is kept, one of two hyphens is not, and the version of a Linux guest may have a space. -/
theorem not_admissible_ootpa :
    ¬ DnsSubdomain (sanitizeK8sDnsSubdomain "a-.b".toList 63) ∧
    (DnsSubdomain "xn--p1ai".toList ∧ sanitizeK8sDnsSubdomain "xn--p1ai".toList 63 ≠ "xn--p1ai".toList) ∧
    ¬ Admissible (buildKubevirtVmManifest
      ⟨sanitizeK8sDnsSubdomain "rhel".toList 63, "default".toList, "Always".toList, .obj [], "virtio".toList,
        "4Gi".toList, "2".toList⟩
      { linuxDistro := "rhel".toList, linuxVersion := "8.10 (Ootpa)".toList }) := by
  refine ⟨?_, ⟨(dnsSubdomain_iff _).mpr dnsName_punycode, by decide +kernel⟩, ?_⟩
  · rw [dnsSubdomain_sanitize_iff _ (by decide)]
    decide +kernel
  · intro admissible
    have values := ((admissible_iff _ _).mp admissible).1
    have odd := values ("h2kvm.io/os-version", "8.10 (Ootpa)".toList) (by decide +kernel)
    cases odd.chars ' ' (by decide)

end labels

end H2kvm.Deployers
