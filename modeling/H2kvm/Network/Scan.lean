import Mathlib
import H2kvm.Framework.Lines
import H2kvm.Network.NetplanPass

namespace H2kvm.Network

open Framework Text

/-- `\w`. What `str.isalnum` says of a character outside ASCII that is no space is `alnum`. -/
def isWord (alnum : Char → Bool) (c : Char) : Bool :=
  if c.toNat < 128 then c.isAlphanum || c = '_' else !isSpace c && alnum c

/-- `\b` between two neighbours, of which there is none at an end of the text. -/
def boundary (alnum : Char → Bool) (a b : Option Char) : Bool := a.any (isWord alnum) != b.any (isWord alnum)

/-- What follows `word` at the start of a text, without case. -/
def afterWord (word s : List Char) : Option (List Char) :=
  if (s.take word.length).map foldCase = word then some (s.drop word.length) else none

/-- `re.search(r"\bword\b", s, re.IGNORECASE)`, where `prev` comes before `s`. -/
def hasWordFrom (alnum : Char → Bool) (word : List Char) : Option Char → List Char → Bool
  | _, [] => false
  | prev, c :: s =>
    boundary alnum prev (some c) && (afterWord word (c :: s)).any (fun rest =>
      boundary alnum ((c :: s).take word.length).getLast? rest.head?) ||
      hasWordFrom alnum word (some c) s

def hasWord (alnum : Char → Bool) (word s : List Char) : Bool := hasWordFrom alnum word none s

/-- `^\s*key\s*=`, with what follows. -/
def keyed (key line : List Char) : Option (List Char) :=
  match afterWord key (lstrip line) with
  | none => none
  | some rest =>
    match lstrip rest with
    | '=' :: value => some value
    | _ => none

def isComment (line : List Char) : Bool := (lstrip line).head? = some '#'

/-- A line commented out, with the reason. -/
def commentOut (line : List Char) (tag : String) : List Char := "# ".toList ++ line ++ "  # ".toList ++ tag.toList

/-- What the fixers of lines are set to. -/
structure LineFixer where
  level : FixLevel
  alnum : Char → Bool
  renameMap : Dict String String

/-- The first of `VMWARE_DRIVERS` that a line names. -/
def LineFixer.driverToken (fixer : LineFixer) (line : List Char) : Option String :=
  vmwareDrivers.find? fun name => hasWord fixer.alnum name.toList line

/-- `content.split("\n")`. -/
def linesOf (content : List Char) : List (List Char) := content.splitOn '\n'

/-- `"\n".join(lines)`. -/
def joinLines (lines : List (List Char)) : List Char := join ['\n'] lines

section words

variable {alnum : Char → Bool}

theorem not_alphanum_of_isSpace {c : Char} (h : isSpace c = true) : (c.isAlphanum || c = '_') = false := by
  have space := h
  simp only [isSpace, Bool.or_eq_true, Bool.and_eq_true, decide_eq_true_eq, beq_iff_eq] at h
  have number : c.toNat = c.val.toNat := rfl
  rw [Bool.or_eq_false_iff]
  constructor
  · rw [Bool.eq_false_iff]
    intro word
    simp only [Char.isAlphanum, Char.isAlpha, Char.isUpper, Char.isLower, Char.isDigit, Bool.or_eq_true,
      Bool.and_eq_true, decide_eq_true_eq, UInt32.le_iff_toNat_le, ge_iff_le] at word
    have z : 'z'.val.toNat = 122 := rfl
    have Z : 'Z'.val.toNat = 90 := rfl
    have nine : '9'.val.toNat = 57 := rfl
    have zero : '0'.val.toNat = 48 := rfl
    have a : 'a'.val.toNat = 97 := rfl
    have A : 'A'.val.toNat = 65 := rfl
    omega
  · apply decide_eq_false
    intro underscore
    rw [underscore] at space
    exact absurd space (by decide)

theorem isWord_of_isSpace {c : Char} (h : isSpace c = true) : isWord alnum c = false := by
  unfold isWord
  split
  · exact not_alphanum_of_isSpace h
  · rw [h]
    rfl

theorem toLower_eq_self {c : Char} (h : c.toNat < 65 ∨ 90 < c.toNat) : c.toLower = c := by
  have number : c.toNat = c.val.toNat := rfl
  apply dif_neg
  intro upper
  simp only [UInt32.le_iff_toNat_le, ge_iff_le] at upper
  have A : 'A'.val.toNat = 65 := rfl
  have Z : 'Z'.val.toNat = 90 := rfl
  omega

theorem toLower_of_isSpace {c : Char} (h : isSpace c = true) : c.toLower = c := by
  apply toLower_eq_self
  simp only [isSpace, Bool.or_eq_true, Bool.and_eq_true, decide_eq_true_eq, beq_iff_eq] at h
  omega

theorem foldCase_of_isSpace {c : Char} (h : isSpace c = true) : foldCase c = c := by
  have special : ∀ d ∈ ['\u0130', '\u0131', '\u017f', '\u212a'], isSpace d = false := by decide
  have apart (d : Char) (hd : d ∈ ['\u0130', '\u0131', '\u017f', '\u212a']) : c ≠ d := by
    intro same
    exact absurd (h.symm.trans (same ▸ special d hd)) (by decide)
  rw [foldCase, if_neg (not_or.mpr ⟨apart _ (by decide), apart _ (by decide)⟩), if_neg (apart _ (by decide)),
    if_neg (apart _ (by decide)), toLower_of_isSpace h]

theorem boundary_space_right {c : Char} (h : isSpace c = true) (a : Option Char) :
    boundary alnum a (some c) = boundary alnum a none := by
  simp only [boundary, Option.any_some, Option.any_none, isWord_of_isSpace h]

theorem boundary_space_left {c : Char} (h : isSpace c = true) (b : Option Char) :
    boundary alnum (some c) b = boundary alnum none b := by
  simp only [boundary, Option.any_some, Option.any_none, isWord_of_isSpace h]

end words

section lines

theorem newline_not_mem_of_mem_linesOf {content line : List Char} (h : line ∈ linesOf content) : '\n' ∉ line := by
  unfold linesOf at h
  induction content generalizing line with
  | nil =>
    rw [List.mem_singleton.mp h]
    exact List.not_mem_nil
  | cons c content ih =>
    rw [List.splitOn_cons_eq_if_modifyHead] at h
    split at h
    · rcases List.mem_cons.mp h with rfl | h
      · exact List.not_mem_nil
      · exact ih h
    · rename_i other
      cases rest : content.splitOn '\n' with
      | nil => exact absurd rest (List.splitOn_ne_nil _ _)
      | cons first others =>
        rw [rest] at h
        rcases List.mem_cons.mp h with rfl | h
        · rw [List.mem_cons, not_or]
          exact ⟨fun same => other (beq_iff_eq.mpr same.symm), ih (rest ▸ List.mem_cons_self)⟩
        · exact ih (rest ▸ List.mem_cons_of_mem _ h)

theorem linesOf_ne_nil (content : List Char) : linesOf content ≠ [] := List.splitOn_ne_nil _ _

theorem linesOf_joinLines {lines : List (List Char)} (free : ∀ l ∈ lines, '\n' ∉ l) (nonempty : lines ≠ []) :
    linesOf (joinLines lines) = lines :=
  List.splitOn_intercalate '\n' free nonempty

theorem lstrip_commentOut (line : List Char) (tag : String) : lstrip (commentOut line tag) = commentOut line tag := rfl

theorem isComment_commentOut (line : List Char) (tag : String) : isComment (commentOut line tag) = true := rfl

theorem newline_not_mem_commentOut {line : List Char} {tag : String} (hl : '\n' ∉ line) (ht : '\n' ∉ tag.toList) :
    '\n' ∉ commentOut line tag := by
  simp only [commentOut, List.mem_append, not_or]
  exact ⟨⟨⟨by decide, hl⟩, by decide⟩, ht⟩

/-- A comment has no key. -/
theorem keyed_eq_none_of_isComment {key line : List Char} {c : Char} (hk : key.head? = some c) (hc : c ≠ '#')
    (h : isComment line = true) : keyed key line = none := by
  have first : (lstrip line).head? = some '#' := by simpa [isComment] using h
  obtain ⟨rest, text⟩ : ∃ rest, lstrip line = '#' :: rest := by
    cases text : lstrip line with
    | nil =>
      rw [text] at first
      cases first
    | cons d rest =>
      rw [text] at first
      cases first
      exact ⟨rest, rfl⟩
  cases key with
  | nil => cases hk
  | cons d key =>
    cases hk
    have differ : ((lstrip line).take (c :: key).length).map foldCase ≠ c :: key := by
      intro same
      rw [text] at same
      have head : foldCase '#' = c := (List.cons.inj same).1
      exact hc (head.symm.trans (by decide))
    rw [keyed, afterWord, if_neg differ]

theorem keyed_eq_some {key value line : List Char} (h : keyed key line = some value) :
    ∃ word mid, lstrip line = word ++ (mid ++ '=' :: value) ∧ word.map foldCase = key := by
  unfold keyed at h
  split at h
  · cases h
  rename_i rest found
  unfold afterWord at found
  split at found
  · rename_i word
    cases found
    split at h
    · rename_i value' text
      cases h
      refine ⟨(lstrip line).take key.length, ((lstrip line).drop key.length).takeWhile isSpace, ?_, word⟩
      have rest : ((lstrip line).drop key.length).takeWhile isSpace ++ '=' :: value = (lstrip line).drop key.length := by
        rw [← text]
        exact List.takeWhile_append_dropWhile
      rw [rest, List.take_append_drop]
    · cases h
  · cases found

theorem head_of_keyed {key line : List Char} {c : Char} (hk : key.head? = some c) (h : (keyed key line).isSome = true) :
    ∃ d, (lstrip line).head? = some d ∧ foldCase d = c := by
  obtain ⟨value, found⟩ := Option.isSome_iff_exists.mp h
  obtain ⟨word, mid, split, fold⟩ := keyed_eq_some found
  cases word with
  | nil =>
    rw [← fold] at hk
    cases hk
  | cons d word =>
    rw [← fold] at hk
    exact ⟨d, by rw [split]; rfl, Option.some.inj hk⟩

theorem keyed_eq_none_of_head {key key' line : List Char} {c c' : Char} (hk : key.head? = some c)
    (hk' : key'.head? = some c') (h : (keyed key line).isSome = true) (differ : c ≠ c') : keyed key' line = none := by
  cases found : keyed key' line with
  | none => rfl
  | some value =>
    obtain ⟨d, first, fold⟩ := head_of_keyed hk h
    obtain ⟨d', first', fold'⟩ := head_of_keyed hk' (by rw [found]; rfl)
    have same : d = d' := Option.some.inj (first.symm.trans first')
    exact absurd (fold.symm.trans ((congrArg foldCase same).trans fold')) differ

end lines

end H2kvm.Network
