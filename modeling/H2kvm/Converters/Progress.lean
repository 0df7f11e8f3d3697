import Mathlib.Order.Lattice
import H2kvm.Framework.Scanning
import H2kvm.Network.Renames
import H2kvm.Framework.Since

namespace H2kvm.Converters.Progress

section progress

open Framework Text
open Network (lower)

/-- `(\d+(?:\.\d+)?)`, and what follows it. -/
def scanNumber (s : List Char) : Option (List Char × List Char) :=
  match scanDigits s with
  | some (whole, '.' :: s) =>
    match scanDigits s with
    | some (part, s) => some (whole ++ '.' :: part, s)
    | none => some (whole, '.' :: s)
  | read => read

/-- `_RE_PAREN`, from here. -/
def parenAt (s : List Char) : Option (List Char) := do
  let s ← after ['('] s
  let (number, s) ← scanNumber s
  let _ ← after "/100%)".toList s
  some number

/-- `_RE_FRACTION`, from here. -/
def fractionAt (s : List Char) : Option (List Char) := do
  let (number, s) ← scanNumber s
  let _ ← after "/100%".toList s
  some number

/-- `_RE_PROGRESS`, from here. -/
def progressAt (s : List Char) : Option (List Char) := do
  let s ← (after "progress".toList s).or (after "Progress".toList s)
  let s := s.dropWhile isSpace
  let s ← (after [':'] s).or (after ['='] s)
  let (number, _) ← scanNumber (s.dropWhile isSpace)
  some number

/-- `_RE_PERCENT`, from here. -/
def percentAt (s : List Char) : Option (List Char) := do
  let (number, s) ← scanNumber s
  let _ ← after ['%'] s
  some number

/-- `pattern.search(s)`, and its group. -/
def search (pattern : List Char → Option (List Char)) (s : List Char) : Option (List Char) := s.tails.findSome? pattern

/-- `\d+(?:\.\d+)?`, all of it. -/
def IsNumber (s : List Char) : Prop := scanNumber s = some (s, [])

instance (s : List Char) : Decidable (IsNumber s) := inferInstanceAs (Decidable (_ = _))

/-- The floats that are numbers, and how they are read. -/
structure Floats (F : Type) [LinearOrder F] where
  zero : F
  hundred : F
  zero_le_hundred : zero ≤ hundred
  /-- `float(text)`, without those that raise. -/
  float : List Char → Option F
  float_number : ∀ {text : List Char}, IsNumber text → ∃ v, float text = some v
  /-- `float(o[k])` of the first of the keys that `json.loads(text)` has: none where this fails or is NaN. -/
  keyed : List Char → Option (Option F)

variable {F : Type} [LinearOrder F] (N : Floats F)

def Floats.Within (v : F) : Prop := N.zero ≤ v ∧ v ≤ N.hundred

instance (v : F) : Decidable (N.Within v) := inferInstanceAs (Decidable (_ ∧ _))

/-- `v if 0.0 <= v <= 100.0 else None` -/
def Floats.checked (v : F) : Option F := if N.Within v then some v else none

/-- The number of a line with one of the keys, or what is made of any other line. -/
def Floats.orKeyed (s : List Char) (other : Option F) : Option F :=
  match N.keyed s with
  | none => none
  | some (some v) => N.checked v
  | some none => other

/-- The tries that are left, `other`, are made only where the pattern is not found. -/
def Floats.orChecked (pattern : List Char → Option (List Char)) (s : List Char) (other : Option F) : Option F :=
  match search pattern s with
  | some number => (N.float number).bind N.checked
  | none => other

def Floats.orParen (s : List Char) (other : Option F) : Option F :=
  match search parenAt s with
  | some number => N.float number
  | none => other

namespace Convert

/-- `_RE_JSON.match(s)`, of a text without spaces around it. -/
def isJson (s : List Char) : Bool := s.head? = some '{' && s.getLast? = some '}' && decide ('\n' ∉ s)

def looksLikeProgress (s : List Char) : Bool :=
  ["progress", "converting", "converted", "copying", "copied"].any fun word => decide (word.toList <:+: lower s)

/-- `parse_progress_pct` of `_run_convert_process`. -/
def parseProgressPct (line : List Char) : Option F :=
  let s := strip line
  let text := N.orParen s (N.orChecked fractionAt s (N.orChecked progressAt s
    (if looksLikeProgress s then N.orChecked percentAt s none else none)))
  if s = [] then none else if isJson s then N.orKeyed s text else text

/-- `clamp_pct`; the numbers read are none of them NaN. -/
def clampPct (p : F) : F := max N.zero (min N.hundred p)

end Convert

namespace Flatten

/-- `parse_progress_pct` of `_run_qemu_img_with_live_progress`. -/
def parseProgressPct (line : List Char) : Option F :=
  let s := strip line
  let text := N.orParen s (N.orChecked progressAt s (N.orChecked percentAt s none))
  if s = [] then none else if s.head? = some '{' ∧ s.getLast? = some '}' then N.orKeyed s text else text

end Flatten

/-- CR and LF. -/
def isEnd (c : Char) : Bool := c == '\r' || c == '\n'

def IsGap (gap : List Char) : Prop := ∀ c ∈ gap, isSpace c = true ∧ isEnd c = false

instance (gap : List Char) : Decidable (IsGap gap) := inferInstanceAs (Decidable (∀ _ ∈ _, _))

/-- A line of the form `(x/100%)`, and the CRs and LFs that end it. -/
structure Line where
  lead : List Char
  number : List Char
  trail : List Char
  ending : List Char
  lead_gap : IsGap lead
  isNumber : IsNumber number
  trail_gap : IsGap trail
  ends : ∀ c ∈ ending, isEnd c = true
  ended : ending ≠ []

/-- `(x/100%)` -/
def Line.word (line : Line) : List Char := '(' :: (line.number ++ "/100%)".toList)

/-- The line without its end. -/
def Line.content (line : Line) : List Char := line.lead ++ (line.word ++ line.trail)

def Line.text (line : Line) : List Char := line.content ++ line.ending

/-- The percentage a line is about. -/
def Line.value (line : Line) : F := (N.float line.number).getD N.zero

variable {N} {line : Line} {s rest : List Char}

theorem Floats.float_value (line : Line) : N.float line.number = some (line.value N) := by
  obtain ⟨v, read⟩ := N.float_number line.isNumber
  rw [Line.value, read, Option.getD_some]

theorem scanDigits_eq {digits : List Char} (scanned : scanDigits s = some (digits, rest)) :
    s = digits ++ rest ∧ digits ≠ [] ∧ ∀ c ∈ digits, isDigit c = true := by
  rw [scanDigits] at scanned
  split at scanned
  · cases scanned
  · rename_i some'
    obtain ⟨rfl, rfl⟩ := Prod.mk.inj (Option.some.inj scanned)
    exact ⟨List.takeWhile_append_dropWhile.symm, some', fun c member => List.mem_takeWhile_imp member⟩

/-- A number is digits, or digits around a point. -/
theorem IsNumber.form {number : List Char} (isNumber : IsNumber number) :
    ∃ whole : List Char, whole ≠ [] ∧ (∀ c ∈ whole, isDigit c = true) ∧
      (number = whole ∨ ∃ part : List Char, part ≠ [] ∧ (∀ c ∈ part, isDigit c = true) ∧ number = whole ++ '.' :: part) := by
  rw [IsNumber, scanNumber] at isNumber
  split at isNumber
  · next whole s scanned =>
    obtain ⟨form, some', all⟩ := scanDigits_eq scanned
    refine ⟨whole, some', all, .inr ?_⟩
    split at isNumber
    · next part s' scanned' =>
      obtain ⟨form', some'', all'⟩ := scanDigits_eq scanned'
      obtain ⟨same, rfl⟩ := Prod.mk.inj (Option.some.inj isNumber)
      exact ⟨part, some'', all', same.symm⟩
    · obtain ⟨-, bad⟩ := Prod.mk.inj (Option.some.inj isNumber)
      cases bad
  · obtain ⟨form, some', all⟩ := scanDigits_eq isNumber
    exact ⟨number, some', all, .inl rfl⟩

theorem scanDigits_digits {digits : List Char} (some' : digits ≠ []) (all : ∀ c ∈ digits, isDigit c = true)
    (stop : ∀ c, rest.head? = some c → isDigit c = false) : scanDigits (digits ++ rest) = some (digits, rest) :=
  scanDigits_numeral ⟨some', all, rfl⟩ stop

theorem scanNumber_append {number : List Char} (isNumber : IsNumber number)
    (stop : ∀ c, rest.head? = some c → isDigit c = false ∧ c ≠ '.') : scanNumber (number ++ rest) = some (number, rest) := by
  have digitless : ∀ c, rest.head? = some c → isDigit c = false := fun c first => (stop c first).1
  obtain ⟨whole, some', all, rfl | ⟨part, some'', all', rfl⟩⟩ := isNumber.form
  · rw [scanNumber, scanDigits_digits some' all digitless]
    cases rest with
    | nil => rfl
    | cons c rest =>
      have apart := (stop c rfl).2
      split
      · next whole' s same =>
        cases same
        exact absurd rfl apart
      · rfl
  · have point : ∀ c, ('.' :: (part ++ rest)).head? = some c → isDigit c = false := by
      intro c first
      cases first
      decide
    rw [List.append_assoc, List.cons_append, scanNumber, scanDigits_digits some' all point]
    simp only [scanDigits_digits some'' all' digitless]

theorem isSpace_of_mem_number {number : List Char} {c : Char} (isNumber : IsNumber number) (member : c ∈ number) :
    isSpace c = false := by
  obtain ⟨whole, -, all, rfl | ⟨part, -, all', rfl⟩⟩ := isNumber.form
  · exact isSpace_of_isDigit (all c member)
  · rcases List.mem_append.mp member with member | member
    · exact isSpace_of_isDigit (all c member)
    · rcases List.mem_cons.mp member with rfl | member
      · decide
      · exact isSpace_of_isDigit (all' c member)

theorem Line.isSpace_word (line : Line) : ∀ c ∈ line.word, isSpace c = false := by
  have close : ∀ c ∈ "/100%)".toList, isSpace c = false := by decide
  intro c member
  rcases List.mem_cons.mp member with rfl | member
  · decide
  · rcases List.mem_append.mp member with member | member
    · exact isSpace_of_mem_number line.isNumber member
    · exact close c member

theorem isSpace_of_isEnd {c : Char} (h : isEnd c = true) : isSpace c = true := by
  rcases Bool.or_eq_true _ _ |>.mp h with h | h
  · rw [eq_of_beq h]
    decide
  · rw [eq_of_beq h]
    decide

theorem Line.isEnd_content (line : Line) : ∀ c ∈ line.content, isEnd c = false := by
  intro c member
  rcases List.mem_append.mp member with member | member
  · exact (line.lead_gap c member).2
  · rcases List.mem_append.mp member with member | member
    · rw [Bool.eq_false_iff]
      intro isEnd
      have space := isSpace_of_isEnd isEnd
      rw [line.isSpace_word c member] at space
      cases space
    · exact (line.trail_gap c member).2

theorem search_here {pattern : List Char → Option (List Char)} {found : List Char} (here : pattern s = some found) :
    search pattern s = some found := by
  have first : ∃ others, s.tails = s :: others := by
    cases s with
    | nil => exact ⟨[], rfl⟩
    | cons c s => exact ⟨s.tails, rfl⟩
  obtain ⟨others, tails⟩ := first
  rw [search, tails, List.findSome?_cons, here]

theorem Line.parenAt_word (line : Line) (rest : List Char) : parenAt (line.word ++ rest) = some line.number := by
  have slash : ∀ c, ("/100%)".toList ++ rest).head? = some c → isDigit c = false ∧ c ≠ '.' := by
    intro c first
    cases first
    decide
  have opened : after ['('] (line.word ++ rest) = some (line.number ++ ("/100%)".toList ++ rest)) := by
    rw [← List.append_assoc]
    exact after_self ['('] _
  have closed := after_self "/100%)".toList rest
  simp only [parenAt, opened, scanNumber_append line.isNumber slash, closed, Option.bind_eq_bind, Option.bind_some]

variable {lead more : List Char}

theorem Line.strip_eq (line : Line) (blank : Blank lead) (more : List Char) :
    ∃ rest, strip (lead ++ (line.word ++ more)) = line.word ++ rest :=
  ⟨rstrip more, strip_append blank (List.cons_ne_nil _ _) line.isSpace_word⟩

theorem Convert.parse_word (line : Line) (blank : Blank lead) (more : List Char) :
    Convert.parseProgressPct N (lead ++ (line.word ++ more)) = some (line.value N) := by
  obtain ⟨rest, stripped⟩ := line.strip_eq blank more
  have found := search_here (line.parenAt_word rest)
  have plain : Convert.isJson (line.word ++ rest) = false := rfl
  have some' : line.word ++ rest ≠ [] := List.cons_ne_nil _ _
  simp only [Convert.parseProgressPct, stripped, if_neg some', plain, Bool.false_eq_true, if_false, Floats.orParen, found,
    Floats.float_value]

theorem Flatten.parse_word (line : Line) (blank : Blank lead) (more : List Char) :
    Flatten.parseProgressPct N (lead ++ (line.word ++ more)) = some (line.value N) := by
  obtain ⟨rest, stripped⟩ := line.strip_eq blank more
  have found := search_here (line.parenAt_word rest)
  have plain : ¬((line.word ++ rest).head? = some '{' ∧ (line.word ++ rest).getLast? = some '}') := by
    rintro ⟨first, -⟩
    cases first
  have some' : line.word ++ rest ≠ [] := List.cons_ne_nil _ _
  simp only [Flatten.parseProgressPct, stripped, if_neg some', if_neg plain, Floats.orParen, found, Floats.float_value]

end progress

section progressReaders

open Framework Text

variable {F : Type} [LinearOrder F]

def isNewline (c : Char) : Bool := c == '\n'

/-- `line.rstrip("\n")` -/
def rstripNewline (line : List Char) : List Char := line.rdropWhile isNewline

namespace Convert

/-- The loop of `read_available` over `buf.find(b"\n")`, where `line` is `buf` up to here: the lines
pushed, and what is left in `buf`. -/
def pushLines (line : List UInt8) : List UInt8 → List (List UInt8) × List UInt8
  | [] => ([], line)
  | b :: rest =>
    if b = 10 then ((line ++ [b]) :: (pushLines [] rest).1, (pushLines [] rest).2) else pushLines (line ++ [b]) rest

/-- `read_available` at a chunk, and `drain_remaining`. -/
def reader : Reader (List UInt8) UInt8 (List UInt8) where
  start := []
  step buf chunk := pushLines [] (buf ++ chunk)
  finish buf := if buf = [] then [] else [buf]

/-- What `push_line` and `parse_new_lines` make of a line. -/
def pct (N : Floats F) (line : List UInt8) : Option F :=
  (parseProgressPct N (rstripNewline (Utf8.decode line))).map (clampPct N)

/-- The percentages `_run_convert_process` extracts. -/
def pcts (N : Floats F) (chunks : List (List UInt8)) : List F := (reader.run chunks).filterMap (pct N)

end Convert

namespace Flatten

/-- `re.compile(r"[\r\n]+").split`, where `part` has been read of the current part. -/
def splitEnds (part : List Char) : List Char → List (List Char)
  | [] => [part]
  | c :: cs =>
    if isEnd c then (if cs.head?.any isEnd then splitEnds part cs else part :: splitEnds [] cs)
    else splitEnds (part ++ [c]) cs

/-- `_consume_text` and the end of `drain_after_exit`: the lines `feed_line` is given. -/
def lines : Reader (List Char) Char (List Char) where
  start := []
  step lineBuf text :=
    if text = [] then ([], lineBuf)
    else
      let buf := lineBuf ++ text
      let parts := splitEnds [] buf
      if buf.getLast?.any isEnd then (parts.filter (· ≠ []), [])
      else (parts.dropLast.filter (· ≠ []), parts.getLast?.getD buf)
  finish lineBuf := if lineBuf = [] then [] else [lineBuf]

def reader : Reader (List UInt8 × List Char) UInt8 (List Char) := Utf8.decoder.andThen lines

/-- What `feed_line` makes of a line. -/
def pct (N : Floats F) (line : List Char) : Option F :=
  if rstripNewline line = [] then none else parseProgressPct N (rstripNewline line)

/-- The percentages `_run_qemu_img_with_live_progress` extracts. -/
def pcts (N : Floats F) (chunks : List (List UInt8)) : List F := (reader.run chunks).filterMap (pct N)

end Flatten

namespace Convert

theorem chunks_pushLines {line : List UInt8} (free : 10 ∉ line) (bytes rest : List UInt8) :
    chunks (· == 10) (line ++ (bytes ++ rest)) =
        (pushLines line bytes).1 ++ chunks (· == 10) ((pushLines line bytes).2 ++ rest) ∧
      10 ∉ (pushLines line bytes).2 := by
  induction bytes generalizing line with
  | nil => exact ⟨rfl, free⟩
  | cons b bytes ih =>
    have others : ∀ x ∈ line, (x == 10) = false := fun x member => beq_eq_false_iff_ne.mpr fun same => free (same ▸ member)
    rw [pushLines]
    split
    · rename_i newline
      obtain ⟨made, free'⟩ := ih List.not_mem_nil
      refine ⟨?_, free'⟩
      rw [List.cons_append, chunks_append others (beq_iff_eq.mpr newline), List.cons_append, ← made, List.nil_append]
    · rename_i other
      have free' : 10 ∉ line ++ [b] := by
        intro member
        rcases List.mem_append.mp member with member | member
        · exact free member
        · exact other (List.mem_singleton.mp member).symm
      have whole : line ++ (b :: bytes ++ rest) = line ++ [b] ++ (bytes ++ rest) := by simp
      rw [whole]
      exact ih free'

theorem reader_reads : reader.Reads (chunks (· == 10)) := by
  refine Reader.Reads.of_kept (fun buf => buf) (fun buf => 10 ∉ buf) ⟨List.not_mem_nil, rfl⟩ ?_ ?_
  · intro buf chunk _
    refine ⟨(chunks_pushLines List.not_mem_nil (buf ++ chunk) []).2, fun rest => ?_⟩
    rw [← List.append_assoc]
    exact (chunks_pushLines List.not_mem_nil (buf ++ chunk) rest).1
  · intro buf free
    have others : ∀ x ∈ buf, (x == 10) = false := fun x member => beq_eq_false_iff_ne.mpr fun same => free (same ▸ member)
    by_cases none : buf = []
    · subst none
      rfl
    · rw [chunks_last others none]
      exact if_neg none

end Convert

namespace Flatten

theorem splitEnds_ne_nil (part s : List Char) : splitEnds part s ≠ [] := by
  induction s generalizing part with
  | nil => exact List.cons_ne_nil _ _
  | cons c s ih =>
    rw [splitEnds]
    split_ifs
    · exact ih part
    · exact List.cons_ne_nil _ _
    · exact ih (part ++ [c])

/-- The parts that are not empty are the words between the ends. -/
theorem filter_splitEnds (part s : List Char) : (splitEnds part s).filter (· ≠ []) = wordsFrom isEnd part s := by
  induction s generalizing part with
  | nil =>
    rw [splitEnds, wordsFrom]
    by_cases none : part = [] <;> simp [none]
  | cons c s ih =>
    rw [splitEnds, wordsFrom]
    split_ifs with here next none none
    · rw [none, ih]
    · rw [ih]
      cases s with
      | nil => cases next
      | cons z s =>
        have hz : isEnd z = true := next
        rw [wordsFrom, wordsFrom, if_pos hz, if_pos hz, if_neg none, if_pos rfl]
    · rw [List.filter_cons_of_neg (by simp [none]), ih]
    · rw [List.filter_cons_of_pos (by simp [none]), ih]
    · exact ih (part ++ [c])

def inLine (c : Char) : Bool := !isEnd c

theorem inLine_iff {c : Char} : inLine c = true ↔ isEnd c = false := by rw [inLine, Bool.not_eq_true']

theorem rtakeWhile_behind {z : Char} (hz : isEnd z = true) (before after : List Char) :
    (before ++ z :: after).rtakeWhile inLine = after.rtakeWhile inLine := by
  induction after using List.reverseRecOn with
  | nil => rw [List.rtakeWhile_concat_neg _ _ _ (by rw [inLine, hz]; decide), List.rtakeWhile_nil]
  | append_singleton after c ih =>
    rw [← List.cons_append, ← List.append_assoc]
    by_cases other : inLine c = true
    · rw [List.rtakeWhile_concat_pos _ _ _ other, List.rtakeWhile_concat_pos _ _ _ other, ih]
    · rw [List.rtakeWhile_concat_neg _ _ _ other, List.rtakeWhile_concat_neg _ _ _ other]

theorem getLast?_splitEnds {part : List Char} (free : ∀ c ∈ part, isEnd c = false) (s : List Char) :
    (splitEnds part s).getLast? = some ((part ++ s).rtakeWhile inLine) := by
  induction s generalizing part with
  | nil =>
    have all : ∀ c ∈ part, inLine c = true := fun c member => inLine_iff.mpr (free c member)
    rw [splitEnds, List.append_nil, List.rtakeWhile_eq_self_iff.mpr all]
    rfl
  | cons c s ih =>
    rw [splitEnds]
    split_ifs with here next
    · cases s with
      | nil => cases next
      | cons z s =>
        rw [ih free, rtakeWhile_behind here, rtakeWhile_behind next]
        exact (congrArg some (rtakeWhile_behind next [] s)).symm
    · obtain ⟨p, ps, parts⟩ := List.exists_cons_of_ne_nil (splitEnds_ne_nil [] s)
      have last : (splitEnds [] s).getLast? = some (([] ++ s).rtakeWhile inLine) :=
        ih fun _ member => absurd member List.not_mem_nil
      rw [parts] at last ⊢
      rw [List.getLast?_cons_cons, last, rtakeWhile_behind here, List.nil_append]
    · have free' : ∀ d ∈ part ++ [c], isEnd d = false := by
        intro d member
        rcases List.mem_append.mp member with member | member
        · exact free d member
        · exact List.mem_singleton.mp member ▸ Bool.eq_false_iff.mpr here
      rw [ih free', List.append_assoc, List.singleton_append]

/-- Where a text ends, or nothing was before, the words before and behind are all the words. -/
theorem words_append_of_ended {before : List Char} (ended : ∀ c, before.getLast? = some c → isEnd c = true)
    (after : List Char) : words isEnd (before ++ after) = words isEnd before ++ words isEnd after := by
  cases before using List.reverseRecOn with
  | nil => rfl
  | append_singleton before z =>
    have hz : isEnd z = true := ended z List.getLast?_concat
    have single : ∀ c ∈ [z], isEnd c = true := fun c member => List.mem_singleton.mp member ▸ hz
    rw [List.append_assoc, List.singleton_append, words_append_sep hz, words_append_seps single]

theorem ended_rdropWhile (s : List Char) :
    ∀ c, (s.rdropWhile inLine).getLast? = some c → isEnd c = true := by
  intro c last
  have some' : (s.rdropWhile inLine) ≠ [] := by
    intro none
    rw [none] at last
    cases last
  have ends := List.rdropWhile_last_not inLine s some'
  rw [List.getLast?_eq_getLast_of_ne_nil some'] at last
  rw [Option.some.inj last, inLine_iff, Bool.not_eq_false] at ends
  exact ends

theorem splitEnds_cut {buf : List Char} (nonempty : buf ≠ []) (unended : ¬buf.getLast?.any isEnd = true) :
    ∃ before last, buf = before ++ last ∧ (splitEnds [] buf).getLast? = some last ∧ (∀ c ∈ last, isEnd c = false) ∧
      (∀ c, before.getLast? = some c → isEnd c = true) ∧
      (splitEnds [] buf).dropLast.filter (· ≠ []) = words isEnd before := by
  have whole : buf.rdropWhile inLine ++ buf.rtakeWhile inLine = buf := List.rdropWhile_append_rtakeWhile
  have found : (splitEnds [] buf).getLast? = some (([] ++ buf).rtakeWhile inLine) :=
    getLast?_splitEnds (fun _ member => absurd member List.not_mem_nil) buf
  rw [List.nil_append] at found
  have free : ∀ c ∈ buf.rtakeWhile inLine, isEnd c = false := fun c member =>
    inLine_iff.mp (List.mem_rtakeWhile_imp member)
  have some' : buf.rtakeWhile inLine ≠ [] := by
    intro empty
    have last := List.rtakeWhile_eq_nil_iff.mp empty nonempty
    rw [inLine_iff, Bool.not_eq_false] at last
    rw [List.getLast?_eq_getLast_of_ne_nil nonempty] at unended
    exact unended last
  refine ⟨buf.rdropWhile inLine, buf.rtakeWhile inLine, whole.symm, found, free, ended_rdropWhile buf, ?_⟩
  have kept : (splitEnds [] buf).filter (· ≠ []) = words isEnd buf := filter_splitEnds [] buf
  have parts := List.dropLast_append_getLast? _ found
  rw [← parts, List.filter_append, List.filter_cons_of_pos (by simpa using some'), List.filter_nil] at kept
  refine List.append_cancel_right (?_ : _ ++ [buf.rtakeWhile inLine] = _)
  rw [kept, ← words_single free some', ← words_append_of_ended (ended_rdropWhile buf), whole]

theorem lines_reads : lines.Reads (words isEnd) := by
  refine Reader.Reads.of_kept (fun lineBuf => lineBuf) (fun lineBuf => ∀ c ∈ lineBuf, isEnd c = false) ⟨nofun, rfl⟩ ?_ ?_
  · intro lineBuf text free
    simp only [lines]
    split_ifs with none ended
    · exact ⟨free, fun rest => by rw [none]; rfl⟩
    · refine ⟨nofun, fun rest => ?_⟩
      have last : ∀ c, (lineBuf ++ text).getLast? = some c → isEnd c = true := by
        intro c last
        rw [last] at ended
        exact ended
      rw [← List.append_assoc, words_append_of_ended last, filter_splitEnds]
      rfl
    · have nonempty : lineBuf ++ text ≠ [] := fun empty => none (List.append_eq_nil_iff.mp empty).2
      obtain ⟨before, last, whole, found, free', ends, given⟩ := splitEnds_cut nonempty ended
      simp only [found, Option.getD_some, given]
      refine ⟨free', fun rest => ?_⟩
      rw [← List.append_assoc, whole, List.append_assoc, words_append_of_ended ends]
  · intro lineBuf free
    by_cases none : lineBuf = []
    · subst none
      rfl
    · rw [words_single free none]
      exact if_neg none

theorem reader_reads : reader.Reads (words isEnd ∘ Utf8.decode) := Utf8.decoder_reads.andThen lines_reads

end Flatten

variable {N : Floats F} {line : Line}

def textOf (lines : List Line) : List Char := lines.flatMap Line.text

theorem Line.word_ne_nil (line : Line) : line.word ≠ [] := List.cons_ne_nil _ _

theorem Line.content_ne_nil (line : Line) : line.content ≠ [] := by
  intro none
  exact line.word_ne_nil (List.append_eq_nil_iff.mp (List.append_eq_nil_iff.mp none).2).1

theorem isNewline_of_not_isEnd {c : Char} (h : isEnd c = false) : isNewline c = false := (Bool.or_eq_false_iff.mp h).2

theorem Line.isNewline_of_free (line : Line) {ending : List Char} (free : ∀ x ∈ ending, isNewline x = false) :
    ∀ x ∈ line.content ++ ending, isNewline x = false := by
  intro x member
  rcases List.mem_append.mp member with member | member
  · exact isNewline_of_not_isEnd (line.isEnd_content x member)
  · exact free x member

theorem Line.lead_blank (line : Line) : Blank line.lead := fun c member => (line.lead_gap c member).1

namespace Flatten

theorem words_textOf (lines : List Line) : words isEnd (textOf lines) = lines.map Line.content := by
  induction lines with
  | nil => rfl
  | cons line lines ih =>
    have ended : ∀ c, line.text.getLast? = some c → isEnd c = true := by
      intro c last
      rw [Line.text, List.getLast?_append_of_ne_nil _ line.ended] at last
      exact line.ends c (List.mem_of_getLast? last)
    have first : words isEnd line.text = [line.content] := by
      rw [Line.text, words_append_seps line.ends, words_single line.isEnd_content line.content_ne_nil]
    rw [textOf, List.flatMap_cons, words_append_of_ended ended, first, List.map_cons, List.singleton_append]
    exact congrArg _ ih

theorem pct_content (line : Line) : pct N line.content = some (line.value N) := by
  have same : rstripNewline line.content = line.content := by
    rw [rstripNewline, List.rdropWhile_eq_self_iff]
    intro some'
    rw [isNewline_of_not_isEnd (line.isEnd_content _ (List.getLast_mem some'))]
    decide
  rw [pct, same, if_neg line.content_ne_nil, Line.content]
  exact parse_word line line.lead_blank line.trail

theorem pcts_eq {chunks : List (List UInt8)} {lines : List Line} (stream : chunks.flatten = Utf8.encode (textOf lines)) :
    pcts N chunks = lines.map (Line.value N) := by
  rw [pcts, reader_reads, stream, Function.comp_apply, Utf8.decode_encode, words_textOf, List.filterMap_map]
  have each : pct N ∘ Line.content = some ∘ Line.value N := funext pct_content
  rw [each, List.filterMap_eq_map]

end Flatten

namespace Convert

/-- What is extracted of the lines of a text, cut at LFs. -/
def extracted (N : Floats F) (s : List Char) : List F :=
  (chunks isNewline s).filterMap fun line => (parseProgressPct N line).map (clampPct N)

theorem strip_rstripNewline (s : List Char) : strip (rstripNewline s) = strip s := by
  induction s using List.reverseRecOn with
  | nil => rfl
  | append_singleton s c ih =>
    rw [rstripNewline]
    by_cases newline : isNewline c = true
    · have space : isSpace c = true := isSpace_of_isEnd (Bool.or_eq_true _ _ |>.mpr (.inr newline))
      rw [List.rdropWhile_concat_pos _ _ _ newline, strip_concat space]
      exact ih
    · rw [List.rdropWhile_concat_neg _ _ _ newline]

theorem parse_congr {s t : List Char} (same : strip s = strip t) : parseProgressPct N s = parseProgressPct N t := by
  simp only [parseProgressPct, same]

theorem pcts_eq_extracted {chunks : List (List UInt8)} {s : List Char} (stream : chunks.flatten = Utf8.encode s) :
    pcts N chunks = extracted N s := by
  have each : pct N ∘ Utf8.encode = fun line => (parseProgressPct N line).map (clampPct N) := by
    funext line
    rw [Function.comp_apply, pct, Utf8.decode_encode, parse_congr (strip_rstripNewline line)]
  rw [pcts, reader_reads, stream, Utf8.chunks_encode, List.filterMap_map, each, extracted]
  rfl

theorem extracted_end {z : Char} (hz : isEnd z = true) (s : List Char) : extracted N (z :: s) = extracted N s := by
  have blank : parseProgressPct N [z] = none := by
    have none : strip [z] = [] := strip_concat (isSpace_of_isEnd hz) []
    simp only [parseProgressPct, none, if_true]
  have skip (t : List Char) : parseProgressPct N (z :: t) = parseProgressPct N t := by
    apply parse_congr
    rw [strip, strip, lstrip, List.dropWhile_cons_of_pos (isSpace_of_isEnd hz), lstrip]
  by_cases newline : isNewline z = true
  · have cut : chunks isNewline ([] ++ z :: s) = ([] ++ [z]) :: chunks isNewline s :=
      chunks_append (fun _ member => absurd member List.not_mem_nil) newline s
    rw [List.nil_append, List.nil_append] at cut
    rw [extracted, cut, List.filterMap_cons_none (by rw [blank]; rfl), extracted]
  · have free : ∀ x ∈ [z], isNewline x = false := fun x member =>
      List.mem_singleton.mp member ▸ Bool.eq_false_iff.mpr newline
    cases first : chunks isNewline s with
    | nil =>
      have none : s = [] := by
        by_contra some'
        exact chunks_ne_nil some' first
      subst none
      rw [extracted, chunks_last free (List.cons_ne_nil _ _), List.filterMap_cons_none (by rw [blank]; rfl)]
      rfl
    | cons c cs =>
      have joined := chunks_free_append free first
      rw [List.singleton_append, List.singleton_append] at joined
      rw [extracted, extracted, joined, first, List.filterMap_cons, List.filterMap_cons, skip]

theorem extracted_ends {ends : List Char} (all : ∀ c ∈ ends, isEnd c = true) (s : List Char) :
    extracted N (ends ++ s) = extracted N s := by
  induction ends with
  | nil => rfl
  | cons z ends ih =>
    rw [List.cons_append, extracted_end (all z List.mem_cons_self), ih fun c member => all c (List.mem_cons_of_mem z member)]

/-- What is extracted of the lines of the form: nothing of one behind a line without a LF. -/
def firsts (N : Floats F) : List Line → List F
  | [] => []
  | line :: lines => line.value N :: if '\n' ∈ line.ending then firsts N lines else (firsts N lines).tail

theorem parse_line (line : Line) (more : List Char) : parseProgressPct N (line.content ++ more) = some (line.value N) := by
  rw [Line.content, List.append_assoc, List.append_assoc]
  exact parse_word line line.lead_blank (line.trail ++ more)

theorem extracted_line (line : Line) {ending rest c : List Char} {cs : List (List Char)}
    (free : ∀ x ∈ ending, isNewline x = false) (first : chunks isNewline rest = c :: cs) :
    extracted N (line.content ++ ending ++ rest) =
      clampPct N (line.value N) :: cs.filterMap fun line => (parseProgressPct N line).map (clampPct N) := by
  rw [extracted, chunks_free_append (line.isNewline_of_free free) first, List.filterMap_cons, List.append_assoc, parse_line]
  rfl

theorem extracted_newline (line : Line) {ending rest : List Char} (free : ∀ x ∈ ending, isNewline x = false) :
    extracted N (line.content ++ ending ++ '\n' :: rest) = clampPct N (line.value N) :: extracted N rest := by
  have cut : chunks isNewline ([] ++ '\n' :: rest) = ([] ++ ['\n']) :: chunks isNewline rest :=
    chunks_append (fun _ member => absurd member List.not_mem_nil) rfl rest
  exact extracted_line line free cut

theorem exists_line (line : Line) (more : List Char) :
    ∃ c cs, chunks isNewline (line.content ++ more) = (line.content ++ c) :: cs := by
  have free : ∀ x ∈ line.content, isNewline x = false := fun x member => isNewline_of_not_isEnd (line.isEnd_content x member)
  cases first : chunks isNewline more with
  | nil =>
    have none : more = [] := by
      by_contra some'
      exact chunks_ne_nil some' first
    refine ⟨[], [], ?_⟩
    rw [none, List.append_nil, chunks_last free line.content_ne_nil]
  | cons c cs => exact ⟨c, cs, chunks_free_append free first⟩

theorem extracted_textOf (lines : List Line) : extracted N (textOf lines) = (firsts N lines).map (clampPct N) := by
  induction lines with
  | nil => rfl
  | cons line lines ih =>
    rw [textOf, List.flatMap_cons, Line.text, firsts, List.map_cons]
    split_ifs with newline
    · obtain ⟨before, after, split, free⟩ := List.eq_append_cons_of_mem newline
      have free' : ∀ x ∈ before, isNewline x = false := by
        intro x member
        exact beq_eq_false_iff_ne.mpr fun same => free (same ▸ member)
      have behind : ∀ x ∈ after, isEnd x = true := by
        intro x member
        exact line.ends x (split ▸ List.mem_append_right _ (List.mem_cons_of_mem _ member))
      have whole : line.content ++ line.ending ++ lines.flatMap Line.text =
          line.content ++ before ++ '\n' :: (after ++ textOf lines) := by
        rw [split]
        simp [textOf]
      rw [whole, extracted_newline line free', extracted_ends behind, ih]
    · have free : ∀ x ∈ line.ending, isNewline x = false := by
        intro x member
        exact beq_eq_false_iff_ne.mpr fun same => newline (same ▸ member)
      cases lines with
      | nil =>
        have some' : line.content ++ line.ending ≠ [] := fun none => line.ended (List.append_eq_nil_iff.mp none).2
        rw [List.flatMap_nil, List.append_nil, extracted, chunks_last (line.isNewline_of_free free) some',
          List.filterMap_cons_some (by rw [parse_line]; rfl)]
        rfl
      | cons next lines =>
        have start : textOf (next :: lines) = next.content ++ (next.ending ++ textOf lines) := by simp [textOf, Line.text]
        obtain ⟨c, cs, first⟩ := exists_line next (next.ending ++ textOf lines)
        rw [← start] at first
        rw [extracted, first, List.filterMap_cons, parse_line] at ih
        rw [List.map_tail, ← ih]
        exact extracted_line line free first

theorem pcts_eq {chunks : List (List UInt8)} {lines : List Line} (stream : chunks.flatten = Utf8.encode (textOf lines)) :
    pcts N chunks = (firsts N lines).map (clampPct N) := by
  rw [pcts_eq_extracted stream, extracted_textOf]

theorem length_firsts_le (N : Floats F) (lines : List Line) : (firsts N lines).length ≤ lines.length := by
  induction lines with
  | nil => exact Nat.le_refl 0
  | cons line lines ih =>
    rw [firsts, List.length_cons, List.length_cons]
    split_ifs
    · omega
    · rw [List.length_tail]
      omega

theorem firsts_length_iff (N : Floats F) (lines : List Line) :
    (firsts N lines).length = lines.length ↔ ∀ line ∈ lines.dropLast, '\n' ∈ line.ending := by
  induction lines with
  | nil => simp [firsts]
  | cons line lines ih =>
    have bound := length_firsts_le N lines
    rw [firsts, List.length_cons, List.length_cons]
    cases lines with
    | nil => simp [firsts]
    | cons next lines =>
      rw [List.dropLast_cons_of_ne_nil (List.cons_ne_nil _ _), List.forall_mem_cons]
      split_ifs with newline
      · rw [Nat.add_right_cancel_iff, ih, and_iff_right newline]
      · rw [List.length_tail, List.length_cons]
        rw [List.length_cons] at bound
        constructor
        · intro same
          omega
        · intro h
          exact absurd h.1 newline

theorem firsts_eq (lines : List Line) (ended : ∀ line ∈ lines.dropLast, '\n' ∈ line.ending) :
    firsts N lines = lines.map (Line.value N) := by
  induction lines with
  | nil => rfl
  | cons line lines ih =>
    cases lines with
    | nil => simp [firsts]
    | cons next lines =>
      rw [List.dropLast_cons_of_ne_nil (List.cons_ne_nil _ _), List.forall_mem_cons] at ended
      rw [firsts, if_pos ended.1, ih ended.2]
      rfl

theorem clampPct_eq_iff {v : F} : clampPct N v = v ↔ N.Within v := by
  constructor
  · intro same
    rw [← same]
    exact ⟨le_max_left _ _, max_le N.zero_le_hundred (min_le_left _ _)⟩
  · rintro ⟨low, high⟩
    rw [clampPct, min_eq_right high, max_eq_right low]

end Convert

/-- Both readers give one percentage for each line, in order, however the stream is cut, exactly for the
streams whose lines but the last are ended with a LF and whose percentages are such. -/
theorem agree_iff (N : Floats F) (lines : List Line) :
    (∀ chunks : List (List UInt8), chunks.flatten = Utf8.encode (textOf lines) →
        Convert.pcts N chunks = Flatten.pcts N chunks ∧ Flatten.pcts N chunks = lines.map (Line.value N)) ↔
      (∀ line ∈ lines.dropLast, '\n' ∈ line.ending) ∧ ∀ line ∈ lines, N.Within (line.value N) := by
  constructor
  · intro agree
    obtain ⟨same, each⟩ := agree [Utf8.encode (textOf lines)] (List.append_nil _)
    rw [each, Convert.pcts_eq (List.append_nil _)] at same
    have ended : ∀ line ∈ lines.dropLast, '\n' ∈ line.ending := by
      rw [← Convert.firsts_length_iff N]
      have length := congrArg List.length same
      rwa [List.length_map, List.length_map] at length
    rw [Convert.firsts_eq lines ended, List.map_map, List.map_inj_left] at same
    exact ⟨ended, fun line member => Convert.clampPct_eq_iff.mp (same line member)⟩
  · rintro ⟨ended, within⟩ chunks stream
    refine ⟨?_, Flatten.pcts_eq stream⟩
    rw [Flatten.pcts_eq stream, Convert.pcts_eq stream, Convert.firsts_eq lines ended, List.map_map, List.map_inj_left]
    exact fun line member => Convert.clampPct_eq_iff.mpr (within line member)

/-- Floats of whole numbers. -/
def whole : Floats ℕ where
  zero := 0
  hundred := 100
  zero_le_hundred := by decide
  float text := if IsNumber text then some (intOf (text.takeWhile isDigit)) else none
  float_number isNumber := ⟨_, if_pos isNumber⟩
  keyed _ := none

/-- A line as `qemu-img` writes it, over the one before. -/
def overwriting (number : List Char) (isNumber : IsNumber number) : Line :=
  ⟨"    ".toList, number, [], ['\r'], by decide, isNumber, by decide, by decide, by decide⟩

theorem not_agree_overwriting :
    let lines := [overwriting "0.00".toList (by decide), overwriting "50.00".toList (by decide)]
    let chunks := [Utf8.encode (textOf lines)]
    Convert.pcts whole chunks = [0] ∧ Flatten.pcts whole chunks = [0, 50] := by
  decide +kernel

end progressReaders

end H2kvm.Converters.Progress
