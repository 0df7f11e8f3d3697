import H2kvm.Network.Interfaces

namespace H2kvm.Network.Interfaces

open Framework Text

/-- The words that start a stanza, with `allow-` and what follows. -/
def stanzaKeywords : List (List Char) :=
  ["iface", "mapping", "auto", "source", "source-directory", "no-auto-down", "no-scripts", "rename", "template"].map
    String.toList

def isStanza (line : List Char) : Bool :=
  (split line).head?.any fun word => decide (word ∈ stanzaKeywords) || decide ("allow-".toList <+: word)

/-- The interface that `iface X inet method` is about. -/
def inetName (method : String) (line : List Char) : Option (List Char) :=
  match split line with
  | first :: name :: family :: word :: _ =>
    if first = "iface".toList ∧ family = "inet".toList ∧ word = method.toList then some name else none
  | _ => none

/-- The address an option gives. -/
def address? (line : List Char) : Option (List Char) :=
  match split line with
  | first :: value :: _ => if first = "address".toList then some value else none
  | _ => none

/-- The addresses in the `inet static` stanzas of `x`; `here` says whether the first line stands in one. -/
def addressesOf (x : List Char) : Bool → List (List Char) → List (List Char)
  | _, [] => []
  | here, line :: lines =>
    if isStanza line then addressesOf x (inetName "static" line = some x) lines
    else if here then (address? line).toList ++ addressesOf x here lines
    else addressesOf x here lines

def dhcpNames (lines : List (List Char)) : List (List Char) := lines.filterMap (inetName "dhcp")

/-- The static addresses of an interface are still there, and DHCP is not enabled for it. -/
def StaticKept (before after : List Char) : Prop :=
  ∀ x, ∀ a ∈ addressesOf x false (linesOf before), x ∉ dhcpNames (linesOf before) →
    a ∈ addressesOf x false (linesOf after) ∧ x ∉ dhcpNames (linesOf after)

/-- A line that stays as it is, or loses no more than its hardware address. -/
def keeps (fixer : LineFixer) (line : List Char) : Bool :=
  if isIfaceLine line then decide (4 ≤ (split line).length) else (fixer.driverToken line).isNone

/-- The line of a block, as the fixer cuts it, that is given DHCP. -/
def exposedIn (fixer : LineFixer) (head : List Char) (options : List (List Char)) : Option (List Char) :=
  if fixer.level.atLeastModerate && !options.any (fun l => (fixer.driverToken l).isNone && isAddressLine l) then
    (head :: options.filter fun l => (fixer.driverToken l).isNone).find? (looksStatic fixer.alnum)
  else none

/-- The `inet static` lines that are given DHCP. -/
def exposed (fixer : LineFixer) : List (List Char) → List (List Char)
  | [] => []
  | line :: lines =>
    (if isIfaceLine line && 4 ≤ (split line).length then (exposedIn fixer line (lines.takeWhile continues)).toList
      else []) ++ exposed fixer lines

/-- The file after the pass, block by block. -/
def fixedLines (fixer : LineFixer) : List (List Char) → List (List Char)
  | [] => []
  | line :: lines =>
    if isIfaceLine line then
      if 4 ≤ (split line).length then
        (normalize fixer [] (line :: (lines.takeWhile continues).map fun l => (fixOption fixer l).1)).1 ++
          fixedLines fixer (lines.dropWhile continues)
      else fixedLines fixer lines
    else (strikeToken fixer line).1 :: fixedLines fixer lines
termination_by lines => lines.length
decreasing_by
  · have shorter := (List.dropWhile_sublist (p := continues) (l := lines)).length_le
    simp only [List.length_cons]
    omega
  · simp
  · simp

section run

variable {fixer : LineFixer}

theorem normalize_name (iface iface' : List Char) (lines : List (List Char)) :
    (normalize fixer iface lines).1 = (normalize fixer iface' lines).1 := by
  unfold normalize
  split
  · split
    · rfl
    · rfl
  · rfl

/-- What a block comes to, read on to its end. -/
def resumed (fixer : LineFixer) : Option (List Char × List (List Char)) → List (List Char) → List (List Char)
  | none, lines => fixedLines fixer lines
  | some (iface, block), lines =>
    (normalize fixer iface (block ++ (lines.takeWhile continues).map fun l => (fixOption fixer l).1)).1 ++
      fixedLines fixer (lines.dropWhile continues)

theorem flushBlock_block (s : Scan) : (flushBlock fixer s).block = none := by
  unfold flushBlock
  split
  · assumption
  · rfl

theorem flushBlock_resumed (s : Scan) {line : List Char} (stops : continues line = false) (lines : List (List Char)) :
    (flushBlock fixer s).out ++ fixedLines fixer (line :: lines) = s.out ++ resumed fixer s.block (line :: lines) := by
  unfold flushBlock
  split
  · rename_i none
    rw [none, resumed]
  · rename_i iface block some
    rw [some, resumed, List.takeWhile_cons, List.dropWhile_cons, stops]
    simp

theorem out_foldl (lines : List (List Char)) (s : Scan) :
    (flushBlock fixer (lines.foldl (fixLine fixer) s)).out = s.out ++ resumed fixer s.block lines := by
  induction lines generalizing s with
  | nil =>
    cases block : s.block with
    | none => simp [flushBlock, block, resumed, fixedLines]
    | some b => simp [flushBlock, block, resumed, fixedLines]
  | cons line lines ih =>
    rw [List.foldl_cons, ih]
    by_cases iface : isIfaceLine line = true
    · have stops : continues line = false := by rw [continues, iface]; rfl
      rw [← flushBlock_resumed s stops, fixLine, if_pos iface, fixedLines, if_pos iface]
      by_cases long : 4 ≤ (split line).length
      · rw [if_pos long, if_pos long]
        simp only [resumed, List.singleton_append]
        rw [normalize_name]
      · rw [if_neg long, if_neg long]
        simp only [resumed]
    · have other : fixedLines fixer (line :: lines) = (strikeToken fixer line).1 :: fixedLines fixer lines := by
        rw [fixedLines, if_neg iface]
      by_cases goesOn : continues line = true
      · rw [fixLine, if_neg iface, if_pos goesOn]
        cases block : s.block with
        | none => simp [block, resumed, other]
        | some b => simp [block, resumed, goesOn]
      · rw [← flushBlock_resumed s (Bool.eq_false_iff.mpr goesOn), other, fixLine, if_neg iface, if_neg goesOn]
        simp [flushBlock_block, resumed]

end run

section substitution

variable {alnum : Char → Bool}

/-- The test for `static` at the start of a text. -/
def startsStatic (alnum : Char → Bool) (s : List Char) : Bool :=
  (after "static".toList s).any fun rest => boundary alnum (some 'c') rest.head?

theorem startsStatic_append (xs : List Char) {ys : List Char} {z : Char} (hz : isSpace z = true) :
    startsStatic alnum (xs ++ z :: ys) = startsStatic alnum xs := by
  have free : z ∉ "static".toList := by
    intro mem
    have visible : ∀ c ∈ "static".toList, isSpace c = false := by decide
    exact absurd (hz.symm.trans (visible z mem)) (by decide)
  unfold startsStatic after
  by_cases lead : "static".toList <+: xs
  · obtain ⟨rest, rfl⟩ := lead
    rw [if_pos (by rw [List.append_assoc]; exact List.prefix_append _ _), if_pos (List.prefix_append _ _),
      List.append_assoc, List.drop_left, List.drop_left, Option.any_some, Option.any_some]
    cases rest with
    | nil => exact boundary_space_right hz _
    | cons c rest => rfl
  · have lead' : ¬"static".toList <+: xs ++ z :: ys := by
      intro long
      have through : xs ++ [z] <+: xs ++ z :: ys := ⟨ys, by simp⟩
      rcases List.prefix_or_prefix_of_prefix long through with short | beyond
      · rcases List.prefix_concat_iff.mp short with whole | short
        · exact free (whole ▸ List.mem_append_right _ List.mem_cons_self)
        · exact lead short
      · exact free (beyond.subset (List.mem_append_right _ List.mem_cons_self))
    rw [if_neg lead, if_neg lead']

theorem subStaticFrom_zero (prev : Option Char) (c : Char) (s : List Char) :
    subStaticFrom alnum 0 prev (c :: s) =
      if boundary alnum prev (some c) && startsStatic alnum (c :: s) then "dhcp".toList ++ subStaticFrom alnum 5 (some c) s
      else c :: subStaticFrom alnum 0 (some c) s := by
  rw [subStaticFrom]
  rfl

theorem subStaticFrom_of_space {z : Char} (hz : isSpace z = true) (s : List Char) :
    subStaticFrom alnum 0 (some z) s = subStaticFrom alnum 0 none s := by
  cases s with
  | nil => rfl
  | cons c s => rw [subStaticFrom_zero, subStaticFrom_zero, boundary_space_left hz]

theorem length_of_startsStatic {s : List Char} (h : startsStatic alnum s = true) : 6 ≤ s.length := by
  unfold startsStatic after at h
  split at h
  · rename_i lead
    exact lead.length_le
  · cases h

/-- A space parts a text into pieces that are changed on their own. -/
theorem subStaticFrom_append {z : Char} (hz : isSpace z = true) (ys : List Char) (xs : List Char) (skip : Nat)
    (within : skip ≤ xs.length) (prev : Option Char) :
    subStaticFrom alnum skip prev (xs ++ z :: ys) = subStaticFrom alnum skip prev xs ++ z :: subStatic alnum ys := by
  induction xs generalizing skip prev with
  | nil =>
    obtain rfl : skip = 0 := Nat.le_zero.mp within
    have quiet : startsStatic alnum (z :: ys) = false := startsStatic_append [] hz
    rw [List.nil_append, subStaticFrom_zero, quiet, Bool.and_false, subStaticFrom_of_space hz]
    rfl
  | cons c xs ih =>
    cases skip with
    | succ skip =>
      rw [List.cons_append, subStaticFrom, subStaticFrom]
      exact ih skip (Nat.le_of_succ_le_succ within) _
    | zero =>
      have same : startsStatic alnum (c :: (xs ++ z :: ys)) = startsStatic alnum (c :: xs) :=
        startsStatic_append (c :: xs) hz
      rw [List.cons_append, subStaticFrom_zero, subStaticFrom_zero, same]
      split
      · rename_i found
        have long := length_of_startsStatic (Bool.and_eq_true_iff.mp found).2
        rw [ih 5 (Nat.le_of_succ_le_succ long), List.append_assoc]
      · rw [ih 0 (Nat.zero_le _)]
        rfl

theorem mem_subStaticFrom {c : Char} {skip : Nat} {prev : Option Char} {s : List Char}
    (h : c ∈ subStaticFrom alnum skip prev s) : c ∈ s ∨ c ∈ "dhcp".toList := by
  induction s generalizing skip prev with
  | nil =>
    cases skip with
    | zero => cases h
    | succ skip => cases h
  | cons d s ih =>
    cases skip with
    | succ skip =>
      rw [subStaticFrom] at h
      exact (ih h).imp_left (List.mem_cons_of_mem _)
    | zero =>
      rw [subStaticFrom_zero] at h
      split at h
      · rcases List.mem_append.mp h with new | rest
        · exact .inr new
        · exact (ih rest).imp_left (List.mem_cons_of_mem _)
      · rcases List.mem_cons.mp h with rfl | rest
        · exact .inl List.mem_cons_self
        · exact (ih rest).imp_left (List.mem_cons_of_mem _)

theorem subStaticFrom_ne_nil (prev : Option Char) {s : List Char} (h : s ≠ []) : subStaticFrom alnum 0 prev s ≠ [] := by
  cases s with
  | nil => exact absurd rfl h
  | cons c s =>
    rw [subStaticFrom_zero]
    split
    · exact fun none => absurd (List.append_eq_nil_iff.mp none).1 (by decide)
    · exact List.cons_ne_nil _ _

theorem split_subStatic (s : List Char) : split (subStatic alnum s) = (split s).map (subStatic alnum) := by
  have visible {xs : List Char} (free : ∀ c ∈ xs, isSpace c = false) : ∀ c ∈ subStatic alnum xs, isSpace c = false := by
    intro c hc
    rcases mem_subStaticFrom hc with old | new
    · exact free c old
    · have letters : ∀ c ∈ "dhcp".toList, isSpace c = false := by decide
      exact letters c new
  have piece {xs : List Char} (free : ∀ c ∈ xs, isSpace c = false) :
      words isSpace (subStatic alnum xs) = (words isSpace xs).map (subStatic alnum) := by
    by_cases nonempty : xs = []
    · subst nonempty
      rfl
    · rw [words_single free nonempty, words_single (visible free) (subStaticFrom_ne_nil none nonempty)]
      rfl
  rw [split_eq_words, split_eq_words]
  induction s using line_induction isSpace with
  | nil => rfl
  | last xs _ free => exact piece free
  | more xs z ys free hz ih =>
    have parted : subStatic alnum (xs ++ z :: ys) = subStatic alnum xs ++ z :: subStatic alnum ys :=
      subStaticFrom_append hz ys xs 0 (Nat.zero_le _) none
    rw [parted, words_append_sep hz, words_append_sep hz, List.map_append, piece free, ih]

theorem subStatic_of_free {w : List Char} (h : ¬"static".toList <:+: w) (prev : Option Char) :
    subStaticFrom alnum 0 prev w = w := by
  induction w generalizing prev with
  | nil => rfl
  | cons c w ih =>
    have quiet : startsStatic alnum (c :: w) = false := by
      have lead : ¬"static".toList <+: c :: w := fun lead => h lead.isInfix
      rw [startsStatic, after, if_neg lead]
      rfl
    have rest : ¬"static".toList <:+: w := fun inside => h (inside.trans (List.suffix_cons c w).isInfix)
    rw [subStaticFrom_zero, quiet, Bool.and_false, ih rest]
    rfl

theorem subStatic_static {r : List Char} (h : startsStatic alnum ("static".toList ++ r) = true) :
    subStatic alnum ("static".toList ++ r) = "dhcp".toList ++ subStaticFrom alnum 0 (some 'c') r := by
  have start : boundary alnum none (some 's') = true := rfl
  have text : "static".toList ++ r = 's' :: 't' :: 'a' :: 't' :: 'i' :: 'c' :: r := rfl
  rw [text] at h ⊢
  rw [subStatic, subStaticFrom_zero, start, h]
  rfl

theorem looksStatic_eq_true {line : List Char} (h : looksStatic alnum line = true) :
    ∃ x r rest, split line = "iface".toList :: x :: "inet".toList :: ("static".toList ++ r) :: rest ∧
      startsStatic alnum ("static".toList ++ r) = true := by
  unfold looksStatic at h
  split at h
  · rename_i first x family method rest words
    obtain ⟨names, starts⟩ := Bool.and_eq_true_iff.mp h
    obtain ⟨hf, hi⟩ := Bool.and_eq_true_iff.mp names
    have starts' : startsStatic alnum method = true := starts
    have lead : "static".toList <+: method := by
      by_contra no
      rw [startsStatic, after, if_neg no] at starts'
      cases starts'
    obtain ⟨r, rfl⟩ := lead
    exact ⟨x, r, rest, by rw [words, of_decide_eq_true hf, of_decide_eq_true hi], starts'⟩
  · cases h

/-- The words of a line that is given DHCP. -/
theorem split_subStatic_of_looksStatic {line : List Char} (h : looksStatic alnum line = true) :
    ∃ x r rest, split line = "iface".toList :: x :: "inet".toList :: ("static".toList ++ r) :: rest ∧
      split (subStatic alnum line) = "iface".toList :: subStatic alnum x :: "inet".toList ::
        ("dhcp".toList ++ subStaticFrom alnum 0 (some 'c') r) :: rest.map (subStatic alnum) := by
  obtain ⟨x, r, rest, words, starts⟩ := looksStatic_eq_true h
  have iface : subStatic alnum "iface".toList = "iface".toList := subStatic_of_free (by decide) none
  have inet : subStatic alnum "inet".toList = "inet".toList := subStatic_of_free (by decide) none
  refine ⟨x, r, rest, words, ?_⟩
  rw [split_subStatic, words, List.map_cons, List.map_cons, List.map_cons, List.map_cons, iface, inet,
    subStatic_static starts]

theorem isStanza_of_looksStatic {line : List Char} (h : looksStatic alnum line = true) :
    isStanza line = true ∧ isStanza (subStatic alnum line) = true := by
  obtain ⟨x, r, rest, words, words'⟩ := split_subStatic_of_looksStatic h
  constructor
  · rw [isStanza, words]
    rfl
  · rw [isStanza, words']
    rfl

theorem inetName_static_subStatic {line : List Char} (h : looksStatic alnum line = true) :
    inetName "static" (subStatic alnum line) = none := by
  obtain ⟨x, r, rest, -, words⟩ := split_subStatic_of_looksStatic h
  rw [inetName, words]
  apply if_neg
  intro same
  exact absurd (List.cons.inj same.2.2).1 (by decide)

theorem inetName_dhcp_subStatic {line : List Char} (h : looksStatic alnum line = true) (y : List Char) :
    inetName "dhcp" (subStatic alnum line) = some y ↔ ∃ x, inetName "static" line = some x ∧ subStatic alnum x = y := by
  obtain ⟨x, r, rest, words, words'⟩ := split_subStatic_of_looksStatic h
  have whole : "dhcp".toList ++ subStaticFrom alnum 0 (some 'c') r = "dhcp".toList ↔ "static".toList ++ r = "static".toList := by
    rw [List.append_right_eq_self, List.append_right_eq_self]
    constructor
    · intro none
      by_contra some
      exact subStaticFrom_ne_nil _ some none
    · intro none
      rw [none]
      rfl
  rw [inetName, inetName, words, words']
  simp only [true_and, whole]
  split
  · simp
  · simp

end substitution

/-- `lines'` reads as `lines` does, as far as `x` is concerned. -/
inductive ReadsAs (x : List Char) : List (List Char) → List (List Char) → Prop where
  | nil : ReadsAs x [] []
  | stanza {l l' : List Char} {lines lines' : List (List Char)} (hl : isStanza l = true) (hl' : isStanza l' = true)
      (same : inetName "static" l' = some x ↔ inetName "static" l = some x) (rest : ReadsAs x lines lines') :
      ReadsAs x (l :: lines) (l' :: lines')
  | option {l l' : List Char} {lines lines' : List (List Char)} (hl : isStanza l = false) (hl' : isStanza l' = false)
      (same : address? l' = address? l) (rest : ReadsAs x lines lines') : ReadsAs x (l :: lines) (l' :: lines')
  | skip {l' : List Char} {lines lines' : List (List Char)} (hl' : isStanza l' = false) (none : address? l' = none)
      (rest : ReadsAs x lines lines') : ReadsAs x lines (l' :: lines')

namespace ReadsAs

variable {x : List Char} {lines lines' more more' : List (List Char)}

theorem addressesOf_eq (h : ReadsAs x lines lines') (here : Bool) : addressesOf x here lines' = addressesOf x here lines := by
  induction h generalizing here with
  | nil => rfl
  | stanza hl hl' same _ ih =>
    rw [addressesOf, addressesOf, if_pos hl, if_pos hl', ih]
    simp only [same]
  | option hl hl' same _ ih =>
    simp only [addressesOf, hl, hl', same, ih, Bool.false_eq_true, if_false]
  | skip hl' none _ ih =>
    simp [addressesOf, hl', none, ih]

theorem append (h : ReadsAs x lines lines') (h' : ReadsAs x more more') :
    ReadsAs x (lines ++ more) (lines' ++ more') := by
  induction h with
  | nil => exact h'
  | stanza hl hl' same _ ih => exact .stanza hl hl' same ih
  | option hl hl' same _ ih => exact .option hl hl' same ih
  | skip hl' none _ ih => exact .skip hl' none ih

theorem same {l : List Char} (h : ReadsAs x lines lines') : ReadsAs x (l :: lines) (l :: lines') := by
  cases stanza : isStanza l with
  | true => exact .stanza stanza stanza Iff.rfl h
  | false => exact .option stanza stanza rfl h

/-- A stanza that is not about `x` may give way to another. -/
theorem replace {c c' : List Char} {a b : List (List Char)} (h : ReadsAs x lines (a ++ c :: b)) (hc : isStanza c = true)
    (hc' : isStanza c' = true) (other : inetName "static" c ≠ some x) (other' : inetName "static" c' ≠ some x) :
    ReadsAs x lines (a ++ c' :: b) := by
  generalize whole : a ++ c :: b = lines' at h
  induction h generalizing a with
  | nil => exact absurd whole (by simp)
  | stanza hl hl' same rest ih =>
    cases a with
    | nil =>
      cases whole
      have notX : inetName "static" _ ≠ some x := mt same.mpr other
      exact .stanza hl hc' (iff_of_false other' notX) rest
    | cons d a =>
      cases whole
      exact .stanza hl hl' same (ih rfl)
  | option hl hl' same rest ih =>
    cases a with
    | nil =>
      cases whole
      exact absurd (hc.symm.trans hl') (by decide)
    | cons d a =>
      cases whole
      exact .option hl hl' same (ih rfl)
  | skip hl' none rest ih =>
    cases a with
    | nil =>
      cases whole
      exact absurd (hc.symm.trans hl') (by decide)
    | cons d a =>
      cases whole
      exact .skip hl' none (ih rfl)

end ReadsAs

section comments

theorem split_commentOut (line : List Char) (tag : String) : ∃ rest, split (commentOut line tag) = ['#'] :: rest := by
  have text : commentOut line tag = ['#'] ++ ' ' :: (line ++ "  # ".toList ++ tag.toList) := by
    simp [commentOut]
  refine ⟨words isSpace (line ++ "  # ".toList ++ tag.toList), ?_⟩
  rw [split_eq_words, text, words_append_sep (by decide)]
  rfl

theorem isStanza_commentOut (line : List Char) (tag : String) : isStanza (commentOut line tag) = false := by
  obtain ⟨rest, words⟩ := split_commentOut line tag
  rw [isStanza, words]
  rfl

theorem address?_commentOut (line : List Char) (tag : String) : address? (commentOut line tag) = none := by
  obtain ⟨rest, words⟩ := split_commentOut line tag
  rw [address?, words]
  cases rest with
  | nil => rfl
  | cons word rest => rfl

theorem inetName_commentOut (method : String) (line : List Char) (tag : String) :
    inetName method (commentOut line tag) = none := by
  obtain ⟨rest, words⟩ := split_commentOut line tag
  rw [inetName, words]
  split
  · rename_i first name family word more found
    apply if_neg
    intro same
    have first' : ['#'] = first := (List.cons.inj found).1
    exact absurd (first'.trans same.1) (by decide)
  · rfl

theorem isAddressLine_commentOut (line : List Char) (tag : String) : isAddressLine (commentOut line tag) = false := by
  obtain ⟨rest, words⟩ := split_commentOut line tag
  rw [isAddressLine, words]
  cases rest with
  | nil => rfl
  | cons word rest => rfl

theorem looksStatic_commentOut (alnum : Char → Bool) (line : List Char) (tag : String) :
    looksStatic alnum (commentOut line tag) = false := by
  cases looks : looksStatic alnum (commentOut line tag) with
  | false => rfl
  | true =>
    have stanza := (isStanza_of_looksStatic looks).1
    exact absurd ((isStanza_commentOut line tag).symm.trans stanza) (by decide)

end comments

section options

variable {fixer : LineFixer}

/-- The first word of a line that starts with a word without case. -/
theorem split_of_afterWord {word line rest : List Char} (nonempty : word ≠ []) (visible : ∀ c ∈ word, isSpace c = false)
    (h : afterWord word (lstrip line) = some rest) (space : rest.head?.any isSpace = true) :
    ∃ first more, split line = first :: more ∧ first.map foldCase = word := by
  unfold afterWord at h
  split at h
  · rename_i fold
    cases h
    obtain ⟨z, tail, text, hz⟩ : ∃ z tail, (lstrip line).drop word.length = z :: tail ∧ isSpace z = true := by
      cases text : (lstrip line).drop word.length with
      | nil =>
        rw [text] at space
        cases space
      | cons z tail =>
        rw [text] at space
        exact ⟨z, tail, rfl, space⟩
    have free : ∀ c ∈ (lstrip line).take word.length, isSpace c = false := by
      intro c hc
      cases blank : isSpace c with
      | false => rfl
      | true =>
        have mem : foldCase c ∈ word := fold ▸ List.mem_map_of_mem hc
        rw [foldCase_of_isSpace blank] at mem
        exact absurd (blank.symm.trans (visible c mem)) (by decide)
    have first : (lstrip line).take word.length ≠ [] := by
      intro none
      rw [none] at fold
      exact nonempty fold.symm
    refine ⟨(lstrip line).take word.length, words isSpace tail, ?_, fold⟩
    rw [split_eq_words, ← words_dropWhile]
    show words isSpace (lstrip line) = _
    nth_rewrite 1 [← List.take_append_drop word.length (lstrip line)]
    rw [text, words_append_sep hz, words_single free first]
    rfl
  · cases h

/-- The line of a hardware address starts no stanza and gives no address. -/
theorem neutral_of_isHwaddress {line : List Char} (h : isHwaddress line = true) :
    isStanza line = false ∧ address? line = none ∧ isAddressLine line = false := by
  obtain ⟨rest, found, more⟩ := (Option.any_eq_true _ _).mp h
  obtain ⟨first, tail, words, fold⟩ :=
    split_of_afterWord (by decide) (by decide) found (Bool.and_eq_true_iff.mp more).1
  have differs {word : List Char} (hw : word.map foldCase ≠ "hwaddress".toList) : first ≠ word := by
    intro same
    exact hw (same ▸ fold)
  have address : first ≠ "address".toList := differs (by decide)
  refine ⟨?_, ?_, ?_⟩
  · have plain : ∀ word ∈ stanzaKeywords, word.map foldCase ≠ "hwaddress".toList := by decide
    have keyword : first ∉ stanzaKeywords := fun mem => plain first mem fold
    have allow : ¬"allow-".toList <+: first := by
      intro lead
      have folded : "allow-".toList.map foldCase <+: first.map foldCase := lead.map foldCase
      rw [fold] at folded
      exact absurd folded (by decide)
    rw [isStanza, words, List.head?_cons, Option.any_some, decide_eq_false keyword, decide_eq_false allow]
    rfl
  · rw [address?, words]
    cases tail with
    | nil => rfl
    | cons value tail => exact if_neg address
  · rw [isAddressLine, words]
    cases tail with
    | nil => rfl
    | cons value tail => exact decide_eq_false address

/-- A line of a block is kept, or commented out. -/
theorem fixOption_cases (fixer : LineFixer) (line : List Char) :
    ((fixer.driverToken line).isNone = true ∧ (fixOption fixer line).1 = line) ∨
      ((∃ old tag, (fixOption fixer line).1 = commentOut old tag) ∧
        ((fixer.driverToken line).isNone = true → isHwaddress line = true)) := by
  unfold fixOption strikeToken
  cases fixer.driverToken line with
  | some name =>
    right
    simp only
    split
    · exact ⟨⟨_, _, rfl⟩, fun none => nomatch none⟩
    · exact ⟨⟨_, _, rfl⟩, fun none => nomatch none⟩
  | none =>
    simp only
    split
    · rename_i pinned
      exact .inr ⟨⟨_, _, rfl⟩, fun _ => (Bool.and_eq_true_iff.mp pinned).2⟩
    · exact .inl ⟨rfl, rfl⟩

theorem readsAs_options (x : List Char) (options : List (List Char)) :
    ReadsAs x (options.filter fun l => (fixer.driverToken l).isNone) (options.map fun l => (fixOption fixer l).1) := by
  induction options with
  | nil => exact .nil
  | cons l options ih =>
    rw [List.map_cons, List.filter_cons]
    rcases fixOption_cases fixer l with ⟨kept, same⟩ | ⟨⟨old, tag, struck⟩, pinned⟩
    · rw [if_pos kept, same]
      exact ih.same
    · rw [struck]
      split
      · rename_i kept
        obtain ⟨stanza, address, -⟩ := neutral_of_isHwaddress (pinned kept)
        exact .option stanza (isStanza_commentOut _ _) ((address?_commentOut _ _).trans address.symm) ih
      · exact .skip (isStanza_commentOut _ _) (address?_commentOut _ _) ih

theorem any_isAddressLine (options : List (List Char)) :
    (options.map fun l => (fixOption fixer l).1).any isAddressLine =
      options.any fun l => (fixer.driverToken l).isNone && isAddressLine l := by
  induction options with
  | nil => rfl
  | cons l options ih =>
    rw [List.map_cons, List.any_cons, List.any_cons, ih]
    rcases fixOption_cases fixer l with ⟨kept, same⟩ | ⟨⟨old, tag, struck⟩, pinned⟩
    · rw [same, kept, Bool.true_and]
    · rw [struck, isAddressLine_commentOut]
      cases kept : (fixer.driverToken l).isNone with
      | false => rfl
      | true => rw [(neutral_of_isHwaddress (pinned kept)).2.2, Bool.and_false]

theorem find?_looksStatic (options : List (List Char)) :
    (options.map fun l => (fixOption fixer l).1).find? (looksStatic fixer.alnum) =
      (options.filter fun l => (fixer.driverToken l).isNone).find? (looksStatic fixer.alnum) := by
  induction options with
  | nil => rfl
  | cons l options ih =>
    rw [List.map_cons, List.filter_cons, List.find?_cons]
    rcases fixOption_cases fixer l with ⟨kept, same⟩ | ⟨⟨old, tag, struck⟩, pinned⟩
    · rw [same, if_pos kept, List.find?_cons, ih]
    · rw [struck, looksStatic_commentOut, ih]
      by_cases kept : (fixer.driverToken l).isNone = true
      · have quiet : looksStatic fixer.alnum l = false := by
          cases looks : looksStatic fixer.alnum l with
          | false => rfl
          | true =>
            have stanza := (isStanza_of_looksStatic looks).1
            exact absurd ((neutral_of_isHwaddress (pinned kept)).1.symm.trans stanza) (by decide)
        rw [if_pos kept, List.find?_cons, quiet]
      · rw [if_neg kept]

end options

section blocks

variable {head : List Char}

theorem dhcpFirst_eq_none {alnum : Char → Bool} {lines : List (List Char)} (h : lines.find? (looksStatic alnum) = none) :
    dhcpFirst alnum lines = none := by
  induction lines with
  | nil => rfl
  | cons l lines ih =>
    rw [List.find?_cons] at h
    cases looks : looksStatic alnum l with
    | true =>
      rw [looks] at h
      cases h
    | false =>
      rw [looks] at h
      rw [dhcpFirst, looks, ih h]
      rfl

theorem dhcpFirst_eq_some {alnum : Char → Bool} {lines : List (List Char)} {c : List Char}
    (h : lines.find? (looksStatic alnum) = some c) :
    looksStatic alnum c = true ∧
      ∃ a b, lines = a ++ c :: b ∧ dhcpFirst alnum lines = some (a ++ subStatic alnum c :: b) := by
  induction lines with
  | nil => cases h
  | cons l lines ih =>
    rw [List.find?_cons] at h
    cases looks : looksStatic alnum l with
    | true =>
      rw [looks] at h
      cases h
      refine ⟨looks, [], lines, rfl, ?_⟩
      rw [dhcpFirst, looks]
      rfl
    | false =>
      rw [looks] at h
      obtain ⟨found, a, b, rfl, result⟩ := ih h
      refine ⟨found, l :: a, b, rfl, ?_⟩
      rw [dhcpFirst, looks, result]
      rfl

theorem isAddressLine_of_isIfaceLine {line : List Char} (h : isIfaceLine line = true) : isAddressLine line = false := by
  obtain ⟨rest, text⟩ : "iface ".toList <+: strip line := of_decide_eq_true h
  have words' : split line = "iface".toList :: words isSpace rest := by
    have parts : "iface ".toList ++ rest = "iface".toList ++ ' ' :: rest := rfl
    rw [← split_strip, split_eq_words, ← text, parts, words_append_sep (by decide)]
    rfl
  rw [isAddressLine, words']
  cases words isSpace rest with
  | nil => rfl
  | cons word rest => rfl

/-- What a block comes to. -/
theorem normalize_block (fixer : LineFixer) (iface : isIfaceLine head = true) (options : List (List Char)) :
    match exposedIn fixer head options with
    | none => (normalize fixer [] (head :: options.map fun l => (fixOption fixer l).1)).1 =
        head :: options.map fun l => (fixOption fixer l).1
    | some c => looksStatic fixer.alnum c = true ∧ ∃ a b, head :: options.map (fun l => (fixOption fixer l).1) = a ++ c :: b ∧
        (normalize fixer [] (head :: options.map fun l => (fixOption fixer l).1)).1 = a ++ subStatic fixer.alnum c :: b := by
  have noAddress : (head :: options.map fun l => (fixOption fixer l).1).any isAddressLine =
      options.any fun l => (fixer.driverToken l).isNone && isAddressLine l := by
    rw [List.any_cons, isAddressLine_of_isIfaceLine iface, Bool.false_or, any_isAddressLine]
  have first : (head :: options.map fun l => (fixOption fixer l).1).find? (looksStatic fixer.alnum) =
      (head :: options.filter fun l => (fixer.driverToken l).isNone).find? (looksStatic fixer.alnum) := by
    rw [List.find?_cons, List.find?_cons, find?_looksStatic]
  unfold exposedIn normalize
  rw [noAddress]
  split
  · rename_i found
    split at found
    · rename_i due
      rw [if_pos due]
      rw [dhcpFirst_eq_none (first.trans found)]
    · rename_i due
      rw [if_neg due]
  · rename_i c found
    split at found
    · rename_i due
      obtain ⟨looks, a, b, text, result⟩ := dhcpFirst_eq_some (first.trans found)
      refine ⟨looks, a, b, text, ?_⟩
      rw [if_pos due, result]
    · cases found

end blocks

section file

variable {fixer : LineFixer}

theorem fixedLines_iface {line : List Char} (iface : isIfaceLine line = true) (long : 4 ≤ (split line).length)
    (lines : List (List Char)) :
    fixedLines fixer (line :: lines) =
      (normalize fixer [] (line :: (lines.takeWhile continues).map fun l => (fixOption fixer l).1)).1 ++
        fixedLines fixer (lines.dropWhile continues) := by
  rw [fixedLines, if_pos iface, if_pos long]

theorem exposed_other {line : List Char} (plain : isIfaceLine line = false) (lines : List (List Char)) :
    exposed fixer (line :: lines) = exposed fixer lines := by
  rw [exposed, plain, Bool.false_and]
  rfl

theorem exposed_short {line : List Char} (few : ¬4 ≤ (split line).length) (lines : List (List Char)) :
    exposed fixer (line :: lines) = exposed fixer lines := by
  rw [exposed, decide_eq_false few, Bool.and_false]
  rfl

theorem exposed_append {options : List (List Char)} (h : ∀ l ∈ options, isIfaceLine l = false) (lines : List (List Char)) :
    exposed fixer (options ++ lines) = exposed fixer lines := by
  induction options with
  | nil => rfl
  | cons l options ih =>
    obtain ⟨first, rest⟩ := List.forall_mem_cons.mp h
    rw [List.cons_append, exposed_other first, ih rest]

theorem not_iface_of_mem_takeWhile {lines : List (List Char)} : ∀ l ∈ lines.takeWhile continues, isIfaceLine l = false := by
  intro l hl
  have goesOn := List.mem_takeWhile_imp hl
  rw [continues] at goesOn
  simpa using (Bool.and_eq_true_iff.mp goesOn).1

/-- The blocks of a file: what holds of the empty file, of a line that starts no block, and of a block
with the rest of the file, holds of every file. -/
theorem block_induction {motive : List (List Char) → Prop} (nil : motive [])
    (other : ∀ line lines, isIfaceLine line = false → motive lines → motive (line :: lines))
    (short : ∀ line lines, isIfaceLine line = true → ¬4 ≤ (split line).length → motive lines → motive (line :: lines))
    (block : ∀ line options lines, isIfaceLine line = true → 4 ≤ (split line).length →
      (∀ l ∈ options, isIfaceLine l = false) → (options ++ lines).takeWhile continues = options →
      (options ++ lines).dropWhile continues = lines → motive lines → motive (line :: (options ++ lines)))
    (lines : List (List Char)) : motive lines := by
  induction size : lines.length using Nat.strong_induction_on generalizing lines with
  | h n ih =>
    cases lines with
    | nil => exact nil
    | cons line lines =>
      have shorter : lines.length < n := by
        rw [← size]
        exact Nat.lt_succ_self _
      by_cases iface : isIfaceLine line = true
      · by_cases long : 4 ≤ (split line).length
        · have whole : lines.takeWhile continues ++ lines.dropWhile continues = lines :=
            List.takeWhile_append_dropWhile
          have rest := (List.dropWhile_sublist (p := continues) (l := lines)).length_le
          rw [← whole]
          apply block line _ _ iface long not_iface_of_mem_takeWhile
          · rw [whole]
          · rw [whole]
          · exact ih _ (Nat.lt_of_le_of_lt rest shorter) _ rfl
        · exact short line lines iface long (ih _ shorter lines rfl)
      · exact other line lines (Bool.eq_false_iff.mpr iface) (ih _ shorter lines rfl)

theorem exposed_block {line : List Char} {options lines : List (List Char)} (iface : isIfaceLine line = true)
    (long : 4 ≤ (split line).length) (tail : ∀ l ∈ options, isIfaceLine l = false)
    (taken : (options ++ lines).takeWhile continues = options) :
    exposed fixer (line :: (options ++ lines)) = (exposedIn fixer line options).toList ++ exposed fixer lines := by
  rw [exposed, iface, decide_eq_true long, Bool.and_self, taken, exposed_append tail]
  rfl

/-- An interface that is not exposed reads after the pass as its surviving lines do. -/
theorem readsAs_fixedLines {x : List Char} (lines : List (List Char))
    (safe : x ∉ (exposed fixer lines).filterMap (inetName "static")) :
    ReadsAs x (lines.filter (keeps fixer)) (fixedLines fixer lines) := by
  induction lines using block_induction with
  | nil =>
    rw [fixedLines]
    exact .nil
  | other line lines plain ih =>
    rw [exposed_other plain] at safe
    have kept : keeps fixer line = (fixer.driverToken line).isNone := by rw [keeps, if_neg (by simp [plain])]
    rw [fixedLines, if_neg (by simp [plain]), List.filter_cons, kept]
    unfold strikeToken
    cases fixer.driverToken line with
    | none => exact (ih safe).same
    | some name => exact .skip (isStanza_commentOut _ _) (address?_commentOut _ _) (ih safe)
  | short line lines iface few ih =>
    rw [exposed_short few] at safe
    rw [fixedLines, if_pos iface, if_neg few, List.filter_cons, keeps, if_pos iface, decide_eq_false few]
    exact ih safe
  | block line options lines iface long tail taken left ih =>
    rw [exposed_block iface long tail taken, List.filterMap_append, List.mem_append, not_or] at safe
    have kept : options.filter (keeps fixer) = options.filter fun l => (fixer.driverToken l).isNone := by
      apply List.filter_congr
      intro l hl
      rw [keeps, if_neg (by simp [tail l hl])]
    rw [fixedLines_iface iface long, taken, left, List.filter_cons, keeps, if_pos iface, decide_eq_true long, if_pos rfl,
      List.filter_append, kept, ← List.cons_append]
    refine ReadsAs.append ?_ (ih safe.2)
    have plain : ReadsAs x (line :: options.filter fun l => (fixer.driverToken l).isNone)
        (line :: options.map fun l => (fixOption fixer l).1) := (readsAs_options x options).same
    have result := normalize_block fixer iface options
    cases found : exposedIn fixer line options with
    | none =>
      rw [found] at result
      rw [result]
      exact plain
    | some c =>
      rw [found] at result safe
      obtain ⟨looks, a, b, text, result⟩ := result
      rw [result]
      rw [text] at plain
      obtain ⟨hc, hc'⟩ := isStanza_of_looksStatic looks
      refine plain.replace hc hc' ?_ ?_
      · intro named
        exact safe.1 (List.mem_filterMap.mpr ⟨c, List.mem_singleton.mpr rfl, named⟩)
      · rw [inetName_static_subStatic looks]
        exact fun none => nomatch none

/-- A line that is given DHCP is one of the file. -/
theorem mem_of_mem_exposed {lines : List (List Char)} {c : List Char} (h : c ∈ exposed fixer lines) :
    looksStatic fixer.alnum c = true ∧ c ∈ lines := by
  induction lines with
  | nil => cases h
  | cons line lines ih =>
    rw [exposed] at h
    rcases List.mem_append.mp h with here | later
    · split at here
      · have found : exposedIn fixer line (lines.takeWhile continues) = some c := Option.mem_toList.mp here
        unfold exposedIn at found
        split at found
        · refine ⟨List.find?_some found, ?_⟩
          rcases List.mem_cons.mp (List.mem_of_find?_eq_some found) with rfl | option
          · exact List.mem_cons_self
          · exact List.mem_cons_of_mem _ ((List.takeWhile_sublist _).subset (List.mem_filter.mp option).1)
        · cases found
      · cases here
    · obtain ⟨looks, mem⟩ := ih later
      exact ⟨looks, List.mem_cons_of_mem _ mem⟩

theorem subStatic_mem_fixedLines {lines : List (List Char)} {c : List Char} (h : c ∈ exposed fixer lines) :
    subStatic fixer.alnum c ∈ fixedLines fixer lines := by
  induction lines using block_induction with
  | nil => cases h
  | other line lines plain ih =>
    rw [exposed_other plain] at h
    rw [fixedLines, if_neg (by simp [plain])]
    exact List.mem_cons_of_mem _ (ih h)
  | short line lines iface few ih =>
    rw [exposed_short few] at h
    rw [fixedLines, if_pos iface, if_neg few]
    exact ih h
  | block line options lines iface long tail taken left ih =>
    rw [exposed_block iface long tail taken] at h
    rw [fixedLines_iface iface long, taken, left]
    rcases List.mem_append.mp h with here | later
    · have found : exposedIn fixer line options = some c := Option.mem_toList.mp here
      have result := normalize_block fixer iface options
      rw [found] at result
      obtain ⟨-, a, b, -, result⟩ := result
      rw [result]
      exact List.mem_append_left _ (List.mem_append_right _ List.mem_cons_self)
    · exact List.mem_append_right _ (ih later)

/-- Where the lines come from. -/
theorem mem_fixedLines {lines : List (List Char)} {l' : List Char} (h : l' ∈ fixedLines fixer lines) :
    (∃ l ∈ lines, l' = l ∨ l' = (strikeToken fixer l).1 ∨ l' = (fixOption fixer l).1) ∨
      ∃ c ∈ exposed fixer lines, l' = subStatic fixer.alnum c := by
  induction lines using block_induction with
  | nil =>
    rw [fixedLines] at h
    cases h
  | other line lines plain ih =>
    rw [fixedLines, if_neg (by simp [plain])] at h
    rw [exposed_other plain]
    rcases List.mem_cons.mp h with rfl | later
    · exact .inl ⟨line, List.mem_cons_self, .inr (.inl rfl)⟩
    · exact (ih later).imp_left fun ⟨l, hl, made⟩ => ⟨l, List.mem_cons_of_mem _ hl, made⟩
  | short line lines iface few ih =>
    rw [fixedLines, if_pos iface, if_neg few] at h
    rw [exposed_short few]
    exact (ih h).imp_left fun ⟨l, hl, made⟩ => ⟨l, List.mem_cons_of_mem _ hl, made⟩
  | block line options lines iface long tail taken left ih =>
    rw [fixedLines_iface iface long, taken, left] at h
    rw [exposed_block iface long tail taken]
    have plain {l' : List Char} (hl' : l' ∈ line :: options.map fun l => (fixOption fixer l).1) :
        ∃ l ∈ line :: (options ++ lines), l' = l ∨ l' = (strikeToken fixer l).1 ∨ l' = (fixOption fixer l).1 := by
      rcases List.mem_cons.mp hl' with rfl | option
      · exact ⟨l', List.mem_cons_self, .inl rfl⟩
      · obtain ⟨l, hl, rfl⟩ := List.mem_map.mp option
        exact ⟨l, List.mem_cons_of_mem _ (List.mem_append_left _ hl), .inr (.inr rfl)⟩
    rcases List.mem_append.mp h with here | later
    · have result := normalize_block fixer iface options
      cases found : exposedIn fixer line options with
      | none =>
        rw [found] at result
        rw [result] at here
        exact .inl (plain here)
      | some c =>
        rw [found] at result
        obtain ⟨-, a, b, text, result⟩ := result
        rw [result, List.mem_append, List.mem_cons] at here
        rcases here with before | rfl | behind
        · exact .inl (plain (text ▸ List.mem_append_left _ before))
        · exact .inr ⟨c, List.mem_append_left _ (List.mem_singleton.mpr rfl), rfl⟩
        · exact .inl (plain (text ▸ List.mem_append_right _ (List.mem_cons_of_mem _ behind)))
    · rcases ih later with ⟨l, hl, made⟩ | ⟨c, hc, made⟩
      · exact .inl ⟨l, List.mem_cons_of_mem _ (List.mem_append_right _ hl), made⟩
      · exact .inr ⟨c, List.mem_append_right _ hc, made⟩

theorem strikeToken_cases (fixer : LineFixer) (l : List Char) :
    (strikeToken fixer l).1 = l ∨ (strikeToken fixer l).1 = commentOut l "VMware token removed by h2kvm" := by
  unfold strikeToken
  split
  · exact .inr rfl
  · exact .inl rfl

theorem newline_not_mem_fixedLines {lines : List (List Char)} (free : ∀ l ∈ lines, '\n' ∉ l) :
    ∀ l' ∈ fixedLines fixer lines, '\n' ∉ l' := by
  have struck {l : List Char} (hl : '\n' ∉ l) : '\n' ∉ (strikeToken fixer l).1 := by
    rcases strikeToken_cases fixer l with same | comment
    · rw [same]
      exact hl
    · rw [comment]
      exact newline_not_mem_commentOut hl (by decide)
  intro l' hl'
  rcases mem_fixedLines hl' with ⟨l, hl, rfl | rfl | rfl⟩ | ⟨c, hc, rfl⟩
  · exact free l' hl
  · exact struck (free l hl)
  · unfold fixOption
    simp only
    split
    · exact newline_not_mem_commentOut (struck (free l hl)) (by decide)
    · exact struck (free l hl)
  · intro newline
    rcases mem_subStaticFrom newline with old | new
    · exact free c (mem_of_mem_exposed hc).2 old
    · exact absurd new (by decide)

theorem mem_dhcpNames_fixedLines {lines : List (List Char)} {x : List Char} (h : x ∈ dhcpNames (fixedLines fixer lines)) :
    x ∈ dhcpNames lines ∨ ∃ c ∈ exposed fixer lines, ∃ y, inetName "static" c = some y ∧ subStatic fixer.alnum y = x := by
  obtain ⟨l', hl', named⟩ := List.mem_filterMap.mp h
  have comment {old : List Char} {tag : String} (same : l' = commentOut old tag) : False := by
    rw [same, inetName_commentOut] at named
    cases named
  have kept {l : List Char} (hl : l ∈ lines) (same : l' = l) : x ∈ dhcpNames lines :=
    List.mem_filterMap.mpr ⟨l, hl, same ▸ named⟩
  rcases mem_fixedLines hl' with ⟨l, hl, same | struck | fixed⟩ | ⟨c, hc, rfl⟩
  · exact .inl (kept hl same)
  · rcases strikeToken_cases fixer l with same | out
    · exact .inl (kept hl (struck.trans same))
    · exact (comment (struck.trans out)).elim
  · rcases fixOption_cases fixer l with ⟨-, same⟩ | ⟨⟨old, tag, out⟩, -⟩
    · exact .inl (kept hl (fixed.trans same))
    · exact (comment (fixed.trans out)).elim
  · exact .inr ⟨c, hc, (inetName_dhcp_subStatic (mem_of_mem_exposed hc).1 x).mp named⟩

end file

/-- No interface of an `inet static` line has `static` for a word of its name. -/
def PlainNames (fixer : LineFixer) (lines : List (List Char)) : Prop :=
  ∀ l ∈ lines, ∀ x, inetName "static" l = some x → subStatic fixer.alnum x = x

/-- An interface is not exposed, and gives its addresses in lines that survive. -/
def Survives (fixer : LineFixer) (lines : List (List Char)) (x a : List Char) : Prop :=
  x ∉ (exposed fixer lines).filterMap (inetName "static") ∧ a ∈ addressesOf x false (lines.filter (keeps fixer))

theorem linesOf_fixInterfaces (fixer : LineFixer) (content : List Char) :
    linesOf (fixInterfaces fixer content).newContent =
      if fixedLines fixer (linesOf content) = [] then [[]] else fixedLines fixer (linesOf content) := by
  have result : (fixInterfaces fixer content).newContent = joinLines (fixedLines fixer (linesOf content)) :=
    congrArg joinLines (out_foldl (linesOf content) {})
  rw [result]
  split
  · rename_i none
    rw [none]
    rfl
  · rename_i nonempty
    exact linesOf_joinLines (newline_not_mem_fixedLines fun _ => newline_not_mem_of_mem_linesOf) nonempty

/-- A static configuration outlives the fix exactly if its interface is not exposed and its addresses
stand in lines that survive. -/
theorem staticKept_iff {fixer : LineFixer} {content : List Char} (plain : PlainNames fixer (linesOf content)) :
    StaticKept content (fixInterfaces fixer content).newContent ↔
      ∀ x, ∀ a ∈ addressesOf x false (linesOf content), x ∉ dhcpNames (linesOf content) →
        Survives fixer (linesOf content) x a := by
  let lines := linesOf content
  have reads (x : List Char) : addressesOf x false (linesOf (fixInterfaces fixer content).newContent) =
      addressesOf x false (fixedLines fixer lines) := by
    rw [linesOf_fixInterfaces]
    split
    · rename_i none
      rw [none]
      rfl
    · rfl
  have dhcp : dhcpNames (linesOf (fixInterfaces fixer content).newContent) = dhcpNames (fixedLines fixer lines) := by
    rw [linesOf_fixInterfaces]
    split
    · rename_i none
      rw [none]
      rfl
    · rfl
  have same {x : List Char} (safe : x ∉ (exposed fixer lines).filterMap (inetName "static")) :
      addressesOf x false (fixedLines fixer lines) = addressesOf x false (lines.filter (keeps fixer)) :=
    (readsAs_fixedLines lines safe).addressesOf_eq false
  refine forall_congr' fun x => forall₂_congr fun a _ => forall_congr' fun noDhcp => ?_
  rw [reads, dhcp]
  constructor
  · intro kept
    have safe : x ∉ (exposed fixer lines).filterMap (inetName "static") := by
      intro bad
      obtain ⟨c, hc, named⟩ := List.mem_filterMap.mp bad
      obtain ⟨looks, mem⟩ := mem_of_mem_exposed hc
      have given : inetName "dhcp" (subStatic fixer.alnum c) = some x :=
        (inetName_dhcp_subStatic looks x).mpr ⟨x, named, plain c mem x named⟩
      exact kept.2 (List.mem_filterMap.mpr ⟨_, subStatic_mem_fixedLines hc, given⟩)
    exact ⟨safe, same safe ▸ kept.1⟩
  · intro survives
    refine ⟨(same survives.1).symm ▸ survives.2, ?_⟩
    intro given
    rcases mem_dhcpNames_fixedLines given with old | ⟨c, hc, y, named, renamed⟩
    · exact noDhcp old
    · have name : y = x := (plain c (mem_of_mem_exposed hc).2 y named).symm.trans renamed
      exact survives.1 (List.mem_filterMap.mpr ⟨c, hc, name ▸ named⟩)

end H2kvm.Network.Interfaces
