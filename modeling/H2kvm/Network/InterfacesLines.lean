import H2kvm.Network.InterfacesStatic

namespace H2kvm.Network.Interfaces

open Framework Text

/-- How often `\bstatic\b` stands in a text, where `prev` comes before it. -/
def staticsFrom (alnum : Char → Bool) : Option Char → List Char → Nat
  | _, [] => 0
  | prev, c :: s =>
    (if boundary alnum prev (some c) && startsStatic alnum (c :: s) then 1 else 0) + staticsFrom alnum (some c) s

def statics (alnum : Char → Bool) (line : List Char) : Nat := staticsFrom alnum none line

/-- The method of an `iface X inet static` line is replaced, and the rest of it stays. -/
def MethodReplaced (alnum : Char → Bool) (line line' : List Char) : Prop :=
  looksStatic alnum line = true ∧ ∃ lead rest, line = lead ++ ("static".toList ++ rest) ∧ (split lead).length = 3 ∧
    line' = lead ++ ("dhcp".toList ++ rest)

/-- The remarks at the lines that are commented out. -/
def notes : List String := ["VMware token removed by h2kvm", "MAC pinning removed by h2kvm"]

/-- A line is still there: as it was, as a comment with a note, or as an interface that is configured by DHCP now. -/
inductive Kept (alnum : Char → Bool) (line : List Char) : List Char → Prop where
  | same : Kept alnum line line
  | comment {note : String} (h : note ∈ notes) : Kept alnum line (commentOut line note)
  | dhcp {line' : List Char} (h : MethodReplaced alnum line line') : Kept alnum line line'

/-- Every line of the file is still there, in its place. -/
def LinesKept (fixer : LineFixer) (content : List Char) : Prop :=
  List.Forall₂ (Kept fixer.alnum) (linesOf content) (linesOf (fixInterfaces fixer content).newContent)

section counting

variable {alnum : Char → Bool}

theorem startsStatic_eq_true {s : List Char} (h : startsStatic alnum s = true) : ∃ r, s = "static".toList ++ r := by
  rw [startsStatic, after] at h
  split at h
  · rename_i lead
    obtain ⟨r, text⟩ := lead
    exact ⟨r, text.symm⟩
  · cases h

theorem staticsFrom_of_space {z : Char} (hz : isSpace z = true) (s : List Char) :
    staticsFrom alnum (some z) s = statics alnum s := by
  cases s with
  | nil => rfl
  | cons c s =>
    have same := @boundary_space_left alnum _ hz (some c)
    simp only [statics, staticsFrom, same]

/-- A space parts a text into pieces that are counted on their own. -/
theorem staticsFrom_append {z : Char} (hz : isSpace z = true) (ys xs : List Char) (prev : Option Char) :
    staticsFrom alnum prev (xs ++ z :: ys) = staticsFrom alnum prev xs + statics alnum ys := by
  induction xs generalizing prev with
  | nil =>
    have quiet : startsStatic alnum (z :: ys) = false := startsStatic_append [] hz
    simp [staticsFrom, quiet, staticsFrom_of_space hz]
  | cons c xs ih =>
    have same : startsStatic alnum (c :: (xs ++ z :: ys)) = startsStatic alnum (c :: xs) :=
      startsStatic_append (c :: xs) hz
    have rest := ih (some c)
    simp only [List.cons_append, staticsFrom, same]
    omega

theorem staticsFrom_static {prev : Option Char} {r : List Char} (start : boundary alnum prev (some 's') = true)
    (h : startsStatic alnum ("static".toList ++ r) = true) :
    staticsFrom alnum prev ("static".toList ++ r) = 1 + staticsFrom alnum (some 'c') r := by
  have text : "static".toList ++ r = 's' :: 't' :: 'a' :: 't' :: 'i' :: 'c' :: r := rfl
  have st : boundary alnum (some 's') (some 't') = false := rfl
  have ta : boundary alnum (some 't') (some 'a') = false := rfl
  have at' : boundary alnum (some 'a') (some 't') = false := rfl
  have ti : boundary alnum (some 't') (some 'i') = false := rfl
  have ic : boundary alnum (some 'i') (some 'c') = false := rfl
  rw [text] at h ⊢
  simp [staticsFrom, start, h, st, ta, at', ti, ic]

theorem subStaticFrom_static {prev : Option Char} {r : List Char} (start : boundary alnum prev (some 's') = true)
    (h : startsStatic alnum ("static".toList ++ r) = true) :
    subStaticFrom alnum 0 prev ("static".toList ++ r) = "dhcp".toList ++ subStaticFrom alnum 0 (some 'c') r := by
  have text : "static".toList ++ r = 's' :: 't' :: 'a' :: 't' :: 'i' :: 'c' :: r := rfl
  rw [text] at h ⊢
  rw [subStaticFrom_zero, start, h]
  rfl

/-- Each replacement makes the text shorter by two. -/
theorem length_subStaticFrom (s : List Char) (prev : Option Char) :
    (subStaticFrom alnum 0 prev s).length + 2 * staticsFrom alnum prev s = s.length := by
  induction size : s.length using Nat.strong_induction_on generalizing s prev with
  | h n ih =>
    cases s with
    | nil => simpa [subStaticFrom, staticsFrom] using size
    | cons c s =>
      by_cases found : (boundary alnum prev (some c) && startsStatic alnum (c :: s)) = true
      · obtain ⟨start, here⟩ := Bool.and_eq_true_iff.mp found
        obtain ⟨r, text⟩ := startsStatic_eq_true here
        have letter : c = 's' := (List.cons.inj text).1
        have shorter : r.length + 6 = n := by
          rw [← size, text]
          simp
        have rest := ih r.length (by omega) r (some 'c') rfl
        rw [text] at here ⊢
        rw [letter] at start
        rw [subStaticFrom_static start here, staticsFrom_static start here]
        simp only [List.length_append, String.length_toList]
        have four : "dhcp".length = 4 := rfl
        omega
      · have shorter : s.length + 1 = n := size
        have rest := ih s.length (by omega) s (some c) rfl
        rw [subStaticFrom_zero, if_neg found, staticsFrom, if_neg found, List.length_cons]
        omega

theorem subStaticFrom_of_statics {s : List Char} {prev : Option Char} (none : staticsFrom alnum prev s = 0) :
    subStaticFrom alnum 0 prev s = s := by
  induction s generalizing prev with
  | nil => rfl
  | cons c s ih =>
    rw [staticsFrom] at none
    have here : ¬(boundary alnum prev (some c) && startsStatic alnum (c :: s)) = true := by
      intro found
      rw [if_pos found] at none
      omega
    rw [subStaticFrom_zero, if_neg here, ih (by omega)]

/-- Where the method stands in an `iface X inet static` line. -/
theorem exists_method {line : List Char} (h : looksStatic alnum line = true) :
    ∃ lead z rest, line = lead ++ z :: ("static".toList ++ rest) ∧ isSpace z = true ∧ (split (lead ++ [z])).length = 3 ∧
      startsStatic alnum ("static".toList ++ rest) = true := by
  obtain ⟨x, r, more, words, starts⟩ := looksStatic_eq_true h
  have parts : Text.words isSpace line = ["iface".toList, x, "inet".toList] ++ ("static".toList ++ r) :: more := by
    rw [← split_eq_words, words]
    rfl
  obtain ⟨lead, rest, rfl, before, -, ends, stops⟩ := words_eq_append parts
  have some : lead ≠ [] := by
    intro empty
    rw [empty] at before
    cases before
  obtain ⟨lead', z, rfl⟩ : ∃ lead' z, lead = lead' ++ [z] := ⟨_, _, (List.dropLast_append_getLast some).symm⟩
  have hz : isSpace z = true := ends z (by simp)
  refine ⟨lead', z, r ++ rest, by simp, hz, ?_, ?_⟩
  · rw [split_eq_words, before]
    rfl
  · cases rest with
    | nil => rw [List.append_nil]; exact starts
    | cons y rest =>
      have hy : isSpace y = true := stops y rfl
      rw [← List.append_assoc, startsStatic_append _ hy]
      exact starts

theorem statics_of_looksStatic {line : List Char} (h : looksStatic alnum line = true) : 1 ≤ statics alnum line := by
  obtain ⟨lead, z, rest, rfl, hz, -, starts⟩ := exists_method h
  have parted : statics alnum (lead ++ z :: ("static".toList ++ rest)) = statics alnum lead + statics alnum ("static".toList ++ rest) :=
    staticsFrom_append hz _ _ _
  have here : statics alnum ("static".toList ++ rest) = 1 + staticsFrom alnum (some 'c') rest :=
    staticsFrom_static rfl starts
  omega

theorem methodReplaced_iff {line : List Char} (h : looksStatic alnum line = true) :
    MethodReplaced alnum line (subStatic alnum line) ↔ statics alnum line = 1 := by
  have shorter : (subStatic alnum line).length + 2 * statics alnum line = line.length := length_subStaticFrom line none
  constructor
  · intro ⟨_, lead, rest, text, _, replaced⟩
    rw [replaced] at shorter
    have whole : line.length = lead.length + (6 + rest.length) := by
      rw [text]
      simp only [List.length_append, String.length_toList]
      rfl
    simp only [List.length_append, String.length_toList] at shorter
    have four : "dhcp".length = 4 := rfl
    omega
  · intro once
    obtain ⟨lead, z, rest, rfl, hz, three, starts⟩ := exists_method h
    have parted : statics alnum (lead ++ z :: ("static".toList ++ rest)) =
        statics alnum lead + statics alnum ("static".toList ++ rest) := staticsFrom_append hz _ _ _
    have here : statics alnum ("static".toList ++ rest) = 1 + staticsFrom alnum (some 'c') rest :=
      staticsFrom_static rfl starts
    have before : subStatic alnum lead = lead := subStaticFrom_of_statics (by rw [← statics]; omega)
    have behind : subStaticFrom alnum 0 (some 'c') rest = rest := subStaticFrom_of_statics (by omega)
    have replaced : subStatic alnum (lead ++ z :: ("static".toList ++ rest)) = lead ++ z :: ("dhcp".toList ++ rest) := by
      have pieces : subStatic alnum (lead ++ z :: ("static".toList ++ rest)) =
          subStatic alnum lead ++ z :: subStatic alnum ("static".toList ++ rest) :=
        subStaticFrom_append hz _ _ 0 (Nat.zero_le _) _
      rw [pieces, before, subStatic_static starts, behind]
    exact ⟨h, lead ++ [z], rest, by simp, three, by rw [replaced]; simp⟩

end counting

section lines

variable {fixer : LineFixer}

/-- What the fixer makes of a line that is given no DHCP. -/
def Plain (line line' : List Char) : Prop := line' = line ∨ ∃ note ∈ notes, line' = commentOut line note

theorem Plain.isKept {alnum : Char → Bool} {line line' : List Char} (h : Plain line line') : Kept alnum line line' := by
  rcases h with rfl | ⟨note, member, rfl⟩
  · exact .same
  · exact .comment member

theorem plain_strikeToken (fixer : LineFixer) (line : List Char) : Plain line (strikeToken fixer line).1 := by
  rcases strikeToken_cases fixer line with same | comment
  · exact .inl same
  · exact .inr ⟨_, by simp [notes], comment⟩

theorem isHwaddress_commentOut (line : List Char) (tag : String) : isHwaddress (commentOut line tag) = false := by
  have first : ((lstrip (commentOut line tag)).take "hwaddress".toList.length).map foldCase ≠ "hwaddress".toList := by
    intro same
    have head : foldCase '#' = 'h' := (List.cons.inj same).1
    exact absurd head (by decide)
  rw [isHwaddress, afterWord, if_neg first]
  rfl

theorem plain_fixOption (fixer : LineFixer) (line : List Char) : Plain line (fixOption fixer line).1 := by
  rcases strikeToken_cases fixer line with same | comment
  · simp only [fixOption, same]
    split
    · exact .inr ⟨_, by simp [notes], rfl⟩
    · exact .inl rfl
  · have struck : isHwaddress (strikeToken fixer line).1 = false := by rw [comment, isHwaddress_commentOut]
    simp only [fixOption, struck, Bool.and_false]
    exact .inr ⟨_, by simp [notes], comment⟩

theorem kept_subStatic_iff {alnum : Char → Bool} {line : List Char} (h : looksStatic alnum line = true) :
    Kept alnum line (subStatic alnum line) ↔ statics alnum line = 1 := by
  have shorter : (subStatic alnum line).length + 2 * statics alnum line = line.length := length_subStaticFrom line none
  have some := statics_of_looksStatic h
  rw [← methodReplaced_iff h]
  constructor
  · intro kept
    generalize whole : subStatic alnum line = line' at kept shorter
    cases kept with
    | same => omega
    | comment member =>
      simp only [commentOut, List.length_append] at shorter
      omega
    | dhcp replaced => exact replaced
  · exact Kept.dhcp

theorem kept_block {head : List Char} {options : List (List Char)} (iface : isIfaceLine head = true) :
    List.Forall₂ (Kept fixer.alnum) (head :: options)
        (normalize fixer [] (head :: options.map fun l => (fixOption fixer l).1)).1 ↔
      ∀ c ∈ exposedIn fixer head options, statics fixer.alnum c = 1 := by
  have plain : List.Forall₂ Plain (head :: options) (head :: options.map fun l => (fixOption fixer l).1) := by
    refine .cons (.inl rfl) ?_
    rw [List.forall₂_map_right_iff]
    exact List.forall₂_same.mpr fun l _ => plain_fixOption fixer l
  have result := normalize_block fixer iface options
  cases found : exposedIn fixer head options with
  | none =>
    rw [found] at result
    rw [result]
    exact iff_of_true (plain.imp fun _ _ => Plain.isKept) (by simp)
  | some c =>
    rw [found] at result
    obtain ⟨looks, a, b, text, result⟩ := result
    rw [text] at plain
    obtain ⟨x, -, here, same⟩ := forall₂_replace (S := Kept fixer.alnum) (fun _ _ => Plain.isKept) plain (subStatic fixer.alnum c)
    have original : x = c := by
      rcases here with rfl | ⟨note, -, comment⟩
      · rfl
      · rw [comment, looksStatic_commentOut] at looks
        cases looks
    rw [result, same, original, kept_subStatic_iff looks]
    simp

theorem length_normalize (fixer : LineFixer) (iface : List Char) (lines : List (List Char)) :
    (normalize fixer iface lines).1.length = lines.length := by
  have first (alnum : Char → Bool) (lines : List (List Char)) :
      ∀ lines', dhcpFirst alnum lines = some lines' → lines'.length = lines.length := by
    induction lines with
    | nil => simp [dhcpFirst]
    | cons line lines ih =>
      intro lines' found
      rw [dhcpFirst] at found
      split at found
      · cases found
        rfl
      · obtain ⟨rest, later, rfl⟩ := Option.map_eq_some_iff.mp found
        simp [ih rest later]
  rw [normalize]
  split
  · split
    · rename_i found
      exact first _ _ _ found
    · rfl
  · rfl

theorem length_fixedLines_le (lines : List (List Char)) : (fixedLines fixer lines).length ≤ lines.length := by
  induction lines using block_induction with
  | nil => simp [fixedLines]
  | other line lines plain ih =>
    rw [fixedLines, if_neg (by simp [plain])]
    simpa using ih
  | short line lines iface few ih =>
    rw [fixedLines, if_pos iface, if_neg few, List.length_cons]
    omega
  | block line options lines iface long tail taken left ih =>
    rw [fixedLines_iface iface long, taken, left, List.length_append, length_normalize]
    simp only [List.length_cons, List.length_map, List.length_append]
    omega

/-- No line that starts an interface has too few words, and none that is given DHCP has the word `static` elsewhere. -/
def WellHeaded (fixer : LineFixer) (lines : List (List Char)) : Prop :=
  (∀ l ∈ lines, isIfaceLine l = true → 4 ≤ (split l).length) ∧ ∀ c ∈ exposed fixer lines, statics fixer.alnum c = 1

theorem kept_fixedLines_iff (lines : List (List Char)) :
    List.Forall₂ (Kept fixer.alnum) lines (fixedLines fixer lines) ↔ WellHeaded fixer lines := by
  induction lines using block_induction with
  | nil => simp [fixedLines, WellHeaded, exposed]
  | other line lines plain ih =>
    have here : Kept fixer.alnum line (strikeToken fixer line).1 := (plain_strikeToken fixer line).isKept
    rw [fixedLines, if_neg (by simp [plain]), List.forall₂_cons, ih, WellHeaded, WellHeaded, exposed_other plain]
    simp [here, plain]
  | short line lines iface few ih =>
    have shorter := @length_fixedLines_le fixer lines
    refine iff_of_false ?_ ?_
    · intro kept
      have same := kept.length_eq
      rw [fixedLines, if_pos iface, if_neg few, List.length_cons] at same
      omega
    · intro wellHeaded
      exact few (wellHeaded.1 line List.mem_cons_self iface)
  | block line options lines iface long tail taken left ih =>
    have size : (line :: options).length =
        (normalize fixer [] (line :: options.map fun l => (fixOption fixer l).1)).1.length := by
      rw [length_normalize]
      simp
    have headed : ∀ l ∈ options, isIfaceLine l = true → 4 ≤ (split l).length := by
      intro l hl start
      rw [tail l hl] at start
      cases start
    rw [fixedLines_iface iface long, taken, left, ← List.cons_append, forall₂_append_iff size, kept_block iface, ih,
      WellHeaded, WellHeaded, List.cons_append, exposed_block iface long tail taken]
    simp only [List.mem_cons, List.mem_append, Option.mem_toList, Option.mem_def]
    constructor
    · rintro ⟨here, starts, later⟩
      refine ⟨?_, ?_⟩
      · rintro l (rfl | hl | hl) start
        · exact long
        · exact headed l hl start
        · exact starts l hl start
      · rintro c (hc | hc)
        · exact here c hc
        · exact later c hc
    · rintro ⟨starts, all⟩
      exact ⟨fun c hc => all c (.inl hc), fun l hl => starts l (.inr (.inr hl)), fun c hc => all c (.inr hc)⟩

end lines

/-- The fixer keeps every line exactly if the lines that start an interface are well formed. -/
theorem linesKept_iff (fixer : LineFixer) (content : List Char) :
    LinesKept fixer content ↔ WellHeaded fixer (linesOf content) := by
  rw [LinesKept, linesOf_fixInterfaces]
  split
  · rename_i none
    rw [← kept_fixedLines_iff, none]
    refine iff_of_false ?_ ?_
    · intro kept
      obtain ⟨line, lines, here, -, text⟩ := List.forall₂_cons_right_iff.mp kept
      have single : linesOf content = [line] := by
        have one := kept.length_eq
        rw [text] at one ⊢
        have rest : lines = [] := by simpa using one
        rw [rest]
      cases here with
      | same =>
        -- an empty line starts no interface, so it would still be there
        rw [single, fixedLines, if_neg (by decide)] at none
        cases none
      | dhcp replaced =>
        obtain ⟨-, lead, rest, -, -, text⟩ := replaced
        simp at text
    · intro kept
      exact linesOf_ne_nil content (List.forall₂_nil_right_iff.mp kept)
  · exact kept_fixedLines_iff (linesOf content)

/-- A file with an interface that has no method is left without that line, and an interface whose name has the word
`static` in it is renamed. -/
theorem not_linesKept_malformed :
    ¬LinesKept ⟨.conservative, fun _ => false, ∅⟩ "auto eth0\niface eth0 inet\n".toList ∧
      ¬LinesKept ⟨.moderate, fun _ => false, ∅⟩ "iface br-static inet static\n".toList := by
  refine ⟨fun h => ?_, fun h => ?_⟩
  all_goals
    rw [LinesKept, linesOf_fixInterfaces, if_neg (by decide +kernel), kept_fixedLines_iff] at h
  · exact absurd (h.1 "iface eth0 inet".toList (by decide +kernel) (by decide +kernel)) (by decide +kernel)
  · exact absurd (h.2 "iface br-static inet static".toList (by decide +kernel)) (by decide +kernel)

end H2kvm.Network.Interfaces
