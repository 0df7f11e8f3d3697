import H2kvm.Framework.Matches
import H2kvm.Live.RemoteFile
import H2kvm.Network.Scan

namespace H2kvm.Live

section grubRoot

open Framework Text
open Network (isWord)

/-- What the remote answers when it is asked for the root device; no text stands for no answer. -/
structure GrubRemote where
  rootSource : List Char
  readlink : List Char → List Char
  isBlockdev : List Char → Bool
  blkid : List Char → List Char → List Char
  base64 : Bool

structure LiveGrubFixer where
  updateGrub : Bool
  dryRun : Bool
  prefer : List (List Char)

/-- `\[.*\]$`, of a text that has no newline at its end. -/
def subvolumeAt : Pattern Unit := fun _ s =>
  match s with
  | '[' :: t => if t.getLast? = some ']' ∧ '\n' ∉ t then some ((), s.length) else none
  | _ => none

/-- `_sanitize_root_spec`. -/
def sanitizeRootSpec (spec : List Char) : List Char :=
  let s := strip spec
  if s = [] then s else strip (subst subvolumeAt (fun _ => []) s)

/-- `re.match(r"^(UUID|PARTUUID|LABEL|PARTLABEL)=.+", spec)`. -/
def isStableSpec (spec : List Char) : Bool :=
  ["UUID=".toList, "PARTUUID=".toList, "LABEL=".toList, "PARTLABEL=".toList].any fun key =>
    (after key spec).any fun rest => rest.head?.any (· ≠ '\n')

/-- `_convert_spec_to_stable`. -/
def convertSpecToStable (fixer : LiveGrubFixer) (remote : GrubRemote) (spec : List Char) : List Char :=
  let spec := sanitizeRootSpec spec
  if isStableSpec spec then spec
  else
    let resolved := if "/dev/disk/by-".toList <+: spec ∧ remote.readlink spec ≠ [] then remote.readlink spec else spec
    let resolved :=
      if "/dev/mapper/".toList <+: resolved ∧ "/dev/".toList <+: remote.readlink resolved then remote.readlink resolved
      else resolved
    if ¬ "/dev/".toList <+: resolved then spec
    else if ¬ remote.isBlockdev resolved then spec
    else
      match fixer.prefer.find? fun key => remote.blkid resolved key ≠ [] with
      | some key => key ++ '=' :: remote.blkid resolved key
      | none => spec

def isQuote (c : Char) : Bool := c = '"' || c = '\''

section root

variable (alnum : Char → Bool)

/-- `\broot=`, and what follows it. -/
def afterRoot (prev : Option Char) (s : List Char) : Option (List Char) :=
  if prev.any (isWord alnum) then none else after "root=".toList s

/-- `\broot=`. -/
def rootAt : Pattern Unit := fun prev s => (afterRoot alnum prev s).map fun _ => ((), 5)

/-- `\broot=("|\')`. -/
def rootQuoteAt : Pattern Unit := fun prev s =>
  (afterRoot alnum prev s).bind fun rest => if rest.head?.any isQuote then some ((), 6) else none

/-- `\broot=(["\'])[^"\']+\1`: the match and its group. -/
def quotedRootAt : Pattern (List Char × Option (List Char)) := fun prev s =>
  (afterRoot alnum prev s).bind fun rest =>
    match rest with
    | [] => none
    | quote :: t =>
      let body := t.takeWhile fun c => !isQuote c
      if isQuote quote ∧ body ≠ [] ∧ (t.drop body.length).head? = some quote then
        some ((s.take (body.length + 7), some [quote]), body.length + 7)
      else none

/-- `\broot=[^\s\"']+`: the match; there is no group. -/
def plainRootAt : Pattern (List Char × Option (List Char)) := fun prev s =>
  (afterRoot alnum prev s).bind fun rest =>
    let body := rest.takeWhile fun c => !isSpace c && !isQuote c
    if body = [] then none else some ((s.take (body.length + 5), none), body.length + 5)

end root

section templates

def isOctal (c : Char) : Bool := '0' ≤ c && c ≤ '7'

def octal (digits : List Char) : Nat := digits.foldl (fun n c => 8 * n + (c.toNat - '0'.toNat)) 0

/-- A group of the match, of which there is one at most. -/
def groupText (whole : List Char) (group : Option (List Char)) (n : Nat) : Option (List Char) :=
  if n = 0 then some whole else if n = 1 then group else none

def escapes : List (Char × Char) :=
  [('a', '\x07'), ('b', '\x08'), ('f', '\x0c'), ('n', '\n'), ('r', '\r'), ('t', '\t'), ('v', '\x0b'), ('\\', '\\')]

/-- An escape of a template of `re.sub`: the text it stands for, none where it is an error. -/
def escapeAt (whole : List Char) (group : Option (List Char)) : Pattern (Option (List Char)) := fun _ s =>
  match s with
  | ['\\'] => some (none, 1)
  | '\\' :: 'g' :: '<' :: t =>
    let name := t.takeWhile (· ≠ '>')
    if '>' ∈ t ∧ name ≠ [] ∧ name.all Char.isDigit then
      some (groupText whole group (Nat.ofDigitChars 10 name 0), name.length + 4)
    else some (none, 3)
  | '\\' :: '0' :: t =>
    let digits := (t.take 2).takeWhile isOctal
    some (some [Char.ofNat (octal digits % 256)], digits.length + 2)
  | '\\' :: c :: t =>
    if c.isDigit then
      let digits := c :: (t.take 2).takeWhile Char.isDigit
      if digits.length = 3 ∧ digits.all isOctal then
        some (if octal digits ≤ 255 then some [Char.ofNat (octal digits)] else none, 4)
      else
        let digits := digits.take 2
        some (groupText whole group (Nat.ofDigitChars 10 digits 0), digits.length + 1)
    else
      match escapes.lookup c with
      | some meant => some (some [meant], 2)
      | none => if c.isAlpha then some (none, 2) else some (some ['\\', c], 2)
  | _ => none

/-- A template filled in. -/
def expand (template whole : List Char) (group : Option (List Char)) : Option (List Char) :=
  ((cutFrom (escapeAt whole group) 0 none template).mapM (Sum.elim id fun c => some [c])).map List.flatten

/-- `re.sub(pattern, template, s)`; a bad template raises whether or not there is a match. -/
def reSub (p : Pattern (List Char × Option (List Char))) (group : Option (List Char)) (template s : List Char) :
    Option (List Char) :=
  (expand template [] group).map fun _ => subst p (fun found => (expand template found.1 found.2).getD []) s

end templates

/-- `^(GRUB_CMDLINE_LINUX(?:_DEFAULT)?)=(["\'])(.*)\2\s*$`: the variable, the quote and the value. -/
def cmdlineOf (line : List Char) : Option (List Char × Char × List Char) :=
  ["GRUB_CMDLINE_LINUX".toList, "GRUB_CMDLINE_LINUX_DEFAULT".toList].findSome? fun key =>
    (after (key ++ ['=']) line).bind fun rest =>
      match rest with
      | [] => none
      | quote :: t =>
        if isQuote quote ∧ (rstrip t).getLast? = some quote then some (key, quote, (rstrip t).dropLast) else none

section patching

variable (alnum : Char → Bool) (stable : List Char)

/-- The value with the stable root in it, or none where `re.sub` raises. -/
def patchValue (quote : Char) (val : List Char) : Option (List Char) :=
  if searchFrom (rootQuoteAt alnum) none val then
    reSub (quotedRootAt alnum) (some []) ("root=".toList ++ quote :: (stable ++ [quote])) val
  else if searchFrom (rootAt alnum) none val then reSub (plainRootAt alnum) none ("root=".toList ++ stable) val
  else some (strip (val ++ (" root=".toList ++ stable)))

/-- `patch_line`, and whether it touched the line. -/
def patchLine (line : List Char) : Option (List Char × Bool) :=
  match cmdlineOf line with
  | none => some (line, false)
  | some (key, quote, val) =>
    (patchValue alnum stable quote val).map fun val2 => (key ++ '=' :: quote :: (val2 ++ [quote]), val2 ≠ val)

def appendedLine : List Char := "GRUB_CMDLINE_LINUX=\"root=".toList ++ (stable ++ ['"'])

/-- The lines of the new file. -/
def newLines (lines : List (List Char)) : Option (List (List Char)) :=
  (lines.mapM (patchLine alnum stable)).map fun patched =>
    if patched.any Prod.snd then patched.map Prod.fst else patched.map Prod.fst ++ [appendedLine stable]

end patching

/-- `update_grub_root`: what it returns and the file after it, or none where it raises. -/
def updateGrubRoot (alnum : Char → Bool) (fixer : LiveGrubFixer) (remote : GrubRemote) (grub : Option (List Char)) :
    Option (Bool × Option (List Char)) :=
  if ¬ fixer.updateGrub then some (false, grub)
  else if remote.rootSource = [] then some (false, grub)
  else
    let rootSrc := sanitizeRootSpec remote.rootSource
    let stable := convertSpecToStable fixer remote rootSrc
    if stable = rootSrc then some (false, grub)
    else
      match grub with
      | none => some (false, grub)
      | some old =>
        if strip old = [] then some (false, grub)
        else
          (newLines alnum stable (splitlines old)).map fun lines =>
            let new := join ['\n'] lines ++ ['\n']
            if new = old then (false, grub)
            else if fixer.dryRun then (true, grub)
            else (true, some (written remote.base64 new))

end grubRoot

section grubRootRuns

open Framework Text

def grubVariables : List (List Char) := ["GRUB_CMDLINE_LINUX".toList, "GRUB_CMDLINE_LINUX_DEFAULT".toList]

/-- The text a line assigns to a variable. -/
def assigned (key line : List Char) : Option (List Char) := after (key ++ ['=']) line

/-- A value without the quotes around it. -/
def unquoted (value : List Char) : List Char :=
  match strip value with
  | quote :: t => if isQuote quote ∧ t.getLast? = some quote then t.dropLast else quote :: t
  | [] => []

/-- The kernel arguments a variable has at the end of the file: its last assignment counts. -/
def effective (key text : List Char) : List (List Char) :=
  ((splitlines text).filterMap (assigned key)).getLast?.elim [] fun value => split (unquoted value)

def isRootToken (token : List Char) : Bool := "root=".toList.isPrefixOf token

/-- A run over a file rewrites the root argument, of both variables and nothing else, and a second run finds nothing to
do. -/
def Exact (alnum : Char → Bool) (fixer : LiveGrubFixer) (remote : GrubRemote) (old : List Char) : Prop :=
  let stable := convertSpecToStable fixer remote (sanitizeRootSpec remote.rootSource)
  ∃ new, updateGrubRoot alnum fixer remote (some old) = some (true, some new) ∧
    (∀ (i : Nat) line, (splitlines old)[i]? = some line → (∀ key ∈ grubVariables, assigned key line = none) →
      (splitlines new)[i]? = some line) ∧
    (∀ key ∈ grubVariables, (effective key new).filter (fun token => !isRootToken token) =
        (effective key old).filter (fun token => !isRootToken token) ∧
      ((effective key new).filter isRootToken = [] ∨ (effective key new).filter isRootToken = ["root=".toList ++ stable])) ∧
    (∃ key ∈ grubVariables, "root=".toList ++ stable ∈ effective key new) ∧
    (∀ key ∈ grubVariables, (∃ line ∈ splitlines old, (assigned key line).isSome) →
      ∀ line ∈ (splitlines new).drop (splitlines old).length, assigned key line = none) ∧
    updateGrubRoot alnum fixer remote (some new) = some (false, some new)

section lines

/-- Lines written one after the other come to at least as many lines. -/
theorem splitlines_flatMap (lines : List (List Char)) :
    splitlines (lines.flatMap (· ++ ['\n'])) = lines.flatMap fun line => splitlines (line ++ ['\n']) := by
  induction lines with
  | nil => rfl
  | cons line lines ih =>
    rw [List.flatMap_cons, List.flatMap_cons, List.append_assoc, List.singleton_append, splitlines_append, ih]

theorem length_splitlines_flatMap (lines : List (List Char)) :
    lines.length ≤ (splitlines (lines.flatMap (· ++ ['\n']))).length := by
  rw [splitlines_flatMap]
  induction lines with
  | nil => exact le_rfl
  | cons line lines ih =>
    have some := List.length_pos_iff.mpr (splitlines_ne_nil (s := line ++ ['\n']) (by simp))
    rw [List.flatMap_cons, List.length_append, List.length_cons]
    omega

/-- A step that may fail, made of each member and failing nowhere. -/
theorem map_of_mapM {α β : Type} {f : α → Option β} {l : List α} {l' : List β} (done : l.mapM f = some l') :
    l.map f = l'.map some := by
  induction l generalizing l' with
  | nil =>
    cases done
    rfl
  | cons x l ih =>
    rw [List.mapM_cons] at done
    obtain ⟨y, first, more⟩ := Option.bind_eq_some_iff.mp done
    obtain ⟨ys, rest, made⟩ := Option.bind_eq_some_iff.mp more
    cases made
    rw [List.map_cons, List.map_cons, first, ih rest]

end lines

section patched

variable {alnum : Char → Bool} {stable line : List Char}

/-- What a line of an assignment has in it. -/
theorem cmdlineOf_eq_some {key val : List Char} {quote : Char} (matched : cmdlineOf line = some (key, quote, val)) :
    key ∈ grubVariables ∧ isSpace quote = false ∧
      ∃ spaces, Blank spaces ∧ line = key ++ '=' :: quote :: (val ++ quote :: spaces) := by
  obtain ⟨key', member, found⟩ := List.exists_of_findSome?_eq_some matched
  obtain ⟨rest, lead, found⟩ := Option.bind_eq_some_iff.mp found
  cases rest with
  | nil => cases found
  | cons quote' t =>
    dsimp only at found
    split at found
    · rename_i fits
      cases found
      obtain ⟨isQuote, last⟩ := fits
      have visible : isSpace quote = false := by
        simp only [Live.isQuote, Bool.or_eq_true, decide_eq_true_eq] at isQuote
        rcases isQuote with rfl | rfl <;> decide
      refine ⟨member, visible, t.rtakeWhile isSpace, fun c inside => List.mem_rtakeWhile_imp inside, ?_⟩
      have whole : rstrip t ++ t.rtakeWhile isSpace = t := List.rdropWhile_append_rtakeWhile
      have value : (rstrip t).dropLast ++ [quote] = rstrip t := List.dropLast_append_getLast? quote last
      unfold after at lead
      split at lead
      · rename_i start
        obtain ⟨rest, form⟩ := start
        rw [Option.some.injEq, ← form, List.drop_left] at lead
        rw [← form, lead, List.append_assoc, List.singleton_append, ← List.singleton_append (l := t.rtakeWhile isSpace),
          ← List.append_assoc, value, whole]
      · cases lead
    · cases found

/-- Where a line that was touched is written, the line is not read again. -/
theorem splitlines_touched {patched : List Char} (done : patchLine alnum stable line = some (patched, true)) :
    splitlines (patched ++ ['\n']) ≠ [line] := by
  intro same
  unfold patchLine at done
  split at done
  · cases done
  · rename_i key quote val matched
    obtain ⟨val2, -, made⟩ := Option.map_eq_some_iff.mp done
    rw [Prod.mk.injEq, decide_eq_true_eq] at made
    obtain ⟨rfl, changed⟩ := made
    obtain ⟨-, visible, spaces, blank, form⟩ := cmdlineOf_eq_some matched
    obtain ⟨free, ends, breaks, whole⟩ := splitlines_eq_singleton same
    -- both are the key, the quote and a value, and then spaces
    have tails : val2 ++ (quote :: ['\n']) = val ++ quote :: (spaces ++ ends) := by
      rw [form] at whole
      simpa using whole
    have cut (value gap : List Char) (blank : Blank gap) : rstrip (value ++ quote :: gap) = value ++ [quote] := by
      have last : (value ++ [quote]).rdropWhile isSpace = value ++ [quote] :=
        List.rdropWhile_concat_neg _ _ _ (by rw [visible]; decide)
      have dropped : (value ++ [quote] ++ gap).rdropWhile isSpace = value ++ [quote] ++ gap.rdropWhile isSpace :=
        rdropWhile_append (fun c found => by
          rw [List.getLast?_concat, Option.some.injEq] at found
          rw [← found, visible]) (by simp) gap
      have nothing : gap.rdropWhile isSpace = [] := List.rdropWhile_eq_nil_iff.mpr blank
      rw [rstrip, ← List.singleton_append, ← List.append_assoc, dropped, nothing, List.append_nil]
    have values := congrArg rstrip tails
    rw [cut val2 ['\n'] (by intro c member; rw [List.mem_singleton.mp member]; decide), cut val (spaces ++ ends)] at values
    · exact changed (List.append_cancel_right values)
    · intro c member
      rcases List.mem_append.mp member with space | ended
      · exact blank c space
      · exact isSpace_of_isBreak (breaks c ended)

/-- The file is never left as it is: a line is touched, or a line is appended. -/
theorem newLines_changed {old : List Char} {lines : List (List Char)} (done : newLines alnum stable (splitlines old) = some lines) :
    lines.flatMap (· ++ ['\n']) ≠ old := by
  intro same
  obtain ⟨patched, each, made⟩ := Option.map_eq_some_iff.mp done
  have each := map_of_mapM each
  have counted : patched.length = (splitlines old).length := by
    have lengths := congrArg List.length each
    rw [List.length_map, List.length_map] at lengths
    exact lengths.symm
  split at made
  · rename_i touched
    subst made
    obtain ⟨found, member, marked⟩ := List.any_eq_true.mp touched
    obtain ⟨line, inside, patch⟩ := List.mem_map.mp (each ▸ List.mem_map_of_mem member)
    -- as many lines are read as were written, so one of each
    let read (found : List Char × Bool) : List (List Char) := splitlines (found.1 ++ ['\n'])
    have parts : (splitlines old).flatMap (fun line => (patchLine alnum stable line).elim [] read) = splitlines old := by
      have written : (patched.map Prod.fst).flatMap (fun line => splitlines (line ++ ['\n'])) = splitlines old := by
        rw [← splitlines_flatMap, same]
      have moved : ((splitlines old).map (patchLine alnum stable)).flatMap (fun found => found.elim [] read) = splitlines old := by
        rw [each, List.flatMap_map, ← written, List.flatMap_map]
        rfl
      rwa [List.flatMap_map] at moved
    have pairs : List.Forall₂ Eq ((splitlines old).map id)
        ((splitlines old).flatMap fun line => (patchLine alnum stable line).elim [] read) := by
      rw [parts, List.map_id, List.forall₂_eq_eq_eq]
    have some (line : List Char) (inside : line ∈ splitlines old) : (patchLine alnum stable line).elim [] read ≠ [] := by
      obtain ⟨found, -, patch⟩ := List.mem_map.mp (each ▸ List.mem_map_of_mem inside)
      rw [← patch]
      exact splitlines_ne_nil (by simp)
    obtain ⟨line', single, rfl⟩ := (forall₂_flatMap_iff some).mp pairs line inside
    rw [patch] at single
    obtain ⟨text, touched⟩ := found
    cases marked
    exact splitlines_touched patch single
  · subst made
    have longer := length_splitlines_flatMap (patched.map Prod.fst ++ [appendedLine stable])
    rw [same, List.length_append, List.length_map, List.length_singleton, counted] at longer
    omega

/-- Of the lines that are written one assigns kernel arguments. -/
theorem newLines_assigns {old lines : List (List Char)} (done : newLines alnum stable old = some lines) :
    ∃ line ∈ lines, 'G' ∈ line := by
  obtain ⟨patched, each, made⟩ := Option.map_eq_some_iff.mp done
  split at made
  · rename_i touched
    subst made
    obtain ⟨⟨text, marked⟩, member, rfl⟩ := List.any_eq_true.mp touched
    obtain ⟨line, -, patch⟩ := List.mem_map.mp (map_of_mapM each ▸ List.mem_map_of_mem member)
    refine ⟨text, List.mem_map_of_mem (f := Prod.fst) member, ?_⟩
    unfold patchLine at patch
    split at patch
    · cases patch
    · rename_i key quote val matched
      obtain ⟨val2, -, form⟩ := Option.map_eq_some_iff.mp patch
      have starts : ∀ key ∈ grubVariables, 'G' ∈ key := by decide +kernel
      rw [← (Prod.mk.inj form).1]
      exact List.mem_append_left _ (starts key (cmdlineOf_eq_some matched).1)
  · subst made
    have starts : 'G' ∈ "GRUB_CMDLINE_LINUX=\"root=".toList := by decide +kernel
    exact ⟨appendedLine stable, by simp, List.mem_append_left _ starts⟩

end patched

section runs

variable {alnum : Char → Bool} {fixer : LiveGrubFixer} {remote : GrubRemote} {old : List Char}

/-- There is something to do: a root device is found, and there is a stable name for it. -/
structure Improves (fixer : LiveGrubFixer) (remote : GrubRemote) : Prop where
  asked : fixer.updateGrub = true
  found : remote.rootSource ≠ []
  better : convertSpecToStable fixer remote (sanitizeRootSpec remote.rootSource) ≠ sanitizeRootSpec remote.rootSource

theorem strip_ne_nil {s : List Char} {c : Char} (member : c ∈ s) (visible : isSpace c = false) : strip s ≠ [] := by
  intro none
  obtain ⟨lead, trail, form, blank, blank'⟩ := strip_split s
  rw [none, List.nil_append] at form
  rw [form] at member
  have space : isSpace c = true := (List.mem_append.mp member).elim (blank c) (blank' c)
  rw [visible] at space
  cases space

theorem updateGrubRoot_eq (improves : Improves fixer remote) (some' : strip old ≠ []) :
    updateGrubRoot alnum fixer remote (some old) =
      (newLines alnum (convertSpecToStable fixer remote (sanitizeRootSpec remote.rootSource)) (splitlines old)).map fun lines =>
        (true, some (if fixer.dryRun then old else written remote.base64 (lines.flatMap (· ++ ['\n'])))) := by
  rw [updateGrubRoot, if_neg (not_not_intro improves.asked), if_neg improves.found]
  dsimp only
  rw [if_neg improves.better, if_neg some']
  cases done : newLines alnum (convertSpecToStable fixer remote (sanitizeRootSpec remote.rootSource)) (splitlines old) with
  | none => rfl
  | some lines =>
    obtain ⟨line, member, -⟩ := newLines_assigns done
    have written := flatMap_newline (List.ne_nil_of_mem member)
    rw [Option.map_some, Option.map_some, ← written, if_neg (newLines_changed done)]
    split <;> rfl

theorem improves_of_updated {new : Option (List Char)} (done : updateGrubRoot alnum fixer remote (some old) = some (true, new)) :
    Improves fixer remote ∧ strip old ≠ [] := by
  unfold updateGrubRoot at done
  split at done
  · cases done
  rename_i asked
  split at done
  · cases done
  rename_i found
  dsimp only at done
  split at done
  · cases done
  rename_i better
  split at done
  · cases done
  rename_i some'
  exact ⟨⟨not_not.mp asked, found, better⟩, some'⟩

end runs

/-- No run is exact: the next one finds nothing to touch, and appends an assignment of its own. -/
theorem not_exact (alnum : Char → Bool) (fixer : LiveGrubFixer) (remote : GrubRemote) (old : List Char) :
    ¬ Exact alnum fixer remote old := by
  rintro ⟨new, first, -, -, -, -, again⟩
  obtain ⟨improves, some'⟩ := improves_of_updated first
  have visible : strip new ≠ [] := by
    rw [updateGrubRoot_eq improves some'] at first
    obtain ⟨lines, done, made⟩ := Option.map_eq_some_iff.mp first
    rw [Prod.mk.injEq, and_iff_right rfl, Option.some.injEq] at made
    split at made
    · rwa [← made]
    · obtain ⟨line, member, start⟩ := newLines_assigns done
      have inside : 'G' ∈ lines.flatMap (· ++ ['\n']) :=
        List.mem_flatMap.mpr ⟨line, member, List.mem_append_left _ start⟩
      refine strip_ne_nil (c := 'G') ?_ (by decide)
      rw [← made, written]
      split
      · exact inside
      · exact List.mem_append_left _ inside
  rw [updateGrubRoot_eq improves visible] at again
  obtain ⟨lines, -, made⟩ := Option.map_eq_some_iff.mp again
  cases made

def exampleRemote : GrubRemote where
  rootSource := "/dev/sda2".toList
  readlink _ := []
  isBlockdev _ := true
  blkid _ _ := "12-ab".toList
  base64 := true

/-- The first run puts the UUID in; the second appends a line that overrides the first, and `quiet` is lost. -/
theorem not_exact_quiet : ¬ Exact (fun _ => false) ⟨true, false, ["UUID".toList]⟩ exampleRemote
    "GRUB_CMDLINE_LINUX=\"quiet root=/dev/sda2\"\n".toList := by
  rintro ⟨new, first, -, -, -, -, again⟩
  have once : updateGrubRoot (fun _ => false) ⟨true, false, ["UUID".toList]⟩ exampleRemote
      (some "GRUB_CMDLINE_LINUX=\"quiet root=/dev/sda2\"\n".toList) =
        some (true, some "GRUB_CMDLINE_LINUX=\"quiet root=UUID=12-ab\"\n".toList) := by decide +kernel
  have twice : updateGrubRoot (fun _ => false) ⟨true, false, ["UUID".toList]⟩ exampleRemote
      (some "GRUB_CMDLINE_LINUX=\"quiet root=UUID=12-ab\"\n".toList) =
        some (true, some "GRUB_CMDLINE_LINUX=\"quiet root=UUID=12-ab\"\nGRUB_CMDLINE_LINUX=\"root=UUID=12-ab\"\n".toList) := by
    decide +kernel
  rw [once] at first
  cases first
  rw [twice] at again
  cases again

end grubRootRuns

end H2kvm.Live
