import Mathlib
import H2kvm.Framework.Matches
import H2kvm.Framework.Scanning
import H2kvm.Framework.Base64
import H2kvm.Framework.Utf8

namespace H2kvm.Live

open Framework Text

section remoteShell

/-- What a remote command leaves: its exit code and what it prints. -/
structure Ran where
  rc : Nat
  stdout : List Char

/-- A time as `U.now_ts` writes it, `YYYYMMDD-HHMMSS`; the year has four digits at least. -/
structure Stamp where
  date : List Char
  time : List Char
  date_digits : ∀ c ∈ date, c.isDigit = true
  date_length : 8 ≤ date.length
  time_digits : ∀ c ∈ time, c.isDigit = true
  time_length : time.length = 6

def Stamp.text (stamp : Stamp) : List Char := stamp.date ++ '-' :: stamp.time

/-- `f"__H2KVM_RC_{U.now_ts()}_{id(cmd)}__"`. -/
def rcMarker (stamp : Stamp) (id : Nat) : List Char :=
  "__H2KVM_RC_".toList ++ (stamp.text ++ '_' :: (Nat.toDigits 10 id ++ "__".toList))

/-- `\s*$` under `re.M`, and what is left: spaces are given back until a line or the text ends. -/
def lineEnd : List Char → Option (List Char)
  | [] => some []
  | c :: s => (if isSpace c then lineEnd s else none).or (if c = '\n' then some (c :: s) else none)

/-- `(\d+)\s*$`. -/
def codeEnd : List Char → Option (List Char × List Char)
  | [] => none
  | c :: s =>
    if isDigit c then
      ((codeEnd s).map fun (digits, rest) => (c :: digits, rest)).or ((lineEnd s).map fun rest => ([c], rest))
    else none

/-- `rf"{re.escape(marker)}=(\d+)\s*$"`. -/
def rcAt (marker : List Char) : Pattern (List Char) := fun _ s => do
  let (digits, rest) ← codeEnd (← after (marker ++ ['=']) s)
  return (digits, s.length - rest.length)

/-- `rf"\n?{re.escape(marker)}=\d+\s*$"`. -/
def rcLineAt (marker : List Char) : Pattern (List Char) := fun prev s =>
  match s with
  | '\n' :: t =>
    match rcAt marker (some '\n') t with
    | some (digits, n) => some (digits, n + 1)
    | none => rcAt marker prev s
  | _ => rcAt marker prev s

/-- What the wrapper of a command prints: the command's output, and then the marker with its exit code. -/
def printed (marker : List Char) (ran : Ran) : List Char :=
  ran.stdout ++ '\n' :: (marker ++ '=' :: (Nat.toDigits 10 ran.rc ++ ['\n']))

/-- What `_sh` makes of the text that came back. -/
def sh (marker out : List Char) : Nat × List Char :=
  match (findAll (rcAt marker) out).getLast? with
  | some digits => (intOf digits, subst (rcLineAt marker) (fun _ => []) out)
  | none => (0, out)

/-- Somewhere in a text stands a marker with a code, and a line ends there. -/
def Marked (marker s : List Char) : Prop := ∃ a t, s = a ++ t ∧ (rcAt marker none t).isSome

/-- A text has a line that ends like what the wrapper prints, of any time and any command. -/
def MarkerLike (s : List Char) : Prop := ∃ stamp id, Marked (rcMarker stamp id) s

section patterns

variable {marker s t tail : List Char} {prev : Option Char}

theorem length_lineEnd {rest : List Char} (h : lineEnd s = some rest) : rest.length ≤ s.length := by
  induction s generalizing rest with
  | nil =>
    rw [lineEnd, Option.some.injEq] at h
    rw [← h]
  | cons c s ih =>
    rw [lineEnd, Option.or_eq_some_iff] at h
    rcases h with further | ⟨-, here⟩
    · split at further
      · exact (ih further).trans (Nat.le_succ _)
      · cases further
    · split at here
      · cases here
        exact le_rfl
      · cases here

theorem length_codeEnd {found : List Char × List Char} (h : codeEnd s = some found) : found.2.length < s.length := by
  induction s generalizing found with
  | nil => cases h
  | cons c s ih =>
    rw [codeEnd] at h
    split at h
    · rcases Option.or_eq_some_iff.mp h with further | ⟨-, here⟩
      · obtain ⟨found, more, rfl⟩ := Option.map_eq_some_iff.mp further
        exact (ih more).trans (Nat.lt_succ_self _)
      · obtain ⟨rest, ended, rfl⟩ := Option.map_eq_some_iff.mp here
        exact Nat.lt_succ_of_le (length_lineEnd ended)
    · cases h

theorem lineEnd_append (visible : ∀ c, tail.head? = some c → isSpace c = false) (some : tail ≠ []) (s : List Char) :
    lineEnd (s ++ '\n' :: tail) = (lineEnd s).map (· ++ '\n' :: tail) := by
  have newline : isSpace '\n' = true := by decide
  have stuck : lineEnd tail = none := by
    cases tail with
    | nil => exact absurd rfl some
    | cons c rest =>
      have dark := visible c rfl
      have other : c ≠ '\n' := by
        rintro rfl
        rw [newline] at dark
        cases dark
      rw [lineEnd, dark, if_neg (by decide), if_neg other, Option.or_none]
  induction s with
  | nil =>
    rw [List.nil_append, lineEnd, lineEnd, if_pos newline, stuck, Option.none_or, if_pos rfl]
    rfl
  | cons c s ih =>
    rw [List.cons_append, lineEnd, lineEnd, ih]
    by_cases space : isSpace c = true
    · rw [if_pos space, if_pos space]
      cases lineEnd s with
      | some rest => rfl
      | none => by_cases same : c = '\n' <;> simp [same]
    · rw [if_neg space, if_neg space]
      by_cases same : c = '\n' <;> simp [same]

theorem codeEnd_append (visible : ∀ c, tail.head? = some c → isSpace c = false) (some : tail ≠ []) (s : List Char) :
    codeEnd (s ++ '\n' :: tail) = (codeEnd s).map fun found => (found.1, found.2 ++ '\n' :: tail) := by
  have newline : isDigit '\n' = false := by decide
  induction s with
  | nil =>
    rw [List.nil_append, codeEnd, codeEnd, newline]
    rfl
  | cons c s ih =>
    rw [List.cons_append, codeEnd, codeEnd, ih, lineEnd_append visible some]
    by_cases digit : isDigit c = true
    · rw [if_pos digit, if_pos digit]
      cases codeEnd s with
      | some found => rfl
      | none => cases lineEnd s <;> rfl
    · rw [if_neg digit, if_neg digit, Option.map_none]

theorem after_append_newline (oneLine : '\n' ∉ s) (t tail : List Char) :
    after s (t ++ '\n' :: tail) = (after s t).map (· ++ '\n' :: tail) := by
  have starts : s <+: t ++ '\n' :: tail ↔ s <+: t := by
    refine ⟨fun start => ?_, fun start => start.trans (List.prefix_append _ _)⟩
    have line : t ++ ['\n'] <+: t ++ '\n' :: tail := ⟨tail, by rw [List.append_assoc, List.singleton_append]⟩
    rcases List.prefix_or_prefix_of_prefix start line with short | long
    · rcases List.prefix_concat_iff.mp short with whole | inside
      · exact absurd (by rw [whole]; simp) oneLine
      · exact inside
    · exact absurd (long.subset (by simp)) oneLine
  unfold after
  by_cases start : s <+: t
  · rw [if_pos start, if_pos (starts.mpr start), Option.map_some, List.drop_append_of_le_length start.length_le]
  · rw [if_neg start, if_neg (mt starts.mp start), Option.map_none]

/-- A marker has one line. -/
structure IsMarker (marker : List Char) : Prop where
  oneLine : '\n' ∉ marker
  visible : ∀ c, marker.head? = some c → isSpace c = false
  some : marker ≠ []

theorem rcAt_within : (rcAt marker).Within := by
  intro prev s found n matched
  obtain ⟨rest, lead, more⟩ := Option.bind_eq_some_iff.mp matched
  obtain ⟨⟨digits, left⟩, code, same⟩ := Option.bind_eq_some_iff.mp more
  cases same
  have shorter : left.length < rest.length := length_codeEnd code
  have length : rest.length ≤ s.length := by
    unfold after at lead
    split at lead
    · cases lead
      rw [List.length_drop]
      exact Nat.sub_le _ _
    · cases lead
  exact ⟨by omega, Nat.sub_le _ _⟩

theorem rcLineAt_within : (rcLineAt marker).Within := by
  intro prev s found n matched
  unfold rcLineAt at matched
  split at matched
  · split at matched
    · rename_i t digits k here
      cases matched
      obtain ⟨-, inside⟩ := rcAt_within _ _ _ _ here
      exact ⟨Nat.succ_pos k, Nat.succ_le_succ inside⟩
    · exact rcAt_within _ _ _ _ matched
  · exact rcAt_within _ _ _ _ matched

/-- A marker on a line of its own changes nothing of what was found before. -/
theorem rcAt_append (isMarker : IsMarker marker) (visible : ∀ c, tail.head? = some c → isSpace c = false)
    (some : tail ≠ []) (prev : Option Char) (s : List Char) : rcAt marker prev (s ++ '\n' :: tail) = rcAt marker prev s := by
  have oneLine : '\n' ∉ marker ++ ['='] := by simp [isMarker.oneLine]
  unfold rcAt
  rw [after_append_newline oneLine]
  cases after (marker ++ ['=']) s with
  | none => rfl
  | some rest =>
    simp only [Option.map_some, Option.bind_eq_bind, Option.bind_some, codeEnd_append visible some]
    cases codeEnd rest with
    | none => rfl
    | some found =>
      simp only [Option.map_some, Option.bind_some, Option.pure_def, List.length_append]
      rw [Nat.add_sub_add_right]

theorem rcLineAt_append (isMarker : IsMarker marker) (visible : ∀ c, tail.head? = some c → isSpace c = false)
    (some : tail ≠ []) (prev : Option Char) {s : List Char} (nonempty : s ≠ []) :
    rcLineAt marker prev (s ++ '\n' :: tail) = rcLineAt marker prev s := by
  cases s with
  | nil => exact absurd rfl nonempty
  | cons c s =>
    have whole := rcAt_append isMarker visible some prev (c :: s)
    have rest := rcAt_append isMarker visible some (.some '\n') s
    rw [List.cons_append] at whole ⊢
    unfold rcLineAt
    by_cases newline : c = '\n'
    · subst newline
      simp only [rest, whole]
    · split
      · rename_i same
        exact absurd (List.cons.inj same).1 newline
      · split
        · rename_i same
          exact absurd (List.cons.inj same).1 newline
        · exact whole

theorem codeEnd_digits {digits : List Char} (some : digits ≠ []) (all : ∀ c ∈ digits, isDigit c = true) :
    codeEnd (digits ++ ['\n']) = .some (digits, []) := by
  induction digits with
  | nil => exact absurd rfl some
  | cons c digits ih =>
    rw [List.cons_append, codeEnd, if_pos (all c List.mem_cons_self)]
    by_cases last : digits = []
    · rw [last]
      rfl
    · rw [ih last fun d member => all d (List.mem_cons_of_mem _ member)]
      rfl

/-- The line the wrapper adds is found, to its end. -/
theorem rcAt_line (prev : Option Char) (rc : Nat) :
    rcAt marker prev (marker ++ '=' :: (Nat.toDigits 10 rc ++ ['\n'])) =
      some (Nat.toDigits 10 rc, (marker ++ '=' :: (Nat.toDigits 10 rc ++ ['\n'])).length) := by
  have parts : marker ++ '=' :: (Nat.toDigits 10 rc ++ ['\n']) = (marker ++ ['=']) ++ (Nat.toDigits 10 rc ++ ['\n']) := by
    rw [List.append_assoc, List.singleton_append]
  unfold rcAt
  rw [parts, after_self]
  simp only [Option.bind_eq_bind, Option.bind_some, codeEnd_digits (Nat.toDigits_ne_nil) (isDigit_toDigits rc)]
  rfl

theorem cutFrom_line {γ : Type} {p : Pattern γ} {found : γ} (some : s ≠ [])
    (matched : p prev s = .some (found, s.length)) : cutFrom p 0 prev s = [.inl found] := by
  cases s with
  | nil => exact absurd rfl some
  | cons c s =>
    have rest : cutFrom p ((c :: s).length - 1) (.some c) s = [] := cutFrom_of_length_le p _ (by simp)
    rw [cutFrom, matched]
    exact congrArg (Sum.inl found :: ·) rest

end patterns

section commands

variable {marker : List Char}

theorem visible_line (isMarker : IsMarker marker) (rest : List Char) (c : Char)
    (first : (marker ++ rest).head? = some c) : isSpace c = false := by
  cases marker with
  | nil => exact absurd rfl isMarker.some
  | cons d marker => exact isMarker.visible c first

theorem getLast?_findAll (isMarker : IsMarker marker) (ran : Ran) :
    (findAll (rcAt marker) (printed marker ran)).getLast? = some (Nat.toDigits 10 ran.rc) := by
  have visible := visible_line isMarker ('=' :: (Nat.toDigits 10 ran.rc ++ ['\n']))
  have some : marker ++ '=' :: (Nat.toDigits 10 ran.rc ++ ['\n']) ≠ [] := by simp
  have newline : rcAt marker (lastOr none ran.stdout) ('\n' :: (marker ++ '=' :: (Nat.toDigits 10 ran.rc ++ ['\n']))) =
      none := by
    have nothing : rcAt marker (lastOr none ran.stdout) [] = none := by simp [rcAt, after]
    exact (rcAt_append isMarker visible some _ []).trans nothing
  rw [findAll, printed, cutFrom_append rcAt_within (fun prev s _ => rcAt_append isMarker visible some prev s) (Nat.zero_le _),
    cutFrom, newline, cutFrom_line some (rcAt_line _ ran.rc), List.filterMap_append]
  exact List.getLast?_concat

theorem subst_printed (isMarker : IsMarker marker) (ran : Ran) :
    subst (rcLineAt marker) (fun _ => []) (printed marker ran) = subst (rcLineAt marker) (fun _ => []) ran.stdout := by
  have visible := visible_line isMarker ('=' :: (Nat.toDigits 10 ran.rc ++ ['\n']))
  have some : marker ++ '=' :: (Nat.toDigits 10 ran.rc ++ ['\n']) ≠ [] := by simp
  have line (prev : Option Char) : rcLineAt marker prev ('\n' :: (marker ++ '=' :: (Nat.toDigits 10 ran.rc ++ ['\n']))) =
      .some (Nat.toDigits 10 ran.rc, ('\n' :: (marker ++ '=' :: (Nat.toDigits 10 ran.rc ++ ['\n']))).length) := by
    simp only [rcLineAt, rcAt_line, List.length_cons]
  rw [subst, printed,
    cutFrom_append rcLineAt_within (fun prev s => rcLineAt_append isMarker visible some prev) (Nat.zero_le _),
    cutFrom_line (by simp) (line _), List.flatMap_append]
  simp [subst]

/-- `_sh` always has the exit code; of the output it leaves out the lines that look like the wrapper's. -/
theorem sh_printed (isMarker : IsMarker marker) (ran : Ran) :
    sh marker (printed marker ran) = (ran.rc, subst (rcLineAt marker) (fun _ => []) ran.stdout) := by
  rw [sh, getLast?_findAll isMarker, subst_printed isMarker]
  simp only [intOf_toDigits]

theorem rcAt_prev (marker : List Char) (prev prev' : Option Char) (s : List Char) :
    rcAt marker prev s = rcAt marker prev' s := rfl

theorem sh_printed_eq_iff (isMarker : IsMarker marker) (ran : Ran) :
    sh marker (printed marker ran) = (ran.rc, ran.stdout) ↔ ¬ Marked marker ran.stdout := by
  rw [sh_printed isMarker, Prod.mk.injEq, and_iff_right rfl, subst_nil_eq_self_iff rcLineAt_within]
  constructor
  · rintro free ⟨a, t, split, found⟩
    have some : t ≠ [] := by
      rintro rfl
      simp [rcAt, after] at found
    have none := free a t split some
    unfold rcLineAt at none
    split at none
    · split at none
      · cases none
      · rw [rcAt_prev marker _ Option.none] at none
        rw [none] at found
        cases found
    · rw [rcAt_prev marker _ Option.none] at none
      rw [none] at found
      cases found
  · intro free a t split some
    have nowhere (a t : List Char) (split : ran.stdout = a ++ t) (prev : Option Char) : rcAt marker prev t = none := by
      rw [rcAt_prev marker prev none]
      exact Option.not_isSome_iff_eq_none.mp fun found => free ⟨a, t, split, found⟩
    unfold rcLineAt
    split
    · rename_i t
      rw [nowhere (a ++ ['\n']) t (by rw [split, List.append_assoc, List.singleton_append])]
      exact nowhere a _ split _
    · exact nowhere a t split _

theorem newline_not_mem_rcMarker (stamp : Stamp) (id : Nat) : '\n' ∉ rcMarker stamp id := by
  have digit : ∀ c : Char, c.isDigit = true → c ≠ '\n' := by
    rintro c digit rfl
    exact absurd digit (by decide)
  have name : '\n' ∉ "__H2KVM_RC_".toList := by decide +kernel
  have ending : '\n' ∉ "__".toList := by decide +kernel
  have dash : '\n' ≠ '-' := by decide
  have underscore : '\n' ≠ '_' := by decide
  unfold rcMarker Stamp.text
  simp only [List.mem_append, List.mem_cons, name, ending, dash, underscore, or_false, false_or]
  rintro ((date | time) | number)
  · exact digit _ (stamp.date_digits _ date) rfl
  · exact digit _ (stamp.time_digits _ time) rfl
  · exact digit _ (Nat.isDigit_of_mem_toDigits (by decide) (by decide) number) rfl

theorem head_rcMarker (stamp : Stamp) (id : Nat) : ∃ rest, rcMarker stamp id = '_' :: rest := by
  have lead : "__H2KVM_RC_".toList = '_' :: "_H2KVM_RC_".toList := by decide +kernel
  unfold rcMarker
  rw [lead, List.cons_append]
  exact ⟨_, rfl⟩

theorem isMarker_rcMarker (stamp : Stamp) (id : Nat) : IsMarker (rcMarker stamp id) := by
  obtain ⟨rest, start⟩ := head_rcMarker stamp id
  have oneLine := newline_not_mem_rcMarker stamp id
  rw [start] at oneLine ⊢
  refine ⟨oneLine, fun c first => ?_, List.cons_ne_nil _ _⟩
  rw [List.head?_cons, Option.some.injEq] at first
  rw [← first]
  decide

theorem sh_exact_iff (ran : Ran) :
    (∀ stamp id, sh (rcMarker stamp id) (printed (rcMarker stamp id) ran) = (ran.rc, ran.stdout)) ↔
      ¬ MarkerLike ran.stdout := by
  simp only [sh_printed_eq_iff (isMarker_rcMarker _ _), MarkerLike, not_exists]

/-- An output without `=` comes back as it is. -/
theorem sh_plain (isMarker : IsMarker marker) {ran : Ran} (plain : '=' ∉ ran.stdout) :
    sh marker (printed marker ran) = (ran.rc, ran.stdout) := by
  refine (sh_printed_eq_iff isMarker ran).mpr ?_
  rintro ⟨a, t, split, found⟩
  obtain ⟨rest, lead⟩ : ∃ rest, after (marker ++ ['=']) t = some rest := by
    unfold rcAt at found
    cases lead : after (marker ++ ['=']) t with
    | none => simp [lead] at found
    | some rest => exact ⟨rest, rfl⟩
  unfold after at lead
  split at lead
  · rename_i start
    exact plain (split ▸ List.mem_append_right a (start.subset (by simp)))
  · cases lead

end commands

end remoteShell

section remoteFile

/-- The bytes of the remote files. -/
abbrev Files := List Char → Option (List UInt8)

/-- A name `mktemp` makes up, under `/tmp` or, where that fails, under `/run`. -/
structure TmpName where
  inRun : Bool
  suffix : List Char
  alnum : ∀ c ∈ suffix, c.isAlphanum = true
  six : suffix.length = 6

def TmpName.text (name : TmpName) : List Char :=
  (if name.inRun then "/run".toList else "/tmp".toList) ++ ("/h2kvm.grubfix.".toList ++ name.suffix)

/-- A line of the script that writes a file, or for a here-document its lines: the command, the text put in and the
delimiter. -/
inductive Line where
  | setE
  | umask
  | truncate (tmp : List Char)
  | comment
  | decode (b64 tmp : List Char)
  | heredoc (tmp delimiter content : List Char)
  | chmod (mode tmp : List Char)
  | chown (uid gid tmp : List Char)
  | mv (tmp path : List Char)
  | sync

/-- What the remote is and answers while one file is written. The shell is asked about text that was meant as the content
of a here-document and is read as commands, with the lines of the script after it. -/
structure Host where
  tmp : Option TmpName
  base64 : Bool
  stat : Bool
  attributes : List Char
  now : Stamp
  calls : Nat → Stamp × Nat
  shell : List (List Char) → List Line → Files → Files × Ran

def Host.marker (host : Host) (call : Nat) : List Char := rcMarker (host.calls call).1 (host.calls call).2

/-- `>> path`. -/
def append (files : Files) (path : List Char) (bytes : List UInt8) : Files :=
  Function.update files path (some ((files path).getD [] ++ bytes))

/-- Lines of a here-document as they are put into a file. -/
def document (lines : List (List Char)) : List UInt8 := Utf8.encode (lines.flatMap (· ++ ['\n']))

/-- A script under `set -e`, which ends at the first command that fails. -/
def exec (shell : List (List Char) → List Line → Files → Files × Ran) : List Line → Files → Files × Ran
  | [], files => (files, ⟨0, []⟩)
  | .truncate tmp :: rest, files => exec shell rest (Function.update files tmp (some []))
  | .decode b64 tmp :: rest, files =>
    match Base64.decode b64 with
    | some bytes => exec shell rest (append files tmp bytes)
    | none => (files, ⟨1, []⟩)
  | .heredoc tmp delimiter content :: rest, files =>
    let lines := content.splitOn '\n'
    if delimiter ∈ lines then
      -- the document ends early, and what comes after is read as commands
      shell ((lines.dropWhile (· ≠ delimiter)).tail ++ [delimiter]) rest
        (append files tmp (document (lines.takeWhile (· ≠ delimiter))))
    else exec shell rest (append files tmp (document lines))
  | .mv tmp path :: rest, files =>
    match files tmp with
    | some bytes =>
      if tmp = path then (files, ⟨1, []⟩)
      else exec shell rest (Function.update (Function.update files path (some bytes)) tmp none)
    | none => (files, ⟨1, []⟩)
  | .setE :: rest, files | .umask :: rest, files | .comment :: rest, files | .chmod _ _ :: rest, files
  | .chown _ _ _ :: rest, files | .sync :: rest, files => exec shell rest files

/-- `_sh(f"... && echo OK || echo NO")` and `out.strip() == "OK"`. -/
def answers (marker : List Char) (yes : Bool) : Bool :=
  strip (sh marker (printed marker ⟨0, if yes then "OK\n".toList else "NO\n".toList⟩)).2 = "OK".toList

/-- `_remote_stat_u_g_a`. -/
def remoteStatUGA (host : Host) : Option (List Char × List Char × List Char) :=
  if answers (host.marker 2) host.stat then
    match split (strip (sh (host.marker 3) (printed (host.marker 3) ⟨0, host.attributes⟩)).2) with
    | [uid, gid, mode] => if uid.all isDigit && gid.all isDigit && mode.all isDigit then some (uid, gid, mode) else none
    | _ => none
  else none

/-- `re.sub(r"[^A-Za-z0-9]+", "_", s)`, within a run of other characters or not. -/
def underscored (inRun : Bool) : List Char → List Char
  | [] => []
  | c :: s =>
    if c.isAlphanum then c :: underscored false s
    else if inRun then underscored true s else '_' :: underscored true s

/-- `f"__H2KVM_EOF_{U.now_ts()}_{...}__"`. -/
def eofMarker (now : Stamp) (tmp : List Char) : List Char :=
  "__H2KVM_EOF_".toList ++ (now.text ++ '_' :: (underscored false tmp ++ "__".toList))

def inlineB64MaxChars : Nat := 24000

def b64ChunkChars : Nat := 8000

/-- The lines that write the content: all of it inline, in chunks, or as a here-document. -/
def contentLines (host : Host) (tmp content : List Char) : List Line :=
  if answers (host.marker 4) host.base64 then
    let b64 := Base64.encode (Utf8.encode content)
    if b64.length ≤ inlineB64MaxChars then [.decode b64 tmp]
    else .comment :: (slices b64ChunkChars b64).map (.decode · tmp)
  else [.heredoc tmp (eofMarker host.now tmp) content]

/-- The script that is sent. -/
def payload (host : Host) (tmp path content mode : List Char) (owner : Option (List Char × List Char)) : List Line :=
  [.setE, .umask, .truncate tmp] ++ (contentLines host tmp content ++ .chmod mode tmp ::
    ((owner.elim [] fun (uid, gid) => [.chown uid gid tmp]) ++ [.mv tmp path, .sync]))

/-- The temporary file made, no text where none can be. -/
def mktemp (host : Host) : List Char :=
  strip (sh (host.marker 0) (printed (host.marker 0)
    (host.tmp.elim ⟨1, []⟩ fun name => ⟨0, name.text ++ ['\n']⟩))).2

/-- `_write_remote_file_atomic`: the files after it, or none where it raises. -/
def writeRemoteFileAtomic (dryRun : Bool) (host : Host) (path content mode : List Char) (files : Files) : Option Files :=
  if dryRun then some files
  else
    let tmp := mktemp host
    if tmp = [] then none
    else
      let files := Function.update files tmp (some [])
      let info := if answers (host.marker 1) (files path).isSome then remoteStatUGA host else none
      let mode := info.elim mode (·.2.2)
      let ran := exec host.shell (payload host tmp path content mode (info.map fun found => (found.1, found.2.1))) files
      if (sh (host.marker 5) (printed (host.marker 5) ran.2)).1 = 0 then some ran.1 else none

/-- `_read_remote_file`, with a file that is not there read as empty. -/
def readRemoteFile (marker : List Char) (files : Files) (path : List Char) : List Char :=
  (sh marker (printed marker ⟨0, Utf8.decode ((files path).getD [])⟩)).2

/-- Whatever the remote answers, and wherever the file is to go: once it is written it has the content, and that is
what is read of it. -/
def RoundTrip (base64 : Bool) (content : List Char) : Prop :=
  ∀ (host : Host) (path mode : List Char) (files files' : Files), host.base64 = base64 →
    writeRemoteFileAtomic false host path content mode files = some files' →
      files' path = some (Utf8.encode content) ∧
        ∀ stamp id, readRemoteFile (rcMarker stamp id) files' path = content

/-- What a writer leaves of a content: a here-document ends with a newline of its own. -/
def written (base64 : Bool) (content : List Char) : List Char := if base64 then content else content ++ ['\n']

section answers

variable {host : Host}

theorem isMarker (host : Host) (call : Nat) : IsMarker (host.marker call) := isMarker_rcMarker _ _

theorem answers_eq {marker : List Char} (isMarker : IsMarker marker) (yes : Bool) : answers marker yes = yes := by
  unfold answers
  cases yes with
  | true =>
    rw [sh_plain isMarker (by decide +kernel)]
    decide +kernel
  | false =>
    rw [sh_plain isMarker (by decide +kernel)]
    decide +kernel

theorem visible_of_isAlphanum {c : Char} (alnum : c.isAlphanum = true) : isSpace c = false ∧ c ≠ '=' := by
  have ascii : c.toNat < 128 := by
    simp only [Char.isAlphanum, Char.isAlpha, Char.isUpper, Char.isLower, Char.isDigit, Bool.or_eq_true, Bool.and_eq_true,
      decide_eq_true_eq] at alnum
    have value : c.toNat = c.val.toNat := rfl
    rcases alnum with (⟨-, upper⟩ | ⟨-, upper⟩) | ⟨-, upper⟩
    all_goals
      have upper := UInt32.le_iff_toNat_le.mp upper
      simp at upper
      omega
  have table : ∀ n : Fin 128, (Char.ofNat n).isAlphanum = true → isSpace (Char.ofNat n) = false ∧ Char.ofNat n ≠ '=' := by
    decide +kernel
  have same : Char.ofNat c.toNat = c := Char.ofNat_toNat c
  have here := table ⟨c.toNat, ascii⟩
  rw [same] at here
  exact here alnum

theorem TmpName.text_plain (name : TmpName) : ∀ c ∈ name.text, isSpace c = false ∧ c ≠ '=' := by
  have run : ∀ c ∈ "/run".toList, isSpace c = false ∧ c ≠ '=' := by decide +kernel
  have tmp : ∀ c ∈ "/tmp".toList, isSpace c = false ∧ c ≠ '=' := by decide +kernel
  have base : ∀ c ∈ "/h2kvm.grubfix.".toList, isSpace c = false ∧ c ≠ '=' := by decide +kernel
  intro c member
  unfold TmpName.text at member
  rcases List.mem_append.mp member with dir | rest
  · split at dir
    · exact run c dir
    · exact tmp c dir
  · rcases List.mem_append.mp rest with lead | suffix
    · exact base c lead
    · exact visible_of_isAlphanum (name.alnum c suffix)

theorem TmpName.text_ne_nil (name : TmpName) : name.text ≠ [] := by
  intro none
  have suffix := (List.append_eq_nil_iff.mp (List.append_eq_nil_iff.mp none).2).2
  have six := name.six
  rw [suffix] at six
  cases six

/-- The name made up is the one used. -/
theorem mktemp_eq (host : Host) : mktemp host = host.tmp.elim [] TmpName.text := by
  unfold mktemp
  cases host.tmp with
  | none =>
    rw [sh_plain (isMarker host 0) (by simp)]
    rfl
  | some name =>
    have plain : '=' ∉ name.text ++ ['\n'] := by
      intro member
      rcases List.mem_append.mp member with inside | last
      · exact (name.text_plain _ inside).2 rfl
      · exact absurd last (by decide)
    rw [Option.elim_some, Option.elim_some, sh_plain (isMarker host 0) plain]
    exact strip_word name.text_ne_nil (fun c member => (name.text_plain c member).1) fun c member =>
      List.mem_singleton.mp member ▸ by decide

end answers

section writers

variable {host : Host} {shell : List (List Char) → List Line → Files → Files × Ran} {tmp path content mode : List Char}
  {files : Files}

theorem append_append (files : Files) (tmp : List Char) (xs ys : List UInt8) :
    append (append files tmp xs) tmp ys = append files tmp (xs ++ ys) := by
  simp only [append, Function.update_self, Function.update_idem, Option.getD_some, List.append_assoc]

theorem flatMap_newline {lines : List (List Char)} (some : lines ≠ []) :
    lines.flatMap (· ++ ['\n']) = join ['\n'] lines ++ ['\n'] := by
  induction lines with
  | nil => exact absurd rfl some
  | cons line lines ih =>
    by_cases last : lines = []
    · subst last
      simp [join, List.intercalate]
    · rw [List.flatMap_cons, ih last, join_cons last]
      simp

theorem document_splitOn (content : List Char) : document (content.splitOn '\n') = Utf8.encode (content ++ ['\n']) := by
  rw [document, flatMap_newline (List.splitOn_ne_nil _ _), join, List.intercalate_splitOn]

theorem exec_chunks (bytes : List (List UInt8)) (tmp : List Char) (rest : List Line) (files : Files) (here : (files tmp).isSome) :
    exec shell (bytes.map (fun part => .decode (Base64.encode part) tmp) ++ rest) files =
      exec shell rest (append files tmp bytes.flatten) := by
  induction bytes generalizing files with
  | nil =>
    obtain ⟨old, found⟩ := Option.isSome_iff_exists.mp here
    have same : append files tmp [] = files := by
      rw [append, found, Option.getD_some, List.append_nil, ← found, Function.update_eq_self]
    rw [List.map_nil, List.nil_append, List.flatten_nil, same]
  | cons part bytes ih =>
    have there : (append files tmp part tmp).isSome := by simp [append]
    rw [List.map_cons, List.cons_append, exec, Base64.decode_encode]
    dsimp only
    rw [ih _ there, append_append, List.flatten_cons]

theorem exec_contentLines (here : (files tmp).isSome)
    (unique : host.base64 = true ∨ eofMarker host.now tmp ∉ content.splitOn '\n') (rest : List Line) :
    exec shell (contentLines host tmp content ++ rest) files =
      exec shell rest (append files tmp (Utf8.encode (written host.base64 content))) := by
  rw [contentLines, answers_eq (isMarker host 4)]
  cases known : host.base64 with
  | true =>
    rw [if_pos rfl, written, if_pos rfl]
    dsimp only
    split
    · have whole := @exec_chunks shell [Utf8.encode content] tmp rest files here
      rwa [List.flatten_singleton] at whole
    · have quanta : b64ChunkChars = 2000 * 4 := rfl
      have parts := Base64.slices_encode (k := 2000) (by decide) (Utf8.encode content)
      rw [List.cons_append, exec, quanta, parts, List.map_map]
      have chunks := @exec_chunks shell (slices (2000 * 3) (Utf8.encode content)) tmp rest files here
      rwa [flatten_slices (by decide)] at chunks
  | false =>
    rw [known] at unique
    have apart := unique.resolve_left (by decide)
    rw [if_neg (by decide), List.singleton_append, exec, if_neg apart, document_splitOn, written, if_neg (by decide)]

theorem exec_payload (unique : host.base64 = true ∨ eofMarker host.now tmp ∉ content.splitOn '\n')
    (owner : Option (List Char × List Char)) :
    exec shell (payload host tmp path content mode owner) files =
      if tmp = path then (Function.update files tmp (some (Utf8.encode (written host.base64 content))), ⟨1, []⟩)
      else (Function.update (Function.update (Function.update files tmp (some (Utf8.encode (written host.base64 content)))) path
        (some (Utf8.encode (written host.base64 content)))) tmp none, ⟨0, []⟩) := by
  have blank : append (Function.update files tmp (some [])) tmp (Utf8.encode (written host.base64 content)) =
      Function.update files tmp (some (Utf8.encode (written host.base64 content))) := by
    simp [append]
  have there : (Function.update files tmp (some []) tmp).isSome := by simp
  have last (files : Files) (owner : Option (List Char × List Char)) :
      exec shell (.chmod mode tmp :: ((owner.elim [] fun (uid, gid) => [.chown uid gid tmp]) ++ [.mv tmp path, .sync])) files =
        exec shell [.mv tmp path, .sync] files := by
    cases owner <;> simp [exec]
  have moved (files : Files) : exec shell [.sync] files = (files, ⟨0, []⟩) := rfl
  rw [payload, List.cons_append, List.cons_append, List.cons_append, List.nil_append, exec, exec, exec,
    exec_contentLines there unique, blank, last, exec, Function.update_self]
  dsimp only
  rw [moved]

/-- Where the temporary file could be made, and is not the file itself, the file has what the writer leaves of the
content, and the temporary file is gone. -/
theorem writeRemoteFileAtomic_eq {name : TmpName} (named : host.tmp = some name)
    (unique : host.base64 = true ∨ eofMarker host.now name.text ∉ content.splitOn '\n') :
    writeRemoteFileAtomic false host path content mode files =
      if name.text = path then none
      else some (Function.update (Function.update files path (some (Utf8.encode (written host.base64 content)))) name.text
        none) := by
  have used : mktemp host = name.text := by rw [mktemp_eq, named, Option.elim_some]
  rw [writeRemoteFileAtomic, if_neg (by decide)]
  dsimp only
  rw [used, if_neg name.text_ne_nil, exec_payload unique, sh_printed (isMarker host 5)]
  by_cases same : name.text = path
  · rw [if_pos same, if_pos same]
    rfl
  · have swap : Function.update (Function.update (Function.update (Function.update files name.text (some [])) name.text
        (some (Utf8.encode (written host.base64 content)))) path (some (Utf8.encode (written host.base64 content)))) name.text
        none = Function.update (Function.update files path (some (Utf8.encode (written host.base64 content)))) name.text none := by
      rw [Function.update_idem, Function.update_comm (Ne.symm same), Function.update_idem, Function.update_comm same]
    rw [if_neg same, if_neg same, swap]
    rfl

theorem tmp_of_written {files' : Files} (done : writeRemoteFileAtomic false host path content mode files = some files') :
    ∃ name, host.tmp = some name := by
  cases made : host.tmp with
  | some name => exact ⟨name, rfl⟩
  | none =>
    have nothing : mktemp host = [] := by rw [mktemp_eq, made, Option.elim_none]
    rw [writeRemoteFileAtomic, if_neg (by decide), nothing] at done
    cases done

end writers

section reading

theorem readRemoteFile_eq (marker : List Char) {files : Files} {path content : List Char}
    (here : files path = some (Utf8.encode content)) :
    readRemoteFile marker files path = (sh marker (printed marker ⟨0, content⟩)).2 := by
  rw [readRemoteFile, here, Option.getD_some, Utf8.decode_encode]

theorem readRemoteFile_eq_iff {marker : List Char} (isMarker : IsMarker marker) {files : Files} {path content : List Char}
    (here : files path = some (Utf8.encode content)) :
    readRemoteFile marker files path = content ↔ ¬ Marked marker content := by
  rw [readRemoteFile_eq marker here, ← sh_printed_eq_iff isMarker ⟨0, content⟩, sh_printed isMarker]
  simp

/-- A remote with a delimiter that no line of a content can be, as long as it is. -/
def plainHost (base64 : Bool) (content : List Char) : Host where
  tmp := some ⟨false, "aaaaaa".toList, by decide, rfl⟩
  base64 := base64
  stat := false
  attributes := []
  now := ⟨List.replicate (content.length + 8) '0', "000000".toList, fun c member => by
    rw [List.eq_of_mem_replicate member]
    rfl, by simp, by decide, rfl⟩
  calls _ := (⟨"20260101".toList, "000000".toList, by decide, by decide, by decide, rfl⟩, 0)
  shell _ _ files := (files, ⟨0, []⟩)

theorem length_of_mem_splitOn {content line : List Char} (member : line ∈ content.splitOn '\n') :
    line.length < (content ++ ['\n']).length := by
  have parts : (content.splitOn '\n').flatMap (· ++ ['\n']) = content ++ ['\n'] := by
    rw [flatMap_newline (List.splitOn_ne_nil _ _), join, List.intercalate_splitOn]
  have inside := (List.sublist_flatten_of_mem (List.mem_map_of_mem (f := (· ++ ['\n'])) member)).length_le
  rw [← List.flatMap_def, parts, List.length_append, List.length_singleton] at inside
  exact inside

theorem eofMarker_not_mem (base64 : Bool) (content tmp : List Char) :
    eofMarker (plainHost base64 content).now tmp ∉ content.splitOn '\n' := by
  intro member
  have short := length_of_mem_splitOn member
  rw [List.length_append, List.length_singleton] at short
  have long : content.length < (eofMarker (plainHost base64 content).now tmp).length := by
    unfold eofMarker Stamp.text plainHost
    simp only [List.length_append, List.length_cons, List.length_replicate]
    omega
  omega

/-- A file the plain remote is told to write is written. -/
theorem plainHost_writes (base64 : Bool) (content : List Char) : ∃ files',
    writeRemoteFileAtomic false (plainHost base64 content) "/etc/default/grub".toList content "0644".toList (fun _ => none) =
      some files' ∧ files' "/etc/default/grub".toList = some (Utf8.encode (written base64 content)) := by
  have other : (plainHost base64 content).tmp = some ⟨false, "aaaaaa".toList, by decide, rfl⟩ := rfl
  have apart : TmpName.text ⟨false, "aaaaaa".toList, by decide, rfl⟩ ≠ "/etc/default/grub".toList := by decide +kernel
  have done : writeRemoteFileAtomic false (plainHost base64 content) "/etc/default/grub".toList content "0644".toList
      (fun _ => none) = _ := writeRemoteFileAtomic_eq other (.inr (eofMarker_not_mem base64 content _))
  rw [if_neg apart] at done
  exact ⟨_, done, by rw [Function.update_of_ne (Ne.symm apart), Function.update_self]; rfl⟩

end reading

/-- `_sh` gives back an output that has no line like its own, and with `base64` on the remote, but not without it, such a
content is written and read back. -/
theorem remoteFile_iff (ran : Ran) (base64 : Bool) (content : List Char) :
    ((∀ stamp id, sh (rcMarker stamp id) (printed (rcMarker stamp id) ran) = (ran.rc, ran.stdout)) ↔
      ¬ MarkerLike ran.stdout) ∧
    (RoundTrip base64 content ↔ base64 = true ∧ ¬ MarkerLike content) := by
  refine ⟨sh_exact_iff ran, fun trip => ?_, fun ⟨known, unlike⟩ => ?_⟩
  · obtain ⟨files', done, here⟩ := plainHost_writes base64 content
    obtain ⟨whole, read⟩ := trip (plainHost base64 content) _ _ _ files' rfl done
    have same : written base64 content = content := by
      rw [here, Option.some.injEq] at whole
      rw [← Utf8.decode_encode (written base64 content), whole, Utf8.decode_encode]
    refine ⟨?_, fun ⟨stamp, id, marked⟩ =>
      (readRemoteFile_eq_iff (isMarker_rcMarker stamp id) whole).mp (read stamp id) marked⟩
    cases base64 with
    | true => rfl
    | false => exact absurd (congrArg List.length same) (by simp [written])
  · intro host path mode files files' kind done
    obtain ⟨name, made⟩ := tmp_of_written done
    rw [writeRemoteFileAtomic_eq made (.inl (kind.trans known))] at done
    split at done
    · cases done
    · rename_i other
      cases done
      have here : Function.update (Function.update files path (some (Utf8.encode (written host.base64 content)))) name.text
          none path = some (Utf8.encode content) := by
        rw [Function.update_of_ne (Ne.symm other), Function.update_self, kind, known]
        rfl
      exact ⟨here, fun stamp id => (readRemoteFile_eq_iff (isMarker_rcMarker stamp id) here).mpr
        fun marked => unlike ⟨stamp, id, marked⟩⟩

/-- A remote without `base64`: the file has a newline more than `timeout=5` and the newline after it. -/
theorem not_roundTrip : ¬ RoundTrip false "timeout=5\n".toList := by
  intro trip
  obtain ⟨files', done, here⟩ := plainHost_writes false "timeout=5\n".toList
  obtain ⟨whole, -⟩ := trip (plainHost false "timeout=5\n".toList) _ _ _ files' rfl done
  rw [here] at whole
  exact absurd whole (by decide +kernel)

end remoteFile

end H2kvm.Live
