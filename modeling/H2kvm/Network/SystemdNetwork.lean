import H2kvm.Network.Scan

namespace H2kvm.Network

open Framework Text

/-- The name of a section, from `^\s*\[(.+)\]\s*$`. -/
def header? (line : List Char) : Option (List Char) :=
  match strip line with
  | '[' :: rest => if rest.getLast? = some ']' ∧ rest.dropLast ≠ [] then some (lower (strip rest.dropLast)) else none
  | _ => none

namespace Template

def isOctal (c : Char) : Bool := c.isDigit && c ≤ '7'

def octal (digits : List Char) : Nat := digits.foldl (fun n c => 8 * n + (c.toNat - '0'.toNat)) 0

def simpleEscapes : List (Char × Char) :=
  [('a', '\x07'), ('b', '\x08'), ('f', '\x0c'), ('n', '\n'), ('r', '\r'), ('t', '\t'), ('v', '\x0b'), ('\\', '\\')]

/-- A reference to the whole match or to the one group. -/
def groupRef (whole group : List Char) (n : Nat) : Option (List Char) :=
  if n = 0 then some whole else if n = 1 then some group else none

/-- What an escape stands for, and what comes after it; `none` is an `re.error`. -/
def escapeOf (whole group : List Char) : List Char → Option (List Char × List Char)
  | [] => none
  | 'g' :: '<' :: t =>
    match cut ['>'] t with
    | none => none
    | some (name, rest) =>
      if name = [] ∨ !name.all Char.isDigit then none else (groupRef whole group (intOf name)).map (·, rest)
  | '0' :: t =>
    let more := (t.takeWhile isOctal).take 2
    some ([Char.ofNat (octal more)], t.drop more.length)
  | c :: t =>
    if c.isDigit then
      match t with
      | d :: e :: t' =>
        if isOctal c && isOctal d && isOctal e then
          if octal [c, d, e] > 255 then none else some ([Char.ofNat (octal [c, d, e])], t')
        else if d.isDigit then (groupRef whole group (intOf [c, d])).map (·, e :: t')
        else (groupRef whole group (intOf [c])).map (·, d :: e :: t')
      | [d] =>
        if d.isDigit then (groupRef whole group (intOf [c, d])).map (·, [])
        else (groupRef whole group (intOf [c])).map (·, [d])
      | [] => (groupRef whole group (intOf [c])).map (·, [])
    else
      match simpleEscapes.lookup c with
      | some meant => some ([meant], t)
      | none => if c.isAlpha then none else some (['\\', c], t)

/-- The template of a replacement filled in. -/
def expand (whole group : List Char) : Nat → List Char → Option (List Char)
  | _, [] => some []
  | 0, _ => none
  | n + 1, c :: t =>
    if c = '\\' then
      match escapeOf whole group t with
      | none => none
      | some (text, rest) => (expand whole group n rest).map (text ++ ·)
    else (expand whole group n t).map (c :: ·)

end Template

namespace Systemd

def isWildcard (p : List Char) : Bool := p.any fun c => c = '*' || c = '?' || c = '[' || c = ']'

/-- The name that takes the place of one in `Name=`. -/
def renamePart (fixer : LineFixer) (p : List Char) : Option (List Char) :=
  if isWildcard p then none
  else
    match if fixer.level = .aggressive then fixer.renameMap.lookup (String.ofList p) else none with
    | some new => some new.toList
    | none => if isVmwareName p then some "en*".toList else none

/-- The names in `Name=`. -/
def nameParts (line : List Char) : Option (List (List Char)) :=
  match keyed "name".toList line with
  | none | some [] => none
  | some value => some (if split value = [] then [[]] else split value)

/-- The text of `Name=` up to the value. -/
def nameLead (line : List Char) : List Char :=
  line.take (line.length - (lstrip ((keyed "name".toList line).getD [])).length)

/-- The names in `Name=` after the renames, if there are any. -/
def newParts (fixer : LineFixer) (line : List Char) : Option (List (List Char)) :=
  match nameParts line with
  | none => none
  | some parts =>
    if parts.any fun p => (renamePart fixer p).isSome then some (parts.map fun p => (renamePart fixer p).getD p) else none

/-- The renames in `Name=`; `none` is an `re.error`. -/
def fixName (fixer : LineFixer) (line : List Char) : Option (List Char × List String) :=
  match newParts fixer line with
  | none => some (line, [])
  | some parts =>
    let template := '\\' :: '1' :: join [' '] parts
    (Template.expand line (nameLead line) template.length template).map (·, ["replaced-networkd-vmware-match-name"])

/-- `=\s*(yes|true|ipv4|ipv6|both)\b` anywhere in a line. -/
def looksOn (alnum : Char → Bool) : List Char → Bool
  | [] => false
  | c :: s =>
    (c = '=' && ["yes", "true", "ipv4", "ipv6", "both"].any fun w =>
      (afterWord w.toList (lstrip s)).any fun rest =>
        boundary alnum ((lstrip s).take w.toList.length).getLast? rest.head?) || looksOn alnum s

/-- `is_static_key`. -/
def isStaticKey (line : List Char) : Bool :=
  ["address", "gateway", "dns", "domains", "routes", "route", "routingpolicyrule"].any fun k =>
    (keyed k.toList line).isSome

structure Scan where
  inMatch : Bool := false
  inNetwork : Bool := false
  sawNetwork : Bool := false
  sawDhcp : Bool := false
  sawStatic : Bool := false

def dhcpYes : List Char := "DHCP=yes".toList

/-- A line of `[Network]`. -/
def fixNetworkLine (fixer : LineFixer) (s : Scan) (line : List Char) : Scan × List Char × List String :=
  let isDhcp := (keyed "dhcp".toList line).isSome
  let normalized := isDhcp && !looksOn fixer.alnum line
  let line := if normalized then dhcpYes else line
  ({ s with sawDhcp := s.sawDhcp || isDhcp, sawStatic := s.sawStatic || isStaticKey line }, line,
    if normalized then ["normalized-dhcp"] else [])

/-- A line that is no header, once the names in it are changed. -/
def fixBody (fixer : LineFixer) (s : Scan) (line : List Char) : Scan × List Char × List String :=
  match if isComment line then none else fixer.driverToken line with
  | some name => (s, commentOut line "VMware token removed by h2kvm", ["removed-vmware-token-" ++ name])
  | none => if s.inNetwork then fixNetworkLine fixer s line else (s, line, [])

/-- One line of the file. -/
def fixLine (fixer : LineFixer) (s : Scan) (line : List Char) : Option (Scan × List Char × List String) :=
  match header? line with
  | some sec =>
    let inNetwork := decide (sec = "network".toList)
    some ({ s with inMatch := sec = "match".toList, inNetwork := inNetwork, sawNetwork := s.sawNetwork || inNetwork }, line, [])
  | none =>
    if !s.inMatch || !fixer.level.atLeastModerate then some (fixBody fixer s line)
    else if (keyed "macaddress".toList line).isSome then
      some (s, commentOut line "MAC pinning removed by h2kvm", ["removed-mac-match"])
    else
      (fixName fixer line).map fun (line, fixes) =>
        let (s, line, more) := fixBody fixer s line
        (s, line, fixes ++ more)

def fixLines (fixer : LineFixer) : Scan → List (List Char) → Option (Scan × List (List Char) × List String)
  | s, [] => some (s, [], [])
  | s, line :: lines =>
    match fixLine fixer s line with
    | none => none
    | some (s, line, fixes) => (fixLines fixer s lines).map fun (s, lines, more) => (s, line :: lines, fixes ++ more)

/-- `DHCP=yes` is inserted after the first `[Network]`. -/
def insertDhcp : List (List Char) → List (List Char) × List String
  | [] => ([], [])
  | line :: lines =>
    if lower (strip line) = "[network]".toList then (line :: dhcpYes :: lines, ["added-dhcp"])
    else
      let (lines, fixes) := insertDhcp lines
      (line :: lines, fixes)

def needsDhcp (fixer : LineFixer) (s : Scan) (fixes : List String) : Bool :=
  s.sawNetwork && !s.sawDhcp && !s.sawStatic &&
    (decide (fixer.level = .aggressive) || fixes.any fun f => decide ("removed-mac-match".toList <:+: f.toList))

/-- `fix_systemd_network`; `none` is an `re.error`. -/
def fixSystemdNetwork (fixer : LineFixer) (content : List Char) : Option (FixResult (List Char)) :=
  (fixLines fixer {} (linesOf content)).map fun (s, lines, fixes) =>
    let (lines, added) := if needsDhcp fixer s fixes then insertDhcp lines else (lines, [])
    ⟨joinLines lines, fixes ++ added, [], []⟩

end Systemd

end H2kvm.Network

namespace H2kvm.Network.Systemd

open Framework Text

/-- The lines that stand in a `[Network]` section. -/
def networkLines : Bool → List (List Char) → List (List Char)
  | _, [] => []
  | inNetwork, line :: lines =>
    match header? line with
    | some sec => networkLines (sec = "network".toList) lines
    | none => if inNetwork then line :: networkLines inNetwork lines else networkLines inNetwork lines

/-- The address a line gives. -/
def address? (line : List Char) : Option (List Char) :=
  match keyed "address".toList line with
  | none => none
  | some value => if strip value = [] then none else some (strip value)

/-- The values that turn DHCP on. -/
def onValues : List (List Char) :=
  ["yes", "true", "on", "1", "y", "t", "ipv4", "ipv6", "both", "v4", "v6"].map String.toList

def enablesDhcp (line : List Char) : Bool :=
  (keyed "dhcp".toList line).any fun value => decide ((strip value).map foldCase ∈ onValues)

/-- The static addresses of a file. -/
def addresses (content : List Char) : List (List Char) := (networkLines false (linesOf content)).filterMap address?

def usesDhcp (content : List Char) : Bool := (networkLines false (linesOf content)).any enablesDhcp

/-- The static addresses are still there, and DHCP is not enabled. -/
def StaticKept (before after : List Char) : Prop :=
  addresses before ≠ [] → usesDhcp before = false →
    (∀ a ∈ addresses before, a ∈ addresses after) ∧ usesDhcp after = false

/-- The names put into `Name=` are plain: `re.sub` takes them as they are, and they stay on the line. -/
def Plain (parts : List (List Char)) : Prop :=
  (∀ p ∈ parts, '\\' ∉ p ∧ '\n' ∉ p) ∧ ((join [' '] parts).head?.any Char.isDigit) = false

/-- A line of `[Network]` that is commented out. -/
def hit (fixer : LineFixer) (line : List Char) : Bool := !isComment line && (fixer.driverToken line).isSome

/-- A line of `[Network]` after the pass. -/
def fixed (fixer : LineFixer) (line : List Char) : List Char :=
  match if isComment line then none else fixer.driverToken line with
  | some _ => commentOut line "VMware token removed by h2kvm"
  | none => if (keyed "dhcp".toList line).isSome && !looksOn fixer.alnum line then dhcpYes else line

section lines

variable {fixer : LineFixer} {line : List Char}

theorem header?_eq_none (h : (lstrip line).head? ≠ some '[') : header? line = none := by
  unfold header?
  split
  · rename_i rest stripped
    have lead : strip line <+: lstrip line := List.rdropWhile_prefix _ _
    rw [stripped] at lead
    obtain ⟨tail, text⟩ := lead
    rw [← text] at h
    exact absurd rfl h
  · rfl

theorem header?_commentOut (line : List Char) (tag : String) : header? (commentOut line tag) = none := by
  apply header?_eq_none
  rw [lstrip_commentOut]
  exact fun h => absurd (Option.some.inj h) (by decide)

theorem expand_plain (whole group : List Char) {t : List Char} (plain : '\\' ∉ t) {n : Nat} (hn : t.length ≤ n) :
    Template.expand whole group n t = some t := by
  induction t generalizing n with
  | nil => rw [Template.expand]
  | cons c t ih =>
    obtain ⟨n, rfl⟩ : ∃ m, n = m + 1 := ⟨n - 1, by simp at hn; omega⟩
    rw [List.mem_cons, not_or] at plain
    rw [Template.expand, if_neg (Ne.symm plain.1), ih plain.2 (by simp at hn; omega)]
    rfl

theorem escapeOf_one (whole group : List Char) {t : List Char} (h : t.head?.any Char.isDigit = false) :
    Template.escapeOf whole group ('1' :: t) = some (group, t) := by
  have one : Template.groupRef whole group (intOf ['1']) = some group := rfl
  unfold Template.escapeOf
  match t, h with
  | [], _ => simp [one]
  | [d], h =>
    have digit : d.isDigit = false := by simpa using h
    simp [one, digit]
  | d :: e :: t, h =>
    have digit : d.isDigit = false := by simpa using h
    have octal : Template.isOctal d = false := by rw [Template.isOctal, digit, Bool.false_and]
    simp [one, digit, octal]

theorem expand_name (whole group : List Char) {parts : List (List Char)} (plain : Plain parts) :
    Template.expand whole group ('\\' :: '1' :: join [' '] parts).length ('\\' :: '1' :: join [' '] parts) =
      some (group ++ join [' '] parts) := by
  have free : '\\' ∉ join [' '] parts := by
    intro mem
    rcases mem_join mem with sep | ⟨p, hp, inside⟩
    · exact absurd sep (by decide)
    · exact (plain.1 p hp).1 inside
  rw [List.length_cons, Template.expand, if_pos rfl, escapeOf_one whole group plain.2]
  simp only
  rw [expand_plain whole group free (by simp)]
  rfl

/-- A renamed line still starts with its key. -/
theorem head_nameLead {value : List Char} (h : keyed "name".toList line = some value) (text : List Char) :
    ∃ c, foldCase c = 'n' ∧ (lstrip (nameLead line ++ text)).head? = some c := by
  obtain ⟨word, mid, split, fold⟩ := keyed_eq_some h
  cases word with
  | nil => exact absurd fold (by decide)
  | cons c word =>
    have fold' : foldCase c = 'n' := (List.cons.inj fold).1
    refine ⟨c, fold', ?_⟩
    have visible : isSpace c = false := isSpace_head_lstrip split
    have whole : line = line.takeWhile isSpace ++ c :: (word ++ (mid ++ '=' :: value)) := by
      rw [← List.cons_append, ← split]
      exact List.takeWhile_append_dropWhile.symm
    have fits : (line.takeWhile isSpace).length + 1 ≤ line.length - (lstrip value).length := by
      have short : (lstrip value).length ≤ value.length := (List.dropWhile_sublist isSpace).length_le
      have total := congrArg List.length whole
      simp only [List.length_append, List.length_cons] at total
      omega
    obtain ⟨more, lead⟩ : ∃ more, nameLead line = line.takeWhile isSpace ++ c :: more := by
      obtain ⟨k, size⟩ := Nat.exists_eq_add_of_le fits
      refine ⟨(word ++ (mid ++ '=' :: value)).take k, ?_⟩
      rw [nameLead, h, Option.getD_some, size]
      nth_rewrite 2 [whole]
      rw [List.take_append, List.take_of_length_le (by omega)]
      congr 1
      rw [show (line.takeWhile isSpace).length + 1 + k - (line.takeWhile isSpace).length = k + 1 by omega,
        List.take_succ_cons]
    rw [lead, List.append_assoc, lstrip, List.dropWhile_append_of_pos]
    · rw [List.cons_append, List.dropWhile_cons, if_neg (by simp [visible])]
      rfl
    · intro x hx
      exact List.mem_takeWhile_imp hx

end lines

/-- Every name a rename puts into the file is plain. -/
def PlainNames (fixer : LineFixer) (lines : List (List Char)) : Prop :=
  ∀ line ∈ lines, ∀ parts, newParts fixer line = some parts → Plain parts

section step

variable {fixer : LineFixer} {s : Scan} {line : List Char}

/-- What the step over a line that is no header makes of it. -/
structure Stepped (fixer : LineFixer) (s : Scan) (line : List Char) (s' : Scan) (line' : List Char) : Prop where
  noHeader : header? line' = none
  free : '\n' ∉ line'
  inMatch : s'.inMatch = s.inMatch
  inNetwork : s'.inNetwork = s.inNetwork
  fixed : s.inNetwork = true → line' = fixed fixer line
  sawDhcp : s.sawDhcp = true ∨ (s.inNetwork = true ∧ hit fixer line = false ∧ (keyed "dhcp".toList line).isSome = true) →
    s'.sawDhcp = true
  sawStatic : s.sawStatic = true ∨ (s.inNetwork = true ∧ hit fixer line = false ∧ isStaticKey (Systemd.fixed fixer line) = true) →
    s'.sawStatic = true

theorem hit_eq_true_of_token {name : String} (h : (if isComment line then none else fixer.driverToken line) = some name) :
    hit fixer line = true := by
  split at h
  · cases h
  · rename_i active
    rw [hit, Bool.eq_false_iff.mpr active, h]
    rfl

theorem fixBody_stepped (h : header? line = none) (free : '\n' ∉ line) :
    Stepped fixer s line (fixBody fixer s line).1 (fixBody fixer s line).2.1 := by
  unfold fixBody
  cases token : if isComment line then none else fixer.driverToken line with
  | some name =>
    have struck := hit_eq_true_of_token token
    refine ⟨header?_commentOut _ _, newline_not_mem_commentOut free (by decide), rfl, rfl, ?_, ?_, ?_⟩
    · intro _
      simp only [fixed, token]
    · intro saw
      rcases saw with old | ⟨-, safe, -⟩
      · exact old
      · exact absurd (struck.symm.trans safe) (by decide)
    · intro saw
      rcases saw with old | ⟨-, safe, -⟩
      · exact old
      · exact absurd (struck.symm.trans safe) (by decide)
  | none =>
    cases network : s.inNetwork with
    | false =>
      have outside (on : s.inNetwork = true) : False := absurd (network.symm.trans on) (by decide)
      exact ⟨h, free, rfl, rfl, fun on => (outside on).elim, fun saw => saw.elim id fun now => (outside now.1).elim,
        fun saw => saw.elim id fun now => (outside now.1).elim⟩
    | true =>
      have result : fixed fixer line = if (keyed "dhcp".toList line).isSome && !looksOn fixer.alnum line then dhcpYes else line := by
        simp only [fixed, token]
      simp only [if_true, fixNetworkLine, ← result]
      refine ⟨?_, ?_, rfl, rfl, fun _ => rfl, ?_, ?_⟩
      · rw [result]
        split
        · decide
        · exact h
      · rw [result]
        split
        · decide
        · exact free
      · intro saw
        rcases saw with old | ⟨-, -, key⟩
        · rw [old, Bool.true_or]
        · rw [key, Bool.or_true]
      · intro saw
        rcases saw with old | ⟨-, -, key⟩
        · rw [old, Bool.true_or]
        · rw [key, Bool.or_true]

theorem Stepped.of_outside {line₂ line' : List Char} {s' : Scan} (outside : s.inNetwork = false)
    (h : Stepped fixer s line₂ s' line') : Stepped fixer s line s' line' := by
  have never (on : s.inNetwork = true) : False := absurd (outside.symm.trans on) (by decide)
  exact ⟨h.noHeader, h.free, h.inMatch, h.inNetwork, fun on => (never on).elim,
    fun saw => h.sawDhcp (.inl (saw.elim id fun now => (never now.1).elim)),
    fun saw => h.sawStatic (.inl (saw.elim id fun now => (never now.1).elim))⟩

theorem fixLine_stepped (h : header? line = none) (free : '\n' ∉ line)
    (plain : ∀ parts, newParts fixer line = some parts → Plain parts)
    (exclusive : s.inMatch = true → s.inNetwork = false) :
    ∃ s' line' fixes, fixLine fixer s line = some (s', line', fixes) ∧ Stepped fixer s line s' line' := by
  unfold fixLine
  simp only [h]
  split
  · exact ⟨_, _, _, rfl, fixBody_stepped h free⟩
  rename_i inside
  have matching : s.inMatch = true := by
    cases inMatch : s.inMatch with
    | true => rfl
    | false => exact absurd (by rw [inMatch]; rfl) inside
  have outside := exclusive matching
  split
  · refine ⟨s, _, _, rfl, ?_⟩
    have never (on : s.inNetwork = true) : False := absurd (outside.symm.trans on) (by decide)
    exact ⟨header?_commentOut _ _, newline_not_mem_commentOut free (by decide), rfl, rfl, fun on => (never on).elim,
      fun saw => saw.elim id fun now => (never now.1).elim, fun saw => saw.elim id fun now => (never now.1).elim⟩
  · cases renames : newParts fixer line with
    | none =>
      have same : fixName fixer line = some (line, []) := by simp only [fixName, renames]
      rw [same]
      exact ⟨_, _, _, rfl, fixBody_stepped h free⟩
    | some parts =>
      have tidy := plain parts renames
      have named : fixName fixer line =
          some (nameLead line ++ join [' '] parts, ["replaced-networkd-vmware-match-name"]) := by
        simp only [fixName, renames]
        rw [expand_name _ _ tidy]
        rfl
      rw [named]
      refine ⟨_, _, _, rfl, (fixBody_stepped ?_ ?_).of_outside outside⟩
      · obtain ⟨value, key⟩ : ∃ value, keyed "name".toList line = some value := by
          cases key : keyed "name".toList line with
          | none =>
            have nothing : newParts fixer line = none := by simp only [newParts, nameParts, key]
            exact absurd (renames.symm.trans nothing) (by simp)
          | some value => exact ⟨value, rfl⟩
        obtain ⟨c, fold, first⟩ := head_nameLead key (join [' '] parts)
        apply header?_eq_none
        rw [first]
        intro bracket
        cases bracket
        exact absurd fold (by decide)
      · rw [List.mem_append, not_or]
        refine ⟨fun mem => free (List.mem_of_mem_take mem), ?_⟩
        intro mem
        rcases mem_join mem with sep | ⟨p, hp, inside⟩
        · exact absurd sep (by decide)
        · exact (tidy.1 p hp).2 inside

end step

/-- What the pass over the lines leaves in `[Network]`. -/
structure Ran (fixer : LineFixer) (s : Scan) (lines : List (List Char)) (s' : Scan) (out : List (List Char)) : Prop where
  network : networkLines s.inNetwork out = (networkLines s.inNetwork lines).map (fixed fixer)
  free : ∀ l ∈ out, '\n' ∉ l
  length : out.length = lines.length
  sawDhcp : (s.sawDhcp = true ∨ ∃ l ∈ networkLines s.inNetwork lines,
    hit fixer l = false ∧ (keyed "dhcp".toList l).isSome = true) → s'.sawDhcp = true
  sawStatic : (s.sawStatic = true ∨ ∃ l ∈ networkLines s.inNetwork lines,
    hit fixer l = false ∧ isStaticKey (fixed fixer l) = true) → s'.sawStatic = true

section run

variable {fixer : LineFixer}

theorem mem_networkLines_cons {line l : List Char} {lines : List (List Char)} {on : Bool} (h : header? line = none) :
    l ∈ networkLines on (line :: lines) ↔ (on = true ∧ l = line) ∨ l ∈ networkLines on lines := by
  simp only [networkLines, h]
  cases on with
  | true => simp
  | false => simp

theorem fixLines_ran {lines : List (List Char)} (free : ∀ l ∈ lines, '\n' ∉ l) (plain : PlainNames fixer lines) (s : Scan)
    (exclusive : s.inMatch = true → s.inNetwork = false) :
    ∃ s' out fixes, fixLines fixer s lines = some (s', out, fixes) ∧ Ran fixer s lines s' out := by
  induction lines generalizing s with
  | nil =>
    refine ⟨s, [], [], rfl, rfl, fun l hl => (List.not_mem_nil hl).elim, rfl, ?_, ?_⟩
    · exact fun saw => saw.elim id fun ⟨_, hl, _⟩ => (List.not_mem_nil hl).elim
    · exact fun saw => saw.elim id fun ⟨_, hl, _⟩ => (List.not_mem_nil hl).elim
  | cons line lines ih =>
    have free' := fun l hl => free l (List.mem_cons_of_mem _ hl)
    have plain' : PlainNames fixer lines := fun l hl => plain l (List.mem_cons_of_mem _ hl)
    have here := free line List.mem_cons_self
    cases head : header? line with
    | some sec =>
      let s₁ : Scan := { s with inMatch := sec = "match".toList, inNetwork := sec = "network".toList, sawNetwork := s.sawNetwork || decide (sec = "network".toList) }
      have step : fixLine fixer s line = some (s₁, line, []) := by simp only [fixLine, head, s₁]
      have apart : s₁.inMatch = true → s₁.inNetwork = false := by
        intro inMatch
        have sec : sec = "match".toList := of_decide_eq_true inMatch
        exact decide_eq_false (by rw [sec]; decide)
      obtain ⟨s', out, fixes, rest, ran⟩ := ih free' plain' s₁ apart
      refine ⟨s', line :: out, fixes, by simp only [fixLines, step, rest]; rfl, ?_, ?_, ?_, ?_, ?_⟩
      · simp only [networkLines, head]
        exact ran.network
      · exact List.forall_mem_cons.mpr ⟨here, ran.free⟩
      · rw [List.length_cons, List.length_cons, ran.length]
      · simp only [networkLines, head]
        exact ran.sawDhcp
      · simp only [networkLines, head]
        exact ran.sawStatic
    | none =>
      obtain ⟨s₁, line', fixes₁, step, stepped⟩ := fixLine_stepped head here (plain line List.mem_cons_self) exclusive
      have apart : s₁.inMatch = true → s₁.inNetwork = false := by
        rw [stepped.inMatch, stepped.inNetwork]
        exact exclusive
      obtain ⟨s', out, fixes, rest, ran⟩ := ih free' plain' s₁ apart
      have section' : s₁.inNetwork = s.inNetwork := stepped.inNetwork
      refine ⟨s', line' :: out, fixes₁ ++ fixes, by simp only [fixLines, step, rest]; rfl, ?_, ?_, ?_, ?_, ?_⟩
      · have later := ran.network
        rw [section'] at later
        simp only [networkLines, head, stepped.noHeader]
        cases on : s.inNetwork with
        | true =>
          rw [on] at later
          simp only [if_true, List.map_cons, later, stepped.fixed on]
        | false =>
          rw [on] at later
          simpa using later
      · exact List.forall_mem_cons.mpr ⟨stepped.free, ran.free⟩
      · rw [List.length_cons, List.length_cons, ran.length]
      · intro saw
        apply ran.sawDhcp
        rw [section']
        rcases saw with old | ⟨l, hl, found⟩
        · exact .inl (stepped.sawDhcp (.inl old))
        · rcases (mem_networkLines_cons head).mp hl with ⟨on, rfl⟩ | later
          · exact .inl (stepped.sawDhcp (.inr ⟨on, found⟩))
          · exact .inr ⟨l, later, found⟩
      · intro saw
        apply ran.sawStatic
        rw [section']
        rcases saw with old | ⟨l, hl, found⟩
        · exact .inl (stepped.sawStatic (.inl old))
        · rcases (mem_networkLines_cons head).mp hl with ⟨on, rfl⟩ | later
          · exact .inl (stepped.sawStatic (.inr ⟨on, found⟩))
          · exact .inr ⟨l, later, found⟩

theorem mem_networkLines_insertDhcp {lines : List (List Char)} {l : List Char} {on : Bool}
    (h : l ∈ networkLines on (insertDhcp lines).1) : l ∈ networkLines on lines ∨ l = dhcpYes := by
  induction lines generalizing on with
  | nil => exact .inl h
  | cons line lines ih =>
    have plain : header? dhcpYes = none := by decide
    unfold insertDhcp at h
    split at h
    · cases head : header? line with
      | some sec =>
        simp only [networkLines, head, plain] at h ⊢
        split at h
        · exact (List.mem_cons.mp h).symm
        · exact .inl h
      | none =>
        rcases (mem_networkLines_cons head).mp h with ⟨rfl, rfl⟩ | h
        · exact .inl ((mem_networkLines_cons head).mpr (.inl ⟨rfl, rfl⟩))
        · rcases (mem_networkLines_cons plain).mp h with ⟨-, rfl⟩ | h
          · exact .inr rfl
          · exact .inl ((mem_networkLines_cons head).mpr (.inr h))
    · simp only at h
      cases head : header? line with
      | some sec =>
        simp only [networkLines, head] at h ⊢
        exact ih h
      | none =>
        rcases (mem_networkLines_cons head).mp h with ⟨rfl, rfl⟩ | h
        · exact .inl ((mem_networkLines_cons head).mpr (.inl ⟨rfl, rfl⟩))
        · exact (ih h).imp_left fun later => (mem_networkLines_cons head).mpr (.inr later)

theorem insertDhcp_free {lines : List (List Char)} (free : ∀ l ∈ lines, '\n' ∉ l) :
    (∀ l ∈ (insertDhcp lines).1, '\n' ∉ l) ∧ lines.length ≤ (insertDhcp lines).1.length := by
  induction lines with
  | nil => exact ⟨free, le_refl _⟩
  | cons line lines ih =>
    obtain ⟨here, later⟩ := List.forall_mem_cons.mp free
    obtain ⟨rest, size⟩ := ih later
    unfold insertDhcp
    split
    · refine ⟨List.forall_mem_cons.mpr ⟨here, List.forall_mem_cons.mpr ⟨by decide, later⟩⟩, ?_⟩
      simp only [List.length_cons]
      omega
    · refine ⟨List.forall_mem_cons.mpr ⟨here, rest⟩, ?_⟩
      simp only [List.length_cons]
      omega

end run

/-- The addresses a line gives are not commented out, and `DHCP=` is not switched. -/
def Survives (fixer : LineFixer) (content : List Char) : Prop :=
  (∀ a ∈ addresses content, ∃ l ∈ networkLines false (linesOf content), hit fixer l = false ∧ address? l = some a) ∧
    ∀ l ∈ networkLines false (linesOf content), hit fixer l = false → (keyed "dhcp".toList l).isSome = true →
      looksOn fixer.alnum l = true

section fixed

variable {fixer : LineFixer} {l : List Char}

theorem fixed_of_hit (h : hit fixer l = true) : fixed fixer l = commentOut l "VMware token removed by h2kvm" := by
  obtain ⟨active, found⟩ := Bool.and_eq_true_iff.mp h
  obtain ⟨name, token⟩ := Option.isSome_iff_exists.mp found
  have quiet : isComment l = false := by simpa using active
  simp only [fixed, quiet, Bool.false_eq_true, if_false, token]

theorem fixed_of_not_hit (h : hit fixer l = false) :
    fixed fixer l = if (keyed "dhcp".toList l).isSome && !looksOn fixer.alnum l then dhcpYes else l := by
  have none : (if isComment l then none else fixer.driverToken l) = none := by
    split
    · rfl
    · rename_i active
      rw [hit, Bool.eq_false_iff.mpr active, Bool.not_false, Bool.true_and] at h
      exact Option.isNone_iff_eq_none.mp (by simpa using h)
  simp only [fixed, none]

theorem address?_dhcpYes : address? dhcpYes = none := by decide

theorem isStaticKey_of_address? {a : List Char} (h : address? l = some a) : isStaticKey l = true := by
  have key : (keyed "address".toList l).isSome = true := by
    unfold address? at h
    split at h
    · cases h
    · rename_i value found
      rw [found]
      rfl
  rw [isStaticKey, List.any_cons, key, Bool.true_or]

theorem address?_fixed {a : List Char} : address? (fixed fixer l) = some a ↔ hit fixer l = false ∧ address? l = some a := by
  cases struck : hit fixer l with
  | true =>
    have gone : keyed "address".toList (fixed fixer l) = none := by
      rw [fixed_of_hit struck]
      exact keyed_eq_none_of_isComment rfl (by decide) (isComment_commentOut _ _)
    rw [address?, gone]
    simp only [reduceCtorEq, Bool.true_eq_false, false_and]
  | false =>
    rw [fixed_of_not_hit struck]
    split
    · rename_i normalized
      -- A `DHCP=` line gives no address.
      have key := (Bool.and_eq_true_iff.mp normalized).1
      have other : keyed "address".toList l = none := keyed_eq_none_of_head rfl rfl key (by decide)
      have none : address? l = none := by rw [address?, other]
      rw [address?_dhcpYes, none]
      simp only [true_and]
    · simp

theorem enablesDhcp_fixed_of_hit (h : hit fixer l = true) : enablesDhcp (fixed fixer l) = false := by
  have gone : keyed "dhcp".toList (fixed fixer l) = none := by
    rw [fixed_of_hit h]
    exact keyed_eq_none_of_isComment rfl (by decide) (isComment_commentOut _ _)
  rw [enablesDhcp, gone]
  rfl

end fixed

/-- A static configuration outlives the fix exactly if no line that gives an address is commented out
and no `DHCP=` line is switched on. -/
theorem staticKept_iff {fixer : LineFixer} {content : List Char} (plain : PlainNames fixer (linesOf content)) :
    ∃ result, fixSystemdNetwork fixer content = some result ∧
      (StaticKept content result.newContent ↔
        (addresses content ≠ [] → usesDhcp content = false → Survives fixer content)) := by
  obtain ⟨s, out, fixes, run, ran⟩ :=
    fixLines_ran (fun _ => newline_not_mem_of_mem_linesOf) plain {} (fun h => absurd h (by decide))
  let lines := if needsDhcp fixer s fixes then (insertDhcp out).1 else out
  obtain ⟨added, result⟩ : ∃ added, fixSystemdNetwork fixer content = some ⟨joinLines lines, fixes ++ added, [], []⟩ := by
    rw [fixSystemdNetwork, run]
    by_cases needs : needsDhcp fixer s fixes = true
    · exact ⟨(insertDhcp out).2, by simp only [lines, needs, if_true, Option.map_some]⟩
    · exact ⟨[], by simp only [lines, needs, Bool.false_eq_true, if_false, Option.map_some]⟩
  have nonempty : out ≠ [] := by
    intro none
    have size := ran.length
    rw [none] at size
    exact linesOf_ne_nil content (List.eq_nil_of_length_eq_zero size.symm)
  have read : linesOf (joinLines lines) = lines := by
    simp only [lines]
    split
    · obtain ⟨free, size⟩ := insertDhcp_free ran.free
      apply linesOf_joinLines free
      intro none
      rw [none] at size
      exact nonempty (List.eq_nil_of_length_eq_zero (Nat.le_zero.mp size))
    · exact linesOf_joinLines ran.free nonempty
  -- The lines of `[Network]`, with what may have been inserted.
  have network : networkLines false out = (networkLines false (linesOf content)).map (fixed fixer) := ran.network
  have source {l' : List Char} (h : l' ∈ networkLines false lines) :
      (∃ l ∈ networkLines false (linesOf content), fixed fixer l = l') ∨ l' = dhcpYes := by
    have kept : l' ∈ networkLines false out ∨ l' = dhcpYes := by
      simp only [lines] at h
      split at h
      · exact mem_networkLines_insertDhcp h
      · exact .inl h
    exact kept.imp_left fun h => List.mem_map.mp (network ▸ h)
  have quiet (saw : s.sawDhcp = true ∨ s.sawStatic = true) : lines = out := by
    have off : needsDhcp fixer s fixes = false := by
      rcases saw with saw | saw
      · simp [needsDhcp, saw]
      · simp [needsDhcp, saw]
    simp only [lines, off, Bool.false_eq_true, if_false]
  refine ⟨_, result, ?_⟩
  unfold StaticKept
  refine forall₂_congr fun static noDhcp => ?_
  simp only [addresses, usesDhcp, read]
  constructor
  · intro kept
    refine ⟨?_, ?_⟩
    · intro a ha
      obtain ⟨l', hl', gives⟩ := List.mem_filterMap.mp (kept.1 a ha)
      rcases source hl' with ⟨l, hl, rfl⟩ | rfl
      · exact ⟨l, hl, address?_fixed.mp gives⟩
      · exact absurd (address?_dhcpYes.symm.trans gives) (by simp)
    · intro l hl safe key
      by_contra off
      have switched : fixed fixer l = dhcpYes := by
        rw [fixed_of_not_hit safe, key, Bool.eq_false_iff.mpr off]
        rfl
      have same := quiet (.inl (ran.sawDhcp (.inr ⟨l, hl, safe, key⟩)))
      have mem : dhcpYes ∈ networkLines false lines := by
        rw [same, network, ← switched]
        exact List.mem_map_of_mem hl
      have on := List.any_eq_false.mp kept.2 dhcpYes mem
      exact on (by decide)
  · intro survives
    obtain ⟨first, hfirst⟩ := List.exists_mem_of_ne_nil _ static
    obtain ⟨l₀, hl₀, safe₀, gives₀⟩ := survives.1 first hfirst
    have static₀ : isStaticKey (fixed fixer l₀) = true :=
      isStaticKey_of_address? (address?_fixed.mpr ⟨safe₀, gives₀⟩)
    have same := quiet (.inr (ran.sawStatic (.inr ⟨l₀, hl₀, safe₀, static₀⟩)))
    rw [same, network]
    refine ⟨?_, ?_⟩
    · intro a ha
      obtain ⟨l, hl, gives⟩ := survives.1 a ha
      exact List.mem_filterMap.mpr ⟨fixed fixer l, List.mem_map_of_mem hl, address?_fixed.mpr gives⟩
    · rw [List.any_map, List.any_eq_false]
      intro l hl on
      cases struck : hit fixer l with
      | true => exact absurd ((enablesDhcp_fixed_of_hit struck).symm.trans on) (by decide)
      | false =>
        have same : fixed fixer l = l := by
          rw [fixed_of_not_hit struck]
          apply if_neg
          intro normalized
          obtain ⟨key, off⟩ := Bool.and_eq_true_iff.mp normalized
          rw [survives.2 l hl struck key] at off
          exact absurd off (by decide)
        rw [Function.comp_apply, same] at on
        exact List.any_eq_false.mp noDhcp l hl on

end H2kvm.Network.Systemd
