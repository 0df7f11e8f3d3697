import Mathlib.Data.Set.NAry
import Mathlib.Logic.Function.Basic
import H2kvm.Converters.FlatFastPath
import H2kvm.Converters.Fetch
import H2kvm.Framework.Replace

namespace H2kvm.Orchestration.BusLogic

open Converters Converters.Descriptor Framework Names Paths Text
open Network (joinLines linesOf)
open Utf8 (encode)

/-- What the files hold, by their paths. -/
abbrev Files := Path → Option Bytes

def adapterKey : List Char := "ddb.adapterType".toList
def busLogic : List Char := "buslogic".toList
def busLogicCamel : List Char := "BusLogic".toList
def lsiLogic : List Char := "lsilogic".toList

/-- `bytes.decode("ascii", "ignore")`. -/
def decodeAscii (bytes : Bytes) : List Char := (bytes.filter (·.toNat < 0x80)).map fun b => Char.ofNat b.toNat

/-- The condition of the loop, of a line of ASCII characters. -/
def isBusLogicLine (line : List Char) : Bool := decide (adapterKey <:+: line) && decide (busLogic <:+: line.map Char.toLower)

/-- The body of the loop. -/
def fixLine (line : List Char) : List Char :=
  if isBusLogicLine line then replace busLogicCamel lsiLogic (replace busLogic lsiLogic line) else line

/-- The lines of a file that is opened as ASCII; they are written as they are read. -/
def readLines (bytes : Bytes) : List (List Char) := linesOf (universalNewlines (decodeAscii bytes))

def isBinary (bytes : Bytes) : Bool := bytes.take 4 = encode "KDMV".toList

def extentName (name : List Char) : List Char := stem name ++ "-flat.vmdk".toList

/-- `_fix_buslogic_controller`, of a file in a directory, where `mkdtemp` makes `tempDir`: the path that is returned, and the
files then. -/
def fixBuslogicController (files : Files) (tempDir parent : Path) (name : List Char) : Path × Files :=
  match files (parent ++ [name]) with
  | none => (parent ++ [name], files)
  | some bytes =>
    if isBinary bytes ∨ (readLines bytes).any isBusLogicLine = false then (parent ++ [name], files)
    else
      let files := Function.update files (tempDir ++ [name]) (some (encode (joinLines ((readLines bytes).map fixLine))))
      match files (parent ++ [extentName name]) with
      | some data => (tempDir ++ [name], Function.update files (tempDir ++ [extentName name]) (some data))
      | none => (tempDir ++ [name], files)

/-- A line for the adapter type, with BusLogic in some letter case. -/
def namesBusLogic : Line → Bool
  | .keyValue key value _ => key = adapterKey && value.map Char.toLower = busLogic
  | _ => false

/-- The line that names LSI Logic in its place. -/
def fixedLine : Line → Line
  | .keyValue key value quoted =>
    .keyValue key (if namesBusLogic (.keyValue key value quoted) then lsiLogic else value) quoted
  | line => line

/-- A line of a key with LSI Logic instead of a value as long as BusLogic. -/
def withLsiLogic (raw : List Char) : List Char :=
  let key := raw.takeWhile (· ≠ '=')
  let sign := (raw.dropWhile (· ≠ '=')).takeWhile fun c => c = '=' || isSpace c || c = '"'
  key ++ (sign ++ (lsiLogic ++ raw.drop (key.length + (sign.length + busLogic.length))))

def expectedLine (line : Line) (raw : List Char) : List Char := if namesBusLogic line then withLsiLogic raw else raw

/-- The descriptor that names LSI Logic where BusLogic was named. -/
def expectedText (lines : List Line) (content : List Char) : List Char :=
  joinLines (List.zipWith expectedLine lines (linesOf (universalNewlines content)))

/-- The files that a descriptor refers to: those of its extents, and its parent. -/
def references (lines : List Line) : List (List Char) :=
  (extents lines).filterMap (·.file) ++ (lines.filterMap (VMDK.valueOf VMDK.parentKey)).filter (· ≠ [])

/-- In another directory there is the expected descriptor, and it refers to what the old one does. -/
structure Preserved (files files' : Files) (tempDir parent : Path) (name : List Char) (lines : List Line)
    (content : List Char) : Prop where
  text : files' (tempDir ++ [name]) = some (encode (expectedText lines content))
  same : ∀ ref ∈ references (lines.map fixedLine), ∀ data, files (resolve parent ref) = some data →
    files' (resolve tempDir ref) = some data

/-- The spellings that are replaced. -/
def isSpelled : Line → Bool
  | .keyValue _ value _ => value = busLogic || value = busLogicCamel
  | _ => false

/-- A line that becomes what it should: BusLogic is spelled in one of two ways, and elsewhere nothing is replaced. -/
def LineKept (line : Line) (raw : List Char) : Prop :=
  if namesBusLogic line then isSpelled line = true
  else ¬(adapterKey <:+: raw ∧ (busLogic <:+: raw ∨ busLogicCamel <:+: raw))

/-- A reference leads from the new directory to the extent beside the descriptor, to the descriptor, or to a file
elsewhere. -/
def LeadsTo (files : Files) (tempDir parent : Path) (name : List Char) (text : Bytes) (ref : List Char) (data : Bytes) :
    Prop :=
  resolve tempDir ref = tempDir ++ [extentName name] ∧ files (parent ++ [extentName name]) = some data ∨
    resolve tempDir ref = tempDir ++ [name] ∧ text = data ∨
      ¬tempDir <+: resolve tempDir ref ∧ files (resolve tempDir ref) = some data

section ascii

variable {content line s : List Char} {c : Char} {bytes : Bytes}

theorem decodeAscii_encode (ascii : ∀ c ∈ content, c.toNat < 0x80) : decodeAscii (encode content) = content := by
  induction content with
  | nil => rfl
  | cons c content ih =>
    obtain ⟨first, rest⟩ := List.forall_mem_cons.mp ascii
    have value : c.val.toNat < 0x80 := first
    have small : (UInt8.ofNat c.val.toNat).toNat = c.val.toNat := Utf8.toNat_ofNat_of_lt (by omega)
    have here : String.utf8EncodeChar c = [UInt8.ofNat c.val.toNat] := by
      rw [String.utf8EncodeChar]
      exact if_pos (by omega)
    have split : encode (c :: content) = UInt8.ofNat c.val.toNat :: encode content := by
      rw [encode, List.flatMap_cons, here]
      rfl
    rw [split, decodeAscii, List.filter_cons_of_pos (by rw [small]; exact decide_eq_true value), List.map_cons, small,
      Utf8.ofNat_of_toNat rfl]
    exact congrArg (c :: ·) (ih rest)

theorem ascii_decodeAscii (member : c ∈ decodeAscii bytes) : c.toNat < 0x80 := by
  obtain ⟨b, kept, rfl⟩ := List.mem_map.mp member
  have small : b.toNat < 0x80 := of_decide_eq_true (List.mem_filter.mp kept).2
  have value : (Char.ofNat b.toNat).val.toNat = b.toNat := Utf8.toNat_ofNat (.inl (by omega))
  exact value.trans_lt small

theorem ascii_fixLine (ascii : ∀ c ∈ line, c.toNat < 0x80) (member : c ∈ fixLine line) : c.toNat < 0x80 := by
  have plain : ∀ c ∈ lsiLogic, c.toNat < 0x80 := by decide
  rw [fixLine] at member
  split at member
  · rcases mem_replace member with put | before
    · exact plain c put
    · exact (mem_replace before).elim (plain c) (ascii c)
  · exact ascii c member

theorem ascii_fixed (member : c ∈ joinLines ((readLines bytes).map fixLine)) : c.toNat < 0x80 := by
  rcases mem_join member with newline | ⟨part, there, inside⟩
  · rw [List.mem_singleton.mp newline]
    decide
  · obtain ⟨line, read, rfl⟩ := List.mem_map.mp there
    refine ascii_fixLine (fun d here => ?_) inside
    rcases mem_universalNewlines ((mem_splitOn read).2 d here) with rfl | decoded
    · decide
    · exact ascii_decodeAscii decoded

end ascii

section lines

variable {raw before behind value s : List Char} {line : Line} {c : Char} {quoted : Bool}

theorem fixLine_eq_self_iff : fixLine raw = raw ↔ ¬(adapterKey <:+: raw ∧ (busLogic <:+: raw ∨ busLogicCamel <:+: raw)) := by
  constructor
  · rintro same ⟨keyed, found⟩
    have lower : busLogic <:+: raw.map Char.toLower := by
      rcases found with plain | camel
      · exact plain.map Char.toLower
      · exact camel.map Char.toLower
    have flagged : isBusLogicLine raw = true := by
      rw [isBusLogicLine, decide_eq_true keyed, decide_eq_true lower]
      rfl
    rw [fixLine, if_pos flagged] at same
    by_cases plain : busLogic <:+: raw
    · have fewer : (replace busLogic lsiLogic raw).count 'b' < raw.count 'b' :=
        count_replace_lt (by decide) (by decide) plain
      have more : (replace busLogicCamel lsiLogic (replace busLogic lsiLogic raw)).count 'b' ≤
          (replace busLogic lsiLogic raw).count 'b' := count_replace_le (by decide) _
      rw [same] at more
      omega
    · have fewer : (replace busLogicCamel lsiLogic raw).count 'B' < raw.count 'B' :=
        count_replace_lt (by decide) (by decide) (found.resolve_left plain)
      rw [replace_eq_self plain] at same
      rw [same] at fewer
      omega
  · intro apart
    rw [fixLine]
    split
    · next flagged =>
      rw [isBusLogicLine, Bool.and_eq_true, decide_eq_true_eq, decide_eq_true_eq] at flagged
      obtain ⟨plain, camel⟩ := not_or.mp (not_and.mp apart flagged.1)
      rw [replace_eq_self plain, replace_eq_self camel]
    · rfl

/-- What stands around the value of an adapter type. -/
structure Around (before behind : List Char) : Prop where
  before : ∃ lead gap sign, Blank lead ∧ Blank gap ∧ (∀ c ∈ sign, isSpace c = true ∨ c = '"') ∧
    before = lead ++ (adapterKey ++ (gap ++ '=' :: sign))
  behind : ∀ c ∈ behind, isSpace c = true ∨ c = '"'

/-- BusLogic in some letter case. -/
def IsBusLogic (value : List Char) : Prop := value.map Char.toLower = busLogic

theorem not_mem_of_spaced (spaced : ∀ c ∈ s, isSpace c = true ∨ c = '"') (visible : isSpace c = false) (other : c ≠ '"') :
    c ∉ s := by
  intro member
  rcases spaced c member with space | quote
  · rw [visible] at space
    cases space
  · exact other quote

theorem replace_around {old : List Char} (around : Around before behind) (spelled : old = busLogic ∨ old = busLogicCamel)
    (s : List Char) : replace old lsiLogic (before ++ (s ++ behind)) = before ++ replace old lsiLogic (s ++ behind) := by
  obtain ⟨lead, gap, sign, blank, blank', spaced, rfl⟩ := around.before
  have letter : ∃ c, old.head? = some c ∧ isSpace c = false ∧ c ≠ '"' ∧ c ≠ '=' := by
    rcases spelled with rfl | rfl
    · exact ⟨'b', by decide, by decide, by decide, by decide⟩
    · exact ⟨'B', by decide, by decide, by decide, by decide⟩
  obtain ⟨c, first, visible, unquoted, unsigned⟩ := letter
  have key (s : List Char) : replace old lsiLogic (adapterKey ++ s) = adapterKey ++ replace old lsiLogic s := by
    rcases spelled with rfl | rfl <;> rfl
  have free : c ∉ lead := not_mem_of_spaced (fun d member => .inl (blank d member)) visible unquoted
  have free' : c ∉ gap := not_mem_of_spaced (fun d member => .inl (blank' d member)) visible unquoted
  have free'' : c ∉ '=' :: sign := by
    rw [List.mem_cons, not_or]
    exact ⟨unsigned, not_mem_of_spaced spaced visible unquoted⟩
  simp only [List.append_assoc]
  rw [replace_append_free first free, key, replace_append_free first free', replace_append_free first free'']

theorem replace_behind {old : List Char} (around : Around before behind) (spelled : old = busLogic ∨ old = busLogicCamel) :
    replace old lsiLogic behind = behind := by
  refine replace_eq_self fun inside => ?_
  rcases spelled with rfl | rfl
  · exact not_mem_of_spaced around.behind (by decide) (by decide) (inside.subset (by decide : 'b' ∈ busLogic))
  · exact not_mem_of_spaced around.behind (by decide) (by decide) (inside.subset (by decide : 'B' ∈ busLogicCamel))

theorem replace_value {old : List Char} (around : Around before behind) (spelled : old = busLogic ∨ old = busLogicCamel)
    (named : IsBusLogic value) :
    replace old lsiLogic (value ++ behind) = (if value = old then lsiLogic else value) ++ behind := by
  have some : old ≠ [] := by rcases spelled with rfl | rfl <;> decide
  split
  · next same => rw [same, replace_match some, replace_behind around spelled]
  · next other =>
    obtain ⟨c, tail, rfl⟩ : ∃ c tail, value = c :: tail := by
      refine List.exists_cons_of_ne_nil ?_
      rintro rfl
      cases named
    have lengths : (c :: tail).length = old.length := by
      have long := congrArg List.length named
      rw [List.length_map] at long
      rcases spelled with rfl | rfl
      · exact long
      · exact long.trans (by decide)
    have start : ¬old <+: c :: (tail ++ behind) := by
      intro start
      have inside := List.prefix_of_prefix_length_le start (List.prefix_append (c :: tail) behind) lengths.ge
      exact other (inside.eq_of_length lengths.symm).symm
    have lowered : tail.map Char.toLower = busLogic.tail := congrArg List.tail named
    obtain ⟨d, first, lower⟩ : ∃ d, old.head? = .some d ∧ d.toLower = 'b' := by
      rcases spelled with rfl | rfl
      · exact ⟨'b', by decide, by decide⟩
      · exact ⟨'B', by decide, by decide⟩
    have free : d ∉ tail := by
      intro member
      have there : d.toLower ∈ tail.map Char.toLower := List.mem_map_of_mem member
      rw [lower, lowered] at there
      exact absurd there (by decide)
    have rest : replace old lsiLogic (tail ++ behind) = tail ++ replace old lsiLogic behind := replace_append_free first free behind
    rw [replace_behind around spelled, replace] at rest
    rw [List.cons_append, replace, replaceFrom, if_neg start, rest]

theorem fixLine_value (around : Around before behind) (named : IsBusLogic value) : fixLine (before ++ (value ++ behind)) =
    before ++ ((if value = busLogic ∨ value = busLogicCamel then lsiLogic else value) ++ behind) := by
  have flagged : isBusLogicLine (before ++ (value ++ behind)) = true := by
    rw [isBusLogicLine, Bool.and_eq_true, decide_eq_true_eq, decide_eq_true_eq]
    constructor
    · obtain ⟨lead, gap, sign, -, -, -, rfl⟩ := around.before
      exact ⟨lead, gap ++ '=' :: sign ++ (value ++ behind), by simp only [List.append_assoc]⟩
    · rw [List.map_append, List.map_append, named]
      exact ⟨before.map Char.toLower, behind.map Char.toLower, by rw [List.append_assoc]⟩
  have lsi : replace busLogicCamel lsiLogic (lsiLogic ++ behind) = lsiLogic ++ behind := by
    have first : busLogicCamel.head? = some 'B' := by decide
    rw [replace_append_free first (by decide), replace_behind around (.inr rfl)]
  rw [fixLine, if_pos flagged, replace_around around (.inl rfl), replace_value around (.inl rfl) named]
  by_cases plain : value = busLogic
  · rw [if_pos plain, if_pos (.inl plain), replace_around around (.inr rfl), lsi]
  · rw [if_neg plain, replace_around around (.inr rfl), replace_value around (.inr rfl) named]
    by_cases camel : value = busLogicCamel
    · rw [if_pos camel, if_pos (.inr camel)]
    · rw [if_neg camel, if_neg (not_or.mpr ⟨plain, camel⟩)]

theorem withLsiLogic_value (around : Around before behind) (named : IsBusLogic value) :
    withLsiLogic (before ++ (value ++ behind)) = before ++ (lsiLogic ++ behind) := by
  obtain ⟨lead, gap, sign, blank, blank', spaced, rfl⟩ := around.before
  have unsigned : ∀ c ∈ lead ++ (adapterKey ++ gap), decide (c ≠ '=') = true := by
    have key : '=' ∉ adapterKey := by decide
    intro c member
    refine decide_eq_true ?_
    rintro rfl
    rcases List.mem_append.mp member with there | there
    · exact absurd (blank _ there) (by decide)
    · rcases List.mem_append.mp there with there | there
      · exact key there
      · exact absurd (blank' _ there) (by decide)
  have long : value.length = busLogic.length := by
    rw [← named, List.length_map]
  obtain ⟨c, tail, rfl⟩ : ∃ c tail, value = c :: tail := by
    refine List.exists_cons_of_ne_nil ?_
    rintro rfl
    cases named
  have letter : c.toLower = 'b' := (List.cons.inj named).1
  have stop : (decide (c = '=') || isSpace c || decide (c = '"')) = false := by
    have unspaced : isSpace c = false := by
      rw [Bool.eq_false_iff]
      intro space
      rw [Network.toLower_of_isSpace space] at letter
      rw [letter] at space
      cases space
    have unsigned : c ≠ '=' := by
      rintro rfl
      exact absurd letter (by decide)
    have unquoted : c ≠ '"' := by
      rintro rfl
      exact absurd letter (by decide)
    rw [unspaced, decide_eq_false unsigned, decide_eq_false unquoted]
    rfl
  have signs : ∀ d ∈ '=' :: sign, (decide (d = '=') || isSpace d || decide (d = '"')) = true := by
    intro d member
    rcases List.mem_cons.mp member with rfl | there
    · rfl
    · rcases spaced d there with space | rfl
      · rw [space, Bool.or_true, Bool.true_or]
      · rfl
  have split : lead ++ (adapterKey ++ (gap ++ '=' :: sign)) ++ (c :: tail ++ behind) =
      (lead ++ (adapterKey ++ gap)) ++ '=' :: (sign ++ (c :: tail ++ behind)) := by simp
  have start : (('=' :: sign) ++ ((c :: tail) ++ behind)).takeWhile (fun c => c = '=' || isSpace c || c = '"') =
      '=' :: sign := takeWhile_until signs stop
  have left : ((lead ++ (adapterKey ++ gap)) ++ (('=' :: sign) ++ ((c :: tail) ++ behind))).drop
      ((lead ++ (adapterKey ++ gap)).length + (('=' :: sign).length + busLogic.length)) = behind := by
    have whole : (lead ++ (adapterKey ++ gap)) ++ (('=' :: sign) ++ ((c :: tail) ++ behind)) =
        (lead ++ (adapterKey ++ gap) ++ (('=' :: sign) ++ c :: tail)) ++ behind := by simp only [List.append_assoc]
    rw [whole, ← long, ← List.length_append, ← List.length_append, List.drop_left]
  rw [withLsiLogic, split, takeWhile_until unsigned (by decide), dropWhile_until unsigned (by decide),
    ← List.cons_append, start, left]
  simp only [List.append_assoc]

/-- A line for the adapter type, as it is written with this value and with another. -/
theorem around_of_written (written : Written (.keyValue adapterKey value quoted) (strip raw)) :
    ∃ before behind, Around before behind ∧ raw = before ++ (value ++ behind) ∧
      Written (.keyValue adapterKey lsiLogic quoted) (strip (before ++ (lsiLogic ++ behind))) := by
  obtain ⟨lead, trail, split, blank, blank'⟩ := strip_split raw
  generalize strip raw = text at written split
  subst split
  cases written with
  | @keyValue _ _ gap gap' _ named plain spaces spaces' =>
    obtain ⟨quote, form, quotes, last⟩ : ∃ quote, (∀ value, valueText quoted value = quote ++ (value ++ quote)) ∧
        (∀ c ∈ quote, c = '"') ∧ ∀ c, (lsiLogic ++ quote).getLast? = some c → isSpace c = false := by
      cases quoted with
      | true =>
        refine ⟨['"'], fun value => rfl, fun c member => List.mem_singleton.mp member, ?_⟩
        rintro c last
        cases last
        rfl
      | false =>
        refine ⟨[], fun value => (List.append_nil value).symm, nofun, ?_⟩
        rintro c last
        cases last
        rfl
    have around : Around (lead ++ (adapterKey ++ (gap ++ '=' :: (gap' ++ quote)))) (quote ++ trail) := by
      refine ⟨⟨lead, gap, gap' ++ quote, blank, spaces, ?_, rfl⟩, ?_⟩
      · intro c member
        exact (List.mem_append.mp member).imp (spaces' c) (quotes c)
      · intro c member
        exact (List.mem_append.mp member).symm.imp (blank' c) (quotes c)
    refine ⟨_, _, around, ?_, ?_⟩
    · rw [form]
      simp only [List.append_assoc, List.cons_append]
    · have unfolded : lead ++ (adapterKey ++ (gap ++ '=' :: (gap' ++ quote))) ++ (lsiLogic ++ (quote ++ trail)) =
          lead ++ (adapterKey ++ (gap ++ '=' :: (gap' ++ valueText quoted lsiLogic)) ++ trail) := by
        rw [form]
        simp only [List.append_assoc, List.cons_append]
      rw [unfolded, strip_between blank blank' (List.append_ne_nil_of_left_ne_nil named _)]
      · exact .keyValue named plain spaces spaces' (by decide) fun _ => by decide
      · rintro c first
        cases first
        rfl
      · intro c ending
        have behind : gap ++ '=' :: (gap' ++ valueText quoted lsiLogic) =
            (gap ++ '=' :: (gap' ++ quote)) ++ (lsiLogic ++ quote) := by
          rw [form]
          simp only [List.append_assoc, List.cons_append]
        rw [behind, ← List.append_assoc,
          List.getLast?_append_of_ne_nil _ (List.append_ne_nil_of_left_ne_nil (by decide) _)] at ending
        exact last c ending

theorem fixLine_iff (written : Written line (strip raw)) : fixLine raw = expectedLine line raw ↔ LineKept line raw := by
  rw [expectedLine, LineKept]
  cases named : namesBusLogic line with
  | false =>
    rw [if_neg Bool.false_ne_true, if_neg Bool.false_ne_true]
    exact fixLine_eq_self_iff
  | true =>
    cases line with
    | keyValue key value quoted =>
      rw [namesBusLogic, Bool.and_eq_true, decide_eq_true_eq, decide_eq_true_eq] at named
      obtain ⟨rfl, named⟩ := named
      obtain ⟨before, behind, around, rfl, -⟩ := around_of_written written
      rw [if_pos rfl, if_pos rfl, fixLine_value around named, withLsiLogic_value around named, List.append_cancel_left_eq,
        List.append_cancel_right_eq, isSpelled, Bool.or_eq_true, decide_eq_true_eq, decide_eq_true_eq]
      constructor
      · intro same
        by_contra other
        rw [if_neg other] at same
        rw [same] at named
        exact absurd named (by decide)
      · exact fun spelled => if_pos spelled
    | _ => cases named

end lines

section texts

variable {content raw : List Char} {lines : List Line} {raws : List (List Char)} {line : Line} {c : Char}

theorem map_fixLine_iff (written : List.Forall₂ (fun line raw => Written line (strip raw)) lines raws) :
    raws.map fixLine = List.zipWith expectedLine lines raws ↔ List.Forall₂ LineKept lines raws := by
  induction written with
  | nil => exact iff_of_true rfl .nil
  | cons first _ ih => rw [List.map_cons, List.zipWith_cons_cons, List.cons.injEq, List.forall₂_cons, fixLine_iff first, ih]

theorem mem_withLsiLogic (member : c ∈ withLsiLogic raw) : c ∈ lsiLogic ∨ c ∈ raw := by
  rw [withLsiLogic] at member
  rcases List.mem_append.mp member with key | more
  · exact .inr ((List.takeWhile_sublist _).subset key)
  rcases List.mem_append.mp more with sign | more
  · exact .inr ((List.dropWhile_sublist _).subset ((List.takeWhile_sublist _).subset sign))
  · exact (List.mem_append.mp more).imp_right fun rest => List.mem_of_mem_drop rest

theorem mem_expectedLine (written : Written line (strip raw)) (member : c ∈ raw) (large : ¬c.toNat < 0x80) :
    c ∈ expectedLine line raw := by
  rw [expectedLine]
  split
  · next named =>
    cases line with
    | keyValue key value quoted =>
      rw [namesBusLogic, Bool.and_eq_true, decide_eq_true_eq, decide_eq_true_eq] at named
      obtain ⟨rfl, named⟩ := named
      obtain ⟨before, behind, around, rfl, -⟩ := around_of_written written
      rw [withLsiLogic_value around named]
      rcases List.mem_append.mp member with ahead | more
      · exact List.mem_append_left _ ahead
      rcases List.mem_append.mp more with inside | after
      · have plain : ∀ c ∈ busLogic, c.toNat < 0x80 := by decide
        have there : c.toLower ∈ busLogic := named ▸ List.mem_map_of_mem inside
        rw [Network.toLower_eq_self (.inr (by omega))] at there
        exact absurd (plain c there) large
      · exact List.mem_append_right _ (List.mem_append_right _ after)
    | _ => cases named
  · exact member

theorem expectedLine_mem (written : List.Forall₂ (fun line raw => Written line (strip raw)) lines raws)
    (member : raw ∈ raws) : ∃ line, Written line (strip raw) ∧ expectedLine line raw ∈ List.zipWith expectedLine lines raws := by
  induction written with
  | nil => cases member
  | @cons line first lines raws here _ ih =>
    rcases List.mem_cons.mp member with rfl | later
    · exact ⟨line, here, List.mem_cons_self⟩
    · obtain ⟨line, written, inside⟩ := ih later
      exact ⟨line, written, List.mem_cons_of_mem _ inside⟩

theorem newlineless_fixed (free : ∀ raw ∈ raws, '\n' ∉ raw) : ∀ raw ∈ raws.map fixLine, '\n' ∉ raw := by
  intro fixed listed member
  obtain ⟨raw, there, rfl⟩ := List.mem_map.mp listed
  have plain : '\n' ∉ lsiLogic := by decide
  rw [fixLine] at member
  split at member
  · rcases mem_replace member with put | before
    · exact plain put
    · exact (mem_replace before).elim plain (free raw there)
  · exact free raw there member

theorem newlineless_expected (free : ∀ raw ∈ raws, '\n' ∉ raw) :
    ∀ raw ∈ List.zipWith expectedLine lines raws, '\n' ∉ raw := by
  intro expected listed member
  rw [← List.map_uncurry_zip_eq_zipWith] at listed
  obtain ⟨⟨line, raw⟩, zipped, rfl⟩ := List.mem_map.mp listed
  have there := (List.of_mem_zip zipped).2
  rw [Function.uncurry] at member
  rw [expectedLine] at member
  split at member
  · exact (mem_withLsiLogic member).elim (by decide) (free raw there)
  · exact free raw there member

theorem expected_ne_nil (written : WrittenIn lines content) :
    List.zipWith expectedLine lines (linesOf (universalNewlines content)) ≠ [] := by
  have some := Network.linesOf_ne_nil (universalNewlines content)
  rw [WrittenIn] at written
  generalize linesOf (universalNewlines content) = raws at written some
  cases written with
  | nil => exact absurd rfl some
  | cons first rest => exact List.cons_ne_nil _ _

theorem ascii_of_fixed (written : WrittenIn lines content)
    (fixed : joinLines ((readLines (encode content)).map fixLine) = expectedText lines content) :
    ∀ c ∈ content, c.toNat < 0x80 := by
  intro c member
  by_contra large
  have newlines : c ≠ '\r' := by
    rintro rfl
    exact large (by decide)
  have there : c ∈ joinLines (linesOf (universalNewlines content)) := by
    rw [joinLines, join, linesOf, List.intercalate_splitOn]
    exact mem_universalNewlines_of_ne newlines member
  rcases mem_join there with newline | ⟨raw, listed, inside⟩
  · rw [List.mem_singleton.mp newline] at large
    exact large (by decide)
  · obtain ⟨line, first, expected⟩ := expectedLine_mem written listed
    have kept : c ∈ expectedText lines content := mem_join_of_mem expected (mem_expectedLine first inside large)
    rw [← fixed] at kept
    exact large (ascii_fixed kept)

theorem fixed_iff (written : WrittenIn lines content) :
    joinLines ((readLines (encode content)).map fixLine) = expectedText lines content ↔
      (∀ c ∈ content, c.toNat < 0x80) ∧ List.Forall₂ LineKept lines (linesOf (universalNewlines content)) := by
  have readable (ascii : ∀ c ∈ content, c.toNat < 0x80) :
      readLines (encode content) = linesOf (universalNewlines content) := by
    rw [readLines, decodeAscii_encode ascii]
  have free : ∀ raw ∈ linesOf (universalNewlines content), '\n' ∉ raw := fun _ => Network.newline_not_mem_of_mem_linesOf
  have some := Network.linesOf_ne_nil (universalNewlines content)
  constructor
  · intro fixed
    have ascii := ascii_of_fixed written fixed
    rw [readable ascii, expectedText] at fixed
    refine ⟨ascii, (map_fixLine_iff written).mp ?_⟩
    have split := congrArg linesOf fixed
    rwa [Network.linesOf_joinLines (newlineless_fixed free) (by simpa using some),
      Network.linesOf_joinLines (newlineless_expected free) (expected_ne_nil written)] at split
  · rintro ⟨ascii, kept⟩
    rw [readable ascii, expectedText, (map_fixLine_iff written).mpr kept]

end texts

section files

variable {files : Files} {tempDir parent : Path} {name content : List Char} {lines : List Line} {bytes : Bytes}

theorem references_map (lines : List Line) : references (lines.map fixedLine) = references lines := by
  have extents : extents (lines.map fixedLine) = extents lines := by
    rw [Descriptor.extents, Descriptor.extents, List.filterMap_map]
    congr 1
    funext line
    cases line <;> rfl
  have parents (line : Line) : VMDK.valueOf VMDK.parentKey (fixedLine line) = VMDK.valueOf VMDK.parentKey line := by
    cases line with
    | keyValue key value quoted =>
      by_cases named : namesBusLogic (.keyValue key value quoted) = true
      · have adapter : key = adapterKey := by
          rw [namesBusLogic, Bool.and_eq_true, decide_eq_true_eq] at named
          exact named.1
        have other : ¬Network.lower adapterKey = VMDK.parentKey := by decide
        rw [fixedLine, VMDK.valueOf, VMDK.valueOf, adapter, if_neg other, if_neg other]
      · rw [fixedLine, if_neg named]
    | _ => rfl
  rw [references, references, extents, List.filterMap_map]
  congr 3
  funext line
  exact parents line

theorem extentName_ne (name : List Char) : extentName name ≠ name := by
  intro same
  have split := stem_append_suffix name
  rw [extentName] at same
  have tail : "-flat.vmdk".toList = suffix name := List.append_cancel_left (same.trans split.symm)
  rw [suffix] at tail
  split at tail
  · exact absurd (List.cons.inj tail).1 (by decide)
  · cases tail

theorem update_eq_some_iff {p q : Path} {data new : Bytes} :
    Function.update files q (some new) p = some data ↔ p = q ∧ new = data ∨ p ≠ q ∧ files p = some data := by
  by_cases same : p = q
  · rw [same, Function.update_self, Option.some_inj]
    simp
  · rw [Function.update_of_ne same]
    simp [same]

/-- What the files hold, when a descriptor has been fixed. -/
theorem fixBuslogicController_eq (there : files (parent ++ [name]) = some bytes) (text : isBinary bytes = false)
    (flagged : (readLines bytes).any isBusLogicLine = true) (fresh : ∀ p, tempDir <+: p → files p = none) :
    ∃ files', fixBuslogicController files tempDir parent name = (tempDir ++ [name], files') ∧
      ∀ p data, files' p = some data ↔
      p = tempDir ++ [extentName name] ∧ files (parent ++ [extentName name]) = some data ∨
        p = tempDir ++ [name] ∧ encode (joinLines ((readLines bytes).map fixLine)) = data ∨
          ¬tempDir <+: p ∧ files p = some data := by
  have names : extentName name ≠ name := extentName_ne name
  have apart (p q : Path) : p ++ [extentName name] ≠ q ++ [name] := fun same =>
    names (List.singleton_inj.mp (List.append_inj' same rfl).2)
  have inside {p : Path} {q : List Char} (elsewhere : ¬tempDir <+: p) : p ≠ tempDir ++ [q] := by
    rintro rfl
    exact elsewhere (List.prefix_append _ _)
  have outside {p : Path} {data : Bytes} (found : files p = some data) : ¬tempDir <+: p := by
    intro inside
    rw [fresh p inside] at found
    cases found
  rw [fixBuslogicController, there]
  dsimp only
  rw [if_neg (by rw [text, flagged]; decide), Function.update_of_ne (apart _ _)]
  cases extent : files (parent ++ [extentName name]) with
  | some extentData =>
    refine ⟨_, rfl, fun p data => ?_⟩
    rw [update_eq_some_iff, update_eq_some_iff, Option.some_inj]
    constructor
    · rintro (copied | ⟨-, written | ⟨-, kept⟩⟩)
      · exact .inl copied
      · exact .inr (.inl written)
      · exact .inr (.inr ⟨outside kept, kept⟩)
    · rintro (copied | ⟨rfl, written⟩ | ⟨elsewhere, kept⟩)
      · exact .inl copied
      · exact .inr ⟨(apart tempDir tempDir).symm, .inl ⟨rfl, written⟩⟩
      · exact .inr ⟨inside elsewhere, .inr ⟨inside elsewhere, kept⟩⟩
  | none =>
    refine ⟨_, rfl, fun p data => ?_⟩
    rw [update_eq_some_iff]
    constructor
    · rintro (written | ⟨-, kept⟩)
      · exact .inr (.inl written)
      · exact .inr (.inr ⟨outside kept, kept⟩)
    · rintro (⟨-, none⟩ | written | ⟨elsewhere, kept⟩)
      · cases none
      · exact .inl written
      · exact .inr ⟨inside elsewhere, kept⟩

/-- The fixed descriptor is the old one with LSI Logic, and leads to the same, exactly if it was ASCII, each of its lines
becomes what it should, and each file that it leads to is the extent beside it, or is found from the new directory. -/
theorem preserved_iff (written : WrittenIn lines content) (there : files (parent ++ [name]) = some (encode content))
    (fresh : ∀ p, tempDir <+: p → files p = none) :
    (∀ p files', fixBuslogicController files tempDir parent name = (p, files') → p ≠ parent ++ [name] →
        Preserved files files' tempDir parent name lines content) ↔
      (isBinary (encode content) = false → (readLines (encode content)).any isBusLogicLine = true →
        (∀ c ∈ content, c.toNat < 0x80) ∧ List.Forall₂ LineKept lines (linesOf (universalNewlines content)) ∧
          ∀ ref ∈ references lines, ∀ data, files (resolve parent ref) = some data →
            LeadsTo files tempDir parent name (encode (expectedText lines content)) ref data) := by
  cases binary : isBinary (encode content) with
  | true =>
    refine iff_of_true (fun p files' fixed other => ?_) nofun
    rw [fixBuslogicController, there] at fixed
    dsimp only at fixed
    rw [if_pos (.inl binary)] at fixed
    cases fixed
    exact absurd rfl other
  | false =>
    cases flagged : (readLines (encode content)).any isBusLogicLine with
    | false =>
      refine iff_of_true (fun p files' fixed other => ?_) nofun
      rw [fixBuslogicController, there] at fixed
      dsimp only at fixed
      rw [if_pos (.inr flagged)] at fixed
      cases fixed
      exact absurd rfl other
    | true =>
      obtain ⟨files', fixed, holds⟩ := fixBuslogicController_eq there binary flagged fresh
      have moved : tempDir ++ [name] ≠ parent ++ [name] := by
        intro same
        rw [← same, fresh _ (List.prefix_append _ _)] at there
        cases there
      have text : files' (tempDir ++ [name]) = some (encode (expectedText lines content)) ↔
          joinLines ((readLines (encode content)).map fixLine) = expectedText lines content := by
        rw [holds]
        constructor
        · rintro (⟨same, -⟩ | ⟨-, same⟩ | ⟨elsewhere, -⟩)
          · exact absurd (List.singleton_inj.mp (List.append_cancel_left same)) (extentName_ne name).symm
          · have decoded := congrArg Utf8.decode same
            rwa [Utf8.decode_encode, Utf8.decode_encode] at decoded
          · exact absurd (List.prefix_append _ _) elsewhere
        · exact fun same => .inr (.inl ⟨rfl, congrArg encode same⟩)
      rw [fixed, forall_prop_of_true rfl, forall_prop_of_true rfl, ← and_assoc, ← fixed_iff written]
      constructor
      · intro preserved
        have kept := preserved _ _ rfl moved
        refine ⟨text.mp kept.text, fun ref listed data found => ?_⟩
        rw [← text.mp kept.text]
        refine (holds _ _).mp (kept.same ref ?_ data found)
        rwa [references_map]
      · rintro ⟨same, leads⟩ p files'' ⟨⟩ -
        refine ⟨text.mpr same, fun ref listed data found => (holds _ _).mpr ?_⟩
        rw [references_map] at listed
        rw [same]
        exact leads ref listed data found

end files

section inputs

/-- A descriptor of an extent on a BusLogic controller. -/
def busLogicDisk (file : String) : List Line :=
  [.keyValue adapterKey busLogic true, .extent ⟨.rw, 1, .flat, some file.toList, some 0⟩]

def adapterText : List Char := adapterKey ++ ([' '] ++ '=' :: ([' '] ++ valueText true busLogic))

def extentText (file : String) : List Char :=
  Access.rw.name ++
    ([' '] ++ (['1'] ++ ([' '] ++ (ExtentType.flat.name ++ (([' '] ++ '"' :: (file.toList ++ ['"'])) ++ [' ', '0'])))))

def busLogicText (file : String) : List Char := adapterText ++ '\n' :: extentText file

def vm : Path := ["vm".toList]

def temp : Path := ["tmp".toList]

def vmdk : List Char := "disk.vmdk".toList

/-- The descriptor, with the extent beside it. -/
def busLogicFiles (file : String) : Files := fun p =>
  if p = vm ++ [vmdk] then some (encode (busLogicText file)) else if p = vm ++ [file.toList] then some [7] else none

theorem fresh_temp (file : String) (p : Path) (inside : temp <+: p) : busLogicFiles file p = none := by
  have apart (q : Path) : p ≠ vm ++ q := by
    rintro rfl
    exact absurd (List.cons_prefix_cons.mp inside).1 (by decide)
  rw [busLogicFiles, if_neg (apart _), if_neg (apart _)]

theorem writtenIn_busLogic {file : String}
    (split : linesOf (universalNewlines (busLogicText file)) = [adapterText, extentText file])
    (stripped : strip (extentText file) = extentText file) (some : file.toList ≠ []) (free : '"' ∉ file.toList) :
    WrittenIn (busLogicDisk file) (busLogicText file) := by
  have space : Gap [' '] := ⟨by decide, fun c member => by rw [List.mem_singleton.mp member]; rfl⟩
  have one : Numeral ['1'] 1 := ⟨by decide, by decide, rfl⟩
  have zero : Numeral ['0'] 0 := ⟨by decide, by decide, rfl⟩
  have clean : strip adapterText = adapterText := by decide +kernel
  rw [WrittenIn, split]
  refine .cons ?_ (.cons ?_ .nil)
  · rw [clean]
    exact .keyValue (by decide) (by decide) space.blank space.blank (by decide) (by simp)
  · rw [stripped]
    exact .extent space one space (.some space some free) (.some space zero)

theorem preserved_iff_flat : Preserved (busLogicFiles "disk-flat.vmdk")
    (fixBuslogicController (busLogicFiles "disk-flat.vmdk") temp vm vmdk).2 temp vm vmdk (busLogicDisk "disk-flat.vmdk")
    (busLogicText "disk-flat.vmdk") := by
  have split : linesOf (universalNewlines (busLogicText "disk-flat.vmdk")) = [adapterText, extentText "disk-flat.vmdk"] := by
    decide +kernel
  refine (preserved_iff (writtenIn_busLogic split (by decide +kernel) (by decide) (by decide)) rfl (fresh_temp _)).mpr
    (fun _ _ => ⟨by decide +kernel, ?_, ?_⟩) _ _ rfl (by decide +kernel)
  · rw [split]
    refine .cons ?_ (.cons ?_ .nil)
    · exact (if_pos (by decide : namesBusLogic (.keyValue adapterKey busLogic true) = true)).mpr (by decide)
    · rintro ⟨keyed, -⟩
      exact absurd keyed (by decide +kernel)
  · intro ref listed data found
    have one : references (busLogicDisk "disk-flat.vmdk") = ["disk-flat.vmdk".toList] := by decide +kernel
    rw [one] at listed
    rw [List.mem_singleton.mp listed] at found ⊢
    exact .inl ⟨by decide +kernel, found⟩

/-- An extent of another name is left behind. -/
theorem not_preserved_split : WrittenIn (busLogicDisk "disk-s001.vmdk") (busLogicText "disk-s001.vmdk") ∧
    ¬∀ p files', fixBuslogicController (busLogicFiles "disk-s001.vmdk") temp vm vmdk = (p, files') → p ≠ vm ++ [vmdk] →
      Preserved (busLogicFiles "disk-s001.vmdk") files' temp vm vmdk (busLogicDisk "disk-s001.vmdk")
        (busLogicText "disk-s001.vmdk") := by
  refine ⟨writtenIn_busLogic (by decide +kernel) (by decide +kernel) (by decide) (by decide), fun preserved => ?_⟩
  have kept : Preserved _ (fixBuslogicController (busLogicFiles "disk-s001.vmdk") temp vm vmdk).2 _ _ _ _ _ :=
    preserved _ _ rfl (by decide +kernel)
  have listed : "disk-s001.vmdk".toList ∈ references ((busLogicDisk "disk-s001.vmdk").map fixedLine) := by decide +kernel
  have found : busLogicFiles "disk-s001.vmdk" (resolve vm "disk-s001.vmdk".toList) = some [7] := by decide +kernel
  have gone : (fixBuslogicController (busLogicFiles "disk-s001.vmdk") temp vm vmdk).2 (resolve temp "disk-s001.vmdk".toList) =
      none := by decide +kernel
  have there := kept.same _ listed _ found
  rw [gone] at there
  cases there

end inputs

end H2kvm.Orchestration.BusLogic
