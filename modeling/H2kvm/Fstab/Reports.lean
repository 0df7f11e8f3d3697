import H2kvm.Fstab.Preservation

namespace H2kvm.Fstab

open Framework Text Utf8

def textLines (file : List UInt8) : List (List Char) := splitlines (decode file)

/-- The lines of two texts, numbered from one, that differ in a column. -/
def differing (col : Nat) (before after : List (List Char)) : List (Nat × List Char × List Char) :=
  ((before.zip after).zipIdx 1).filterMap fun (lines, i) =>
    if (split lines.1)[col]? = (split lines.2)[col]? then none else some (i, lines)

/-- There is no white space in the text. -/
def SingleWord (text : List Char) : Prop := ∀ c ∈ text, isSpace c = false

namespace FstabCrypttabRewriter

variable (r : FstabCrypttabRewriter) (g : Guest) (c : Crypttab)

def fstabRun (dry : Bool) (g : Guest) : Outcome := { r with dryRun := dry }.rewriteFstab g

def cryptRun (dry : Bool) (c : Crypttab) : CryptOutcome := { r with dryRun := dry }.rewriteCrypttab g c

/-- A run on its own output changes nothing, the changes listed are those in the file, and a dry run lists the same. -/
structure FstabHonest : Prop where
  again : (r.fstabRun false { g with fstab := (r.fstabRun false g).file }).changes = []
  stays : (r.fstabRun false { g with fstab := (r.fstabRun false g).file }).file = (r.fstabRun false g).file
  lines : (textLines (r.fstabRun false g).file).length = (textLines g.fstab).length
  listed : (r.fstabRun false g).changes.map (fun ch => (ch.lineNo, some ch.old, some ch.new)) =
    (differing 0 (textLines g.fstab) (textLines (r.fstabRun false g).file)).map fun (i, before, after) =>
      (i, (split before)[0]?, (split after)[0]?)
  dry : r.fstabRun true g = { r.fstabRun false g with file := g.fstab }

/-- The same of a crypttab, where the changes are counted and logged with the name of the entry. -/
structure CryptHonest : Prop where
  again : (r.cryptRun g false { c with file := (r.cryptRun g false c).file }).changed = 0
  stays : (r.cryptRun g false { c with file := (r.cryptRun g false c).file }).file = (r.cryptRun g false c).file
  lines : (textLines (r.cryptRun g false c).file).length = (textLines c.file).length
  counted : (r.cryptRun g false c).changed = (differing 1 (textLines c.file) (textLines (r.cryptRun g false c).file)).length
  listed : (r.cryptRun g false c).log.map (fun ch => (some ch.name, some ch.old, some ch.new)) =
    (differing 1 (textLines c.file) (textLines (r.cryptRun g false c).file)).map fun (_, before, after) =>
      ((split before)[0]?, (split before)[1]?, (split after)[1]?)
  dry : r.cryptRun g true c = { r.cryptRun g false c with file := c.file }

/-- The entries of a crypttab that are converted: the name, the spec, the identifier and the other columns. -/
def cryptConversion (line : List Char) : Option (List Char × List Char × List Char × List (List Char)) :=
  if strip line = [] ∨ ['#'] <+: strip line then none
  else
    match split line with
    | name :: spec :: rest =>
      if Ident.isStable spec ∨ r.mode = .bypathOnly ∧ ¬ (bypathDir <+: spec ∨ btrfsvol <+: spec) then none
      else (r.converter.identifier g spec).map fun ident => (name, spec, ident, rest)
    | _ => none

/-- Each identifier that is put into the fstab is one word. -/
def FstabWords : Prop :=
  r.mode ≠ .noop → g.isFile = some true → ∀ line ∈ textLines g.fstab, ∀ p, r.conversion g line = some p → SingleWord p.1

/-- Each identifier that is put into the crypttab is one word. -/
def CryptWords : Prop :=
  c.isFile = some true → ∀ line ∈ textLines c.file, ∀ p, r.cryptConversion g line = some p → SingleWord p.2.2.1

end FstabCrypttabRewriter

section edits

/-- One column of a line replaced. -/
structure ColumnEdit where
  lead : List (List Char)
  old : List Char
  new : List Char
  rest : List (List Char)

def ColumnEdit.line (z : Char) (e : ColumnEdit) : List Char := join [z] (e.lead ++ e.new :: e.rest)

/-- An edit of the column `col` of some lines, which are put together again with `z`. -/
structure Edits (z : Char) (col : Nat) (edit : List Char → Option ColumnEdit) : Prop where
  space : isSpace z = true
  unbroken : isBreak z = false
  columns : ∀ line e, edit line = some e → split line = e.lead ++ e.old :: e.rest ∧ e.lead.length = col
  differs : ∀ line e, edit line = some e → e.new ≠ e.old ∧ e.new ≠ []

def edited (z : Char) (edit : List Char → Option ColumnEdit) (line : List Char) : List Char :=
  (edit line).elim line (ColumnEdit.line z)

variable {z : Char} {col : Nat} {edit : List Char → Option ColumnEdit} {line : List Char} {e : ColumnEdit}

theorem Edits.words (edits : Edits z col edit) (found : edit line = some e) (single : SingleWord e.new) :
    ∀ w ∈ e.lead ++ e.new :: e.rest, w ≠ [] ∧ ∀ c ∈ w, isSpace c = false := by
  obtain ⟨columns, -⟩ := edits.columns line e found
  have column : ∀ w ∈ e.lead ++ e.old :: e.rest, w ≠ [] ∧ ∀ c ∈ w, isSpace c = false := by
    intro w hw
    rw [← columns, split_eq_words] at hw
    exact mem_words hw
  intro w hw
  rcases List.mem_append.mp hw with lead | new
  · exact column w (List.mem_append_left _ lead)
  · rcases List.mem_cons.mp new with rfl | rest
    · exact ⟨(edits.differs line e found).2, single⟩
    · exact column w (List.mem_append_right _ (List.mem_cons_of_mem _ rest))

theorem Edits.split_line (edits : Edits z col edit) (found : edit line = some e) (single : SingleWord e.new) :
    split (e.line z) = e.lead ++ e.new :: e.rest :=
  split_join_words edits.space (by simp) (edits.words found single)

theorem Edits.column (edits : Edits z col edit) (found : edit line = some e) (single : SingleWord e.new) :
    (split line)[col]? = some e.old ∧ (split (e.line z))[col]? = some e.new := by
  obtain ⟨columns, rfl⟩ := edits.columns line e found
  rw [columns, edits.split_line found single]
  simp

theorem Edits.unbroken_edited (edits : Edits z col edit) (free : ∀ c ∈ line, isBreak c = false)
    (single : ∀ e, edit line = some e → SingleWord e.new) : ∀ c ∈ edited z edit line, isBreak c = false := by
  intro c hc
  rw [edited] at hc
  cases found : edit line with
  | none =>
    rw [found] at hc
    exact free c hc
  | some e =>
    rw [found] at hc
    rcases mem_join hc with sep | ⟨w, hw, here⟩
    · rw [List.mem_singleton.mp sep]
      exact edits.unbroken
    · have visible := (edits.words found (single e found) w hw).2 c here
      by_contra broken
      rw [Bool.not_eq_false] at broken
      rw [isSpace_of_isBreak broken] at visible
      cases visible

variable {file : List UInt8}

/-- The lines written are the lines read when the identifiers are words. -/
theorem Edits.textLines_written (edits : Edits z col edit) (some : textLines file ≠ [])
    (single : ∀ line ∈ textLines file, ∀ e, edit line = .some e → SingleWord e.new) :
    textLines (encode (join ['\n'] ((textLines file).map (edited z edit)) ++ ['\n'])) =
      (textLines file).map (edited z edit) := by
  rw [textLines, decode_encode]
  apply splitlines_join (by simpa using some)
  intro l hl
  obtain ⟨line, member, rfl⟩ := List.mem_map.mp hl
  exact edits.unbroken_edited (mem_splitlines member) (single line member)

/-- The lines that differ are those that are edited. -/
theorem Edits.differing_eq (edits : Edits z col edit) {lines : List (List Char)}
    (single : ∀ line ∈ lines, ∀ e, edit line = some e → SingleWord e.new) :
    differing col lines (lines.map (edited z edit)) =
      (lines.zipIdx 1).filterMap fun (line, i) => (edit line).map fun e => (i, line, e.line z) := by
  have pairs : lines.zip (lines.map (edited z edit)) = lines.map fun l => (l, edited z edit l) := by
    simpa using List.zip_map' (f := id) (g := edited z edit) (l := lines)
  rw [differing, pairs, List.zipIdx_map, List.filterMap_map]
  apply List.filterMap_congr
  intro p numbered
  have member : p.1 ∈ lines := List.fst_mem_of_mem_zipIdx numbered
  cases found : edit p.1 with
  | none => simp [edited, found]
  | some e =>
    obtain ⟨old, new⟩ := edits.column found (single p.1 member e found)
    have other : e.old ≠ e.new := (edits.differs p.1 e found).1.symm
    simp [edited, found, old, new, other]

theorem differing_self (col : Nat) (lines : List (List Char)) : differing col lines lines = [] := by
  have pairs : lines.zip lines = lines.map fun l => (l, l) := by
    simpa using List.zip_map' (f := id) (g := id) (l := lines)
  rw [differing, pairs, List.zipIdx_map, List.filterMap_map, List.filterMap_eq_nil_iff]
  intro p _
  exact if_pos rfl

/-- What is reported as a new column is a word if it is a column of the file. -/
theorem singleWord_of_column {l w : List Char} (h : (split l)[col]? = some w) : SingleWord w := by
  have member : w ∈ words isSpace l := by
    rw [← split_eq_words]
    exact List.mem_of_getElem? h
  exact (mem_words member).2

end edits

section fstab

variable {r : FstabCrypttabRewriter} {g : Guest}

/-- The first column of an entry that is converted is replaced. -/
def fstabEdit (r : FstabCrypttabRewriter) (g : Guest) (line : List Char) : Option ColumnEdit :=
  (r.conversion g line).bind fun p => (split line)[0]?.map fun spec => ⟨[], spec, p.1, p.2⟩

theorem SpecConverter.identifier_identifier {conv : SpecConverter} {spec ident : List Char}
    (h : conv.identifier g spec = some ident) : conv.identifier g ident = none := by
  obtain ⟨-, -, tag, mem, value, -, rfl⟩ := identifier_eq_some h
  rw [identifier]
  split
  · rw [device_tag mem]
    rfl
  · rfl

theorem fstabEdit_eq_some {line : List Char} {e : ColumnEdit} (h : fstabEdit r g line = some e) :
    r.conversion g line = some (e.new, e.rest) ∧ e.lead = [] ∧ split line = e.old :: e.rest ∧
      r.converter.identifier g e.old = some e.new := by
  obtain ⟨p, found, spec⟩ := Option.bind_eq_some_iff.mp h
  obtain ⟨-, spec', columns, identifier⟩ := r.conversion_eq_some g found
  rw [columns] at spec
  cases spec
  exact ⟨found, rfl, columns, identifier⟩

theorem fstabEdit_eq_none {line : List Char} : fstabEdit r g line = none ↔ r.conversion g line = none := by
  constructor
  · intro h
    cases found : r.conversion g line with
    | none => rfl
    | some p =>
      obtain ⟨-, spec, columns, -⟩ := r.conversion_eq_some g found
      rw [fstabEdit, found, columns] at h
      cases h
  · intro h
    rw [fstabEdit, h]
    rfl

theorem fstabEdits (r : FstabCrypttabRewriter) (g : Guest) : Edits '\t' 0 (fstabEdit r g) where
  space := by decide
  unbroken := by decide
  columns line e h := by
    obtain ⟨-, lead, columns, -⟩ := fstabEdit_eq_some h
    rw [lead]
    exact ⟨columns, rfl⟩
  differs line e h := by
    obtain ⟨-, -, -, identifier⟩ := fstabEdit_eq_some h
    refine ⟨SpecConverter.identifier_ne identifier, ?_⟩
    obtain ⟨-, -, tag, -, value, -, same⟩ := SpecConverter.identifier_eq_some identifier
    rw [same]
    simp

theorem edited_fstabEdit (line : List Char) : edited '\t' (fstabEdit r g) line = r.rewritten g line := by
  rw [edited, FstabCrypttabRewriter.rewritten]
  cases found : fstabEdit r g line with
  | none =>
    rw [fstabEdit_eq_none.mp found]
    rfl
  | some e =>
    obtain ⟨conversion, lead, -, -⟩ := fstabEdit_eq_some found
    rw [conversion, Option.elim_some, ColumnEdit.line, lead]
    rfl

theorem conversion_eq_none {line spec : List Char} {rest : List (List Char)} (columns : split line = spec :: rest)
    (none : r.converter.identifier g spec = none) : r.conversion g line = .none := by
  cases found : r.conversion g line with
  | none => rfl
  | some p =>
    obtain ⟨-, spec', columns', identifier⟩ := r.conversion_eq_some g found
    rw [columns] at columns'
    obtain ⟨rfl, -⟩ := List.cons.inj columns'
    rw [none] at identifier
    cases identifier

theorem conversion_edited {line : List Char} (single : ∀ e, fstabEdit r g line = some e → SingleWord e.new) :
    r.conversion g (edited '\t' (fstabEdit r g) line) = none := by
  cases found : fstabEdit r g line with
  | none =>
    rw [edited, found]
    exact fstabEdit_eq_none.mp found
  | some e =>
    obtain ⟨-, lead, -, identifier⟩ := fstabEdit_eq_some found
    have columns := (fstabEdits r g).split_line found (single e found)
    rw [lead, List.nil_append] at columns
    rw [edited, found]
    exact conversion_eq_none columns (SpecConverter.identifier_identifier identifier)

theorem entries_rewriteFstab (r : FstabCrypttabRewriter) (g : Guest) :
    (r.rewriteFstab g).changes.map Change.entry =
      if r.mode = .noop ∨ g.isFile ≠ some true then []
      else ((textLines g.fstab).zipIdx 1).filterMap fun (line, i) =>
        (fstabEdit r g line).map fun e => (i, some e.old, some e.new) := by
  have scanned := (r.scan_spec g {} (textLines g.fstab)).2
  have same : ((textLines g.fstab).zipIdx 1).filterMap (fun (line, i) =>
      (r.conversion g line).map fun p => (i, (split line)[0]?, some p.1)) =
      ((textLines g.fstab).zipIdx 1).filterMap fun (line, i) =>
        (fstabEdit r g line).map fun e => (i, some e.old, some e.new) := by
    apply List.filterMap_congr
    intro p _
    cases found : fstabEdit r g p.1 with
    | none => simp [found, fstabEdit_eq_none.mp found]
    | some e =>
      obtain ⟨conversion, -, columns, -⟩ := fstabEdit_eq_some found
      simp [found, conversion, columns]
  rw [← same, FstabCrypttabRewriter.rewriteFstab]
  by_cases noop : r.mode = .noop
  · simp [noop]
  by_cases missing : g.isFile ≠ some true
  · simp [noop, missing]
  simp only [noop, missing, if_false, or_self]
  rw [List.map_nil, List.nil_append] at scanned
  split
  · exact scanned
  · exact scanned

theorem changes_eq_nil_iff (r : FstabCrypttabRewriter) (g : Guest) :
    (r.rewriteFstab g).changes = [] ↔ r.mode = .noop ∨ g.isFile ≠ some true ∨
      ∀ line ∈ textLines g.fstab, r.conversion g line = none := by
  have unchanged := r.scan_unchanged g (textLines g.fstab)
  rw [FstabCrypttabRewriter.rewriteFstab]
  by_cases noop : r.mode = .noop
  · simp [noop]
  by_cases missing : g.isFile ≠ some true
  · simp [noop, missing]
  simp only [noop, missing, if_false, false_or]
  split
  · exact unchanged
  · exact unchanged

theorem fstabRun_file (r : FstabCrypttabRewriter) (g : Guest) :
    (r.fstabRun false g).file =
      if r.mode = .noop ∨ g.isFile ≠ some true ∨ ∀ line ∈ textLines g.fstab, r.conversion g line = none then g.fstab
      else encode (join ['\n'] ((textLines g.fstab).map (r.rewritten g)) ++ ['\n']) := by
  rw [FstabCrypttabRewriter.fstabRun, FstabCrypttabRewriter.rewriteFstab_file]
  simp only [Bool.false_eq_true, false_or]
  rfl

theorem textLines_fstabRun (active : r.mode ≠ .noop ∧ g.isFile = some true)
    (single : ∀ line ∈ textLines g.fstab, ∀ e, fstabEdit r g line = some e → SingleWord e.new) :
    textLines (r.fstabRun false g).file = (textLines g.fstab).map (edited '\t' (fstabEdit r g)) := by
  rw [fstabRun_file]
  by_cases same : ∀ line ∈ textLines g.fstab, r.conversion g line = none
  · have kept : ∀ line ∈ textLines g.fstab, edited '\t' (fstabEdit r g) line = line := by
      intro line member
      rw [edited, fstabEdit_eq_none.mpr (same line member)]
      rfl
    rw [if_pos (.inr (.inr same)), List.map_congr_left kept, List.map_id']
  · have changing : ¬(r.mode = .noop ∨ g.isFile ≠ some true ∨ ∀ line ∈ textLines g.fstab, r.conversion g line = none) := by
      rintro (noop | missing | all)
      · exact active.1 noop
      · exact missing active.2
      · exact same all
    have some : textLines g.fstab ≠ [] := by
      intro empty
      apply same
      rw [empty]
      exact fun line h => absurd h List.not_mem_nil
    have written : (textLines g.fstab).map (r.rewritten g) = (textLines g.fstab).map (edited '\t' (fstabEdit r g)) :=
      List.map_congr_left fun line _ => (edited_fstabEdit line).symm
    rw [if_neg changing, written]
    exact (fstabEdits r g).textLines_written some single

theorem dry_rewriteFstab (r : FstabCrypttabRewriter) (g : Guest) :
    r.fstabRun true g = { r.fstabRun false g with file := g.fstab } := by
  have scan : (fun s line => ({ r with dryRun := true } : FstabCrypttabRewriter).scanLine g s line) =
      fun s line => ({ r with dryRun := false } : FstabCrypttabRewriter).scanLine g s line := rfl
  simp only [FstabCrypttabRewriter.fstabRun, FstabCrypttabRewriter.rewriteFstab, scan]
  split
  · rfl
  split
  · rfl
  simp only [or_true, if_true]
  split
  · rfl
  · rfl

theorem entries_fstabRun (active : r.mode ≠ .noop ∧ g.isFile = some true) :
    (r.fstabRun false g).changes.map Change.entry = ((textLines g.fstab).zipIdx 1).filterMap fun (line, i) =>
      (fstabEdit r g line).map fun e => (i, some e.old, some e.new) := by
  have entries := entries_rewriteFstab { r with dryRun := false } g
  rw [if_neg (by simp [active.1, active.2])] at entries
  exact entries

/-- The rewrite of the fstab is idempotent and honest exactly if the identifiers it puts in are words. -/
theorem fstabHonest_iff (r : FstabCrypttabRewriter) (g : Guest) : r.FstabHonest g ↔ r.FstabWords g := by
  constructor
  · intro honest noop isFile line member p found
    have entries := entries_fstabRun (r := r) ⟨noop, isFile⟩
    have listed : (r.fstabRun false g).changes.map Change.entry = _ := honest.listed
    rw [entries] at listed
    obtain ⟨-, spec, columns, -⟩ := r.conversion_eq_some g found
    have edit : fstabEdit r g line = some ⟨[], spec, p.1, p.2⟩ := by
      rw [fstabEdit, found, columns]
      rfl
    obtain ⟨i, numbered⟩ : ∃ i, (line, i) ∈ (textLines g.fstab).zipIdx 1 := by
      obtain ⟨i, here⟩ := List.mem_iff_getElem?.mp member
      refine ⟨i + 1, ?_⟩
      rw [List.mk_mem_zipIdx_iff_le_and_getElem?_sub, Nat.add_sub_cancel]
      exact ⟨by omega, here⟩
    have reported : (i, some spec, some p.1) ∈ ((textLines g.fstab).zipIdx 1).filterMap fun (line, i) =>
        (fstabEdit r g line).map fun e => (i, some e.old, some e.new) :=
      List.mem_filterMap.mpr ⟨(line, i), numbered, by simp [edit]⟩
    rw [listed] at reported
    obtain ⟨q, -, same⟩ := List.mem_map.mp reported
    have new : (split q.2.2)[0]? = some p.1 := congrArg (·.2.2) same
    exact singleWord_of_column new
  · intro words
    by_cases active : r.mode ≠ .noop ∧ g.isFile = some true
    · have single : ∀ line ∈ textLines g.fstab, ∀ e, fstabEdit r g line = some e → SingleWord e.new := by
        intro line member e found
        exact words active.1 active.2 line member _ (fstabEdit_eq_some found).1
      have written := textLines_fstabRun active single
      have settled : ∀ line ∈ textLines (r.fstabRun false g).file, r.conversion g line = none := by
        rw [written]
        intro l hl
        obtain ⟨line, member, rfl⟩ := List.mem_map.mp hl
        exact conversion_edited (single line member)
      have again : ∀ line ∈ textLines (r.fstabRun false g).file,
          r.conversion { g with fstab := (r.fstabRun false g).file } line = none := settled
      refine ⟨?_, ?_, by rw [written, List.length_map], ?_, dry_rewriteFstab r g⟩
      · exact (changes_eq_nil_iff _ _).mpr (.inr (.inr again))
      · rw [fstabRun_file, if_pos (.inr (.inr again))]
      · have entries := entries_fstabRun (r := r) active
        refine Eq.trans entries ?_
        rw [written, (fstabEdits r g).differing_eq single, List.map_filterMap]
        apply List.filterMap_congr
        intro q numbered
        have member : q.1 ∈ textLines g.fstab := List.fst_mem_of_mem_zipIdx numbered
        cases found : fstabEdit r g q.1 with
        | none => simp [found]
        | some e =>
          obtain ⟨old, new⟩ := (fstabEdits r g).column found (single q.1 member e found)
          simp [found, old, new]
    · have idle : ∀ g' : Guest, g'.isFile = g.isFile → r.mode = .noop ∨ g'.isFile ≠ some true := by
        intro g' same
        rw [same]
        exact not_and_or.mp active |>.imp_left not_not.mp
      have quiet (g' : Guest) (same : g'.isFile = g.isFile) :
          (r.fstabRun false g').changes = [] ∧ (r.fstabRun false g').file = g'.fstab := by
        refine ⟨(changes_eq_nil_iff _ _).mpr ?_, ?_⟩
        · exact (idle g' same).imp_right .inl
        · rw [fstabRun_file, if_pos ((idle g' same).imp_right .inl)]
      obtain ⟨none, file⟩ := quiet g rfl
      obtain ⟨none', file'⟩ := quiet { g with fstab := (r.fstabRun false g).file } rfl
      refine ⟨none', file', by rw [file], ?_, dry_rewriteFstab r g⟩
      rw [none, file, differing_self]
      rfl

end fstab

section crypttab

variable {r : FstabCrypttabRewriter} {g : Guest} {c : Crypttab}

/-- What the log says of a change: the name, the old spec and the new one. -/
def CryptChange.entry (ch : CryptChange) : Option (List Char) × Option (List Char) × Option (List Char) :=
  (some ch.name, some ch.old, some ch.new)

/-- The second column of an entry that is converted is replaced. -/
def cryptEdit (r : FstabCrypttabRewriter) (g : Guest) (line : List Char) : Option ColumnEdit :=
  (r.cryptConversion g line).map fun p => ⟨[p.1], p.2.1, p.2.2.1, p.2.2.2⟩

theorem cryptConversion_eq_some {line : List Char} {p : List Char × List Char × List Char × List (List Char)}
    (h : r.cryptConversion g line = some p) :
    split line = p.1 :: p.2.1 :: p.2.2.2 ∧ r.converter.identifier g p.2.1 = some p.2.2.1 := by
  rw [FstabCrypttabRewriter.cryptConversion] at h
  split at h
  · cases h
  split at h
  · rename_i name spec rest columns
    split at h
    · cases h
    · obtain ⟨ident, identifier, rfl⟩ := Option.map_eq_some_iff.mp h
      exact ⟨columns, identifier⟩
  · cases h

theorem cryptEdits (r : FstabCrypttabRewriter) (g : Guest) : Edits ' ' 1 (cryptEdit r g) where
  space := by decide
  unbroken := by decide
  columns line e h := by
    obtain ⟨p, found, rfl⟩ := Option.map_eq_some_iff.mp h
    exact ⟨(cryptConversion_eq_some found).1, rfl⟩
  differs line e h := by
    obtain ⟨p, found, rfl⟩ := Option.map_eq_some_iff.mp h
    have identifier := (cryptConversion_eq_some found).2
    refine ⟨SpecConverter.identifier_ne identifier, ?_⟩
    obtain ⟨-, -, tag, -, value, -, same⟩ := SpecConverter.identifier_eq_some identifier
    rw [same]
    simp

theorem cryptConversion_edited {line : List Char} (single : ∀ e, cryptEdit r g line = some e → SingleWord e.new) :
    r.cryptConversion g (edited ' ' (cryptEdit r g) line) = none := by
  cases found : cryptEdit r g line with
  | none =>
    rw [edited, found]
    exact Option.map_eq_none_iff.mp found
  | some e =>
    have columns := (cryptEdits r g).split_line found (single e found)
    obtain ⟨p, conversion, rfl⟩ := Option.map_eq_some_iff.mp found
    have settled := SpecConverter.identifier_identifier (cryptConversion_eq_some conversion).2
    rw [edited, found, Option.elim_some]
    cases again : r.cryptConversion g (ColumnEdit.line ' ' _) with
    | none => rfl
    | some q =>
      obtain ⟨columns', identifier⟩ := cryptConversion_eq_some again
      rw [columns] at columns'
      have spec : p.2.2.1 = q.2.1 := (List.cons.inj (List.cons.inj columns').2).1
      rw [← spec, settled] at identifier
      cases identifier

theorem scanCrypt_spec (s : CryptScan) (line : List Char) :
    (r.scanCrypt g s line).out = s.out ++ [edited ' ' (cryptEdit r g) line] ∧
      (r.scanCrypt g s line).changed = s.changed + (cryptEdit r g line).toList.length ∧
        (r.scanCrypt g s line).log.map CryptChange.entry = s.log.map CryptChange.entry ++
          ((cryptEdit r g line).map fun e => (e.lead.head?, some e.old, some e.new)).toList := by
  simp only [FstabCrypttabRewriter.scanCrypt, edited, cryptEdit, FstabCrypttabRewriter.cryptConversion, split_strip]
  by_cases comment : strip line = [] ∨ ['#'] <+: strip line
  · simp [comment]
  simp only [if_neg comment]
  rcases cols : split line with _ | ⟨name, _ | ⟨spec, rest⟩⟩
  · simp
  · simp
  · by_cases stable : Ident.isStable spec = true
    · simp [stable]
    by_cases other : r.mode = .bypathOnly ∧ ¬ (bypathDir <+: spec ∨ btrfsvol <+: spec)
    · simp [stable, other]
    simp only [stable, other, if_false, or_self, Bool.false_eq_true]
    rw [show r.converter.convertSpec g spec = ((r.converter.identifier g spec).getD spec,
      (r.converter.convertSpec g spec).2) from Prod.ext (SpecConverter.convertSpec_eq _ _ _) rfl]
    cases ident : r.converter.identifier g spec with
    | none => simp
    | some ident' => simp [SpecConverter.identifier_ne ident, CryptChange.entry, ColumnEdit.line]

theorem scanCrypts_spec (s : CryptScan) (lines : List (List Char)) :
    (lines.foldl (r.scanCrypt g) s).out = s.out ++ lines.map (edited ' ' (cryptEdit r g)) ∧
      (lines.foldl (r.scanCrypt g) s).changed = s.changed + (lines.filterMap (cryptEdit r g)).length ∧
        (lines.foldl (r.scanCrypt g) s).log.map CryptChange.entry = s.log.map CryptChange.entry ++
          (lines.filterMap (cryptEdit r g)).map fun e => (e.lead.head?, some e.old, some e.new) := by
  induction lines generalizing s with
  | nil => simp
  | cons line lines ih =>
    obtain ⟨out, changed, log⟩ := scanCrypt_spec (r := r) (g := g) s line
    obtain ⟨outs, count, logs⟩ := ih (r.scanCrypt g s line)
    rw [List.foldl_cons, outs, count, logs, out, changed, log, List.filterMap_cons]
    cases cryptEdit r g line with
    | none => simp
    | some e =>
      refine ⟨by simp, ?_, by simp⟩
      simp only [Option.toList_some, List.length_cons, List.length_nil]
      omega

theorem cryptRun_of_missing (missing : c.isFile ≠ some true) (dry : Bool) :
    r.cryptRun g dry c = ⟨0, [], c.file⟩ := by
  rw [FstabCrypttabRewriter.cryptRun, FstabCrypttabRewriter.rewriteCrypttab, if_pos missing]

/-- What a run reports, and the file it leaves: the old one if no line is edited or the run is dry. -/
theorem cryptRun_spec (r : FstabCrypttabRewriter) (g : Guest) (dry : Bool) (isFile : c.isFile = some true) :
    (r.cryptRun g dry c).changed = ((textLines c.file).filterMap (cryptEdit r g)).length ∧
      (r.cryptRun g dry c).log.map CryptChange.entry =
        ((textLines c.file).filterMap (cryptEdit r g)).map (fun e => (e.lead.head?, some e.old, some e.new)) ∧
        (r.cryptRun g dry c).file =
          if (textLines c.file).filterMap (cryptEdit r g) = [] ∨ dry = true then c.file
          else encode (join ['\n'] ((textLines c.file).map (edited ' ' (cryptEdit r g))) ++ ['\n']) := by
  obtain ⟨out, changed, log⟩ := scanCrypts_spec (r := { r with dryRun := dry }) (g := g) {} (textLines c.file)
  rw [List.nil_append] at out
  rw [Nat.zero_add] at changed
  rw [List.map_nil, List.nil_append] at log
  have edit : cryptEdit { r with dryRun := dry } g = cryptEdit r g := rfl
  rw [edit] at out changed log
  rw [FstabCrypttabRewriter.cryptRun, FstabCrypttabRewriter.rewriteCrypttab, if_neg (by simp [isFile])]
  simp only [textLines] at out changed log ⊢
  rw [changed, out]
  by_cases none : (splitlines (decode c.file)).filterMap (cryptEdit r g) = []
  · simp only [none, List.length_nil, if_true, true_or]
    rw [none] at log
    exact ⟨trivial, log, trivial⟩
  · have some : ((splitlines (decode c.file)).filterMap (cryptEdit r g)).length ≠ 0 := by simpa using none
    simp only [some, none, if_false, false_or]
    split
    · exact ⟨rfl, log, rfl⟩
    · exact ⟨rfl, log, rfl⟩

theorem textLines_cryptRun (isFile : c.isFile = some true)
    (single : ∀ line ∈ textLines c.file, ∀ e, cryptEdit r g line = some e → SingleWord e.new) :
    textLines (r.cryptRun g false c).file = (textLines c.file).map (edited ' ' (cryptEdit r g)) := by
  rw [(cryptRun_spec r g false isFile).2.2]
  by_cases none : (textLines c.file).filterMap (cryptEdit r g) = []
  · have kept : ∀ line ∈ textLines c.file, edited ' ' (cryptEdit r g) line = line := by
      intro line member
      rw [edited, List.filterMap_eq_nil_iff.mp none line member]
      rfl
    rw [if_pos (.inl none), List.map_congr_left kept, List.map_id']
  · have some : textLines c.file ≠ [] := by
      intro empty
      rw [empty] at none
      exact none rfl
    rw [if_neg (by simp [none])]
    exact (cryptEdits r g).textLines_written some single

theorem filterMap_zipIdx {α β : Type} (f : α → Option β) (lines : List α) (n : Nat) :
    (lines.zipIdx n).filterMap (fun p => f p.1) = lines.filterMap f := by
  have same := List.filterMap_map (f := Prod.fst) (g := f) (l := lines.zipIdx n)
  rw [List.zipIdx_map_fst] at same
  exact same.symm

theorem dry_rewriteCrypttab (r : FstabCrypttabRewriter) (g : Guest) (c : Crypttab) :
    r.cryptRun g true c = { r.cryptRun g false c with file := c.file } := by
  have scan : (fun s line => ({ r with dryRun := true } : FstabCrypttabRewriter).scanCrypt g s line) =
      fun s line => ({ r with dryRun := false } : FstabCrypttabRewriter).scanCrypt g s line := rfl
  simp only [FstabCrypttabRewriter.cryptRun, FstabCrypttabRewriter.rewriteCrypttab, scan]
  split
  · rfl
  split
  · rfl
  · rfl

/-- The rewrite of the crypttab is idempotent and honest exactly if the identifiers it puts in are words. -/
theorem cryptHonest_iff (r : FstabCrypttabRewriter) (g : Guest) (c : Crypttab) :
    r.CryptHonest g c ↔ r.CryptWords g c := by
  constructor
  · intro honest isFile line member p found
    have listed : (r.cryptRun g false c).log.map CryptChange.entry = _ := honest.listed
    rw [(cryptRun_spec r g false isFile).2.1] at listed
    have edit : cryptEdit r g line = some ⟨[p.1], p.2.1, p.2.2.1, p.2.2.2⟩ := by
      rw [cryptEdit, found]
      rfl
    have reported := List.mem_map_of_mem (f := fun e : ColumnEdit => (e.lead.head?, some e.old, some e.new))
      (List.mem_filterMap.mpr ⟨line, member, edit⟩)
    rw [listed] at reported
    obtain ⟨q, -, same⟩ := List.mem_map.mp reported
    have new : (split q.2.2)[1]? = some p.2.2.1 := congrArg (·.2.2) same
    exact singleWord_of_column new
  · intro words
    by_cases isFile : c.isFile = some true
    · have single : ∀ line ∈ textLines c.file, ∀ e, cryptEdit r g line = some e → SingleWord e.new := by
        intro line member e found
        obtain ⟨p, conversion, rfl⟩ := Option.map_eq_some_iff.mp found
        exact words isFile line member p conversion
      have written := textLines_cryptRun isFile single
      have settled : (textLines (r.cryptRun g false c).file).filterMap (cryptEdit r g) = [] := by
        rw [List.filterMap_eq_nil_iff, written]
        intro l hl
        obtain ⟨line, member, rfl⟩ := List.mem_map.mp hl
        exact Option.map_eq_none_iff.mpr (cryptConversion_edited (single line member))
      have second := cryptRun_spec (c := { c with file := (r.cryptRun g false c).file }) r g false isFile
      obtain ⟨changed, log, -⟩ := cryptRun_spec r g false isFile
      have differ := (cryptEdits r g).differing_eq single
      refine ⟨?_, ?_, by rw [written, List.length_map], ?_, ?_, dry_rewriteCrypttab r g c⟩
      · rw [second.1, settled]
        rfl
      · rw [second.2.2, if_pos (.inl settled)]
      · have count := congrArg List.length (filterMap_zipIdx (cryptEdit r g) (textLines c.file) 1)
        rw [changed, written, differ, ← count, List.length_filterMap_eq_countP, List.length_filterMap_eq_countP]
        simp
      · refine Eq.trans log ?_
        rw [written, differ, List.map_filterMap, ← filterMap_zipIdx _ _ 1, List.map_filterMap]
        apply List.filterMap_congr
        intro q numbered
        have member : q.1 ∈ textLines c.file := List.fst_mem_of_mem_zipIdx numbered
        cases found : cryptEdit r g q.1 with
        | none => simp [found]
        | some e =>
          obtain ⟨old, new⟩ := (cryptEdits r g).column found (single q.1 member e found)
          obtain ⟨columns, one⟩ := (cryptEdits r g).columns q.1 e found
          obtain ⟨name, lead⟩ := List.length_eq_one_iff.mp one
          have first : (split q.1)[0]? = e.lead.head? := by
            rw [columns, lead]
            rfl
          simp [found, old, new, first]
    · have quiet := cryptRun_of_missing (r := r) (g := g) isFile false
      have second := cryptRun_of_missing (c := { c with file := (r.cryptRun g false c).file }) (r := r) (g := g) isFile false
      refine ⟨by rw [second], by rw [second], by rw [quiet], ?_, ?_, dry_rewriteCrypttab r g c⟩
      · rw [quiet, differing_self]
        rfl
      · rw [quiet, differing_self]
        rfl

end crypttab

/-- Both rewrites are idempotent and say what they change exactly if the identifiers they put in are words. -/
theorem rewrites_honest_iff (r : FstabCrypttabRewriter) (g : Guest) (c : Crypttab) :
    r.FstabHonest g ∧ r.CryptHonest g c ↔ r.FstabWords g ∧ r.CryptWords g c := by
  rw [fstabHonest_iff, cryptHonest_iff]

/-- A disk that has a label of two words and nothing else. -/
def labelGuest : Guest where
  isFile := some true
  fstab := encode "/dev/sda1 / ext4 defaults 0 1\n".toList
  hostLink := fun _ => none
  realpath := some
  blkid := fun _ => some [("LABEL".toList, some "my disk".toList)]

/-- The label is reported as the new spec, but the column ends at its blank. -/
theorem not_honest_label :
    ¬(homeRewriter.FstabHonest labelGuest ∧ homeRewriter.CryptHonest labelGuest ⟨none, []⟩) := by
  rintro ⟨honest, -⟩
  have words := (fstabHonest_iff homeRewriter labelGuest).mp honest
  have member : "/dev/sda1 / ext4 defaults 0 1".toList ∈ textLines labelGuest.fstab := by decide +kernel
  have single := words (by decide) rfl _ member
    ("LABEL=my disk".toList, ["/".toList, "ext4".toList, "defaults".toList, "0".toList, "1".toList]) (by decide +kernel)
  exact absurd (single ' ' (by decide)) (by decide)

end H2kvm.Fstab
