import H2kvm.Framework.Utf8
import H2kvm.Fstab.Stabilizer

namespace H2kvm.Fstab

open Framework Text

section rewriter

def ignoreMountpoints : List (List Char) :=
  ["/proc".toList, "/sys".toList, "/dev".toList, "/run".toList, "/dev/pts".toList, "/dev/shm".toList,
    "/sys/fs/cgroup".toList]

structure Change where
  lineNo : Nat
  mountpoint : List Char
  old : List Char
  new : List Char
  reason : List Char
  deriving DecidableEq

inductive Audit where
  | skipped (reason : String)
  | scanned (totalLines entries bypathEntries changedEntries : Nat)
  deriving DecidableEq

/-- What `rewrite_fstab` returns, and the file as it leaves it. -/
structure Outcome where
  changes : List Change
  audit : Audit
  file : List UInt8
  deriving DecidableEq

/-- What the pass over the lines has gathered. -/
structure Scan where
  outLines : List (List Char) := []
  changes : List Change := []
  total : Nat := 0
  entries : Nat := 0
  bypath : Nat := 0

structure FstabCrypttabRewriter where
  converter : SpecConverter
  mode : FstabMode := .bypathOnly
  dryRun : Bool := false

namespace FstabCrypttabRewriter

variable (r : FstabCrypttabRewriter) (g : Guest)

/-- One line of the pass. -/
def scanLine (s : Scan) (line : List Char) : Scan :=
  let s := { s with total := s.total + 1 }
  let kept := { s with outLines := s.outLines ++ [line] }
  let text := strip line
  if text = [] ∨ ['#'] <+: text then kept
  else
    match split text with
    | spec :: mp :: type :: options :: rest =>
      if mp ∈ ignoreMountpoints then kept
      else
        let bypath := s.bypath + if bypathDir <+: spec then 1 else 0
        let s := { s with entries := s.entries + 1, bypath }
        let kept := { s with outLines := s.outLines ++ [line] }
        if r.mode = .bypathOnly ∧ ¬ (bypathDir <+: spec ∨ btrfsvol <+: spec) then kept
        else
          let (new, reason) := r.converter.convertSpec g spec
          if new ≠ spec then
            { s with outLines := s.outLines ++ [join ['\t'] (new :: mp :: type :: options :: rest)]
                     changes := s.changes ++ [⟨s.total, mp, spec, new, reason⟩] }
          else kept
    | _ => kept

/-- `rewrite_fstab`. -/
def rewriteFstab : Outcome :=
  if r.mode = .noop then ⟨[], .skipped "noop", g.fstab⟩
  else if g.isFile ≠ some true then ⟨[], .skipped "missing", g.fstab⟩
  else
    let s := (splitlines (Utf8.decode g.fstab)).foldl (r.scanLine g) {}
    let audit := .scanned s.total s.entries s.bypath s.changes.length
    if s.changes = [] ∨ r.dryRun then ⟨s.changes, audit, g.fstab⟩
    else ⟨s.changes, audit, Utf8.encode (join ['\n'] s.outLines ++ ['\n'])⟩

end FstabCrypttabRewriter

/-- The crypttab of a guest; `none` where the question for it raises. -/
structure Crypttab where
  isFile : Option Bool
  file : List UInt8

/-- What is logged of a change. -/
structure CryptChange where
  name : List Char
  old : List Char
  new : List Char
  reason : List Char
  deriving DecidableEq

/-- What `rewrite_crypttab` returns and logs, and the file as it leaves it. -/
structure CryptOutcome where
  changed : Nat
  log : List CryptChange
  file : List UInt8
  deriving DecidableEq

structure CryptScan where
  out : List (List Char) := []
  changed : Nat := 0
  log : List CryptChange := []

namespace FstabCrypttabRewriter

variable (r : FstabCrypttabRewriter) (g : Guest)

/-- One line of the crypttab. -/
def scanCrypt (s : CryptScan) (line : List Char) : CryptScan :=
  let kept := { s with out := s.out ++ [line] }
  let text := strip line
  if text = [] ∨ ['#'] <+: text then kept
  else
    match split text with
    | name :: spec :: rest =>
      if Ident.isStable spec then kept
      else if r.mode = .bypathOnly ∧ ¬ (bypathDir <+: spec ∨ btrfsvol <+: spec) then kept
      else
        let (new, reason) := r.converter.convertSpec g spec
        if new ≠ spec then
          { s with out := s.out ++ [join [' '] (name :: new :: rest)]
                   changed := s.changed + 1
                   log := s.log ++ [⟨name, spec, new, reason⟩] }
        else kept
    | _ => kept

/-- `rewrite_crypttab`. -/
def rewriteCrypttab (c : Crypttab) : CryptOutcome :=
  if c.isFile ≠ some true then ⟨0, [], c.file⟩
  else
    let s := (splitlines (Utf8.decode c.file)).foldl (r.scanCrypt g) {}
    if s.changed = 0 then ⟨0, s.log, c.file⟩
    else if r.dryRun then ⟨s.changed, s.log, c.file⟩
    else ⟨s.changed, s.log, Utf8.encode (join ['\n'] s.out ++ ['\n'])⟩

end FstabCrypttabRewriter

end rewriter

section pass

namespace SpecConverter

variable (conv : SpecConverter) (g : Guest)

/-- What a spec says of the device, without the subvolume. -/
def devicePart (spec : List Char) : List Char :=
  if btrfsvol <+: spec then strip (parseBtrfsvolSpec spec).1 else spec

/-- The device a spec leads to. -/
def device (spec : List Char) : Option (List Char) :=
  if bypathDir <+: devicePart spec then conv.mappedDevice g (devicePart spec)
  else if devDir <+: devicePart spec then some (devicePart spec)
  else none

/-- The specs `convert_spec` looks for an identifier of. -/
def Wanted (spec : List Char) : Prop :=
  Ident.isStable (devicePart spec) = false ∧
    (bypathDir <+: devicePart spec ∨ conv.mode = .stabilizeAll ∧ devDir <+: devicePart spec)

instance (spec : List Char) : Decidable (conv.Wanted spec) := inferInstanceAs (Decidable (_ ∧ _))

/-- The identifier that takes the place of a spec. -/
def identifier (spec : List Char) : Option (List Char) :=
  if conv.Wanted spec then (conv.device g spec).bind fun dev => Ident.chooseStable (Ident.gBlkidMap g dev) else none

theorem convertSpec_eq (spec : List Char) :
    (conv.convertSpec g spec).1 = (conv.identifier g spec).getD spec := by
  have part : (if btrfsvol <+: spec then strip (parseBtrfsvolSpec spec).1 else spec) = devicePart spec := rfl
  simp only [convertSpec, identifier, Wanted, device, part]
  by_cases stable : Ident.isStable (devicePart spec)
  · simp [stable]
  rw [Bool.not_eq_true] at stable
  by_cases bypath : bypathDir <+: devicePart spec
  · simp only [stable, bypath, if_true, Bool.false_eq_true, if_false, true_and, true_or, stabilizeBypath]
    cases conv.mappedDevice g (devicePart spec) with
    | none => rfl
    | some dev =>
      simp only [Option.bind_some]
      cases Ident.chooseStable (Ident.gBlkidMap g dev) with
      | none => rfl
      | some ident => rfl
  by_cases dev : conv.mode = .stabilizeAll ∧ devDir <+: devicePart spec
  · simp only [stable, bypath, dev, if_true, Bool.false_eq_true, if_false, and_self, or_true, stabilizeDev,
      Option.bind_some]
    cases Ident.chooseStable (Ident.gBlkidMap g (devicePart spec)) with
    | none => rfl
    | some ident => rfl
  · simp only [stable, bypath, dev, Bool.false_eq_true, if_false, or_self, and_false, Option.getD_none]

end SpecConverter

theorem Ident.chooseStable_eq_some {blk : List (List Char × List Char)} {ident : List Char}
    (h : chooseStable blk = some ident) :
    ∃ tag ∈ stableTags, ∃ value, blk.lookup tag = some value ∧ ident = tag ++ '=' :: value := by
  obtain ⟨tag, mem, found⟩ := List.exists_of_findSome?_eq_some h
  split at found
  · cases found
  · rename_i value lookup
    split at found
    · cases found
    · exact ⟨tag, mem, value, lookup, (Option.some.inj found).symm⟩

variable {conv : SpecConverter} {g : Guest} {spec ident : List Char}

/-- An identifier is a tag of the device and its value. -/
theorem SpecConverter.identifier_eq_some (h : conv.identifier g spec = some ident) :
    ∃ dev, conv.device g spec = some dev ∧
      ∃ tag ∈ Ident.stableTags, ∃ value, (Ident.gBlkidMap g dev).lookup tag = some value ∧
        ident = tag ++ '=' :: value := by
  unfold identifier at h
  split at h
  · obtain ⟨dev, device, chosen⟩ := Option.bind_eq_some_iff.mp h
    exact ⟨dev, device, Ident.chooseStable_eq_some chosen⟩
  · cases h

/-- A spec that leads to a device begins with a slash or with `btrfsvol:`, and so with no tag. -/
theorem SpecConverter.device_head {dev : List Char} (h : conv.device g spec = some dev) :
    spec.head? = some '/' ∨ spec.head? = some 'b' := by
  have start {lead s : List Char} {c : Char} (hc : lead.head? = some c) (hp : lead <+: s) : s.head? = some c := by
    obtain ⟨rest, rfl⟩ := hp
    cases lead with
    | nil => cases hc
    | cons d ds => exact hc
  by_cases btrfs : btrfsvol <+: spec
  · exact .inr (start (by decide) btrfs)
  · have part : devicePart spec = spec := by rw [devicePart, if_neg btrfs]
    rw [device, part] at h
    split at h
    · rename_i bypath
      exact .inl (start (by decide) bypath)
    split at h
    · rename_i dev
      exact .inl (start (by decide) dev)
    · cases h

theorem Ident.tag_head {tag : List Char} (h : tag ∈ stableTags) (rest : List Char) :
    ∃ c cs, tag ++ rest = c :: cs ∧ isSpace c = false ∧ c ≠ '/' ∧ c ≠ 'b' := by
  have heads : ∀ tag ∈ stableTags, ∃ c cs, tag = c :: cs ∧ isSpace c = false ∧ c ≠ '/' ∧ c ≠ 'b' := by
    intro tag h
    simp only [stableTags, List.mem_cons, List.not_mem_nil, or_false] at h
    rcases h with rfl | rfl | rfl | rfl
    all_goals exact ⟨_, _, rfl, by decide, by decide, by decide⟩
  obtain ⟨c, cs, rfl, space, slash, btrfs⟩ := heads tag h
  exact ⟨c, cs ++ rest, rfl, space, slash, btrfs⟩

/-- No tag leads to a device. -/
theorem SpecConverter.device_tag {tag rest : List Char} (mem : tag ∈ Ident.stableTags) :
    conv.device g (tag ++ rest) = none := by
  obtain ⟨c, cs, whole, -, slash, btrfs⟩ := Ident.tag_head mem rest
  rw [Option.eq_none_iff_forall_not_mem]
  intro dev found
  rw [whole] at found
  rcases device_head found with head | head
  · exact slash (Option.some.inj head)
  · exact btrfs (Option.some.inj head)

theorem SpecConverter.identifier_ne (h : conv.identifier g spec = some ident) : ident ≠ spec := by
  obtain ⟨dev, device, tag, mem, value, -, rfl⟩ := identifier_eq_some h
  intro same
  rw [← same, device_tag mem] at device
  cases device

/-- What a change says of its line: the number, the old spec and the new one. -/
def Change.entry (c : Change) : Nat × Option (List Char) × Option (List Char) := (c.lineNo, some c.old, some c.new)

namespace FstabCrypttabRewriter

variable (r : FstabCrypttabRewriter) (g : Guest)

/-- The lines the pass converts: the identifier and the columns after the first. -/
def conversion (line : List Char) : Option (List Char × List (List Char)) :=
  if strip line = [] ∨ ['#'] <+: strip line then none
  else
    match split line with
    | spec :: mp :: type :: options :: rest =>
      if mp ∈ ignoreMountpoints ∨ r.mode = .bypathOnly ∧ ¬ (bypathDir <+: spec ∨ btrfsvol <+: spec) then none
      else (r.converter.identifier g spec).map (·, mp :: type :: options :: rest)
    | _ => none

/-- What the pass makes of a line. -/
def rewritten (line : List Char) : List Char :=
  match r.conversion g line with
  | none => line
  | some (ident, rest) => join ['\t'] (ident :: rest)

theorem scanLine_spec (s : Scan) (line : List Char) :
    (r.scanLine g s line).outLines = s.outLines ++ [r.rewritten g line] ∧
      (r.scanLine g s line).total = s.total + 1 ∧
        (r.scanLine g s line).changes.map Change.entry = s.changes.map Change.entry ++
          ((r.conversion g line).map fun p => (s.total + 1, (split line)[0]?, some p.1)).toList := by
  simp only [scanLine, rewritten, conversion, split_strip]
  by_cases comment : strip line = [] ∨ ['#'] <+: strip line
  · simp [comment]
  simp only [if_neg comment]
  match cols : split line with
  | [] | [_] | [_, _] | [_, _, _] => simp
  | spec :: mp :: type :: options :: rest =>
    by_cases ignored : mp ∈ ignoreMountpoints
    · simp [ignored]
    by_cases other : r.mode = .bypathOnly ∧ ¬ (bypathDir <+: spec ∨ btrfsvol <+: spec)
    · simp [ignored, other]
    simp only [ignored, other, if_false, or_self]
    rw [show r.converter.convertSpec g spec = ((r.converter.identifier g spec).getD spec,
      (r.converter.convertSpec g spec).2) from Prod.ext (SpecConverter.convertSpec_eq _ _ _) rfl]
    cases ident : r.converter.identifier g spec with
    | none => simp
    | some ident' => simp [SpecConverter.identifier_ne ident, Change.entry]

theorem scan_spec (s : Scan) (lines : List (List Char)) :
    (lines.foldl (r.scanLine g) s).outLines = s.outLines ++ lines.map (r.rewritten g) ∧
      (lines.foldl (r.scanLine g) s).changes.map Change.entry = s.changes.map Change.entry ++
        (lines.zipIdx (s.total + 1)).filterMap fun (line, i) =>
          (r.conversion g line).map fun p => (i, (split line)[0]?, some p.1) := by
  induction lines generalizing s with
  | nil => simp
  | cons line lines ih =>
    obtain ⟨out, total, change⟩ := r.scanLine_spec g s line
    obtain ⟨outs, changes⟩ := ih (r.scanLine g s line)
    constructor
    · rw [List.foldl_cons, outs, out, List.map_cons, List.append_assoc, List.singleton_append]
    · rw [List.foldl_cons, changes, change, total, List.zipIdx_cons, List.filterMap_cons, List.append_assoc]
      cases here : r.conversion g line with
      | none => simp [here]
      | some p => simp [here]

theorem scan_unchanged (lines : List (List Char)) :
    (lines.foldl (r.scanLine g) {}).changes = [] ↔ ∀ line ∈ lines, r.conversion g line = none := by
  have listed := (r.scan_spec g {} lines).2
  rw [List.map_nil, List.nil_append] at listed
  rw [← List.map_eq_nil_iff, listed, List.filterMap_eq_nil_iff]
  constructor
  · intro none line member
    obtain ⟨i, here⟩ := List.mem_iff_getElem?.mp member
    have numbered : (line, i + 1) ∈ lines.zipIdx 1 := by
      rw [List.mk_mem_zipIdx_iff_le_and_getElem?_sub, Nat.add_sub_cancel]
      exact ⟨by omega, here⟩
    simpa using none _ numbered
  · intro none p numbered
    have member : p.1 ∈ lines := List.fst_mem_of_mem_zipIdx numbered
    simp [none p.1 member]

/-- A line that is converted has a spec with an identifier, and its other columns stay. -/
theorem conversion_eq_some {line ident : List Char} {rest : List (List Char)}
    (h : r.conversion g line = some (ident, rest)) :
    3 ≤ rest.length ∧ ∃ spec, split line = spec :: rest ∧ r.converter.identifier g spec = some ident := by
  unfold conversion at h
  split at h
  · cases h
  split at h
  · rename_i spec mp type options more cols
    split at h
    · cases h
    · obtain ⟨found, identifier, pair⟩ := Option.map_eq_some_iff.mp h
      obtain ⟨rfl, rfl⟩ := Prod.mk.inj pair
      exact ⟨by simp, spec, cols, identifier⟩
  · cases h

/-- The file is left as it was, or its lines are rewritten one by one. -/
theorem rewriteFstab_file :
    (r.rewriteFstab g).file =
      if r.mode = .noop ∨ g.isFile ≠ some true ∨ r.dryRun ∨
          ∀ line ∈ splitlines (Utf8.decode g.fstab), r.conversion g line = none then g.fstab
      else Utf8.encode (join ['\n'] ((splitlines (Utf8.decode g.fstab)).map (r.rewritten g)) ++ ['\n']) := by
  have out := (r.scan_spec g {} (splitlines (Utf8.decode g.fstab))).1
  have unchanged := r.scan_unchanged g (splitlines (Utf8.decode g.fstab))
  rw [List.nil_append] at out
  unfold rewriteFstab
  by_cases noop : r.mode = .noop
  · simp [noop]
  by_cases missing : g.isFile ≠ some true
  · simp [noop, missing]
  by_cases same : ∀ line ∈ splitlines (Utf8.decode g.fstab), r.conversion g line = none
  · have untouched := unchanged.mpr same
    simp only [noop, missing, untouched, if_false, true_or, if_true]
    rw [if_pos (.inr (.inr (.inr same)))]
  · have touched := mt unchanged.mp same
    by_cases dry : r.dryRun
    · simp [noop, missing, dry]
    · simp only [noop, missing, touched, dry, same, if_false, or_self, out, Bool.false_eq_true]

end FstabCrypttabRewriter

end pass

end H2kvm.Fstab
