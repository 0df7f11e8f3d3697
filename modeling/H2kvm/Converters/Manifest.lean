import H2kvm.Converters.Contained
import H2kvm.Converters.DiskOutputs
import H2kvm.Framework.Checks
import H2kvm.Framework.Lines

namespace H2kvm.Converters.Extract.OVF

open Framework FileTree Names Paths Text
open Network (lower)

inductive Algo
  | sha256
  | sha1
  | sha512
  | md5
  deriving DecidableEq

/-- The algorithm as a manifest writes it. -/
def Algo.name : Algo → List Char
  | .sha256 => "SHA256".toList
  | .sha1 => "SHA1".toList
  | .sha512 => "SHA512".toList
  | .md5 => "MD5".toList

/-- `[0-9a-fA-F]` -/
def isHex (c : Char) : Bool := ('0' ≤ c && c ≤ '9') || ('a' ≤ c && c ≤ 'f') || ('A' ≤ c && c ≤ 'F')

/-- An envelope as it is parsed: what its `File` elements say of their ids and hrefs, and its `Disk` elements of their
fileRefs. What is absent is empty. -/
structure Envelope where
  files : List (List Char × List Char)
  disks : List (List Char)

/-- What a file's content is read as: a text, an envelope if it is one, and its digests. -/
structure Reader (δ : Type) where
  text : δ → List Char
  parse : δ → Option Envelope
  hexdigest : Algo → δ → List Char

/-- Why `extract_ova` does not return. -/
inductive Stop
  | raised (e : Failure)
  | checksumsFailed (failed checked : Nat) (mismatchedFiles : List (List Char))
  | noOvf
  | ovfNotFound (ovf : Path)
  | unparsable (ovf : Path)
  | noDisksInOvf
  | noneFound
  deriving DecidableEq

/-- `\s*([0-9a-fA-F]+)\s*$` -/
def hexAtEnd (rest : List Char) : Option (List Char) :=
  let rest := rest.dropWhile isSpace
  let hex := rest.takeWhile isHex
  if hex ≠ [] ∧ (rest.dropWhile isHex).dropWhile isSpace = [] then some hex else none

/-- What follows the name of a manifest line: `\)\s*=\s*([0-9a-fA-F]+)\s*$` -/
def hexAfter : List Char → Option (List Char)
  | ')' :: rest =>
    match rest.dropWhile isSpace with
    | '=' :: rest => hexAtEnd rest
    | _ => none
  | _ => none

/-- `(.+?)` and what follows it: the shortest name is taken. -/
def nameAndHex (text : List Char) : Option (List Char × List Char) :=
  (List.range' 1 text.length).findSome? fun n =>
    if '\n' ∈ text.take n then none else (hexAfter (text.drop n)).map fun hex => (text.take n, hex)

/-- The `pattern` of `OVF._validate_manifest`. -/
def parseLine (line : List Char) : Option (Algo × List Char × List Char) :=
  [Algo.sha256, .sha1, .sha512, .md5].findSome? fun algo =>
    ((after (algo.name ++ ['(']) line).bind nameAndHex).map fun (name, hex) => (algo, name, hex)

/-- The names a manifest may not have. -/
def isUnsafe (filename : List Char) : Bool :=
  decide (up <:+: filename) || filename.head? = some '/' || filename.head? = some '\\'

/-- The parts of a relative path. -/
def relative (name : List Char) : Path := (components name).filter (· ≠ ['.'])

variable {δ : Type} (sys : System) (reader : Reader δ)

structure Tally where
  checked : Nat := 0
  failed : Nat := 0
  mismatchedFiles : List (List Char) := []

/-- One round of the loop of `OVF._validate_manifest`. -/
def checkLine (t : Places δ) (outdir : Path) (tally : Tally) (line : List Char) : Except Stop Tally :=
  match parseLine (strip line) with
  | none => .ok tally
  | some (algo, filename, expectedHex) =>
    if isUnsafe filename then .ok tally
    else
      let filepath := outdir ++ relative filename
      if !isPresent sys.hops t filepath then .ok tally
      else match content sys.hops t filepath with
        | none => .error (.raised (.os .isDirectory))
        | some data =>
          if lower (reader.hexdigest algo data) ≠ lower expectedHex then
            .ok ⟨tally.checked + 1, tally.failed + 1, tally.mismatchedFiles ++ [filename]⟩
          else .ok { tally with checked := tally.checked + 1 }

/-- `OVF._validate_manifest`. -/
def validateManifest (t : Places δ) (outdir mfPath : Path) : Except Stop Unit :=
  match content sys.hops t mfPath with
  | none => .error (.raised (.os .isDirectory))
  | some data => do
    let tally ← (splitlines (reader.text data)).foldlM (checkLine sys reader t outdir) {}
    if tally.checked = 0 then .ok ()
    else if 0 < tally.failed then .error (.checksumsFailed tally.failed tally.checked tally.mismatchedFiles)
    else .ok ()

/-- `sorted(dir.glob("*" + ext))` -/
def glob (t : Places δ) (dir : Path) (ext : List Char) : List Path :=
  match resolve .kernel t sys.hops [] dir with
  | .error _ => []
  | .ok r =>
    let entries := t.keys.filter fun q => q ≠ [] && q.dropLast = r && decide (ext <:+ q.getLast?.getD [])
    (entries.map fun q => dir ++ [q.getLast?.getD []]).mergeSort fun a b => decide (a ≤ b)

/-- The disk of a `Disk` element: one without a file, or whose href is not safe, is passed over. -/
def diskOf (d : Disk δ) (outdir : Path) (fileMap : Dict (List Char) (List Char)) (fileId : List Char) :
    Except Stop (Option Path) :=
  match fileMap.lookup fileId with
  | none => .ok none
  | some href =>
    match safeOutPath sys outdir href d with
    | .ok target _ => .ok (some target)
    | .error .symlinkLoop _ => .error (.raised .symlinkLoop)
    | .error _ _ => .ok none

/-- `OVF.extract_ovf`. -/
def extractOvf (d : Disk δ) (outdir ovf : Path) : Except Stop (List Path) :=
  if !isPresent sys.hops d.tree ovf then .error (.ovfNotFound ovf)
  else match (content sys.hops d.tree ovf).bind reader.parse with
    | none => .error (.unparsable ovf)
    | some envelope => do
      let named := envelope.files.filter fun (fid, href) => fid ≠ [] && href ≠ []
      let fileMap : Dict (List Char) (List Char) := named.foldl (fun map (fid, href) => map.insert fid href) ∅
      let found ← (envelope.disks.filter (· ≠ [])).mapM (diskOf sys d outdir fileMap)
      if found.filterMap id = [] then .error .noDisksInOvf else .ok (found.filterMap id)

/-- What `extract_ova` does once the members are extracted, up to the conversion that may follow. -/
def collectDisks (outdir : Path) (d : Disk δ) : Except Stop (List Path) := do
  forM (glob sys d.tree outdir ".mf".toList) (validateManifest sys reader d.tree outdir)
  let ovfs := glob sys d.tree outdir ".ovf".toList
  if ovfs = [] then .error .noOvf
  else
    let disks ← ovfs.mapM (extractOvf sys reader d outdir)
    let uniq := DiskOutputs.dedup disks.flatten
    let found := uniq.filter (isPresent sys.hops d.tree)
    if found ≠ uniq ∧ found = [] then .error .noneFound else .ok found

/-- `OVF.extract_ova`: the disks it returns or converts, and the files at its return. -/
def disksOfOva [Inhabited δ] (outdir : Path) (opts : Options) (members : List (Member δ × List (List Char)))
    (d : Disk δ) : Except Stop (List Path × Disk δ) :=
  let extracted : Act δ Unit := do
    call (mkdirs sys.hops outdir)
    extractOva sys outdir opts members
  match extracted d with
  | .error e _ => .error (.raised e)
  | .ok _ d' => (collectDisks sys reader outdir d').map (·, d')

section lines

variable {line name hex gap gap' rest s : List Char} {algo algo' : Algo}

/-- A line `ALGO(name)= hex` of a manifest. -/
structure Entry (line : List Char) (algo : Algo) (name hex : List Char) : Prop where
  form : ∃ gap gap', (∀ c ∈ gap, isSpace c = true) ∧ (∀ c ∈ gap', isSpace c = true) ∧
    strip line = algo.name ++ '(' :: (name ++ ')' :: (gap ++ '=' :: (gap' ++ hex)))
  named : name ≠ []
  oneLine : '\n' ∉ name
  digits : hex ≠ [] ∧ ∀ c ∈ hex, isHex c = true

theorem isSpace_of_isHex {c : Char} (hex : isHex c = true) : isSpace c = false := by
  have number : c.toNat = c.val.toNat := rfl
  rw [Bool.eq_false_iff]
  intro space
  simp only [isSpace, Bool.or_eq_true, Bool.and_eq_true, decide_eq_true_eq, beq_iff_eq] at space
  simp only [isHex, Bool.or_eq_true, Bool.and_eq_true, decide_eq_true_eq, Char.le_def, UInt32.le_iff_toNat_le] at hex
  have zero : '0'.val.toNat = 48 := rfl
  have nine : '9'.val.toNat = 57 := rfl
  have a : 'a'.val.toNat = 97 := rfl
  have f : 'f'.val.toNat = 102 := rfl
  have A : 'A'.val.toNat = 65 := rfl
  have F : 'F'.val.toNat = 70 := rfl
  omega

theorem dropWhile_gap {p : Char → Bool} {c : Char} (all : ∀ c ∈ gap, p c = true) (stop : p c = false) :
    (gap ++ c :: rest).dropWhile p = c :: rest := by
  rw [List.dropWhile_append_of_pos all, List.dropWhile_cons_of_neg (by rw [stop]; decide)]

theorem hexAtEnd_of_form (spaces : ∀ c ∈ gap, isSpace c = true) (some : hex ≠ []) (digits : ∀ c ∈ hex, isHex c = true) :
    hexAtEnd (gap ++ hex) = .some hex := by
  have value : (gap ++ hex).dropWhile isSpace = hex := by
    cases hex with
    | nil => exact absurd rfl some
    | cons c hex => exact dropWhile_gap spaces (isSpace_of_isHex (digits c List.mem_cons_self))
  rw [hexAtEnd, value, List.takeWhile_eq_self_iff.mpr digits, List.dropWhile_eq_nil_iff.mpr digits]
  exact if_pos ⟨some, rfl⟩

theorem hexAfter_of_form (spaces : ∀ c ∈ gap, isSpace c = true) (spaces' : ∀ c ∈ gap', isSpace c = true) (some : hex ≠ [])
    (digits : ∀ c ∈ hex, isHex c = true) : hexAfter (')' :: (gap ++ '=' :: (gap' ++ hex))) = .some hex := by
  rw [hexAfter, dropWhile_gap spaces (by decide)]
  exact hexAtEnd_of_form spaces' some digits

theorem mem_of_hexAtEnd (found : hexAtEnd rest = some hex) {c : Char} (member : c ∈ rest) :
    isSpace c = true ∨ isHex c = true := by
  rw [hexAtEnd] at found
  split at found
  · next all =>
    rw [← List.takeWhile_append_dropWhile (p := isSpace) (l := rest), List.mem_append] at member
    rcases member with space | member
    · exact .inl (List.mem_takeWhile_imp space)
    rw [← List.takeWhile_append_dropWhile (p := isHex) (l := rest.dropWhile isSpace), List.mem_append] at member
    rcases member with hex | member
    · exact .inr (List.mem_takeWhile_imp hex)
    · exact .inl (List.dropWhile_eq_nil_iff.mp all.2 c member)
  · cases found

theorem form_of_hexAfter (found : hexAfter s = some hex) : ∃ rest, s = ')' :: rest ∧ ')' ∉ rest := by
  unfold hexAfter at found
  split at found
  · next rest =>
    split at found
    · next tail sign =>
      refine ⟨rest, rfl, fun member => ?_⟩
      rw [← List.takeWhile_append_dropWhile (p := isSpace) (l := rest), sign, List.mem_append, List.mem_cons] at member
      rcases member with space | same | member
      · exact absurd (List.mem_takeWhile_imp space) (by decide)
      · exact absurd same (by decide)
      · exact absurd (mem_of_hexAtEnd found member) (by decide)
    · cases found
  · cases found

/-- A name and its digits are read off in one way. -/
theorem nameAndHex_of_hexAfter (named : name ≠ []) (oneLine : '\n' ∉ name) (found : hexAfter s = some hex) :
    nameAndHex (name ++ s) = some (name, hex) := by
  obtain ⟨rest, rfl, last⟩ := form_of_hexAfter found
  let f (n : Nat) : Option (List Char × List Char) :=
    if '\n' ∈ (name ++ ')' :: rest).take n then none
    else (hexAfter ((name ++ ')' :: rest).drop n)).map fun hex => ((name ++ ')' :: rest).take n, hex)
  have here : f name.length = some (name, hex) := by
    simp only [f, List.take_left, List.drop_left, found, if_neg oneLine, Option.map_some]
  have only (n : Nat) (b : List Char × List Char) (at' : f n = some b) : n = name.length := by
    simp only [f] at at'
    split at at'
    · cases at'
    obtain ⟨hex', found', -⟩ := Option.map_eq_some_iff.mp at'
    obtain ⟨rest', form, last'⟩ := form_of_hexAfter found'
    rcases Nat.lt_trichotomy n name.length with short | same | long
    · rw [List.drop_append_of_le_length short.le] at form
      cases left : name.drop n with
      | nil => exact absurd (List.drop_eq_nil_iff.mp left) (Nat.not_le.mpr short)
      | cons c cs =>
        rw [left, List.cons_append] at form
        exact absurd ((List.cons.inj form).2 ▸ List.mem_append_right cs List.mem_cons_self) last'
    · exact same
    · rw [List.drop_append, List.drop_eq_nil_of_le long.le, List.nil_append] at form
      obtain ⟨k, gone⟩ : ∃ k, n - name.length = k + 1 := ⟨n - name.length - 1, by omega⟩
      rw [gone, List.drop_succ_cons] at form
      exact absurd (List.mem_of_mem_drop (form ▸ List.mem_cons_self)) last
  have length : name.length ∈ List.range' 1 (name ++ ')' :: rest).length := by
    have pos := List.length_pos_iff.mpr named
    simp only [List.mem_range'_1, List.length_append, List.length_cons]
    omega
  change (List.range' 1 (name ++ ')' :: rest).length).findSome? f = some (name, hex)
  cases first : (List.range' 1 (name ++ ')' :: rest).length).findSome? f with
  | none =>
    rw [List.findSome?_eq_none_iff.mp first _ length] at here
    cases here
  | some b =>
    obtain ⟨n, -, at'⟩ := List.exists_of_findSome?_eq_some first
    rw [only n b at', here] at at'
    exact at'.symm

theorem takeWhile_name (algo : Algo) (rest : List Char) : (algo.name ++ '(' :: rest).takeWhile (· ≠ '(') = algo.name := by
  have free : ∀ c ∈ algo.name, decide (c ≠ '(') = true := by cases algo <;> decide
  rw [List.takeWhile_append_of_pos free, List.takeWhile_cons_of_neg (by decide), List.append_nil]

theorem name_injective (same : algo.name = algo'.name) : algo = algo' := by
  cases algo <;> cases algo' <;> first | rfl | exact absurd same (by decide)

theorem after_name (algo algo' : Algo) (rest : List Char) :
    after (algo'.name ++ ['(']) (algo.name ++ '(' :: rest) = if algo' = algo then some rest else none := by
  by_cases same : algo' = algo
  · subst same
    have form : algo'.name ++ '(' :: rest = algo'.name ++ ['('] ++ rest := by simp
    rw [if_pos rfl, after, form, if_pos (List.prefix_append _ rest), List.drop_left]
  · rw [if_neg same, after, if_neg]
    rintro ⟨tail, here⟩
    rw [List.append_assoc, List.singleton_append] at here
    have names := takeWhile_name algo' tail
    rw [here, takeWhile_name] at names
    exact same (name_injective names).symm

theorem parseLine_of_entry (entry : Entry line algo name hex) : parseLine (strip line) = some (algo, name, hex) := by
  obtain ⟨gap, gap', spaces, spaces', form⟩ := entry.form
  have tail := hexAfter_of_form spaces spaces' entry.digits.1 entry.digits.2
  rw [form, parseLine]
  simp only [after_name, List.findSome?_cons, List.findSome?_nil]
  have found := nameAndHex_of_hexAfter entry.named entry.oneLine tail
  cases algo <;> simp [found]

end lines

section checks

variable {sys : System} {reader : Reader δ} {t : Places δ} {d : Disk δ} {outdir outdirR disk mf parts : Path}
  {tally tally' : Tally} {line name hex : List Char} {algo : Algo}

/-- A file has the digest that is written of it, in either case of letters. -/
def HasDigest (sys : System) (reader : Reader δ) (t : Places δ) (p : Path) (algo : Algo) (hex : List Char) : Prop :=
  ∃ data, content sys.hops t p = some data ∧ lower (reader.hexdigest algo data) = lower hex

theorem checkLine_tally (run : checkLine sys reader t outdir tally line = .ok tally') :
    tally.failed ≤ tally'.failed ∧ (tally.failed ≤ tally.checked → tally'.failed ≤ tally'.checked) := by
  rw [checkLine] at run
  split at run
  · cases run
    exact ⟨le_rfl, id⟩
  · dsimp only at run
    split_ifs at run
    · cases run
      exact ⟨le_rfl, id⟩
    · cases run
      exact ⟨le_rfl, id⟩
    · split at run
      · cases run
      · split_ifs at run
        · cases run
          exact ⟨Nat.le_succ _, Nat.succ_le_succ⟩
        · cases run
          exact ⟨le_rfl, fun le => Nat.le_succ_of_le le⟩

theorem checkLine_entry (entry : Entry line algo name hex) (safe : isUnsafe name = false)
    (there : isPresent sys.hops t (outdir ++ relative name) = true)
    (run : checkLine sys reader t outdir tally line = .ok tally') :
    HasDigest sys reader t (outdir ++ relative name) algo hex ∨ tally.failed < tally'.failed := by
  rw [checkLine, parseLine_of_entry entry] at run
  dsimp only at run
  rw [safe, there, if_neg Bool.false_ne_true, Bool.not_true, if_neg Bool.false_ne_true] at run
  split at run
  · cases run
  · next data found =>
    split_ifs at run with differs
    · cases run
      exact .inr (Nat.lt_succ_self _)
    · exact .inl ⟨data, found, not_not.mp differs⟩

theorem checkLines_tally {lines : List (List Char)}
    (run : lines.foldlM (checkLine sys reader t outdir) tally = .ok tally') :
    tally.failed ≤ tally'.failed ∧ (tally.failed ≤ tally.checked → tally'.failed ≤ tally'.checked) := by
  induction lines generalizing tally with
  | nil =>
    cases run
    exact ⟨le_rfl, id⟩
  | cons line lines ih =>
    rw [List.foldlM_cons] at run
    obtain ⟨next, first, rest⟩ := Checks.bind_eq_ok.mp run
    obtain ⟨more, within⟩ := checkLine_tally first
    obtain ⟨more', within'⟩ := ih rest
    exact ⟨more.trans more', within' ∘ within⟩

theorem checkLines_entry {lines : List (List Char)} (entry : Entry line algo name hex) (safe : isUnsafe name = false)
    (there : isPresent sys.hops t (outdir ++ relative name) = true) (written : line ∈ lines)
    (run : lines.foldlM (checkLine sys reader t outdir) tally = .ok tally') :
    HasDigest sys reader t (outdir ++ relative name) algo hex ∨ tally.failed < tally'.failed := by
  induction lines generalizing tally with
  | nil => cases written
  | cons first lines ih =>
    rw [List.foldlM_cons] at run
    obtain ⟨next, here, rest⟩ := Checks.bind_eq_ok.mp run
    rcases List.mem_cons.mp written with rfl | later
    · exact (checkLine_entry entry safe there here).imp_right fun less => less.trans_le (checkLines_tally rest).1
    · exact (ih later rest).imp_right (checkLine_tally here).1.trans_lt

theorem validateManifest_entry (valid : validateManifest sys reader t outdir mf = .ok ()) {manifest : δ}
    (read : content sys.hops t mf = some manifest) (written : line ∈ splitlines (reader.text manifest))
    (entry : Entry line algo name hex) (safe : isUnsafe name = false)
    (there : isPresent sys.hops t (outdir ++ relative name) = true) :
    HasDigest sys reader t (outdir ++ relative name) algo hex := by
  rw [validateManifest, read] at valid
  obtain ⟨tally, run, rest⟩ := Checks.bind_eq_ok.mp valid
  have counted := (checkLines_tally run).2 le_rfl
  refine (checkLines_entry entry safe there written run).resolve_right fun failed => ?_
  rw [if_neg (by omega), if_pos (by omega)] at rest
  cases rest

theorem collectDisks_ok {disks : List Path} (run : collectDisks sys reader outdir d = .ok disks)
    (top : mf ∈ glob sys d.tree outdir ".mf".toList) : validateManifest sys reader d.tree outdir mf = .ok () := by
  obtain ⟨_, valid, _⟩ := Checks.bind_eq_ok.mp run
  exact Checks.forM_eq_ok.mp valid mf top

theorem content_joined (real : realpath sys d.tree outdir = .ok outdirR)
    (leads : realpath sys d.tree (outdirR ++ parts) = .ok disk)
    (there : isPresent sys.hops d.tree (outdir ++ parts) = true) :
    content sys.hops d.tree (outdir ++ parts) = content sys.hops d.tree disk := by
  obtain ⟨r, walked⟩ : ∃ r, resolve .kernel d.tree sys.hops [] (outdir ++ parts) = .ok r := by
    cases walked : resolve .kernel d.tree sys.hops [] (outdir ++ parts) with
    | ok r => exact ⟨r, rfl⟩
    | error e =>
      rw [isPresent, stat, walked] at there
      cases there
  obtain ⟨mid, first, k, rest⟩ := resolve_split walked
  have normal : Normal [] := List.forall_mem_nil _
  have unlinked : Unlinked d.tree [] := fun q above => by
    rw [List.prefix_nil.mp above]
    exact link?_root
  have rooted : Rooted d.tree [] := fun q above differ => absurd (List.prefix_nil.mp above) differ
  obtain rfl := resolve_unique (Simulates.lenient .kernel d.tree) first (realpath_eq_ok_iff.mp real).2
  have through : resolve .kernel d.tree k [] (mid ++ parts) = .ok r := by
    obtain ⟨follow, same⟩ := resolve_eq_walk .kernel d.tree k
    rw [same] at rest ⊢
    rw [walk_plain (resolve_normal normal first) (resolve_unlinked unlinked first)
      fun _ => resolve_rooted rfl rooted first]
    exact rest
  obtain rfl := resolve_unique (Simulates.lenient .kernel d.tree) through (realpath_eq_ok_iff.mp leads).2
  have direct : resolve .kernel d.tree sys.hops [] r = .ok r :=
    resolve_plain (resolve_normal normal walked) (resolve_unlinked unlinked walked)
      fun _ => resolve_rooted rfl rooted walked
  rw [content, content, stat, stat, walked, direct]

/-- A name of a manifest that is taken at its word: it does not look unsafe, and has no backslash. -/
structure Plain (name : List Char) : Prop where
  safe : isUnsafe name = false
  slashed : '\\' ∉ name

theorem Plain.relative_eq (plain : Plain name) (clean : cleanPosixRelpath name = .ok parts) : relative name = parts := by
  have slashes_eq : slashes name = name := by
    refine (List.map_congr_left fun c member => ?_).trans (List.map_id name)
    exact if_neg fun same : c = '\\' => plain.slashed (same ▸ member)
  have first : name.dropWhile (· = '/') = name := by
    cases name with
    | nil => rfl
    | cons c name =>
      refine List.dropWhile_cons_of_neg ?_
      simp only [decide_eq_true_eq]
      rintro rfl
      exact absurd plain.safe (by simp [isUnsafe])
  rw [cleanPosixRelpath, slashes_eq, first, cleanParts] at clean
  split at clean
  · cases clean
  · dsimp only at clean
    split at clean
    · cases clean
    · exact Except.ok.inj clean

end checks

section manifests

variable [Inhabited δ] {sys : System} {reader : Reader δ} {outdir disk mf : Path} {opts : Options}
  {members : List (Member δ × List (List Char))} {d d' : Disk δ} {disks : List Path}

/-- The disk is where the member of the archive goes. -/
def CameFrom (sys : System) (outdir : Path) (t : Places δ) (member : Member δ) (disk : Path) : Prop :=
  ∃ outdirR parts, cleanPosixRelpath member.name = .ok parts ∧ realpath sys t outdir = .ok outdirR ∧
    realpath sys t (outdirR ++ parts) = .ok disk

/-- The name denotes the member of the archive. -/
def Denotes (name : List Char) (member : Member δ) : Prop :=
  ∃ parts, cleanPosixRelpath name = .ok parts ∧ cleanPosixRelpath member.name = .ok parts

/-- Every disk that is returned has the digest that a manifest of the archive has of it. -/
def Complete (sys : System) (reader : Reader δ) (outdir : Path) (opts : Options)
    (members : List (Member δ × List (List Char))) (d : Disk δ) : Prop :=
  ∀ disks d', disksOfOva sys reader outdir opts members d = .ok (disks, d') →
    ∀ mf ∈ members.map Prod.fst, mf.kind = .file → ".mf".toList <:+ mf.name →
    ∀ src, mf.stream = some src → ∀ line ∈ splitlines (reader.text src.data),
    ∀ algo name hex, Entry line algo name hex →
    ∀ disk ∈ disks, ∀ member ∈ members.map Prod.fst, CameFrom sys outdir d'.tree member disk → Denotes name member →
      HasDigest sys reader d'.tree disk algo hex

theorem collectDisks_of_disksOfOva (run : disksOfOva sys reader outdir opts members d = .ok (disks, d')) :
    collectDisks sys reader outdir d' = .ok disks := by
  rw [disksOfOva] at run
  split at run
  · cases run
  · next after _ =>
    cases collected : collectDisks sys reader outdir after with
    | error e =>
      rw [collected] at run
      cases run
    | ok found =>
      rw [collected] at run
      cases run
      exact collected

/-- A disk that is returned has the digest of every line that finds it at a plain name, in a manifest at the top of the
output directory. -/
theorem manifest_checked (run : disksOfOva sys reader outdir opts members d = .ok (disks, d'))
    (top : mf ∈ glob sys d'.tree outdir ".mf".toList) {manifest : δ} (read : content sys.hops d'.tree mf = some manifest)
    {line name hex : List Char} {algo : Algo} (written : line ∈ splitlines (reader.text manifest))
    (entry : Entry line algo name hex) (plain : Plain name)
    (found : isPresent sys.hops d'.tree (outdir ++ relative name) = true) :
    ∀ disk ∈ disks, ∀ member ∈ members.map Prod.fst, CameFrom sys outdir d'.tree member disk → Denotes name member →
      HasDigest sys reader d'.tree disk algo hex := by
  rintro disk - member - ⟨outdirR, parts, clean, real, leads⟩ ⟨parts', denoted, clean'⟩
  obtain rfl := Except.ok.inj (clean.symm.trans clean')
  have valid := collectDisks_ok (collectDisks_of_disksOfOva run) top
  obtain ⟨data, held, digest⟩ := validateManifest_entry valid read written entry plain.safe found
  have same := plain.relative_eq denoted
  rw [same] at held found
  exact ⟨data, (content_joined real leads found).symm.trans held, digest⟩

end manifests

section inputs

/-- An archive of a disk image, an envelope and a manifest. -/
def appliance (diskName mfName : String) : List (Member Nat × List (List Char)) :=
  [(⟨diskName.toList, .file, 4, 0o644, some ⟨1, 4, true⟩⟩, ["t".toList]),
    (⟨"vm.ovf".toList, .file, 9, 0o644, some ⟨2, 9, true⟩⟩, ["t".toList]),
    (⟨mfName.toList, .file, 9, 0o644, some ⟨3, 9, true⟩⟩, ["t".toList])]

/-- The image holds `disk`, of which this is the MD5. -/
def md5 : List Char := "75688b0220ad16c4e02152b6c2b56424".toList

def reading (diskName : String) (hex : List Char) : Reader Nat :=
  ⟨fun n => if n = 3 then "MD5(".toList ++ diskName.toList ++ ")= ".toList ++ hex else [],
    fun n => if n = 2 then some ⟨[("f".toList, diskName.toList)], ["f".toList]⟩ else none,
    fun algo n => if algo = .md5 ∧ n = 1 then md5 else []⟩

def plainOptions : Options := ⟨true, ⟨none, none⟩, none, none⟩

def extracted (diskName mfName : String) (hex : List Char) : Except Stop (List Path × Disk Nat) :=
  disksOfOva linux (reading diskName hex) out plainOptions (appliance diskName mfName) ⟨∅, []⟩

/-- The disk is returned, and holds what it should. -/
def Returned (diskName : String) (returned : List Path × Disk Nat) : Prop :=
  out ++ [diskName.toList] ∈ returned.1 ∧ realpath linux returned.2.tree out = .ok out ∧
    realpath linux returned.2.tree (out ++ [diskName.toList]) = .ok (out ++ [diskName.toList]) ∧
    content linux.hops returned.2.tree (out ++ [diskName.toList]) = some 1

instance (diskName : String) (returned : List Path × Disk Nat) : Decidable (Returned diskName returned) :=
  inferInstanceAs (Decidable (_ ∧ _ ∧ _ ∧ _))

theorem exists_of_any {ε α : Type} {run : Except ε α} {P : α → Prop} [DecidablePred P]
    (any : run.toOption.any (P ·) = true) : ∃ a, run = .ok a ∧ P a := by
  cases run with
  | error e => cases any
  | ok a => exact ⟨a, rfl, of_decide_eq_true any⟩

theorem not_complete_of_returned {diskName mfName : String} {line : List Char}
    (returned : (extracted diskName mfName ['0']).toOption.any (Returned diskName ·) = true)
    (named : ".mf".toList <:+ mfName.toList) (clean : cleanPosixRelpath diskName.toList = .ok [diskName.toList])
    (written : line ∈ splitlines ((reading diskName ['0']).text 3)) (entry : Entry line .md5 diskName.toList ['0']) :
    ¬Complete linux (reading diskName ['0']) out plainOptions (appliance diskName mfName) ⟨∅, []⟩ := by
  intro complete
  obtain ⟨⟨disks, d'⟩, run, member, real, leads, held⟩ := exists_of_any returned
  obtain ⟨data, held', digest⟩ := complete disks d' run _ (.tail _ (.tail _ (.head _))) rfl named _ rfl line written .md5 _ _
    entry _ member _ (.head _) ⟨out, _, clean, real, leads⟩ ⟨_, clean, clean⟩
  cases held.symm.trans held'
  change lower md5 = lower ['0'] at digest
  exact absurd digest (by decide)

/-- A name with two dots in it is not checked, and neither is anything in a manifest that is not extracted. -/
theorem not_complete :
    ¬Complete linux (reading "disk..vmdk" ['0']) out plainOptions (appliance "disk..vmdk" "vm.mf") ⟨∅, []⟩ ∧
      ¬Complete linux (reading "disk.vmdk" ['0']) out plainOptions (appliance "disk.vmdk" "../vm.mf") ⟨∅, []⟩ := by
  constructor
  · refine not_complete_of_returned (by decide +kernel) (by decide) (by decide +kernel) (.head _) ?_
    exact ⟨⟨[], [' '], by decide, by decide, by decide +kernel⟩, by decide, by decide, by decide, by decide⟩
  · refine not_complete_of_returned (by decide +kernel) (by decide) (by decide +kernel) (.head _) ?_
    exact ⟨⟨[], [' '], by decide, by decide, by decide +kernel⟩, by decide, by decide, by decide, by decide⟩

/-- The manifest is there too, and finds the disk. -/
def Listed (diskName mfName : String) (returned : List Path × Disk Nat) : Prop :=
  Returned diskName returned ∧ out ++ [mfName.toList] ∈ glob linux returned.2.tree out ".mf".toList ∧
    content linux.hops returned.2.tree (out ++ [mfName.toList]) = some 3 ∧
    isPresent linux.hops returned.2.tree (out ++ relative diskName.toList) = true

instance (diskName mfName : String) (returned : List Path × Disk Nat) : Decidable (Listed diskName mfName returned) :=
  inferInstanceAs (Decidable (_ ∧ _ ∧ _ ∧ _))

/-- A disk that is what its manifest says is returned. -/
theorem manifest_checked_appliance : ∃ disks d', extracted "disk.vmdk" "vm.mf" md5 = .ok (disks, d') ∧
    HasDigest linux (reading "disk.vmdk" md5) d'.tree (out ++ ["disk.vmdk".toList]) .md5 md5 := by
  have listed : (extracted "disk.vmdk" "vm.mf" md5).toOption.any (Listed "disk.vmdk" "vm.mf" ·) = true := by decide +kernel
  obtain ⟨⟨disks, d'⟩, run, ⟨member, real, leads, held⟩, top, read, found⟩ := exists_of_any listed
  have clean : cleanPosixRelpath "disk.vmdk".toList = .ok ["disk.vmdk".toList] := by decide +kernel
  have entry : Entry ("MD5(disk.vmdk)= ".toList ++ md5) .md5 "disk.vmdk".toList md5 :=
    ⟨⟨[], [' '], by decide, by decide, by decide +kernel⟩, by decide, by decide, by decide, by decide⟩
  have written : "MD5(disk.vmdk)= ".toList ++ md5 ∈ splitlines ((reading "disk.vmdk" md5).text 3) := by decide +kernel
  exact ⟨disks, d', run, manifest_checked run top read written entry ⟨by decide, by decide⟩ found _ member _ (.head _)
    ⟨out, _, clean, real, leads⟩ ⟨_, clean, clean⟩⟩

end inputs

end H2kvm.Converters.Extract.OVF
