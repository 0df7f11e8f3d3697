import H2kvm.Framework.Data
import H2kvm.Framework.Since
import Mathlib.Data.List.MinMax
import Mathlib.Data.String.Basic

namespace H2kvm.Daemon.FileDeduplicator

open Framework

structure FilePath where
  directory : String
  name : String
  deriving DecidableEq

/-- `str(path.absolute())`. -/
def FilePath.absolute (path : FilePath) : String := path.directory ++ "/" ++ path.name

structure File where
  content : List UInt8
  readable : Bool := true

def File.size (f : File) : Nat := f.content.length

/-- The two statuses a file is marked with. -/
inductive Status where
  | success
  | failed
  deriving DecidableEq

def Status.text : Status → String
  | .success => "success"
  | .failed => "failed"

/-- A row of `processed_files`. -/
structure Row where
  id : Nat
  filename : String
  filepath : String
  fileSize : Nat
  md5Hash : Option String
  processedAt : String
  outputPath : Option String
  status : String
  deriving DecidableEq

/-- `UNIQUE(filename, file_size)`. -/
def Row.key (row : Row) : String × Nat := (row.filename, row.fileSize)

/-- What was stored: a row with the file it was made for, if there was one, or a cleanup with its cutoff. -/
inductive Event where
  | marked (row : Row) (file : Option File)
  | cleaned (cutoff : String)

/-- The files and the table. What was stored so far is kept beside. -/
structure State where
  files : FilePath → Option File := fun _ => none
  rows : List Row := []
  lastId : Nat := 0
  log : List Event := []

inductive Action where
  | markProcessed (path : FilePath) (outputPath : Option String) (status : Status) (now : String) (stored : Bool)
  | cleanupOldRecords (cutoff : String)
  | rewrite (path : FilePath) (file : Option File)

section code

variable (md5 : List UInt8 → String) (useMd5 : Bool)

/-- `_calculate_md5`. -/
def calculateMd5 (file : Option File) : String :=
  match file with
  | none => ""
  | some f => if f.readable then md5 f.content else ""

/-- `ORDER BY processed_at DESC LIMIT 1`. -/
def latest (rows : List Row) : Option Row := rows.argmax Row.processedAt

/-- `is_duplicate`; `stat` of a file that is not there raises. -/
def isDuplicate (s : State) (path : FilePath) : Except PyException (Option Row) :=
  match s.files path with
  | none => .error ⟨"FileNotFoundError", "[Errno 2] No such file or directory: '" ++ path.absolute ++ "'", false⟩
  | some f =>
    match latest (s.rows.filter fun row => row.filename = path.name && row.fileSize = f.size) with
    | some row => .ok (some row)
    | none =>
      if useMd5 then .ok (latest (s.rows.filter fun row => row.md5Hash = some (calculateMd5 md5 (some f))))
      else .ok none

/-- The values `mark_processed` inserts. -/
def newRow (s : State) (path : FilePath) (outputPath : Option String) (status : Status) (now : String) : Row :=
  let file := s.files path
  { id := s.lastId + 1, filename := path.name, filepath := path.absolute
    fileSize := (file.map File.size).getD 0
    md5Hash := if useMd5 && file.isSome then some (calculateMd5 md5 file) else none
    processedAt := now, outputPath, status := status.text }

/-- `INSERT OR REPLACE`. -/
def insertOrReplace (rows : List Row) (row : Row) : List Row := rows.filter (fun old => old.key ≠ row.key) ++ [row]

/-- A call, or a file that is written, replaced or removed. An insertion that fails is logged and
changes nothing. -/
def step (s : State) : Action → State
  | .markProcessed path outputPath status now stored =>
    if stored then
      let row := newRow md5 useMd5 s path outputPath status now
      { s with rows := insertOrReplace s.rows row, lastId := row.id, log := s.log ++ [.marked row (s.files path)] }
    else s
  | .cleanupOldRecords cutoff =>
    { s with rows := s.rows.filter fun row => !decide (row.processedAt < cutoff), log := s.log ++ [.cleaned cutoff] }
  | .rewrite path file => { s with files := Function.update s.files path file }

end code

section past

/-- An event that leaves a row in the table. -/
def Keeps (row : Row) : Event → Prop
  | .marked later _ => row.key ≠ later.key
  | .cleaned cutoff => ¬ row.processedAt < cutoff

/-- The mark made the row, which was neither replaced nor cleaned up since. -/
def Kept (log : List Event) (row : Row) (file : Option File) : Prop :=
  Since (fun _ e => e = .marked row file) (Keeps row) log

variable {log : List Event} {row : Row} {file : Option File}

theorem kept_marked {new : Row} {newFile : Option File} :
    Kept (log ++ [.marked new newFile]) row file ↔
      (row = new ∧ file = newFile) ∨ row.key ≠ new.key ∧ Kept log row file := by
  rw [Kept, since_concat, Event.marked.injEq]
  exact or_congr (and_congr eq_comm eq_comm) Iff.rfl

theorem kept_cleaned {cutoff : String} :
    Kept (log ++ [.cleaned cutoff]) row file ↔ ¬ row.processedAt < cutoff ∧ Kept log row file := by
  rw [Kept, since_concat]
  simp [Keeps, Kept]

theorem Kept.mem (h : Kept log row file) : .marked row file ∈ log := by
  obtain ⟨before, _, after, rfl, rfl, -⟩ := h
  simp

theorem exists_kept_key (h : Since (fun _ e => e = .marked row file) (fun e => ∀ cutoff, e ≠ .cleaned cutoff) log) :
    ∃ row' file', Kept log row' file' ∧ row'.key = row.key := by
  induction log using List.reverseRecOn with
  | nil => exact absurd h not_since_nil
  | append_singleton log e ih =>
    cases e with
    | cleaned cutoff =>
      rcases since_concat.mp h with same | ⟨other, -⟩
      · cases same
      · exact absurd rfl (other cutoff)
    | marked new newFile =>
      rcases since_concat.mp h with same | ⟨-, before⟩
      · cases same
        exact ⟨row, file, kept_marked.mpr (.inl ⟨rfl, rfl⟩), rfl⟩
      · obtain ⟨row', file', kept, key⟩ := ih before
        by_cases replaced : row'.key = new.key
        · exact ⟨new, newFile, kept_marked.mpr (.inl ⟨rfl, rfl⟩), replaced.symm.trans key⟩
        · exact ⟨row', file', kept_marked.mpr (.inr ⟨replaced, kept⟩), key⟩

end past

section table

variable (md5 : List UInt8 → String) (useMd5 : Bool)

/-- The table holds the rows that are kept, and each mark stored the size and the hash of its file. -/
structure Reflects (s : State) : Prop where
  rows : ∀ row, row ∈ s.rows ↔ ∃ file, Kept s.log row file
  size : ∀ row file, .marked row file ∈ s.log → row.fileSize = (file.map File.size).getD 0
  hash : ∀ row file, .marked row file ∈ s.log →
    row.md5Hash = if useMd5 && file.isSome then some (calculateMd5 md5 file) else none

variable {md5 useMd5} {s : State}

theorem reflects_new (files : FilePath → Option File) : Reflects md5 useMd5 { files } :=
  ⟨fun row => by simp [Kept, not_since_nil], by simp, by simp⟩

theorem Reflects.step (h : Reflects md5 useMd5 s) (a : Action) : Reflects md5 useMd5 (step md5 useMd5 s a) := by
  obtain ⟨rows, size, hash⟩ := h
  cases a with
  | markProcessed path outputPath status now stored =>
    cases stored with
    | false => exact ⟨rows, size, hash⟩
    | true =>
      refine ⟨fun row => ?_, fun row file mem => ?_, fun row file mem => ?_⟩
      · simp only [FileDeduplicator.step, if_true, insertOrReplace, List.mem_append, List.mem_filter, List.mem_singleton,
          decide_eq_true_eq, rows, kept_marked, exists_or, exists_and_left, exists_eq, and_true]
        rw [or_comm, and_comm]
      · rcases List.mem_append.mp mem with mem | mem
        · exact size row file mem
        · cases List.mem_singleton.mp mem
          rfl
      · rcases List.mem_append.mp mem with mem | mem
        · exact hash row file mem
        · cases List.mem_singleton.mp mem
          rfl
  | cleanupOldRecords cutoff =>
    refine ⟨fun row => ?_, fun row file mem => ?_, fun row file mem => ?_⟩
    · simp only [FileDeduplicator.step, List.mem_filter, rows, kept_cleaned, exists_and_left]
      simp [and_comm]
    · exact size row file (by simpa [FileDeduplicator.step] using mem)
    · exact hash row file (by simpa [FileDeduplicator.step] using mem)
  | rewrite path file => exact ⟨rows, size, hash⟩

theorem exists_latest {rows : List Row} : (∃ row, latest rows = some row) ↔ ∃ row, row ∈ rows := by
  rw [← Option.isSome_iff_exists, Option.isSome_iff_ne_none, latest, ne_eq, List.argmax_eq_none]
  constructor
  · exact List.exists_mem_of_ne_nil rows
  · rintro ⟨row, mem⟩
    exact List.ne_nil_of_mem mem

/-- A record is found exactly if a row has the name and the size of the file, or its hash. -/
theorem isDuplicate_iff {path : FilePath} {f : File} (there : s.files path = some f) :
    (∃ row, isDuplicate md5 useMd5 s path = .ok (some row)) ↔
      ∃ row ∈ s.rows, (row.filename = path.name ∧ row.fileSize = f.size) ∨
        useMd5 = true ∧ row.md5Hash = some (calculateMd5 md5 (some f)) := by
  have named : (∃ row, latest (s.rows.filter fun row => row.filename = path.name && row.fileSize = f.size) = some row) ↔
      ∃ row ∈ s.rows, row.filename = path.name ∧ row.fileSize = f.size := by
    simp [exists_latest]
  have hashed : (∃ row, latest (s.rows.filter fun row => row.md5Hash = some (calculateMd5 md5 (some f))) = some row) ↔
      ∃ row ∈ s.rows, row.md5Hash = some (calculateMd5 md5 (some f)) := by
    simp [exists_latest]
  simp only [and_or_left, exists_or, ← named, isDuplicate, there]
  cases found : latest (s.rows.filter fun row => row.filename = path.name && row.fileSize = f.size) with
  | some row => simp
  | none =>
    cases useMd5 with
    | false => simp
    | true => simp [hashed]

end table

section trust

/-- MD5 tells contents apart, and its hex text is not empty. -/
structure CollisionFree (md5 : List UInt8 → String) : Prop where
  injective : Function.Injective md5
  ne_empty : ∀ content, md5 content ≠ ""

/-- A file with the same content was marked as processed with success. -/
def Finished (log : List Event) (f : File) : Prop :=
  ∃ row g, .marked row (some g) ∈ log ∧ row.status = Status.success.text ∧ g.content = f.content

/-- The file was marked with success, and no records were cleaned up since. -/
def MarkedFinished (log : List Event) (path : FilePath) (f : File) : Prop :=
  ∃ row g, row.filename = path.name ∧ g.content = f.content ∧ row.status = Status.success.text ∧
    Since (fun _ e => e = .marked row (some g)) (fun e => ∀ cutoff, e ≠ .cleaned cutoff) log

/-- Only a file whose content was finished is a duplicate, and a finished file is one. -/
def OnlyFinished (md5 : List UInt8 → String) (s : State) (path : FilePath) (f : File) : Prop :=
  ((∃ row, isDuplicate md5 true s path = .ok (some row)) → Finished s.log f) ∧
    (MarkedFinished s.log path f → ∃ row, isDuplicate md5 true s path = .ok (some row))

variable {md5 : List UInt8 → String} {s : State} {path : FilePath} {f : File}

theorem calculateMd5_eq_iff (hash : CollisionFree md5) (g : File) :
    calculateMd5 md5 (some g) = calculateMd5 md5 (some f) ↔
      g.readable = f.readable ∧ (f.readable = true → g.content = f.content) := by
  have nonempty := hash.ne_empty
  cases hg : g.readable <;> cases hf : f.readable <;> simp [calculateMd5, hg, hf, nonempty, hash.injective.eq_iff]

theorem alike_iff (hash : CollisionFree md5) (reflects : Reflects md5 true s) {row : Row} {file : Option File}
    (kept : Kept s.log row file) :
    row.md5Hash = some (calculateMd5 md5 (some f)) ↔
      ∃ g, file = some g ∧ g.readable = f.readable ∧ (f.readable = true → g.content = f.content) := by
  rw [reflects.hash row file kept.mem]
  cases file with
  | none => simp
  | some g => simp [calculateMd5_eq_iff hash]

theorem found_of_markedFinished (reflects : Reflects md5 true s) (there : s.files path = some f)
    (finished : MarkedFinished s.log path f) : ∃ row, isDuplicate md5 true s path = .ok (some row) := by
  obtain ⟨row, g, name, content, -, since⟩ := finished
  have marked : .marked row (some g) ∈ s.log := by
    obtain ⟨before, _, after, split, rfl, -⟩ := since
    simp [split]
  have size : row.fileSize = f.size := by
    rw [reflects.size row (some g) marked]
    simp [File.size, content]
  obtain ⟨row', file', kept, key⟩ := exists_kept_key since
  obtain ⟨filename, fileSize⟩ := Prod.ext_iff.mp key
  exact (isDuplicate_iff there).mpr
    ⟨row', (reflects.rows row').mpr ⟨file', kept⟩, .inl ⟨filename.trans name, fileSize.trans size⟩⟩

theorem mem_of_isDuplicate {row : Row} (there : s.files path = some f)
    (found : isDuplicate md5 true s path = .ok (some row)) :
    row ∈ s.rows ∧
      ((row.filename = path.name ∧ row.fileSize = f.size) ∨ row.md5Hash = some (calculateMd5 md5 (some f))) := by
  simp only [isDuplicate, there, if_true] at found
  split at found
  · next old named =>
    cases found
    obtain ⟨mem, same⟩ := List.mem_filter.mp (List.argmax_mem named)
    exact ⟨mem, .inl (by simpa using same)⟩
  · obtain ⟨mem, same⟩ := List.mem_filter.mp (List.argmax_mem (Except.ok.inj found))
    exact ⟨mem, .inr (by simpa using same)⟩

theorem byteChar_injective : Function.Injective fun byte : UInt8 => Char.ofNat byte.toNat := by
  intro x y same
  have valid (byte : UInt8) : byte.toNat.isValidChar := .inl (by have := byte.toNat_lt; omega)
  have code (byte : UInt8) : (Char.ofNat byte.toNat).toNat = byte.toNat := by
    rw [Char.ofNat, dif_pos (valid byte)]
    rfl
  have codes := congrArg Char.toNat same
  dsimp only at codes
  rw [code, code] at codes
  exact UInt8.toNat_inj.mp codes

/-- A hash that appends the content to the text for an empty one. -/
def appendHash (empty : String) (content : List UInt8) : String :=
  empty ++ String.ofList (content.map fun byte => Char.ofNat byte.toNat)

theorem collisionFree_appendHash {empty : String} (ne_empty : empty ≠ "") : CollisionFree (appendHash empty) where
  injective a b h := by
    have texts := congrArg String.toList h
    rw [appendHash, appendHash, String.toList_append, String.toList_append, String.toList_ofList,
      String.toList_ofList] at texts
    exact List.map_injective_iff.mpr byteChar_injective (List.append_cancel_left texts)
  ne_empty content := by
    simp [appendHash, ne_empty]

/-- A hash that is MD5's on the empty content. -/
def sampleMd5 : List UInt8 → String := appendHash "d41d8cd98f00b204e9800998ecf8427e"

theorem collisionFree_sampleMd5 : CollisionFree sampleMd5 := collisionFree_appendHash (by decide)

def image : FilePath := ⟨"/watch", "a.vmdk"⟩

/-- An empty image arrives and is marked. -/
def marking (status : Status) : List Action :=
  [.rewrite image (some ⟨[], true⟩), .markProcessed image none status "2026-01-01T00:00:00" true]

theorem image_there (status : Status) :
    (run (step sampleMd5 true) { files := fun _ => none } (marking status)).files image = some ⟨[], true⟩ := by
  simp [marking, step]

end trust

end H2kvm.Daemon.FileDeduplicator
