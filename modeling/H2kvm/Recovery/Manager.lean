import Mathlib.Data.List.Lex
import Mathlib.Data.Char
import Mathlib.Data.List.Sort
import H2kvm.Framework.Data
import H2kvm.Framework.Lines

namespace H2kvm.Recovery

open Framework

section naming

abbrev Str := List Char

/-- The characters `_STAGE_SAFE_RE` leaves alone. -/
def isSafe (c : Char) : Bool := c.isAlphanum || c == '_' || c == '.' || c == '-'

/-- `_STAGE_SAFE_RE.sub("-", s)`: one dash for each run of other characters. -/
def subUnsafe (inRun : Bool) : Str → Str
  | [] => []
  | c :: cs =>
    if isSafe c then c :: subUnsafe false cs
    else if inRun then subUnsafe true cs
    else '-' :: subUnsafe true cs

def maxSafeStageNameLength : Nat := 120

/-- `stage.strip() or "unknown"`. -/
def stripStage (stage : Str) : Str := if Text.strip stage = [] then "unknown".toList else Text.strip stage

/-- `_safe_stage`. -/
def safeStage (stage : Str) : Str := (subUnsafe false (stripStage stage)).take maxSafeStageNameLength

/-- A reading of the local clock. -/
structure DateTime where
  year : Nat
  month : Nat
  day : Nat
  hour : Nat
  minute : Nat
  second : Nat
  bounds : year < 10000 ∧ month < 13 ∧ day < 32 ∧ hour < 24 ∧ minute < 60 ∧ second < 60
  deriving DecidableEq

def twoDigits (n : Nat) : Str := [Nat.digitChar (n / 10), Nat.digitChar (n % 10)]

/-- `U.now_ts`: the reading as `%Y%m%d-%H%M%S`. -/
def nowTs (now : DateTime) : Str :=
  twoDigits (now.year / 100) ++ twoDigits (now.year % 100) ++ twoDigits now.month ++ twoDigits now.day ++
    '-' :: twoDigits now.hour ++ twoDigits now.minute ++ twoDigits now.second

/-- A checkpoint of a run; a `scope` or `step` that is there is not empty. -/
structure Checkpoint where
  id : Str
  stage : Str
  timestamp : Str
  data : List (String × Json)
  step : Option Str := none
  scope : Option Str := none
  parentId : Option Str := none
  completed : Bool := false
  runId : Str
  resumable : Bool := true
  safeToResume : Bool := true
  sha256 : Option String := none
  bytesLen : Option Nat := none
  deriving DecidableEq

/-- `_checkpoint_id`. -/
def checkpointId (stage timestamp : Str) (scope step : Option Str) : Str :=
  Text.join ['_'] ((scope.map safeStage).toList ++ [safeStage stage, timestamp] ++ (step.map safeStage).toList)

def fileWord : Str := "checkpoint".toList

def fileSuffix : Str := ".json".toList

/-- `_checkpoint_path`: the file's name in the work directory. -/
def checkpointPath (cp : Checkpoint) : Str :=
  Text.join ['_'] ([fileWord, safeStage cp.runId] ++ (cp.scope.map safeStage).toList ++
    [safeStage cp.stage, cp.timestamp] ++ (cp.step.map safeStage).toList) ++ fileSuffix

/-- The scope and the stage as they stand before the timestamp. -/
def lead (cp : Checkpoint) : Str :=
  match cp.scope with
  | none => safeStage cp.stage
  | some scope => safeStage scope ++ '_' :: safeStage cp.stage

/-- The step as it stands after the timestamp. -/
def tail (cp : Checkpoint) : Str :=
  match cp.step with
  | none => []
  | some step => '_' :: safeStage step

/-- What the names of all checkpoint files of a run begin with. -/
def runHead (runId : Str) : Str := fileWord ++ '_' :: safeStage runId ++ ['_']

theorem checkpointPath_eq (cp : Checkpoint) :
    checkpointPath cp = runHead cp.runId ++ (lead cp ++ '_' :: cp.timestamp ++ tail cp) ++ fileSuffix := by
  cases hs : cp.scope <;> cases ht : cp.step <;>
    simp [checkpointPath, runHead, Text.join, List.intercalate, lead, tail, hs, ht]

theorem twoDigits_length (n : Nat) : (twoDigits n).length = 2 := rfl

theorem nowTs_length (now : DateTime) : (nowTs now).length = 15 := by
  simp [nowTs, twoDigits_length]

theorem digitChar_injective {m n : Nat} (hm : m < 10) (hn : n < 10) (same : Nat.digitChar m = Nat.digitChar n) : m = n := by
  have code := congrArg Char.toNat same
  rw [Nat.toNat_digitChar_of_lt_ten hm, Nat.toNat_digitChar_of_lt_ten hn] at code
  omega

theorem twoDigits_injective {m n : Nat} (hm : m < 100) (hn : n < 100) (same : twoDigits m = twoDigits n) : m = n := by
  simp only [twoDigits, List.cons.injEq, and_true] at same
  have tens := digitChar_injective (by omega) (by omega) same.1
  have ones := digitChar_injective (by omega) (by omega) same.2
  omega

theorem nowTs_injective : Function.Injective nowTs := by
  intro a b same
  obtain ⟨year, month, day, hour, minute, second⟩ := a.bounds
  obtain ⟨year', month', day', hour', minute', second'⟩ := b.bounds
  simp only [nowTs, List.append_assoc] at same
  obtain ⟨centuries, same⟩ := List.append_inj same rfl
  obtain ⟨years, same⟩ := List.append_inj same rfl
  obtain ⟨months, same⟩ := List.append_inj same rfl
  obtain ⟨days, same⟩ := List.append_inj same rfl
  obtain ⟨-, same⟩ := List.cons.inj same
  obtain ⟨hours, same⟩ := List.append_inj same rfl
  obtain ⟨minutes, seconds⟩ := List.append_inj same rfl
  have centuries := twoDigits_injective (by omega) (by omega) centuries
  have years := twoDigits_injective (by omega) (by omega) years
  have months := twoDigits_injective (by omega) (by omega) months
  have days := twoDigits_injective (by omega) (by omega) days
  have hours := twoDigits_injective (by omega) (by omega) hours
  have minutes := twoDigits_injective (by omega) (by omega) minutes
  have seconds := twoDigits_injective (by omega) (by omega) seconds
  have years : a.year = b.year := by omega
  cases a
  cases b
  simp_all

theorem underscore_ne_digitChar {n : Nat} (h : n < 10) : '_' ≠ Nat.digitChar n := by
  intro same
  have code := congrArg Char.toNat same
  rw [Nat.toNat_digitChar_of_lt_ten h] at code
  have : Char.toNat '_' = 95 := rfl
  omega

theorem underscore_not_mem_twoDigits {n : Nat} (h : n < 100) : '_' ∉ twoDigits n := by
  have tens : n / 10 < 10 := by omega
  have ones : n % 10 < 10 := by omega
  simp only [twoDigits, List.mem_cons, List.not_mem_nil, or_false, not_or]
  exact ⟨underscore_ne_digitChar tens, underscore_ne_digitChar ones⟩

theorem underscore_not_mem_nowTs (now : DateTime) : '_' ∉ nowTs now := by
  obtain ⟨year, month, day, hour, minute, second⟩ := now.bounds
  have century := underscore_not_mem_twoDigits (show now.year / 100 < 100 by omega)
  have years := underscore_not_mem_twoDigits (show now.year % 100 < 100 by omega)
  have months := underscore_not_mem_twoDigits (show now.month < 100 by omega)
  have days := underscore_not_mem_twoDigits (show now.day < 100 by omega)
  have hours := underscore_not_mem_twoDigits (show now.hour < 100 by omega)
  have minutes := underscore_not_mem_twoDigits (show now.minute < 100 by omega)
  have seconds := underscore_not_mem_twoDigits (show now.second < 100 by omega)
  simp [nowTs, century, years, months, days, hours, minutes, seconds]

theorem split_at_word_of_append {α : Type} {sep : α} {m t t' x x' : List α} (length : t.length = t'.length)
    (ht : sep ∉ t) (h : sep :: t ++ x = m ++ (sep :: t' ++ x')) :
    (m = [] ∧ t = t' ∧ x = x') ∨ ∃ b, m = sep :: t ++ b ∧ x = b ++ sep :: t' ++ x' := by
  cases m with
  | nil =>
    obtain ⟨-, rest⟩ := List.cons.inj h
    exact .inl ⟨rfl, List.append_inj rest length⟩
  | cons c m =>
    obtain ⟨rfl, rest⟩ := List.cons.inj h
    rcases List.append_eq_append_iff.mp rest with ⟨b, rfl, hx⟩ | ⟨b, rfl, hb⟩
    · exact .inr ⟨b, by simp, by simpa using hx⟩
    · -- the separator of the other text would stand inside `t`, unless `t` ends there
      cases b with
      | nil => exact .inr ⟨[], by simp, by simpa using hb.symm⟩
      | cons d b =>
        obtain ⟨rfl, -⟩ := List.cons.inj hb
        simp at ht

theorem split_at_word {α : Type} {sep : α} {a a' t t' x x' : List α} (length : t.length = t'.length)
    (ht : sep ∉ t) (ht' : sep ∉ t') :
    a ++ sep :: t ++ x = a' ++ sep :: t' ++ x' ↔
      (a = a' ∧ t = t' ∧ x = x') ∨
      (∃ b, a' = a ++ sep :: t ++ b ∧ x = b ++ sep :: t' ++ x') ∨
      (∃ b, a = a' ++ sep :: t' ++ b ∧ x' = b ++ sep :: t ++ x) := by
  constructor
  · intro h
    rw [List.append_assoc, List.append_assoc] at h
    rcases List.append_eq_append_iff.mp h with ⟨m, rfl, rest⟩ | ⟨m, rfl, rest⟩
    · rcases split_at_word_of_append length ht rest with ⟨rfl, ht, hx⟩ | ⟨b, rfl, hx⟩
      · exact .inl ⟨by simp, ht, hx⟩
      · exact .inr (.inl ⟨b, by simp, hx⟩)
    · rcases split_at_word_of_append length.symm ht' rest with ⟨rfl, ht, hx⟩ | ⟨b, rfl, hx⟩
      · exact .inl ⟨by simp, ht.symm, hx.symm⟩
      · exact .inr (.inr ⟨b, by simp, hx⟩)
  · intro h
    rcases h with ⟨rfl, rfl, rfl⟩ | ⟨b, rfl, rfl⟩ | ⟨b, rfl, rfl⟩
    · rfl
    · simp
    · simp

/-- The timestamp of `c` stands in the scope and stage of `d`, and that of `d` in the step of `c`. -/
def Shifted (c d : Checkpoint) : Prop :=
  ∃ between, lead d = lead c ++ '_' :: c.timestamp ++ between ∧
    tail c = between ++ '_' :: d.timestamp ++ tail d

/-- Two checkpoints have the same scope and stage, timestamp and step once these are made
safe, or one's timestamp hides in a name of the other and the other's in its step. -/
def Clash (c d : Checkpoint) : Prop :=
  (lead c = lead d ∧ c.timestamp = d.timestamp ∧ tail c = tail d) ∨ Shifted c d ∨ Shifted d c

theorem checkpointPath_eq_iff {c d : Checkpoint} (now now' : DateTime) (hc : c.timestamp = nowTs now)
    (hd : d.timestamp = nowTs now') (run : c.runId = d.runId) : checkpointPath c = checkpointPath d ↔ Clash c d := by
  have length : c.timestamp.length = d.timestamp.length := by rw [hc, hd, nowTs_length, nowTs_length]
  have free : '_' ∉ c.timestamp := hc ▸ underscore_not_mem_nowTs now
  have free' : '_' ∉ d.timestamp := hd ▸ underscore_not_mem_nowTs now'
  rw [checkpointPath_eq, checkpointPath_eq, run, List.append_left_inj, List.append_right_inj]
  exact split_at_word length free free'

end naming

section manager

/-- What a stage declares about resuming it. -/
structure StageDef where
  name : Str
  resumable : Bool := true
  safeToResume : Bool := true
  deriving DecidableEq

/-- The settings of a manager. An empty `stageOrder` stands for none; `canonicalJson` and `sha`
are `json.dumps` with sorted keys and SHA-256. -/
structure Settings where
  workdir : String
  runId : Str
  stageOrder : List Str
  stageDefs : List StageDef
  canonicalJson : Checkpoint → String
  sha : String → String

/-- The content of `latest_completed.json`. -/
structure Pointer where
  runId : Str
  id : Str
  stage : Str
  scope : Option Str
  step : Option Str
  timestamp : Str
  path : Str
  deriving DecidableEq

/-- The checkpoints a manager holds, the newest first, and the files of its work directory. -/
structure Store where
  memory : List Checkpoint := []
  files : Dict Str Checkpoint := ∅
  pointer : Option Pointer := none

structure SaveCall where
  stage : Str
  data : List (String × Json)
  scope : Option Str := none
  step : Option Str := none
  parentId : Option Str := none
  resumable : Option Bool := none
  safeToResume : Option Bool := none
  now : DateTime
  write : Except PyException Unit := .ok ()

structure MarkCall where
  stage : Str
  scope : Option Str := none
  step : Option Str := none
  write : Except PyException Unit := .ok ()
  pointerWritten : Bool := true

structure Request where
  stage : Str
  scope : Option Str := none
  step : Option Str := none
  allowSameStage : Bool := false
  allowLaterStage : Bool := false
  deriving DecidableEq

structure RecoveryDecision where
  checkpointId : Str
  checkpointPath : Str
  resumeStage : Str
  resumeStep : Option Str
  resumeScope : Option Str
  reason : String
  deriving DecidableEq

/-- `None if not s else s`. -/
def orNone (s : Option Str) : Option Str := s.filter (· ≠ [])

/-- `(s or "").strip() or None`. -/
def stripOrNone (s : Option Str) : Option Str := orNone (s.map Text.strip)

namespace Settings

variable (st : Settings)

/-- The text the integrity hash is taken of. -/
def canonical (cp : Checkpoint) : String := st.canonicalJson { cp with sha256 := none, bytesLen := none }

def finalizeIntegrity (cp : Checkpoint) : Checkpoint :=
  { cp with sha256 := some (st.sha (st.canonical cp)), bytesLen := some (st.canonical cp).utf8ByteSize }

/-- A checkpoint without a hash or a length is accepted. -/
def validateIntegrity (cp : Checkpoint) : Bool :=
  match cp.sha256, cp.bytesLen with
  | some sha256, some bytesLen =>
    sha256 = "" || bytesLen = 0 ||
      (bytesLen = (st.canonical cp).utf8ByteSize && sha256 = st.sha (st.canonical cp))
  | _, _ => true

/-- `_stage_def`. Of two definitions for one name the later counts. -/
def stageDef (stage : Str) : Option StageDef :=
  st.stageDefs.reverse.find? fun sd => safeStage sd.name = safeStage stage

/-- `_rank`. -/
def rank (stage : Str) : Option Nat :=
  (st.stageOrder.zipIdx.reverse.find? fun s => safeStage s.1 = safeStage stage).map Prod.snd

/-- The checkpoint `save_checkpoint` makes. -/
def newCheckpoint (c : SaveCall) : Checkpoint :=
  let stage := stripStage c.stage
  let timestamp := nowTs c.now
  let scope := orNone c.scope
  let step := orNone c.step
  let declared := st.stageDef stage
  st.finalizeIntegrity
    { id := checkpointId stage timestamp scope step
      stage, timestamp, data := c.data, scope, step
      parentId := orNone c.parentId
      runId := st.runId
      resumable := c.resumable.getD ((declared.map StageDef.resumable).getD true)
      safeToResume := c.safeToResume.getD ((declared.map StageDef.safeToResume).getD true) }

def fileText (path : Str) : String := st.workdir ++ "/" ++ String.ofList path

/-- `save_checkpoint`. The manager keeps the checkpoint also when its file cannot be written. -/
def saveCheckpoint (s : Store) (c : SaveCall) : Except PyException Checkpoint × Store :=
  let cp := st.newCheckpoint c
  let path := checkpointPath cp
  let s := { s with memory := cp :: s.memory }
  match c.write with
  | .error e =>
    if e.isFatal then (.error e, s)
    else (.error ⟨"RecoveryError", "Failed to write checkpoint: " ++ st.fileText path ++ " (" ++ e.message ++ ")",
      false⟩, s)
  | .ok () => (.ok cp, { s with files := s.files.insert path cp })

/-- The names the pattern `checkpoint_<run>_*.json` matches. -/
def inGlob (name : Str) : Bool :=
  (runHead st.runId).isPrefixOf name && fileSuffix.isSuffixOf (name.drop (runHead st.runId).length)

/-- `ok_name`, which looks for the parts anywhere in the name. -/
def okName (stage scope step : Option Str) (name : Str) : Bool :=
  let inside (word : Str) : Bool := decide (word <:+: name)
  ((orNone stage).all fun s => inside ('_' :: safeStage s ++ ['_'])) &&
    ((orNone scope).all fun s => inside ('_' :: safeStage s ++ ['_'])) &&
    ((orNone step).all fun s => inside ('_' :: safeStage s ++ fileSuffix) || inside ('_' :: safeStage s ++ ['_']))

/-- `_find_checkpoint_files`. -/
def findCheckpointFiles (s : Store) (stage scope step : Option Str) : List Str :=
  ((s.files.keys.filter st.inGlob).insertionSort (· ≤ ·)).filter (okName stage scope step)

/-- `_write_latest_completed`; a pointer that cannot be written is left as it is. -/
def writeLatestCompleted (s : Store) (cp : Checkpoint) (path : Str) (written : Bool) : Store :=
  if written then
    { s with pointer := some ⟨st.runId, cp.id, cp.stage, cp.scope, cp.step, cp.timestamp, path⟩ }
  else s

/-- Sets `completed` on the first checkpoint of the list that `p` holds of. -/
def completeFirst (p : Checkpoint → Bool) : List Checkpoint → Option (Checkpoint × List Checkpoint)
  | [] => none
  | cp :: cps =>
    if p cp then some ({ cp with completed := true }, { cp with completed := true } :: cps)
    else (completeFirst p cps).map fun (found, rest) => (found, cp :: rest)

/-- The part of `mark_checkpoint_complete` that completes a checkpoint found by its file. -/
def completeByFile (s : Store) (c : MarkCall) (path : Str) : Except PyException (Option Checkpoint) × Store :=
  match s.files.lookup path with
  | none => (.ok none, s)
  | some cp =>
    if cp.runId ≠ st.runId then (.ok none, s)
    else if cp.completed then (.ok (some cp), st.writeLatestCompleted s cp path c.pointerWritten)
    else
      let cp := st.finalizeIntegrity { cp with completed := true }
      match c.write with
      | .error e => (if e.isFatal then .error e else .ok none, s)
      | .ok () =>
        let s := { s with files := s.files.insert path cp }
        (.ok (some cp), st.writeLatestCompleted s cp path c.pointerWritten)

/-- `mark_checkpoint_complete`. -/
def markCheckpointComplete (s : Store) (c : MarkCall) : Except PyException (Option Checkpoint) × Store :=
  let stage := Text.strip c.stage
  let scope := stripOrNone c.scope
  let step := stripOrNone c.step
  let wanted (cp : Checkpoint) : Bool :=
    cp.runId = st.runId && cp.stage = stage && (scope.isNone || cp.scope = scope) &&
      (step.isNone || cp.step = step) && !cp.completed
  match completeFirst wanted s.memory with
  | some (cp, memory) =>
    let path := checkpointPath cp
    let s := { s with memory }
    if path ∈ s.files then
      let cp := st.finalizeIntegrity cp
      match c.write with
      | .error e =>
        if e.isFatal then (.error e, s)
        else (.error ⟨"RecoveryError", "Failed to mark checkpoint complete (write): " ++ st.fileText path ++ " (" ++
          e.message ++ ")", false⟩, s)
      | .ok () =>
        let s := { s with files := s.files.insert path cp }
        (.ok (some cp), st.writeLatestCompleted s cp path c.pointerWritten)
    else (.ok (some cp), st.writeLatestCompleted s cp path c.pointerWritten)
  | none =>
    match (st.findCheckpointFiles s (some stage) scope step).getLast? with
    | none => (.ok none, s)
    | some path => st.completeByFile s c path

/-- `_load_all_checkpoint_files`: the readable checkpoints of this run, sorted by file name. -/
def loadAllCheckpointFiles (s : Store) : List (Str × Checkpoint) :=
  (st.findCheckpointFiles s none none none).filterMap fun path =>
    (s.files.lookup path).bind fun cp =>
      if cp.runId = st.runId ∧ st.validateIntegrity cp then some (path, cp) else none

/-- The filters of `latest_checkpoint`. -/
def matchesFilters (stage scope step : Option Str) (cp : Checkpoint) : Bool :=
  (stage.all (cp.stage = ·)) && (scope.all (cp.scope = some ·)) && (step.all (cp.step = some ·))

/-- `latest_checkpoint`. -/
def latestCheckpoint (s : Store) (stage scope step : Option Str) (completedOnly : Bool) : Option Checkpoint :=
  let wanted (cp : Checkpoint) : Bool := (!completedOnly || cp.completed) && matchesFilters stage scope step cp
  ((st.loadAllCheckpointFiles s).reverse.find? fun f => wanted f.2).map Prod.snd

/-- `_eligible_for_recovery`. -/
def eligibleForRecovery (cp : Checkpoint) (requestedStage : Str) (allowLaterStage : Bool) : Bool :=
  let declared := (st.stageDef cp.stage).all fun sd => sd.resumable && sd.safeToResume
  let later :=
    match st.rank requestedStage, st.rank cp.stage with
    | some requested, some rank => decide (requested < rank)
    | _, _ => false
  cp.resumable && cp.safeToResume && declared && !(!st.stageOrder.isEmpty && !allowLaterStage && later)

/-- `_read_latest_completed_pointer`. -/
def readLatestCompletedPointer (s : Store) : Option (Str × Checkpoint) := do
  let pointer ← s.pointer
  guard (pointer.runId = st.runId)
  let path := Text.strip pointer.path
  guard (path ≠ [])
  let cp ← s.files.lookup path
  guard (cp.runId = st.runId ∧ cp.completed ∧ st.validateIntegrity cp)
  return (path, cp)

/-- The rules of `describe_recovery` for the checkpoint the pointer names. -/
def pointerAccepts (r : Request) (cp : Checkpoint) : Bool :=
  let stage := Text.strip r.stage
  !(!r.allowSameStage && safeStage cp.stage = safeStage stage) &&
    st.eligibleForRecovery cp stage r.allowLaterStage

/-- The rules of the loop of `describe_recovery`. -/
def scanAccepts (r : Request) (cp : Checkpoint) : Bool :=
  let stage := Text.strip r.stage
  let scope := stripOrNone r.scope
  let step := stripOrNone r.step
  let outOfOrder :=
    match st.rank stage, st.rank cp.stage with
    | none, _ => false
    | some _, none => !r.allowLaterStage
    | some requested, some rank => decide (requested < rank) && !r.allowLaterStage
  cp.completed && (scope.isNone || cp.scope = scope) && (step.isNone || cp.step = step) &&
    !(!r.allowSameStage && safeStage cp.stage = safeStage stage) && !outOfOrder &&
    st.eligibleForRecovery cp stage r.allowLaterStage

def decision (f : Str × Checkpoint) (reason : String) : RecoveryDecision :=
  { checkpointId := f.2.id, checkpointPath := f.1, resumeStage := f.2.stage, resumeStep := f.2.step
    resumeScope := f.2.scope, reason }

/-- `describe_recovery` without the pointer. -/
def scanRecovery (s : Store) (r : Request) : Option RecoveryDecision :=
  ((st.loadAllCheckpointFiles s).reverse.find? fun f => st.scanAccepts r f.2).map fun f =>
    decision f "newest eligible completed checkpoint"

/-- `describe_recovery`. -/
def describeRecovery (s : Store) (r : Request) (preferPointer : Bool) : Option RecoveryDecision :=
  let fast :=
    if preferPointer ∧ stripOrNone r.scope = none ∧ stripOrNone r.step = none then
      (st.readLatestCompletedPointer s).filter fun f => st.pointerAccepts r f.2
    else none
  match fast with
  | some f => some (decision f "latest_completed pointer")
  | none => st.scanRecovery s r

end Settings

end manager

end H2kvm.Recovery
