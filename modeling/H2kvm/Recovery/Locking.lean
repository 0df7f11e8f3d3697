import H2kvm.Framework.Run
import H2kvm.Recovery.Manager

namespace H2kvm.Recovery

open Framework

theorem inGlob_checkpointPath (st : Settings) {cp : Checkpoint} (run : cp.runId = st.runId) :
    st.inGlob (checkpointPath cp) = true := by
  rw [checkpointPath_eq, run, Settings.inGlob, List.append_assoc]
  have suffix : fileSuffix <:+ (lead cp ++ '_' :: cp.timestamp ++ tail cp) ++ fileSuffix := List.suffix_append ..
  simpa using suffix

theorem validateIntegrity_finalizeIntegrity (st : Settings) (cp : Checkpoint) :
    st.validateIntegrity (st.finalizeIntegrity cp) = true := by
  show (_ || (decide ((st.canonical cp).utf8ByteSize = (st.canonical cp).utf8ByteSize) &&
    decide (st.sha (st.canonical cp) = st.sha (st.canonical cp)))) = true
  simp

theorem mem_findCheckpointFiles {st : Settings} {s : Store} {path : Str} :
    path ∈ st.findCheckpointFiles s none none none ↔ path ∈ s.files ∧ st.inGlob path := by
  have all : Settings.okName none none none path = true := rfl
  rw [Settings.findCheckpointFiles, List.mem_filter, (List.perm_insertionSort _ _).mem_iff, List.mem_filter]
  simp [all, AList.mem_keys]

/-- The loader returns the files of the run that pass the integrity check. -/
theorem mem_loadAllCheckpointFiles {st : Settings} {s : Store} {path : Str} {cp : Checkpoint} :
    (path, cp) ∈ st.loadAllCheckpointFiles s ↔
      s.files.lookup path = some cp ∧ st.inGlob path ∧ cp.runId = st.runId ∧ st.validateIntegrity cp := by
  simp only [Settings.loadAllCheckpointFiles, List.mem_filterMap, mem_findCheckpointFiles, Option.bind_eq_some_iff]
  constructor
  · intro h
    obtain ⟨name, ⟨-, glob⟩, cp', found, kept⟩ := h
    split at kept
    · rename_i ok
      obtain ⟨rfl, rfl⟩ := Prod.mk.inj (Option.some.inj kept)
      exact ⟨found, glob, ok.1, ok.2⟩
    · cases kept
  · intro h
    obtain ⟨found, glob, run, valid⟩ := h
    refine ⟨path, ⟨?_, glob⟩, cp, found, if_pos ⟨run, valid⟩⟩
    exact AList.lookup_isSome.mp (by rw [found]; rfl)

namespace Settings

variable (st : Settings)

/-- A call of `save_checkpoint`, with the checkpoints the calls so far returned. -/
def saveStep (s : Store × List Checkpoint) (c : SaveCall) : Store × List Checkpoint :=
  match st.saveCheckpoint s.1 c with
  | (.ok cp, store) => (store, s.2 ++ [cp])
  | (.error _, store) => (store, s.2)

/-- The calls went to different files, and each returned checkpoint is loaded back as it was. -/
def NothingOverwritten (s : Store × List Checkpoint) : Prop :=
  (s.2.map checkpointPath).Nodup ∧ ∀ cp ∈ s.2, (checkpointPath cp, cp) ∈ st.loadAllCheckpointFiles s.1

/-- What the calls return, those that raise left out. -/
def returned (calls : List SaveCall) : List Checkpoint :=
  (calls.filter fun c => c.write.isOk).map st.newCheckpoint

variable {st}

theorem saveStep_ok (st : Settings) (s : Store × List Checkpoint) {c : SaveCall} (ok : c.write.isOk = true) :
    (st.saveStep s c).1.files = s.1.files.insert (checkpointPath (st.newCheckpoint c)) (st.newCheckpoint c) ∧
      (st.saveStep s c).2 = s.2 ++ [st.newCheckpoint c] := by
  cases hw : c.write with
  | error e => simp [hw, Except.isOk, Except.toBool] at ok
  | ok u => simp [saveStep, saveCheckpoint, hw]

theorem saveStep_error (st : Settings) (s : Store × List Checkpoint) {c : SaveCall} (failed : c.write.isOk = false) :
    (st.saveStep s c).1.files = s.1.files ∧ (st.saveStep s c).2 = s.2 := by
  cases hw : c.write with
  | error e =>
    simp only [saveStep, saveCheckpoint, hw]
    cases e.isFatal <;> exact ⟨rfl, rfl⟩
  | ok u => simp [hw, Except.isOk, Except.toBool] at failed

theorem run_saveStep_returned (s : Store × List Checkpoint) (calls : List SaveCall) :
    (run st.saveStep s calls).2 = s.2 ++ st.returned calls := by
  induction calls generalizing s with
  | nil => simp [returned]
  | cons c calls ih =>
    rw [run_cons, ih]
    cases ok : c.write.isOk with
    | true => simp [(saveStep_ok st s ok).2, returned, ok]
    | false => simp [(saveStep_error st s ok).2, returned, ok]

theorem run_saveStep_lookup (s : Store × List Checkpoint) (calls : List SaveCall) {path : Str}
    (apart : path ∉ (st.returned calls).map checkpointPath) :
    (run st.saveStep s calls).1.files.lookup path = s.1.files.lookup path := by
  induction calls generalizing s with
  | nil => rfl
  | cons c calls ih =>
    rw [run_cons]
    cases ok : c.write.isOk with
    | true =>
      have split : path ≠ checkpointPath (st.newCheckpoint c) ∧ path ∉ (st.returned calls).map checkpointPath := by
        simpa [returned, ok] using apart
      rw [ih _ split.2, (saveStep_ok st s ok).1, AList.lookup_insert_ne split.1]
    | false =>
      have later : path ∉ (st.returned calls).map checkpointPath := by simpa [returned, ok] using apart
      rw [ih _ later, (saveStep_error st s ok).1]

theorem run_saveStep_stored (s : Store × List Checkpoint) (calls : List SaveCall)
    (nodup : ((st.returned calls).map checkpointPath).Nodup) {cp : Checkpoint} (h : cp ∈ st.returned calls) :
    (run st.saveStep s calls).1.files.lookup (checkpointPath cp) = some cp := by
  induction calls generalizing s with
  | nil => simp [returned] at h
  | cons c calls ih =>
    rw [run_cons]
    cases ok : c.write.isOk with
    | true =>
      have split : checkpointPath (st.newCheckpoint c) ∉ (st.returned calls).map checkpointPath ∧
          ((st.returned calls).map checkpointPath).Nodup := by simpa [returned, ok] using nodup
      have cases : cp = st.newCheckpoint c ∨ cp ∈ st.returned calls := by simpa [returned, ok] using h
      rcases cases with rfl | later
      · rw [run_saveStep_lookup _ calls split.1, (saveStep_ok st s ok).1, AList.lookup_insert]
      · exact ih _ split.2 later
    | false =>
      have same : st.returned (c :: calls) = st.returned calls := by simp [returned, ok]
      rw [same] at nodup h
      exact ih _ nodup h

/-- Calls of `save_checkpoint` keep apart exactly when no two of them clash. -/
theorem nothing_overwritten_iff (st : Settings) (s : Store) (calls : List SaveCall) :
    st.NothingOverwritten (run st.saveStep (s, []) calls) ↔
      (st.returned calls).Pairwise fun c d => ¬ Clash c d := by
  have made : ∀ cp ∈ st.returned calls, ∃ c, cp = st.newCheckpoint c := by
    intro cp h
    obtain ⟨c, -, rfl⟩ := List.mem_map.mp h
    exact ⟨c, rfl⟩
  have apart : ((st.returned calls).map checkpointPath).Nodup ↔ (st.returned calls).Pairwise fun c d => ¬ Clash c d := by
    rw [List.Nodup, List.pairwise_map]
    apply List.Pairwise.iff_of_mem
    intro c d hc hd
    obtain ⟨c, rfl⟩ := made c hc
    obtain ⟨d, rfl⟩ := made d hd
    exact not_congr (checkpointPath_eq_iff c.now d.now rfl rfl rfl)
  rw [NothingOverwritten, run_saveStep_returned, List.nil_append, ← apart]
  refine ⟨And.left, fun nodup => ⟨nodup, fun cp h => ?_⟩⟩
  obtain ⟨c, rfl⟩ := made cp h
  rw [mem_loadAllCheckpointFiles]
  exact ⟨run_saveStep_stored _ calls nodup h, inGlob_checkpointPath st rfl, rfl,
    validateIntegrity_finalizeIntegrity st _⟩

/-- A run without stage order or stage definitions. -/
def plainRun : Settings where
  workdir := "/var/lib/h2kvm/work"
  runId := "r1".toList
  stageOrder := []
  stageDefs := []
  canonicalJson _ := "\x7b\x7d"
  sha _ := "44136fa3"

theorem newYear_valid : 2026 < 10000 ∧ 1 < 13 ∧ 1 < 32 ∧ 0 < 24 ∧ 0 < 60 ∧ 0 < 60 := by decide

def newYear : DateTime := ⟨2026, 1, 1, 0, 0, 0, newYear_valid⟩

/-- The progress of one stage, saved twice within a second. -/
def savedTwice : List SaveCall :=
  [{ stage := "convert".toList, data := [("percent", .int 10)], now := newYear },
   { stage := "convert".toList, data := [("percent", .int 20)], now := newYear }]

/-- The second checkpoint of a second takes the place of the first. -/
theorem savedTwice_overwrites : ¬ plainRun.NothingOverwritten (run plainRun.saveStep ({}, []) savedTwice) := by
  intro h
  have nodup := h.1
  rw [run_saveStep_returned] at nodup
  simp [returned, savedTwice, Except.isOk, Except.toBool] at nodup
  exact nodup rfl

end Settings

end H2kvm.Recovery

namespace H2kvm.Recovery.Locking

open Framework

/-- The content of `run.json`. -/
structure RunManifest where
  runId : Str
  createdTs : Str
  host : String
  pid : Nat
  toolVersion : Option String := none
  argsHash : Option String := none
  inputId : Option String := none
  status : String := "running"
  endedTs : Option Str := none
  error : Option String := none
  deriving DecidableEq

/-- The content of `.lock`. -/
structure LockInfo where
  pid : Nat
  runId : Str
  ts : Str
  deriving DecidableEq

/-- A work directory; its `.lock` may be locked by another manager. -/
structure Workdir where
  path : String
  files : Dict String String := ∅
  held : Bool := false

/-- What the constructor is called with. -/
structure Arguments where
  enableLock : Bool := true
  runId : Option Str := none
  toolVersion : Option String := none
  argsHash : Option String := none
  inputId : Option String := none

/-- Where the file of the lock fails, with what is raised. -/
inductive LockFault where
  | openFails (error : String)
  | truncateFails (error : String)
  /-- So many characters of the text get into the file. -/
  | writeFails (written : Nat) (error : String)

/-- What the constructor meets. -/
structure Environment where
  hasFcntl : Bool := true
  host : String
  pid : Nat
  /-- The clock when the run id, the manifest and the lock are made. -/
  runClock : DateTime
  createdClock : DateTime
  lockClock : DateTime
  ensureDirError : Option String := none
  manifestError : Option String := none
  lockFault : Option LockFault := none
  /-- An error of `flock` besides that the lock is held. -/
  flockError : Option String := none
  manifestJson : RunManifest → String
  lockJson : LockInfo → String

inductive Raised where
  | recoveryError (code : Nat) (message : String)
  | other (message : String)
  deriving DecidableEq

namespace ExitCode

def lockFailed : Nat := 40

end ExitCode

variable (args : Arguments) (env : Environment)

def runId : Str :=
  let given := Text.strip (args.runId.getD [])
  if given = [] then nowTs env.runClock else given

def manifest : RunManifest where
  runId := runId args env
  createdTs := nowTs env.createdClock
  host := env.host
  pid := env.pid
  toolVersion := args.toolVersion
  argsHash := args.argsHash
  inputId := args.inputId

def manifestText : String := env.manifestJson (manifest args env)

def lockText : String := env.lockJson { pid := env.pid, runId := runId args env, ts := nowTs env.lockClock }

/-- `_write_manifest`; a manifest that is not written leaves the old one. -/
def writeManifest (dir : Workdir) : Except Raised Unit × Workdir :=
  match env.manifestError with
  | some error => (.error (.other error), dir)
  | none => (.ok (), { dir with files := dir.files.insert "run.json" (manifestText args env) })

/-- The steps of `_acquire_lock`, with what is raised. -/
def lockFile (dir : Workdir) : Except String Unit × Workdir :=
  -- `open("a+")` makes a file that is not there, which nobody has locked.
  let held := dir.held && dir.files.lookup ".lock" != none
  match env.lockFault with
  | some (.openFails error) => (.error error, dir)
  | some (.truncateFails error) =>
    (.error error, { dir with files := dir.files.insert ".lock" ((dir.files.lookup ".lock").getD "") })
  | some (.writeFails written error) =>
    (.error error, { dir with files := dir.files.insert ".lock" (String.ofList ((lockText args env).toList.take written)) })
  | none =>
    let dir := { dir with files := dir.files.insert ".lock" (lockText args env) }
    if held then (.error "[Errno 11] Resource temporarily unavailable", dir)
    else
      match env.flockError with
      | some error => (.error error, dir)
      | none => (.ok (), dir)

/-- `_acquire_lock`. -/
def acquireLock (dir : Workdir) : Except Raised Unit × Workdir :=
  match lockFile args env dir with
  | (.ok (), dir) => (.ok (), dir)
  | (.error error, dir) =>
    let p := dir.path ++ "/.lock"
    (.error (.recoveryError ExitCode.lockFailed ("Failed to acquire workdir lock: " ++ p ++ " (" ++ error ++ ")\n" ++
      "    Another h2kvm process may be running in this directory.\n" ++
      "    If no other process is active, remove the stale lock: rm -f " ++ p)), dir)

/-- The constructor of `RecoveryManager`, for what it does to its work directory. -/
def init (dir : Workdir) : Except Raised Unit × Workdir :=
  match env.ensureDirError with
  | some error => (.error (.other error), dir)
  | none =>
    match writeManifest args env dir with
    | (.error e, dir) => (.error e, dir)
    | (.ok (), dir) => if args.enableLock && env.hasFcntl then acquireLock args env dir else (.ok (), dir)

/-- Every file of the directory is as it was. -/
def Untouched (dir dir' : Workdir) : Prop := ∀ name, dir'.files.lookup name = dir.files.lookup name

/-- What the constructor writes until the lock fails is what the files have in them already. -/
def WritesNothingNew (dir : Workdir) : Prop :=
  dir.files.lookup "run.json" = some (manifestText args env) ∧
    match env.lockFault with
    | some (.openFails _) => True
    | some (.truncateFails _) => ∃ text, dir.files.lookup ".lock" = some text
    | some (.writeFails written _) =>
      dir.files.lookup ".lock" = some (String.ofList ((lockText args env).toList.take written))
    | none => dir.files.lookup ".lock" = some (lockText args env)

section failing

variable {args : Arguments} {env : Environment} {dir : Workdir}

theorem untouched_insert_iff {name text : String} {dir' : Workdir} (files : dir'.files = dir.files.insert name text) :
    Untouched dir dir' ↔ dir.files.lookup name = some text := by
  constructor
  · intro same
    rw [← same name, files, AList.lookup_insert]
  · intro there other
    by_cases equal : other = name
    · rw [files, equal, AList.lookup_insert, there]
    · rw [files, AList.lookup_insert_ne equal]

theorem untouched_insert₂_iff {name name' text text' : String} (different : name ≠ name') {dir' : Workdir}
    (files : dir'.files = (dir.files.insert name text).insert name' text') :
    Untouched dir dir' ↔ dir.files.lookup name = some text ∧ dir.files.lookup name' = some text' := by
  constructor
  · intro same
    constructor
    · rw [← same name, files, AList.lookup_insert_ne different, AList.lookup_insert]
    · rw [← same name', files, AList.lookup_insert]
  · intro ⟨there, there'⟩ other
    rw [files]
    by_cases equal' : other = name'
    · rw [equal', AList.lookup_insert, there']
    · rw [AList.lookup_insert_ne equal']
      by_cases equal : other = name
      · rw [equal, AList.lookup_insert, there]
      · rw [AList.lookup_insert_ne equal]

theorem init_of_lockFailed {message : String}
    (fails : (init args env dir).1 = .error (.recoveryError ExitCode.lockFailed message)) :
    (init args env dir).2 =
      (lockFile args env { dir with files := dir.files.insert "run.json" (manifestText args env) }).2 := by
  rw [init] at fails ⊢
  cases ensured : env.ensureDirError with
  | some error =>
    rw [ensured] at fails
    cases fails
  | none =>
    rw [ensured] at fails
    rw [writeManifest] at fails ⊢
    cases written : env.manifestError with
    | some error =>
      rw [written] at fails
      cases fails
    | none =>
      rw [written] at fails
      dsimp only at fails ⊢
      split at fails
      · next enabled =>
        rw [if_pos enabled, acquireLock]
        rcases lockFile args env _ with ⟨_ | _, _⟩ <;> rfl
      · cases fails

theorem lockFile_files (args : Arguments) (env : Environment) (dir : Workdir) : (lockFile args env dir).2.files =
    match env.lockFault with
    | some (.openFails _) => dir.files
    | some (.truncateFails _) => dir.files.insert ".lock" ((dir.files.lookup ".lock").getD "")
    | some (.writeFails written _) => dir.files.insert ".lock" (String.ofList ((lockText args env).toList.take written))
    | none => dir.files.insert ".lock" (lockText args env) := by
  rw [lockFile]
  rcases env.lockFault with _ | _ | _ | _
  · dsimp only
    split
    · rfl
    · cases env.flockError <;> rfl
  all_goals rfl

/-- A constructor that fails to lock the work directory leaves its files as they were just if what it wrote by then was in
them already. -/
theorem init_untouched_iff (args : Arguments) (env : Environment) (dir : Workdir) (message : String)
    (fails : (init args env dir).1 = .error (.recoveryError ExitCode.lockFailed message)) :
    Untouched dir (init args env dir).2 ↔ WritesNothingNew args env dir := by
  have files := lockFile_files args env { dir with files := dir.files.insert "run.json" (manifestText args env) }
  rw [← init_of_lockFailed fails] at files
  have different : "run.json" ≠ ".lock" := by decide
  rw [WritesNothingNew]
  rcases fault : env.lockFault with _ | error | error | ⟨written, error⟩ <;> rw [fault] at files
  · exact untouched_insert₂_iff different files
  · rw [and_true]
    exact untouched_insert_iff files
  · rw [untouched_insert₂_iff different files, AList.lookup_insert_ne different.symm]
    refine and_congr_right fun _ => ?_
    cases dir.files.lookup ".lock" <;> simp
  · exact untouched_insert₂_iff different files

end failing

/-- `json.dumps` with an indent of a flat record, whose texts need no escapes. -/
def jsonText (fields : List (String × String)) : String :=
  "\x7b\n" ++ String.intercalate ",\n" (fields.map fun f => "  \"" ++ f.1 ++ "\": " ++ f.2) ++ "\n\x7d"

def quoted (text : String) : String := "\"" ++ text ++ "\""

def orNull (text : Option String) : String := (text.map quoted).getD "null"

/-- A second manager in the directory of one that is alive. -/
def second : Environment where
  host := "h"
  pid := 2
  runClock := Settings.newYear
  createdClock := Settings.newYear
  lockClock := Settings.newYear
  manifestJson m := jsonText
    [("args_hash", orNull m.argsHash), ("created_ts", quoted (String.ofList m.createdTs)),
      ("ended_ts", orNull (m.endedTs.map String.ofList)), ("error", orNull m.error), ("host", quoted m.host),
      ("input_id", orNull m.inputId), ("pid", toString m.pid), ("run_id", quoted (String.ofList m.runId)),
      ("status", quoted m.status), ("tool_version", orNull m.toolVersion)]
  lockJson l := jsonText
    [("pid", toString l.pid), ("run_id", quoted (String.ofList l.runId)), ("ts", quoted (String.ofList l.ts))]

/-- The directory of a manager with this run id and process id, which holds its lock. -/
def heldBy (run : String) (pid : Nat) : Workdir where
  path := "/work"
  files := (init { runId := some run.toList } { second with pid } { path := "/work" }).2.files
  held := true

theorem init_untouched_same : Untouched (heldBy "a" 2) (init { runId := some "a".toList } second (heldBy "a" 2)).2 ↔
    WritesNothingNew { runId := some "a".toList } second (heldBy "a" 2) :=
  init_untouched_iff { runId := some "a".toList } second (heldBy "a" 2) _ rfl

/-- The manifest of the manager that is alive is overwritten. -/
theorem not_untouched_second : ¬∀ (args : Arguments) (env : Environment) (dir : Workdir) (message : String), dir.held = true →
    (init args env dir).1 = .error (.recoveryError ExitCode.lockFailed message) → Untouched dir (init args env dir).2 := by
  intro always
  have same := always { runId := some "b".toList } second (heldBy "a" 1) _ rfl rfl
  exact absurd (same "run.json") (by decide +kernel)

end H2kvm.Recovery.Locking
