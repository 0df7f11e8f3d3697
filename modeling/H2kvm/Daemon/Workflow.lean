import H2kvm.Framework.Lines
import Mathlib.Data.Rat.Defs
import Mathlib.Algebra.Order.Field.Rat
import Mathlib.Data.List.Perm.Basic
import H2kvm.Framework.Data
import H2kvm.Framework.Names
import H2kvm.Framework.Run

namespace H2kvm.Daemon

open Framework

def supportedExtensions : List String :=
  [".vmdk", ".ova", ".ovf", ".vhd", ".vhdx", ".raw", ".img", ".ami", ".yaml", ".yml"]

/-- The settings of the watcher. The set of extensions is gone through in an order of its own. -/
structure Config where
  maxRetries : Nat := 3
  initialDelay : ℚ := 300
  backoffMultiplier : ℚ := 2
  archiveProcessed : Bool := true
  deduplicates : Bool := true
  useMd5 : Bool := false
  extensions : List String := supportedExtensions
  extensions_perm : extensions.Perm supportedExtensions := by exact List.Perm.refl _

-- The Kelvin sign is the one other character whose lower case is an ASCII letter.
def lowerChar (c : Char) : Char := if c = '\u212a' then 'k' else c.toLower

/-- `path.suffix.lower()`. -/
def suffix (name : String) : String :=
  let chars := name.toList
  let ext := chars.reverse.takeWhile (· ≠ '.')
  if ext = [] ∨ chars.length ≤ ext.length + 1 then ""
  else String.ofList ('.' :: (ext.reverse.map lowerChar))

def isYaml (name : String) : Bool := suffix name = ".yaml" || suffix name = ".yml"

structure FileInfo where
  size : Nat
  md5 : String
  deriving DecidableEq

/-- A row of the table of processed files, whose key is the name and the size. -/
structure ProcessedRow where
  md5 : Option String
  succeeded : Bool
  deriving DecidableEq

structure RetryInfo where
  attempts : Nat
  lastError : String
  nextRetry : ℚ
  deriving DecidableEq

/-- Where a call of `_process_file` stands. -/
inductive Phase where
  | entered
  | converting
  | completed
  | recorded
  | archived
  | failing (error : String)
  | contextSaved (error : String)
  | givingUp (error : String)
  | leaving
  deriving DecidableEq

/-- A running call of `_process_file`: from the worker loop, or from a retry. -/
structure Attempt where
  name : String
  retryCount : Nat
  fromWorker : Bool
  phase : Phase := .entered
  deriving DecidableEq

/-- The watcher and its directories. What was attempted, what was converted, what failed and
what was put down as a failure after it was converted is kept beside. -/
structure State where
  watch : Dict String FileInfo := ∅
  processedDir : List String := []
  errorsDir : Dict String FileInfo := ∅
  queue : List String := []
  processing : List String := []
  processed : List String := []
  rows : Dict (String × Nat) ProcessedRow := ∅
  retryQueue : Dict String RetryInfo := ∅
  submitted : List (String × Nat) := []
  attempts : List Attempt := []
  now : ℚ := 0
  paused : Bool := false
  stopped : Bool := false
  drainMode : Bool := false
  attempted : List String := []
  converted : List String := []
  failures : List String := []
  miscounted : List String := []

inductive Action where
  | arrive (name : String) (file : FileInfo)
  | event (name : String) (stable : Bool)
  | scan
  | dequeue
  | startSubmitted
  | advance (i : Nat) (result : Except PyException Unit)
  | processRetries
  | tick (seconds : Nat)
  | pause
  | resume
  | drain
  | stop

namespace State

variable (cfg : Config)

/-- `is_duplicate`. -/
def isDuplicate (s : State) (name : String) (file : FileInfo) : Bool :=
  cfg.deduplicates && (decide ((name, file.size) ∈ s.rows) ||
    cfg.useMd5 && s.rows.entries.any fun row => row.2.md5 = some file.md5)

/-- `mark_processed`; of a file that is gone the size is 0. -/
def markProcessed (s : State) (name : String) (succeeded : Bool) : State :=
  if !cfg.deduplicates then s
  else
    let file := s.watch.lookup name
    let md5 := if cfg.useMd5 then file.map FileInfo.md5 else none
    { s with rows := s.rows.insert (name, (file.map FileInfo.size).getD 0) ⟨md5, succeeded⟩ }

/-- `_queue_file`. -/
def queueFile (s : State) (name : String) (stable : Bool) : State :=
  match s.watch.lookup name with
  | none => s
  | some file =>
    if suffix name ∉ supportedExtensions ∨ name ∈ s.processing ∨ name ∈ s.processed then s
    else if s.isDuplicate cfg name file then { s with processed := name :: s.processed }
    else if !stable then s
    else { s with processing := name :: s.processing, queue := s.queue ++ [name] }

/-- One file of `_scan_existing_files`, which does not look whether it is queued already. -/
def scanFile (s : State) (name : String) : State :=
  match s.watch.lookup name with
  | none => s
  | some file =>
    if s.isDuplicate cfg name file then s
    else { s with processing := name :: s.processing, queue := s.queue ++ [name] }

/-- The files `_scan_existing_files` comes across, by extension. -/
def existing (s : State) : List String :=
  cfg.extensions.flatMap fun ext => s.watch.keys.filter fun name => ext.toList.isSuffixOf name.toList

/-- `should_retry`. -/
def shouldRetry (s : State) (name error : String) : Bool × State :=
  match s.retryQueue.lookup name with
  | none => (true, { s with retryQueue := s.retryQueue.insert name ⟨0, error, s.now + cfg.initialDelay⟩ })
  | some info =>
    if cfg.maxRetries ≤ info.attempts then (false, s)
    else (!decide (s.now < info.nextRetry), s)

/-- `record_retry`. -/
def recordRetry (s : State) (name : String) : State :=
  match s.retryQueue.lookup name with
  | none => s
  | some info =>
    let attempts := info.attempts + 1
    let delay := cfg.initialDelay * cfg.backoffMultiplier ^ attempts
    { s with retryQueue := s.retryQueue.insert name { info with attempts, nextRetry := s.now + delay } }

/-- Puts a file down as failed; the names that had been converted are remembered. -/
def noteFailed (s : State) (name : String) : State :=
  if name ∈ s.converted then { s with miscounted := name :: s.miscounted } else s

def setPhase (s : State) (i : Nat) (a : Attempt) (phase : Phase) : State :=
  { s with attempts := s.attempts.set i { a with phase } }

/-- The exception handler is entered, or what happens in it escapes from the call. -/
def raises (s : State) (i : Nat) (a : Attempt) (e : PyException) : State :=
  if e.isFatal then { s with attempts := s.attempts.eraseIdx i } else s.setPhase i a (.failing e.message)

/-- The call ends; the worker loop marks its file as completed, always with success. -/
def leave (s : State) (i : Nat) (a : Attempt) : State :=
  let s := { s with attempts := s.attempts.eraseIdx i }
  if a.fromWorker then
    { s with processing := s.processing.filter (· ≠ a.name), processed := a.name :: s.processed }
  else s

/-- The next part of a running call of `_process_file`; `result` is what that part meets. -/
def advance (s : State) (i : Nat) (a : Attempt) (result : Except PyException Unit) : State :=
  match a.phase with
  | .entered =>
    if s.stopped then s.setPhase i a .leaving
    else if s.paused then s
    else
      let s := { s with attempted := a.name :: s.attempted }
      if a.name ∈ s.watch then s.setPhase i a .converting
      else s.setPhase i a (.failing "No such file or directory")
  | .converting =>
    match result with
    | .ok () => ({ s with converted := a.name :: s.converted }).setPhase i a .completed
    | .error e => ({ s with failures := a.name :: s.failures }).raises i a e
  | .completed =>
    -- a YAML file is neither put into the table nor taken off the retry queue
    if isYaml a.name then s.setPhase i a .recorded
    else
      match result with
      | .error e => s.raises i a e
      | .ok () =>
        let s := s.markProcessed cfg a.name true
        ({ s with retryQueue := s.retryQueue.erase a.name }).setPhase i a .recorded
  | .recorded =>
    if !cfg.archiveProcessed then s.setPhase i a .archived
    else
      match result with
      | .error e => s.raises i a e
      | .ok () =>
        if a.name ∈ s.watch then
          ({ s with watch := s.watch.erase a.name, processedDir := a.name :: s.processedDir }).setPhase i a .archived
        else s.setPhase i a (.failing "No such file or directory")
  | .archived =>
    match result with
    | .error e => s.raises i a e
    | .ok () => s.setPhase i a .leaving
  | .failing error =>
    match result with
    | .error _ => ({ s with attempts := s.attempts.eraseIdx i }).noteFailed a.name
    | .ok () => s.setPhase i a (.contextSaved error)
  | .contextSaved error =>
    let retry := if a.retryCount = 0 then s.shouldRetry cfg a.name error else (false, s)
    if retry.1 then ((retry.2.recordRetry cfg a.name).noteFailed a.name).setPhase i a .leaving
    else retry.2.setPhase i a (.givingUp error)
  | .givingUp _ =>
    let s := (s.markProcessed cfg a.name false).noteFailed a.name
    let s :=
      match s.watch.lookup a.name with
      | none => s
      | some file => { s with watch := s.watch.erase a.name, errorsDir := s.errorsDir.insert a.name file }
    match result with
    | .error _ => { s with attempts := s.attempts.eraseIdx i }
    | .ok () => s.setPhase i a .leaving
  | .leaving => s.leave i a

/-- One entry of `_process_retries`: the file is looked for among the errors. -/
def processRetry (s : State) (entry : String × RetryInfo) : State :=
  match s.errorsDir.lookup entry.1 with
  | none => s
  | some file =>
    { s with errorsDir := s.errorsDir.erase entry.1
             watch := s.watch.insert entry.1 file
             submitted := s.submitted ++ [(entry.1, entry.2.attempts)] }

/-- `get_pending_retries`. -/
def pendingRetries (s : State) : List (String × RetryInfo) :=
  s.retryQueue.entries.filterMap fun entry =>
    if entry.2.nextRetry ≤ s.now ∧ entry.2.attempts < cfg.maxRetries then some (entry.1, entry.2) else none

def step (s : State) : Action → State
  | .arrive name file => { s with watch := s.watch.insert name file }
  | .event name stable => s.queueFile cfg name stable
  | .scan => (s.existing cfg).foldl (scanFile cfg) s
  | .dequeue =>
    match s.queue with
    | [] => s
    | name :: queue =>
      -- in drain mode the last file of the queue is taken off it and dropped
      if s.drainMode ∧ queue = [] then { s with queue, stopped := true }
      else { s with queue, attempts := s.attempts ++ [{ name, retryCount := 0, fromWorker := true }] }
  | .startSubmitted =>
    match s.submitted with
    | [] => s
    | (name, retryCount) :: submitted =>
      { s with submitted, attempts := s.attempts ++ [{ name, retryCount, fromWorker := false }] }
  | .advance i result =>
    match s.attempts[i]? with
    | none => s
    | some a => s.advance cfg i a result
  | .processRetries => (s.pendingRetries cfg).foldl processRetry s
  | .tick seconds => { s with now := s.now + seconds }
  | .pause => { s with paused := true }
  | .resume => { s with paused := false }
  | .drain => { s with drainMode := true }
  | .stop => { s with stopped := true }

end State

end H2kvm.Daemon

namespace H2kvm.Daemon.Workflow

open Framework Names

abbrev Name := List Char

inductive Dir where
  | toBeProcessed
  | processing
  | processed (date : Name)
  | failed (date : Name)
  deriving DecidableEq

structure Path where
  dir : Dir
  name : Name
  deriving DecidableEq

/-- What is in a file: a job, told apart by when it was dropped, or a record about one. -/
inductive Content where
  | job (drop : Nat)
  | metadata (jobId originalName completedAt : Name)
  | errorContext (jobId originalName failedAt error : Name)
  deriving DecidableEq

abbrev Files := Dict Path Content

/-- `shutil.move` of a file within a file system; `none` is a `FileNotFoundError`. -/
def shutilMove (files : Files) (source target : Path) : Option Files :=
  (files.lookup source).map fun content => (files.erase source).insert target content

def diskExtensions : List Name :=
  [".vmdk", ".ova", ".ovf", ".vhd", ".vhdx", ".raw", ".img", ".ami"].map String.toList

def configExtensions : List Name := [".yaml", ".yml", ".json"].map String.toList

def allExtensions : List Name := diskExtensions ++ configExtensions

/-- `path.suffix.lower() in ALL_EXTENSIONS`. -/
def isSupported (name : Name) : Bool := (Names.suffix name).map lowerChar ∈ allExtensions

/-- Some `glob(f"*{ext}")` finds the name. -/
def isGlobbed (name : Name) : Bool := allExtensions.any fun ext => ext.isSuffixOf name

/-- The records beside a filed job. -/
def metadataName (name : Name) : Name := withSuffix name (Names.suffix name ++ ".meta.json".toList)

def errorName (name : Name) : Name := withSuffix name (Names.suffix name ++ ".error.json".toList)

/-- The name in `processing` of a job whose own name is taken there. -/
def stampedName (name timestamp : Name) : Name := stem name ++ '_' :: timestamp ++ Names.suffix name

/-- The ids of the jobs of a batch. -/
def batchIds (jobId : Name) (n : Nat) : List Name :=
  (List.range n).map fun idx => jobId ++ "_job".toList ++ Nat.toDigits 10 (idx + 1)

/-- What a job file turns out to be: not readable as one, one job, or a batch. -/
inductive Loaded where
  | fails (error : Name)
  | single
  | batch (n : Nat)

/-- The job a call of `_process_single_job` works on, with what the loop over a batch has left. -/
structure Job where
  target : Name
  id : Name
  output : Option Name := none
  rest : List Name
  isBatch : Bool
  deriving DecidableEq

/-- Where a call of `_process_file` stands. A job has an error once it has failed. -/
inductive Phase where
  | taken
  | chosen (target : Name)
  | moved (target : Name)
  | looping (target : Name) (jobs : List Name) (isBatch : Bool)
  | started (job : Job)
  | converting (job : Job)
  | filing (job : Job) (error : Option Name)
  | completing (job : Job) (error : Option Name)
  | closing (job : Job) (raised : Option Name)
  | lastFiling (target : Name)
  | failing (target : Option Name) (error : Name)
  | cleaned (target : Option Name) (error : Name)
  | recording (path : Path) (record : Content) (next : Phase)
  | done
  deriving DecidableEq

structure Call where
  file : Name
  phase : Phase := .taken
  deriving DecidableEq

/-- The directories, the queue, the handler and the calls of `_process_file` there have been. What was dropped and not
replaced by its user is kept beside. -/
structure State where
  files : Files := ∅
  queue : List Name := []
  queued : List Name := []
  events : List Name := []
  isObserving : Bool := false
  isScanned : Bool := false
  calls : List Call := []
  activeJobs : Dict Name Path := ∅
  drops : Nat := 0
  live : List Nat := []

/-- What a call of `_process_file` does next, with what the file system, the clock and the conversion have for it. -/
inductive CallAction where
  | choose (timestamp : Name)
  | move (error : Name)
  | load (loaded : Loaded)
  | startJob
  | output (date : Except Name Name)
  | convert (error : Option Name)
  | file (date now : Name)
  | record
  | complete (raised : Option Name)
  | close
  | cleanup

inductive Action where
  | drop (name : Name)
  | observe
  | scan (found : List Name)
  | event (name : Name)
  | take
  | call (i : Nat) (act : CallAction)

namespace State

variable (s : State)

def setPhase (i : Nat) (phase : Phase) : State :=
  { s with calls := s.calls.modify i fun c => { c with phase } }

/-- `_move_to_processed` and `_move_to_failed` up to the record, which is then to be written. -/
def fileAs (i : Nat) (source : Path) (dir : Dir) (recordName : Name) (record : Content) (next : Phase) : State :=
  match shutilMove s.files source ⟨dir, source.name⟩ with
  | some files => ({ s with files } : State).setPhase i (.recording ⟨dir, recordName⟩ record next)
  -- the error is only logged
  | none => s.setPhase i next

def moveToProcessed (i : Nat) (target jobId date now : Name) (next : Phase) : State :=
  s.fileAs i ⟨.processing, target⟩ (.processed date) (metadataName target) (.metadata jobId target now) next

def moveToFailed (i : Nat) (source : Path) (jobId error date now : Name) (next : Phase) : State :=
  s.fileAs i source (.failed date) (errorName source.name) (.errorContext jobId source.name now error) next

/-- The keys that start with the stem of the file are dropped. -/
def cleanActiveJobs (file : Name) : Dict Name Path :=
  (s.activeJobs.keys.filter fun k => (stem file).isPrefixOf k).foldl (fun d k => d.erase k) s.activeJobs

/-- What the handler of `_process_file` moves: the file in `processing` if there is one, and else the dropped file. -/
def leftover (file : Name) (target : Option Name) : Path :=
  match target with
  | some target => if ⟨.processing, target⟩ ∈ s.files then ⟨.processing, target⟩ else ⟨.toBeProcessed, file⟩
  | none => ⟨.toBeProcessed, file⟩

/-- One step of a call of `_process_file`; nothing happens if the call is not there yet. -/
def callStep (i : Nat) (file : Name) (phase : Phase) : CallAction → State
  | .choose timestamp =>
    match phase with
    | .taken => s.setPhase i (.chosen (if ⟨.processing, file⟩ ∈ s.files then stampedName file timestamp else file))
    | _ => s
  | .move error =>
    match phase with
    | .chosen target =>
      match shutilMove s.files ⟨.toBeProcessed, file⟩ ⟨.processing, target⟩ with
      | some files => ({ s with files } : State).setPhase i (.moved target)
      | none => s.setPhase i (.failing none error)
    | _ => s
  | .load loaded =>
    match phase with
    | .moved target =>
      match loaded with
      | .fails error => s.setPhase i (.failing (some target) error)
      | .single => s.setPhase i (.looping target [stem target] false)
      | .batch n => s.setPhase i (.looping target (batchIds (stem target) n) true)
    | _ => s
  | .startJob =>
    match phase with
    | .looping target jobs isBatch =>
      match jobs with
      | id :: rest =>
        ({ s with activeJobs := s.activeJobs.insert id ⟨.processing, target⟩ } : State).setPhase i
          (.started { target, id, rest, isBatch })
      | [] => s.setPhase i (if isBatch then .lastFiling target else .done)
    | _ => s
  | .output date =>
    match phase with
    | .started job =>
      match date with
      | .ok date => s.setPhase i (.converting { job with output := some date })
      | .error error => s.setPhase i (.filing job (some error))
    | _ => s
  | .convert error =>
    match phase with
    | .converting job => s.setPhase i (.filing job error)
    | _ => s
  | .file date now =>
    match phase with
    | .filing job error =>
      match error with
      | none => s.moveToProcessed i job.target job.id date now (.completing job none)
      | some error => s.moveToFailed i ⟨.processing, job.target⟩ job.id error date now (.completing job (some error))
    | .lastFiling target => s.moveToProcessed i target (stem target) date now .done
    | .cleaned target error => s.moveToFailed i (s.leftover file target) (stem file) error date now .done
    | _ => s
  | .record =>
    match phase with
    | .recording path record next => ({ s with files := s.files.insert path record } : State).setPhase i next
    | _ => s
  | .complete raised =>
    match phase with
    | .completing job error =>
      match raised, error with
      | none, _ => s.setPhase i (.closing job none)
      -- what the statistics raise after a success is taken for a failure of the job
      | some raised, none => s.setPhase i (.filing job (some raised))
      | some raised, some _ => s.setPhase i (.closing job (some raised))
    | _ => s
  | .close =>
    match phase with
    | .closing job raised =>
      ({ s with activeJobs := s.activeJobs.erase job.id } : State).setPhase i
        (match raised with
          | none => .looping job.target job.rest job.isBatch
          | some raised => .failing (some job.target) raised)
    | _ => s
  | .cleanup =>
    match phase with
    | .failing target error =>
      ({ s with activeJobs := s.cleanActiveJobs file } : State).setPhase i (.cleaned target error)
    | _ => s

/-- The job files `_scan_existing_files` finds. -/
def existing : List Name :=
  (s.files.keys.filter fun p => p.dir = .toBeProcessed && isGlobbed p.name).map (·.name)

/-- `_queue_file`. -/
def queueFile (name : Name) : State :=
  if ⟨.toBeProcessed, name⟩ ∈ s.files ∧ isSupported name ∧ name ∉ s.queued then
    { s with queued := name :: s.queued, queue := s.queue ++ [name] }
  else s

def step : Action → State
  | .drop name =>
    { s with
      files := s.files.insert ⟨.toBeProcessed, name⟩ (.job s.drops)
      events := if s.isObserving then s.events ++ [name] else s.events
      drops := s.drops + 1
      live := s.live.filter (fun n => s.files.lookup ⟨.toBeProcessed, name⟩ ≠ some (.job n)) ++ [s.drops] }
  | .observe => { s with isObserving := true }
  | .scan found =>
    if s.isObserving ∧ ¬ s.isScanned ∧ found.isPerm s.existing then
      { s with queue := s.queue ++ found, isScanned := true }
    else s
  | .event name => if name ∈ s.events then ({ s with events := s.events.erase name } : State).queueFile name else s
  -- the workers start after the scan
  | .take =>
    match s.queue with
    | name :: queue => if s.isScanned then { s with queue, calls := s.calls ++ [{ file := name }] } else s
    | [] => s
  | .call i act =>
    match s.calls[i]? with
    | some c => s.callStep i c.file c.phase act
    | none => s

end State

end H2kvm.Daemon.Workflow
