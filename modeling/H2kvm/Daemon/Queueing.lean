import Mathlib.Data.Rat.Defs
import Mathlib.Algebra.Order.Field.Rat
import H2kvm.Framework.Run
import H2kvm.Daemon.Workflow
import H2kvm.Framework.Data

namespace H2kvm.Daemon.Queueing

open Framework

/-- Where a call of `_queue_file` stands between its critical sections. -/
inductive CallPhase where
  | checked
  | duplicate
  | waiting
  | stable
  | inserted
  deriving DecidableEq

/-- A call of `_queue_file` that `_is_valid_file` let through. -/
structure Call where
  name : String
  phase : CallPhase := .checked
  deriving DecidableEq

/-- Where the main thread stands: in `_scan_existing_files`, between putting a file on the queue and
adding it to the set, or past the scan with the workers started. -/
inductive Main where
  | scanning (extensions files : List String)
  | marking (name : String) (extensions files : List String)
  | serving
  deriving DecidableEq

structure Threads where
  main : Main
  calls : List Call := []
  queue : List String := []
  running : List String := []
  processing : List String := []
  processed : List String := []

/-- The next critical section of one of the threads. What a thread finds in the directory, and
what the deduplicator and the wait answer, is given with it. -/
inductive Event where
  | observed (name : String) (isFile : Bool)
  | deduplicated (i : Nat) (known : Bool)
  | skipped (i : Nat)
  | waited (i : Nat) (stable : Bool)
  | inserted (i : Nat)
  | put (i : Nat)
  | raised (i : Nat)
  | globbed (entries : List String)
  | scanned (isFile known : Bool)
  | marked
  | taken (draining : Bool)
  | completed (i : Nat)
  | failed (i : Nat)

namespace Threads

/-- The daemon when the observer is started and the scan is about to begin. -/
def start (cfg : Config) : Threads := { main := .scanning cfg.extensions [] }

/-- The call at a position, if it stands in `phase`. -/
def callAt (t : Threads) (i : Nat) (phase : CallPhase) : Option Call :=
  (t.calls[i]?).bind fun c => if c.phase = phase then some c else none

def setPhase (t : Threads) (i : Nat) (c : Call) (phase : CallPhase) : Threads :=
  { t with calls := t.calls.set i { c with phase } }

def endCall (t : Threads) (i : Nat) : Threads := { t with calls := t.calls.eraseIdx i }

/-- `_is_valid_file`. -/
def isValidFile (t : Threads) (name : String) (isFile : Bool) : Bool :=
  isFile && decide (suffix name ∈ supportedExtensions) && decide (name ∉ t.processing) && decide (name ∉ t.processed)

/-- `mark_completed` with success, which the worker loop always says. -/
def markCompleted (t : Threads) (name : String) : Threads :=
  { t with processing := t.processing.filter (· ≠ name), processed := name :: t.processed }

/-- The steps of `_queue_file`. -/
def queueFile (t : Threads) : Event → Threads
  | .observed name isFile => if t.isValidFile name isFile then { t with calls := t.calls ++ [{ name }] } else t
  | .deduplicated i known =>
    match t.callAt i .checked with
    | none => t
    | some c => t.setPhase i c (if known then .duplicate else .waiting)
  | .skipped i =>
    match t.callAt i .duplicate with
    | none => t
    | some c => { t.endCall i with processed := c.name :: t.processed }
  | .waited i stable =>
    match t.callAt i .waiting with
    | none => t
    | some c => if stable then t.setPhase i c .stable else t.endCall i
  | .inserted i =>
    match t.callAt i .stable with
    | none => t
    | some c => { t.setPhase i c .inserted with processing := c.name :: t.processing }
  | .put i =>
    match t.callAt i .inserted with
    | none => t
    | some c => { t.endCall i with queue := t.queue ++ [c.name] }
  | .raised i =>
    -- the deduplicator's database can fail
    match t.callAt i .checked with
    | none => t
    | some _ => t.endCall i
  | _ => t

/-- The steps of `_scan_existing_files`, which looks neither at the files in processing nor at those
processed. -/
def scan (t : Threads) : Event → Threads
  | .globbed entries =>
    match t.main with
    | .scanning [] [] => { t with main := .serving }
    | .scanning (ext :: exts) [] =>
      { t with main := .scanning exts (entries.filter fun name => ext.toList.isSuffixOf name.toList) }
    | _ => t
  | .scanned isFile known =>
    match t.main with
    | .scanning exts (name :: files) =>
      if isFile && !known then { t with main := .marking name exts files, queue := t.queue ++ [name] }
      else { t with main := .scanning exts files }
    | _ => t
  | .marked =>
    match t.main with
    | .marking name exts files => { t with main := .scanning exts files, processing := name :: t.processing }
    | _ => t
  | _ => t

/-- The steps of `_worker_loop`. -/
def work (t : Threads) : Event → Threads
  | .taken draining =>
    match t.main, t.queue with
    | .serving, name :: queue =>
      -- in drain mode the last file of the queue is dropped
      if draining ∧ queue = [] then { t with queue } else { t with queue, running := t.running ++ [name] }
    | _, _ => t
  | .completed i =>
    match t.running[i]? with
    | none => t
    | some name => ({ t with running := t.running.eraseIdx i }).markCompleted name
  | .failed i => { t with running := t.running.eraseIdx i }
  | _ => t

def step (t : Threads) (e : Event) : Threads :=
  match e with
  | .globbed _ | .scanned _ _ | .marked => t.scan e
  | .taken _ | .completed _ | .failed _ => t.work e
  | _ => t.queueFile e

/-- No path is on the queue or in processing twice. -/
def Once (t : Threads) : Prop := (t.queue ++ t.running).Nodup

/-- The set has the path, or the scan is about to add it. -/
def Known (t : Threads) (name : String) : Prop :=
  name ∈ t.processing ∨ ∃ exts files, t.main = .marking name exts files

/-- Whoever puts a path down for processing finds, in that moment, that nobody else has. -/
def Unclaimed (t : Threads) : Event → Prop
  | .inserted i => ∀ c, t.callAt i .stable = some c → ¬t.Known c.name
  | .scanned isFile known =>
    isFile = true → known = false → ∀ exts name files, t.main = .scanning exts (name :: files) → name ∉ t.processing
  | _ => True

/-- The paths that are in the set but not yet on the queue. -/
def due (calls : List Call) : List String :=
  calls.filterMap fun c => if c.phase = .inserted then some c.name else none

def claims (t : Threads) : List String := t.queue ++ t.running ++ due t.calls

/-- Every path that is due, queued or running is so once, and is known to be. -/
structure Claimed (t : Threads) : Prop where
  nodup : t.claims.Nodup
  known : ∀ name ∈ t.claims, t.Known name

section claimed

variable {t t' : Threads}

theorem Claimed.once (h : t.Claimed) : t.Once := (List.nodup_append.mp h.nodup).1

theorem Claimed.shrink (h : t.Claimed) (fewer : t'.claims.Subperm t.claims)
    (known : ∀ name ∈ t'.claims, t.Known name → t'.Known name) : t'.Claimed := by
  constructor
  · obtain ⟨l, perm, sub⟩ := fewer
    exact perm.nodup_iff.mp (sub.nodup h.nodup)
  · intro name hn
    exact known name hn (h.known name (fewer.subset hn))

/-- A path that was not known is claimed. -/
theorem Claimed.claim (h : t.Claimed) (name : String) (more : t'.claims.Perm (name :: t.claims))
    (free : ¬t.Known name) (known : ∀ n, t.Known n → t'.Known n) (now : t'.Known name) : t'.Claimed := by
  constructor
  · rw [more.nodup_iff, List.nodup_cons]
    exact ⟨fun mem => free (h.known name mem), h.nodup⟩
  · intro n hn
    rcases List.mem_cons.mp (more.mem_iff.mp hn) with rfl | old
    · exact now
    · exact known n (h.known n old)

theorem callAt_eq_some {i : Nat} {phase : CallPhase} {c : Call} (h : t.callAt i phase = some c) :
    t.calls[i]? = some c ∧ c.phase = phase := by
  obtain ⟨d, at_i, found⟩ := Option.bind_eq_some_iff.mp h
  split at found
  · rename_i same
    cases found
    exact ⟨at_i, same⟩
  · cases found

theorem due_append (cs ds : List Call) : due (cs ++ ds) = due cs ++ due ds := List.filterMap_append

theorem due_cons_of_ne {c : Call} (h : c.phase ≠ .inserted) (cs : List Call) : due (c :: cs) = due cs := by
  rw [due, List.filterMap_cons, if_neg h]
  rfl

theorem due_cons_inserted {c : Call} (h : c.phase = .inserted) (cs : List Call) : due (c :: cs) = c.name :: due cs := by
  rw [due, List.filterMap_cons, if_pos h]
  rfl

theorem due_other {i : Nat} {c : Call} (at_i : t.calls[i]? = some c) (early : c.phase ≠ .inserted) :
    due (t.calls.eraseIdx i) = due t.calls ∧ ∀ c', c'.phase ≠ .inserted → due (t.calls.set i c') = due t.calls := by
  obtain ⟨before, after, was, erased, set⟩ := split_at at_i
  have whole : due t.calls = due before ++ due after := by rw [was, due_append, due_cons_of_ne early]
  constructor
  · rw [erased, due_append, whole]
  · intro c' early'
    rw [set, due_append, due_cons_of_ne early', whole]

theorem claims_due {calls : List Call} (same : due calls = due t.calls) : ({ t with calls } : Threads).claims = t.claims := by
  rw [claims, claims, same]

end claimed

section step

variable {t : Threads}

theorem queueFile_claimed (h : t.Claimed) (e : Event) (free : t.Unclaimed e) : (t.queueFile e).Claimed := by
  have same {calls : List Call} (due_eq : due calls = due t.calls) (processed : List String) :
      ({ t with calls, processed } : Threads).Claimed := by
    have claims_eq : ({ t with calls, processed } : Threads).claims = t.claims := claims_due due_eq
    exact h.shrink (claims_eq ▸ List.Subperm.refl _) fun _ _ known => known
  cases e with
  | observed name isFile =>
    simp only [queueFile]
    split
    · apply same
      rw [due_append, due_cons_of_ne CallPhase.noConfusion]
      exact List.append_nil _
    · exact h
  | deduplicated i known =>
    simp only [queueFile]
    split
    · exact h
    · rename_i c found
      obtain ⟨at_i, phase⟩ := callAt_eq_some found
      apply same
      apply (due_other at_i (by rw [phase]; decide)).2
      cases known with
      | true => exact CallPhase.noConfusion
      | false => exact CallPhase.noConfusion
  | skipped i =>
    simp only [queueFile]
    split
    · exact h
    · rename_i c found
      obtain ⟨at_i, phase⟩ := callAt_eq_some found
      exact same (due_other at_i (by rw [phase]; decide)).1 _
  | waited i stable =>
    simp only [queueFile]
    split
    · exact h
    · rename_i c found
      obtain ⟨at_i, phase⟩ := callAt_eq_some found
      have rest := due_other at_i (by rw [phase]; decide)
      split
      · exact same (rest.2 _ CallPhase.noConfusion) _
      · exact same rest.1 _
  | inserted i =>
    simp only [queueFile]
    split
    · exact h
    · rename_i c found
      obtain ⟨at_i, phase⟩ := callAt_eq_some found
      obtain ⟨before, after, was, -, set⟩ := split_at at_i
      refine h.claim c.name ?_ (free c found) ?_ (.inl List.mem_cons_self)
      · have now : due (t.calls.set i { c with phase := .inserted }) = due before ++ c.name :: due after := by
          rw [set, due_append, due_cons_inserted rfl]
        have old : due t.calls = due before ++ due after := by
          rw [was, due_append, due_cons_of_ne (by rw [phase]; decide)]
        simp only [claims, setPhase, now, old]
        rw [← List.append_assoc, ← List.append_assoc (t.queue ++ t.running)]
        exact List.perm_middle
      · exact fun n known => known.imp_left (List.mem_cons_of_mem _)
  | put i =>
    simp only [queueFile]
    split
    · exact h
    · rename_i c found
      obtain ⟨at_i, phase⟩ := callAt_eq_some found
      obtain ⟨before, after, was, erased, -⟩ := split_at at_i
      refine h.shrink (List.Perm.subperm ?_) fun _ _ known => known
      have now : due (t.calls.eraseIdx i) = due before ++ due after := by rw [erased, due_append]
      have old : due t.calls = due before ++ c.name :: due after := by rw [was, due_append, due_cons_inserted phase]
      simp only [claims, endCall, now, old, List.append_assoc, List.singleton_append]
      apply List.Perm.append_left
      rw [← List.append_assoc, ← List.append_assoc]
      exact List.perm_middle.symm
  | raised i =>
    simp only [queueFile]
    split
    · exact h
    · rename_i c found
      obtain ⟨at_i, phase⟩ := callAt_eq_some found
      exact same (due_other at_i (by rw [phase]; decide)).1 _
  | globbed | scanned | marked | taken | completed | failed => exact h

theorem scan_claimed (h : t.Claimed) (e : Event) (free : t.Unclaimed e) : (t.scan e).Claimed := by
  -- In the scan a path is known only from the set.
  have settled {exts files : List String} (main : t.main = .scanning exts files) {name : String} (known : t.Known name) :
      name ∈ t.processing := by
    rcases known with there | ⟨exts', files', marking⟩
    · exact there
    · rw [main] at marking
      cases marking
  have onward {exts files : List String} (main : t.main = .scanning exts files) (main' : Main) :
      ({ t with main := main' } : Threads).Claimed :=
    h.shrink (List.Subperm.refl _) fun _ _ known => .inl (settled main known)
  cases e with
  | globbed entries =>
    simp only [scan]
    split
    · rename_i main
      exact onward main _
    · rename_i main
      exact onward main _
    · exact h
  | scanned isFile known =>
    simp only [scan]
    split
    · rename_i exts name files main
      split
      · rename_i new
        obtain ⟨there, unknown⟩ := Bool.and_eq_true_iff.mp new
        have fresh := free there (by simpa using unknown) exts name files main
        refine h.claim name ?_ (fun k => fresh (settled main k)) ?_ (.inr ⟨exts, files, rfl⟩)
        · simp only [claims, List.append_assoc, List.singleton_append]
          exact List.perm_middle
        · exact fun n k => .inl (settled main k)
      · exact onward main _
    · exact h
  | marked =>
    simp only [scan]
    split
    · rename_i name exts files main
      refine h.shrink (List.Subperm.refl _) ?_
      intro n _ known
      rcases known with there | ⟨exts', files', marking⟩
      · exact .inl (List.mem_cons_of_mem _ there)
      · rw [main] at marking
        cases marking
        exact .inl List.mem_cons_self
    · exact h
  | observed | deduplicated | skipped | waited | inserted | put | raised | taken | completed | failed => exact h

theorem work_claimed (h : t.Claimed) (e : Event) : (t.work e).Claimed := by
  have fewer (i : Nat) : ({ t with running := t.running.eraseIdx i } : Threads).claims.Sublist t.claims := by
    simp only [claims]
    exact ((List.eraseIdx_sublist _ _).append_left _).append_right _
  cases e with
  | taken draining =>
    simp only [work]
    split
    · rename_i name queue main first
      split
      · refine h.shrink (List.Sublist.subperm ?_) fun _ _ known => known
        simp only [claims, first, List.cons_append]
        exact List.sublist_cons_self _ _
      · refine h.shrink (List.Perm.subperm ?_) fun _ _ known => known
        simp only [claims, first, ← List.append_assoc]
        apply List.Perm.append_right
        exact List.perm_append_singleton _ _
    · exact h
  | completed i =>
    simp only [work]
    split
    · exact h
    · rename_i name at_i
      refine h.shrink (fewer i).subperm ?_
      intro n hn known
      rcases known with there | marking
      · refine .inl (List.mem_filter.mpr ⟨there, decide_eq_true ?_⟩)
        -- The path that is done was claimed once.
        intro same
        subst same
        obtain ⟨before, after, was, erased, -⟩ := split_at at_i
        have nodup := h.nodup
        have middle : t.claims.Perm (n :: ({ t with running := t.running.eraseIdx i } : Threads).claims) := by
          simp only [claims, erased]
          nth_rewrite 1 [was]
          simp only [List.append_assoc, List.cons_append]
          rw [← List.append_assoc, ← List.append_assoc t.queue]
          exact List.perm_middle
        rw [middle.nodup_iff, List.nodup_cons] at nodup
        exact nodup.1 hn
      · exact .inr marking
  | failed i => exact h.shrink (fewer i).subperm fun _ _ known => known
  | observed | deduplicated | skipped | waited | inserted | put | raised | globbed | scanned | marked => exact h

theorem step_claimed (t : Threads) (e : Event) (h : t.Claimed) (free : t.Unclaimed e) : (t.step e).Claimed := by
  unfold step
  split
  · exact scan_claimed h _ free
  · exact scan_claimed h _ free
  · exact scan_claimed h _ free
  · exact work_claimed h _
  · exact work_claimed h _
  · exact work_claimed h _
  · exact queueFile_claimed h e free

end step

theorem claimed_start (cfg : Config) : (start cfg).Claimed :=
  ⟨List.nodup_nil, fun _ hn => (List.not_mem_nil hn).elim⟩

/-- As long as each path is unclaimed when it is put down for processing, none is on the queue or in
processing twice. -/
theorem once_of_unclaimed (cfg : Config) {events : List Event} (h : EachStep step Unclaimed (start cfg) events)
    {pre : List Event} (hp : pre <+: events) : (run step (start cfg) pre).Once := by
  obtain ⟨post, rfl⟩ := hp
  have upto := (eachStep_append.mp h).1
  exact (invariant_of_eachStep step_claimed (claimed_start cfg) upto).once

/-- The observer sees a file, and it is stable at once. -/
def oneFile : List Event :=
  [.observed "a.vmdk" true, .deduplicated 0 false, .waited 0 true, .inserted 0, .put 0]

theorem once_oneFile :
    (run step (start {}) oneFile).queue = ["a.vmdk"] ∧ (run step (start {}) oneFile).Once := by
  refine ⟨by decide +kernel, once_of_unclaimed {} ?_ List.prefix_rfl⟩
  refine ⟨trivial, trivial, trivial, ?_, trivial, trivial⟩
  intro c _ known
  have empty : (run step (start {}) (oneFile.take 3)).processing = [] := by decide +kernel
  have scanning : (run step (start {}) (oneFile.take 3)).main = .scanning supportedExtensions [] := by decide +kernel
  rcases known with there | ⟨exts, files, marking⟩
  · exact List.not_mem_nil (empty ▸ there)
  · exact Main.noConfusion (scanning.symm.trans marking)

/-- The scan comes across the file the observer has queued. -/
def seenTwice : List Event := oneFile ++ [.globbed ["a.vmdk"], .scanned true false]

theorem seenTwice_queues_twice : ¬(run step (start {}) seenTwice).Once := by
  have queue : (run step (start {}) seenTwice).queue = ["a.vmdk", "a.vmdk"] := by decide +kernel
  intro once
  rw [Once, queue] at once
  have nodup := (List.nodup_append.mp once).1
  exact absurd nodup (by decide)

end Threads

end H2kvm.Daemon.Queueing

namespace H2kvm.Daemon

open Framework

inductive JobStatus where
  | processing
  | success
  | failed
  | retrying
  deriving DecidableEq

structure JobStats where
  filename : String
  fileType : String
  fileSizeMb : ℚ
  startTime : ℚ
  endTime : Option ℚ := none
  durationSeconds : Option ℚ := none
  status : JobStatus := .processing
  error : Option String := none
  retryCount : Nat := 0
  deriving DecidableEq

/-- What is kept for a type of file. What was loaded from a summary has no `total_time`. -/
structure TypeStats where
  processed : Nat
  failed : Nat
  totalTime : Option ℚ
  deriving DecidableEq

/-- One more job of a type; `none` is a `KeyError`. -/
def TypeStats.count (t : TypeStats) (success : Bool) (duration : ℚ) : Option TypeStats :=
  if success then t.totalTime.map fun total => ⟨t.processed + 1, t.failed, some (total + duration)⟩
  else some { t with failed := t.failed + 1 }

/-- What `get_summary` says of a type of file, the rates aside. -/
structure TypeSummary where
  processed : Nat
  failed : Nat
  deriving DecidableEq

/-- What `get_summary` returns, the rates and the uptime aside. -/
structure Summary where
  totalProcessed : Nat
  totalFailed : Nat
  totalRetried : Nat
  currentJobs : List JobStats
  byFileType : Dict String TypeSummary
  recentCompleted : List JobStats

structure Counters where
  totalProcessed : Nat := 0
  totalFailed : Nat := 0
  totalRetried : Nat := 0
  totalProcessingTime : ℚ := 0
  byFileType : Dict String TypeStats := ∅

/-- The totals are those of the types together. -/
def Counters.Balanced (c : Counters) : Prop :=
  c.totalProcessed + c.totalFailed = (c.byFileType.entries.map fun e => e.2.processed + e.2.failed).sum

/-- The statistics, with the clock, the file and the lock. The counters of the last save are kept
beside. -/
structure DaemonStatistics extends Counters where
  currentJobs : Dict String JobStats := ∅
  completedJobs : List JobStats := []
  lastSave : ℚ
  now : ℚ
  locked : Bool := false
  file : Option Summary := none
  atSave : Option Counters := none

/-- How a call ends. A call that waits for a lock its own thread holds does not end. -/
inductive Outcome (α : Type) where
  | returned (a : α)
  | raised (error : String)
  | blocked

inductive StatsCall where
  | jobStarted (filename fileType : String) (fileSizeMb : ℚ)
  | jobCompleted (filename : String) (success : Bool) (error : Option String) (writable : Bool)
  | jobRetried (filename : String)
  | getSummary
  | save (writable : Bool)
  | restart
  | tick (now : ℚ)

namespace DaemonStatistics

/-- `with self.lock`, of a lock that is not reentrant. -/
def withLock {α : Type} (body : DaemonStatistics → DaemonStatistics × Outcome α) (s : DaemonStatistics) :
    DaemonStatistics × Outcome α :=
  if s.locked then (s, .blocked)
  else
    match body { s with locked := true } with
    | (s, .blocked) => (s, .blocked)
    | (s, result) => ({ s with locked := false }, result)

/-- `_load`: the summary says nothing of the times. -/
def load (s : DaemonStatistics) : DaemonStatistics :=
  match s.file with
  | none => s
  | some summary =>
    { s with
      totalProcessed := summary.totalProcessed
      totalFailed := summary.totalFailed
      totalRetried := summary.totalRetried
      totalProcessingTime := 0
      byFileType := summary.byFileType.entries.foldr (fun e d => d.insert e.1 ⟨e.2.processed, e.2.failed, none⟩) ∅ }

/-- A new `DaemonStatistics` on the file there is. -/
def new (file : Option Summary) (now : ℚ) : DaemonStatistics := load { lastSave := now, now, file }

def jobStarted (filename fileType : String) (fileSizeMb : ℚ) : DaemonStatistics → DaemonStatistics × Outcome Unit :=
  withLock fun s =>
    ({ s with currentJobs := s.currentJobs.insert filename { filename, fileType, fileSizeMb, startTime := s.now } }, .returned ())

/-- `_get_type_summary`. The average needs `total_time` once something was processed. -/
def typeSummary : List (Sigma fun _ : String => TypeStats) → Outcome (Dict String TypeSummary)
  | [] => .returned ∅
  | e :: rest =>
    if 0 < e.2.processed ∧ e.2.totalTime = none then .raised "'total_time'"
    else
      match typeSummary rest with
      | .returned d => .returned (d.insert e.1 ⟨e.2.processed, e.2.failed⟩)
      | other => other

def getSummary : DaemonStatistics → DaemonStatistics × Outcome Summary :=
  withLock fun s =>
    match typeSummary s.byFileType.entries with
    | .returned byFileType =>
      (s, .returned
        { totalProcessed := s.totalProcessed
          totalFailed := s.totalFailed
          totalRetried := s.totalRetried
          currentJobs := s.currentJobs.entries.map Sigma.snd
          byFileType
          recentCompleted := s.completedJobs.drop (s.completedJobs.length - 10) })
    | .raised e => (s, .raised e)
    | .blocked => (s, .blocked)

/-- `save`; an error of the summary or of the file system is logged. -/
def save (writable : Bool) : DaemonStatistics → DaemonStatistics × Outcome Unit :=
  withLock fun s =>
    match s.getSummary with
    | (s, .blocked) => (s, .blocked)
    | (s, .raised _) => (s, .returned ())
    | (s, .returned summary) =>
      (if writable then { s with file := some summary, lastSave := s.now, atSave := some s.toCounters } else s, .returned ())

def saveInterval : ℚ := 60

/-- The part of `job_completed` for a job that was started. -/
def complete (filename : String) (job : JobStats) (success : Bool) (error : Option String) (writable : Bool) (s : DaemonStatistics) :
    DaemonStatistics × Outcome Unit :=
  let duration := s.now - job.startTime
  let job := { job with
    endTime := some s.now, durationSeconds := some duration, status := if success then .success else .failed, error }
  let s := { s with currentJobs := s.currentJobs.insert filename job }
  let s :=
    if success then { s with totalProcessed := s.totalProcessed + 1, totalProcessingTime := s.totalProcessingTime + duration }
    else { s with totalFailed := s.totalFailed + 1 }
  let stats := (s.byFileType.lookup job.fileType).getD ⟨0, 0, some 0⟩
  match stats.count success duration with
  | none =>
    -- the job was counted before the missing key is found
    ({ s with byFileType := s.byFileType.insert job.fileType { stats with processed := stats.processed + 1 } },
      .raised "'total_time'")
  | some stats =>
    let completed := s.completedJobs ++ [job]
    let s := { s with
      byFileType := s.byFileType.insert job.fileType stats
      completedJobs := completed.drop (completed.length - 100)
      currentJobs := s.currentJobs.erase filename }
    if s.now - s.lastSave > saveInterval then s.save writable else (s, .returned ())

def jobCompleted (filename : String) (success : Bool) (error : Option String) (writable : Bool) :
    DaemonStatistics → DaemonStatistics × Outcome Unit :=
  withLock fun s =>
    match s.currentJobs.lookup filename with
    | none => (s, .returned ())
    | some job => s.complete filename job success error writable

def jobRetried (filename : String) : DaemonStatistics → DaemonStatistics × Outcome Unit :=
  withLock fun s =>
    let s := { s with totalRetried := s.totalRetried + 1 }
    match s.currentJobs.lookup filename with
    | none => (s, .returned ())
    | some job =>
      ({ s with currentJobs := s.currentJobs.insert filename { job with retryCount := job.retryCount + 1, status := .retrying } },
        .returned ())

/-- One call, and whether it returned. -/
def exec (s : DaemonStatistics) : StatsCall → DaemonStatistics × Bool
  | .jobStarted filename fileType size => ended (s.jobStarted filename fileType size)
  | .jobCompleted filename success error writable => ended (s.jobCompleted filename success error writable)
  | .jobRetried filename => ended (s.jobRetried filename)
  | .getSummary => ended s.getSummary
  | .save writable => ended (s.save writable)
  | .restart => ({ new s.file s.now with atSave := s.atSave }, true)
  | .tick now => ({ s with now }, true)
where
  ended {α : Type} : DaemonStatistics × Outcome α → DaemonStatistics × Bool
    | (s, .returned _) => (s, true)
    | (s, _) => (s, false)

def step (s : DaemonStatistics) (call : StatsCall) : DaemonStatistics := (s.exec call).1

/-- A call returns, and a restart finds the counters of the last save. -/
def Survived (s : DaemonStatistics) (call : StatsCall) : Prop :=
  (s.exec call).2 = true ∧
    (call = .restart → ∀ c, s.atSave = some c → (s.step call).toCounters = c ∧ (s.step call).Balanced)

/-- Nothing is saved: `save` is not called, and a job that is completed is so within the interval. -/
def Unsaved (s : DaemonStatistics) : StatsCall → Prop
  | .save _ => False
  | .jobCompleted filename _ _ _ => filename ∈ s.currentJobs → s.now - s.lastSave ≤ saveInterval
  | _ => True

section lock

variable {α : Type} {s s' : DaemonStatistics} {body : DaemonStatistics → DaemonStatistics × Outcome α}

theorem withLock_returned {a : α} (free : s.locked = false) (h : body { s with locked := true } = (s', .returned a)) :
    withLock body s = ({ s' with locked := false }, .returned a) := by
  simp only [withLock, free, Bool.false_eq_true, if_false, h]

theorem withLock_blocked (free : s.locked = false) (h : body { s with locked := true } = (s', .blocked)) :
    withLock body s = (s', .blocked) := by
  simp only [withLock, free, Bool.false_eq_true, if_false, h]

theorem withLock_held (held : s.locked = true) : withLock body s = (s, .blocked) := if_pos held

/-- The summary takes the lock that `save` holds. -/
theorem save_blocked (s : DaemonStatistics) (writable : Bool) : ∃ s', s.save writable = (s', .blocked) := by
  cases held : s.locked with
  | true => exact ⟨s, withLock_held held⟩
  | false =>
    have inner : getSummary { s with locked := true } = ({ s with locked := true }, .blocked) := withLock_held rfl
    refine ⟨{ s with locked := true }, withLock_blocked held ?_⟩
    simp only [inner]

end lock

/-- Nothing was saved so far, nobody holds the lock and every type has its time. -/
structure Fresh (s : DaemonStatistics) : Prop where
  free : s.locked = false
  noFile : s.file = none
  noSave : s.atSave = none
  timed : ∀ k t, s.byFileType.lookup k = some t → t.totalTime.isSome = true

section calls

variable {s : DaemonStatistics}

theorem typeSummary_returned {entries : List (Sigma fun _ : String => TypeStats)}
    (timed : ∀ e ∈ entries, e.2.totalTime.isSome = true) : ∃ d, typeSummary entries = .returned d := by
  induction entries with
  | nil => exact ⟨∅, rfl⟩
  | cons e rest ih =>
    obtain ⟨first, others⟩ := List.forall_mem_cons.mp timed
    obtain ⟨d, found⟩ := ih others
    have there : ¬(0 < e.2.processed ∧ e.2.totalTime = none) := by
      intro missing
      rw [missing.2] at first
      cases first
    exact ⟨_, by simp only [typeSummary, if_neg there, found]; rfl⟩

theorem Fresh.getSummary_returned (h : s.Fresh) : ∃ summary, s.getSummary = (s, .returned summary) := by
  have timed : ∀ e ∈ s.byFileType.entries, e.2.totalTime.isSome = true := by
    intro e he
    exact h.timed e.1 e.2 (AList.mem_lookup_iff.mpr he)
  obtain ⟨d, found⟩ := typeSummary_returned timed
  have same : ({ s with locked := false } : DaemonStatistics) = s := by rw [← h.free]
  simp only [getSummary, withLock, h.free, Bool.false_eq_true, if_false, found]
  exact ⟨_, Prod.ext same rfl⟩

theorem count_timed {t : TypeStats} (timed : t.totalTime.isSome = true) (success : Bool) (duration : ℚ) :
    ∃ t', t.count success duration = some t' ∧ t'.totalTime.isSome = true := by
  obtain ⟨total, some⟩ := Option.isSome_iff_exists.mp timed
  cases success with
  | true => exact ⟨_, by simp only [TypeStats.count, if_true, some, Option.map_some]; rfl, rfl⟩
  | false => exact ⟨_, rfl, timed⟩

/-- A job that is completed is counted, and saving it in the same breath blocks. -/
theorem complete_cases (timed : ∀ k t, s.byFileType.lookup k = some t → t.totalTime.isSome = true) (filename : String)
    (job : JobStats) (success : Bool) (error : Option String) (writable : Bool) :
    ∃ s', (s'.file = s.file ∧ s'.atSave = s.atSave ∧
        ∀ k t, s'.byFileType.lookup k = some t → t.totalTime.isSome = true) ∧
      s.complete filename job success error writable =
        if s.now - s.lastSave > saveInterval then s'.save writable else (s', .returned ()) := by
  have there : ((s.byFileType.lookup job.fileType).getD ⟨0, 0, some 0⟩).totalTime.isSome = true := by
    cases found : s.byFileType.lookup job.fileType with
    | none => rfl
    | some t => exact timed _ t found
  obtain ⟨t', counted, timed'⟩ := count_timed there success (s.now - job.startTime)
  have later (k : String) (t : TypeStats) (found : (s.byFileType.insert job.fileType t').lookup k = some t) :
      t.totalTime.isSome = true := by
    by_cases same : k = job.fileType
    · subst same
      rw [AList.lookup_insert] at found
      cases found
      exact timed'
    · rw [AList.lookup_insert_ne same] at found
      exact timed k t found
  cases success with
  | true =>
    simp only [complete, if_true, counted]
    refine ⟨_, ?_, rfl⟩
    exact ⟨rfl, rfl, later⟩
  | false =>
    simp only [complete, Bool.false_eq_true, if_false, counted]
    refine ⟨_, ?_, rfl⟩
    exact ⟨rfl, rfl, later⟩

/-- From a fresh state a call returns exactly if it saves nothing, and the state stays fresh. -/
theorem exec_fresh (h : s.Fresh) (call : StatsCall) :
    ((s.exec call).2 = true ↔ s.Unsaved call) ∧ (s.Unsaved call → (s.step call).Fresh) := by
  cases call with
  | jobStarted filename fileType size =>
    simp only [step, exec, jobStarted, withLock, h.free, Bool.false_eq_true, if_false]
    exact ⟨iff_of_true rfl trivial, fun _ => ⟨rfl, h.noFile, h.noSave, h.timed⟩⟩
  | jobCompleted filename success error writable =>
    cases found : s.currentJobs.lookup filename with
    | none =>
      have idle : filename ∉ s.currentJobs := AList.lookup_eq_none.mp found
      simp only [step, exec, jobCompleted, withLock, h.free, Bool.false_eq_true, if_false, found]
      exact ⟨iff_of_true rfl fun there => absurd there idle, fun _ => ⟨rfl, h.noFile, h.noSave, h.timed⟩⟩
    | some job =>
      have there : filename ∈ s.currentJobs := AList.lookup_isSome.mp (by rw [found]; rfl)
      have held : ({ s with locked := true } : DaemonStatistics).currentJobs.lookup filename = some job := found
      obtain ⟨s', ⟨file, atSave, timed⟩, counted⟩ :=
        complete_cases (s := { s with locked := true }) h.timed filename job success error writable
      by_cases late : s.now - s.lastSave > saveInterval
      · obtain ⟨s'', blocked⟩ := save_blocked s' writable
        rw [if_pos late, blocked] at counted
        have run : s.jobCompleted filename success error writable = (s'', .blocked) := by
          apply withLock_blocked h.free
          simp only [held, counted]
        have saves : ¬s.Unsaved (.jobCompleted filename success error writable) :=
          fun unsaved => absurd (unsaved there) (not_le.mpr late)
        simp only [step, exec, run]
        exact ⟨iff_of_false Bool.false_ne_true saves, fun unsaved => absurd unsaved saves⟩
      · rw [if_neg late] at counted
        have run : s.jobCompleted filename success error writable = ({ s' with locked := false }, .returned ()) := by
          apply withLock_returned h.free
          simp only [held, counted]
        simp only [step, exec, run]
        exact ⟨iff_of_true rfl fun _ => not_lt.mp late,
          fun _ => ⟨rfl, file.trans h.noFile, atSave.trans h.noSave, timed⟩⟩
  | jobRetried filename =>
    simp only [step, exec, jobRetried, withLock, h.free, Bool.false_eq_true, if_false]
    cases s.currentJobs.lookup filename with
    | none => exact ⟨iff_of_true rfl trivial, fun _ => ⟨rfl, h.noFile, h.noSave, h.timed⟩⟩
    | some job => exact ⟨iff_of_true rfl trivial, fun _ => ⟨rfl, h.noFile, h.noSave, h.timed⟩⟩
  | getSummary =>
    obtain ⟨summary, run⟩ := h.getSummary_returned
    simp only [step, exec, run]
    exact ⟨iff_of_true rfl trivial, fun _ => h⟩
  | save writable =>
    obtain ⟨s', run⟩ := save_blocked s writable
    simp only [step, exec, run]
    exact ⟨iff_of_false Bool.false_ne_true id, False.elim⟩
  | restart =>
    have start : new s.file s.now = { lastSave := s.now, now := s.now, file := none } := by
      rw [h.noFile]
      rfl
    simp only [step, exec, start]
    exact ⟨iff_of_true trivial trivial, fun _ => ⟨rfl, rfl, h.noSave, fun k t found => absurd found (by simp)⟩⟩
  | tick now => exact ⟨iff_of_true rfl trivial, fun _ => ⟨h.free, h.noFile, h.noSave, h.timed⟩⟩

end calls

theorem fresh_new (now : ℚ) : (new none now).Fresh := ⟨rfl, rfl, rfl, fun k t found => absurd found (by simp [new, load])⟩

/-- The statistics survive a sequence of calls exactly if nothing is saved in it. -/
theorem survives_iff (now : ℚ) (calls : List StatsCall) :
    EachStep step Survived (new none now) calls ↔ EachStep step Unsaved (new none now) calls := by
  constructor
  · apply eachStep_of_invariant _ (fresh_new now)
    intro s call fresh survived
    obtain ⟨returns, stays⟩ := exec_fresh fresh call
    have unsaved := returns.mp survived.1
    exact ⟨stays unsaved, unsaved⟩
  · apply eachStep_of_invariant _ (fresh_new now)
    intro s call fresh unsaved
    obtain ⟨returns, stays⟩ := exec_fresh fresh call
    refine ⟨stays unsaved, returns.mpr unsaved, ?_⟩
    intro _ c saved
    exact absurd (fresh.noSave.symm.trans saved) (by simp)

/-- A job is completed in the first minute, and the daemon is stopped. -/
def stopped : List StatsCall :=
  [.jobStarted "a.vmdk" "vmdk" 10, .tick 30, .jobCompleted "a.vmdk" true none true, .save true, .restart]

theorem stopped_blocks : ¬EachStep step Survived (new none 0) stopped := by
  intro survived
  have returned := survived.2.2.2.1.1
  exact absurd returned (by decide +kernel)

end DaemonStatistics

end H2kvm.Daemon
