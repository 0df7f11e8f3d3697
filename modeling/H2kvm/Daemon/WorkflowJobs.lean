import Mathlib.Data.List.Perm.Basic
import H2kvm.Daemon.Workflow
import H2kvm.Daemon.Queueing

namespace H2kvm.Daemon.Workflow

open Framework Names

section workflowBatch

/-- How a sub-job goes: it raises before its start is recorded, or it is started and its conversion ends. -/
inductive Course where
  | refused (error : Name)
  | ran (fileType : String) (fileSizeMb startedAt : ℚ) (error : Option Name)

/-- A sub-job of a batch, with the clock at the steps that read it. A success whose completion raises is put down as a failure
after it. -/
structure SubJob where
  course : Course
  date : Name
  now : Name
  completedAt : ℚ
  recompletedAt : ℚ
  writable : Bool := true

namespace SubJob

def error? (sub : SubJob) : Option Name :=
  match sub.course with
  | .refused error => some error
  | .ran _ _ _ error => error

def succeeds (sub : SubJob) : Bool := sub.error?.isNone

end SubJob

/-- `_move_to_processed` and `_move_to_failed`. -/
def fileAs (files : Files) (source : Path) (dir : Dir) (recordName : Name) (record : Content) : Files :=
  match shutilMove files source ⟨dir, source.name⟩ with
  | some files => files.insert ⟨dir, recordName⟩ record
  | none => files

def moveToProcessed (files : Files) (target jobId date now : Name) : Files :=
  fileAs files ⟨.processing, target⟩ (.processed date) (metadataName target) (.metadata jobId target now)

def moveToFailed (files : Files) (source : Path) (jobId error date now : Name) : Files :=
  fileAs files source (.failed date) (errorName source.name) (.errorContext jobId source.name now error)

/-- What a call of `_process_file` for a batch works on. Which sub-jobs were attempted and which completions were recorded is
kept beside. -/
structure BatchRun where
  files : Files
  stats : DaemonStatistics
  attempted : List Name := []
  completions : List (Name × Bool) := []

namespace BatchRun

variable (b : BatchRun)

/-- The statistics when the clock shows a time. -/
def statsAt (time : ℚ) : DaemonStatistics := { b.stats with now := time }

/-- `stats.job_completed`. -/
def jobCompleted (jobId : Name) (error : Option Name) (time : ℚ) (writable : Bool) : BatchRun × Outcome Unit :=
  match (b.statsAt time).jobCompleted (String.ofList jobId) error.isNone (error.map String.ofList) writable with
  | (stats, .returned ()) =>
    let recorded := if String.ofList jobId ∈ b.stats.currentJobs then [(jobId, error.isNone)] else []
    ({ b with stats, completions := b.completions ++ recorded }, .returned ())
  | (stats, other) => ({ b with stats }, other)

/-- The `except` block of `_process_single_job`. -/
def fail (target jobId error : Name) (sub : SubJob) (time : ℚ) : BatchRun × Outcome Unit :=
  let files := moveToFailed b.files ⟨.processing, target⟩ jobId error sub.date sub.now
  ({ b with files } : BatchRun).jobCompleted jobId (some error) time sub.writable

/-- The end of a conversion. What the statistics raise after a success is taken for a failure. -/
def finish (target jobId : Name) (sub : SubJob) : Option Name → BatchRun × Outcome Unit
  | some error => b.fail target jobId error sub sub.completedAt
  | none =>
    let files := moveToProcessed b.files target jobId sub.date sub.now
    match ({ b with files } : BatchRun).jobCompleted jobId none sub.completedAt sub.writable with
    | (b, .raised raised) => b.fail target jobId raised.toList sub sub.recompletedAt
    | (b, .blocked) => (b, .blocked)
    | (b, .returned ()) => (b, .returned ())

/-- `_process_single_job` for a sub-job. -/
def processSingleJob (target jobId : Name) (sub : SubJob) : BatchRun × Outcome Unit :=
  let b := { b with attempted := b.attempted ++ [jobId] }
  match sub.course with
  | .refused error => b.fail target jobId error sub sub.completedAt
  | .ran fileType fileSizeMb startedAt error =>
    match (b.statsAt startedAt).jobStarted (String.ofList jobId) fileType fileSizeMb with
    | (stats, .blocked) => ({ b with stats }, .blocked)
    | (stats, .raised raised) => ({ b with stats } : BatchRun).fail target jobId raised.toList sub sub.completedAt
    | (stats, .returned ()) => ({ b with stats } : BatchRun).finish target jobId sub error

/-- The loop over the sub-jobs, up to one that raises or blocks. -/
def processJobs (target : Name) (b : BatchRun) : List (Name × SubJob) → BatchRun × Outcome Unit
  | [] => (b, .returned ())
  | (jobId, sub) :: subs =>
    match b.processSingleJob target jobId sub with
    | (b, .returned ()) => processJobs target b subs
    | other => other

/-- The name a file gets in `processing`. -/
def processingName (file timestamp : Name) : Name :=
  if ⟨.processing, file⟩ ∈ b.files then stampedName file timestamp else file

/-- The sub-jobs with their ids. -/
def numbered (target : Name) (subs : List SubJob) : List (Name × SubJob) := (batchIds (stem target) subs.length).zip subs

/-- `_process_file` for a batch, from the drop zone on. -/
def processFile (file timestamp : Name) (subs : List SubJob) (date now : Name) : BatchRun × Outcome Unit :=
  let target := b.processingName file timestamp
  match shutilMove b.files ⟨.toBeProcessed, file⟩ ⟨.processing, target⟩ with
  | none => (b, .returned ())
  | some files =>
    match processJobs target { b with files } (numbered target subs) with
    | (b, .returned ()) =>
      let files := if ⟨.processing, target⟩ ∈ b.files then moveToProcessed b.files target (stem target) date now else b.files
      ({ b with files }, .returned ())
    | (b, .raised raised) =>
      let files :=
        if ⟨.processing, target⟩ ∈ b.files then moveToFailed b.files ⟨.processing, target⟩ (stem file) raised.toList date now
        else b.files
      ({ b with files }, .returned ())
    | (b, .blocked) => (b, .blocked)

/-- The job's type was not loaded from a summary, which has no times. -/
def Timed (stats : DaemonStatistics) (fileType : String) : Prop :=
  ∀ t, stats.byFileType.lookup fileType = some t → t.totalTime.isSome = true

/-- The completion of a sub-job is recorded as it was: the statistics know the job, are not due to be saved and have the
times of its type. -/
def Recordable (stats : DaemonStatistics) (jobId : Name) (sub : SubJob) : Prop :=
  sub.completedAt - stats.lastSave ≤ DaemonStatistics.saveInterval ∧
    match sub.course with
    | .refused _ => String.ofList jobId ∈ stats.currentJobs
    | .ran fileType _ _ error => error = none → Timed stats fileType

/-- The batch is filed by its first sub-job, so that one fails or all succeed; and every completion can be recorded. -/
structure Foreseen (target : Name) (subs : List SubJob) : Prop where
  first : ∀ sub rest, subs = sub :: rest → sub.succeeds = true → ∀ later ∈ rest, later.succeeds = true
  recordable : ∀ p ∈ numbered target subs, Recordable b.stats p.1 p.2

/-- What filing a batch promises, for the batch file with the content `n`. -/
structure Truthful (target : Name) (subs : List SubJob) (n : Nat) (result : BatchRun × Outcome Unit) : Prop where
  finishes : result.2 = .returned ()
  attempted : result.1.attempted = b.attempted ++ batchIds (stem target) subs.length
  processed : (∃ date, result.1.files.lookup ⟨.processed date, target⟩ = some (.job n)) ↔ ∀ sub ∈ subs, sub.succeeds = true
  failed : (∃ date, result.1.files.lookup ⟨.failed date, target⟩ = some (.job n)) ↔ ¬ ∀ sub ∈ subs, sub.succeeds = true
  metadata : ∀ date, result.1.files.lookup ⟨.processed date, target⟩ = some (.job n) →
    ∃ jobId now, result.1.files.lookup ⟨.processed date, metadataName target⟩ = some (.metadata jobId target now)
  errorContext : ∀ date, result.1.files.lookup ⟨.failed date, target⟩ = some (.job n) →
    ∃ jobId now error, ∃ sub ∈ subs, sub.error? = some error ∧
      result.1.files.lookup ⟨.failed date, errorName target⟩ = some (.errorContext jobId target now error)
  completions : result.1.completions =
    b.completions ++ (batchIds (stem target) subs.length).zip (subs.map SubJob.succeeds)

end BatchRun

end workflowBatch

section workflowJobs

/-- The job a call is running: from where it is tracked to where the `finally` block has been. -/
def Phase.job? : Phase → Option Job
  | .started job => some job
  | .converting job => some job
  | .filing job _ => some job
  | .completing job _ => some job
  | .closing job _ => some job
  | .recording _ _ next => next.job?
  | _ => none

/-- Where the job's output goes, once that is decided. -/
def Job.outputDir (job : Job) : Option (Name × Name) := job.output.map fun date => (date, job.id)

namespace State

variable (s : State)

def running : List Job := s.calls.filterMap (·.phase.job?)

/-- The tracked jobs are the running ones, and no two of them have the same output directory. -/
structure Apart : Prop where
  ids : s.activeJobs.keys.Perm (s.running.map (·.id))
  paths : ∀ job ∈ s.running, s.activeJobs.lookup job.id = some ⟨.processing, job.target⟩
  outputs : (s.running.filterMap Job.outputDir).Nodup

/-- A step keeps the jobs apart, and if it is of a call it leaves the entries of the other calls alone. -/
structure KeepsApart (a : Action) : Prop where
  apart : (s.step a).Apart
  undisturbed : ∀ i act, a = .call i act → ∀ k c job, k ≠ i → s.calls[k]? = some c → c.phase.job? = some job →
    (s.step a).activeJobs.lookup job.id = s.activeJobs.lookup job.id

/-- A job starts while none of its id is running, and a failed file is cleaned up after while no running job's id starts
with its stem. -/
def Separate : Action → Prop
  | .call i .startJob => ∀ c target id rest isBatch, s.calls[i]? = some c → c.phase = .looping target (id :: rest) isBatch →
      id ∉ s.running.map (·.id)
  | .call i .cleanup => ∀ c target error, s.calls[i]? = some c → c.phase = .failing target error →
      ∀ job ∈ s.running, ¬ stem c.file <+: job.id
  | _ => True

end State

section Jobs

variable {active : Dict Name Path} {jobs others : List Job} {job : Job}

/-- What `Apart` says of a list of jobs, up to their output directories. -/
def Tracks (active : Dict Name Path) (jobs : List Job) : Prop :=
  active.keys.Perm (jobs.map (·.id)) ∧ ∀ job ∈ jobs, active.lookup job.id = some ⟨.processing, job.target⟩

theorem Tracks.nodup (h : Tracks active jobs) : (jobs.map (·.id)).Nodup :=
  h.1.nodup_iff.mp active.nodupKeys

theorem Tracks.outputs (h : Tracks active jobs) : (jobs.filterMap Job.outputDir).Nodup := by
  have distinct := h.nodup
  clear h
  induction jobs with
  | nil => exact List.Pairwise.nil
  | cons job jobs ih =>
    rw [List.map_cons, List.nodup_cons] at distinct
    rw [List.filterMap_cons]
    split
    · exact ih distinct.2
    next dir isDir =>
      refine List.nodup_cons.mpr ⟨fun member => distinct.1 ?_, ih distinct.2⟩
      obtain ⟨other, listed, same⟩ := List.mem_filterMap.mp member
      have id : job.id = other.id := by
        obtain ⟨_, _, rfl⟩ := Option.map_eq_some_iff.mp isDir
        obtain ⟨_, _, pair⟩ := Option.map_eq_some_iff.mp same
        exact (Prod.mk.inj pair).2.symm
      rw [id]
      exact List.mem_map_of_mem listed

theorem apart_iff {s : State} : s.Apart ↔ Tracks s.activeJobs s.running := by
  constructor
  · exact fun h => ⟨h.ids, h.paths⟩
  · exact fun h => ⟨h.1, h.2, h.outputs⟩

def Job.key (job : Job) : Name × Name := (job.id, job.target)

/-- Only the ids and the paths count, in any order. -/
theorem Tracks.congr {jobs' : List Job} (same : (jobs.map Job.key).Perm (jobs'.map Job.key)) :
    Tracks active jobs ↔ Tracks active jobs' := by
  have ids : (jobs.map (·.id)).Perm (jobs'.map (·.id)) := by
    have := same.map Prod.fst
    rwa [List.map_map, List.map_map] at this
  have members : ∀ {l : List Job}, (∀ job ∈ l, active.lookup job.id = some ⟨.processing, job.target⟩) ↔
      ∀ key ∈ l.map Job.key, active.lookup key.1 = some ⟨.processing, key.2⟩ := by
    intro l
    rw [List.forall_mem_map]
    rfl
  unfold Tracks
  rw [members, members]
  exact and_congr ⟨fun h => h.trans ids, fun h => h.trans ids.symm⟩
    (forall_congr' fun key => imp_congr_left same.mem_iff)

theorem perm_keys_iff {ids : List Name} : active.keys.Perm ids ↔ ids.Nodup ∧ ∀ id, id ∈ active ↔ id ∈ ids := by
  constructor
  · exact fun h => ⟨h.nodup_iff.mp active.nodupKeys, fun id => h.mem_iff⟩
  · exact fun ⟨distinct, same⟩ => (List.perm_ext_iff_of_nodup active.nodupKeys distinct).mpr same

theorem tracks_insert (job : Job) (h : Tracks active others) :
    Tracks (active.insert job.id ⟨.processing, job.target⟩) (job :: others) ↔ job.id ∉ others.map (·.id) := by
  constructor
  · exact fun tracks => (List.nodup_cons.mp tracks.nodup).1
  · intro fresh
    refine ⟨perm_keys_iff.mpr ⟨List.nodup_cons.mpr ⟨fresh, h.nodup⟩, fun id => ?_⟩, fun j member => ?_⟩
    · rw [AList.mem_insert, List.map_cons, List.mem_cons, (perm_keys_iff.mp h.1).2]
    · cases List.mem_cons.mp member with
      | inl same =>
        rw [same]
        exact AList.lookup_insert active
      | inr other =>
        have apart : j.id ≠ job.id := fun same => fresh (same ▸ List.mem_map_of_mem other)
        rw [AList.lookup_insert_ne apart]
        exact h.2 j other

theorem tracks_erase (h : Tracks active (job :: others)) : Tracks (active.erase job.id) others := by
  have distinct := h.nodup
  rw [List.map_cons, List.nodup_cons] at distinct
  obtain ⟨fresh, distinct⟩ := distinct
  refine ⟨perm_keys_iff.mpr ⟨distinct, fun id => ?_⟩, fun j member => ?_⟩
  · rw [AList.mem_erase, (perm_keys_iff.mp h.1).2, List.map_cons, List.mem_cons]
    constructor
    · exact fun ⟨other, member⟩ => member.resolve_left other
    · exact fun member => ⟨fun same => fresh (same ▸ member), .inr member⟩
  · have apart : j.id ≠ job.id := fun same => fresh (same ▸ List.mem_map_of_mem member)
    rw [AList.lookup_erase_ne apart]
    exact h.2 j (List.mem_cons_of_mem _ member)

theorem lookup_foldl_erase {keys : List Name} {id : Name} :
    (keys.foldl (fun d k => d.erase k) active).lookup id = if id ∈ keys then none else active.lookup id := by
  induction keys generalizing active with
  | nil => simp
  | cons k keys ih =>
    rw [List.foldl_cons, ih]
    by_cases same : id = k
    · subst same
      simp
    · simp [same, AList.lookup_erase_ne same]

/-- What is left after a clean-up. -/
theorem lookup_cleanActiveJobs {s : State} {file id : Name} :
    (s.cleanActiveJobs file).lookup id = if stem file <+: id then none else s.activeJobs.lookup id := by
  unfold State.cleanActiveJobs
  rw [lookup_foldl_erase]
  by_cases starts : stem file <+: id
  · rw [if_pos starts]
    split
    · rfl
    next kept =>
      by_contra there
      have member : id ∈ s.activeJobs.keys := AList.lookup_isSome.mp (Option.isSome_iff_ne_none.mpr there)
      exact kept (List.mem_filter.mpr ⟨member, List.isPrefixOf_iff_prefix.mpr starts⟩)
  · rw [if_neg starts, if_neg]
    exact fun member => starts (List.isPrefixOf_iff_prefix.mp (List.mem_filter.mp member).2)

theorem tracks_clean {s : State} {file : Name} (h : Tracks s.activeJobs others) :
    Tracks (s.cleanActiveJobs file) others ↔ ∀ job ∈ others, ¬ stem file <+: job.id := by
  constructor
  · intro tracks job member starts
    have entry := tracks.2 job member
    rw [lookup_cleanActiveJobs, if_pos starts] at entry
    cases entry
  · intro apart
    refine ⟨perm_keys_iff.mpr ⟨h.nodup, fun id => ?_⟩, fun job member => ?_⟩
    · rw [← AList.lookup_isSome, lookup_cleanActiveJobs, ← (perm_keys_iff.mp h.1).2]
      split
      next starts =>
        refine iff_of_false Bool.false_ne_true fun there => ?_
        obtain ⟨job, member, rfl⟩ := List.mem_map.mp ((perm_keys_iff.mp h.1).2 id |>.mp there)
        exact apart job member starts
      · exact AList.lookup_isSome
    · rw [lookup_cleanActiveJobs, if_neg (apart job member)]
      exact h.2 job member

end Jobs

section Steps

variable {s t : State} {i : Nat} {c : Call} {p : Phase}

/-- The jobs of the other calls. -/
def State.others (s : State) (i : Nat) : List Job := (s.calls.eraseIdx i).filterMap (·.phase.job?)

theorem running_perm (found : s.calls[i]? = some c) : s.running.Perm (c.phase.job?.toList ++ s.others i) := by
  obtain ⟨before, after, was, erased, -⟩ := split_at found
  unfold State.running State.others
  rw [erased, was, List.filterMap_append, List.filterMap_append, List.filterMap_cons]
  cases c.phase.job? with
  | none => exact List.Perm.refl _
  | some job => exact List.perm_middle

theorem calls_setPhase (found : s.calls[i]? = some c) :
    (s.setPhase i p).calls = s.calls.set i { c with phase := p } := by
  unfold State.setPhase
  rw [List.modify_eq_set_getElem?, found]
  rfl

theorem running_setPhase (found : s.calls[i]? = some c) : (s.setPhase i p).running.Perm (p.job?.toList ++ s.others i) := by
  have now : (s.setPhase i p).calls[i]? = some { c with phase := p } := by
    rw [calls_setPhase found]
    exact List.getElem?_set_self (List.getElem?_eq_some_iff.mp found).1
  have same : (s.setPhase i p).others i = s.others i := by
    unfold State.others
    rw [calls_setPhase found, List.eraseIdx_set_eq]
  have := running_perm now
  rwa [same] at this

/-- Nothing that counts for the tracking has changed. -/
def Quiet (s t : State) : Prop := t.activeJobs = s.activeJobs ∧ (t.running.map Job.key).Perm (s.running.map Job.key)

theorem Quiet.setPhase (found : s.calls[i]? = some c) (calls : t.calls = s.calls) (active : t.activeJobs = s.activeJobs)
    (same : p.job?.map Job.key = c.phase.job?.map Job.key) : Quiet s (t.setPhase i p) := by
  refine ⟨active, ?_⟩
  have after := (running_setPhase (p := p) (calls ▸ found : t.calls[i]? = some c)).map Job.key
  have before := (running_perm found).map Job.key
  have others : t.others i = s.others i := by
    unfold State.others
    rw [calls]
  rw [others] at after
  refine after.trans (List.Perm.trans ?_ before.symm)
  rw [List.map_append, List.map_append]
  have : p.job?.toList.map Job.key = c.phase.job?.toList.map Job.key := by
    rw [← Option.toList_map, ← Option.toList_map, same]
  rw [this]

theorem Quiet.fileAs {source : Path} {dir : Dir} {recordName : Name} {record : Content} (found : s.calls[i]? = some c)
    (same : p.job?.map Job.key = c.phase.job?.map Job.key) : Quiet s (s.fileAs i source dir recordName record p) := by
  unfold State.fileAs
  split
  · exact .setPhase found rfl rfl same
  · exact .setPhase found rfl rfl same

/-- Every step of a call that neither starts nor ends a job nor cleans up. -/
theorem quiet_callStep (found : s.calls[i]? = some c) {act : CallAction} (starts : act ≠ .startJob) (closes : act ≠ .close)
    (cleans : act ≠ .cleanup) : Quiet s (s.callStep i c.file c.phase act) := by
  have unchanged : Quiet s s := ⟨rfl, List.Perm.refl _⟩
  obtain ⟨file, phase⟩ := c
  cases act with
  | startJob => exact absurd rfl starts
  | close => exact absurd rfl closes
  | cleanup => exact absurd rfl cleans
  | choose timestamp =>
    cases phase with
    | taken => exact .setPhase found rfl rfl rfl
    | _ => exact unchanged
  | move error =>
    cases phase with
    | chosen target =>
      show Quiet s (match shutilMove _ _ _ with | some _ => _ | none => _)
      split
      · exact .setPhase found rfl rfl rfl
      · exact .setPhase found rfl rfl rfl
    | _ => exact unchanged
  | load loaded =>
    cases phase with
    | moved target => cases loaded <;> exact .setPhase found rfl rfl rfl
    | _ => exact unchanged
  | output date =>
    cases phase with
    | started job => cases date <;> exact .setPhase found rfl rfl rfl
    | _ => exact unchanged
  | convert error =>
    cases phase with
    | converting job => exact .setPhase found rfl rfl rfl
    | _ => exact unchanged
  | file date now =>
    cases phase with
    | filing job error => cases error <;> exact .fileAs found rfl
    | lastFiling target => exact .fileAs found rfl
    | cleaned target error => exact .fileAs found rfl
    | _ => exact unchanged
  | record =>
    cases phase with
    | recording path record next => exact .setPhase found rfl rfl rfl
    | _ => exact unchanged
  | complete raised =>
    cases phase with
    | completing job error => cases raised <;> cases error <;> exact .setPhase found rfl rfl rfl
    | _ => exact unchanged

theorem keepsApart_of_quiet {a : Action} (h : s.Apart) (quiet : Quiet s (s.step a)) : s.KeepsApart a := by
  refine ⟨apart_iff.mpr ?_, fun i act _ k c job _ _ _ => by rw [quiet.1]⟩
  rw [quiet.1, Tracks.congr quiet.2]
  exact apart_iff.mp h

/-- A running job of another call is among the others. -/
theorem mem_others {k : Nat} {c' : Call} {job : Job} (other : k ≠ i) (found : s.calls[k]? = some c')
    (runs : c'.phase.job? = some job) : job ∈ s.others i := by
  refine List.mem_filterMap.mpr ⟨c', ?_, runs⟩
  rw [List.mem_eraseIdx_iff_getElem?]
  exact ⟨k, other, found⟩

theorem keepsApart_startJob {target id : Name} {rest : List Name} {isBatch : Bool} (h : s.Apart) (found : s.calls[i]? = some c)
    (loops : c.phase = .looping target (id :: rest) isBatch) :
    s.KeepsApart (.call i .startJob) ↔ id ∉ s.running.map (·.id) := by
  have alone : s.running.Perm (s.others i) := by
    have := running_perm found
    rwa [loops] at this
  have tracked : Tracks s.activeJobs (s.others i) := (Tracks.congr (alone.map _)).mp (apart_iff.mp h)
  have stepped : s.step (.call i .startJob) =
      ({ s with activeJobs := s.activeJobs.insert id ⟨.processing, target⟩ } : State).setPhase i
        (.started { target, id, rest, isBatch }) := by
    simp only [State.step, found, loops]
    rfl
  have now : (s.step (.call i .startJob)).running.Perm ({ target, id, rest, isBatch } :: s.others i) := by
    rw [stepped]
    exact running_setPhase (s := { s with activeJobs := s.activeJobs.insert id ⟨.processing, target⟩ }) found
  have iff : (s.step (.call i .startJob)).Apart ↔ id ∉ s.running.map (·.id) := by
    rw [apart_iff, Tracks.congr (now.map _), (alone.map _).mem_iff, stepped]
    exact tracks_insert { target, id, rest, isBatch } tracked
  constructor
  · exact fun kept => iff.mp kept.apart
  · intro fresh
    refine ⟨iff.mpr fresh, fun i' act same k c' job other there runs => ?_⟩
    cases same
    have apart : job.id ≠ id := by
      intro equal
      rw [(alone.map _).mem_iff] at fresh
      exact fresh (equal ▸ List.mem_map_of_mem (mem_others other there runs))
    rw [stepped]
    exact AList.lookup_insert_ne apart

theorem keepsApart_cleanup {target : Option Name} {error : Name} (h : s.Apart) (found : s.calls[i]? = some c)
    (fails : c.phase = .failing target error) :
    s.KeepsApart (.call i .cleanup) ↔ ∀ job ∈ s.running, ¬ stem c.file <+: job.id := by
  have alone : s.running.Perm (s.others i) := by
    have := running_perm found
    rwa [fails] at this
  have tracked : Tracks s.activeJobs s.running := apart_iff.mp h
  have stepped : s.step (.call i .cleanup) =
      ({ s with activeJobs := s.cleanActiveJobs c.file } : State).setPhase i (.cleaned target error) := by
    simp only [State.step, found, fails]
    rfl
  have now : (s.step (.call i .cleanup)).running.Perm s.running := by
    rw [stepped]
    refine List.Perm.trans ?_ alone.symm
    exact running_setPhase (s := { s with activeJobs := s.cleanActiveJobs c.file }) found
  have iff : (s.step (.call i .cleanup)).Apart ↔ ∀ job ∈ s.running, ¬ stem c.file <+: job.id := by
    rw [apart_iff, Tracks.congr (now.map _), stepped]
    exact tracks_clean tracked
  constructor
  · exact fun kept => iff.mp kept.apart
  · intro apart
    refine ⟨iff.mpr apart, fun i' act same k c' job other there runs => ?_⟩
    cases same
    have member : job ∈ s.running := alone.mem_iff.mpr (mem_others other there runs)
    rw [stepped]
    exact lookup_cleanActiveJobs.trans (if_neg (apart job member))

theorem keepsApart_close {job : Job} {raised : Option Name} (h : s.Apart) (found : s.calls[i]? = some c)
    (closes : c.phase = .closing job raised) : s.KeepsApart (.call i .close) := by
  have mine : s.running.Perm (job :: s.others i) := by
    have := running_perm found
    rwa [closes] at this
  have tracked : Tracks s.activeJobs (job :: s.others i) := (Tracks.congr (mine.map _)).mp (apart_iff.mp h)
  obtain ⟨next, idle, stepped⟩ : ∃ next : Phase, next.job? = none ∧ s.step (.call i .close) =
      ({ s with activeJobs := s.activeJobs.erase job.id } : State).setPhase i next := by
    cases raised with
    | none => exact ⟨.looping job.target job.rest job.isBatch, rfl, by simp only [State.step, found, closes]; rfl⟩
    | some error => exact ⟨.failing (some job.target) error, rfl, by simp only [State.step, found, closes]; rfl⟩
  have now : (s.step (.call i .close)).running.Perm (s.others i) := by
    rw [stepped]
    have := running_setPhase (s := { s with activeJobs := s.activeJobs.erase job.id }) (p := next) found
    rwa [idle] at this
  refine ⟨?_, fun i' act same k c' other different there runs => ?_⟩
  · rw [apart_iff, Tracks.congr (now.map _), stepped]
    exact tracks_erase tracked
  · cases same
    have apart : other.id ≠ job.id := by
      intro equal
      have distinct := tracked.nodup
      rw [List.map_cons, List.nodup_cons] at distinct
      exact distinct.1 (equal ▸ List.mem_map_of_mem (mem_others different there runs))
    rw [stepped]
    exact AList.lookup_erase_ne apart

theorem quiet_other {a : Action} (other : ∀ i act, a ≠ .call i act) : Quiet s (s.step a) := by
  have unchanged : Quiet s s := ⟨rfl, List.Perm.refl _⟩
  cases a with
  | call i act => exact absurd rfl (other i act)
  | drop => exact unchanged
  | observe => exact unchanged
  | scan found =>
    rw [State.step]
    split
    · exact unchanged
    · exact unchanged
  | event name =>
    rw [State.step, State.queueFile]
    split
    · split
      · exact unchanged
      · exact unchanged
    · exact unchanged
  | take =>
    rw [State.step]
    split
    · split
      · refine ⟨rfl, ?_⟩
        show ((List.filterMap _ (s.calls ++ [_])).map Job.key).Perm _
        rw [List.filterMap_append]
        exact List.Perm.of_eq (congrArg _ (List.append_nil _))
      · exact unchanged
    · exact unchanged

theorem keepsApart_iff (h : s.Apart) (a : Action) : s.KeepsApart a ↔ s.Separate a := by
  by_cases other : ∀ i act, a ≠ .call i act
  · refine iff_of_true (keepsApart_of_quiet h (quiet_other other)) ?_
    cases a with
    | call i act => exact absurd rfl (other i act)
    | _ => trivial
  · obtain ⟨i, act, rfl⟩ : ∃ i act, a = .call i act := by simpa using other
    cases found : s.calls[i]? with
    | none =>
      have same : s.step (.call i act) = s := by simp only [State.step, found]
      have quiet : Quiet s (s.step (.call i act)) := by
        rw [same]
        exact ⟨rfl, List.Perm.refl _⟩
      refine iff_of_true (keepsApart_of_quiet h quiet) ?_
      cases act with
      | startJob => exact fun c _ _ _ _ there => by rw [found] at there; cases there
      | cleanup => exact fun c _ _ there => by rw [found] at there; cases there
      | _ => trivial
    | some c =>
      have stepped : s.step (.call i act) = s.callStep i c.file c.phase act := by simp only [State.step, found]
      have quiet (q : Quiet s (s.callStep i c.file c.phase act)) : s.KeepsApart (.call i act) :=
        keepsApart_of_quiet h (by rw [stepped]; exact q)
      have unchanged : Quiet s s := ⟨rfl, List.Perm.refl _⟩
      obtain ⟨file, phase⟩ := c
      cases act with
      | startJob =>
        cases phase with
        | looping target jobs isBatch =>
          cases jobs with
          | nil =>
            refine iff_of_true (quiet ?_) fun c target id rest b there loops => ?_
            · exact .setPhase found rfl rfl (by cases isBatch <;> rfl)
            · rw [found] at there
              cases there
              cases loops
          | cons id rest =>
            rw [keepsApart_startJob h found rfl]
            constructor
            · intro fresh c target' id' rest' b there loops
              rw [found] at there
              cases there
              cases loops
              exact fresh
            · exact fun separate => separate _ target id rest isBatch found rfl
        | _ =>
          refine iff_of_true (quiet unchanged) fun c target id rest b there loops => ?_
          rw [found] at there
          cases there
          cases loops
      | cleanup =>
        cases phase with
        | failing target error =>
          rw [keepsApart_cleanup h found rfl]
          constructor
          · intro apart c target' error' there fails
            rw [found] at there
            cases there
            exact apart
          · exact fun separate => separate _ target error found rfl
        | _ =>
          refine iff_of_true (quiet unchanged) fun c target error there fails => ?_
          rw [found] at there
          cases there
          cases fails
      | close =>
        refine iff_of_true ?_ trivial
        cases phase with
        | closing job raised => exact keepsApart_close h found rfl
        | _ => exact quiet unchanged
      | _ => exact iff_of_true (quiet (quiet_callStep found nofun nofun nofun)) trivial

/-- The workers keep their jobs apart in exactly the runs in which each job starts with an id that no running job has, and
each failure outside a job is cleaned up after while no running job's id starts with the stem of the file. -/
theorem apart_iff_separate (as : List Action) :
    EachStep State.step State.KeepsApart {} as ↔ EachStep State.step State.Separate {} as := by
  have initial : ({} : State).Apart := ⟨List.Perm.refl _, fun _ member => absurd member List.not_mem_nil, List.Pairwise.nil⟩
  exact eachStep_congr (I := State.Apart) (fun s a h => keepsApart_iff h a)
    (fun s a h separate => ((keepsApart_iff h a).mpr separate).apart) initial

end Steps

/-- Two files are dropped, queued and taken. -/
def takenTogether (first second : Name) : List Action :=
  [.observe, .scan [], .drop first, .drop second, .event first, .event second, .take, .take]

/-- The way of a call to where its next job starts. -/
def readied (i : Nat) (loaded : Loaded) : List Action := [.call i (.choose []), .call i (.move []), .call i (.load loaded)]

/-- Two files of one stem, and a file that fails to load while the stem of a running one starts with its own. -/
theorem not_apart_stems :
    (¬ EachStep State.step State.KeepsApart {}
      (takenTogether "vm.vmdk".toList "vm.ova".toList ++ readied 0 .single ++ [.call 0 .startJob] ++ readied 1 .single ++
        [.call 1 .startJob])) ∧
    ¬ EachStep State.step State.KeepsApart {}
      (takenTogether "vm10.vmdk".toList "vm1.yaml".toList ++ readied 0 .single ++ [.call 0 .startJob] ++
        readied 1 (.fails []) ++ [.call 1 .cleanup]) := by
  constructor
  · intro each
    have last := (eachStep_iff_prefixes.mp each _ _ List.prefix_rfl).apart.ids.length_eq
    revert last
    decide +kernel
  · intro each
    have last := (eachStep_iff_prefixes.mp each _ _ List.prefix_rfl).apart.ids.length_eq
    revert last
    decide +kernel

end workflowJobs

end H2kvm.Daemon.Workflow
