import H2kvm.Daemon.WorkflowJobs

namespace H2kvm.Daemon.Workflow

open Framework Names

/-- The statistics after calls about one job. -/
structure Kin (jobId : Name) (s s' : DaemonStatistics) : Prop where
  free : s'.locked = false
  lastSave : s'.lastSave = s.lastSave
  others : ∀ k, k ≠ String.ofList jobId → (k ∈ s'.currentJobs ↔ k ∈ s.currentJobs)
  timed : ∀ fileType, BatchRun.Timed s' fileType ↔ BatchRun.Timed s fileType

theorem Kin.trans {jobId : Name} {s s' s'' : DaemonStatistics} (h : Kin jobId s s') (h' : Kin jobId s' s'') :
    Kin jobId s s'' :=
  ⟨h'.free, h'.lastSave.trans h.lastSave, fun k other => (h'.others k other).trans (h.others k other),
    fun fileType => (h'.timed fileType).trans (h.timed fileType)⟩

section Statistics

variable {s : DaemonStatistics} {jobId : Name} {success writable : Bool} {error : Option String}

theorem jobCompleted_unknown (free : s.locked = false) (unknown : String.ofList jobId ∉ s.currentJobs) :
    s.jobCompleted (String.ofList jobId) success error writable = (s, .returned ()) := by
  have same : ({ s with locked := false } : DaemonStatistics) = s := by rw [← free]
  have none : ({ s with locked := true } : DaemonStatistics).currentJobs.lookup (String.ofList jobId) = none :=
    AList.lookup_eq_none.mpr unknown
  unfold DaemonStatistics.jobCompleted DaemonStatistics.withLock
  simp only [free, Bool.false_eq_true, if_false, none]
  exact congrArg (·, _) same

/-- A type keeps having its times, or not having them. -/
theorem timed_insert {byFileType : Dict String TypeStats} {fileType : String} {t : TypeStats}
    (same : t.totalTime.isSome = ((byFileType.lookup fileType).getD ⟨0, 0, some 0⟩).totalTime.isSome) (k : String) :
    (∀ u, (byFileType.insert fileType t).lookup k = some u → u.totalTime.isSome = true) ↔
      ∀ u, byFileType.lookup k = some u → u.totalTime.isSome = true := by
  by_cases here : k = fileType
  · subst here
    rw [AList.lookup_insert]
    cases found : byFileType.lookup k with
    | none =>
      rw [found] at same
      exact iff_of_true (fun u isU => by cases isU; exact same) nofun
    | some u =>
      rw [found] at same
      have same : t.totalTime.isSome = u.totalTime.isSome := same
      constructor
      · intro timed v isV
        cases isV
        rw [← same]
        exact timed t rfl
      · intro timed v isV
        cases isV
        rw [same]
        exact timed u rfl
  · rw [AList.lookup_insert_ne here]

theorem count_cases {t : TypeStats} (duration : ℚ) (timed : success = true → t.totalTime.isSome = true) :
    ∃ t', t.count success duration = some t' ∧ t'.totalTime.isSome = t.totalTime.isSome := by
  cases success with
  | false => exact ⟨_, rfl, rfl⟩
  | true =>
    obtain ⟨total, isTotal⟩ := Option.isSome_iff_exists.mp (timed rfl)
    refine ⟨⟨t.processed + 1, t.failed, some (total + duration)⟩, ?_, (timed rfl).symm⟩
    rw [TypeStats.count, isTotal]
    rfl

theorem timed_iff {fileType : String} :
    BatchRun.Timed s fileType ↔ ((s.byFileType.lookup fileType).getD ⟨0, 0, some 0⟩).totalTime.isSome = true := by
  unfold BatchRun.Timed
  cases s.byFileType.lookup fileType with
  | none => exact iff_of_true nofun rfl
  | some t => exact ⟨fun timed => timed t rfl, fun isTimed u same => by cases same; exact isTimed⟩

theorem jobCompleted_untimed {job : JobStats} (free : s.locked = false)
    (found : s.currentJobs.lookup (String.ofList jobId) = some job)
    (untimed : ((s.byFileType.lookup job.fileType).getD ⟨0, 0, some 0⟩).totalTime = none) :
    ∃ s', s.jobCompleted (String.ofList jobId) true error writable = (s', .raised "'total_time'") ∧ Kin jobId s s' ∧
      s'.now = s.now ∧ String.ofList jobId ∈ s'.currentJobs := by
  have uncounted : ∀ duration, ((s.byFileType.lookup job.fileType).getD ⟨0, 0, some 0⟩).count true duration = none := by
    intro duration
    rw [TypeStats.count, untimed]
    rfl
  have there : ({ s with locked := true } : DaemonStatistics).currentJobs.lookup (String.ofList jobId) = some job := found
  unfold DaemonStatistics.jobCompleted DaemonStatistics.withLock
  rw [free]
  simp only [Bool.false_eq_true, if_false, there, DaemonStatistics.complete, if_true, uncounted]
  refine ⟨_, rfl, ⟨rfl, rfl, fun k other => ?_, fun fileType => ?_⟩, rfl, ?_⟩
  · rw [AList.mem_insert]
    exact or_iff_right other
  · refine timed_insert ?_ fileType
    rfl
  · exact (AList.mem_insert _).mpr (.inl rfl)

/-- Every other job is completed, unless the statistics are due to be saved. -/
theorem jobCompleted_timed {job : JobStats} (free : s.locked = false)
    (found : s.currentJobs.lookup (String.ofList jobId) = some job)
    (timed : success = true → ((s.byFileType.lookup job.fileType).getD ⟨0, 0, some 0⟩).totalTime.isSome = true) :
    ∃ s', s.jobCompleted (String.ofList jobId) success error writable =
        (s', if s.now - s.lastSave > DaemonStatistics.saveInterval then .blocked else .returned ()) ∧
      (s.now - s.lastSave ≤ DaemonStatistics.saveInterval → Kin jobId s s') := by
  obtain ⟨t, counted, same⟩ := count_cases (s.now - job.startTime) timed
  have there : ({ s with locked := true } : DaemonStatistics).currentJobs.lookup (String.ofList jobId) = some job := found
  -- the statistics with the job completed
  obtain ⟨after, kin, completed⟩ : ∃ after : DaemonStatistics,
      Kin jobId s { after with locked := false } ∧
        ({ s with locked := true } : DaemonStatistics).complete (String.ofList jobId) job success error writable =
          if s.now - s.lastSave > DaemonStatistics.saveInterval then after.save writable else (after, .returned ()) := by
    cases success with
    | true =>
      simp only [DaemonStatistics.complete, if_true, counted]
      refine ⟨_, ?_, rfl⟩
      refine ⟨rfl, rfl, fun k other => ?_, fun fileType => ?_⟩
      · rw [AList.mem_erase, AList.mem_insert]
        exact ⟨fun both => both.2.resolve_left other, fun member => ⟨other, .inr member⟩⟩
      · exact timed_insert same fileType
    | false =>
      simp only [DaemonStatistics.complete, Bool.false_eq_true, if_false, counted]
      refine ⟨_, ?_, rfl⟩
      refine ⟨rfl, rfl, fun k other => ?_, fun fileType => ?_⟩
      · rw [AList.mem_erase, AList.mem_insert]
        exact ⟨fun both => both.2.resolve_left other, fun member => ⟨other, .inr member⟩⟩
      · exact timed_insert same fileType
  unfold DaemonStatistics.jobCompleted
  by_cases late : s.now - s.lastSave > DaemonStatistics.saveInterval
  · obtain ⟨blocked, saves⟩ := DaemonStatistics.save_blocked after writable
    rw [if_pos late, saves] at completed
    refine ⟨blocked, ?_, fun early => absurd early (not_le.mpr late)⟩
    rw [if_pos late]
    apply DaemonStatistics.withLock_blocked free
    simp only [there, completed]
  · rw [if_neg late] at completed
    refine ⟨_, ?_, fun _ => kin⟩
    rw [if_neg late]
    apply DaemonStatistics.withLock_returned free
    simp only [there, completed]

end Statistics

section Filing

variable {files : Files} {source : Path} {dir : Dir} {recordName : Name} {record : Content}

/-- A file that is filed is gone from where it was. -/
theorem not_mem_fileAs (filed : dir ≠ source.dir) : source ∉ fileAs files source dir recordName record := by
  unfold fileAs
  cases found : files.lookup source with
  | none =>
    have missing : shutilMove files source ⟨dir, source.name⟩ = none := by rw [shutilMove, found]; rfl
    rw [missing]
    exact AList.lookup_eq_none.mp found
  | some content =>
    have moved : shutilMove files source ⟨dir, source.name⟩ =
        some ((files.erase source).insert ⟨dir, source.name⟩ content) := by rw [shutilMove, found]; rfl
    rw [moved]
    intro member
    have elsewhere : ∀ name, source ≠ ⟨dir, name⟩ := fun name same => filed (congrArg Path.dir same).symm
    have left := ((AList.mem_insert _).mp member).resolve_left (elsewhere _)
    have left := ((AList.mem_insert _).mp left).resolve_left (elsewhere _)
    exact (AList.mem_erase.mp left).1 rfl

/-- A file that is not there is not filed. -/
theorem fileAs_missing (missing : source ∉ files) : fileAs files source dir recordName record = files := by
  unfold fileAs
  rw [shutilMove, AList.lookup_eq_none.mpr missing]
  rfl

theorem lookup_fileAs {n : Nat} (dir : Dir) (record : Content) (only : ∀ path, files.lookup path = some (.job n) ↔ path = source)
    (other : recordName ≠ source.name) (isRecord : record ≠ .job n) :
    (∀ path, (fileAs files source dir recordName record).lookup path = some (.job n) ↔ path = ⟨dir, source.name⟩) ∧
      (fileAs files source dir recordName record).lookup ⟨dir, recordName⟩ = some record := by
  have found : files.lookup source = some (.job n) := (only source).mpr rfl
  have moved : fileAs files source dir recordName record =
      ((files.erase source).insert ⟨dir, source.name⟩ (.job n)).insert ⟨dir, recordName⟩ record := by
    rw [fileAs, shutilMove, found]
    rfl
  rw [moved]
  refine ⟨fun path => ?_, AList.lookup_insert _⟩
  by_cases onRecord : path = ⟨dir, recordName⟩
  · rw [onRecord, AList.lookup_insert]
    refine iff_of_false (fun same => isRecord (Option.some.inj same)) fun same => other (congrArg Path.name same)
  · rw [AList.lookup_insert_ne onRecord]
    by_cases here : path = ⟨dir, source.name⟩
    · rw [here, AList.lookup_insert]
      exact iff_of_true rfl rfl
    · rw [AList.lookup_insert_ne here]
      refine iff_of_false ?_ here
      by_cases there : path = source
      · rw [there, AList.lookup_erase]
        exact nofun
      · rw [AList.lookup_erase_ne there]
        exact (only path).not.mpr there

theorem metadataName_ne (name : Name) : metadataName name ≠ name := by
  unfold metadataName withSuffix
  rw [← List.append_assoc, stem_append_suffix]
  exact fun same => absurd (congrArg List.length same) (by simp)

theorem errorName_ne (name : Name) : errorName name ≠ name := by
  unfold errorName withSuffix
  rw [← List.append_assoc, stem_append_suffix]
  exact fun same => absurd (congrArg List.length same) (by simp)

theorem batchIds_nodup (jobId : Name) (n : Nat) : (batchIds jobId n).Nodup := by
  unfold batchIds
  refine (List.nodup_range).map fun i j same => ?_
  have := numeral_injective (List.append_cancel_left same)
  omega

end Filing

namespace BatchRun

/-- What a call of `job_completed` leaves, with the completions it records. -/
structure Recorded (b b' : BatchRun) (jobId : Name) (recorded : List (Name × Bool)) : Prop where
  files : b'.files = b.files
  attempted : b'.attempted = b.attempted
  completions : b'.completions = b.completions ++ recorded
  kin : Kin jobId b.stats b'.stats

section Completed

variable {b : BatchRun} {jobId : Name} {error : Option Name} {time : ℚ} {writable : Bool}

theorem completed_unknown (free : b.stats.locked = false) (unknown : String.ofList jobId ∉ b.stats.currentJobs) :
    ∃ b', b.jobCompleted jobId error time writable = (b', .returned ()) ∧ Recorded b b' jobId [] := by
  have stats : (b.statsAt time).jobCompleted (String.ofList jobId) error.isNone (error.map String.ofList) writable = _ :=
    jobCompleted_unknown free unknown
  unfold BatchRun.jobCompleted
  rw [stats]
  refine ⟨_, rfl, rfl, rfl, ?_, ⟨free, rfl, fun _ _ => Iff.rfl, fun _ => Iff.rfl⟩⟩
  show b.completions ++ (if _ then _ else _) = _
  rw [if_neg unknown]

theorem completed_untimed {job : JobStats} (time : ℚ) (writable : Bool) (free : b.stats.locked = false)
    (found : b.stats.currentJobs.lookup (String.ofList jobId) = some job)
    (untimed : ((b.stats.byFileType.lookup job.fileType).getD ⟨0, 0, some 0⟩).totalTime = none) :
    ∃ b', b.jobCompleted jobId none time writable = (b', .raised "'total_time'") ∧ Recorded b b' jobId [] ∧
      String.ofList jobId ∈ b'.stats.currentJobs := by
  obtain ⟨s', stats, kin, -, still⟩ : ∃ s', (b.statsAt time).jobCompleted (String.ofList jobId) true none writable = _ ∧ _ :=
    jobCompleted_untimed free found untimed
  have whole : b.jobCompleted jobId none time writable = ({ b with stats := s' }, .raised "'total_time'") := by
    unfold BatchRun.jobCompleted
    rw [show (none : Option Name).isNone = true from rfl, Option.map_none, stats]
  refine ⟨_, whole, ⟨rfl, rfl, (List.append_nil _).symm, ⟨kin.free, kin.lastSave, kin.others, kin.timed⟩⟩, still⟩

theorem completed_timed {job : JobStats} (error : Option Name) (time : ℚ) (writable : Bool) (free : b.stats.locked = false)
    (found : b.stats.currentJobs.lookup (String.ofList jobId) = some job)
    (timed : error.isNone = true → ((b.stats.byFileType.lookup job.fileType).getD ⟨0, 0, some 0⟩).totalTime.isSome = true) :
    (time - b.stats.lastSave > DaemonStatistics.saveInterval ∧
        ∃ b', b.jobCompleted jobId error time writable = (b', .blocked)) ∨
      (time - b.stats.lastSave ≤ DaemonStatistics.saveInterval ∧
        ∃ b', b.jobCompleted jobId error time writable = (b', .returned ()) ∧
          Recorded b b' jobId [(jobId, error.isNone)]) := by
  obtain ⟨s', stats, kin⟩ : ∃ s', (b.statsAt time).jobCompleted (String.ofList jobId) error.isNone
      (error.map String.ofList) writable = _ ∧ _ := jobCompleted_timed free found timed
  have there : String.ofList jobId ∈ b.stats.currentJobs := AList.lookup_isSome.mp (by rw [found]; rfl)
  unfold BatchRun.jobCompleted
  rw [stats]
  by_cases late : (b.statsAt time).now - (b.statsAt time).lastSave > DaemonStatistics.saveInterval
  · rw [if_pos late]
    exact .inl ⟨late, _, rfl⟩
  · have kin := kin (not_lt.mp late)
    rw [if_neg late]
    refine .inr ⟨not_lt.mp late, _, rfl, rfl, rfl, ?_, ⟨kin.free, kin.lastSave, kin.others, kin.timed⟩⟩
    show b.completions ++ (if _ then _ else _) = _
    rw [if_pos there]

end Completed

section Single

variable {b : BatchRun} {target jobId : Name} {sub : SubJob}

/-- The files after a sub-job. -/
def filedBy (files : Files) (target jobId : Name) (sub : SubJob) : Files :=
  match sub.error? with
  | none => moveToProcessed files target jobId sub.date sub.now
  | some error => moveToFailed files ⟨.processing, target⟩ jobId error sub.date sub.now

/-- What a sub-job that comes to its end leaves. -/
structure Attempted (b b' : BatchRun) (target jobId : Name) (sub : SubJob) : Prop where
  files : b'.files = filedBy b.files target jobId sub
  attempted : b'.attempted = b.attempted ++ [jobId]
  kin : Kin jobId b.stats b'.stats
  completions : ∃ recorded, b'.completions = b.completions ++ recorded ∧ recorded.length ≤ 1 ∧
    (recorded = [(jobId, sub.succeeds)] ↔ Recordable b.stats jobId sub)

theorem fail_unknown (target error : Name) (sub : SubJob) (time : ℚ) (free : b.stats.locked = false)
    (unknown : String.ofList jobId ∉ b.stats.currentJobs) :
    ∃ b', b.fail target jobId error sub time = (b', .returned ()) ∧
      Recorded { b with files := moveToFailed b.files ⟨.processing, target⟩ jobId error sub.date sub.now } b' jobId [] := by
  unfold fail
  exact completed_unknown free unknown

theorem fail_known (target error : Name) (sub : SubJob) (time : ℚ) (free : b.stats.locked = false)
    (known : String.ofList jobId ∈ b.stats.currentJobs) :
    (time - b.stats.lastSave > DaemonStatistics.saveInterval ∧ ∃ b', b.fail target jobId error sub time = (b', .blocked)) ∨
      (time - b.stats.lastSave ≤ DaemonStatistics.saveInterval ∧
        ∃ b', b.fail target jobId error sub time = (b', .returned ()) ∧
          Recorded { b with files := moveToFailed b.files ⟨.processing, target⟩ jobId error sub.date sub.now } b' jobId
            [(jobId, false)]) := by
  obtain ⟨job, found⟩ := Option.isSome_iff_exists.mp (AList.lookup_isSome.mpr known)
  unfold fail
  exact completed_timed
    (b := { b with files := moveToFailed b.files ⟨.processing, target⟩ jobId error sub.date sub.now })
    (some error) time sub.writable free found nofun

theorem jobStarted_spec (jobId : Name) (fileType : String) (fileSizeMb time : ℚ) (free : b.stats.locked = false) :
    ∃ s', (b.statsAt time).jobStarted (String.ofList jobId) fileType fileSizeMb = (s', .returned ()) ∧
      Kin jobId b.stats s' ∧ s'.byFileType = b.stats.byFileType ∧
        ∃ job, s'.currentJobs.lookup (String.ofList jobId) = some job ∧ job.fileType = fileType := by
  have unlocked : (b.statsAt time).locked = false := free
  refine ⟨_, DaemonStatistics.withLock_returned unlocked rfl, ⟨rfl, rfl, fun k other => ?_, fun _ => Iff.rfl⟩, rfl,
    _, AList.lookup_insert _, rfl⟩
  show k ∈ AList.insert _ _ _ ↔ _
  rw [AList.mem_insert]
  exact or_iff_right other

/-- The end of a conversion that was started. -/
theorem finish_spec {fileType : String} {job : JobStats} (target : Name) (sub : SubJob) (error : Option Name) (free : b.stats.locked = false)
    (found : b.stats.currentJobs.lookup (String.ofList jobId) = some job) (typed : job.fileType = fileType) :
    (∃ b' recorded, b.finish target jobId sub error = (b', .returned ()) ∧
      Recorded { b with files := match error with
        | none => moveToProcessed b.files target jobId sub.date sub.now
        | some error => moveToFailed b.files ⟨.processing, target⟩ jobId error sub.date sub.now } b' jobId recorded ∧
      recorded.length ≤ 1 ∧ (recorded = [(jobId, error.isNone)] ↔
        sub.completedAt - b.stats.lastSave ≤ DaemonStatistics.saveInterval ∧ (error = none → Timed b.stats fileType))) ∨
    (¬ (sub.completedAt - b.stats.lastSave ≤ DaemonStatistics.saveInterval ∧ (error = none → Timed b.stats fileType)) ∧
      ∃ b', b.finish target jobId sub error = (b', .blocked)) := by
  have known : String.ofList jobId ∈ b.stats.currentJobs := AList.lookup_isSome.mp (by rw [found]; rfl)
  cases error with
  | some error =>
    obtain ⟨late, b', blocked⟩ | ⟨early, b', returned, recorded⟩ :=
      fail_known target error sub sub.completedAt free known
    · exact .inr ⟨fun both => absurd both.1 (not_le.mpr late), b', blocked⟩
    · exact .inl ⟨b', _, returned, recorded, le_refl _, iff_of_true rfl ⟨early, nofun⟩⟩
  | none =>
    let filed : BatchRun := { b with files := moveToProcessed b.files target jobId sub.date sub.now }
    by_cases timed : Timed b.stats fileType
    · have counted : ((b.stats.byFileType.lookup job.fileType).getD ⟨0, 0, some 0⟩).totalTime.isSome = true := by
        rw [typed]
        exact timed_iff.mp timed
      obtain ⟨late, b', blocked⟩ | ⟨early, b', returned, recorded⟩ :=
        completed_timed (b := filed) none sub.completedAt sub.writable free found fun _ => counted
      · refine .inr ⟨fun both => absurd both.1 (not_le.mpr late), b', ?_⟩
        rw [finish, blocked]
      · refine .inl ⟨b', _, ?_, recorded, le_refl _, iff_of_true rfl ⟨early, fun _ => timed⟩⟩
        rw [finish, returned]
    · have uncounted : ((b.stats.byFileType.lookup job.fileType).getD ⟨0, 0, some 0⟩).totalTime = none := by
        rw [typed]
        exact Option.not_isSome_iff_eq_none.mp (timed_iff.not.mp timed)
      obtain ⟨b₁, raised, first, still⟩ :=
        completed_untimed (b := filed) sub.completedAt sub.writable free found uncounted
      have step : b.finish target jobId sub none = b₁.fail target jobId "'total_time'".toList sub sub.recompletedAt := by
        rw [finish, raised]
      have untrue : ¬ (sub.completedAt - b.stats.lastSave ≤ DaemonStatistics.saveInterval ∧
          ((none : Option Name) = none → Timed b.stats fileType)) := fun both => timed (both.2 rfl)
      obtain ⟨-, b', blocked⟩ | ⟨-, b', returned, second⟩ :=
        fail_known target "'total_time'".toList sub sub.recompletedAt first.kin.free still
      · exact .inr ⟨untrue, b', step.trans blocked⟩
      · -- the batch has left `processing`, so it is not filed again
        have gone : (⟨.processing, target⟩ : Path) ∉ b₁.files := by
          rw [first.files]
          exact not_mem_fileAs nofun
        refine .inl ⟨b', [(jobId, false)], step.trans returned, ⟨?_, second.attempted.trans first.attempted, ?_, first.kin.trans second.kin⟩,
          le_refl _, iff_of_false ?_ untrue⟩
        · rw [second.files]
          exact (fileAs_missing gone).trans first.files
        · rw [second.completions]
          show b₁.completions ++ _ = _
          rw [first.completions, List.append_nil]
        · exact fun same => Bool.false_ne_true (congrArg Prod.snd (List.cons.inj same).1)

/-- A sub-job comes to its end, unless the completion is not recordable and saving it blocks. -/
theorem processSingleJob_spec (target jobId : Name) (sub : SubJob) (free : b.stats.locked = false) :
    (∃ b', b.processSingleJob target jobId sub = (b', .returned ()) ∧ Attempted b b' target jobId sub) ∨
      (¬ Recordable b.stats jobId sub ∧ ∃ b', b.processSingleJob target jobId sub = (b', .blocked)) := by
  obtain ⟨course, date, now, completedAt, recompletedAt, writable⟩ := sub
  let tried : BatchRun := { b with attempted := b.attempted ++ [jobId] }
  cases course with
  | refused error =>
    have step : b.processSingleJob target jobId ⟨.refused error, date, now, completedAt, recompletedAt, writable⟩ =
        tried.fail target jobId error ⟨.refused error, date, now, completedAt, recompletedAt, writable⟩ completedAt := rfl
    rw [step]
    by_cases known : String.ofList jobId ∈ b.stats.currentJobs
    · obtain ⟨late, b', blocked⟩ | ⟨early, b', returned, recorded⟩ := fail_known (b := tried) target error
        ⟨.refused error, date, now, completedAt, recompletedAt, writable⟩ completedAt free known
      · exact .inr ⟨fun both => absurd both.1 (not_le.mpr late), b', blocked⟩
      · exact .inl ⟨b', returned, recorded.files, recorded.attempted, recorded.kin, _, recorded.completions, le_refl _,
          iff_of_true rfl ⟨early, known⟩⟩
    · obtain ⟨b', returned, recorded⟩ := fail_unknown (b := tried) target error
        ⟨.refused error, date, now, completedAt, recompletedAt, writable⟩ completedAt free known
      exact .inl ⟨b', returned, recorded.files, recorded.attempted, recorded.kin, _, recorded.completions, Nat.zero_le _,
        iff_of_false nofun fun both => known both.2⟩
  | ran fileType fileSizeMb startedAt error =>
    obtain ⟨s', started, kin, -, job, found, typed⟩ := jobStarted_spec (b := tried) jobId fileType
      fileSizeMb startedAt free
    have step : b.processSingleJob target jobId
        ⟨.ran fileType fileSizeMb startedAt error, date, now, completedAt, recompletedAt, writable⟩ =
          ({ tried with stats := s' } : BatchRun).finish target jobId
            ⟨.ran fileType fileSizeMb startedAt error, date, now, completedAt, recompletedAt, writable⟩ error := by
      unfold processSingleJob
      dsimp only
      rw [started]
    rw [step]
    have same : (completedAt - s'.lastSave ≤ DaemonStatistics.saveInterval ∧ (error = none → Timed s' fileType)) ↔
        Recordable b.stats jobId
          ⟨.ran fileType fileSizeMb startedAt error, date, now, completedAt, recompletedAt, writable⟩ := by
      rw [kin.lastSave, kin.timed]
      rfl
    obtain ⟨b', recorded, returned, left, short, truly⟩ | ⟨untrue, b', blocked⟩ := finish_spec (b := { tried with stats := s' })
      target ⟨.ran fileType fileSizeMb startedAt error, date, now, completedAt, recompletedAt, writable⟩ error kin.free found
      typed
    · refine .inl ⟨b', returned, ?_, left.attempted, kin.trans left.kin, recorded, left.completions, short, truly.trans same⟩
      rw [left.files]
      cases error <;> rfl
    · exact .inr ⟨same.not.mp untrue, b', blocked⟩

end Single

section Loop

variable {b : BatchRun} {target : Name}

theorem recordable_congr {jobId other : Name} {s s' : DaemonStatistics} {sub : SubJob} (kin : Kin jobId s s')
    (different : other ≠ jobId) : Recordable s' other sub ↔ Recordable s other sub := by
  have apart : String.ofList other ≠ String.ofList jobId := fun same => different (String.ofList_injective same)
  unfold Recordable
  rw [kin.lastSave]
  refine and_congr_right fun _ => ?_
  cases sub.course with
  | refused error => exact kin.others _ apart
  | ran fileType size startedAt error => exact imp_congr_right fun _ => kin.timed fileType

/-- The loop comes to its end with every sub-job attempted, unless some completion is not recordable and blocks. -/
theorem processJobs_spec (target : Name) {subs : List (Name × SubJob)} (free : b.stats.locked = false) (distinct : (subs.map Prod.fst).Nodup) :
    (∃ b', processJobs target b subs = (b', .returned ()) ∧
      b'.files = subs.foldl (fun files p => filedBy files target p.1 p.2) b.files ∧
      b'.attempted = b.attempted ++ subs.map Prod.fst ∧
      ∃ recorded, b'.completions = b.completions ++ recorded ∧ recorded.length ≤ subs.length ∧
        (recorded = subs.map (fun p => (p.1, p.2.succeeds)) ↔ ∀ p ∈ subs, Recordable b.stats p.1 p.2)) ∨
    (¬ (∀ p ∈ subs, Recordable b.stats p.1 p.2) ∧ ∃ b', processJobs target b subs = (b', .blocked)) := by
  induction subs generalizing b with
  | nil =>
    refine .inl ⟨b, rfl, rfl, (List.append_nil _).symm, [], (List.append_nil _).symm, le_refl _, ?_⟩
    exact iff_of_true rfl fun _ member => absurd member List.not_mem_nil
  | cons p subs ih =>
    obtain ⟨jobId, sub⟩ := p
    rw [List.map_cons, List.nodup_cons] at distinct
    obtain ⟨fresh, distinct⟩ := distinct
    have fresh : jobId ∉ subs.map Prod.fst := fresh
    rw [List.forall_mem_cons]
    obtain ⟨b₁, returned, first⟩ | ⟨untrue, b₁, blocked⟩ := processSingleJob_spec target jobId sub free
    · have later : (∀ p ∈ subs, Recordable b₁.stats p.1 p.2) ↔ ∀ p ∈ subs, Recordable b.stats p.1 p.2 := by
        refine forall₂_congr fun p member => recordable_congr first.kin fun same => fresh ?_
        rw [← same]
        exact List.mem_map_of_mem (f := Prod.fst) member
      have step : processJobs target b ((jobId, sub) :: subs) = processJobs target b₁ subs := by
        rw [processJobs, returned]
      obtain ⟨l, isL, short, truly⟩ := first.completions
      rw [step]
      obtain ⟨b', ended, files, attempted, rest, isRest, few, allTruly⟩ | ⟨untrue, b', blocked⟩ := ih first.kin.free distinct
      · refine .inl ⟨b', ended, ?_, ?_, l ++ rest, ?_, ?_, ?_⟩
        · rw [files, first.files]
          rfl
        · rw [attempted, first.attempted, List.append_assoc]
          rfl
        · rw [isRest, isL, List.append_assoc]
        · rw [List.length_append, List.length_cons]
          omega
        · rw [← truly, ← later, ← allTruly, List.map_cons]
          constructor
          · intro whole
            -- at most one completion is recorded for each sub-job, so the lists match one by one
            have lengths := congrArg List.length whole
            rw [List.length_append, List.length_cons, List.length_map] at lengths
            have one : l.length = [(jobId, sub.succeeds)].length := by
              rw [List.length_singleton]
              omega
            exact List.append_inj whole one
          · intro both
            rw [both.1, both.2]
            rfl
      · exact .inr ⟨fun both => untrue (later.mpr both.2), b', blocked⟩
    · refine .inr ⟨fun both => untrue both.1, b₁, ?_⟩
      rw [processJobs, blocked]

theorem foldl_filedBy {files : Files} {subs : List (Name × SubJob)} (gone : (⟨.processing, target⟩ : Path) ∉ files) :
    subs.foldl (fun files p => filedBy files target p.1 p.2) files = files := by
  induction subs with
  | nil => rfl
  | cons p subs ih =>
    have same : filedBy files target p.1 p.2 = files := by
      unfold filedBy
      split
      · exact fileAs_missing gone
      · exact fileAs_missing gone
    rw [List.foldl_cons, same, ih]

theorem not_mem_filedBy {files : Files} {jobId : Name} {sub : SubJob} :
    (⟨.processing, target⟩ : Path) ∉ filedBy files target jobId sub := by
  unfold filedBy
  split
  · exact not_mem_fileAs nofun
  · exact not_mem_fileAs nofun

end Loop

section Batch

variable {target : Name} {subs : List SubJob}

theorem numbered_fst : (numbered target subs).map Prod.fst = batchIds (stem target) subs.length := by
  unfold numbered
  rw [List.map_fst_zip]
  simp [batchIds]

theorem numbered_cons (target : Name) (sub : SubJob) (rest : List SubJob) :
    ∃ jobId others, numbered target (sub :: rest) = (jobId, sub) :: others := by
  unfold numbered batchIds
  rw [List.length_cons, List.range_succ_eq_map, List.map_cons, List.zip_cons_cons]
  exact ⟨_, _, rfl⟩

theorem numbered_succeeds : (numbered target subs).map (fun p => (p.1, p.2.succeeds)) =
    (batchIds (stem target) subs.length).zip (subs.map SubJob.succeeds) := by
  unfold numbered
  rw [List.zip_map_right]
  rfl

/-- Where the batch lies once it was filed there. -/
theorem filed_iff {files : Files} {dir : Dir} {n : Nat}
    (only : ∀ path, files.lookup path = some (.job n) ↔ path = ⟨dir, target⟩) :
    ((∃ date, files.lookup ⟨.processed date, target⟩ = some (.job n)) ↔ ∃ date, dir = .processed date) ∧
      ((∃ date, files.lookup ⟨.failed date, target⟩ = some (.job n)) ↔ ∃ date, dir = .failed date) := by
  constructor
  · refine exists_congr fun date => ?_
    rw [only, Path.mk.injEq]
    exact ⟨fun same => same.1.symm, fun same => ⟨same.symm, rfl⟩⟩
  · refine exists_congr fun date => ?_
    rw [only, Path.mk.injEq]
    exact ⟨fun same => same.1.symm, fun same => ⟨same.symm, rfl⟩⟩

end Batch

variable {b : BatchRun} {file timestamp : Name} {n : Nat}

theorem truthful_processed {target jobId date now : Name} {subs : List SubJob} {result : BatchRun × Outcome Unit}
    (finishes : result.2 = .returned ()) (attempted : result.1.attempted = b.attempted ++ batchIds (stem target) subs.length)
    (only : ∀ path, result.1.files.lookup path = some (.job n) ↔ path = ⟨.processed date, target⟩)
    (record : result.1.files.lookup ⟨.processed date, metadataName target⟩ = some (.metadata jobId target now)) :
    b.Truthful target subs n result ↔ (∀ sub ∈ subs, sub.succeeds = true) ∧ result.1.completions =
      b.completions ++ (batchIds (stem target) subs.length).zip (subs.map SubJob.succeeds) := by
  obtain ⟨processed, failed⟩ := filed_iff only
  constructor
  · exact fun truthful => ⟨truthful.processed.mp (processed.mpr ⟨date, rfl⟩), truthful.completions⟩
  · intro ⟨all, completions⟩
    have never : ¬ ∃ date', result.1.files.lookup ⟨.failed date', target⟩ = some (.job n) := by
      rw [failed]
      exact nofun
    refine ⟨finishes, attempted, iff_of_true (processed.mpr ⟨date, rfl⟩) all, iff_of_false never fun no => no all,
      fun date' there => ?_, fun date' there => absurd ⟨date', there⟩ never, completions⟩
    rw [only, Path.mk.injEq] at there
    rw [there.1]
    exact ⟨jobId, now, record⟩

theorem truthful_failed {target jobId date now error : Name} {subs : List SubJob} {result : BatchRun × Outcome Unit} {sub : SubJob}
    (finishes : result.2 = .returned ()) (attempted : result.1.attempted = b.attempted ++ batchIds (stem target) subs.length)
    (only : ∀ path, result.1.files.lookup path = some (.job n) ↔ path = ⟨.failed date, target⟩)
    (record : result.1.files.lookup ⟨.failed date, errorName target⟩ = some (.errorContext jobId target now error))
    (member : sub ∈ subs) (fails : sub.error? = some error) :
    b.Truthful target subs n result ↔ result.1.completions =
      b.completions ++ (batchIds (stem target) subs.length).zip (subs.map SubJob.succeeds) := by
  obtain ⟨processed, failed⟩ := filed_iff only
  have notAll : ¬ ∀ sub ∈ subs, sub.succeeds = true := by
    intro all
    have := all sub member
    rw [SubJob.succeeds, fails] at this
    cases this
  constructor
  · exact fun truthful => truthful.completions
  · intro completions
    have never : ¬ ∃ date', result.1.files.lookup ⟨.processed date', target⟩ = some (.job n) := by
      rw [processed]
      exact nofun
    refine ⟨finishes, attempted, iff_of_false never notAll, iff_of_true (failed.mpr ⟨date, rfl⟩) notAll,
      fun date' there => absurd ⟨date', there⟩ never, fun date' there => ?_, completions⟩
    rw [only, Path.mk.injEq] at there
    rw [there.1]
    exact ⟨jobId, now, error, sub, member, fails, record⟩

theorem processFile_moved (only : ∀ path, b.files.lookup path = some (.job n) ↔ path = ⟨.toBeProcessed, file⟩) (target : Name) :
    ∃ files, shutilMove b.files ⟨.toBeProcessed, file⟩ ⟨.processing, target⟩ = some files ∧
      ∀ path, files.lookup path = some (.job n) ↔ path = ⟨.processing, target⟩ := by
  have found : b.files.lookup ⟨.toBeProcessed, file⟩ = some (.job n) := (only _).mpr rfl
  refine ⟨_, by rw [shutilMove, found]; rfl, fun path => ?_⟩
  by_cases here : path = ⟨.processing, target⟩
  · rw [here, AList.lookup_insert]
    exact iff_of_true rfl rfl
  · rw [AList.lookup_insert_ne here]
    refine iff_of_false ?_ here
    by_cases there : path = ⟨.toBeProcessed, file⟩
    · rw [there, AList.lookup_erase]
      exact nofun
    · rw [AList.lookup_erase_ne there]
      exact (only path).not.mpr there

/-- A batch is filed truthfully exactly if its first sub-job fails or all succeed, and every completion can be recorded. -/
theorem truthful_iff_foreseen (subs : List SubJob) (date now : Name) (free : b.stats.locked = false)
    (only : ∀ path, b.files.lookup path = some (.job n) ↔ path = ⟨.toBeProcessed, file⟩) :
    b.Truthful (b.processingName file timestamp) subs n (b.processFile file timestamp subs date now) ↔
      b.Foreseen (b.processingName file timestamp) subs := by
  generalize isTarget : b.processingName file timestamp = target
  obtain ⟨files, moved, there⟩ := processFile_moved only target
  have distinct : ((numbered target subs).map Prod.fst).Nodup := by
    rw [numbered_fst]
    exact batchIds_nodup _ _
  obtain ⟨b', ended, after, attempted, recorded, completions, -, truly⟩ | ⟨untrue, b', blocked⟩ :=
    processJobs_spec (b := { b with files }) target free distinct
  · have result : b.processFile file timestamp subs date now =
        ({ b' with files := if ⟨.processing, target⟩ ∈ b'.files then moveToProcessed b'.files target (stem target) date now
          else b'.files }, .returned ()) := by
      unfold processFile
      dsimp only
      rw [isTarget, moved]
      dsimp only
      rw [ended]
    rw [numbered_fst] at attempted
    have recordable : (b'.completions =
        b.completions ++ (batchIds (stem target) subs.length).zip (subs.map SubJob.succeeds)) ↔
          ∀ p ∈ numbered target subs, Recordable b.stats p.1 p.2 := by
      rw [completions, ← numbered_succeeds, ← truly]
      exact List.append_right_inj _
    rw [result]
    cases subs with
    | nil =>
      -- nothing was attempted, and the batch is filed at the end
      have after : b'.files = files := after
      have present : (⟨.processing, target⟩ : Path) ∈ b'.files := by
        rw [after]
        exact AList.lookup_isSome.mp (by rw [(there _).mpr rfl]; rfl)
      have still : ∀ path, b'.files.lookup path = some (.job n) ↔ path = ⟨.processing, target⟩ := by
        rw [after]
        exact there
      obtain ⟨place, record⟩ := lookup_fileAs (.processed date) (.metadata (stem target) target now) still
        (metadataName_ne target) nofun
      rw [if_pos present, truthful_processed rfl attempted place record]
      constructor
      · exact fun _ => ⟨nofun, fun p member => absurd member List.not_mem_nil⟩
      · exact fun foreseen => ⟨fun _ member => absurd member List.not_mem_nil, recordable.mpr foreseen.recordable⟩
    | cons sub rest =>
      obtain ⟨jobId, others, isNumbered⟩ := numbered_cons target sub rest
      have after : b'.files = filedBy files target jobId sub := by
        rw [after, isNumbered, List.foldl_cons]
        exact foldl_filedBy not_mem_filedBy
      have gone : (⟨.processing, target⟩ : Path) ∉ b'.files := by
        rw [after]
        exact not_mem_filedBy
      rw [if_neg gone]
      cases outcome : sub.error? with
      | none =>
        have succeeds : sub.succeeds = true := by rw [SubJob.succeeds, outcome]; rfl
        have after : b'.files = moveToProcessed files target jobId sub.date sub.now := by rw [after, filedBy, outcome]
        obtain ⟨place, record⟩ := lookup_fileAs (.processed sub.date) (.metadata jobId target sub.now) there
          (metadataName_ne target) nofun
        rw [moveToProcessed] at after
        rw [← after] at place record
        rw [truthful_processed rfl attempted place record]
        constructor
        · intro ⟨all, complete⟩
          refine ⟨fun _ rest' same _ later member => all later ?_, recordable.mp complete⟩
          rw [same]
          exact List.mem_cons_of_mem _ member
        · intro foreseen
          refine ⟨List.forall_mem_cons.mpr ⟨succeeds, foreseen.first sub rest rfl succeeds⟩, ?_⟩
          exact recordable.mpr foreseen.recordable
      | some error =>
        have after : b'.files = moveToFailed files ⟨.processing, target⟩ jobId error sub.date sub.now := by
          rw [after, filedBy, outcome]
        obtain ⟨place, record⟩ := lookup_fileAs (.failed sub.date) (.errorContext jobId target sub.now error) there
          (errorName_ne target) nofun
        rw [moveToFailed] at after
        rw [← after] at place record
        rw [truthful_failed rfl attempted place record List.mem_cons_self outcome]
        constructor
        · intro complete
          refine ⟨fun first rest' same succeeds => ?_, recordable.mp complete⟩
          cases same
          rw [SubJob.succeeds, outcome] at succeeds
          cases succeeds
        · exact fun foreseen => recordable.mpr foreseen.recordable
  · have result : b.processFile file timestamp subs date now = (b', .blocked) := by
      unfold processFile
      dsimp only
      rw [isTarget, moved]
      dsimp only
      rw [blocked]
    rw [result]
    refine iff_of_false (fun truthful => ?_) fun foreseen => untrue foreseen.recordable
    cases truthful.finishes

/-- A batch file that has just been dropped. -/
def dropped (file : Name) : BatchRun where
  files := (∅ : Files).insert ⟨.toBeProcessed, file⟩ (.job 0)
  stats := DaemonStatistics.new none 0

theorem dropped_only (file : Name) (path : Path) :
    (dropped file).files.lookup path = some (.job 0) ↔ path = ⟨.toBeProcessed, file⟩ := by
  by_cases here : path = ⟨.toBeProcessed, file⟩
  · rw [here]
    exact iff_of_true (AList.lookup_insert _) rfl
  · refine iff_of_false ?_ here
    rw [dropped, AList.lookup_insert_ne here]
    exact nofun

/-- A conversion of a second that starts at once. -/
def conversion (error : Option Name) : SubJob where
  course := .ran "vmdk" 1 0 error
  date := "2026-01-01".toList
  now := []
  completedAt := 1
  recompletedAt := 1

theorem truthful_two_successes :
    (dropped "b.yaml".toList).Truthful "b.yaml".toList [conversion none, conversion none] 0
      ((dropped "b.yaml".toList).processFile "b.yaml".toList [] [conversion none, conversion none] [] []) := by
  have timed : Timed (dropped "b.yaml".toList).stats "vmdk" := nofun
  refine (truthful_iff_foreseen [conversion none, conversion none] [] [] rfl (dropped_only _)).mpr ⟨?_, ?_⟩
  · intro sub rest same _ later member
    cases same
    rw [List.mem_singleton.mp member]
    rfl
  · intro p member
    have isSub : p.2 = conversion none := by
      have := List.of_mem_zip member
      simpa using this.2
    rw [isSub]
    exact ⟨by decide +kernel, fun _ => timed⟩

/-- The first sub-job succeeds and the second fails: the batch is filed as processed. -/
theorem not_truthful_second_fails :
    ¬ (dropped "b.yaml".toList).Truthful "b.yaml".toList [conversion none, conversion (some "no space".toList)] 0
      ((dropped "b.yaml".toList).processFile "b.yaml".toList []
        [conversion none, conversion (some "no space".toList)] [] []) := by
  intro truthful
  have all := truthful.processed.mp ⟨"2026-01-01".toList, by decide +kernel⟩
  exact absurd all (by decide +kernel)

end BatchRun

end H2kvm.Daemon.Workflow
