import H2kvm.Daemon.WorkflowJobs

namespace H2kvm.Daemon.Workflow

open Framework Names

/-- What a step of a call does to the files. -/
inductive Effect where
  | nothing
  | move (source target : Path)
  | write (path : Path) (record : Content)

namespace Effect

def apply (files : Files) : Effect → Files
  | .nothing => files
  | .move source target => (shutilMove files source target).getD files
  | .write path record => files.insert path record

/-- Something is at the path it goes to. -/
def Overwrites (files : Files) : Effect → Prop
  | .nothing => False
  | .move source target => source ∈ files ∧ target ∈ files
  | .write path _ => path ∈ files

instance (files : Files) : (effect : Effect) → Decidable (effect.Overwrites files)
  | .nothing => inferInstanceAs (Decidable False)
  | .move .. => inferInstanceAs (Decidable (_ ∧ _))
  | .write path _ => inferInstanceAs (Decidable (path ∈ files))

end Effect

namespace State

variable (s : State)

def callEffect (file : Name) (phase : Phase) : CallAction → Effect
  | .move _ =>
    match phase with
    | .chosen target => .move ⟨.toBeProcessed, file⟩ ⟨.processing, target⟩
    | _ => .nothing
  | .file date _ =>
    match phase with
    | .filing job error =>
      .move ⟨.processing, job.target⟩ ⟨if error.isNone then .processed date else .failed date, job.target⟩
    | .lastFiling target => .move ⟨.processing, target⟩ ⟨.processed date, target⟩
    | .cleaned target _ => .move (s.leftover file target) ⟨.failed date, (s.leftover file target).name⟩
    | _ => .nothing
  | .record =>
    match phase with
    | .recording path record _ => .write path record
    | _ => .nothing
  | _ => .nothing

/-- Every dropped file is somewhere, and in one place only. -/
def Conserved : Prop := ∀ n ∈ s.live, ∃! path, s.files.lookup path = some (.job n)

/-- Once there is nothing left to do, no job file is left. -/
def Cleared : Prop :=
  s.isScanned = true → s.queue = [] → s.events = [] → (∀ c ∈ s.calls, c.phase = .done) → ∀ name, isSupported name = true →
    ⟨.toBeProcessed, name⟩ ∉ s.files ∧ ⟨.processing, name⟩ ∉ s.files

/-- What a step promises: nothing is lost, nothing stays behind and nothing is overwritten, but by its user. -/
structure Conserves (a : Action) : Prop where
  conserved : (s.step a).Conserved
  cleared : (s.step a).Cleared
  unharmed : ∀ path content, s.files.lookup path = some content → (∀ name, a = .drop name → path ≠ ⟨.toBeProcessed, name⟩) →
    (s.step a).files.lookup path = some content ∨
      ∃ target, s.files.lookup target = none ∧ (s.step a).files.lookup target = some content

/-- A name that is dropped has not been queued before, and what no observer sees is for the scan to find; no job is moved and
no record is written to where something is. -/
def Careful : Action → Prop
  | .drop name => isSupported name = true → name ∉ s.queued ∧ (s.isObserving = true ∨ isGlobbed name = true)
  | .call i act => ∀ c, s.calls[i]? = some c → ¬ (s.callEffect c.file c.phase act).Overwrites s.files
  | _ => True

instance : (a : Action) → Decidable (s.Careful a)
  | .drop _ => inferInstanceAs (Decidable (_ → _ ∧ (_ ∨ _)))
  | .call i act =>
    match found : s.calls[i]? with
    | none => isTrue fun c there => by rw [found] at there; cases there
    | some c => decidable_of_iff (¬ (s.callEffect c.file c.phase act).Overwrites s.files)
        ⟨fun free c' there => by rw [found] at there; cases there; exact free, fun careful => careful c found⟩
  | .observe => isTrue trivial
  | .scan _ => isTrue trivial
  | .event _ => isTrue trivial
  | .take => isTrue trivial

end State

section Effects

variable {files : Files} {source target path : Path} {record content : Content}

theorem shutilMove_of_mem (target : Path) (there : source ∈ files) :
    ∃ content, files.lookup source = some content ∧
      shutilMove files source target = some ((files.erase source).insert target content) := by
  obtain ⟨content, found⟩ := Option.isSome_iff_exists.mp (AList.lookup_isSome.mpr there)
  refine ⟨content, found, ?_⟩
  unfold shutilMove
  rw [found]
  rfl

theorem shutilMove_of_not_mem (absent : source ∉ files) : shutilMove files source target = none := by
  unfold shutilMove
  rw [AList.lookup_eq_none.mpr absent]
  rfl

theorem lookup_apply_move (there : source ∈ files) :
    ((Effect.move source target).apply files).lookup path =
      if path = target then files.lookup source else if path = source then none else files.lookup path := by
  obtain ⟨content, found, moved⟩ := shutilMove_of_mem target there
  rw [Effect.apply]
  rw [moved, found]
  show ((files.erase source).insert target content).lookup path = _
  split
  next here => rw [here, AList.lookup_insert]
  next elsewhere =>
    rw [AList.lookup_insert_ne elsewhere]
    split
    next here => rw [here, AList.lookup_erase]
    next other => exact AList.lookup_erase_ne other

theorem apply_move_of_not_mem (absent : source ∉ files) : (Effect.move source target).apply files = files := by
  rw [Effect.apply]
  rw [shutilMove_of_not_mem absent]
  rfl

theorem lookup_apply_write :
    ((Effect.write target record).apply files).lookup path = if path = target then some record else files.lookup path := by
  rw [Effect.apply]
  split
  next here => rw [here, AList.lookup_insert]
  next elsewhere => exact AList.lookup_insert_ne elsewhere

theorem unharmed_apply {effect : Effect} (free : ¬ effect.Overwrites files) (found : files.lookup path = some content) :
    (effect.apply files).lookup path = some content ∨
      ∃ target, files.lookup target = none ∧ (effect.apply files).lookup target = some content := by
  have present : path ∈ files := AList.lookup_isSome.mp (Option.isSome_iff_exists.mpr ⟨content, found⟩)
  cases effect with
  | nothing => exact .inl found
  | write target record =>
    have other : path ≠ target := fun same => free (same ▸ present)
    rw [lookup_apply_write, if_neg other]
    exact .inl found
  | move source target =>
    by_cases there : source ∈ files
    · have absent : target ∉ files := fun taken => free ⟨there, taken⟩
      by_cases here : path = source
      · refine .inr ⟨target, AList.lookup_eq_none.mpr absent, ?_⟩
        rw [lookup_apply_move there, if_pos rfl, ← here]
        exact found
      · have other : path ≠ target := fun same => absent (same ▸ present)
        rw [lookup_apply_move there, if_neg other, if_neg here]
        exact .inl found
    · rw [apply_move_of_not_mem there]
      exact .inl found

/-- A job that is in one place stays in one place. -/
theorem unique_apply {effect : Effect} {n : Nat} (free : ¬ effect.Overwrites files)
    (isRecord : ∀ path record, effect = .write path record → record ≠ .job n)
    (unique : ∃! path, files.lookup path = some (.job n)) :
    ∃! path, (effect.apply files).lookup path = some (.job n) := by
  obtain ⟨path, found, only⟩ := unique
  have present : path ∈ files := AList.lookup_isSome.mp (Option.isSome_iff_exists.mpr ⟨_, found⟩)
  cases effect with
  | nothing => exact ⟨path, found, only⟩
  | write target record =>
    have other : path ≠ target := fun same => free (same ▸ present)
    refine ⟨path, ?_, fun q there => ?_⟩
    · dsimp only
      rw [lookup_apply_write, if_neg other]
      exact found
    · dsimp only at there
      rw [lookup_apply_write] at there
      split at there
      · exact absurd (Option.some.inj there) (isRecord _ _ rfl)
      · exact only q there
  | move source target =>
    by_cases there : source ∈ files
    · have absent : target ∉ files := fun taken => free ⟨there, taken⟩
      have elsewhere : path ≠ target := fun same => absent (same ▸ present)
      by_cases here : path = source
      · -- the job itself is moved
        subst here
        refine ⟨target, ?_, fun q now => ?_⟩
        · dsimp only
          rw [lookup_apply_move there, if_pos rfl]
          exact found
        · dsimp only at now
          rw [lookup_apply_move there] at now
          split at now
          next same => exact same
          · split at now
            · cases now
            next other => exact absurd (only q now) other
      · refine ⟨path, ?_, fun q now => ?_⟩
        · dsimp only
          rw [lookup_apply_move there, if_neg elsewhere, if_neg here]
          exact found
        · dsimp only at now
          rw [lookup_apply_move there] at now
          split at now
          · exact absurd (only source now).symm here
          · split at now
            · cases now
            · exact only q now
    · rw [apply_move_of_not_mem there]
      exact ⟨path, found, only⟩

end Effects

theorem job_of_apply {files : Files} {effect : Effect} {n : Nat} {path : Path}
    (isRecord : ∀ path record, effect = .write path record → record ≠ .job n)
    (there : (effect.apply files).lookup path = some (.job n)) : ∃ source, files.lookup source = some (.job n) := by
  cases effect with
  | nothing => exact ⟨path, there⟩
  | write target record =>
    rw [lookup_apply_write] at there
    split at there
    · exact absurd (Option.some.inj there) (isRecord _ _ rfl)
    · exact ⟨path, there⟩
  | move source target =>
    by_cases present : source ∈ files
    · rw [lookup_apply_move present] at there
      split at there
      · exact ⟨source, there⟩
      · split at there
        · cases there
        · exact ⟨path, there⟩
    · rw [apply_move_of_not_mem present] at there
      exact ⟨path, there⟩

/-- A call that is still to move its file to `processing`. -/
def Phase.isEntering : Phase → Bool
  | .taken => true
  | .chosen _ => true
  | _ => false

/-- A call that is still to move this file out of `processing`. -/
def Phase.Owes (name : Name) : Phase → Prop
  | .moved target => target = name
  | .looping target jobs isBatch => target = name ∧ (jobs ≠ [] ∨ isBatch = true)
  | .started job => job.target = name
  | .converting job => job.target = name
  | .filing job _ => job.target = name
  | .lastFiling target => target = name
  | .failing target _ => target = some name
  | .cleaned target _ => target = some name
  | _ => False

/-- A record is no job, and goes to a directory of filed jobs. -/
def Phase.Records : Phase → Prop
  | .recording path record next =>
    path.dir ≠ .toBeProcessed ∧ path.dir ≠ .processing ∧ (∀ n, record ≠ .job n) ∧ next.Records
  | _ => True

/-- What becomes of a call's duties when it goes on. -/
structure Onward (s s' : State) (c : Call) (p : Phase) : Prop where
  owes : ∀ name, c.phase.Owes name → p.Owes name ∨ ⟨.processing, name⟩ ∉ s'.files
  enters : c.phase.isEntering = true → p.isEntering = true ∨ ⟨.toBeProcessed, c.file⟩ ∉ s'.files
  records : p.Records
  processing : ∀ name, ⟨.processing, name⟩ ∈ s'.files → ⟨.processing, name⟩ ∈ s.files ∨ p.Owes name
  toBeProcessed : ∀ name, ⟨.toBeProcessed, name⟩ ∈ s'.files → ⟨.toBeProcessed, name⟩ ∈ s.files

section Calls

variable {s : State} {i : Nat} {file : Name} {phase : Phase} {act : CallAction}

theorem fileAs_files (s : State) (i : Nat) (source : Path) (dir : Dir) (recordName : Name) (record : Content)
    (next : Phase) :
    (s.fileAs i source dir recordName record next).files = (Effect.move source ⟨dir, source.name⟩).apply s.files := by
  unfold State.fileAs
  rw [Effect.apply]
  cases shutilMove s.files source ⟨dir, source.name⟩ <;> rfl

theorem callStep_files : (s.callStep i file phase act).files = (s.callEffect file phase act).apply s.files := by
  cases act with
  | move error =>
    cases phase with
    | chosen target =>
      simp only [State.callStep, State.callEffect, Effect.apply]
      cases shutilMove s.files ⟨.toBeProcessed, file⟩ ⟨.processing, target⟩ <;> rfl
    | _ => rfl
  | load loaded =>
    cases phase with
    | moved target => cases loaded <;> rfl
    | _ => rfl
  | startJob =>
    cases phase with
    | looping target jobs isBatch => cases jobs <;> rfl
    | _ => rfl
  | output date =>
    cases phase with
    | started job => cases date <;> rfl
    | _ => rfl
  | file date now =>
    cases phase with
    | filing job error => cases error <;> exact fileAs_files ..
    | lastFiling target => exact fileAs_files ..
    | cleaned target error => exact fileAs_files ..
    | _ => rfl
  | complete raised =>
    cases phase with
    | completing job error => cases raised <;> cases error <;> rfl
    | _ => rfl
  | _ => cases phase <;> rfl

theorem mem_apply_move {files : Files} {source target path : Path} :
    path ∈ (Effect.move source target).apply files ↔
      if source ∈ files then path = target ∨ path ≠ source ∧ path ∈ files else path ∈ files := by
  split
  next there =>
    rw [← AList.lookup_isSome, lookup_apply_move there]
    by_cases here : path = target
    · rw [if_pos here]
      exact iff_of_true (AList.lookup_isSome.mpr there) (.inl here)
    · rw [if_neg here]
      by_cases same : path = source
      · rw [if_pos same]
        exact iff_of_false Bool.false_ne_true fun either => either.elim here fun both => both.1 same
      · rw [if_neg same, AList.lookup_isSome]
        exact ⟨fun member => .inr ⟨same, member⟩, fun either => (either.resolve_left here).2⟩
  next absent => rw [apply_move_of_not_mem absent]

/-- The source of a move is gone, unless it was not there. -/
theorem not_mem_apply_move {files : Files} {source target : Path} (apart : source ≠ target) :
    source ∉ (Effect.move source target).apply files := by
  rw [mem_apply_move]
  split
  · exact fun either => either.elim apart fun both => both.1 rfl
  next absent => exact absent

variable {c : Call} {s' : State} {p : Phase}

theorem Onward.quiet (files : s'.files = s.files) (owes : ∀ name, c.phase.Owes name → p.Owes name)
    (enters : c.phase.isEntering = true → p.isEntering = true) (records : p.Records) : Onward s s' c p where
  owes name owed := .inl (owes name owed)
  enters entering := .inl (enters entering)
  records := records
  processing _ member := .inl (files ▸ member)
  toBeProcessed _ member := files ▸ member

theorem Onward.filed {source : Path} {dir : Dir} (files : s'.files = (Effect.move source ⟨dir, source.name⟩).apply s.files)
    (filed : dir ≠ .toBeProcessed ∧ dir ≠ .processing)
    (owes : ∀ name, c.phase.Owes name → p.Owes name ∨ source = ⟨.processing, name⟩ ∨ ⟨.processing, name⟩ ∉ s.files)
    (enters : c.phase.isEntering = true → p.isEntering = true) (records : p.Records) : Onward s s' c p := by
  have stays : ∀ {path : Path}, path.dir ≠ dir → path ∈ s'.files → path ∈ s.files := by
    intro path other member
    rw [files, mem_apply_move] at member
    split at member
    · exact (member.resolve_left fun same => other (congrArg Path.dir same)).2
    · exact member
  refine ⟨fun name owed => ?_, fun entering => .inl (enters entering), records, fun name member => .inl ?_,
    fun name member => ?_⟩
  · obtain still | same | absent := owes name owed
    · exact .inl still
    · refine .inr ?_
      rw [files, ← same]
      apply not_mem_apply_move
      intro equal
      have := congrArg Path.dir equal
      rw [same] at this
      exact filed.2 this.symm
    · exact .inr fun member => absent (stays filed.2.symm member)
  · exact stays filed.2.symm member
  · exact stays filed.1.symm member

/-- A call goes on to some phase, and only the files and the tracked jobs are touched besides. -/
def GoesOn (s s' : State) (i : Nat) (c : Call) : Prop :=
  s' = { s with files := s'.files, calls := s'.calls, activeJobs := s'.activeJobs } ∧
    ∃ p, s'.calls = s.calls.set i { c with phase := p } ∧ Onward s s' c p

variable (found : s.calls[i]? = some c)
include found

theorem GoesOn.unchanged (records : c.phase.Records) : GoesOn s s i c := by
  refine ⟨rfl, c.phase, ?_, .quiet rfl (fun _ owed => owed) id records⟩
  obtain ⟨within, here⟩ := List.getElem?_eq_some_iff.mp found
  show s.calls = s.calls.set i c
  rw [← here, List.set_getElem_self within]

theorem GoesOn.quiet {active : Dict Name Path} (owes : ∀ name, c.phase.Owes name → p.Owes name)
    (enters : c.phase.isEntering = true → p.isEntering = true) (records : p.Records) :
    GoesOn s (({ s with activeJobs := active } : State).setPhase i p) i c :=
  ⟨rfl, p, calls_setPhase (s := { s with activeJobs := active }) found, .quiet rfl owes enters records⟩

theorem GoesOn.filed {source : Path} {dir : Dir} {recordName : Name} {record : Content}
    (filed : dir ≠ .toBeProcessed ∧ dir ≠ .processing) (isRecord : ∀ n, record ≠ .job n)
    (owes : ∀ name, c.phase.Owes name → source = ⟨.processing, name⟩ ∨ ⟨.processing, name⟩ ∉ s.files)
    (enters : c.phase.isEntering = false) (records : p.Records) :
    GoesOn s (s.fileAs i source dir recordName record p) i c := by
  have files := fileAs_files s i source dir recordName record p
  unfold State.fileAs at files ⊢
  cases moved : shutilMove s.files source ⟨dir, source.name⟩ with
  | none =>
    rw [moved] at files
    refine ⟨rfl, p, calls_setPhase found, .filed files filed (fun name owed => .inr (owes name owed)) ?_ records⟩
    exact fun entering => absurd entering (by rw [enters]; decide)
  | some after =>
    rw [moved] at files
    refine ⟨rfl, _, calls_setPhase (s := { s with files := after }) found,
      .filed files filed (fun name owed => .inr (owes name owed)) ?_ ⟨filed.1, filed.2, isRecord, records⟩⟩
    exact fun entering => absurd entering (by rw [enters]; decide)

theorem goesOn_choose {timestamp : Name} (records : c.phase.Records) :
    GoesOn s (s.callStep i c.file c.phase (.choose timestamp)) i c := by
  obtain ⟨file, phase⟩ := c
  cases phase with
  | taken => exact .quiet found nofun (fun _ => rfl) trivial
  | _ => exact .unchanged found records

theorem goesOn_move {error : Name} (records : c.phase.Records) :
    GoesOn s (s.callStep i c.file c.phase (.move error)) i c := by
  obtain ⟨file, phase⟩ := c
  cases phase with
  | chosen target =>
    have files : (s.callStep i file (.chosen target) (.move error)).files =
        (Effect.move ⟨.toBeProcessed, file⟩ ⟨.processing, target⟩).apply s.files := callStep_files
    have gone : (⟨.toBeProcessed, file⟩ : Path) ∉ (s.callStep i file (.chosen target) (.move error)).files := by
      rw [files]
      exact not_mem_apply_move (by simp)
    have stays : ∀ {path : Path}, path ≠ ⟨.processing, target⟩ →
        path ∈ (s.callStep i file (.chosen target) (.move error)).files → path ∈ s.files := by
      intro path other member
      rw [files, mem_apply_move] at member
      split at member
      · exact (member.resolve_left other).2
      · exact member
    dsimp only
    cases moved : shutilMove s.files ⟨.toBeProcessed, file⟩ ⟨.processing, target⟩ with
    | none =>
      have stepped : s.callStep i file (.chosen target) (.move error) = s.setPhase i (.failing none error) := by
        simp only [State.callStep, moved]
      rw [stepped] at gone ⊢
      exact ⟨rfl, _, calls_setPhase found, fun _ owes => owes.elim, fun _ => .inr gone, trivial, fun _ => .inl, fun _ => id⟩
    | some files =>
      have stepped : s.callStep i file (.chosen target) (.move error) =
          ({ s with files } : State).setPhase i (.moved target) := by
        simp only [State.callStep, moved]
      rw [stepped] at gone stays ⊢
      refine ⟨rfl, _, calls_setPhase (s := { s with files }) found, fun _ owes => owes.elim, fun _ => .inr gone, trivial,
        fun name member => ?_, fun name member => stays (by simp) member⟩
      by_cases here : target = name
      · exact .inr here
      · exact .inl (stays (fun same => here (congrArg Path.name same).symm) member)
  | _ => exact .unchanged found records

theorem goesOn_load {loaded : Loaded} (records : c.phase.Records) :
    GoesOn s (s.callStep i c.file c.phase (.load loaded)) i c := by
  obtain ⟨file, phase⟩ := c
  cases phase with
  | moved target =>
    cases loaded with
    | fails error => exact .quiet found (fun _ owed => congrArg some owed) nofun trivial
    | single => exact .quiet found (fun _ owed => ⟨owed, .inl nofun⟩) nofun trivial
    | batch n => exact .quiet found (fun _ owed => ⟨owed, .inr rfl⟩) nofun trivial
  | _ => exact .unchanged found records

theorem goesOn_startJob (records : c.phase.Records) : GoesOn s (s.callStep i c.file c.phase .startJob) i c := by
  obtain ⟨file, phase⟩ := c
  cases phase with
  | looping target jobs isBatch =>
    cases jobs with
    | cons id rest => exact .quiet found (fun _ owed => owed.1) nofun trivial
    | nil =>
      cases isBatch with
      | true => exact .quiet found (fun _ owed => owed.1) nofun trivial
      | false => exact .quiet found (fun _ owed => absurd owed.2 (by simp)) nofun trivial
  | _ => exact .unchanged found records

theorem goesOn_output {date : Except Name Name} (records : c.phase.Records) :
    GoesOn s (s.callStep i c.file c.phase (.output date)) i c := by
  obtain ⟨file, phase⟩ := c
  cases phase with
  | started job => cases date <;> exact .quiet found (fun _ owed => owed) nofun trivial
  | _ => exact .unchanged found records

theorem goesOn_convert {error : Option Name} (records : c.phase.Records) :
    GoesOn s (s.callStep i c.file c.phase (.convert error)) i c := by
  obtain ⟨file, phase⟩ := c
  cases phase with
  | converting job => exact .quiet found (fun _ owed => owed) nofun trivial
  | _ => exact .unchanged found records

theorem goesOn_file {date now : Name} (records : c.phase.Records) :
    GoesOn s (s.callStep i c.file c.phase (.file date now)) i c := by
  obtain ⟨file, phase⟩ := c
  cases phase with
  | filing job error =>
    cases error with
    | none => exact .filed found ⟨nofun, nofun⟩ nofun (fun _ owed => .inl (congrArg _ owed)) rfl trivial
    | some error => exact .filed found ⟨nofun, nofun⟩ nofun (fun _ owed => .inl (congrArg _ owed)) rfl trivial
  | lastFiling target => exact .filed found ⟨nofun, nofun⟩ nofun (fun _ owed => .inl (congrArg _ owed)) rfl trivial
  | cleaned target error =>
    refine .filed found ⟨nofun, nofun⟩ nofun (fun name owed => ?_) rfl trivial
    have same : target = some name := owed
    subst same
    by_cases there : (⟨.processing, name⟩ : Path) ∈ s.files
    · exact .inl (if_pos there)
    · exact .inr there
  | _ => exact .unchanged found records

theorem goesOn_complete {raised : Option Name} (records : c.phase.Records) :
    GoesOn s (s.callStep i c.file c.phase (.complete raised)) i c := by
  obtain ⟨file, phase⟩ := c
  cases phase with
  | completing job error => cases raised <;> cases error <;> exact .quiet found nofun nofun trivial
  | _ => exact .unchanged found records

theorem goesOn_close (records : c.phase.Records) : GoesOn s (s.callStep i c.file c.phase .close) i c := by
  obtain ⟨file, phase⟩ := c
  cases phase with
  | closing job raised => cases raised <;> exact .quiet found nofun nofun trivial
  | _ => exact .unchanged found records

theorem goesOn_cleanup (records : c.phase.Records) : GoesOn s (s.callStep i c.file c.phase .cleanup) i c := by
  obtain ⟨file, phase⟩ := c
  cases phase with
  | failing target error => exact .quiet found (fun _ owed => owed) nofun trivial
  | _ => exact .unchanged found records

theorem goesOn_record (records : c.phase.Records) : GoesOn s (s.callStep i c.file c.phase .record) i c := by
  obtain ⟨file, phase⟩ := c
  cases phase with
  | recording path record next =>
    obtain ⟨outside, filed, -, later⟩ := records
    have stays : ∀ {q : Path}, q ≠ path → q ∈ s.files.insert path record → q ∈ s.files := by
      intro q other member
      exact ((AList.mem_insert s.files).mp member).resolve_left other
    refine ⟨rfl, next, calls_setPhase (s := { s with files := s.files.insert path record }) found, nofun, nofun, later,
      fun name member => .inl ?_, fun name member => ?_⟩
    · exact stays (fun same => filed (congrArg Path.dir same).symm) member
    · exact stays (fun same => outside (congrArg Path.dir same).symm) member
  | _ => exact .unchanged found records

theorem callStep_goesOn (act : CallAction) (records : c.phase.Records) :
    GoesOn s (s.callStep i c.file c.phase act) i c := by
  cases act with
  | choose => exact goesOn_choose found records
  | move => exact goesOn_move found records
  | load => exact goesOn_load found records
  | startJob => exact goesOn_startJob found records
  | output => exact goesOn_output found records
  | convert => exact goesOn_convert found records
  | file => exact goesOn_file found records
  | record => exact goesOn_record found records
  | complete => exact goesOn_complete found records
  | close => exact goesOn_close found records
  | cleanup => exact goesOn_cleanup found records

end Calls

namespace State

variable {s : State}

/-- A dropped file that is in the way of being taken up. -/
def Awaits (s : State) (name : Name) : Prop :=
  name ∉ s.queued ∧ name ∈ s.events ∨ name ∈ s.queue ∨ ∃ c ∈ s.calls, c.file = name ∧ c.phase.isEntering = true

/-- What a careful run keeps. -/
structure Orderly (s : State) : Prop where
  conserved : s.Conserved
  dropped : ∀ path n, s.files.lookup path = some (.job n) → n < s.drops
  observed : s.isScanned = true → s.isObserving = true
  awaited : ∀ name, isSupported name = true → ⟨.toBeProcessed, name⟩ ∈ s.files →
    s.isScanned = false ∧ isGlobbed name = true ∨ s.Awaits name
  owed : ∀ name, ⟨.processing, name⟩ ∈ s.files → ∃ c ∈ s.calls, c.phase.Owes name
  records : ∀ c ∈ s.calls, c.phase.Records

theorem Orderly.cleared (h : s.Orderly) : s.Cleared := by
  intro scanned queue events idle name supported
  constructor
  · intro left
    obtain ⟨unscanned, -⟩ | ⟨-, event⟩ | queued | ⟨c, member, -, entering⟩ := h.awaited name supported left
    · rw [scanned] at unscanned
      cases unscanned
    · rw [events] at event
      cases event
    · rw [queue] at queued
      cases queued
    · rw [idle c member] at entering
      cases entering
  · intro left
    obtain ⟨c, member, owes⟩ := h.owed name left
    rw [idle c member] at owes
    exact owes

theorem Awaits.mono {s' : State} {name : Name} (h : s.Awaits name) (queued : s'.queued = s.queued)
    (events : name ∈ s.events → name ∈ s'.events) (queue : name ∈ s.queue → name ∈ s'.queue)
    (calls : ∀ c ∈ s.calls, c ∈ s'.calls) : s'.Awaits name := by
  obtain ⟨unqueued, event⟩ | waits | ⟨c, member, entering⟩ := h
  · exact .inl ⟨queued ▸ unqueued, events event⟩
  · exact .inr (.inl (queue waits))
  · exact .inr (.inr ⟨c, calls c member, entering⟩)

theorem Orderly.drop {name : Name} (h : s.Orderly) (careful : s.Careful (.drop name)) : (s.step (.drop name)).Orderly where
  conserved n member := by
    have inserted : ∀ {path : Path}, path ≠ ⟨.toBeProcessed, name⟩ →
        (s.step (.drop name)).files.lookup path = s.files.lookup path := fun other => AList.lookup_insert_ne other
    have new : (s.step (.drop name)).files.lookup ⟨.toBeProcessed, name⟩ = some (.job s.drops) := AList.lookup_insert _
    obtain old | new' := List.mem_append.mp member
    · obtain ⟨listed, kept⟩ := List.mem_filter.mp old
      obtain ⟨path, found, only⟩ := h.conserved n listed
      have other : path ≠ ⟨.toBeProcessed, name⟩ := by
        intro same
        rw [← same] at kept
        exact absurd found (by simpa using kept)
      refine ⟨path, (inserted other).trans found, fun q there => ?_⟩
      by_cases same : q = ⟨.toBeProcessed, name⟩
      · subst same
        have equal : s.drops = n := Content.job.inj (Option.some.inj (new.symm.trans there))
        exact absurd (h.dropped path n found) (by omega)
      · exact only q ((inserted same).symm.trans there)
    · rw [List.mem_singleton.mp new']
      refine ⟨_, new, fun q there => ?_⟩
      by_contra other
      exact absurd (h.dropped q s.drops ((inserted other).symm.trans there)) (Nat.lt_irrefl _)
  dropped path n found := by
    show n < s.drops + 1
    by_cases same : path = ⟨.toBeProcessed, name⟩
    · subst same
      have new : some (Content.job s.drops) = some (.job n) := (AList.lookup_insert _).symm.trans found
      have equal : s.drops = n := Content.job.inj (Option.some.inj new)
      omega
    · have := h.dropped path n ((AList.lookup_insert_ne same).symm.trans found)
      omega
  observed := h.observed
  awaited other supported member := by
    by_cases same : other = name
    · subst same
      obtain ⟨unqueued, seen⟩ := careful supported
      cases observing : s.isObserving with
      | true =>
        refine .inr (.inl ⟨unqueued, ?_⟩)
        show other ∈ if s.isObserving = true then _ else _
        rw [if_pos observing]
        exact List.mem_append_right _ (List.mem_singleton_self other)
      | false =>
        refine .inl ⟨?_, seen.resolve_left (by rw [observing]; decide)⟩
        show s.isScanned = false
        cases scanned : s.isScanned with
        | false => rfl
        | true => rw [h.observed scanned] at observing; cases observing
    · have before : ⟨.toBeProcessed, other⟩ ∈ s.files :=
        ((AList.mem_insert s.files).mp member).resolve_left fun equal => same (congrArg Path.name equal)
      refine (h.awaited other supported before).imp_right fun awaits => awaits.mono rfl (fun event => ?_) id fun _ => id
      show other ∈ if s.isObserving = true then _ else _
      split
      · exact List.mem_append_left _ event
      · exact event
  owed other member := by
    have before : ⟨.processing, other⟩ ∈ s.files := ((AList.mem_insert s.files).mp member).resolve_left nofun
    exact h.owed other before
  records := h.records

theorem Orderly.scan {found : List Name} (h : s.Orderly) : (s.step (.scan found)).Orderly := by
  rw [step]
  split
  next starts =>
    refine ⟨h.conserved, h.dropped, fun _ => starts.1, fun name supported member => .inr ?_, h.owed, h.records⟩
    obtain ⟨-, globbed⟩ | awaits := h.awaited name supported member
    · have listed : name ∈ s.existing :=
        List.mem_map.mpr ⟨⟨.toBeProcessed, name⟩, List.mem_filter.mpr ⟨member, by simp [globbed]⟩, rfl⟩
      have scanned : name ∈ found := (List.isPerm_iff.mp starts.2.2).mem_iff.mpr listed
      exact .inr (.inl (List.mem_append_right _ scanned))
    · exact awaits.mono rfl id (List.mem_append_left _) fun _ => id
  · exact h

theorem Orderly.event {name : Name} (h : s.Orderly) : (s.step (.event name)).Orderly := by
  rw [step]
  split
  · rw [queueFile]
    split
    next queues =>
      refine ⟨h.conserved, h.dropped, h.observed, fun other supported member => ?_, h.owed, h.records⟩
      refine (h.awaited other supported member).imp_right fun awaits => ?_
      by_cases same : other = name
      · subst same
        exact .inr (.inl (List.mem_append_right _ (List.mem_singleton_self other)))
      · obtain ⟨unqueued, event⟩ | waits | entering := awaits
        · refine .inl ⟨?_, (List.mem_erase_of_ne same).mpr event⟩
          exact fun queued => unqueued ((List.mem_cons.mp queued).resolve_left same)
        · exact .inr (.inl (List.mem_append_left _ waits))
        · exact .inr (.inr entering)
    next ignored =>
      refine ⟨h.conserved, h.dropped, h.observed, fun other supported member => ?_, h.owed, h.records⟩
      refine (h.awaited other supported member).imp_right fun awaits => ?_
      by_cases same : other = name
      · subst same
        -- the event is lost only for a name that was queued before
        have queued : other ∈ s.queued := by
          by_contra unqueued
          exact ignored ⟨member, supported, unqueued⟩
        exact .inr (awaits.resolve_left fun both => both.1 queued)
      · exact awaits.mono rfl (List.mem_erase_of_ne same).mpr id fun _ => id
  · exact h

theorem Orderly.take (h : s.Orderly) : (s.step .take).Orderly := by
  rw [step]
  split
  next name queue isQueue =>
    split
    · refine ⟨h.conserved, h.dropped, h.observed, fun other supported member => ?_, fun other member => ?_, fun c member => ?_⟩
      · refine (h.awaited other supported member).imp_right fun awaits => ?_
        obtain both | waits | ⟨c, listed, entering⟩ := awaits
        · exact .inl both
        · rw [isQueue] at waits
          obtain same | later := List.mem_cons.mp waits
          · exact .inr (.inr ⟨{ file := name }, List.mem_append_right _ (List.mem_singleton_self _), same.symm, rfl⟩)
          · exact .inr (.inl later)
        · exact .inr (.inr ⟨c, List.mem_append_left _ listed, entering⟩)
      · obtain ⟨c, listed, owes⟩ := h.owed other member
        exact ⟨c, List.mem_append_left _ listed, owes⟩
      · obtain listed | new := List.mem_append.mp member
        · exact h.records c listed
        · rw [List.mem_singleton.mp new]
          trivial
    · exact h
  · exact h

section Call

variable {i : Nat} {c : Call} {act : CallAction}

theorem callEffect_write {file : Name} {phase : Phase} {path : Path} {record : Content} (records : phase.Records)
    (writes : s.callEffect file phase act = .write path record) (n : Nat) : record ≠ .job n := by
  cases act with
  | record =>
    cases phase with
    | recording path record next =>
      cases writes
      exact records.2.2.1 n
    | _ => cases writes
  | move => cases phase <;> cases writes
  | file => cases phase <;> cases writes
  | _ => cases writes

theorem mem_set_cases {c' : Call} {p : Phase} (found : s.calls[i]? = some c) (member : c' ∈ s.calls) :
    c' = c ∨ c' ∈ s.calls.set i { c with phase := p } := by
  obtain ⟨k, there⟩ := List.mem_iff_getElem?.mp member
  by_cases same : k = i
  · subst same
    exact .inl (Option.some.inj (there.symm.trans found))
  · refine .inr (List.mem_iff_getElem?.mpr ⟨k, ?_⟩)
    rw [List.getElem?_set_ne (Ne.symm same)]
    exact there

theorem Orderly.call (h : s.Orderly) (careful : s.Careful (.call i act)) : (s.step (.call i act)).Orderly := by
  cases found : s.calls[i]? with
  | none =>
    rw [step, found]
    exact h
  | some c =>
    have listed : c ∈ s.calls := List.mem_of_getElem? found
    have free := careful c found
    have isRecord : ∀ n path record, s.callEffect c.file c.phase act = .write path record → record ≠ .job n :=
      fun n _ _ writes => callEffect_write (h.records c listed) writes n
    obtain ⟨rest, p, calls, onward⟩ := callStep_goesOn found act (h.records c listed)
    have files : (s.callStep i c.file c.phase act).files = _ := callStep_files
    rw [step, found]
    dsimp only
    have went : ({ c with phase := p } : Call) ∈ (s.callStep i c.file c.phase act).calls := by
      rw [calls]
      exact List.mem_set (List.getElem?_eq_some_iff.mp found).1 _
    have others : ∀ {c'}, c' ∈ s.calls → c' = c ∨ c' ∈ (s.callStep i c.file c.phase act).calls := by
      intro c' member
      rw [calls]
      exact mem_set_cases found member
    generalize after : s.callStep i c.file c.phase act = s' at *
    refine ⟨fun n member => ?_, fun path n there => ?_, ?_, fun name supported member => ?_, fun name member => ?_,
      fun c' member => ?_⟩
    · rw [rest] at member
      rw [files]
      exact unique_apply free (isRecord n) (h.conserved n member)
    · rw [files] at there
      obtain ⟨q, before⟩ := job_of_apply (isRecord n) there
      rw [rest]
      exact h.dropped q n before
    · rw [rest]
      exact h.observed
    · have before := h.awaited name supported (onward.toBeProcessed name member)
      obtain unscanned | both | waits | ⟨c', there, same, entering⟩ := before
      · rw [rest]
        exact .inl unscanned
      · rw [rest]
        exact .inr (.inl both)
      · rw [rest]
        exact .inr (.inr (.inl waits))
      · refine .inr (.inr (.inr ?_))
        obtain rfl | still := others there
        · obtain now | gone := onward.enters entering
          · exact ⟨_, went, same, now⟩
          · rw [same] at gone
            exact absurd member gone
        · exact ⟨c', still, same, entering⟩
    · obtain before | owes := onward.processing name member
      · obtain ⟨c', there, owes⟩ := h.owed name before
        obtain rfl | still := others there
        · obtain now | gone := onward.owes name owes
          · exact ⟨_, went, now⟩
          · exact absurd member gone
        · exact ⟨c', still, owes⟩
      · exact ⟨_, went, owes⟩
    · rw [calls] at member
      obtain old | new := List.mem_or_eq_of_mem_set member
      · exact h.records c' old
      · rw [new]
        exact onward.records

end Call

theorem Orderly.step {a : Action} (h : s.Orderly) (careful : s.Careful a) : (s.step a).Orderly := by
  cases a with
  | drop name => exact h.drop careful
  | observe => exact ⟨h.conserved, h.dropped, fun _ => rfl, h.awaited, h.owed, h.records⟩
  | scan found => exact h.scan
  | event name => exact h.event
  | take => exact h.take
  | call i act => exact h.call careful

theorem Orderly.conserves {a : Action} (h : s.Orderly) (careful : s.Careful a) : s.Conserves a := by
  refine ⟨(h.step careful).conserved, (h.step careful).cleared, fun path content there kept => ?_⟩
  cases a with
  | drop name => exact .inl ((AList.lookup_insert_ne (kept name rfl)).trans there)
  | observe => exact .inl there
  | scan found =>
    rw [State.step]
    split <;> exact .inl there
  | event name =>
    rw [State.step]
    split
    · rw [queueFile]
      split <;> exact .inl there
    · exact .inl there
  | take =>
    rw [State.step]
    split
    · split <;> exact .inl there
    · exact .inl there
  | call i act =>
    rw [State.step]
    split
    next c found =>
      rw [callStep_files]
      exact unharmed_apply (careful c found) there
    · exact .inl there

/-- In a careful run nothing is lost, overwritten or left behind. -/
theorem conserves_of_careful {as : List Action} (careful : EachStep State.step Careful {} as) :
    EachStep State.step Conserves {} as := by
  have initial : ({} : State).Orderly :=
    ⟨fun _ member => absurd member List.not_mem_nil, fun _ _ there => absurd there (by simp), nofun,
      fun _ _ member => absurd member (AList.notMem_empty _), fun _ member => absurd member (AList.notMem_empty _),
      fun _ member => absurd member List.not_mem_nil⟩
  exact eachStep_of_invariant (I := Orderly) (fun s a h allowed => ⟨h.step allowed, h.conserves allowed⟩) initial careful

theorem lookup_ne {files : Files} {content : Content} (none : ∀ e ∈ files.entries, e.2 ≠ content) (path : Path) :
    files.lookup path ≠ some content :=
  fun there => none _ (AList.mem_lookup_iff.mp there) rfl

/-- The way of a call to where its job is to be filed, and from there. -/
def converted (i : Nat) (date : Name) : List Action :=
  readied i .single ++ [.call i .startJob, .call i (.output (.ok date)), .call i (.convert none)]

def filed (i : Nat) (date : Name) : List Action :=
  [.call i (.file date []), .call i .record, .call i (.complete none), .call i .close, .call i .startJob]

theorem conserves_one_job :
    EachStep State.step Conserves {} ([.observe, .scan [], .drop "vm.vmdk".toList, .event "vm.vmdk".toList, .take] ++
      converted 0 "2026-01-01".toList ++ filed 0 "2026-01-01".toList) :=
  conserves_of_careful (by decide +kernel)

/-- A name that is dropped again on the day its file was processed overwrites it, and one the observer has queued before is
never taken up again. -/
theorem not_conserves_dropped_again :
    (¬ EachStep State.step Conserves {} ([.drop "vm.vmdk".toList, .observe, .scan ["vm.vmdk".toList], .take] ++
      converted 0 "2026-01-01".toList ++ filed 0 "2026-01-01".toList ++ [.drop "vm.vmdk".toList, .event "vm.vmdk".toList,
        .take] ++ converted 1 "2026-01-01".toList ++ [.call 1 (.file "2026-01-01".toList [])])) ∧
    ¬ EachStep State.step Conserves {} ([.observe, .scan [], .drop "vm.vmdk".toList, .event "vm.vmdk".toList, .take] ++
      converted 0 "2026-01-01".toList ++ filed 0 "2026-01-01".toList ++ [.drop "vm.vmdk".toList] ++
        [.event "vm.vmdk".toList]) := by
  constructor
  · intro each
    have last := (eachStep_iff_prefixes.mp each _ _ List.prefix_rfl).conserved 0 (by decide +kernel)
    obtain ⟨path, there, -⟩ := last
    exact lookup_ne (by decide +kernel) path there
  · intro each
    have last := (eachStep_iff_prefixes.mp each _ _ List.prefix_rfl).cleared
    exact absurd (last (by decide +kernel) (by decide +kernel) (by decide +kernel) (by decide +kernel) "vm.vmdk".toList
      (by decide +kernel)).1 (by decide +kernel)

end State

end H2kvm.Daemon.Workflow
