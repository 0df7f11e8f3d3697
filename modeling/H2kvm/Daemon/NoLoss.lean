import H2kvm.Framework.Run
import H2kvm.Daemon.Workflow

namespace H2kvm.Daemon

open Framework

namespace State

variable {cfg : Config} {s s' : State}

/-- Where the file of a name may be once no attempt on it runs. -/
def Accounted (cfg : Config) (s : State) (name : String) : Prop :=
  (name ∈ s.converted ∧ name ∈ s.processedDir) ∨
  (name ∈ s.errorsDir ∧ s.failures.count name = cfg.maxRetries + 1) ∨
  (name ∈ s.errorsDir ∧ ∃ info, s.retryQueue.lookup name = some info ∧ info.attempts < cfg.maxRetries)

/-- Every attempted file is accounted for, and none that was converted is put down as failed. -/
def NothingLost (cfg : Config) (s : State) : Prop :=
  (∀ name ∈ s.attempted, (∀ a ∈ s.attempts, a.name ≠ name) → Accounted cfg s name) ∧ s.miscounted = []

/-- The conversion succeeds, what follows it raises nothing and the file is archived; and the
scan meets no file the observer has seen. -/
def Untroubled (cfg : Config) (s : State) : Action → Prop
  | .scan => ∀ name ∈ s.watch, name ∉ s.processing ∧ name ∉ s.processed
  | .advance i result =>
    match (s.attempts[i]?).map Attempt.phase with
    | some .converting | some .completed | some .archived => result.isOk
    | some .recorded => result.isOk ∧ cfg.archiveProcessed
    | _ => True
  | _ => True

/-- What holds of a running attempt in each phase. -/
def PhaseOk (s : State) (name : String) : Phase → Prop
  | .entered => name ∈ s.watch ∧ name ∉ s.attempted
  | .converting => name ∈ s.watch
  | .completed | .recorded => name ∈ s.watch ∧ name ∈ s.converted
  | .archived => name ∈ s.converted ∧ name ∈ s.processedDir
  | .leaving => name ∉ s.attempted ∨ name ∈ s.converted ∧ name ∈ s.processedDir
  | .failing _ | .contextSaved _ | .givingUp _ => False

/-- What an untroubled run keeps: no file is queued or attempted twice, and nothing fails. -/
structure Tidy (s : State) : Prop where
  nodup : (s.queue ++ s.attempts.map Attempt.name).Nodup
  queued : ∀ name ∈ s.queue, name ∈ s.watch ∧ name ∈ s.processing ∧ name ∉ s.attempted
  running : ∀ a ∈ s.attempts, a.name ∈ s.processing ∧ a.fromWorker ∧ PhaseOk s a.name a.phase
  settled : ∀ name ∈ s.attempted, name ∈ s.attempts.map Attempt.name ∨ name ∈ s.converted ∧ name ∈ s.processedDir
  seen : ∀ name ∈ s.attempted, name ∈ s.processing ∨ name ∈ s.processed
  noRetry : s.retryQueue = ∅ ∧ s.submitted = []
  clean : s.miscounted = []

theorem Tidy.nothingLost (ht : Tidy s) : NothingLost cfg s := by
  refine ⟨?_, ht.clean⟩
  intro name attempted idle
  rcases ht.settled name attempted with running | done
  · obtain ⟨a, ha, same⟩ := List.mem_map.mp running
    exact absurd same (idle a ha)
  · exact .inl done

/-- A file the observer has not seen may be queued. -/
theorem Tidy.enqueue (ht : Tidy s) {name : String} (there : name ∈ s.watch) (free : name ∉ s.processing)
    (fresh : name ∉ s.processed) :
    Tidy { s with processing := name :: s.processing, queue := s.queue ++ [name] } := by
  have notQueued : name ∉ s.queue := fun h => free (ht.queued name h).2.1
  have notRunning : name ∉ s.attempts.map Attempt.name := by
    intro h
    obtain ⟨a, ha, rfl⟩ := List.mem_map.mp h
    exact free (ht.running a ha).1
  have notAttempted : name ∉ s.attempted := by
    intro h
    rcases ht.seen name h with h | h
    · exact free h
    · exact fresh h
  constructor
  · have whole : (s.queue ++ [name] ++ s.attempts.map Attempt.name).Perm
        (name :: (s.queue ++ s.attempts.map Attempt.name)) := by
      rw [List.append_assoc, List.singleton_append]
      exact List.perm_middle
    rw [whole.nodup_iff, List.nodup_cons, List.mem_append, not_or]
    exact ⟨⟨notQueued, notRunning⟩, ht.nodup⟩
  · intro other h
    rcases List.mem_append.mp h with h | h
    · obtain ⟨there, processing, unattempted⟩ := ht.queued other h
      exact ⟨there, List.mem_cons_of_mem _ processing, unattempted⟩
    · obtain rfl := List.mem_singleton.mp h
      exact ⟨there, List.mem_cons_self, notAttempted⟩
  · intro a ha
    obtain ⟨processing, worker, phase⟩ := ht.running a ha
    exact ⟨List.mem_cons_of_mem _ processing, worker, phase⟩
  · exact ht.settled
  · intro other h
    exact (ht.seen other h).imp_left (List.mem_cons_of_mem _)
  · exact ht.noRetry
  · exact ht.clean

/-- Only what concerns the file `name` has changed, and no failure was noted. -/
structure Onward (s s' : State) (name : String) : Prop where
  attempts : s'.attempts = s.attempts
  queue : s'.queue = s.queue
  processing : s'.processing = s.processing
  processed : s'.processed = s.processed
  watch : ∀ other ≠ name, other ∈ s.watch → other ∈ s'.watch
  attempted : ∀ other ≠ name, other ∈ s'.attempted → other ∈ s.attempted
  converted : ∀ other ∈ s.converted, other ∈ s'.converted
  archived : ∀ other ∈ s.processedDir, other ∈ s'.processedDir
  noRetry : s'.retryQueue = ∅ ∧ s'.submitted = []
  clean : s'.miscounted = []

theorem Tidy.unchanged (ht : Tidy s) (name : String) : Onward s s name :=
  ⟨rfl, rfl, rfl, rfl, fun _ _ h => h, fun _ _ h => h, fun _ h => h, fun _ h => h, ht.noRetry, ht.clean⟩

theorem Onward.phaseOk {name other : String} (h : Onward s s' name) (apart : other ≠ name) {phase : Phase}
    (ok : PhaseOk s other phase) : PhaseOk s' other phase := by
  cases phase with
  | entered => exact ⟨h.watch other apart ok.1, fun attempted => ok.2 (h.attempted other apart attempted)⟩
  | converting => exact h.watch other apart ok
  | completed | recorded => exact ⟨h.watch other apart ok.1, h.converted other ok.2⟩
  | archived => exact ⟨h.converted other ok.1, h.archived other ok.2⟩
  | leaving =>
    rcases ok with unattempted | ⟨converted, archived⟩
    · exact .inl fun attempted => unattempted (h.attempted other apart attempted)
    · exact .inr ⟨h.converted other converted, h.archived other archived⟩
  | failing | contextSaved | givingUp => exact ok

theorem phaseOk_setPhase {i : Nat} {a : Attempt} {name : String} {phase phase' : Phase} :
    PhaseOk (s.setPhase i a phase) name phase' ↔ PhaseOk s name phase' := by
  cases phase' <;> rfl

/-- An attempt that goes on to a phase whose condition holds keeps the run tidy. -/
theorem Tidy.setPhase (ht : Tidy s) {i : Nat} {a : Attempt} (at_i : s.attempts[i]? = some a) (h : Onward s s' a.name)
    {phase : Phase} (ok : PhaseOk s' a.name phase) : Tidy (s'.setPhase i a phase) := by
  obtain ⟨before, after, was, -, set⟩ := split_at at_i
  have now : (s'.setPhase i a phase).attempts = before ++ { a with phase } :: after := by
    rw [State.setPhase, h.attempts]
    exact set _
  have names : (s'.setPhase i a phase).attempts.map Attempt.name = s.attempts.map Attempt.name := by
    rw [was, now]
    simp
  have apart : ∀ c ∈ before ++ after, c.name ≠ a.name := by
    have nodup : (s.attempts.map Attempt.name).Nodup := (List.nodup_append.mp ht.nodup).2.1
    rw [was, List.map_append, List.map_cons, List.nodup_middle, ← List.map_append, List.nodup_cons] at nodup
    exact fun c hc same => nodup.1 (same ▸ List.mem_map_of_mem hc)
  have here : a ∈ s.attempts := by simp [was]
  have queue_apart : ∀ name ∈ s.queue, name ≠ a.name := by
    intro name hq same
    have disjoint := (List.nodup_append.mp ht.nodup).2.2
    exact disjoint name hq a.name (List.mem_map_of_mem here) same
  constructor
  · rw [names]
    show (s'.queue ++ _).Nodup
    rw [h.queue]
    exact ht.nodup
  · intro name hq
    have hq : name ∈ s.queue := h.queue ▸ hq
    obtain ⟨there, processing, unattempted⟩ := ht.queued name hq
    have other := queue_apart name hq
    exact ⟨h.watch name other there, h.processing ▸ processing,
      fun attempted => unattempted (h.attempted name other attempted)⟩
  · intro c hc
    rw [now, List.mem_append, List.mem_cons] at hc
    have cases : c = { a with phase } ∨ c ∈ before ++ after := by
      rw [List.mem_append]
      tauto
    rcases cases with rfl | hc
    · obtain ⟨processing, worker, -⟩ := ht.running a here
      exact ⟨h.processing ▸ processing, worker, phaseOk_setPhase.mpr ok⟩
    · have old : c ∈ s.attempts := by
        rw [was, List.mem_append, List.mem_cons]
        rw [List.mem_append] at hc
        tauto
      obtain ⟨processing, worker, phase⟩ := ht.running c old
      exact ⟨h.processing ▸ processing, worker, phaseOk_setPhase.mpr (h.phaseOk (apart c hc) phase)⟩
  · intro name attempted
    rw [names]
    by_cases same : name = a.name
    · exact .inl (same ▸ List.mem_map_of_mem here)
    · rcases ht.settled name (h.attempted name same attempted) with running | ⟨converted, archived⟩
      · exact .inl running
      · exact .inr ⟨h.converted name converted, h.archived name archived⟩
  · intro name attempted
    show name ∈ s'.processing ∨ name ∈ s'.processed
    rw [h.processing, h.processed]
    by_cases same : name = a.name
    · exact .inl (same ▸ (ht.running a here).1)
    · exact ht.seen name (h.attempted name same attempted)
  · exact h.noRetry
  · exact h.clean

/-- A call from the worker loop ends, and its file counts as processed. -/
theorem Tidy.leave (ht : Tidy s) {i : Nat} {a : Attempt} (at_i : s.attempts[i]? = some a) (phase : a.phase = .leaving) :
    Tidy (s.leave i a) := by
  obtain ⟨before, after, was, erased, -⟩ := split_at at_i
  have here : a ∈ s.attempts := by simp [was]
  obtain ⟨-, worker, ok⟩ := ht.running a here
  rw [phase] at ok
  have middle : (a.name :: (s.queue ++ (before ++ after).map Attempt.name)).Nodup := by
    have nodup := ht.nodup
    rw [was, List.map_append, List.map_cons, ← List.append_assoc, List.nodup_middle] at nodup
    rwa [List.map_append, ← List.append_assoc]
  obtain ⟨gone, nodup⟩ := List.nodup_cons.mp middle
  rw [List.mem_append, not_or] at gone
  simp only [State.leave, erased, worker, if_true]
  have others : ∀ c ∈ before ++ after, c ∈ s.attempts := by
    intro c hc
    rw [was, List.mem_append, List.mem_cons]
    rw [List.mem_append] at hc
    tauto
  have still : ∀ name ≠ a.name, name ∈ s.processing → name ∈ s.processing.filter (· ≠ a.name) :=
    fun name other h => List.mem_filter.mpr ⟨h, by simpa using other⟩
  constructor
  · exact nodup
  · intro name hq
    obtain ⟨there, processing, unattempted⟩ := ht.queued name hq
    exact ⟨there, still name (fun same => gone.1 (same ▸ hq)) processing, unattempted⟩
  · intro c hc
    obtain ⟨processing, worker, phase⟩ := ht.running c (others c hc)
    exact ⟨still c.name (fun same => gone.2 (same ▸ List.mem_map_of_mem hc)) processing, worker, phase⟩
  · intro name attempted
    rcases ht.settled name attempted with running | done
    · rw [was, List.map_append, List.map_cons, List.mem_append, List.mem_cons] at running
      rcases running with h | rfl | h
      · exact .inl (by simp [h])
      · exact .inr (ok.resolve_left (not_not_intro attempted))
      · exact .inl (by simp [h])
    · exact .inr done
  · intro name attempted
    by_cases same : name = a.name
    · exact .inr (same ▸ List.mem_cons_self)
    · exact (ht.seen name attempted).imp (still name same) (List.mem_cons_of_mem _)
  · exact ht.noRetry
  · exact ht.clean

theorem eq_ok {result : Except PyException Unit} (h : result.isOk = true) : result = .ok () := by
  cases result with
  | ok u => rfl
  | error e => cases h

theorem Onward.recorded {name : String} (h : Onward s s' name) :
    Onward s { s'.markProcessed cfg name true with
      retryQueue := (s'.markProcessed cfg name true).retryQueue.erase name } name := by
  have empty : s'.retryQueue.erase name = ∅ := by
    rw [h.noRetry.1]
    rfl
  simp only [markProcessed]
  split
  · exact { h with noRetry := ⟨empty, h.noRetry.2⟩ }
  · exact { h with noRetry := ⟨empty, h.noRetry.2⟩ }

theorem Onward.filed {name : String} (h : Onward s s' name) :
    Onward s { s' with watch := s'.watch.erase name, processedDir := name :: s'.processedDir } name :=
  { h with
    watch := fun other apart there => (AList.mem_erase).mpr ⟨apart, h.watch other apart there⟩
    archived := fun other there => List.mem_cons_of_mem _ (h.archived other there) }

theorem Tidy.advance (ht : Tidy s) {i : Nat} {a : Attempt} (at_i : s.attempts[i]? = some a)
    {result : Except PyException Unit} (untroubled : Untroubled cfg s (.advance i result)) :
    Tidy (s.advance cfg i a result) := by
  obtain ⟨-, -, ok⟩ := ht.running a (List.mem_of_getElem? at_i)
  have still := ht.unchanged a.name
  simp only [Untroubled, at_i, Option.map_some] at untroubled
  cases phase : a.phase with
  | entered =>
    rw [phase] at ok
    simp only [State.advance, phase]
    split
    · exact ht.setPhase at_i still (.inl ok.2)
    split
    · exact ht
    rw [if_pos ok.1]
    have attempted : Onward s { s with attempted := a.name :: s.attempted } a.name :=
      { still with attempted := fun other apart h => (List.mem_cons.mp h).resolve_left apart }
    exact ht.setPhase at_i attempted ok.1
  | converting =>
    rw [phase] at ok untroubled
    simp only [State.advance, phase, eq_ok untroubled]
    have converted : Onward s { s with converted := a.name :: s.converted } a.name :=
      { still with converted := fun other h => List.mem_cons_of_mem _ h }
    exact ht.setPhase at_i converted ⟨ok, List.mem_cons_self⟩
  | completed =>
    rw [phase] at ok untroubled
    simp only [State.advance, phase, eq_ok untroubled]
    split
    · exact ht.setPhase at_i still ok
    · have there : a.name ∈ (s.markProcessed cfg a.name true).watch ∧
          a.name ∈ (s.markProcessed cfg a.name true).converted := by
        simp only [markProcessed]
        split
        · exact ok
        · exact ok
      exact ht.setPhase at_i still.recorded there
  | recorded =>
    rw [phase] at ok untroubled
    simp only [State.advance, phase, eq_ok untroubled.1, untroubled.2, Bool.not_true, Bool.false_eq_true, if_false]
    rw [if_pos ok.1]
    exact ht.setPhase at_i still.filed ⟨ok.2, List.mem_cons_self⟩
  | archived =>
    rw [phase] at ok untroubled
    simp only [State.advance, phase, eq_ok untroubled]
    exact ht.setPhase at_i still (.inr ok)
  | failing => rw [phase] at ok; exact ok.elim
  | contextSaved => rw [phase] at ok; exact ok.elim
  | givingUp => rw [phase] at ok; exact ok.elim
  | leaving =>
    simp only [State.advance, phase]
    exact ht.leave at_i phase

theorem extension_unique {name : String} {ext ext' : String} (h : ext ∈ supportedExtensions)
    (h' : ext' ∈ supportedExtensions) (ends : ext.toList <:+ name.toList) (ends' : ext'.toList <:+ name.toList) :
    ext = ext' := by
  have nested : ∀ a ∈ supportedExtensions, ∀ b ∈ supportedExtensions, a.toList <:+ b.toList → a = b := by
    decide +kernel
  rcases List.suffix_or_suffix_of_suffix ends ends' with sub | sub
  · exact nested ext h ext' h' sub
  · exact (nested ext' h' ext h sub).symm

theorem existing_nodup (s : State) : (s.existing cfg).Nodup := by
  have supported : ∀ ext ∈ cfg.extensions, ext ∈ supportedExtensions := fun ext h => cfg.extensions_perm.mem_iff.mp h
  have distinct : cfg.extensions.Nodup := cfg.extensions_perm.nodup_iff.mpr (by decide)
  rw [existing, List.nodup_flatMap]
  refine ⟨fun ext _ => s.watch.nodupKeys.filter _, ?_⟩
  have pairwise : cfg.extensions.Pairwise fun a b => a ≠ b := distinct
  apply pairwise.imp_of_mem
  intro ext ext' h h' apart name hn hn'
  have ends := (List.mem_filter.mp hn).2
  have ends' := (List.mem_filter.mp hn').2
  exact apart (extension_unique (supported ext h) (supported ext' h') (List.isSuffixOf_iff_suffix.mp ends)
    (List.isSuffixOf_iff_suffix.mp ends'))

theorem scan_tidy {names : List String} (ht : Tidy s) (nodup : names.Nodup)
    (unseen : ∀ name ∈ names, name ∉ s.processing ∧ name ∉ s.processed) : Tidy (names.foldl (scanFile cfg) s) := by
  induction names generalizing s with
  | nil => exact ht
  | cons name names ih =>
    obtain ⟨first, rest⟩ := List.nodup_cons.mp nodup
    rw [List.foldl_cons]
    cases found : s.watch.lookup name with
    | none =>
      have same : scanFile cfg s name = s := by simp only [scanFile, found]
      rw [same]
      exact ih ht rest fun n hn => unseen n (List.mem_cons_of_mem _ hn)
    | some file =>
      have there : name ∈ s.watch := AList.lookup_isSome.mp (by rw [found]; rfl)
      obtain ⟨free, fresh⟩ := unseen name List.mem_cons_self
      simp only [scanFile, found]
      split
      · exact ih ht rest fun n hn => unseen n (List.mem_cons_of_mem _ hn)
      · apply ih (ht.enqueue there free fresh) rest
        intro n hn
        obtain ⟨free', fresh'⟩ := unseen n (List.mem_cons_of_mem _ hn)
        refine ⟨?_, fresh'⟩
        rw [List.mem_cons, not_or]
        exact ⟨fun same => first (same ▸ hn), free'⟩

theorem Tidy.queueFile (ht : Tidy s) (name : String) (stable : Bool) : Tidy (s.queueFile cfg name stable) := by
  simp only [State.queueFile]
  split
  · exact ht
  rename_i file found
  split
  · exact ht
  rename_i valid
  rw [not_or, not_or] at valid
  split
  · exact ⟨ht.nodup, ht.queued, ht.running, ht.settled, fun n h => (ht.seen n h).imp_right (List.mem_cons_of_mem _),
      ht.noRetry, ht.clean⟩
  split
  · exact ht
  · exact ht.enqueue (AList.lookup_isSome.mp (by rw [found]; rfl)) valid.2.1 valid.2.2

theorem Tidy.dequeue (ht : Tidy s) {name : String} {queue : List String} (first : s.queue = name :: queue) :
    Tidy { s with queue, attempts := s.attempts ++ [{ name, retryCount := 0, fromWorker := true }] } := by
  have head : name ∈ s.queue := by simp [first]
  obtain ⟨there, processing, unattempted⟩ := ht.queued name head
  refine ⟨?_, ?_, ?_, ?_, ht.seen, ht.noRetry, ht.clean⟩
  · have whole : (queue ++ (s.attempts.map Attempt.name ++ [name])).Perm
        (s.queue ++ s.attempts.map Attempt.name) := by
      rw [first, ← List.append_assoc]
      exact List.perm_append_singleton name _
    rw [List.map_append, List.map_singleton]
    exact whole.nodup_iff.mpr ht.nodup
  · intro other h
    exact ht.queued other (by simp [first, h])
  · intro a ha
    rcases List.mem_append.mp ha with ha | ha
    · exact ht.running a ha
    · obtain rfl := List.mem_singleton.mp ha
      exact ⟨processing, rfl, there, unattempted⟩
  · intro other h
    rw [List.map_append]
    exact (ht.settled other h).imp_left (List.mem_append_left _)

theorem PhaseOk.arrive {name : String} {phase : Phase} (ok : PhaseOk s name phase) (other : String)
    (file : FileInfo) : PhaseOk { s with watch := s.watch.insert other file } name phase := by
  have kept : name ∈ s.watch → name ∈ s.watch.insert other file := fun h => (AList.mem_insert _).mpr (.inr h)
  cases phase with
  | entered => exact ⟨kept ok.1, ok.2⟩
  | converting => exact kept ok
  | completed | recorded => exact ⟨kept ok.1, ok.2⟩
  | archived | leaving | failing | contextSaved | givingUp => exact ok

theorem step_tidy (s : State) (action : Action) (ht : Tidy s) (untroubled : Untroubled cfg s action) :
    Tidy (s.step cfg action) := by
  cases action with
  | arrive name file =>
    refine ⟨ht.nodup, ?_, ?_, ht.settled, ht.seen, ht.noRetry, ht.clean⟩
    · intro other queued
      obtain ⟨there, rest⟩ := ht.queued other queued
      exact ⟨(AList.mem_insert _).mpr (.inr there), rest⟩
    · intro a ha
      obtain ⟨processing, worker, phase⟩ := ht.running a ha
      exact ⟨processing, worker, phase.arrive name file⟩
  | event name stable => exact ht.queueFile name stable
  | scan =>
    apply scan_tidy ht (existing_nodup s)
    intro name h
    obtain ⟨ext, -, hn⟩ := List.mem_flatMap.mp h
    exact untroubled name (AList.mem_keys.mpr (List.mem_filter.mp hn).1)
  | dequeue =>
    simp only [State.step]
    split
    · exact ht
    · rename_i name queue first
      split
      · have sub : ∀ n ∈ queue, n ∈ s.queue := fun n h => by simp [first, h]
        refine ⟨?_, fun n h => ht.queued n (sub n h), ht.running, ht.settled, ht.seen, ht.noRetry, ht.clean⟩
        have nodup := ht.nodup
        rw [first, List.cons_append] at nodup
        exact (List.nodup_cons.mp nodup).2
      · exact ht.dequeue first
  | startSubmitted =>
    simp only [State.step, ht.noRetry.2]
    exact ht
  | advance i result =>
    simp only [State.step]
    cases at_i : s.attempts[i]? with
    | none => exact ht
    | some a => exact ht.advance at_i untroubled
  | processRetries =>
    have none : s.pendingRetries cfg = [] := by
      rw [pendingRetries, ht.noRetry.1]
      rfl
    simp only [State.step, none, List.foldl_nil]
    exact ht
  | tick | pause | resume | drain | stop =>
    exact ⟨ht.nodup, ht.queued, ht.running, ht.settled, ht.seen, ht.noRetry, ht.clean⟩

/-- The watcher before its start: no file is queued, under way or due for a retry. -/
def fresh (watch : Dict String FileInfo) (processedDir : List String) (errorsDir : Dict String FileInfo)
    (rows : Dict (String × Nat) ProcessedRow) : State :=
  { watch, processedDir, errorsDir, rows }

theorem tidy_fresh {watch : Dict String FileInfo} {processedDir : List String} {errorsDir : Dict String FileInfo}
    {rows : Dict (String × Nat) ProcessedRow} : Tidy (fresh watch processedDir errorsDir rows) := by
  refine ⟨List.nodup_nil, ?_, ?_, ?_, ?_, ⟨rfl, rfl⟩, rfl⟩
  all_goals
    intro x hx
    cases hx

/-- As long as no conversion fails and nothing troubles what follows it, no file is lost in any
state of the run. -/
theorem nothing_lost_of_untroubled (cfg : Config) (watch : Dict String FileInfo) (processedDir : List String)
    (errorsDir : Dict String FileInfo) (rows : Dict (String × Nat) ProcessedRow) {actions : List Action}
    (h : EachStep (State.step cfg) (Untroubled cfg) (fresh watch processedDir errorsDir rows) actions)
    {pre : List Action} (hp : pre <+: actions) :
    NothingLost cfg (run (State.step cfg) (fresh watch processedDir errorsDir rows) pre) := by
  obtain ⟨post, rfl⟩ := hp
  have upto := (eachStep_append.mp h).1
  have tidy : Tidy (run (State.step cfg) (fresh watch processedDir errorsDir rows) pre) :=
    invariant_of_eachStep step_tidy tidy_fresh upto
  exact tidy.nothingLost

theorem untroubled_ok (archives : cfg.archiveProcessed) (i : Nat) : Untroubled cfg s (.advance i (.ok ())) := by
  simp only [Untroubled]
  split
  · rfl
  · rfl
  · rfl
  · exact ⟨rfl, archives⟩
  · trivial

/-- A file arrives, is queued, converted and archived. -/
def goodDay : List Action :=
  [.arrive "a.vmdk" ⟨10, "m"⟩, .event "a.vmdk" true, .dequeue, .advance 0 (.ok ()), .advance 0 (.ok ()),
    .advance 0 (.ok ()), .advance 0 (.ok ()), .advance 0 (.ok ()), .advance 0 (.ok ())]

theorem nothing_lost_goodDay :
    (run (State.step {}) (fresh ∅ [] ∅ ∅) goodDay).attempted = ["a.vmdk"] ∧
      (run (State.step {}) (fresh ∅ [] ∅ ∅) goodDay).attempts = [] ∧
      NothingLost {} (run (State.step {}) (fresh ∅ [] ∅ ∅) goodDay) := by
  refine ⟨by decide +kernel, by decide +kernel, ?_⟩
  apply nothing_lost_of_untroubled {} ∅ [] ∅ ∅ _ List.prefix_rfl
  refine ⟨trivial, trivial, trivial, ?_, ?_, ?_, ?_, ?_, ?_, trivial⟩
  all_goals exact untroubled_ok rfl 0

/-- The first conversion of the file fails: a retry is put down and the file stays where it is. -/
def badDay : List Action :=
  [.arrive "a.vmdk" ⟨10, "m"⟩, .event "a.vmdk" true, .dequeue, .advance 0 (.ok ()),
    .advance 0 (.error ⟨"RuntimeError", "convert", false⟩), .advance 0 (.ok ()), .advance 0 (.ok ()), .advance 0 (.ok ())]

theorem badDay_loses : ¬ NothingLost {} (run (State.step {}) (fresh ∅ [] ∅ ∅) badDay) := by
  intro h
  have tried : "a.vmdk" ∈ (run (State.step {}) (fresh ∅ [] ∅ ∅) badDay).attempted := by decide +kernel
  have idle : (run (State.step {}) (fresh ∅ [] ∅ ∅) badDay).attempts = [] := by decide +kernel
  have unconverted : (run (State.step {}) (fresh ∅ [] ∅ ∅) badDay).converted = [] := by decide +kernel
  have elsewhere : "a.vmdk" ∉ (run (State.step {}) (fresh ∅ [] ∅ ∅) badDay).errorsDir := by decide +kernel
  have accounted := h.1 "a.vmdk" tried (by simp [idle])
  rcases accounted with ⟨converted, -⟩ | ⟨there, -⟩ | ⟨there, -⟩
  · rw [unconverted] at converted
    cases converted
  · exact elsewhere there
  · exact elsewhere there

end State

end H2kvm.Daemon
