import H2kvm.Recovery.History

namespace H2kvm.Recovery

open Framework

/-- In a list sorted by key, the first hit from the end has the greatest key of all hits. -/
theorem find_reverse_of_sorted {K V : Type} [Preorder K] {l : List (K × V)}
    (sorted : l.Pairwise fun a b => a.1 ≤ b.1) {p : K × V → Bool} {f : K × V} (found : l.reverse.find? p = some f) :
    f ∈ l ∧ p f ∧ ∀ g ∈ l, p g → g.1 ≤ f.1 := by
  obtain ⟨hp, before, after, split, missed⟩ := List.find?_eq_some_iff_append.mp found
  have same : l = after.reverse ++ f :: before.reverse := by
    have := congrArg List.reverse split
    simpa using this
  rw [same, List.pairwise_append] at sorted
  obtain ⟨-, -, le⟩ := sorted
  refine ⟨by simp [same], hp, ?_⟩
  intro g hg hpg
  rw [same, List.mem_append, List.mem_cons] at hg
  rcases hg with earlier | rfl | later
  · exact le g earlier f List.mem_cons_self
  · exact le_refl _
  · have := missed g (List.mem_reverse.mp later)
    simp [hpg] at this

namespace Settings

variable {st : Settings}

theorem sorted_loadAllCheckpointFiles (s : Store) :
    (st.loadAllCheckpointFiles s).Pairwise fun a b => a.1 ≤ b.1 := by
  rw [loadAllCheckpointFiles, List.pairwise_filterMap]
  have named : ∀ {path f}, ((s.files.lookup path).bind fun cp =>
      if cp.runId = st.runId ∧ st.validateIntegrity cp then some (path, cp) else none) = some f → f.1 = path := by
    intro path f h
    obtain ⟨cp, -, kept⟩ := Option.bind_eq_some_iff.mp h
    split at kept
    · obtain rfl := Option.some.inj kept
      rfl
    · cases kept
  have sorted : (st.findCheckpointFiles s none none none).Pairwise (· ≤ ·) :=
    (List.pairwise_insertionSort (· ≤ ·) _).filter _
  apply sorted.imp
  intro a b le f hf g hg
  rw [named hf, named hg]
  exact le

end Settings

namespace History

variable {st : Settings}

/-- Every save goes to a file whose name sorts after those of all earlier ones, and is written. -/
def NameAscends (st : Settings) (h : History) : Call → Prop
  | .save c => c.write.isOk ∧ ∀ cp ∈ h.saved, checkpointPath cp < checkpointPath (st.newCheckpoint c)
  | .mark _ | .restart => True

/-- Every save has a later timestamp than all earlier ones. -/
def TimeAscends (h : History) : Call → Prop
  | .save c => ∀ cp ∈ h.saved, cp.timestamp < nowTs c.now
  | .mark _ | .restart => True

instance (st : Settings) (h : History) : (a : Call) → Decidable (NameAscends st h a)
  | .save c => inferInstanceAs (Decidable (c.write.isOk ∧ ∀ cp ∈ h.saved, checkpointPath cp < _))
  | .mark _ | .restart => inferInstanceAs (Decidable True)

instance (h : History) : (a : Call) → Decidable (TimeAscends h a)
  | .save c => inferInstanceAs (Decidable (∀ cp ∈ h.saved, cp.timestamp < nowTs c.now))
  | .mark _ | .restart => inferInstanceAs (Decidable True)

/-- What a run keeps when names and timestamps ascend: the files are those of the saved
checkpoints, with the completed ones as they were returned. -/
structure Orderly (st : Settings) (h : History) : Prop where
  file_known : ∀ path cp, h.store.files.lookup path = some cp → path = checkpointPath cp ∧ cp.runId = st.runId ∧
    st.validateIntegrity cp ∧ (∃ c ∈ h.saved, c.core = cp.core) ∧ (cp.completed → cp ∈ h.completed)
  saved_stored : ∀ c ∈ h.saved, ∃ cp, h.store.files.lookup (checkpointPath c) = some cp ∧ cp.core = c.core
  completed_stored : ∀ c ∈ h.completed, c = st.asCompleted c ∧ h.store.files.lookup (checkpointPath c) = some c
  memory_known : ∀ m ∈ h.store.memory, ∃ c ∈ h.saved, c.core = m.core
  ascending : h.saved.Pairwise fun c d => checkpointPath c < checkpointPath d ∧ c.timestamp < d.timestamp

theorem checkpointPath_core {a b : Checkpoint} (h : a.core = b.core) : checkpointPath a = checkpointPath b := by
  have here : ∀ cp : Checkpoint, checkpointPath cp = checkpointPath cp.core := fun _ => rfl
  rw [here a, here b, h]

theorem timestamp_core {a b : Checkpoint} (h : a.core = b.core) : a.timestamp = b.timestamp := by
  have same : a.core.timestamp = b.core.timestamp := congrArg Checkpoint.timestamp h
  exact same

theorem memory_of_cores {memory memory' : List Checkpoint}
    (cores : memory.map Checkpoint.core = memory'.map Checkpoint.core) {m : Checkpoint} (hm : m ∈ memory) :
    ∃ m' ∈ memory', m'.core = m.core := by
  have : m.core ∈ memory'.map Checkpoint.core := cores ▸ List.mem_map_of_mem hm
  exact List.mem_map.mp this

theorem orderly_initial (st : Settings) : Orderly st {} where
  file_known path cp found := by simp at found
  saved_stored := by simp
  completed_stored := by simp
  memory_known := by simp
  ascending := List.Pairwise.nil

theorem Orderly.stored_core {h : History} (ho : Orderly st h) {m : Checkpoint} (known : ∃ c ∈ h.saved, c.core = m.core) :
    ∃ cp, h.store.files.lookup (checkpointPath m) = some cp ∧ cp.core = m.core := by
  obtain ⟨c, hc, core⟩ := known
  obtain ⟨cp, found, core'⟩ := ho.saved_stored c hc
  exact ⟨cp, by rw [← checkpointPath_core core, found], core'.trans core⟩

theorem orderly_save {h : History} (ho : Orderly st h) {c : SaveCall} (name : NameAscends st h (.save c))
    (time : TimeAscends h (.save c)) : Orderly st (h.step st (.save c)) := by
  obtain ⟨ok, name⟩ := name
  have written : st.saveCheckpoint h.store c = (.ok (st.newCheckpoint c),
      { h.store with memory := st.newCheckpoint c :: h.store.memory
                     files := h.store.files.insert (checkpointPath (st.newCheckpoint c)) (st.newCheckpoint c) }) := by
    cases hw : c.write with
    | error e => simp [hw, Except.isOk, Except.toBool] at ok
    | ok u => simp [Settings.saveCheckpoint, hw]
  simp only [step, written]
  generalize hcp : st.newCheckpoint c = cp at *
  have apart : ∀ d ∈ h.saved, checkpointPath d ≠ checkpointPath cp := fun d hd => (name d hd).ne
  have kept : ∀ path, path ≠ checkpointPath cp →
      (h.store.files.insert (checkpointPath cp) cp).lookup path = h.store.files.lookup path :=
    fun path hp => AList.lookup_insert_ne hp
  constructor
  · intro path found hfound
    by_cases hp : path = checkpointPath cp
    · subst hp
      rw [AList.lookup_insert] at hfound
      obtain rfl := Option.some.inj hfound
      subst hcp
      exact ⟨rfl, rfl, validateIntegrity_finalizeIntegrity st _, ⟨_, by simp, rfl⟩, fun done => by cases done⟩
    · rw [kept path hp] at hfound
      obtain ⟨hpath, run, valid, ⟨d, hd, core⟩, done⟩ := ho.file_known path found hfound
      exact ⟨hpath, run, valid, ⟨d, by simp [hd], core⟩, done⟩
  · intro d hd
    rcases List.mem_append.mp hd with hd | hd
    · rw [kept _ (apart d hd)]
      exact ho.saved_stored d hd
    · obtain rfl := List.mem_singleton.mp hd
      exact ⟨d, AList.lookup_insert _, rfl⟩
  · intro d hd
    obtain ⟨done, found⟩ := ho.completed_stored d hd
    obtain ⟨-, -, -, ⟨e, he, core⟩, -⟩ := ho.file_known _ d found
    refine ⟨done, ?_⟩
    rw [kept _ (checkpointPath_core core ▸ apart e he), found]
  · intro m hm
    rcases List.mem_cons.mp hm with rfl | hm
    · exact ⟨m, by simp, rfl⟩
    · obtain ⟨d, hd, core⟩ := ho.memory_known m hm
      exact ⟨d, by simp [hd], core⟩
  · rw [List.pairwise_append]
    refine ⟨ho.ascending, List.pairwise_singleton .., fun d hd e he => ?_⟩
    obtain rfl := List.mem_singleton.mp he
    refine ⟨name d hd, ?_⟩
    subst hcp
    exact time d hd

/-- Completing a checkpoint under its file keeps a run orderly. -/
theorem orderly_written {h : History} (ho : Orderly st h) {cp f : Checkpoint} {path : Str} {memory : List Checkpoint}
    {pointer : Option Pointer} (found : h.store.files.lookup path = some f) (core : f.core = cp.core)
    (cores : memory.map Checkpoint.core = h.store.memory.map Checkpoint.core) :
    Orderly st { h with store := { memory, pointer, files := h.store.files.insert path (st.asCompleted cp) }
                        completed := h.completed ++ [st.asCompleted cp] } := by
  obtain ⟨hpath, run, valid, known, -⟩ := ho.file_known path f found
  have here : path = checkpointPath (st.asCompleted cp) := hpath.trans (checkpointPath_core core)
  have own : cp.runId = st.runId := by
    have same : f.core.runId = cp.core.runId := congrArg Checkpoint.runId core
    exact same.symm.trans run
  constructor
  · intro path' cp' found'
    by_cases hp : path' = path
    · subst hp
      rw [AList.lookup_insert] at found'
      obtain rfl := Option.some.inj found'
      obtain ⟨c, hc, core'⟩ := known
      exact ⟨here, own, validateIntegrity_finalizeIntegrity st _, ⟨c, hc, core'.trans core⟩, fun _ => by simp⟩
    · rw [AList.lookup_insert_ne hp] at found'
      obtain ⟨hpath, run, valid, known, done⟩ := ho.file_known path' cp' found'
      exact ⟨hpath, run, valid, known, fun hc => List.mem_append_left _ (done hc)⟩
  · intro c hc
    obtain ⟨cp', found', core'⟩ := ho.saved_stored c hc
    by_cases hp : checkpointPath c = path
    · rw [hp] at found' ⊢
      obtain rfl := Option.some.inj (found.symm.trans found')
      exact ⟨_, AList.lookup_insert _, core.symm.trans core'⟩
    · exact ⟨cp', by rw [AList.lookup_insert_ne hp, found'], core'⟩
  · intro c hc
    rcases List.mem_append.mp hc with hc | hc
    · obtain ⟨done, found'⟩ := ho.completed_stored c hc
      refine ⟨done, ?_⟩
      by_cases hp : checkpointPath c = path
      · rw [hp] at found' ⊢
        obtain rfl := Option.some.inj (found.symm.trans found')
        rw [AList.lookup_insert, done]
        exact congrArg some (Settings.asCompleted_congr core).symm
      · rw [AList.lookup_insert_ne hp, found']
    · obtain rfl := List.mem_singleton.mp hc
      exact ⟨rfl, by rw [← here, AList.lookup_insert]⟩
  · intro m hm
    obtain ⟨m', hm', core'⟩ := memory_of_cores cores hm
    obtain ⟨c, hc, core''⟩ := ho.memory_known m' hm'
    exact ⟨c, hc, core''.trans core'⟩
  · exact ho.ascending

theorem orderly_mark {h : History} (ho : Orderly st h) (c : MarkCall) : Orderly st (h.step st (.mark c)) := by
  have marked : st.Marked h.store (st.markCheckpointComplete h.store c) :=
    Settings.marked_markCheckpointComplete h.store c
  simp only [step]
  generalize st.markCheckpointComplete h.store c = result at marked
  have memory_known {memory : List Checkpoint}
      (cores : memory.map Checkpoint.core = h.store.memory.map Checkpoint.core) :
      ∀ m ∈ memory, ∃ c ∈ h.saved, c.core = m.core := by
    intro m hm
    obtain ⟨m', hm', core⟩ := memory_of_cores cores hm
    obtain ⟨c, hc, core'⟩ := ho.memory_known m' hm'
    exact ⟨c, hc, core'.trans core⟩
  cases marked with
  | nothing noResult cores =>
    rename_i result memory
    have kept : Orderly st { h with store := { h.store with memory } } :=
      ⟨ho.file_known, ho.saved_stored, ho.completed_stored, memory_known cores, ho.ascending⟩
    match result, noResult with
    | .error e, _ => exact kept
    | .ok none, _ => exact kept
    | .ok (some cp), no => exact absurd rfl (no cp)
  | @absent cp memory pointer noFile held cores pointed =>
    obtain ⟨m, hm, core, -⟩ := held
    obtain ⟨f, found, -⟩ := ho.stored_core (ho.memory_known m hm)
    rw [checkpointPath_core core] at found
    exact absurd (AList.lookup_isSome.mp (by rw [found]; rfl)) noFile
  | @written cp path memory pointer known own there cores pointed =>
    rcases known with ⟨rfl, m, hm, core⟩ | ⟨f, found, core⟩
    · obtain ⟨f, found, core'⟩ := ho.stored_core (ho.memory_known m hm)
      rw [checkpointPath_core core] at found
      exact orderly_written ho found (core'.trans core) cores
    · exact orderly_written ho found core cores
  | @already cp path pointer found own done pointed =>
    obtain ⟨-, -, -, -, listed⟩ := ho.file_known path cp found
    refine ⟨?_, ho.saved_stored, ?_, ho.memory_known, ho.ascending⟩
    · intro path' cp' found'
      obtain ⟨hpath, run, valid, known, done'⟩ := ho.file_known path' cp' found'
      exact ⟨hpath, run, valid, known, fun hc => List.mem_append_left _ (done' hc)⟩
    · intro c hc
      rcases List.mem_append.mp hc with hc | hc
      · exact ho.completed_stored c hc
      · obtain rfl := List.mem_singleton.mp hc
        exact ho.completed_stored c (listed done)

theorem orderly_step (h : History) (a : Call) (ho : Orderly st h) (guard : TimeAscends h a ∧ NameAscends st h a) :
    Orderly st (h.step st a) := by
  cases a with
  | save c => exact orderly_save ho guard.2 guard.1
  | mark c => exact orderly_mark ho c
  | restart => exact ⟨ho.file_known, ho.saved_stored, ho.completed_stored, by simp [step], ho.ascending⟩

/-- `describe_recovery` by scan returns the completed checkpoint with the latest timestamp among
those its rules accept, and nothing only if they accept none. -/
def ScanPicksNewest (st : Settings) (h : History) : Prop :=
  ∀ r, match st.describeRecovery h.store r false with
    | none => ∀ cp ∈ h.completed, ¬ st.scanAccepts r cp
    | some d => ∃ cp ∈ h.completed, st.scanAccepts r cp ∧
        d = Settings.decision (checkpointPath cp, cp) "newest eligible completed checkpoint" ∧
        ∀ other ∈ h.completed, st.scanAccepts r other → other.timestamp ≤ cp.timestamp

/-- `latest_checkpoint` returns the checkpoint with the latest timestamp among those that match. -/
def LatestIsNewest (st : Settings) (h : History) : Prop :=
  ∀ stage scope step completedOnly,
    let candidates := if completedOnly then h.completed else h.saved
    match st.latestCheckpoint h.store stage scope step completedOnly with
    | none => ∀ cp ∈ candidates, ¬ Settings.matchesFilters stage scope step cp
    | some cp => (∃ c ∈ candidates, Settings.matchesFilters stage scope step c ∧ c.core = cp.core) ∧
        ∀ other ∈ candidates, Settings.matchesFilters stage scope step other → other.timestamp ≤ cp.timestamp

theorem Orderly.loaded_iff {h : History} (ho : Orderly st h) {path : Str} {cp : Checkpoint} :
    (path, cp) ∈ st.loadAllCheckpointFiles h.store ↔ h.store.files.lookup path = some cp := by
  rw [mem_loadAllCheckpointFiles]
  refine ⟨And.left, fun found => ?_⟩
  obtain ⟨rfl, run, valid, -, -⟩ := ho.file_known path cp found
  exact ⟨found, inGlob_checkpointPath st run, run, valid⟩

/-- Names and timestamps order the files alike. -/
theorem Orderly.timestamp_le {h : History} (ho : Orderly st h) {a b : Checkpoint}
    (ha : h.store.files.lookup (checkpointPath a) = some a) (hb : h.store.files.lookup (checkpointPath b) = some b)
    (le : checkpointPath a ≤ checkpointPath b) : a.timestamp ≤ b.timestamp := by
  obtain ⟨-, -, -, ⟨c, hc, core⟩, -⟩ := ho.file_known _ a ha
  obtain ⟨-, -, -, ⟨d, hd, core'⟩, -⟩ := ho.file_known _ b hb
  rw [← checkpointPath_core core, ← checkpointPath_core core'] at le
  rw [← timestamp_core core, ← timestamp_core core']
  have ordered : h.saved.Pairwise fun c d => checkpointPath c ≤ checkpointPath d → c.timestamp ≤ d.timestamp :=
    ho.ascending.imp fun asc _ => asc.2.le
  have flipped : h.saved.Pairwise (flip fun c d => checkpointPath c ≤ checkpointPath d → c.timestamp ≤ d.timestamp) :=
    ho.ascending.imp fun asc le => absurd asc.1 (not_lt_of_ge le)
  exact ordered.forall_of_forall_of_flip (fun _ _ _ => le_refl _) flipped hc hd le

theorem scanPicksNewest_of_orderly {h : History} (ho : Orderly st h) : ScanPicksNewest st h := by
  intro r
  have stored : ∀ cp ∈ h.completed, (checkpointPath cp, cp) ∈ st.loadAllCheckpointFiles h.store :=
    fun cp hcp => ho.loaded_iff.mpr (ho.completed_stored cp hcp).2
  have scan : st.describeRecovery h.store r false = st.scanRecovery h.store r := by simp [Settings.describeRecovery]
  rw [scan, Settings.scanRecovery]
  cases found : (st.loadAllCheckpointFiles h.store).reverse.find? fun f => st.scanAccepts r f.2 with
  | none =>
    intro cp hcp
    have missed := List.find?_eq_none.mp found (checkpointPath cp, cp) (List.mem_reverse.mpr (stored cp hcp))
    exact missed
  | some f =>
    obtain ⟨path, cp⟩ := f
    obtain ⟨loaded, accepted, newest⟩ := find_reverse_of_sorted (Settings.sorted_loadAllCheckpointFiles h.store) found
    have file := ho.loaded_iff.mp loaded
    obtain ⟨rfl, -, -, -, listed⟩ := ho.file_known path cp file
    have done : cp.completed = true := by
      simp only [Settings.scanAccepts, Bool.and_eq_true] at accepted
      exact accepted.1.1.1.1.1
    refine ⟨cp, listed done, accepted, rfl, ?_⟩
    intro other hother accepted'
    have le := newest (checkpointPath other, other) (stored other hother) accepted'
    exact ho.timestamp_le (ho.completed_stored other hother).2 file le

theorem latestIsNewest_of_orderly {h : History} (ho : Orderly st h) : LatestIsNewest st h := by
  intro stage scope step completedOnly candidates
  -- every candidate has its file, and the filters do not see what completion changed
  have stored : ∀ c ∈ candidates, ∃ cp, h.store.files.lookup (checkpointPath cp) = some cp ∧ cp.core = c.core ∧
      (completedOnly → cp.completed) := by
    intro c hc
    cases completedOnly with
    | true =>
      obtain ⟨done, file⟩ := ho.completed_stored c hc
      exact ⟨c, file, rfl, fun _ => by rw [done]; rfl⟩
    | false =>
      obtain ⟨cp, file, core⟩ := ho.saved_stored c hc
      exact ⟨cp, by rw [checkpointPath_core core, file], core, by simp⟩
  have filters : ∀ {a b : Checkpoint}, a.core = b.core →
      Settings.matchesFilters stage scope step a = Settings.matchesFilters stage scope step b := by
    intro a b core
    have here : ∀ cp : Checkpoint, Settings.matchesFilters stage scope step cp =
      Settings.matchesFilters stage scope step cp.core := fun _ => rfl
    rw [here a, here b, core]
  rw [Settings.latestCheckpoint]
  cases found : (st.loadAllCheckpointFiles h.store).reverse.find? fun f =>
      (!completedOnly || f.2.completed) && Settings.matchesFilters stage scope step f.2 with
  | none =>
    intro c hc matched
    obtain ⟨cp, file, core, done⟩ := stored c hc
    have missed := List.find?_eq_none.mp found (checkpointPath cp, cp)
      (List.mem_reverse.mpr (ho.loaded_iff.mpr file))
    apply missed
    rw [filters core, matched]
    cases completedOnly with
    | true => simp [done rfl]
    | false => simp
  | some f =>
    obtain ⟨path, cp⟩ := f
    obtain ⟨loaded, accepted, newest⟩ := find_reverse_of_sorted (Settings.sorted_loadAllCheckpointFiles h.store) found
    have file := ho.loaded_iff.mp loaded
    obtain ⟨rfl, -, -, ⟨c, hc, core⟩, listed⟩ := ho.file_known path cp file
    obtain ⟨done, matched⟩ := Bool.and_eq_true_iff.mp accepted
    constructor
    · cases completedOnly with
      | true =>
        have done : cp.completed = true := by simpa using done
        exact ⟨cp, listed done, matched, rfl⟩
      | false => exact ⟨c, hc, by rw [filters core]; exact matched, core⟩
    · intro other hother matched'
      obtain ⟨cp', file', core', done'⟩ := stored other hother
      have le := newest (checkpointPath cp', cp') (ho.loaded_iff.mpr file') (by
        rw [filters core', matched']
        cases completedOnly with
        | true => simp [done' rfl]
        | false => simp)
      rw [← timestamp_core core']
      exact ho.timestamp_le file' file le

/-- While names ascend with the timestamps, recovery picks the newest checkpoint after every
call of the run. -/
theorem newest_picked_of_names_ascend (st : Settings) (calls : List Call)
    (time : EachStep (step st) TimeAscends {} calls) (names : EachStep (step st) (NameAscends st) {} calls)
    (pre : List Call) (hpre : pre <+: calls) :
    ScanPicksNewest st (run (step st) {} pre) ∧ LatestIsNewest st (run (step st) {} pre) := by
  obtain ⟨post, rfl⟩ := hpre
  have both : EachStep (step st) (fun h a => TimeAscends h a ∧ NameAscends st h a) {} pre := by
    rw [eachStep_iff_prefixes]
    intro before a ha
    exact ⟨eachStep_iff_prefixes.mp (eachStep_append.mp time).1 before a ha,
      eachStep_iff_prefixes.mp (eachStep_append.mp names).1 before a ha⟩
  have ho : Orderly st (run (step st) {} pre) := invariant_of_eachStep orderly_step (orderly_initial st) both
  exact ⟨scanPicksNewest_of_orderly ho, latestIsNewest_of_orderly ho⟩

def laterThatDay : DateTime := ⟨2026, 1, 1, 12, 0, 0, by decide⟩

/-- One stage saved and completed twice. -/
def convertedTwice : List Call :=
  [.save { stage := "convert".toList, data := [], now := Settings.newYear }, .mark { stage := "convert".toList },
   .save { stage := "convert".toList, data := [], now := laterThatDay }, .mark { stage := "convert".toList }]

theorem newest_picked_convertedTwice :
    ScanPicksNewest Settings.plainRun (run (step Settings.plainRun) {} convertedTwice) ∧
      LatestIsNewest Settings.plainRun (run (step Settings.plainRun) {} convertedTwice) :=
  newest_picked_of_names_ascend Settings.plainRun convertedTwice (by decide +kernel) (by decide +kernel) convertedTwice
    List.prefix_rfl

/-- The stage `inspect` is completed first, the stage `fix` after it. -/
def inspectedThenFixed : List Call :=
  [.save { stage := "inspect".toList, data := [], now := Settings.newYear }, .mark { stage := "inspect".toList },
   .save { stage := "fix".toList, data := [], now := laterThatDay }, .mark { stage := "fix".toList }]

/-- The scan picks `inspect`, whose file name sorts last, though `fix` is newer. -/
theorem older_checkpoint_picked :
    EachStep (step Settings.plainRun) TimeAscends {} inspectedThenFixed ∧
      ¬ ScanPicksNewest Settings.plainRun (run (step Settings.plainRun) {} inspectedThenFixed) := by
  refine ⟨by decide +kernel, ?_⟩
  intro newest
  have picked := newest { stage := "convert".toList }
  have stage : (Settings.plainRun.describeRecovery (run (step Settings.plainRun) {} inspectedThenFixed).store
    { stage := "convert".toList } false).map RecoveryDecision.resumeStage = some "inspect".toList := by decide +kernel
  have newer : ∀ cp ∈ (run (step Settings.plainRun) {} inspectedThenFixed).completed, cp.stage = "inspect".toList →
      ∃ other ∈ (run (step Settings.plainRun) {} inspectedThenFixed).completed,
        Settings.plainRun.scanAccepts { stage := "convert".toList } other ∧ ¬ other.timestamp ≤ cp.timestamp := by
    decide +kernel
  split at picked
  · rename_i none
    rw [none] at stage
    cases stage
  · rename_i d found
    obtain ⟨cp, hcp, -, rfl, latest⟩ := picked
    rw [found] at stage
    obtain ⟨other, hother, accepted, later⟩ := newer cp hcp (Option.some.inj stage)
    exact later (latest other hother accepted)

end History

end H2kvm.Recovery
