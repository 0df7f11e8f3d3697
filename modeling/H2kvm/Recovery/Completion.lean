import H2kvm.Recovery.Newest
import H2kvm.Recovery.Locking

namespace H2kvm.Recovery

open Framework

section fastPath

namespace Settings

variable {st : Settings}

/-- The two ways to choose lead to the same checkpoint, or both to none. -/
def PathsAgree (st : Settings) (s : Store) (r : Request) : Prop :=
  (st.describeRecovery s r true).map (fun d => { d with reason := "" }) =
    (st.describeRecovery s r false).map fun d => { d with reason := "" }

/-- The requested stage has a place in the stage order and that of the checkpoint has none,
which only the scan takes for a reason to pass it over. -/
def Unranked (st : Settings) (r : Request) (cp : Checkpoint) : Prop :=
  (st.rank (Text.strip r.stage)).isSome ∧ st.rank cp.stage = none ∧ r.allowLaterStage = false

/-- A request without scope and step for which the pointer's checkpoint is accepted: its stage
is ranked if the requested one is, and no file the scan accepts sorts after it. -/
def PointerCurrent (st : Settings) (s : Store) (r : Request) : Prop :=
  stripOrNone r.scope = none → stripOrNone r.step = none → ∀ f ∈ st.readLatestCompletedPointer s,
    st.pointerAccepts r f.2 →
      ¬ st.Unranked r f.2 ∧ ∀ g ∈ st.loadAllCheckpointFiles s, st.scanAccepts r g.2 → g.1 ≤ f.1

theorem stageOrder_ne_nil_of_rank {stage : Str} {n : Nat} (h : st.rank stage = some n) :
    st.stageOrder.isEmpty = false := by
  cases hs : st.stageOrder with
  | nil => simp [rank, hs] at h
  | cons s rest => rfl

theorem scanAccepts_iff {r : Request} {cp : Checkpoint} (scope : stripOrNone r.scope = none)
    (step : stripOrNone r.step = none) (done : cp.completed = true) :
    st.scanAccepts r cp ↔ st.pointerAccepts r cp ∧ ¬ st.Unranked r cp := by
  simp only [scanAccepts, pointerAccepts, Unranked, scope, step, done, Option.isNone_none, Bool.true_or,
    Bool.true_and]
  cases hr : st.rank (Text.strip r.stage) with
  | none => simp
  | some requested =>
    have order := stageOrder_ne_nil_of_rank hr
    cases hc : st.rank cp.stage with
    | none => cases r.allowLaterStage <;> simp
    | some rank =>
      cases hl : r.allowLaterStage with
      | true => simp
      | false =>
        -- a later stage is refused by `_eligible_for_recovery` as well
        simp [eligibleForRecovery, hr, hc, order]
        exact fun _ _ _ le _ => le

/-- All files of the work directory carry names of the run. -/
def NamesInGlob (st : Settings) (s : Store) : Prop := ∀ path ∈ s.files, st.inGlob path

theorem mem_of_readLatestCompletedPointer {s : Store} (names : NamesInGlob st s) {f : Str × Checkpoint}
    (h : st.readLatestCompletedPointer s = some f) : f ∈ st.loadAllCheckpointFiles s ∧ f.2.completed := by
  simp only [readLatestCompletedPointer, Option.bind_eq_bind, Option.bind_eq_some_iff, Option.guard_eq_some',
    Option.pure_def] at h
  obtain ⟨pointer, -, -, -, -, -, cp, found, -, ⟨run, done, valid⟩, same⟩ := h
  obtain rfl := Option.some.inj same
  have there : Text.strip pointer.path ∈ s.files := AList.lookup_isSome.mp (by rw [found]; rfl)
  exact ⟨mem_loadAllCheckpointFiles.mpr ⟨found, names _ there, run, valid⟩, done⟩

theorem loaded_unique {s : Store} {f g : Str × Checkpoint} (hf : f ∈ st.loadAllCheckpointFiles s)
    (hg : g ∈ st.loadAllCheckpointFiles s) (same : f.1 = g.1) : f = g := by
  obtain ⟨path, cp⟩ := f
  obtain ⟨path', cp'⟩ := g
  obtain rfl : path = path' := same
  have found := (mem_loadAllCheckpointFiles.mp hf).1
  have found' := (mem_loadAllCheckpointFiles.mp hg).1
  rw [Option.some.inj (found.symm.trans found')]

/-- The scan chooses a given checkpoint exactly when it accepts it and no later name. -/
theorem scan_chooses_iff {s : Store} {r : Request} {f : Str × Checkpoint} (hf : f ∈ st.loadAllCheckpointFiles s) :
    (st.loadAllCheckpointFiles s).reverse.find? (fun g => st.scanAccepts r g.2) = some f ↔
      st.scanAccepts r f.2 ∧ ∀ g ∈ st.loadAllCheckpointFiles s, st.scanAccepts r g.2 → g.1 ≤ f.1 := by
  have sorted : (st.loadAllCheckpointFiles s).Pairwise fun a b => a.1 ≤ b.1 := sorted_loadAllCheckpointFiles s
  constructor
  · intro found
    exact (find_reverse_of_sorted sorted found).2
  · intro h
    obtain ⟨accepted, last⟩ := h
    cases found : (st.loadAllCheckpointFiles s).reverse.find? (fun g => st.scanAccepts r g.2) with
    | none => exact absurd accepted (List.find?_eq_none.mp found f (List.mem_reverse.mpr hf))
    | some g =>
      obtain ⟨hg, accepted', last'⟩ := find_reverse_of_sorted sorted found
      have same : g.1 = f.1 := le_antisymm (last g hg accepted') (last' f hf accepted)
      rw [loaded_unique hg hf same]

/-- The rules choose one checkpoint exactly when the pointer is current. -/
theorem pathsAgree_iff {s : Store} (names : NamesInGlob st s) (r : Request) :
    st.PathsAgree s r ↔ st.PointerCurrent s r := by
  have scan : st.describeRecovery s r false = st.scanRecovery s r := by simp [describeRecovery]
  by_cases fast : stripOrNone r.scope = none ∧ stripOrNone r.step = none ∧
      ∃ f, st.readLatestCompletedPointer s = some f ∧ st.pointerAccepts r f.2
  · obtain ⟨scope, step, f, pointer, accepted⟩ := fast
    obtain ⟨hf, done⟩ := mem_of_readLatestCompletedPointer names pointer
    have taken : st.describeRecovery s r true = some (decision f "latest_completed pointer") := by
      simp [describeRecovery, scope, step, pointer, Option.filter, accepted]
    have chosen : st.PathsAgree s r ↔
        (st.loadAllCheckpointFiles s).reverse.find? (fun g => st.scanAccepts r g.2) = some f := by
      rw [PathsAgree, taken, scan, scanRecovery]
      constructor
      · intro same
        obtain ⟨d, hd, same⟩ := Option.map_eq_some_iff.mp same.symm
        obtain ⟨g, found, rfl⟩ := Option.map_eq_some_iff.mp hd
        have path : g.1 = f.1 := congrArg RecoveryDecision.checkpointPath same
        have hg := (find_reverse_of_sorted (sorted_loadAllCheckpointFiles s) found).1
        rw [found, loaded_unique hg hf path]
      · intro found
        rw [found]
        rfl
    rw [chosen, scan_chooses_iff hf, scanAccepts_iff scope step done]
    constructor
    · intro h _ _ f' hf' _
      obtain rfl := Option.some.inj (pointer.symm.trans hf')
      exact ⟨h.1.2, h.2⟩
    · intro h
      obtain ⟨ranked, last⟩ := h scope step f pointer accepted
      exact ⟨⟨accepted, ranked⟩, last⟩
  · -- without the fast path both calls make the same scan, and nothing is asked of the pointer
    have skipped : st.describeRecovery s r true = st.scanRecovery s r := by
      simp only [describeRecovery, true_and]
      split
      · rename_i f found
        split at found
        · rename_i none
          obtain ⟨pointer, accepted⟩ := Option.filter_eq_some_iff.mp found
          exact absurd ⟨none.1, none.2, f, pointer, accepted⟩ fast
        · cases found
      · rfl
    have nothing : st.PointerCurrent s r := fun scope step f pointer accepted =>
      absurd ⟨scope, step, f, pointer, accepted⟩ fast
    rw [PathsAgree, skipped, scan]
    exact iff_of_true rfl nothing

end Settings

namespace History

variable {st : Settings}

theorem namesInGlob_step (h : History) (a : Call) (names : st.NamesInGlob h.store) :
    st.NamesInGlob (h.step st a).store := by
  cases a with
  | save c =>
    have insert : ∀ path ∈ h.store.files.insert (checkpointPath (st.newCheckpoint c)) (st.newCheckpoint c),
        st.inGlob path := by
      intro path hp
      rcases (AList.mem_insert _).mp hp with rfl | hp
      · exact inGlob_checkpointPath st rfl
      · exact names path hp
    cases hw : c.write with
    | error e =>
      simp only [step, Settings.saveCheckpoint, hw]
      cases e.isFatal <;> exact names
    | ok u =>
      simp only [step, Settings.saveCheckpoint, hw]
      exact insert
  | mark c =>
    have marked : st.Marked h.store (st.markCheckpointComplete h.store c) :=
      Settings.marked_markCheckpointComplete h.store c
    have stored : (h.step st (.mark c)).store = (st.markCheckpointComplete h.store c).2 := by
      simp only [step]
      split <;> simp_all
    rw [stored]
    generalize st.markCheckpointComplete h.store c = result at marked
    cases marked with
    | nothing | absent | already => exact names
    | written known own there cores pointed =>
      intro path hp
      rcases (AList.mem_insert _).mp hp with rfl | hp
      · exact names _ there
      · exact names path hp
  | restart => exact names

/-- In every history of a run, preferring the pointer changes the choice for a request unless
the pointer is current for it. -/
theorem pathsAgree_iff_pointerCurrent (st : Settings) (calls : List Call) (r : Request) :
    st.PathsAgree (run (step st) {} calls).store r ↔ st.PointerCurrent (run (step st) {} calls).store r := by
  have initial : st.NamesInGlob ({} : History).store := by
    intro path hp
    simp at hp
  have names : st.NamesInGlob (run (step st) {} calls).store :=
    invariant_run (I := fun h : History => st.NamesInGlob h.store) namesInGlob_step initial calls
  exact Settings.pathsAgree_iff names r

/-- The pointer names `fix`, which was completed last; the scan takes `inspect`. -/
theorem pointer_and_scan_differ : ¬ Settings.plainRun.PathsAgree
    (run (step Settings.plainRun) {} inspectedThenFixed).store { stage := "convert".toList } := by
  intro same
  have stages := congrArg (Option.map RecoveryDecision.resumeStage) same
  revert stages
  decide +kernel

end History

end fastPath

section completion

theorem getLast?_eq_some_iff_of_sorted {α : Type} [PartialOrder α] {l : List α} (sorted : l.Pairwise (· ≤ ·)) {x : α} :
    l.getLast? = some x ↔ x ∈ l ∧ ∀ y ∈ l, y ≤ x := by
  rcases List.eq_nil_or_concat l with rfl | ⟨front, last, rfl⟩
  · simp
  · rw [List.concat_eq_append, List.pairwise_append] at sorted
    have greatest : ∀ y ∈ front ++ [last], y ≤ last := by
      intro y mem
      rcases List.mem_append.mp mem with earlier | same
      · exact sorted.2.2 y earlier last List.mem_cons_self
      · exact le_of_eq (List.mem_singleton.mp same)
    rw [List.concat_eq_append, List.getLast?_append, List.getLast?_singleton, Option.some_or, Option.some_inj]
    constructor
    · rintro rfl
      exact ⟨by simp, greatest⟩
    · intro ⟨mem, greatest'⟩
      exact le_antisymm (greatest' last (by simp)) (greatest x mem)

/-- The checkpoint has the stage that is asked for and, where they are given, the scope and the step. -/
def MarkCall.Fits (c : MarkCall) (cp : Checkpoint) : Prop :=
  cp.stage = Text.strip c.stage ∧ (∀ scope ∈ stripOrNone c.scope, cp.scope = some scope) ∧
    ∀ step ∈ stripOrNone c.step, cp.step = some step

instance (c : MarkCall) (cp : Checkpoint) : Decidable (c.Fits cp) :=
  inferInstanceAs (Decidable (_ ∧ (∀ scope ∈ stripOrNone c.scope, _) ∧ ∀ step ∈ stripOrNone c.step, _))

/-- At most one checkpoint of the manager and one file have changed, and both are of one checkpoint. -/
def OneChanged (s s' : Store) : Prop :=
  ∃ path, (∀ other, other ≠ path → s'.files.lookup other = s.files.lookup other) ∧
    (s'.memory = s.memory ∨ ∃ before cp after, checkpointPath cp = path ∧ s.memory = before ++ cp :: after ∧
      s'.memory = before ++ { cp with completed := true } :: after)

namespace Settings

variable (st : Settings)

/-- Of the files whose names pass, this is the one that sorts last. -/
def LastNamed (s : Store) (c : MarkCall) (path : Str) : Prop :=
  let passes (name : Str) : Prop :=
    name ∈ s.files ∧ st.inGlob name ∧ okName (some (Text.strip c.stage)) (stripOrNone c.scope) (stripOrNone c.step) name
  passes path ∧ ∀ other, passes other → other ≤ path

/-- Where no checkpoint of the manager fits, the last file whose name passes holds one that fits, if it can be completed. -/
def FileFits (s : Store) (c : MarkCall) : Prop :=
  (∀ cp ∈ s.memory, ¬(cp.runId = st.runId ∧ c.Fits cp ∧ cp.completed = false)) →
    ∀ path cp, st.LastNamed s c path → s.files.lookup path = some cp → cp.runId = st.runId →
      (cp.completed = true ∨ c.write = .ok ()) → c.Fits cp

/-- One checkpoint at most is completed, and the one that is returned is of this run and fits. -/
structure MarksRight (s : Store) (c : MarkCall) : Prop where
  one : OneChanged s (st.markCheckpointComplete s c).2
  fits : ∀ cp, (st.markCheckpointComplete s c).1 = .ok (some cp) → cp.runId = st.runId ∧ c.Fits cp

variable {st : Settings} {s : Store} {c : MarkCall} {path : Str} {cp : Checkpoint}

theorem fits_completed : c.Fits { cp with completed := true } ↔ c.Fits cp := Iff.rfl

theorem fits_finalizeIntegrity : c.Fits (st.finalizeIntegrity cp) ↔ c.Fits cp := Iff.rfl

theorem completeFirst_eq_none_iff {p : Checkpoint → Bool} {cps : List Checkpoint} :
    completeFirst p cps = none ↔ ∀ cp ∈ cps, p cp = false := by
  induction cps with
  | nil => simp [completeFirst]
  | cons cp cps ih =>
    rw [completeFirst, List.forall_mem_cons]
    cases here : p cp with
    | true => simp
    | false => simp [ih]

theorem completeFirst_eq_some {p : Checkpoint → Bool} {cps rest : List Checkpoint}
    (first : completeFirst p cps = some (cp, rest)) :
    ∃ before m after, p m = true ∧ cp = { m with completed := true } ∧ cps = before ++ m :: after ∧
      rest = before ++ { m with completed := true } :: after := by
  induction cps generalizing rest with
  | nil => cases first
  | cons m cps ih =>
    rw [completeFirst] at first
    cases here : p m with
    | true =>
      rw [here, if_pos rfl] at first
      cases first
      exact ⟨[], m, cps, here, rfl, rfl, rfl⟩
    | false =>
      rw [here, if_neg Bool.false_ne_true, Option.map_eq_some_iff] at first
      obtain ⟨⟨found, rest'⟩, later, same⟩ := first
      cases same
      obtain ⟨before, m', after, wanted, done, split, split'⟩ := ih later
      exact ⟨m :: before, m', after, wanted, done, by rw [split]; rfl, by rw [split']; rfl⟩

theorem getLast?_findCheckpointFiles :
    (st.findCheckpointFiles s (some (Text.strip c.stage)) (stripOrNone c.scope) (stripOrNone c.step)).getLast? = some path ↔
      st.LastNamed s c path := by
  have sorted : (st.findCheckpointFiles s (some (Text.strip c.stage)) (stripOrNone c.scope) (stripOrNone c.step)).Pairwise
      (· ≤ ·) := (List.pairwise_insertionSort (· ≤ ·) _).filter _
  have mem (name : Str) :
      name ∈ st.findCheckpointFiles s (some (Text.strip c.stage)) (stripOrNone c.scope) (stripOrNone c.step) ↔
        name ∈ s.files ∧ st.inGlob name ∧
          okName (some (Text.strip c.stage)) (stripOrNone c.scope) (stripOrNone c.step) name := by
    rw [findCheckpointFiles, List.mem_filter, (List.perm_insertionSort _ _).mem_iff, List.mem_filter, AList.mem_keys, and_assoc]
  simp only [getLast?_eq_some_iff_of_sorted sorted, mem, LastNamed]

theorem files_writeLatestCompleted (st : Settings) (s : Store) (cp : Checkpoint) (path : Str) (written : Bool) :
    (st.writeLatestCompleted s cp path written).files = s.files ∧
      (st.writeLatestCompleted s cp path written).memory = s.memory := by
  cases written <;> exact ⟨rfl, rfl⟩

theorem oneChanged_refl (s : Store) : OneChanged s s := ⟨[], fun _ _ => rfl, Or.inl rfl⟩

theorem oneChanged_completeByFile (s : Store) (c : MarkCall) (path : Str) : OneChanged s (st.completeByFile s c path).2 := by
  rw [completeByFile]
  split
  · exact oneChanged_refl s
  · next cp found =>
    split
    · exact oneChanged_refl s
    · split
      · obtain ⟨files, memory⟩ := files_writeLatestCompleted st s cp path c.pointerWritten
        exact ⟨path, fun other _ => by rw [files], Or.inl memory⟩
      · dsimp only
        split
        · exact oneChanged_refl s
        · have kept := files_writeLatestCompleted st
            { s with files := s.files.insert path (st.finalizeIntegrity { cp with completed := true }) }
            (st.finalizeIntegrity { cp with completed := true }) path c.pointerWritten
          refine ⟨path, fun other different => ?_, Or.inl kept.2⟩
          rw [kept.1]
          exact AList.lookup_insert_ne different

theorem completeByFile_fits_iff : (∀ cp', (st.completeByFile s c path).1 = .ok (some cp') → cp'.runId = st.runId ∧ c.Fits cp') ↔
    ∀ cp, s.files.lookup path = some cp → cp.runId = st.runId → (cp.completed = true ∨ c.write = .ok ()) → c.Fits cp := by
  rw [completeByFile]
  cases found : s.files.lookup path with
  | none => simp
  | some cp =>
    simp only [Option.some_inj, forall_eq']
    by_cases own : cp.runId = st.runId
    · rw [if_neg (not_not.mpr own)]
      cases done : cp.completed with
      | true => simp [own]
      | false =>
        cases write : c.write with
        | error e =>
          rw [if_neg Bool.false_ne_true]
          dsimp only
          cases e.isFatal <;> simp
        | ok u =>
          rw [if_neg Bool.false_ne_true]
          simp only [Except.ok.injEq, Option.some_inj, forall_eq', fits_finalizeIntegrity, fits_completed]
          simp [finalizeIntegrity, own]
    · rw [if_pos own]
      simp [own]

/-- What `mark_checkpoint_complete` looks for among the checkpoints of the manager. -/
def wanted (st : Settings) (c : MarkCall) (cp : Checkpoint) : Bool :=
  cp.runId = st.runId && cp.stage = Text.strip c.stage && ((stripOrNone c.scope).isNone || cp.scope = stripOrNone c.scope) &&
    ((stripOrNone c.step).isNone || cp.step = stripOrNone c.step) && !cp.completed

theorem wanted_iff : wanted st c cp = true ↔ cp.runId = st.runId ∧ c.Fits cp ∧ cp.completed = false := by
  have field (given value : Option Str) : (given.isNone || decide (value = given)) = true ↔ ∀ x ∈ given, value = some x := by
    cases given <;> simp
  simp only [wanted, Bool.and_eq_true, field, decide_eq_true_eq, Bool.not_eq_true', MarkCall.Fits, and_assoc]

/-- A checkpoint of the manager that is completed is the right one. -/
theorem marksRight_of_wanted {memory : List Checkpoint} (first : completeFirst (wanted st c) s.memory = some (cp, memory)) :
    st.MarksRight s c := by
  obtain ⟨before, m, after, fits, rfl, split, rfl⟩ := completeFirst_eq_some first
  rw [wanted_iff] at fits
  have changed {files : Dict Str Checkpoint} {pointer : Option Pointer}
      (kept : ∀ other, other ≠ checkpointPath m → files.lookup other = s.files.lookup other) :
      OneChanged s { memory := before ++ { m with completed := true } :: after, files, pointer } :=
    ⟨checkpointPath m, kept, Or.inr ⟨before, m, after, rfl, split, rfl⟩⟩
  have written {s' : Store} (cp : Checkpoint) (memory : s'.memory = before ++ { m with completed := true } :: after)
      (kept : ∀ other, other ≠ checkpointPath m → s'.files.lookup other = s.files.lookup other) :
      OneChanged s (st.writeLatestCompleted s' cp (checkpointPath m) c.pointerWritten) := by
    obtain ⟨files, memory'⟩ := files_writeLatestCompleted st s' cp (checkpointPath m) c.pointerWritten
    refine ⟨checkpointPath m, fun other different => ?_, Or.inr ⟨before, m, after, rfl, split, memory'.trans memory⟩⟩
    rw [files, kept other different]
  suffices both : OneChanged s (st.markCheckpointComplete s c).2 ∧ ∀ cp, (st.markCheckpointComplete s c).1 = .ok (some cp) →
      cp.runId = st.runId ∧ c.Fits cp from ⟨both.1, both.2⟩
  simp only [markCheckpointComplete]
  split
  · next cp' memory' first' =>
    have same := first.symm.trans first'
    cases same
    split
    · cases c.write with
      | error e =>
        dsimp only
        cases e.isFatal with
        | true => exact ⟨changed fun _ _ => rfl, fun cp h => by cases h⟩
        | false => exact ⟨changed fun _ _ => rfl, fun cp h => by cases h⟩
      | ok u =>
        refine ⟨written _ rfl fun other different => AList.lookup_insert_ne different, ?_⟩
        rintro cp ⟨⟩
        exact ⟨fits.1, fits.2.1⟩
    · refine ⟨written _ rfl fun _ _ => rfl, ?_⟩
      rintro cp ⟨⟩
      exact ⟨fits.1, fits.2.1⟩
  · next missed =>
    have found := first.symm.trans missed
    cases found

theorem markCheckpointComplete_of_none (missed : completeFirst (wanted st c) s.memory = none) :
    st.markCheckpointComplete s c =
      match (st.findCheckpointFiles s (some (Text.strip c.stage)) (stripOrNone c.scope) (stripOrNone c.step)).getLast? with
      | none => (.ok none, s)
      | some path => st.completeByFile s c path := by
  simp only [markCheckpointComplete]
  split
  · next first =>
    have found := missed.symm.trans first
    cases found
  · rfl

/-- Completion marks the right checkpoint just if the file that is found by its name, where no checkpoint of the manager
fits, is that of one that fits. -/
theorem marksRight_iff (st : Settings) (s : Store) (c : MarkCall) : st.MarksRight s c ↔ st.FileFits s c := by
  cases first : completeFirst (wanted st c) s.memory with
  | some result =>
    obtain ⟨cp, memory⟩ := result
    obtain ⟨before, m, after, fits, -, split, -⟩ := completeFirst_eq_some first
    rw [wanted_iff] at fits
    refine iff_of_true (marksRight_of_wanted first) fun none => ?_
    exact absurd fits (none m (by rw [split]; simp))
  | none =>
    have run := markCheckpointComplete_of_none first
    rw [completeFirst_eq_none_iff] at first
    have none : ∀ cp ∈ s.memory, ¬(cp.runId = st.runId ∧ c.Fits cp ∧ cp.completed = false) := by
      intro cp mem fits
      rw [← wanted_iff, first cp mem] at fits
      cases fits
    cases last : (st.findCheckpointFiles s (some (Text.strip c.stage)) (stripOrNone c.scope) (stripOrNone c.step)).getLast? with
    | none =>
      rw [last] at run
      constructor
      · intro _ _ path cp named
        rw [← getLast?_findCheckpointFiles, last] at named
        cases named
      · intro _
        constructor
        · rw [run]
          exact oneChanged_refl s
        · rw [run]
          simp
    | some path =>
      rw [last] at run
      dsimp only at run
      have named := getLast?_findCheckpointFiles.mp last
      constructor
      · intro right _ path' cp named'
        rw [← getLast?_findCheckpointFiles, last] at named'
        cases named'
        have fits := right.fits
        rw [run, completeByFile_fits_iff] at fits
        exact fits cp
      · intro fits
        constructor
        · rw [run]
          exact oneChanged_completeByFile s c path
        · rw [run, completeByFile_fits_iff]
          exact fun cp => fits none path cp named

/-- A checkpoint of the stage `convert` in the scope `fix`. -/
def convertInFix : Checkpoint where
  id := "fix_convert_20260101-000000".toList
  stage := "convert".toList
  timestamp := nowTs newYear
  data := []
  scope := some "fix".toList
  runId := "r1".toList

/-- The stage `fix` is found in the name of a file of another stage. -/
theorem not_marksRight_scope : ¬∀ (st : Settings) (s : Store) (c : MarkCall), st.MarksRight s c := by
  intro always
  have right := always plainRun { files := AList.singleton (checkpointPath convertInFix) convertInFix } { stage := "fix".toList }
  obtain ⟨-, stage, -⟩ := right.fits (plainRun.finalizeIntegrity { convertInFix with completed := true }) (by rfl)
  exact absurd stage (by decide)

end Settings

end completion

end H2kvm.Recovery
