import H2kvm.Recovery.Completion

namespace H2kvm.Recovery

open Framework

/-- The arguments of `cleanup_old_checkpoints`, and what it reads and what its deletions meet. -/
structure CleanupCall where
  keepNewestTotal : Int := 50
  keepLastCompletedPerStage : Int := 1
  keepLastFailedRun : Bool := true
  ttlDays : Option Int := none
  /-- The status in `run.json`, if it can be read. -/
  manifestStatus : Option Str := none
  /-- The clock so many days ago, as text. -/
  cutoffTs : Int → Except PyException Str := fun _ => .ok []
  unlinkFails : Str → Bool := fun _ => false

namespace Settings

variable (st : Settings)

/-- The last completed checkpoints of each stage, the newest first; the counts are those of each stage so far. -/
def keepCompleted (limit : Int) : Dict Str Int → List (Str × Checkpoint) → List Str
  | _, [] => []
  | perStage, (path, cp) :: cps =>
    if !cp.completed then keepCompleted limit perStage cps
    else
      let kept := (perStage.lookup (safeStage cp.stage)).getD 0
      if kept ≥ limit then keepCompleted limit (perStage.insert (safeStage cp.stage) kept) cps
      else path :: keepCompleted limit (perStage.insert (safeStage cp.stage) (kept + 1)) cps

/-- `_compute_cutoff_ts_days`. -/
def computeCutoff (c : CleanupCall) : Except PyException (Option Str) :=
  match c.ttlDays with
  | none => .ok none
  | some days => if 0 < days then (c.cutoffTs days).map some else .ok none

def unexpired (cutoff : Option Str) (cp : Checkpoint) : Bool :=
  match cutoff with
  | none => false
  | some cutoff => cp.timestamp ≠ [] && cutoff ≤ cp.timestamp

/-- The loop over `to_delete`. -/
def deleteFiles (unlinkFails : Str → Bool) (files : Dict Str Checkpoint) (paths : List Str) : Dict Str Checkpoint :=
  paths.foldl (fun files path => if unlinkFails path then files else files.erase path) files

/-- The `to_delete` of `cleanup_old_checkpoints`, the files that no rule keeps. -/
def toDelete (c : CleanupCall) (cutoff : Option Str) (cps : List (Str × Checkpoint)) : List Str :=
  let cpsSorted := cps.insertionSort fun f g => g.1 ≤ f.1
  let newest := (cpsSorted.take (max 0 c.keepNewestTotal).toNat).map Prod.fst
  let completed := if 0 < c.keepLastCompletedPerStage then keepCompleted c.keepLastCompletedPerStage ∅ cpsSorted else []
  (cpsSorted.filter fun f => !(f.1 ∈ newest || (f.1 ∈ completed || unexpired cutoff f.2))).map Prod.fst

/-- `cleanup_old_checkpoints`. -/
def cleanupOldCheckpoints (s : Store) (c : CleanupCall) : Except PyException Unit × Store :=
  let cps := st.loadAllCheckpointFiles s
  if c.keepLastFailedRun ∧ c.manifestStatus = some "failed".toList then (.ok (), s)
  else if cps = [] then (.ok (), s)
  else
    match computeCutoff c with
    | .error e => (.error e, s)
    | .ok cutoff => (.ok (), { s with files := deleteFiles c.unlinkFails s.files (toDelete c cutoff cps) })

/-- How many checkpoints of the run that pass have later names. -/
def laterCount (s : Store) (path : Str) (passes : Checkpoint → Bool) : Nat :=
  (st.loadAllCheckpointFiles s).countP fun g => path < g.1 && passes g.2

/-- Among the newest, among the last completed of its stage, or not expired. -/
def Retained (s : Store) (c : CleanupCall) (path : Str) (cp : Checkpoint) : Prop :=
  st.laterCount s path (fun _ => true) < c.keepNewestTotal ∨
    (cp.completed = true ∧ st.laterCount s path (fun d => d.completed && safeStage d.stage = safeStage cp.stage) <
      c.keepLastCompletedPerStage) ∨
    ∃ days cutoff, c.ttlDays = some days ∧ 0 < days ∧ c.cutoffTs days = .ok cutoff ∧ cp.timestamp ≠ [] ∧ cutoff ≤ cp.timestamp

/-- Nothing is deleted of a failed run that is to be kept, or if the age cannot be computed. -/
def Cleans (c : CleanupCall) : Prop :=
  ¬(c.keepLastFailedRun = true ∧ c.manifestStatus = some "failed".toList) ∧
    ∀ days e, c.ttlDays = some days → 0 < days → c.cutoffTs days ≠ .error e

/-- The file is a checkpoint of the run that is not retained, and can be deleted. -/
def Deletes (s : Store) (c : CleanupCall) (path : Str) : Prop :=
  Cleans c ∧ c.unlinkFails path = false ∧ ∃ cp, (path, cp) ∈ st.loadAllCheckpointFiles s ∧ ¬st.Retained s c path cp

section kept

variable {st : Settings} {s : Store} {c : CleanupCall} {path : Str} {cp : Checkpoint} {l : List (Str × Checkpoint)}

theorem countP_later_eq_zero {f : Str × Checkpoint} (below : ∀ g ∈ l, g.1 < f.1) (passes : Checkpoint → Bool) :
    l.countP (fun g => f.1 < g.1 && passes g.2) = 0 := by
  rw [List.countP_eq_zero]
  intro g mem later
  rw [Bool.and_eq_true, decide_eq_true_eq] at later
  exact lt_asymm (below g mem) later.1

theorem mem_take_iff_of_sorted (sorted : l.Pairwise fun f g => g.1 < f.1) (n : Nat) :
    path ∈ (l.take n).map Prod.fst ↔ path ∈ l.map Prod.fst ∧ l.countP (fun g => path < g.1 && true) < n := by
  induction l generalizing n with
  | nil => simp
  | cons f l ih =>
    rw [List.pairwise_cons] at sorted
    cases n with
    | zero => simp
    | succ n =>
      rw [List.take_succ_cons, List.map_cons, List.map_cons, List.mem_cons, List.mem_cons, List.countP_cons, ih sorted.2]
      by_cases same : path = f.1
      · subst same
        have none := countP_later_eq_zero sorted.1 fun _ => true
        rw [none]
        simp
      · by_cases mem : path ∈ l.map Prod.fst
        · obtain ⟨g, there, rfl⟩ := List.mem_map.mp mem
          simp [same, mem, sorted.1 g there]
        · simp [same, mem]

theorem keepCompleted_subset (limit : Int) (perStage : Dict Str Int) (mem : path ∈ keepCompleted limit perStage l) :
    path ∈ l.map Prod.fst := by
  induction l generalizing perStage with
  | nil => cases mem
  | cons f l ih =>
    rw [List.map_cons, List.mem_cons]
    rw [keepCompleted] at mem
    split at mem
    · exact Or.inr (ih perStage mem)
    · dsimp only at mem
      split at mem
      · exact Or.inr (ih _ mem)
      · exact (List.mem_cons.mp mem).imp id (ih _)

/-- The completed checkpoints of a stage that are kept are those with few later ones, counting those that were kept before. -/
theorem mem_keepCompleted_iff (sorted : l.Pairwise fun f g => g.1 < f.1) (limit : Int) (perStage : Dict Str Int) (mem : (path, cp) ∈ l) :
    path ∈ keepCompleted limit perStage l ↔ cp.completed = true ∧
      (perStage.lookup (safeStage cp.stage)).getD 0 +
        l.countP (fun g => path < g.1 && (g.2.completed && safeStage g.2.stage = safeStage cp.stage)) < limit := by
  induction l generalizing perStage with
  | nil => cases mem
  | cons f l ih =>
    obtain ⟨path', d⟩ := f
    rw [List.pairwise_cons] at sorted
    rw [keepCompleted, List.countP_cons]
    rcases List.mem_cons.mp mem with same | later
    · cases same
      -- the last checkpoint of all has no later one
      have none := countP_later_eq_zero sorted.1 fun e => e.completed && safeStage e.stage = safeStage cp.stage
      have gone (perStage : Dict Str Int) : path ∉ keepCompleted limit perStage l := fun kept => by
        obtain ⟨g, there, equal⟩ := List.mem_map.mp (keepCompleted_subset limit perStage kept)
        exact absurd (sorted.1 g there) (by rw [equal]; exact lt_irrefl path)
      rw [none]
      cases done : cp.completed with
      | false => simp [gone]
      | true =>
        rw [Bool.not_true, if_neg Bool.false_ne_true]
        dsimp only
        split
        · next full => simp [gone, full]
        · next room => simp [not_le.mp room]
    · have before : path < path' := sorted.1 _ later
      have other : path ≠ path' := ne_of_lt before
      cases done : d.completed with
      | false => simp [ih sorted.2 perStage later]
      | true =>
        rw [Bool.not_true, if_neg Bool.false_ne_true]
        dsimp only
        by_cases stage : safeStage d.stage = safeStage cp.stage
        · split
          · next full =>
            rw [ih sorted.2 _ later, stage, AList.lookup_insert]
            rw [stage] at full
            simp only [before, Option.getD_some, decide_true, Bool.and_true, if_true]
            exact and_congr_right fun _ => by omega
          · next room =>
            rw [List.mem_cons, or_iff_right other, ih sorted.2 _ later, stage, AList.lookup_insert]
            simp only [before, Option.getD_some, decide_true, Bool.and_true, if_true]
            exact and_congr_right fun _ => by omega
        · have apart : safeStage cp.stage ≠ safeStage d.stage := Ne.symm stage
          split
          · rw [ih sorted.2 _ later, AList.lookup_insert_ne apart]
            simp [stage]
          · rw [List.mem_cons, or_iff_right other, ih sorted.2 _ later, AList.lookup_insert_ne apart]
            simp [stage]

theorem lookup_deleteFiles (unlinkFails : Str → Bool) (files : Dict Str Checkpoint) (paths : List Str) :
    (deleteFiles unlinkFails files paths).lookup path =
      if path ∈ paths ∧ unlinkFails path = false then none else files.lookup path := by
  induction paths generalizing files with
  | nil => simp [deleteFiles]
  | cons p paths ih =>
    rw [deleteFiles, List.foldl_cons, ← deleteFiles, ih]
    by_cases same : path = p
    · subst same
      cases unlinkFails path <;> simp [AList.lookup_erase]
    · cases unlinkFails p <;> simp [same, AList.lookup_erase_ne same]

theorem keys_filterMap_sublist {g : Str → Option (Str × Checkpoint)} (named : ∀ path f, g path = some f → f.1 = path)
    (paths : List Str) : List.Sublist ((paths.filterMap g).map Prod.fst) paths := by
  induction paths with
  | nil => exact List.Sublist.refl _
  | cons path paths ih =>
    rw [List.filterMap_cons]
    cases found : g path with
    | none => exact ih.cons path
    | some f =>
      dsimp only
      rw [List.map_cons, named path f found]
      exact ih.cons_cons path

theorem nodup_loaded (s : Store) : ((st.loadAllCheckpointFiles s).map Prod.fst).Nodup := by
  have names : (st.findCheckpointFiles s none none none).Nodup := by
    rw [findCheckpointFiles]
    exact ((List.perm_insertionSort _ _).nodup_iff.mpr (s.files.keys_nodup.filter _)).filter _
  refine names.sublist (keys_filterMap_sublist ?_ _)
  intro path f found
  obtain ⟨cp, -, kept⟩ := Option.bind_eq_some_iff.mp found
  split at kept
  · cases kept
    rfl
  · cases kept

theorem descending_loaded (s : Store) :
    ((st.loadAllCheckpointFiles s).insertionSort fun f g => g.1 ≤ f.1).Pairwise fun f g => g.1 < f.1 := by
  have sorted := List.pairwise_insertionSort (fun f g : Str × Checkpoint => g.1 ≤ f.1) (st.loadAllCheckpointFiles s)
  have names : (((st.loadAllCheckpointFiles s).insertionSort fun f g => g.1 ≤ f.1).map Prod.fst).Nodup :=
    ((List.perm_insertionSort _ _).map Prod.fst).nodup_iff.mpr (nodup_loaded s)
  rw [List.nodup_iff_pairwise_ne, List.pairwise_map] at names
  exact (sorted.and names).imp fun both => lt_of_le_of_ne both.1 both.2.symm

theorem unexpired_iff {cutoff : Option Str} (computed : computeCutoff c = .ok cutoff) : unexpired cutoff cp = true ↔
    ∃ days cutoff, c.ttlDays = some days ∧ 0 < days ∧ c.cutoffTs days = .ok cutoff ∧ cp.timestamp ≠ [] ∧ cutoff ≤ cp.timestamp := by
  rw [computeCutoff] at computed
  cases ttl : c.ttlDays with
  | none =>
    rw [ttl] at computed
    cases computed
    simp [unexpired]
  | some days =>
    rw [ttl] at computed
    dsimp only at computed
    by_cases positive : 0 < days
    · rw [if_pos positive] at computed
      cases ts : c.cutoffTs days with
      | error e =>
        rw [ts] at computed
        cases computed
      | ok limit =>
        rw [ts] at computed
        cases computed
        simp [unexpired, positive, ts]
    · rw [if_neg positive] at computed
      cases computed
      simp [unexpired, positive]

theorem computeCutoff_error_iff (c : CleanupCall) : (∃ e, computeCutoff c = .error e) ↔
    ∃ days e, c.ttlDays = some days ∧ 0 < days ∧ c.cutoffTs days = .error e := by
  rw [computeCutoff]
  cases c.ttlDays with
  | none => simp
  | some days =>
    dsimp only
    by_cases positive : 0 < days
    · rw [if_pos positive]
      cases ts : c.cutoffTs days <;> simp [Except.map, positive, ts]
    · simp [positive]

theorem kept_iff_retained {cutoff : Option Str} (computed : computeCutoff c = .ok cutoff)
    (loaded : (path, cp) ∈ st.loadAllCheckpointFiles s) :
    let cpsSorted := (st.loadAllCheckpointFiles s).insertionSort fun f g => g.1 ≤ f.1
    (path ∈ (cpsSorted.take (max 0 c.keepNewestTotal).toNat).map Prod.fst ∨
      path ∈ (if 0 < c.keepLastCompletedPerStage then keepCompleted c.keepLastCompletedPerStage ∅ cpsSorted else []) ∨
      unexpired cutoff cp = true) ↔ st.Retained s c path cp := by
  intro cpsSorted
  have sorted : cpsSorted.Pairwise fun f g => g.1 < f.1 := descending_loaded s
  have perm : cpsSorted.Perm (st.loadAllCheckpointFiles s) := List.perm_insertionSort _ _
  have mem : (path, cp) ∈ cpsSorted := perm.mem_iff.mpr loaded
  have count (passes : Checkpoint → Bool) : cpsSorted.countP (fun g => path < g.1 && passes g.2) = st.laterCount s path passes :=
    perm.countP_eq _
  have newest : path ∈ (cpsSorted.take (max 0 c.keepNewestTotal).toNat).map Prod.fst ↔
      st.laterCount s path (fun _ => true) < c.keepNewestTotal := by
    rw [mem_take_iff_of_sorted sorted, count fun _ => true, and_iff_right (List.mem_map_of_mem mem)]
    omega
  have completed : path ∈ (if 0 < c.keepLastCompletedPerStage then keepCompleted c.keepLastCompletedPerStage ∅ cpsSorted else []) ↔
      cp.completed = true ∧ st.laterCount s path (fun d => d.completed && safeStage d.stage = safeStage cp.stage) <
        c.keepLastCompletedPerStage := by
    split
    · have kept := mem_keepCompleted_iff sorted c.keepLastCompletedPerStage ∅ mem
      rw [count fun d => d.completed && safeStage d.stage = safeStage cp.stage] at kept
      simpa using kept
    · next none =>
      refine iff_of_false List.not_mem_nil fun few => ?_
      omega
  rw [newest, completed, unexpired_iff computed, Retained]

theorem mem_toDelete_iff {cutoff : Option Str} (computed : computeCutoff c = .ok cutoff) :
    path ∈ toDelete c cutoff (st.loadAllCheckpointFiles s) ↔
      ∃ cp, (path, cp) ∈ st.loadAllCheckpointFiles s ∧ ¬st.Retained s c path cp := by
  have perm := List.perm_insertionSort (fun f g : Str × Checkpoint => g.1 ≤ f.1) (st.loadAllCheckpointFiles s)
  have no_rule (newest completed : Prop) [Decidable newest] [Decidable completed] (young : Bool) :
      (!(decide newest || (decide completed || young))) = true ↔ ¬(newest ∨ completed ∨ young = true) := by
    simp
  rw [toDelete, List.mem_map]
  constructor
  · rintro ⟨⟨name, cp⟩, found, rfl⟩
    obtain ⟨there, dropped⟩ := List.mem_filter.mp found
    have loaded := perm.mem_iff.mp there
    have kept := kept_iff_retained computed loaded
    dsimp only at kept
    refine ⟨cp, loaded, ?_⟩
    rw [← kept]
    exact (no_rule _ _ _).mp dropped
  · rintro ⟨cp, loaded, expired⟩
    refine ⟨(path, cp), List.mem_filter.mpr ⟨perm.mem_iff.mpr loaded, ?_⟩, rfl⟩
    have kept := kept_iff_retained computed loaded
    dsimp only at kept
    rw [← kept] at expired
    exact (no_rule _ _ _).mpr expired

/-- What is there after the cleanup. -/
theorem lookup_cleanupOldCheckpoints (s : Store) (c : CleanupCall) (path : Str) :
    (st.Deletes s c path → (st.cleanupOldCheckpoints s c).2.files.lookup path = none) ∧
      (¬st.Deletes s c path → (st.cleanupOldCheckpoints s c).2.files.lookup path = s.files.lookup path) := by
  rw [cleanupOldCheckpoints]
  split
  · next failed => exact ⟨fun deletes => absurd failed deletes.1.1, fun _ => rfl⟩
  · next goes =>
    split
    · next none =>
      refine ⟨fun ⟨_, _, cp, loaded, _⟩ => ?_, fun _ => rfl⟩
      rw [none] at loaded
      cases loaded
    · cases computed : computeCutoff c with
      | error e =>
        obtain ⟨days, e, ttl, positive, fails⟩ := (computeCutoff_error_iff c).mp ⟨e, computed⟩
        exact ⟨fun deletes => absurd fails (deletes.1.2 days e ttl positive), fun _ => rfl⟩
      | ok cutoff =>
        have cleans : Cleans c := by
          refine ⟨goes, fun days e ttl positive fails => ?_⟩
          obtain ⟨e', error⟩ := (computeCutoff_error_iff c).mpr ⟨days, e, ttl, positive, fails⟩
          rw [computed] at error
          cases error
        dsimp only
        rw [lookup_deleteFiles]
        split
        · next listed =>
          exact ⟨fun _ => rfl, fun stays => absurd ⟨cleans, listed.2, (mem_toDelete_iff computed).mp listed.1⟩ stays⟩
        · next unlisted =>
          exact ⟨fun deletes => absurd ⟨(mem_toDelete_iff computed).mpr deletes.2.2, deletes.2.1⟩ unlisted, fun _ => rfl⟩

theorem pointer_cleanupOldCheckpoints (s : Store) (c : CleanupCall) : (st.cleanupOldCheckpoints s c).2.pointer = s.pointer := by
  rw [cleanupOldCheckpoints]
  split
  · rfl
  · split
    · rfl
    · split <;> rfl

end kept

section decisions

variable {st : Settings} {s s' : Store} {r : Request} {path : Str}

/-- The pointer is followed for this request. -/
def Follows (st : Settings) (r : Request) (preferPointer : Bool) (f : Str × Checkpoint) : Prop :=
  (preferPointer = true ∧ stripOrNone r.scope = none ∧ stripOrNone r.step = none) ∧ st.pointerAccepts r f.2 = true

theorem describeRecovery_of_follows {preferPointer : Bool} {f : Str × Checkpoint} (read : st.readLatestCompletedPointer s = some f)
    (follows : st.Follows r preferPointer f) :
    st.describeRecovery s r preferPointer = some (decision f "latest_completed pointer") := by
  rw [describeRecovery, if_pos follows.1, read, Option.filter_some, if_pos follows.2]

theorem describeRecovery_of_not_follows {preferPointer : Bool}
    (refused : ∀ f, st.readLatestCompletedPointer s = some f → ¬st.Follows r preferPointer f) :
    st.describeRecovery s r preferPointer = st.scanRecovery s r := by
  rw [describeRecovery]
  split
  · next f fast =>
    split at fast
    · next asked =>
      obtain ⟨read, accepts⟩ := Option.filter_eq_some_iff.mp fast
      exact absurd ⟨asked, accepts⟩ (refused f read)
    · cases fast
  · rfl

theorem lookup_of_describeRecovery {preferPointer : Bool} {d : RecoveryDecision}
    (decided : st.describeRecovery s r preferPointer = some d) : (s.files.lookup d.checkpointPath).isSome = true := by
  by_cases followed : ∃ f, st.readLatestCompletedPointer s = some f ∧ st.Follows r preferPointer f
  · obtain ⟨f, read, follows⟩ := followed
    rw [describeRecovery_of_follows read follows] at decided
    cases decided
    simp only [readLatestCompletedPointer, Option.bind_eq_bind, Option.bind_eq_some_iff, Option.guard_eq_some',
      Option.pure_def] at read
    obtain ⟨pointer, -, -, -, -, -, cp, found, -, -, same⟩ := read
    cases same
    exact Option.isSome_iff_exists.mpr ⟨cp, found⟩
  · rw [describeRecovery_of_not_follows fun f read follows => followed ⟨f, read, follows⟩, scanRecovery,
      Option.map_eq_some_iff] at decided
    obtain ⟨f, chosen, same⟩ := decided
    cases same
    have there := (find_reverse_of_sorted (sorted_loadAllCheckpointFiles s) chosen).1
    exact Option.isSome_iff_exists.mpr ⟨f.2, (mem_loadAllCheckpointFiles.mp there).1⟩

/-- Some files of the work directory are gone, and nothing else has changed. -/
structure Pruned (s s' : Store) (gone : Str → Prop) : Prop where
  pointer : s'.pointer = s.pointer
  lost : ∀ path, gone path → s'.files.lookup path = none
  kept : ∀ path, ¬gone path → s'.files.lookup path = s.files.lookup path

variable {gone : Str → Prop} (pruned : Pruned s s' gone)

include pruned

theorem Pruned.mem_loaded_iff (f : Str × Checkpoint) :
    f ∈ st.loadAllCheckpointFiles s' ↔ f ∈ st.loadAllCheckpointFiles s ∧ ¬gone f.1 := by
  rw [mem_loadAllCheckpointFiles, mem_loadAllCheckpointFiles]
  by_cases lost : gone f.1
  · rw [pruned.lost f.1 lost]
    simp [lost]
  · rw [pruned.kept f.1 lost]
    simp [lost]

theorem Pruned.scanRecovery_eq (safe : ∀ d, st.scanRecovery s r = some d → ¬gone d.checkpointPath) :
    st.scanRecovery s' r = st.scanRecovery s r := by
  rw [scanRecovery, scanRecovery]
  cases chosen : (st.loadAllCheckpointFiles s).reverse.find? (fun g => st.scanAccepts r g.2) with
  | none =>
    have none : (st.loadAllCheckpointFiles s').reverse.find? (fun g => st.scanAccepts r g.2) = none := by
      rw [List.find?_eq_none] at chosen ⊢
      intro f mem
      exact chosen f (List.mem_reverse.mpr ((pruned.mem_loaded_iff f).mp (List.mem_reverse.mp mem)).1)
    rw [none]
  | some f =>
    have there := (find_reverse_of_sorted (sorted_loadAllCheckpointFiles s) chosen).1
    have kept : ¬gone f.1 := safe (decision f "newest eligible completed checkpoint") (by rw [scanRecovery, chosen]; rfl)
    obtain ⟨accepted, last⟩ := (scan_chooses_iff there).mp chosen
    have still : f ∈ st.loadAllCheckpointFiles s' := (pruned.mem_loaded_iff f).mpr ⟨there, kept⟩
    rw [(scan_chooses_iff still).mpr ⟨accepted, fun g mem => last g ((pruned.mem_loaded_iff g).mp mem).1⟩]

theorem Pruned.readLatestCompletedPointer_eq : (∀ f, st.readLatestCompletedPointer s = some f → ¬gone f.1 →
      st.readLatestCompletedPointer s' = some f) ∧
    ∀ f, st.readLatestCompletedPointer s' = some f → st.readLatestCompletedPointer s = some f ∧ ¬gone f.1 := by
  have read (s : Store) (f : Str × Checkpoint) : st.readLatestCompletedPointer s = some f ↔ ∃ pointer, s.pointer = some pointer ∧
      pointer.runId = st.runId ∧ Text.strip pointer.path ≠ [] ∧ s.files.lookup (Text.strip pointer.path) = some f.2 ∧
      (f.2.runId = st.runId ∧ f.2.completed = true ∧ st.validateIntegrity f.2 = true) ∧ Text.strip pointer.path = f.1 := by
    simp only [readLatestCompletedPointer, Option.bind_eq_bind, Option.bind_eq_some_iff, Option.guard_eq_some', Option.pure_def]
    constructor
    · rintro ⟨pointer, there, -, run, -, named, cp, found, -, usable, same⟩
      cases same
      exact ⟨pointer, there, run, named, found, usable, rfl⟩
    · rintro ⟨pointer, there, run, named, found, usable, same⟩
      exact ⟨pointer, there, (), run, (), named, f.2, found, (), usable, by rw [same]⟩
  constructor
  · intro f before kept
    obtain ⟨pointer, there, run, named, found, usable, same⟩ := (read s f).mp before
    have still := pruned.kept (Text.strip pointer.path) (by rw [same]; exact kept)
    exact (read s' f).mpr ⟨pointer, pruned.pointer.trans there, run, named, still.trans found, usable, same⟩
  · intro f now
    obtain ⟨pointer, there, run, named, found, usable, same⟩ := (read s' f).mp now
    have kept : ¬gone f.1 := fun lost => by
      rw [same, pruned.lost f.1 lost] at found
      cases found
    have before := pruned.kept (Text.strip pointer.path) (by rw [same]; exact kept)
    exact ⟨(read s f).mpr ⟨pointer, pruned.pointer.symm.trans there, run, named, before.symm.trans found, usable, same⟩, kept⟩

theorem Pruned.describeRecovery_eq_iff (preferPointer : Bool) :
    st.describeRecovery s' r preferPointer = st.describeRecovery s r preferPointer ↔
      ∀ d, st.describeRecovery s r preferPointer = some d → ¬gone d.checkpointPath := by
  constructor
  · intro same d decided lost
    rw [decided] at same
    have there := lookup_of_describeRecovery same
    rw [pruned.lost _ lost] at there
    cases there
  · intro safe
    obtain ⟨still, before⟩ := @Pruned.readLatestCompletedPointer_eq st _ _ _ pruned
    by_cases followed : ∃ f, st.readLatestCompletedPointer s = some f ∧ st.Follows r preferPointer f
    · obtain ⟨f, read, follows⟩ := followed
      have decided := describeRecovery_of_follows read follows
      rw [decided, describeRecovery_of_follows (still f read (safe _ decided)) follows]
    · have scans := describeRecovery_of_not_follows fun f read follows => followed ⟨f, read, follows⟩
      have scans' := describeRecovery_of_not_follows fun f read follows => followed ⟨f, (before f read).1, follows⟩
      rw [scans, scans']
      exact pruned.scanRecovery_eq fun d decided => safe d (scans.trans decided)

end decisions

/-- One stage completed in two scopes. -/
def fixedTwice : List Call :=
  let fix (scope : String) : List Call :=
    [.save { stage := "fix".toList, data := [], scope := some scope.toList, now := newYear },
     .mark { stage := "fix".toList, scope := some scope.toList }]
  fix "boot" ++ fix "data"

end Settings

end H2kvm.Recovery
