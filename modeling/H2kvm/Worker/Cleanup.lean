import H2kvm.Framework.Names
import H2kvm.Framework.Replace
import H2kvm.Worker.Registry

namespace H2kvm.Worker

open Framework

/-- `state_file.stem.replace(".state", "")`. -/
def jobIdOf (file : String) : String := String.ofList (Text.replace ".state".toList [] (Names.stem file.toList))

theorem jobIdOf_stateFile {jobId : String} (undotted : '.' ∉ jobId.toList) :
    jobIdOf (stateFile jobId) = jobId := by
  have named : (stateFile jobId).toList = (jobId.toList ++ ".state".toList) ++ '.' :: "json".toList := by
    simp [stateFile]
  have stem : Names.stem (stateFile jobId).toList = jobId.toList ++ ".state".toList := by
    rw [named]
    exact (Names.suffix_append_dot (by decide) (by decide) (by simp)).2
  have empty : Text.replace ".state".toList [] ".state".toList = [] := by decide
  rw [jobIdOf, stem, Text.replace_append_free rfl undotted, empty, List.append_nil, String.ofList_toList]

namespace JobRegistry

/-- `state_file.unlink()` and `self.jobs.pop(job_id, None)`. -/
def remove (r : JobRegistry) (file jobId : String) : JobRegistry where
  jobs := r.jobs.erase jobId
  stateDir := {
    files := r.stateDir.files.erase file
    named := fun id data found => by
      by_cases same : stateFile id = file
      · rw [same, AList.lookup_erase] at found
        cases found
      · exact r.stateDir.named id data (by rwa [AList.lookup_erase_ne same] at found) }
  keyed := fun id sm found => by
    by_cases same : id = jobId
    · rw [same, AList.lookup_erase] at found
      cases found
    · exact r.keyed id sm (by rwa [AList.lookup_erase_ne same] at found)

/-- `cleanup_terminal_jobs`, of the files that the directory is found to hold: how many jobs it removes, and the
registry it leaves. -/
def cleanupTerminalJobs (mtime : String → ℚ) (cutoff : ℚ) : (files : List String) → JobRegistry → Nat × JobRegistry
  | [], r => (0, r)
  | file :: files, r =>
    if mtime file < cutoff then
      match r.get (jobIdOf file) with
      | (some sm, r) =>
        if sm.isTerminal then
          let (removed, r) := cleanupTerminalJobs mtime cutoff files (r.remove file (jobIdOf file))
          (removed + 1, r)
        else cleanupTerminalJobs mtime cutoff files r
      | (none, r) => cleanupTerminalJobs mtime cutoff files r
    else cleanupTerminalJobs mtime cutoff files r

/-- The job is at its end, and its file is old. -/
def isStale (r : JobRegistry) (mtime : String → ℚ) (cutoff : ℚ) (jobId : String) : Bool :=
  mtime (stateFile jobId) < cutoff ∧ (r.find jobId).any (·.isTerminal)

variable {r : JobRegistry} {mtime : String → ℚ} {cutoff : ℚ} {jobId : String}

theorem find_remove (r : JobRegistry) (jobId other : String) :
    (r.remove (stateFile jobId) jobId).find other = if other = jobId then none else r.find other := by
  rw [find_eq, find_eq, remove]
  split_ifs with same
  · rw [same, AList.lookup_erase]
    simp [JobStateMachine.load]
  · rw [AList.lookup_erase_ne same]
    simp only [JobStateMachine.load, AList.lookup_erase_ne (fun names => same (stateFile_inj.mp names))]

/-- One job: it is removed if it is stale, and left as it is otherwise. -/
theorem cleanup_cons (undotted : '.' ∉ jobId.toList) (files : List String) : ∃ r' : JobRegistry,
    (∀ other, r'.find other = if other = jobId ∧ r.isStale mtime cutoff jobId then none else r.find other) ∧
      cleanupTerminalJobs mtime cutoff (stateFile jobId :: files) r =
        ((cleanupTerminalJobs mtime cutoff files r').1 + (r.isStale mtime cutoff jobId).toNat,
          (cleanupTerminalJobs mtime cutoff files r').2) := by
  rw [cleanupTerminalJobs, jobIdOf_stateFile undotted, isStale]
  split_ifs with old
  · have looked := find_get r jobId
    rw [show r.find jobId = (r.get jobId).1 from rfl]
    generalize r.get jobId = got at looked
    rcases got with ⟨_ | sm, r'⟩
    · exact ⟨r', fun other => by simpa using looked other, by simp [old]⟩
    · dsimp only at looked ⊢
      split_ifs with ended
      · refine ⟨r'.remove (stateFile jobId) jobId, fun other => ?_, by simp [old, ended]⟩
        rw [← looked other]
        simpa [old, ended] using find_remove r' jobId other
      · exact ⟨r', fun other => by simpa [old, ended] using looked other, by simp [old, ended]⟩
  · exact ⟨r, fun other => by simp [old], by simp [old]⟩

theorem cleanup_files {ids : List String} (undotted : ∀ id ∈ ids, '.' ∉ id.toList) (distinct : ids.Nodup) :
    (cleanupTerminalJobs mtime cutoff (ids.map stateFile) r).1 = ids.countP (r.isStale mtime cutoff) ∧
      ∀ jobId, (cleanupTerminalJobs mtime cutoff (ids.map stateFile) r).2.find jobId =
        if jobId ∈ ids ∧ r.isStale mtime cutoff jobId then none else r.find jobId := by
  induction ids generalizing r with
  | nil => exact ⟨rfl, fun jobId => (if_neg (by simp)).symm⟩
  | cons id ids ih =>
    obtain ⟨fresh, distinct⟩ := List.nodup_cons.mp distinct
    obtain ⟨r', finds, run⟩ := @cleanup_cons r mtime cutoff id (undotted id List.mem_cons_self) (ids.map stateFile)
    obtain ⟨count, rest⟩ := ih (r := r') (fun other member => undotted other (List.mem_cons_of_mem id member)) distinct
    have same : ∀ other, other ≠ id → r'.find other = r.find other := fun other apart => by simp [finds, apart]
    have stale : ∀ other, other ≠ id → r'.isStale mtime cutoff other = r.isStale mtime cutoff other := by
      intro other apart
      rw [isStale, isStale, same other apart]
    rw [List.map_cons, run]
    refine ⟨?_, fun jobId => ?_⟩
    · have rest : ids.countP (r'.isStale mtime cutoff) = ids.countP (r.isStale mtime cutoff) := by
        refine List.countP_congr fun other member => ?_
        rw [stale other fun equal => fresh (equal ▸ member)]
      rw [count, rest, List.countP_cons]
      cases r.isStale mtime cutoff id <;> rfl
    · rw [rest jobId]
      by_cases equal : jobId = id
      · simp [equal, fresh, finds]
      · simp [equal, stale jobId equal, same jobId equal]

/-- The files that `glob("*.state.json")` finds. -/
def stateFiles (r : JobRegistry) : List String :=
  r.stateDir.files.keys.filter fun file => ".state.json".toList <:+ file.toList

theorem empty_named (jobId : String) (data : JobStateMachine.Data)
    (found : (∅ : Dict String StateFile).lookup (stateFile jobId) = some (.dict data)) : data.jobId = jobId := by
  cases found

theorem empty_keyed (jobId : String) (sm : JobStateMachine)
    (found : (∅ : Dict String JobStateMachine).lookup jobId = some sm) : sm.jobId = jobId := by
  cases found

/-- A finished job and a running one. -/
def twoJobs : JobRegistry :=
  let done := JobStateMachine.init "a1" .completed "t0"
  let busy := JobStateMachine.init "b2" .running "t0"
  ((((⟨∅, ⟨∅, empty_named⟩, empty_keyed⟩ : JobRegistry).put done).save done .done).put busy).save busy .done

end JobRegistry

end H2kvm.Worker
