import H2kvm.Framework.Run
import H2kvm.Profiles.Inheritance

namespace H2kvm.Profiles

open Framework
open Yaml (Fields)

namespace ProfileCache

variable {env : Environment}

def size (cache : ProfileCache) : Nat := cache.entries.keys.length

/-- `invalidate`. -/
def invalidate (cache : ProfileCache) (key : String) : Bool × ProfileCache :=
  if key ∈ cache.entries then
    (true, { cache with entries := cache.entries.erase key, invalidations := cache.invalidations + 1 })
  else (false, cache)

/-- `clear`. -/
def clear (cache : ProfileCache) : ProfileCache :=
  { cache with entries := ∅, invalidations := cache.invalidations + cache.size }

/-- The numbers of `get_statistics`, the rate as a fraction of the requests. -/
structure Statistics where
  enabled : Bool
  size : Nat
  hits : Nat
  misses : Nat
  invalidations : Nat
  totalRequests : Nat
  hitRatePercent : ℚ
  accesses : List (String × Nat)

/-- `get_statistics`. -/
def getStatistics (cache : ProfileCache) : Statistics :=
  let totalRequests := cache.hits + cache.misses
  { enabled := cache.enabled, size := cache.size, hits := cache.hits, misses := cache.misses,
    invalidations := cache.invalidations, totalRequests,
    hitRatePercent := if totalRequests > 0 then cache.hits / totalRequests * 100 else 0
    accesses := cache.entries.entries.map fun e => (e.1, e.2.accessCount) }

variable (env) in
/-- A call under the lock, with the custom directory as it finds it. -/
inductive Call where
  | get (dir : Directory env) (key : String)
  | put (dir : Directory env) (key : String) (profileData : Fields) (sourcePath : Option String)
  | invalidate (key : String)
  | clear

namespace Call

def isGet : Call env → Bool
  | .get _ _ => true
  | _ => false

/-- The call is a `put` of a profile the cache does not hold. -/
def adds (cache : ProfileCache) : Call env → Bool
  | .put _ key _ _ => key ∉ cache.entries
  | _ => false

/-- The call takes the entry of a profile away or replaces it, whatever it is. -/
def changes (key : String) : Call env → Bool
  | .get _ _ => false
  | .put _ other _ _ => other = key
  | .invalidate other => other = key
  | .clear => true

end Call

def step (cache : ProfileCache) : Call env → ProfileCache
  | .get dir key => (cache.get dir key).2
  | .put dir key profileData sourcePath => cache.put dir key profileData sourcePath
  | .invalidate key => (cache.invalidate key).2
  | .clear => cache.clear

/-- How many calls of a run add a profile. -/
def added (cache : ProfileCache) : List (Call env) → Nat
  | [] => 0
  | call :: calls => (call.adds cache).toNat + added (cache.step call) calls

variable {cache : ProfileCache} {key : String}

theorem mem_of_lookup {entry : ProfileCacheEntry} (found : cache.entries.lookup key = some entry) : key ∈ cache.entries :=
  AList.lookup_isSome.mp (by rw [found]; rfl)

theorem length_erase (member : key ∈ cache.entries) : (cache.entries.erase key).keys.length + 1 = cache.size := by
  rw [AList.keys_erase, List.length_erase_of_mem (AList.mem_keys.mp member), size]
  have := List.length_pos_of_mem (AList.mem_keys.mp member)
  omega

theorem length_insert (entry : ProfileCacheEntry) :
    (cache.entries.insert key entry).keys.length = cache.size + (decide (key ∉ cache.entries)).toNat := by
  rw [AList.keys_insert, List.length_cons, ← AList.keys_erase]
  by_cases member : key ∈ cache.entries
  · simpa [member] using length_erase member
  · simp [AList.keys_erase, List.erase_of_not_mem (mt AList.mem_keys.mpr member), member, size]

/-- A call of an enabled cache is a hit or a miss if it is a `get`, and what it adds is in the cache or counted as
taken away. -/
theorem step_counts (on : cache.enabled = true) (call : Call env) : (cache.step call).enabled = true ∧
    (cache.step call).hits + (cache.step call).misses = cache.hits + cache.misses + call.isGet.toNat ∧
    (cache.step call).size + (cache.step call).invalidations =
      cache.size + cache.invalidations + (call.adds cache).toNat := by
  cases call with
  | get dir key =>
    simp only [step, get, on, Call.isGet, Call.adds, Bool.not_true, Bool.false_eq_true, if_false]
    cases found : cache.entries.lookup key with
    | none => exact ⟨rfl, (Nat.add_assoc ..).symm, rfl⟩
    | some entry =>
      have member := mem_of_lookup found
      cases valid : entry.isValid dir with
      | false =>
        have erased := length_erase member
        simp only [valid, Bool.not_false, if_true]
        refine ⟨trivial, (Nat.add_assoc ..).symm, ?_⟩
        change (cache.entries.erase key).keys.length + (cache.invalidations + 1) = cache.size + cache.invalidations + 0
        omega
      | true =>
        have inserted := @length_insert cache key { entry with accessCount := entry.accessCount + 1 }
        rw [decide_eq_false (not_not.mpr member), Bool.toNat_false] at inserted
        simp only [valid, Bool.not_true, Bool.false_eq_true, if_false]
        refine ⟨trivial, Nat.add_right_comm .., ?_⟩
        exact congrArg (· + cache.invalidations) inserted
  | put dir key data source =>
    have inserted := @length_insert cache key
      { profileData := data, mtime := (source.bind dir.lookup).map File.mtime, sourcePath := source }
    simp only [step, put, on, Call.isGet, Call.adds, Bool.not_true, Bool.false_eq_true, if_false]
    refine ⟨trivial, rfl, ?_⟩
    rw [size, inserted]
    omega
  | invalidate key =>
    simp only [step, invalidate, Call.isGet, Call.adds]
    split_ifs with member
    · have erased := length_erase member
      refine ⟨on, rfl, ?_⟩
      change (cache.entries.erase key).keys.length + (cache.invalidations + 1) = cache.size + cache.invalidations + 0
      omega
    · exact ⟨on, rfl, rfl⟩
  | clear =>
    refine ⟨on, rfl, ?_⟩
    change 0 + (cache.invalidations + cache.size) = cache.size + cache.invalidations + 0
    omega

/-- Over every run of an enabled cache the requests of the statistics are the calls of `get`, and every profile that
was added is in the cache or among the invalidations. -/
theorem statistics_run (calls : List (Call env)) :
    let cache := run step { enabled := true } calls
    cache.getStatistics.totalRequests = calls.countP Call.isGet ∧
      cache.getStatistics.size + cache.getStatistics.invalidations = added { enabled := true } calls := by
  have each : ∀ cache : ProfileCache, cache.enabled = true →
      (run step cache calls).hits + (run step cache calls).misses =
        cache.hits + cache.misses + calls.countP Call.isGet ∧
      (run step cache calls).size + (run step cache calls).invalidations =
        cache.size + cache.invalidations + added cache calls := by
    induction calls with
    | nil => exact fun cache _ => ⟨rfl, rfl⟩
    | cons call calls ih =>
      intro cache on
      obtain ⟨on', requests, sizes⟩ := step_counts on call
      obtain ⟨requests', sizes'⟩ := ih (cache.step call) on'
      rw [run_cons, List.countP_cons, added]
      refine ⟨?_, by omega⟩
      cases isGet : call.isGet with
      | false =>
        rw [isGet, Bool.toNat_false] at requests
        rw [if_neg Bool.false_ne_true]
        omega
      | true =>
        rw [isGet, Bool.toNat_true] at requests
        rw [if_pos rfl]
        omega
  simpa [getStatistics, size] using each { enabled := true } rfl

/-- An entry after a call was there before it, or the call has put it there. -/
theorem lookup_step (on : cache.enabled = true) {call : Call env} {entry : ProfileCacheEntry}
    (found : (cache.step call).entries.lookup key = some entry) :
    (call.changes key = false ∧ ∃ n, cache.entries.lookup key = some { entry with accessCount := n }) ∨
      ∃ dir, call = .put dir key entry.profileData entry.sourcePath ∧
        entry.mtime = (entry.sourcePath.bind dir.lookup).map File.mtime := by
  cases call with
  | get dir other => exact .inl ⟨rfl, lookup_get found⟩
  | put dir other data source =>
    simp only [step, put, on, Bool.not_true, Bool.false_eq_true, if_false] at found
    by_cases same : key = other
    · subst same
      rw [AList.lookup_insert, Option.some.injEq] at found
      subst found
      exact .inr ⟨dir, rfl, rfl⟩
    · rw [AList.lookup_insert_ne same] at found
      exact .inl ⟨by simp [Call.changes, Ne.symm same], entry.accessCount, found⟩
  | invalidate other =>
    simp only [step, invalidate] at found
    by_cases same : key = other
    · subst same
      split_ifs at found with member
      · rw [AList.lookup_erase] at found
        cases found
      · exact absurd (mem_of_lookup found) member
    · refine .inl ⟨by simp [Call.changes, Ne.symm same], entry.accessCount, ?_⟩
      split_ifs at found with member
      · rwa [AList.lookup_erase_ne same] at found
      · exact found
  | clear =>
    rw [step, clear, AList.lookup_empty] at found
    cases found

theorem lookup_run (calls : List (Call env)) {entry : ProfileCacheEntry}
    (found : (run step { enabled := true } calls).entries.lookup key = some entry) :
    ∃ before dir later, calls = before ++ .put dir key entry.profileData entry.sourcePath :: later ∧
      (∀ call ∈ later, call.changes key = false) ∧
      entry.mtime = (entry.sourcePath.bind dir.lookup).map File.mtime := by
  induction calls using List.reverseRecOn generalizing entry with
  | nil => cases found
  | append_singleton calls call ih =>
    have on : (run step { enabled := true } calls).enabled = true :=
      invariant_run (I := fun cache : ProfileCache => cache.enabled = true)
        (fun cache call on => (step_counts on call).1) rfl calls
    rw [run_concat] at found
    rcases lookup_step on found with ⟨unchanged, n, there⟩ | ⟨dir, rfl, mtime⟩
    · obtain ⟨before, dir, later, rfl, quiet, mtime⟩ := ih there
      refine ⟨before, dir, later ++ [call], by simp, ?_, mtime⟩
      intro other member
      rcases List.mem_append.mp member with old | new
      · exact quiet other old
      · rwa [List.mem_singleton.mp new]
    · exact ⟨calls, dir, [], rfl, List.forall_mem_nil _, mtime⟩

/-- What `get` answers in any state was put under that name by the last call that changed it, and the file it came
from, if any, is there with the time it then had. -/
theorem get_of_run (calls : List (Call env)) (dir : Directory env) {cached : Fields}
    (hit : ((run step { enabled := true } calls).get dir key).1 = some cached) :
    ∃ before dir' source later, calls = before ++ .put dir' key cached source :: later ∧
      (∀ call ∈ later, call.changes key = false) ∧
      ∀ path, source = some path →
        ∃ file, dir.lookup path = some file ∧ (dir'.lookup path).map File.mtime = some file.mtime := by
  obtain ⟨entry, found, valid, rfl⟩ := get_some hit
  obtain ⟨before, dir', later, same, quiet, mtime⟩ := lookup_run calls found
  refine ⟨before, dir', entry.sourcePath, later, same, quiet, ?_⟩
  intro path source
  rw [ProfileCacheEntry.isValid, source] at valid
  dsimp only at valid
  cases there : dir.lookup path with
  | none => simp [there] at valid
  | some file =>
    rw [there, beq_iff_eq, mtime, source] at valid
    exact ⟨file, rfl, valid.symm⟩

theorem get_of_run_builtin : ∃ before dir' source later,
    ([.put ∅ "web" [] none, .get ∅ "web"] : List (Call builtinOnly)) = before ++ .put dir' "web" [] source :: later ∧
      (∀ call ∈ later, call.changes "web" = false) ∧ ∀ path, source = some path →
        ∃ file, (∅ : Directory builtinOnly).lookup path = some file ∧ (dir'.lookup path).map File.mtime = some file.mtime :=
  get_of_run [.put ∅ "web" [] none, .get ∅ "web"] ∅ rfl

end ProfileCache

end H2kvm.Profiles
