import Mathlib.Data.List.Dedup
import H2kvm.Web.Terminal

namespace H2kvm.Web

open Framework

/-- `domain.JobFilter`. -/
structure JobFilter where
  status : List JobStatus := []
  limit : Int := 0

def JobFilter.admits {Config Progress : Type} (filter : JobFilter) (job : Job Config Progress) : Bool :=
  filter.status = [] ∨ job.status ∈ filter.status

def JobFilter.cut {α : Type} (filter : JobFilter) (l : List α) : List α :=
  if 0 < filter.limit then l.take filter.limit.toNat else l

/-- `domain.JobStats`. -/
structure JobStats where
  total : Nat := 0
  pending : Nat := 0
  running : Nat := 0
  completed : Nat := 0
  failed : Nat := 0
  cancelled : Nat := 0

namespace JobStats

/-- One turn of the loop of `Stats`. -/
def count (stats : JobStats) : JobStatus → JobStats
  | .pending => { stats with pending := stats.pending + 1 }
  | .running => { stats with running := stats.running + 1 }
  | .completed => { stats with completed := stats.completed + 1 }
  | .failed => { stats with failed := stats.failed + 1 }
  | .cancelled => { stats with cancelled := stats.cancelled + 1 }

def of (stats : JobStats) : JobStatus → Nat
  | .pending => stats.pending
  | .running => stats.running
  | .completed => stats.completed
  | .failed => stats.failed
  | .cancelled => stats.cancelled

end JobStats

namespace Manager

variable {Config Progress : Type}

/-- `Get`. -/
def get (m : Manager Config Progress) (id : String) : Except String (Job Config Progress) :=
  match m.lookup id with
  | some (_, job) => .ok job
  | none => .error ("job not found: " ++ id)

/-- The loop of `List`. The map has `nil` for an id it does not know, and its status cannot be read. -/
def listLoop (m : Manager Config Progress) (filter : JobFilter) :
    List String → List (Option (Job Config Progress)) → Option (List (Option (Job Config Progress)))
  | [], result => some result
  | id :: order, result =>
    let job := (m.lookup id).map Prod.snd
    if filter.status ≠ [] ∧ job.isNone then none
    else if filter.status ≠ [] ∧ ¬ job.any (·.status ∈ filter.status) then listLoop m filter order result
    else if 0 < filter.limit ∧ filter.limit ≤ (result ++ [job]).length then some (result ++ [job])
    else listLoop m filter order (result ++ [job])

/-- `List`. -/
def list (m : Manager Config Progress) (filter : JobFilter) : Option (List (Option (Job Config Progress))) :=
  m.listLoop filter m.order []

/-- `Stats`. The loop takes the entries of the map in any order. -/
def stats (m : Manager Config Progress) : JobStats :=
  (m.jobs.entries.filterMap fun e => m.heap[e.2]?).foldl (fun stats job => stats.count job.status)
    { total := m.jobs.entries.length }

/-- The ids and configurations that were submitted. -/
def submitted (ops : List (Action Config Progress)) : List (String × Config) :=
  ops.filterMap fun a =>
    match a with
    | .submit id config _ => some (id, config)
    | _ => none

section frame

/-- What a job keeps from its submission. -/
def key (job : Job Config Progress) : String × Config := (job.id, job.config)

/-- The jobs and their order stay as they are. -/
structure Frame (m m' : Manager Config Progress) : Prop where
  jobs : m'.jobs = m.jobs
  order : m'.order = m.order
  keys : m'.heap.map key = m.heap.map key

variable {m : Manager Config Progress}

theorem Frame.rfl : Frame m m := ⟨Eq.refl _, Eq.refl _, Eq.refl _⟩

theorem frame_modify {m' : Manager Config Progress} {p : Nat} {f : Job Config Progress → Job Config Progress}
    (jobs : m'.jobs = m.jobs) (order : m'.order = m.order) (heap : m'.heap = m.heap.modify p f)
    (same : ∀ job, key (f job) = key job) : Frame m m' := by
  refine ⟨jobs, order, List.ext_getElem? fun q => ?_⟩
  rw [heap, List.getElem?_map, List.getElem?_map, List.getElem?_modify]
  cases m.heap[q]? with
  | none => rfl
  | some job => by_cases hpq : p = q <;> simp [hpq, same]

theorem key_finish (exitCode : Int) (err : Option String) (now : Time) (job : Job Config Progress) :
    key (finish exitCode err now job).1 = key job := by
  simp only [finish]
  split_ifs <;> rfl

theorem cancel_frame (id : String) (now : Time) : Frame m (m.cancel id now).2 := by
  simp only [cancel]
  split
  · exact .rfl
  · split
    · exact .rfl
    · exact frame_modify rfl rfl rfl fun _ => rfl

theorem processEvent_frame (g : Nat) (jobId : String) (event : RunnerEvent Progress) (now : Time) :
    Frame m (m.processEvent g jobId event now) := by
  simp only [processEvent]
  split
  · exact .rfl
  · cases event with
    | done exitCode err =>
      dsimp only
      split
      · exact frame_modify rfl rfl rfl (key_finish exitCode err now)
      · exact frame_modify rfl rfl rfl (key_finish exitCode err now)
    | started pid => exact frame_modify rfl rfl rfl fun _ => rfl
    | log line => exact frame_modify rfl rfl rfl fun _ => rfl
    | progress progress => exact frame_modify rfl rfl rfl fun _ => rfl

/-- Only `Submit` adds a job, and no step takes one away. -/
theorem step_cases (m : Manager Config Progress) (a : Action Config Progress) :
    (∃ id config now, a = .submit id config now) ∨ (submitted [a] = [] ∧ Frame m (m.step a)) := by
  cases a with
  | submit id config now => exact .inl ⟨id, config, now, rfl⟩
  | cancel id now => exact .inr ⟨rfl, cancel_frame id now⟩
  | executeStart g now =>
    refine .inr ⟨rfl, ?_⟩
    simp only [step]
    split
    · simp only [executeStart]
      split
      · exact ⟨rfl, rfl, rfl⟩
      · exact frame_modify rfl rfl rfl fun _ => rfl
    · exact .rfl
  | runReturned g err now =>
    refine .inr ⟨rfl, ?_⟩
    simp only [step]
    split
    · cases err with
      | none => exact ⟨rfl, rfl, rfl⟩
      | some err => exact frame_modify rfl rfl rfl fun _ => rfl
    · exact .rfl
  | event g event now =>
    refine .inr ⟨rfl, ?_⟩
    simp only [step]
    split
    · exact processEvent_frame g _ event now
    · exact .rfl
  | report g =>
    refine .inr ⟨rfl, ?_⟩
    simp only [step]
    split
    · exact ⟨rfl, rfl, rfl⟩
    · exact .rfl
  | eventsClosed g =>
    refine .inr ⟨rfl, ?_⟩
    simp only [step]
    split
    · exact ⟨rfl, rfl, rfl⟩
    · exact .rfl

end frame

section tracks

/-- The manager holds each submission, in their order, and the last one under each id. -/
structure Tracks (m : Manager Config Progress) (subs : List (String × Config)) : Prop where
  heap : m.heap.map key = subs
  order : m.order = subs.map Prod.fst
  inside : ∀ id p, m.jobs.lookup id = some p → p < subs.length
  last : ∀ id, (m.jobs.lookup id).bind (fun p => subs[p]?) = (subs.filter fun s => s.1 = id).getLast?

variable {m : Manager Config Progress} {subs : List (String × Config)}

theorem Tracks.submit (tracks : Tracks m subs) (id : String) (config : Config) (now : Time) :
    Tracks (m.submit id config now) (subs ++ [(id, config)]) := by
  have length : m.heap.length = subs.length := by rw [← tracks.heap, List.length_map]
  have lookup (other : String) : (m.submit id config now).jobs.lookup other =
      if other = id then some m.heap.length else m.jobs.lookup other := by
    change (m.jobs.insert id m.heap.length).lookup other = _
    split_ifs with same
    · rw [same, AList.lookup_insert]
    · rw [AList.lookup_insert_ne same]
  refine ⟨?_, ?_, ?_, ?_⟩
  · change (m.heap ++ [_]).map key = _
    rw [List.map_append, tracks.heap]
    rfl
  · change m.order ++ [id] = _
    rw [tracks.order]
    simp
  · intro other p found
    rw [lookup] at found
    rw [List.length_append, List.length_singleton]
    split_ifs at found with same
    · simp only [Option.some.injEq] at found
      omega
    · have := tracks.inside other p found
      omega
  · intro other
    rw [lookup, List.filter_append]
    split_ifs with same
    · simp [same, length]
    · have apart : ([(id, config)].filter fun s => s.1 = other) = [] := by simp [Ne.symm same]
      rw [apart, List.append_nil, ← tracks.last other]
      cases found : m.jobs.lookup other with
      | none => rfl
      | some p => simp [List.getElem?_append_left (tracks.inside other p found)]

theorem Tracks.frame {m' : Manager Config Progress} (tracks : Tracks m subs) (frame : Frame m m') : Tracks m' subs := by
  refine ⟨frame.keys.trans tracks.heap, frame.order.trans tracks.order, ?_, ?_⟩
  · rw [frame.jobs]
    exact tracks.inside
  · rw [frame.jobs]
    exact tracks.last

theorem tracks_run (ops : List (Action Config Progress)) : Tracks (run step new ops) (submitted ops) := by
  induction ops using List.reverseRecOn with
  | nil => exact ⟨rfl, rfl, by simp [new], by simp [new, submitted]⟩
  | append_singleton ops a ih =>
    rw [run_concat, show submitted (ops ++ [a]) = submitted ops ++ submitted [a] from List.filterMap_append]
    rcases step_cases (run step new ops) a with ⟨id, config, now, rfl⟩ | ⟨none, frame⟩
    · exact ih.submit id config now
    · rw [none, List.append_nil]
      exact ih.frame frame

/-- What is found under an id is the job of its last submission. -/
theorem Tracks.lookup (tracks : Tracks m subs) (id : String) :
    (m.lookup id).map (fun found => key found.2) = (subs.filter fun s => s.1 = id).getLast? := by
  rw [← tracks.last id, ← tracks.heap]
  simp only [Manager.lookup]
  cases m.jobs.lookup id with
  | none => rfl
  | some p => cases h : m.heap[p]? <;> simp [h]

theorem Tracks.lookup_isSome (tracks : Tracks m subs) (id : String) : (m.lookup id).isSome ↔ id ∈ m.order := by
  have found := congrArg Option.isSome (tracks.lookup id)
  rw [Option.isSome_map] at found
  rw [found, List.getLast?_isSome, tracks.order]
  simp [List.filter_eq_nil_iff]

/-- In every state of every run, an id leads to the job of the submission that drew it last, and one that no
submission drew leads nowhere. -/
theorem get_run (ops : List (Action Config Progress)) (id : String) :
    ((run step new ops).get id).toOption.map key = ((submitted ops).filter fun s => s.1 = id).getLast? := by
  rw [← (tracks_run ops).lookup id]
  simp only [get]
  cases (run step new ops).lookup id with
  | none => rfl
  | some found => rfl

end tracks

section lists

variable {m : Manager Config Progress}

/-- The jobs in the order of their ids. -/
def listed (m : Manager Config Progress) (ids : List String) : List (Job Config Progress) :=
  ids.filterMap fun id => (m.lookup id).map Prod.snd

theorem listLoop_eq {filter : JobFilter} {ids : List String} (known : ∀ id ∈ ids, (m.lookup id).isSome)
    {result : List (Option (Job Config Progress))} (room : 0 < filter.limit → result.length < filter.limit) :
    m.listLoop filter ids result =
      some (filter.cut (result ++ ((m.listed ids).filter filter.admits).map some)) := by
  induction ids generalizing result with
  | nil =>
    rw [listLoop, listed, List.filterMap_nil, List.filter_nil, List.map_nil, List.append_nil, JobFilter.cut]
    split_ifs with limited
    · rw [List.take_of_length_le]
      have := room limited
      omega
    · rfl
  | cons id ids ih =>
    obtain ⟨⟨p, job⟩, found⟩ := Option.isSome_iff_exists.mp (known id List.mem_cons_self)
    have rest : ∀ id ∈ ids, (m.lookup id).isSome := fun other member => known other (List.mem_cons_of_mem id member)
    have jobs : m.listed (id :: ids) = job :: m.listed ids := by simp [listed, found]
    rw [listLoop, jobs, found]
    dsimp only [Option.map_some]
    rw [if_neg (by simp)]
    by_cases admitted : filter.admits job = true
    · rw [if_neg (by simpa [JobFilter.admits, or_iff_not_imp_left] using admitted), List.filter_cons_of_pos admitted,
        List.map_cons, List.append_cons result (some job) (List.map some _)]
      split_ifs with full
      · -- the loop breaks with as many jobs as the limit
        have := room full.1
        rw [JobFilter.cut, if_pos full.1, List.take_append_of_le_length, List.take_of_length_le]
        · rw [List.length_append, List.length_singleton] at full ⊢
          omega
        · rw [List.length_append, List.length_singleton] at full ⊢
          omega
      · apply ih rest
        intro limited
        omega
    · rw [if_pos (by simpa [JobFilter.admits, not_or] using admitted), List.filter_cons_of_neg admitted]
      exact ih rest room

theorem JobFilter.map_cut {α β : Type} (filter : JobFilter) (f : α → β) (l : List α) :
    (filter.cut l).map f = filter.cut (l.map f) := by
  simp only [JobFilter.cut]
  split_ifs
  · rw [List.map_take]
  · rfl

theorem Tracks.id_of_lookup {subs : List (String × Config)} (tracks : Tracks m subs) {id : String} {p : Nat}
    {job : Job Config Progress} (found : m.lookup id = some (p, job)) : job.id = id := by
  have last := tracks.lookup id
  rw [found, Option.map_some, eq_comm] at last
  exact of_decide_eq_true (List.mem_filter.mp (List.mem_of_getLast? last)).2

theorem Tracks.map_id_listed {subs : List (String × Config)} (tracks : Tracks m subs) {ids : List String}
    (known : ∀ id ∈ ids, (m.lookup id).isSome) : (m.listed ids).map Job.id = ids := by
  induction ids with
  | nil => rfl
  | cons id ids ih =>
    obtain ⟨⟨p, job⟩, found⟩ := Option.isSome_iff_exists.mp (known id List.mem_cons_self)
    have jobs : m.listed (id :: ids) = job :: m.listed ids := by simp [listed, found]
    rw [jobs, List.map_cons, tracks.id_of_lookup found, ih fun other member => known other (List.mem_cons_of_mem id member)]

theorem Tracks.list_eq {subs : List (String × Config)} (tracks : Tracks m subs) (filter : JobFilter) :
    m.list filter = some ((filter.cut ((m.listed m.order).filter filter.admits)).map some) := by
  rw [list, listLoop_eq (fun id => (tracks.lookup_isSome id).mpr) (by simp), List.nil_append, JobFilter.map_cut]

/-- In every state of every run, `List` shows the jobs of all submissions in their order, and with a filter the first
of those it admits, up to its limit; it never meets an id without a job. -/
theorem list_run (ops : List (Action Config Progress)) :
    ∃ jobs : List (Job Config Progress), jobs.map Job.id = (submitted ops).map Prod.fst ∧
      ∀ filter : JobFilter, (run step new ops).list filter = some ((filter.cut (jobs.filter filter.admits)).map some) := by
  have tracks := tracks_run ops
  refine ⟨(run step new ops).listed (run step new ops).order, ?_, tracks.list_eq⟩
  rw [tracks.map_id_listed fun id => (tracks.lookup_isSome id).mpr, tracks.order]

end lists

section stats

variable {m : Manager Config Progress} {subs : List (String × Config)}

theorem foldl_count (jobs : List (Job Config Progress)) (stats : JobStats) :
    (jobs.foldl (fun stats job => stats.count job.status) stats).total = stats.total ∧
      ∀ status, (jobs.foldl (fun stats job => stats.count job.status) stats).of status =
        stats.of status + jobs.countP (·.status = status) := by
  induction jobs generalizing stats with
  | nil => exact ⟨rfl, fun status => rfl⟩
  | cons job jobs ih =>
    obtain ⟨total, each⟩ := ih (stats.count job.status)
    rw [List.foldl_cons]
    refine ⟨total.trans ?_, fun status => (each status).trans ?_⟩
    · cases job.status <;> rfl
    · rw [List.countP_cons]
      cases job.status <;> cases status <;> simp [JobStats.count, JobStats.of] <;> omega

theorem length_eq_countP (jobs : List (Job Config Progress)) : jobs.length =
    jobs.countP (·.status = .pending) + jobs.countP (·.status = .running) + jobs.countP (·.status = .completed) +
      jobs.countP (·.status = .failed) + jobs.countP (·.status = .cancelled) := by
  induction jobs with
  | nil => rfl
  | cons job jobs ih =>
    simp only [List.length_cons, List.countP_cons, ih]
    cases job.status <;> simp <;> omega

theorem stats_eq (m : Manager Config Progress) : m.stats.total = m.jobs.keys.length ∧
    ∀ status, m.stats.of status = (m.listed m.jobs.keys).countP (·.status = status) := by
  have entries : (m.jobs.entries.filterMap fun e => m.heap[e.2]?) = m.listed m.jobs.keys := by
    rw [listed, AList.keys, List.keys, List.filterMap_map]
    refine List.filterMap_congr fun e member => ?_
    have found : m.jobs.lookup e.1 = some e.2 := AList.mem_lookup_iff.mpr member
    simp [Manager.lookup, found, Function.comp_def]
  obtain ⟨total, each⟩ := foldl_count (m.listed m.jobs.keys) { total := m.jobs.entries.length }
  rw [Manager.stats, entries]
  refine ⟨total.trans (List.length_map _).symm, fun status => (each status).trans ?_⟩
  cases status <;> simp [JobStats.of]

theorem Tracks.mem_keys (tracks : Tracks m subs) {id : String} : id ∈ m.jobs.keys ↔ id ∈ m.order := by
  have length : m.heap.length = subs.length := by rw [← tracks.heap, List.length_map]
  rw [← tracks.lookup_isSome, ← AList.mem_keys, ← AList.lookup_isSome, Manager.lookup]
  cases found : m.jobs.lookup id with
  | none => simp
  | some p =>
    have inside : p < m.heap.length := length ▸ tracks.inside id p found
    simp [List.getElem?_eq_getElem inside]

theorem Tracks.keys_perm (tracks : Tracks m subs) : m.jobs.keys.Perm (subs.map Prod.fst).dedup := by
  apply (List.perm_ext_iff_of_nodup m.jobs.keys_nodup (List.nodup_dedup _)).mpr
  intro id
  rw [List.mem_dedup, ← tracks.order, tracks.mem_keys]

/-- In every state of every run the five counts of `Stats` add up to its total, which counts the ids that were drawn;
the counts are the lengths of the lists with those statuses exactly when no id was drawn twice. -/
theorem stats_run (ops : List (Action Config Progress)) :
    (run step new ops).stats.total = ((submitted ops).map Prod.fst).dedup.length ∧
    (run step new ops).stats.total = (run step new ops).stats.pending + (run step new ops).stats.running +
      (run step new ops).stats.completed + (run step new ops).stats.failed + (run step new ops).stats.cancelled ∧
    ((∀ status, ∃ jobs, (run step new ops).list { status := [status] } = some jobs ∧
      jobs.length = (run step new ops).stats.of status) ↔ ((submitted ops).map Prod.fst).Nodup) := by
  have tracks := tracks_run ops
  generalize run step new ops = m at tracks
  generalize submitted ops = subs at tracks
  obtain ⟨total, each⟩ := stats_eq m
  have keys : (m.listed m.jobs.keys).length = m.jobs.keys.length := by
    rw [← List.length_map Job.id, tracks.map_id_listed fun id member =>
      (tracks.lookup_isSome id).mpr (tracks.mem_keys.mp member)]
  have order : (m.listed m.order).length = (subs.map Prod.fst).length := by
    rw [← List.length_map Job.id, tracks.map_id_listed fun id => (tracks.lookup_isSome id).mpr, tracks.order]
  have listed (status : JobStatus) : m.list { status := [status] } =
      some (((m.listed m.order).filter (·.status = status)).map some) := by
    have admits : (JobFilter.admits { status := [status] } : Job Config Progress → Bool) =
        fun job => decide (job.status = status) := by
      funext job
      simp [JobFilter.admits]
    rw [tracks.list_eq, admits]
    simp [JobFilter.cut]
  refine ⟨?_, ?_, ?_, ?_⟩
  · rw [total, tracks.keys_perm.length_eq]
  · have parts := length_eq_countP (m.listed m.jobs.keys)
    simp only [← each] at parts
    rw [total, ← keys, parts]
    rfl
  · -- the lists hold all submissions, and the counts only as many jobs as there are ids
    intro agree
    have same (status : JobStatus) : (m.listed m.order).countP (·.status = status) =
        (m.listed m.jobs.keys).countP (·.status = status) := by
      obtain ⟨jobs, shown, length⟩ := agree status
      rw [listed, Option.some.injEq] at shown
      rw [← each, ← length, ← shown, List.length_map, List.countP_eq_length_filter]
    have lengths : (m.listed m.order).length = (m.listed m.jobs.keys).length := by
      rw [length_eq_countP, length_eq_countP (m.listed m.jobs.keys)]
      simp only [same]
    rw [order, keys, tracks.keys_perm.length_eq] at lengths
    rw [← List.dedup_eq_self]
    exact (List.dedup_sublist _).eq_of_length lengths.symm
  · intro distinct status
    refine ⟨_, listed status, ?_⟩
    have perm := tracks.keys_perm
    rw [List.dedup_eq_self.mpr distinct, ← tracks.order] at perm
    rw [each, List.length_map, ← List.countP_eq_length_filter]
    exact (perm.filterMap _).symm.countP_eq _

end stats

end Manager

end H2kvm.Web
