import Mathlib.Data.Multiset.AddSub
import H2kvm.Framework.Buckets
import H2kvm.Framework.Run
import H2kvm.Worker.Schemas

namespace H2kvm.Worker

open Framework

section queue

/-- `JobQueue`: ten deques by priority and the directory that mirrors them. -/
structure JobQueue (codec : Codec JobSpec) where
  queues : Nat → List JobSpec
  queueDir : Dict String codec.Text

def JobSpec.priority (job : JobSpec) : Nat := job.executionPolicy.priority

/-- `sorted(self._queues.keys())`. -/
def priorities : List Nat := List.range' 1 10

/-- A job's file in the queue directory. Job ids are UUIDs, so each names a file of its own. -/
def jobFile (jobId : String) : String := jobId ++ ".job.json"

/-- The requirements table of `_job_matches_worker`. -/
def requirements (job : JobSpec) : List (String × Bool) :=
  [("nbd", job.capabilityRequirements.needsNbd),
    ("lvm", job.capabilityRequirements.needsLvm),
    ("mount", job.capabilityRequirements.needsMount),
    ("selinux", job.capabilityRequirements.needsSelinuxTools)]

def jobMatchesWorker (caps : Option (Dict String Bool)) (job : JobSpec) : Bool :=
  match caps with
  | none => true
  | some c => (requirements job).all fun r => !(r.2 && !(c.lookup r.1).getD false)

namespace JobQueue

variable {codec : Codec JobSpec}

/-- `list_jobs`: every queued job, in priority order. -/
def listJobs (q : JobQueue codec) : List JobSpec := Buckets.flat priorities q.queues

/-- `_persist_to_disk`; a write that fails is logged and leaves the directory as it was. -/
def persistToDisk (q : JobQueue codec) (job : JobSpec) (written : Bool) : JobQueue codec :=
  if written then { q with queueDir := q.queueDir.insert (jobFile job.jobId) (codec.dump job) } else q

/-- `_remove_from_disk`. -/
def removeFromDisk (q : JobQueue codec) (jobId : String) : JobQueue codec :=
  { q with queueDir := q.queueDir.erase (jobFile jobId) }

def enqueue (q : JobQueue codec) (job : JobSpec) (written : Bool) : JobQueue codec :=
  persistToDisk { q with queues := Buckets.push q.queues job.priority job } job written

def dequeue (q : JobQueue codec) (caps : Option (Dict String Bool)) :
    Option JobSpec × JobQueue codec :=
  match Buckets.pick priorities q.queues (jobMatchesWorker caps) with
  | none => (none, q)
  | some (priority, job) =>
    (some job, removeFromDisk { q with queues := Buckets.pull q.queues priority job } job.jobId)

/-- One turn of the loop of `_load_from_disk`; a file that does not parse is skipped. -/
def loadFile (queueDir : Dict String codec.Text) (queues : Nat → List JobSpec) (name : String) :
    Nat → List JobSpec :=
  match (queueDir.lookup name).bind codec.parse with
  | some job => Buckets.push queues job.priority job
  | none => queues

/-- `JobQueue(queue_dir)`: empty deques filled from the files in the order `glob` lists them. -/
def restart (queueDir : Dict String codec.Text) (glob : List String) : JobQueue codec :=
  ⟨glob.foldl (loadFile queueDir) fun _ => [], queueDir⟩

/-- The files `queue_dir.glob("*.job.json")` finds. -/
def jobFiles (queueDir : Dict String codec.Text) : List String :=
  queueDir.keys.filter fun name => ".job.json".toList <:+ name.toList

theorem priorities_nodup : priorities.Nodup := List.nodup_range'

theorem priorities_sorted : priorities.Pairwise (· < ·) := by decide

theorem priority_mem (job : JobSpec) : job.priority ∈ priorities := by
  have h := job.executionPolicy.priority_bounds
  simp only [priorities, List.mem_range'_1, JobSpec.priority]
  omega

theorem jobFile_inj {a b : String} : jobFile a = jobFile b ↔ a = b :=
  String.append_left_inj ".job.json"

/-- What `_job_matches_worker` decides: each capability a job needs is offered. -/
def Covers (caps : Option (Dict String Bool)) (job : JobSpec) : Prop :=
  ∀ c ∈ caps, ∀ r ∈ requirements job, r.2 = true → c.lookup r.1 = some true

theorem jobMatchesWorker_iff (caps : Option (Dict String Bool)) (job : JobSpec) :
    jobMatchesWorker caps job = true ↔ Covers caps job := by
  have offered (o : Option Bool) : o.getD false = true ↔ o = some true := by
    cases o <;> simp
  cases caps with
  | none => simp [jobMatchesWorker, Covers]
  | some c =>
    simp only [jobMatchesWorker, Covers, Option.mem_def, Option.some.injEq, forall_eq',
      List.all_eq_true, Bool.not_eq_true', Bool.and_eq_false_imp, Bool.not_eq_false', offered]

@[simp] theorem enqueue_queues (q : JobQueue codec) (job : JobSpec) (written : Bool) :
    (q.enqueue job written).queues = Buckets.push q.queues job.priority job := by
  unfold enqueue persistToDisk
  split <;> rfl

theorem listJobs_enqueue (q : JobQueue codec) (job : JobSpec) (written : Bool) :
    (q.enqueue job written).listJobs.Perm (job :: q.listJobs) := by
  unfold listJobs
  rw [enqueue_queues]
  exact Buckets.flat_push priorities_nodup (priority_mem job) job

/-- `dequeue` finds no match and changes nothing, or takes the first match of the flat list. -/
theorem dequeue_cases (q : JobQueue codec) (caps : Option (Dict String Bool)) :
    (q.dequeue caps = (none, q) ∧ ∀ j ∈ q.listJobs, ¬ Covers caps j) ∨
    ∃ priority job, Buckets.pick priorities q.queues (jobMatchesWorker caps) = some (priority, job) ∧
      q.dequeue caps = (some job, ⟨Buckets.pull q.queues priority job, q.queueDir.erase (jobFile job.jobId)⟩) ∧
      job ∈ q.listJobs ∧ Covers caps job := by
  have flat := Buckets.map_snd_pick priorities q.queues (jobMatchesWorker caps)
  cases h : Buckets.pick priorities q.queues (jobMatchesWorker caps) with
  | none =>
    rw [h] at flat
    refine .inl ⟨by simp [dequeue, h], fun j hj hc => ?_⟩
    exact List.find?_eq_none.mp flat.symm j hj ((jobMatchesWorker_iff _ _).mpr hc)
  | some found =>
    obtain ⟨priority, job⟩ := found
    rw [h] at flat
    refine .inr ⟨priority, job, rfl, by simp [dequeue, h, removeFromDisk], ?_, ?_⟩
    · exact List.mem_of_find?_eq_some flat.symm
    · exact (jobMatchesWorker_iff _ _).mp (List.find?_some flat.symm)

/-- Each deque holds jobs of its own priority, ids are distinct, and the directory holds the
dump of each queued job under its own name and nothing else. -/
structure WellFormed (q : JobQueue codec) : Prop where
  ranked : ∀ p, ∀ j ∈ q.queues p, j.priority = p
  ids : (q.listJobs.map JobSpec.jobId).Nodup
  files : ∀ name text, q.queueDir.lookup name = some text ↔
    ∃ j ∈ q.listJobs, jobFile j.jobId = name ∧ codec.dump j = text

/-- `JobQueue()` on a new directory. -/
def empty : JobQueue codec := ⟨fun _ => [], ∅⟩

theorem empty_wellFormed : (empty : JobQueue codec).WellFormed := by
  have none_queued : (empty : JobQueue codec).listJobs = [] := by
    simp [listJobs, empty, Buckets.flat]
  refine ⟨by simp [empty], by simp [none_queued], fun name text => ?_⟩
  rw [none_queued]
  simp [empty]

theorem ranked_push {queues : Nat → List JobSpec} (h : ∀ p, ∀ j ∈ queues p, j.priority = p)
    (job : JobSpec) : ∀ p, ∀ j ∈ Buckets.push queues job.priority job p, j.priority = p := by
  intro p j hj
  by_cases hp : p = job.priority
  · subst hp
    simp only [Buckets.push, Function.update_self, List.mem_append, List.mem_singleton] at hj
    rcases hj with hj | rfl
    · exact h _ j hj
    · rfl
  · rw [Buckets.push, Function.update_of_ne hp] at hj
    exact h p j hj

theorem enqueue_wellFormed {q : JobQueue codec} (h : q.WellFormed) {job : JobSpec}
    (fresh : ∀ j ∈ q.listJobs, j.jobId ≠ job.jobId) : (q.enqueue job true).WellFormed := by
  have perm := listJobs_enqueue q job true
  refine ⟨?_, ?_, fun name text => ?_⟩
  · rw [enqueue_queues]
    exact ranked_push h.ranked job
  · rw [(perm.map JobSpec.jobId).nodup_iff, List.map_cons, List.nodup_cons]
    refine ⟨?_, h.ids⟩
    intro hm
    obtain ⟨j, hj, he⟩ := List.mem_map.mp hm
    exact fresh j hj he
  · have dir : (q.enqueue job true).queueDir = q.queueDir.insert (jobFile job.jobId) (codec.dump job) := rfl
    simp only [dir, perm.mem_iff, List.mem_cons, exists_eq_or_imp]
    by_cases hn : name = jobFile job.jobId
    · subst hn
      rw [AList.lookup_insert, Option.some.injEq]
      constructor
      · exact fun he => .inl ⟨rfl, he⟩
      · intro h
        rcases h with ⟨-, he⟩ | ⟨j, hj, he, -⟩
        · exact he
        · exact absurd (jobFile_inj.mp he) (fresh j hj)
    · rw [AList.lookup_insert_ne hn, h.files]
      constructor
      · exact .inr
      · intro h
        rcases h with ⟨he, -⟩ | hj
        · exact absurd he.symm hn
        · exact hj

theorem dequeue_wellFormed {q : JobQueue codec} (h : q.WellFormed) (caps : Option (Dict String Bool)) :
    (q.dequeue caps).2.WellFormed := by
  rcases dequeue_cases q caps with ⟨he, -⟩ | ⟨p, job, hpick, he, hmem, -⟩
  · rw [he]; exact h
  rw [he]
  have flat : (⟨Buckets.pull q.queues p job, q.queueDir.erase (jobFile job.jobId)⟩ : JobQueue codec).listJobs =
      q.listJobs.erase job := Buckets.flat_pull priorities_nodup hpick
  have distinct : q.listJobs.Nodup := h.ids.of_map _
  refine ⟨fun r j hj => ?_, ?_, fun name text => ?_⟩
  · exact h.ranked r j ((Buckets.pull_sublist q.queues p r job).subset hj)
  · rw [flat]
    exact h.ids.sublist (List.erase_sublist.map _)
  · rw [flat]
    by_cases hn : name = jobFile job.jobId
    · subst hn
      rw [AList.lookup_erase]
      constructor
      · intro hf
        simp at hf
      · intro found
        obtain ⟨j, hj, hname, -⟩ := found
        have same : j = job := List.inj_on_of_nodup_map h.ids (List.mem_of_mem_erase hj) hmem (jobFile_inj.mp hname)
        exact absurd (same ▸ hj) distinct.not_mem_erase
    · rw [AList.lookup_erase_ne hn, h.files]
      constructor
      · intro found
        obtain ⟨j, hj, hname, ht⟩ := found
        have hne : j ≠ job := by
          intro he
          rw [he] at hname
          exact hn hname.symm
        exact ⟨j, (List.mem_erase_of_ne hne).mpr hj, hname, ht⟩
      · intro found
        obtain ⟨j, hj, rest⟩ := found
        exact ⟨j, List.mem_of_mem_erase hj, rest⟩

end JobQueue

end queue

section queueSession

namespace JobQueue

variable {codec : Codec JobSpec}

/-- The job a file of the directory holds. -/
def jobOf (queueDir : Dict String codec.Text) (name : String) : Option JobSpec :=
  (queueDir.lookup name).bind codec.parse

theorem loadFile_perm (queueDir : Dict String codec.Text) (queues : Nat → List JobSpec) (name : String) :
    (Buckets.flat priorities (loadFile queueDir queues name)).Perm
      (Buckets.flat priorities queues ++ (jobOf queueDir name).toList) := by
  unfold loadFile jobOf
  split
  · rename_i job h
    simp only [h, Option.toList_some]
    exact (Buckets.flat_push priorities_nodup (priority_mem job) job).trans (List.perm_append_singleton _ _).symm
  · rename_i h
    simp [h]

theorem foldl_loadFile_perm (queueDir : Dict String codec.Text) (glob : List String) (queues : Nat → List JobSpec) :
    (Buckets.flat priorities (glob.foldl (loadFile queueDir) queues)).Perm
      (Buckets.flat priorities queues ++ glob.filterMap (jobOf queueDir)) := by
  induction glob generalizing queues with
  | nil => simp
  | cons name glob ih =>
    have h := (ih (loadFile queueDir queues name)).trans
      ((loadFile_perm queueDir queues name).append_right _)
    rw [List.foldl_cons]
    cases hj : jobOf queueDir name with
    | none => simpa [hj] using h
    | some job => simpa [hj] using h

theorem foldl_loadFile_ranked (queueDir : Dict String codec.Text) (glob : List String)
    (queues : Nat → List JobSpec) (h : ∀ p, ∀ j ∈ queues p, j.priority = p) :
    ∀ p, ∀ j ∈ glob.foldl (loadFile queueDir) queues p, j.priority = p := by
  induction glob generalizing queues with
  | nil => exact h
  | cons name glob ih =>
    refine ih _ ?_
    cases hj : (queueDir.lookup name).bind codec.parse with
    | none => simpa [loadFile, hj] using h
    | some job => simpa [loadFile, hj] using ranked_push h job

theorem keys_perm {q : JobQueue codec} (h : q.WellFormed) :
    q.queueDir.keys.Perm (q.listJobs.map fun j => jobFile j.jobId) := by
  have names : (q.listJobs.map fun j => jobFile j.jobId).Nodup := by
    have := h.ids.map (f := jobFile) fun a b hab => jobFile_inj.mp hab
    simpa [List.map_map, Function.comp_def] using this
  refine (List.perm_ext_iff_of_nodup q.queueDir.keys_nodup names).mpr fun name => ?_
  rw [← AList.mem_keys, ← AList.lookup_isSome, Option.isSome_iff_exists]
  simp only [h.files, List.mem_map]
  constructor
  · intro found
    obtain ⟨_, j, hj, hn, -⟩ := found
    exact ⟨j, hj, hn⟩
  · intro found
    obtain ⟨j, hj, hn⟩ := found
    exact ⟨_, j, hj, hn, rfl⟩

theorem jobFiles_eq_keys {q : JobQueue codec} (h : q.WellFormed) : jobFiles q.queueDir = q.queueDir.keys := by
  refine List.filter_eq_self.mpr fun name hn => ?_
  obtain ⟨j, -, rfl⟩ := List.mem_map.mp ((keys_perm h).mem_iff.mp hn)
  simp only [jobFile, String.toList_append, decide_eq_true_eq]
  exact List.suffix_append _ _

theorem filterMap_jobOf {q : JobQueue codec} (h : q.WellFormed) {js : List JobSpec} (hj : ∀ j ∈ js, j ∈ q.listJobs) :
    (js.map fun j => jobFile j.jobId).filterMap (jobOf q.queueDir) = js := by
  induction js with
  | nil => rfl
  | cons j js ih =>
    have found : jobOf q.queueDir (jobFile j.jobId) = some j := by
      have := (h.files (jobFile j.jobId) (codec.dump j)).mpr ⟨j, hj j List.mem_cons_self, rfl, rfl⟩
      simp [jobOf, this]
    rw [List.map_cons, List.filterMap_cons_some found, ih fun k hk => hj k (List.mem_cons_of_mem _ hk)]

theorem restart_wellFormed {q : JobQueue codec} (h : q.WellFormed) {glob : List String}
    (hg : glob.Perm (jobFiles q.queueDir)) :
    (restart q.queueDir glob).listJobs.Perm q.listJobs ∧ (restart q.queueDir glob).WellFormed := by
  have perm : (restart q.queueDir glob).listJobs.Perm q.listJobs := by
    have loaded := foldl_loadFile_perm q.queueDir glob fun _ => []
    have nothing : Buckets.flat priorities (fun _ => ([] : List JobSpec)) = [] := by simp [Buckets.flat]
    rw [nothing, List.nil_append] at loaded
    have names := (jobFiles_eq_keys h ▸ hg).trans (keys_perm h)
    refine loaded.trans ((names.filterMap _).trans ?_)
    rw [filterMap_jobOf h fun j hj => hj]
  refine ⟨perm, foldl_loadFile_ranked _ _ _ (by simp), ?_, fun name text => ?_⟩
  · exact (perm.map JobSpec.jobId).nodup_iff.mpr h.ids
  · simp only [perm.mem_iff]
    exact h.files name text

end JobQueue

/-- What happens to a queue over its life; `restart` lists the directory in some order. -/
inductive QueueAction where
  | enqueue (job : JobSpec)
  | dequeue (caps : Option (Dict String Bool))
  | restart (glob : List String)

/-- A queue with the jobs it handed out and those enqueued since it was last constructed. -/
structure QueueSession (codec : Codec JobSpec) where
  queue : JobQueue codec
  dequeued : List JobSpec
  recent : List JobSpec

namespace QueueSession

variable {codec : Codec JobSpec}

def start : QueueSession codec := ⟨JobQueue.empty, [], []⟩

/-- Disk writes succeed. A `restart` whose listing is not one of the directory's files is no
step of the program and is left out. -/
def step (s : QueueSession codec) : QueueAction → QueueSession codec
  | .enqueue job => { s with queue := s.queue.enqueue job true, recent := s.recent ++ [job] }
  | .dequeue caps =>
    { s with queue := (s.queue.dequeue caps).2
             dequeued := s.dequeued ++ (s.queue.dequeue caps).1.toList }
  | .restart glob =>
    if glob.Perm (JobQueue.jobFiles s.queue.queueDir) then
      { s with queue := JobQueue.restart s.queue.queueDir glob, recent := [] }
    else s

/-- The jobs a run enqueues, in order. -/
def enqueued : List QueueAction → List JobSpec
  | [] => []
  | .enqueue job :: as => job :: enqueued as
  | .dequeue _ :: as => enqueued as
  | .restart _ :: as => enqueued as

theorem enqueued_append (as bs : List QueueAction) : enqueued (as ++ bs) = enqueued as ++ enqueued bs := by
  induction as with
  | nil => rfl
  | cons a as ih => cases a <;> simp [enqueued, ih]

/-- Relates a session to the list of jobs enqueued so far. -/
structure Inv (all : List JobSpec) (s : QueueSession codec) : Prop where
  wellFormed : s.queue.WellFormed
  conserved : all.Perm (s.dequeued ++ s.queue.listJobs)
  recent_sub : s.recent.Sublist all
  in_order : ∀ p, ((s.queue.queues p).filter (· ∈ s.recent)).Sublist s.recent

theorem start_inv : Inv [] (start : QueueSession codec) :=
  ⟨JobQueue.empty_wellFormed, by simp [start, JobQueue.listJobs, JobQueue.empty, Buckets.flat],
    List.Sublist.slnil, fun _ => by simp [start, JobQueue.empty]⟩

theorem queued_mem {q : JobQueue codec} (h : q.WellFormed) {p : Nat} {j : JobSpec} (hj : j ∈ q.queues p) :
    j ∈ q.listJobs := by
  refine Buckets.mem_flat.mpr ⟨p, ?_, hj⟩
  rw [← h.ranked p j hj]
  exact JobQueue.priority_mem j

theorem enqueue_inv {all : List JobSpec} {s : QueueSession codec} (h : Inv all s) {job : JobSpec}
    (fresh : ∀ j ∈ all, j.jobId ≠ job.jobId) : Inv (all ++ [job]) (s.step (.enqueue job)) := by
  have unqueued : ∀ j ∈ s.queue.listJobs, j.jobId ≠ job.jobId := fun j hj =>
    fresh j (h.conserved.mem_iff.mpr (List.mem_append_right _ hj))
  refine ⟨JobQueue.enqueue_wellFormed h.wellFormed unqueued, ?_, h.recent_sub.append (List.Sublist.refl _), fun p => ?_⟩
  · have grown := (JobQueue.listJobs_enqueue s.queue job true).append_left s.dequeued
    refine ((h.conserved.append_right [job]).trans ?_).trans grown.symm
    rw [List.append_assoc]
    exact (List.perm_append_singleton _ _).append_left _
  · -- a job already queued is not the new one, so the old part is filtered as before
    have same : ∀ j ∈ s.queue.queues p, decide (j ∈ s.recent ++ [job]) = decide (j ∈ s.recent) := by
      intro j hj
      have hne : j ≠ job := fun he => unqueued j (queued_mem h.wellFormed hj) (congrArg _ he)
      simp [hne]
    change ((s.queue.enqueue job true).queues p).filter (· ∈ s.recent ++ [job]) |>.Sublist (s.recent ++ [job])
    rw [JobQueue.enqueue_queues]
    by_cases hp : p = job.priority
    · subst hp
      rw [Buckets.push, Function.update_self, List.filter_append, List.filter_congr same]
      exact (h.in_order _).append List.filter_sublist
    · rw [Buckets.push, Function.update_of_ne hp, List.filter_congr same]
      exact (h.in_order p).trans (List.sublist_append_left _ _)

theorem dequeue_inv {all : List JobSpec} {s : QueueSession codec} (h : Inv all s)
    (caps : Option (Dict String Bool)) : Inv all (s.step (.dequeue caps)) := by
  have wf := JobQueue.dequeue_wellFormed h.wellFormed caps
  rcases JobQueue.dequeue_cases s.queue caps with ⟨he, -⟩ | ⟨p, job, hpick, he, hmem, -⟩
  · refine ⟨wf, ?_, h.recent_sub, ?_⟩
    · simpa [step, he] using h.conserved
    · simpa [step, he] using h.in_order
  · have flat : (s.queue.dequeue caps).2.listJobs = s.queue.listJobs.erase job := by
      rw [he]
      exact Buckets.flat_pull JobQueue.priorities_nodup hpick
    refine ⟨wf, ?_, h.recent_sub, fun r => ?_⟩
    · change all.Perm (s.dequeued ++ (s.queue.dequeue caps).1.toList ++ (s.queue.dequeue caps).2.listJobs)
      rw [flat, he, List.append_assoc]
      exact h.conserved.trans ((List.perm_cons_erase hmem).append_left _)
    · change (((s.queue.dequeue caps).2.queues r).filter (· ∈ s.recent)).Sublist s.recent
      rw [he]
      exact ((Buckets.pull_sublist s.queue.queues p r job).filter _).trans (h.in_order r)

theorem restart_inv {all : List JobSpec} {s : QueueSession codec} (h : Inv all s) (glob : List String) :
    Inv all (s.step (.restart glob)) := by
  simp only [step]
  split_ifs with hg
  · obtain ⟨perm, wf⟩ := JobQueue.restart_wellFormed h.wellFormed hg
    exact ⟨wf, h.conserved.trans (perm.symm.append_left _), List.nil_sublist _, fun p => by simp⟩
  · exact h

theorem run_inv (acts : List QueueAction) (distinct : ((enqueued acts).map JobSpec.jobId).Nodup) :
    Inv (enqueued acts) (run step (start : QueueSession codec) acts) := by
  induction acts using List.reverseRecOn with
  | nil => exact start_inv
  | append_singleton acts a ih =>
    rw [run_concat, enqueued_append]
    rw [enqueued_append, List.map_append] at distinct
    have before := ih distinct.of_append_left
    cases a with
    | enqueue job =>
      refine enqueue_inv before fun j hj he => ?_
      have apart := (List.nodup_append.mp distinct).2.2
      exact apart _ (List.mem_map_of_mem hj) job.jobId (by simp [enqueued]) he
    | dequeue caps => simpa [enqueued] using dequeue_inv before caps
    | restart glob => simpa [enqueued] using restart_inv before glob

theorem picked_first {all : List JobSpec} {s : QueueSession codec} (h : Inv all s) {caps : Option (Dict String Bool)}
    {p : Nat} {job j : JobSpec} (hpick : Buckets.pick priorities s.queue.queues (jobMatchesWorker caps) = some (p, job))
    (hj : j ∈ s.queue.listJobs) (hc : JobQueue.Covers caps j) (hp : j.priority = job.priority)
    (hjr : j ∈ s.recent) (hr : job ∈ s.recent) (hne : j ≠ job) : [job, j].Sublist s.recent := by
  have found := (Buckets.pick_mem hpick).2
  obtain ⟨pre, post, hsplit, skipped⟩ := List.find?_eq_some_iff_append.mp found |>.2
  obtain ⟨r, -, hjq⟩ := Buckets.mem_flat.mp hj
  have hr' : r = p := by
    rw [← h.wellFormed.ranked r j hjq, hp, h.wellFormed.ranked p job (List.mem_of_find?_eq_some found)]
  subst hr'
  have later : j ∈ post := by
    rw [hsplit, List.mem_append, List.mem_cons] at hjq
    rcases hjq with hjq | rfl | hjq
    · have := skipped j hjq
      rw [(JobQueue.jobMatchesWorker_iff caps j).mpr hc] at this
      simp at this
    · exact absurd rfl hne
    · exact hjq
  have ordered := h.in_order r
  rw [hsplit, List.filter_append, List.filter_cons_of_pos (by simpa using hr)] at ordered
  have kept : j ∈ post.filter (· ∈ s.recent) := List.mem_filter.mpr ⟨later, by simpa using hjr⟩
  exact ((List.singleton_sublist.mpr kept).cons_cons job |>.trans (List.sublist_append_right _ _)).trans ordered

end QueueSession

end queueSession

end H2kvm.Worker
