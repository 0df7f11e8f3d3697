import H2kvm.Recovery.Locking

namespace H2kvm.Recovery

open Framework

/-- The part of a checkpoint that completing it does not change. -/
def Checkpoint.core (cp : Checkpoint) : Checkpoint := { cp with completed := false, sha256 := none, bytesLen := none }

/-- The files of a run and what its calls returned so far. -/
structure History where
  store : Store := {}
  saved : List Checkpoint := []
  completed : List Checkpoint := []

/-- `restart` is a new manager for the same run and work directory. -/
inductive Call where
  | save (c : SaveCall)
  | mark (c : MarkCall)
  | restart

namespace Settings

variable {st : Settings}

/-- The checkpoint as it is written when it is completed. -/
def asCompleted (st : Settings) (cp : Checkpoint) : Checkpoint := st.finalizeIntegrity { cp with completed := true }

theorem asCompleted_congr {a b : Checkpoint} (h : a.core = b.core) : st.asCompleted a = st.asCompleted b := by
  have here : ∀ cp, st.asCompleted cp = st.asCompleted cp.core := fun _ => rfl
  rw [here a, here b, h]

/-- What `mark_checkpoint_complete` can do: return nothing and leave the files; complete a
checkpoint of the manager whose file is missing; or complete one that has a file, which is
written unless it said so already. -/
inductive Marked (st : Settings) (s : Store) : Except PyException (Option Checkpoint) × Store → Prop
  | nothing {result memory} (noResult : ∀ cp, result ≠ .ok (some cp))
      (cores : memory.map Checkpoint.core = s.memory.map Checkpoint.core) : Marked st s (result, { s with memory })
  | absent {cp memory pointer} (noFile : checkpointPath cp ∉ s.files)
      (held : ∃ m ∈ s.memory, m.core = cp.core ∧ m.runId = st.runId)
      (cores : memory.map Checkpoint.core = s.memory.map Checkpoint.core)
      (pointed : ∀ p ∈ pointer, p ∈ s.pointer ∨ p.path = checkpointPath cp) :
      Marked st s (.ok (some cp), { s with memory, pointer })
  | written {cp path memory pointer} (known : (path = checkpointPath cp ∧
        ∃ m ∈ s.memory, m.core = cp.core) ∨ ∃ f, s.files.lookup path = some f ∧ f.core = cp.core)
      (own : cp.runId = st.runId) (there : path ∈ s.files)
      (cores : memory.map Checkpoint.core = s.memory.map Checkpoint.core)
      (pointed : ∀ p ∈ pointer, p ∈ s.pointer ∨ p.path = path) :
      Marked st s (.ok (some (st.asCompleted cp)),
        { s with memory, pointer, files := s.files.insert path (st.asCompleted cp) })
  | already {cp path pointer} (found : s.files.lookup path = some cp) (own : cp.runId = st.runId)
      (done : cp.completed) (pointed : ∀ p ∈ pointer, p ∈ s.pointer ∨ p.path = path) :
      Marked st s (.ok (some cp), { s with pointer })

theorem completeFirst_some {p : Checkpoint → Bool} {cps rest : List Checkpoint} {cp : Checkpoint}
    (h : completeFirst p cps = some (cp, rest)) :
    (∃ m ∈ cps, p m ∧ cp = { m with completed := true }) ∧
      rest.map Checkpoint.core = cps.map Checkpoint.core := by
  induction cps generalizing rest with
  | nil => cases h
  | cons c cps ih =>
    simp only [completeFirst] at h
    split at h
    · rename_i hc
      obtain ⟨rfl, rfl⟩ := Prod.mk.inj (Option.some.inj h)
      exact ⟨⟨c, List.mem_cons_self, hc, rfl⟩, rfl⟩
    · obtain ⟨⟨found, rest'⟩, hr, hp⟩ := Option.map_eq_some_iff.mp h
      obtain ⟨rfl, rfl⟩ := Prod.mk.inj hp
      obtain ⟨⟨m, hm, pm, hcp⟩, cores⟩ := ih hr
      exact ⟨⟨m, List.mem_cons_of_mem c hm, pm, hcp⟩, by rw [List.map_cons, List.map_cons, cores]⟩

theorem pointed_writeLatestCompleted (st : Settings) (s : Store) (cp : Checkpoint) (path : Str) (written : Bool) :
    ∃ pointer, (∀ p ∈ pointer, p ∈ s.pointer ∨ p.path = path) ∧
      st.writeLatestCompleted s cp path written = { s with pointer } := by
  cases written with
  | false => exact ⟨s.pointer, fun p hp => .inl hp, rfl⟩
  | true =>
    refine ⟨_, fun p hp => .inr ?_, rfl⟩
    obtain rfl := Option.some.inj hp
    rfl

theorem marked_completeByFile (s : Store) (c : MarkCall) (path : Str) : Marked st s (st.completeByFile s c path) := by
  have nothing {result : Except PyException (Option Checkpoint)} (h : ∀ cp, result ≠ .ok (some cp)) :
      Marked st s (result, s) := .nothing h rfl
  rw [completeByFile]
  cases found : s.files.lookup path with
  | none => exact nothing (by simp)
  | some cp =>
    have there : path ∈ s.files := AList.lookup_isSome.mp (by rw [found]; rfl)
    simp only
    split
    · exact nothing (by simp)
    rename_i own
    have own : cp.runId = st.runId := not_not.mp own
    split
    · rename_i done
      obtain ⟨pointer, pointed, eq⟩ := pointed_writeLatestCompleted st s cp path c.pointerWritten
      rw [eq]
      exact .already found own done pointed
    · cases c.write with
      | error e => exact nothing (by cases e.isFatal <;> simp)
      | ok u =>
        obtain ⟨pointer, pointed, eq⟩ := pointed_writeLatestCompleted st
          { s with files := s.files.insert path (st.asCompleted cp) } (st.asCompleted cp) path c.pointerWritten
        exact eq ▸ .written (.inr ⟨cp, found, rfl⟩) own there rfl pointed

theorem marked_markCheckpointComplete (s : Store) (c : MarkCall) : Marked st s (st.markCheckpointComplete s c) := by
  simp only [markCheckpointComplete]
  split
  · rename_i cp memory first
    obtain ⟨⟨m, hm, wanted, rfl⟩, cores⟩ := completeFirst_some first
    have own : m.runId = st.runId := by
      simp only [Bool.and_eq_true, decide_eq_true_eq] at wanted
      exact wanted.1.1.1.1
    split
    · rename_i there
      cases c.write with
      | error e =>
        have raised (e' : PyException) : Marked st s (.error e', { s with memory }) :=
          .nothing (fun cp h => by cases h) cores
        simp only
        split
        · exact raised _
        · exact raised _
      | ok u =>
        obtain ⟨pointer, pointed, eq⟩ := pointed_writeLatestCompleted st
          { s with memory, files := s.files.insert (checkpointPath m) (st.asCompleted m) } (st.asCompleted m)
          (checkpointPath m) c.pointerWritten
        exact eq ▸ .written (.inl ⟨rfl, m, hm, rfl⟩) own there cores pointed
    · rename_i noFile
      obtain ⟨pointer, pointed, eq⟩ := pointed_writeLatestCompleted st { s with memory }
        { m with completed := true } (checkpointPath m) c.pointerWritten
      exact eq ▸ .absent noFile ⟨m, hm, rfl, own⟩ cores pointed
  · split
    · exact .nothing (by simp) rfl
    · exact marked_completeByFile s c _

end Settings

namespace History

variable (st : Settings)

def step (h : History) : Call → History
  | .save c =>
    match st.saveCheckpoint h.store c with
    | (.ok cp, store) => { h with store, saved := h.saved ++ [cp] }
    | (.error _, store) => { h with store }
  | .mark c =>
    match st.markCheckpointComplete h.store c with
    | (.ok (some cp), store) => { h with store, completed := h.completed ++ [cp] }
    | (_, store) => { h with store }
  | .restart => { h with store := { h.store with memory := [] } }

end History

end H2kvm.Recovery
