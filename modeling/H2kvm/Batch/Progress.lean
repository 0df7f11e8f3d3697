import Mathlib
import H2kvm.Framework.Data
import H2kvm.Batch.Checkpoint

namespace H2kvm.Batch.Progress

section progress

open Framework

/-- Status of a VM in batch conversion. -/
inductive VMStatus where
  | pending
  | inProgress
  | completed
  | failed
  | skipped
  deriving DecidableEq

namespace VMStatus

def value : VMStatus → String
  | .pending => "pending"
  | .inProgress => "in_progress"
  | .completed => "completed"
  | .failed => "failed"
  | .skipped => "skipped"

def all : List VMStatus := [.pending, .inProgress, .completed, .failed, .skipped]

/-- `VMStatus(value)`. -/
def ofValue (s : String) : Option VMStatus := all.find? fun status => status.value = s

theorem ofValue_value (status : VMStatus) : ofValue status.value = some status := by
  cases status <;> decide

/-- A VM of this status counts as processed. -/
def isDone : VMStatus → Bool
  | .completed | .failed => true
  | _ => false

end VMStatus

/-- Progress information for a single VM. -/
structure VMProgress where
  vmId : String
  status : VMStatus
  startedAt : Option ℚ := none
  completedAt : Option ℚ := none
  duration : ℚ := 0
  error : Option String := none
  currentStage : Option String := none
  stagesCompleted : List String := []

/-- Overall batch conversion progress. -/
structure BatchProgress where
  batchId : String
  totalVms : Int
  startedAt : ℚ
  updatedAt : ℚ
  completedAt : Option ℚ := none
  vms : Dict String VMProgress := ∅

namespace BatchProgress

variable (p : BatchProgress)

/-- The records of the VMs. -/
def records : List VMProgress := p.vms.entries.map Sigma.snd

def getCounts (status : VMStatus) : Nat := p.records.countP fun vm => vm.status = status

/-- `get_completion_percentage`; the floats are taken as exact. -/
def getCompletionPercentage : ℚ :=
  if p.totalVms = 0 then 0 else ((p.getCounts .completed + p.getCounts .failed : Nat) : ℚ) / p.totalVms * 100

def getEstimatedTimeRemaining : Option ℚ :=
  let completed := p.getCounts .completed
  if completed = 0 then none
  else
    let totalDuration := ((p.records.filter fun vm => vm.status = .completed).map VMProgress.duration).sum
    some (totalDuration / completed * (p.totalVms - completed - p.getCounts .failed : Int))

end BatchProgress

section dictionaries

/-- The values in the dictionaries that `to_dict` makes. -/
inductive Value where
  | none
  | int (n : Int)
  | float (q : ℚ)
  | str (s : String)
  | list (items : List Value)
  | dict (fields : List (String × Value))

namespace Value

def ofOption {α : Type} (f : α → Value) : Option α → Value
  | some a => f a
  | Option.none => .none

def str? : Value → Option String
  | .str s => some s
  | _ => Option.none

def float? : Value → Option ℚ
  | .float q => some q
  | _ => Option.none

def int? : Value → Option Int
  | .int n => some n
  | _ => Option.none

def list? : Value → Option (List Value)
  | .list items => some items
  | _ => Option.none

def dict? : Value → Option (List (String × Value))
  | .dict fields => some fields
  | _ => Option.none

/-- A field that may be missing or `None`. -/
def optional {α : Type} (read : Value → Option α) : Option Value → Option (Option α)
  | Option.none | some .none => some Option.none
  | some v => (read v).map some

end Value

def VMProgress.toDict (vm : VMProgress) : List (String × Value) :=
  [("vm_id", .str vm.vmId), ("status", .str vm.status.value), ("started_at", .ofOption .float vm.startedAt),
    ("completed_at", .ofOption .float vm.completedAt), ("duration", .float vm.duration), ("error", .ofOption .str vm.error),
    ("current_stage", .ofOption .str vm.currentStage), ("stages_completed", .list (vm.stagesCompleted.map .str))]

/-- `from_dict`; `none` where it raises or a field is not of the type it is declared with. -/
def VMProgress.fromDict (data : List (String × Value)) : Option VMProgress := do
  let vmId ← (← data.lookup "vm_id").str?
  let status ← VMStatus.ofValue (← (← data.lookup "status").str?)
  let startedAt ← Value.optional Value.float? (data.lookup "started_at")
  let completedAt ← Value.optional Value.float? (data.lookup "completed_at")
  let duration ← ((data.lookup "duration").getD (.float 0)).float?
  let error ← Value.optional Value.str? (data.lookup "error")
  let currentStage ← Value.optional Value.str? (data.lookup "current_stage")
  let stagesCompleted ← (← ((data.lookup "stages_completed").getD (.list [])).list?).mapM Value.str?
  return { vmId, status, startedAt, completedAt, duration, error, currentStage, stagesCompleted }

def BatchProgress.toDict (p : BatchProgress) : List (String × Value) :=
  [("batch_id", .str p.batchId), ("total_vms", .int p.totalVms), ("started_at", .float p.startedAt),
    ("updated_at", .float p.updatedAt), ("completed_at", .ofOption .float p.completedAt),
    ("counts", .dict (VMStatus.all.map fun status => (status.value, .int (p.getCounts status)))),
    ("completion_percentage", .float p.getCompletionPercentage),
    ("estimated_time_remaining", .ofOption .float p.getEstimatedTimeRemaining),
    ("vms", .dict (p.vms.entries.map fun entry => (entry.1, .dict entry.2.toDict)))]

/-- An item of `{vm_id: VMProgress.from_dict(vm_data) for ...}`. -/
def itemFromDict (item : String × Value) : Option (Sigma fun _ : String => VMProgress) := do
  return ⟨item.1, ← VMProgress.fromDict (← item.2.dict?)⟩

/-- `from_dict`; `none` where it raises or a field is not of the type it is declared with. -/
def BatchProgress.fromDict (data : List (String × Value)) : Option BatchProgress := do
  let items ← (← ((data.lookup "vms").getD (.dict [])).dict?).mapM itemFromDict
  let batchId ← (← data.lookup "batch_id").str?
  let totalVms ← (← data.lookup "total_vms").int?
  let startedAt ← (← data.lookup "started_at").float?
  let updatedAt ← (← data.lookup "updated_at").float?
  let completedAt ← Value.optional Value.float? (data.lookup "completed_at")
  return { batchId, totalVms, startedAt, updatedAt, completedAt
           vms := items.foldr (fun item vms => vms.insert item.1 item.2) ∅ }

theorem Value.optional_ofOption {α : Type} (f : α → Value) {read : Value → Option α}
    (reads : ∀ a, read (f a) = some a) (some' : ∀ a, f a ≠ .none) (o : Option α) :
    Value.optional read (some (.ofOption f o)) = some o := by
  cases o with
  | none => rfl
  | some a =>
    rw [Value.ofOption, Value.optional]
    · rw [reads]
      rfl
    · intro h
      exact some' a h

theorem mapM_of_forall {α β : Type} {f : α → Option β} {g : β → α} (inverse : ∀ b, f (g b) = some b) (bs : List β) :
    (bs.map g).mapM f = some bs := by
  induction bs with
  | nil => rfl
  | cons b bs ih =>
    rw [List.map_cons, List.mapM_cons, inverse, ih]
    rfl

theorem VMProgress.fromDict_toDict (vm : VMProgress) : fromDict vm.toDict = some vm := by
  have float (o : Option ℚ) : Value.optional Value.float? (some (.ofOption .float o)) = some o :=
    Value.optional_ofOption Value.float (fun _ => rfl) (fun _ h => nomatch h) o
  have text (o : Option String) : Value.optional Value.str? (some (.ofOption .str o)) = some o :=
    Value.optional_ofOption Value.str (fun _ => rfl) (fun _ h => nomatch h) o
  have stages : (vm.stagesCompleted.map Value.str).mapM Value.str? = some vm.stagesCompleted := by
    apply mapM_of_forall
    intro stage
    rfl
  simp [fromDict, toDict, List.lookup, Value.str?, Value.float?, Value.list?, VMStatus.ofValue_value, float, text, stages]

theorem foldr_insert_entries (vms : Dict String VMProgress) :
    vms.entries.foldr (fun item vms => vms.insert item.1 item.2) (∅ : Dict String VMProgress) = vms := by
  have built (items : List (Sigma fun _ : String => VMProgress)) (nodup : items.NodupKeys) :
      (items.foldr (fun item vms => vms.insert item.1 item.2) (∅ : Dict String VMProgress)).entries = items := by
    induction items with
    | nil => rfl
    | cons item items ih =>
      obtain ⟨fresh, nodup⟩ := List.nodupKeys_cons.mp nodup
      rw [List.foldr_cons, AList.entries_insert_of_notMem, ih nodup]
      rw [AList.mem_keys, AList.keys, ih nodup]
      exact fresh
  exact AList.ext (built vms.entries vms.nodupKeys)

theorem BatchProgress.fromDict_toDict (p : BatchProgress) : fromDict p.toDict = some p := by
  have float (o : Option ℚ) : Value.optional Value.float? (some (.ofOption .float o)) = some o :=
    Value.optional_ofOption Value.float (fun _ => rfl) (fun _ h => nomatch h) o
  have items : (p.vms.entries.map fun entry => (entry.1, Value.dict entry.2.toDict)).mapM itemFromDict =
      some p.vms.entries := by
    apply mapM_of_forall
    intro entry
    simp [itemFromDict, Value.dict?, VMProgress.fromDict_toDict]
  simp [fromDict, toDict, List.lookup, Value.str?, Value.float?, Value.int?, Value.dict?, float, items, foldr_insert_entries]

end dictionaries

section done

namespace BatchProgress

/-- The VMs whose record says completed or failed. -/
def doneIds (p : BatchProgress) : Finset String :=
  ((p.vms.entries.filter fun entry => entry.2.status.isDone).map Sigma.fst).toFinset

theorem mem_doneIds {p : BatchProgress} {vmId : String} :
    vmId ∈ p.doneIds ↔ ∃ vm, p.vms.lookup vmId = some vm ∧ vm.status.isDone = true := by
  simp only [doneIds, List.mem_toFinset, List.mem_map, List.mem_filter]
  constructor
  · rintro ⟨⟨id, vm⟩, ⟨entry, done⟩, rfl⟩
    exact ⟨vm, AList.mem_lookup_iff.mpr entry, done⟩
  · rintro ⟨vm, found, done⟩
    exact ⟨⟨vmId, vm⟩, ⟨AList.mem_lookup_iff.mp found, done⟩, rfl⟩

theorem mem_vms_of_mem_doneIds {p : BatchProgress} {vmId : String} (h : vmId ∈ p.doneIds) : vmId ∈ p.vms := by
  obtain ⟨vm, found, -⟩ := mem_doneIds.mp h
  exact AList.lookup_isSome.mp (by rw [found]; rfl)

theorem card_doneIds (p : BatchProgress) : p.doneIds.card = p.getCounts .completed + p.getCounts .failed := by
  have nodup : ((p.vms.entries.filter fun entry => entry.2.status.isDone).map Sigma.fst).Nodup :=
    (List.filter_sublist.map Sigma.fst).nodup p.vms.nodupKeys
  rw [doneIds, List.toFinset_card_of_nodup nodup, List.length_map, ← List.countP_eq_length_filter]
  simp only [getCounts, records, List.countP_map, Function.comp_def]
  induction p.vms.entries with
  | nil => rfl
  | cons entry entries ih =>
    simp only [List.countP_cons, ih]
    cases entry.2.status <;> simp [VMStatus.isDone] <;> omega

theorem getCompletionPercentage_eq (p : BatchProgress) : p.getCompletionPercentage = p.doneIds.card / p.totalVms * 100 := by
  unfold getCompletionPercentage
  split
  · next h => simp [h]
  · rw [card_doneIds]

end BatchProgress

end done

section tracker

/-- What each `time.time()` in the text of a method reads, and whether its file is written. -/
structure Moment where
  clock : Nat → ℚ
  saved : Bool

/-- A tracker and the percentages in the files it has written. -/
structure ProgressTracker where
  progress : BatchProgress
  written : List ℚ := []

/-- A call of a tracker's method that `_process_single_vm` makes. -/
inductive Call where
  | startVm (vmId : String)
  | updateVmStage (vmId stage : String)
  | completeVm (vmId : String) (success : Bool) (error : Option String)
  deriving DecidableEq

def Call.vmId : Call → String
  | .startVm vmId => vmId
  | .updateVmStage vmId _ => vmId
  | .completeVm vmId _ _ => vmId

def Call.Completes (id : String) : Call → Prop
  | .completeVm vmId _ _ => vmId = id
  | _ => False

namespace ProgressTracker

variable (t : ProgressTracker) (m : Moment)

def writeProgress : ProgressTracker :=
  if m.saved then { t with written := t.written ++ [t.progress.getCompletionPercentage] } else t

/-- `__init__`. -/
def create (batchId : String) (totalVms : Nat) : ProgressTracker :=
  ({ progress := { batchId, totalVms, startedAt := m.clock 0, updatedAt := m.clock 1 } } : ProgressTracker).writeProgress m

/-- The record of a VM put in its place, the time of the change, and the file. -/
def record (vmId : String) (vm : VMProgress) (updatedAt : ℚ) : ProgressTracker :=
  writeProgress { t with progress := { t.progress with vms := t.progress.vms.insert vmId vm, updatedAt } } m

def startVm (vmId : String) : ProgressTracker :=
  t.record m vmId { vmId, status := .inProgress, startedAt := some (m.clock 0) } (m.clock 1)

def updateVmStage (vmId stage : String) : ProgressTracker :=
  match t.progress.vms.lookup vmId with
  | some vm =>
    t.record m vmId { vm with currentStage := some stage
                              stagesCompleted := if stage ∈ vm.stagesCompleted then vm.stagesCompleted
                                else vm.stagesCompleted ++ [stage] } (m.clock 0)
  | none => t

/-- The record `complete_vm` leaves. A start at time 0 counts as none. -/
def completed (vm : VMProgress) (success : Bool) (error : Option String) : VMProgress :=
  { vm with status := if success then .completed else .failed, completedAt := some (m.clock 0), error
            duration := match vm.startedAt with
              | some startedAt => if startedAt = 0 then vm.duration else m.clock 1 - startedAt
              | none => vm.duration }

def completeVm (vmId : String) (success : Bool) (error : Option String) : ProgressTracker :=
  match t.progress.vms.lookup vmId with
  | some vm => t.record m vmId (completed m vm success error) (m.clock 2)
  | none => t

def skipVm (vmId reason : String) : ProgressTracker :=
  t.record m vmId { vmId, status := .skipped, error := some reason } (m.clock 0)

def completeBatch : ProgressTracker :=
  writeProgress { t with progress := { t.progress with completedAt := some (m.clock 0), updatedAt := m.clock 1 } } m

def call : Call → ProgressTracker
  | .startVm vmId => t.startVm m vmId
  | .updateVmStage vmId stage => t.updateVmStage m vmId stage
  | .completeVm vmId success error => t.completeVm m vmId success error

def calls : List (Call × Moment) → ProgressTracker
  | cs => cs.foldl (fun t c => t.call c.2 c.1) t

@[simp] theorem writeProgress_progress : (t.writeProgress m).progress = t.progress := by
  unfold writeProgress
  split <;> rfl

/-- What a step writes, if anything, is the percentage it leaves. -/
def Writes (t t' : ProgressTracker) : Prop :=
  t'.written = t.written ∨ t'.written = t.written ++ [t'.progress.getCompletionPercentage]

theorem writes_writeProgress (progress : BatchProgress) : t.Writes (writeProgress { t with progress } m) := by
  unfold Writes writeProgress
  cases m.saved with
  | false => exact .inl rfl
  | true => exact .inr rfl

theorem writes_call (c : Call) : t.Writes (t.call m c) := by
  cases c with
  | startVm vmId => exact t.writes_writeProgress m _
  | updateVmStage vmId stage =>
    simp only [call, updateVmStage]
    split
    · exact t.writes_writeProgress m _
    · exact .inl rfl
  | completeVm vmId success error =>
    simp only [call, completeVm]
    split
    · exact t.writes_writeProgress m _
    · exact .inl rfl

@[simp] theorem totalVms_call (c : Call) : (t.call m c).progress.totalVms = t.progress.totalVms := by
  cases c with
  | startVm vmId => simp [call, startVm, record]
  | updateVmStage vmId stage =>
    simp only [call, updateVmStage]
    split <;> simp [record]
  | completeVm vmId success error =>
    simp only [call, completeVm]
    split <;> simp [record]

theorem mem_doneIds_record (vmId : String) (vm : VMProgress) (updatedAt : ℚ) (id : String) :
    id ∈ (t.record m vmId vm updatedAt).progress.doneIds ↔
      if id = vmId then vm.status.isDone = true else id ∈ t.progress.doneIds := by
  simp only [record, writeProgress_progress, BatchProgress.mem_doneIds]
  split
  · next h =>
    subst h
    simp [AList.lookup_insert]
  · next h => rw [AList.lookup_insert_ne h]

theorem mem_vms_record (vmId : String) (vm : VMProgress) (updatedAt : ℚ) (id : String) :
    id ∈ (t.record m vmId vm updatedAt).progress.vms ↔ id = vmId ∨ id ∈ t.progress.vms := by
  simp only [record, writeProgress_progress]
  exact AList.mem_insert _

theorem lookup_eq_none_of {id : String} (h : t.progress.vms.lookup id = none) : id ∉ t.progress.vms :=
  AList.lookup_eq_none.mp h

theorem mem_of_lookup {id : String} {vm : VMProgress} (h : t.progress.vms.lookup id = some vm) : id ∈ t.progress.vms :=
  AList.lookup_isSome.mp (by rw [h]; rfl)

theorem mem_vms_call (c : Call) (id : String) :
    id ∈ (t.call m c).progress.vms ↔ id ∈ t.progress.vms ∨ c = .startVm id := by
  cases c with
  | startVm vmId =>
    rw [call, startVm, mem_vms_record, Call.startVm.injEq, or_comm, eq_comm (a := id)]
  | updateVmStage vmId stage =>
    simp only [call, updateVmStage]
    split
    · next vm found =>
      rw [mem_vms_record]
      have := t.mem_of_lookup found
      grind
    · simp
  | completeVm vmId success error =>
    simp only [call, completeVm]
    split
    · next vm found =>
      rw [mem_vms_record]
      have := t.mem_of_lookup found
      grind
    · simp

/-- What a call does to the VMs that count as processed. -/
theorem mem_doneIds_call (c : Call) (id : String) :
    id ∈ (t.call m c).progress.doneIds ↔
      (id ∈ t.progress.doneIds ∧ c ≠ .startVm id) ∨ c.Completes id ∧ id ∈ t.progress.vms := by
  cases c with
  | startVm vmId =>
    rw [call, startVm, mem_doneIds_record]
    simp only [VMStatus.isDone, Call.Completes]
    grind
  | updateVmStage vmId stage =>
    simp only [call, updateVmStage]
    split
    · next vm found =>
      rw [mem_doneIds_record]
      have : vmId ∈ t.progress.doneIds ↔ vm.status.isDone = true := by
        rw [BatchProgress.mem_doneIds, found]
        simp
      simp only [Call.Completes]
      grind
    · simp [Call.Completes]
  | completeVm vmId success error =>
    simp only [call, completeVm]
    split
    · next vm found =>
      rw [mem_doneIds_record]
      have := t.mem_of_lookup found
      have : (completed m vm success error).status.isDone = true := by cases success <;> rfl
      simp only [Call.Completes]
      grind
    · next missing =>
      have := t.lookup_eq_none_of missing
      simp only [Call.Completes]
      grind [BatchProgress.mem_vms_of_mem_doneIds]

theorem notMem_doneIds_skipVm (vmId reason : String) : vmId ∉ (t.skipVm m vmId reason).progress.doneIds := by
  simp [skipVm, mem_doneIds_record, VMStatus.isDone]

end ProgressTracker

end tracker

end progress

section progressAccounting

section percentage

namespace BatchProgress

variable {p p' : BatchProgress} {total : Nat}

theorem percentage_nonneg (h : p.totalVms = total) : 0 ≤ p.getCompletionPercentage := by
  rw [getCompletionPercentage_eq, h]
  positivity

theorem percentage_le (h : p.totalVms = total) (le : p.doneIds.card ≤ total) : p.getCompletionPercentage ≤ 100 := by
  rw [getCompletionPercentage_eq, h]
  have ratio : (p.doneIds.card : ℚ) / (total : Int) ≤ 1 := by
    apply div_le_one_of_le₀
    · exact_mod_cast le
    · positivity
  linarith

theorem percentage_mono (h : p.totalVms = p'.totalVms) (nonneg : 0 ≤ p.totalVms) (more : p.doneIds ⊆ p'.doneIds) :
    p.getCompletionPercentage ≤ p'.getCompletionPercentage := by
  rw [getCompletionPercentage_eq, getCompletionPercentage_eq, ← h]
  have card : (p.doneIds.card : ℚ) ≤ p'.doneIds.card := by exact_mod_cast Finset.card_le_card more
  have total : (0 : ℚ) ≤ p.totalVms := by exact_mod_cast nonneg
  gcongr

theorem percentage_eq_hundred_iff (h : p.totalVms = total) (pos : 0 < total) :
    p.getCompletionPercentage = 100 ↔ p.doneIds.card = total := by
  rw [getCompletionPercentage_eq, h]
  have total_ne : (total : ℚ) ≠ 0 := by positivity
  rw [Int.cast_natCast]
  constructor
  · intro full
    have : (p.doneIds.card : ℚ) / total = 1 := by linarith
    exact_mod_cast (div_eq_one_iff_eq total_ne).mp this
  · intro full
    rw [full, div_self total_ne, one_mul]

end BatchProgress

end percentage

section processed

/-- A VM is processed by calls that complete it after its last start. -/
def Processed (calls : List Call) (id : String) : Prop :=
  ∃ before after, calls = before ++ after ∧ .startVm id ∈ before ∧ (∃ c ∈ after, c.Completes id) ∧ .startVm id ∉ after

variable {calls : List Call} {c : Call} {id : String}

theorem processed_of_concat (h : Processed (calls ++ [c]) id) :
    (Processed calls id ∧ c ≠ .startVm id) ∨ c.Completes id ∧ .startVm id ∈ calls := by
  obtain ⟨before, after, split, started, ⟨d, mem, completes⟩, last⟩ := h
  rcases List.eq_nil_or_concat after with rfl | ⟨after, e, rfl⟩
  · simp at mem
  · rw [List.concat_eq_append, ← List.append_assoc] at split
    obtain ⟨rfl, same⟩ := List.append_inj' split rfl
    cases same
    rw [List.concat_eq_append, List.mem_append, List.mem_singleton] at mem last
    push Not at last
    rcases mem with mem | rfl
    · exact .inl ⟨⟨before, after, rfl, started, ⟨d, mem, completes⟩, last.1⟩, Ne.symm last.2⟩
    · exact .inr ⟨completes, List.mem_append_left _ started⟩

theorem Processed.concat (h : Processed calls id) (other : c ≠ .startVm id) : Processed (calls ++ [c]) id := by
  obtain ⟨before, after, rfl, started, ⟨d, mem, completes⟩, last⟩ := h
  refine ⟨before, after ++ [c], List.append_assoc .., started, ⟨d, List.mem_append_left _ mem, completes⟩, ?_⟩
  rw [List.mem_append, List.mem_singleton]
  push Not
  exact ⟨last, Ne.symm other⟩

theorem processed_concat_completes (completes : c.Completes id) (started : .startVm id ∈ calls) :
    Processed (calls ++ [c]) id := by
  -- the last start is the first one of the reversed calls
  obtain ⟨later, earlier, split, last⟩ := List.eq_append_cons_of_mem (List.mem_reverse.mpr started)
  refine ⟨earlier.reverse ++ [.startVm id], later.reverse ++ [c], ?_, by simp, ⟨c, by simp, completes⟩, ?_⟩
  · rw [← List.reverse_reverse calls, split]
    simp
  · rw [List.mem_append, List.mem_reverse, List.mem_singleton]
    push Not
    refine ⟨last, ?_⟩
    rintro rfl
    exact completes

theorem processed_concat :
    Processed (calls ++ [c]) id ↔ (Processed calls id ∧ c ≠ .startVm id) ∨ c.Completes id ∧ .startVm id ∈ calls := by
  constructor
  · exact processed_of_concat
  · rintro (⟨processed, other⟩ | ⟨completes, started⟩)
    · exact processed.concat other
    · exact processed_concat_completes completes started

end processed

namespace ProgressTracker

variable (t : ProgressTracker) (calls : List (Call × Moment))

theorem calls_concat (c : Call × Moment) : t.calls (calls ++ [c]) = (t.calls calls).call c.2 c.1 := by
  simp [ProgressTracker.calls]

@[simp] theorem totalVms_calls : (t.calls calls).progress.totalVms = t.progress.totalVms := by
  induction calls using List.reverseRecOn with
  | nil => rfl
  | append_singleton calls c ih => rw [calls_concat, totalVms_call, ih]

variable {t} (empty : t.progress.vms = ∅)
include empty

theorem mem_vms_calls (id : String) : id ∈ (t.calls calls).progress.vms ↔ .startVm id ∈ calls.map Prod.fst := by
  induction calls using List.reverseRecOn with
  | nil => simp [ProgressTracker.calls, empty]
  | append_singleton calls c ih => simp [calls_concat, mem_vms_call, ih, eq_comm]

/-- The VMs a fresh tracker counts as processed are those that its calls process. -/
theorem mem_doneIds_calls (id : String) : id ∈ (t.calls calls).progress.doneIds ↔ Processed (calls.map Prod.fst) id := by
  induction calls using List.reverseRecOn with
  | nil =>
    have : ¬ Processed [] id := by
      rintro ⟨before, after, split, started, -⟩
      obtain ⟨rfl, -⟩ := List.append_eq_nil_iff.mp split.symm
      simp at started
    simp [ProgressTracker.calls, BatchProgress.mem_doneIds, empty, this]
  | append_singleton calls c ih =>
    rw [calls_concat, mem_doneIds_call, ih, mem_vms_calls calls empty, List.map_append, List.map_singleton, processed_concat]

omit empty in
theorem processed_started {calls : List Call} {id : String} (h : Processed calls id) : .startVm id ∈ calls := by
  obtain ⟨before, after, rfl, started, -⟩ := h
  exact List.mem_append_left _ started

end ProgressTracker

section written

namespace ProgressTracker

/-- The percentages written so far grow up to the one the tracker stands at. -/
def Grows (t : ProgressTracker) : Prop :=
  t.written.Pairwise (· ≤ ·) ∧ ∀ q ∈ t.written, q ≤ t.progress.getCompletionPercentage

def InRange (t : ProgressTracker) : Prop := ∀ q ∈ t.written, 0 ≤ q ∧ q ≤ 100

variable {t t' : ProgressTracker}

theorem Grows.step (h : t.Grows) (writes : t.Writes t')
    (le : t.progress.getCompletionPercentage ≤ t'.progress.getCompletionPercentage) : t'.Grows := by
  obtain ⟨ordered, below⟩ := h
  have below : ∀ q ∈ t.written, q ≤ t'.progress.getCompletionPercentage := fun q mem => (below q mem).trans le
  rcases writes with writes | writes
  · exact ⟨writes ▸ ordered, writes ▸ below⟩
  · constructor
    · rw [writes, List.pairwise_append]
      exact ⟨ordered, List.pairwise_singleton _ _, by simpa using below⟩
    · rw [writes]
      simpa [or_imp, forall_and] using below

theorem InRange.step {total : Nat} (h : t.InRange) (writes : t.Writes t') (totalVms : t'.progress.totalVms = total)
    (card : t'.progress.doneIds.card ≤ total) : t'.InRange := by
  have range := And.intro (BatchProgress.percentage_nonneg totalVms) (BatchProgress.percentage_le totalVms card)
  rcases writes with writes | writes
  · unfold InRange
    rwa [writes]
  · intro q mem
    rw [writes, List.mem_append, List.mem_singleton] at mem
    rcases mem with mem | rfl
    · exact h q mem
    · exact range

end ProgressTracker

end written

section run

/-- The VMs `run` goes on with: the enabled ones that the checkpoint, if there is one, does not name. -/
def remaining (loaderVms : List VMBatchItem) (checkpoint : Option Checkpoint) : List VMBatchItem :=
  match checkpoint with
  | some cp => (getVms loaderVms).filter fun vm => !cp.shouldSkipVm vm.id
  | none => getVms loaderVms

/-- A call of `run` that makes a tracker: what the loader holds, the checkpoint it finds, the calls
of the tracker in the order they are made, and the end, which a run that raises does not reach. -/
structure Run where
  batchId : String
  loaderVms : List VMBatchItem
  checkpoint : Option Checkpoint
  opened : Moment
  calls : List (Call × Moment)
  completed : Option Moment
  some_remaining : remaining loaderVms checkpoint ≠ []
  of_remaining : ∀ c ∈ calls, c.1.vmId ∈ (remaining loaderVms checkpoint).map VMBatchItem.id

namespace Run

variable (r : Run)

def total : Nat := (getVms r.loaderVms).length

/-- The tracker before the end of the run. -/
def tracker : ProgressTracker := (ProgressTracker.create r.opened r.batchId r.total).calls r.calls

/-- The percentages in the progress files of the run. -/
def written : List ℚ :=
  match r.completed with
  | some m => (r.tracker.completeBatch m).written
  | none => r.tracker.written

/-- The percentage `complete_batch` writes, where it does. -/
def finalWrite : Option ℚ :=
  match r.completed with
  | some m => if m.saved then some (r.tracker.completeBatch m).progress.getCompletionPercentage else none
  | none => none

def FinalSaved : Prop := ∃ m, r.completed = some m ∧ m.saved = true

/-- The checkpoint names the VM, so an earlier run processed it. -/
def Named (vm : VMBatchItem) : Prop := ∃ cp, r.checkpoint = some cp ∧ cp.shouldSkipVm vm.id = true

/-- Every enabled VM was processed by an earlier run or by this one. -/
def AllProcessed : Prop := ∀ vm ∈ getVms r.loaderVms, r.Named vm ∨ Processed (r.calls.map Prod.fst) vm.id

def StartsOnce : Prop := ∀ id, (r.calls.map Prod.fst).count (.startVm id) ≤ 1

/-- The accounting of a run. -/
def Accounted : Prop :=
  (∀ q ∈ r.written, 0 ≤ q ∧ q ≤ 100) ∧ (r.StartsOnce → r.written.Pairwise (· ≤ ·)) ∧
    (r.AllProcessed → ∀ q ∈ r.finalWrite, q = 100)

/-- The tracker counts to the VMs that this run goes on with. -/
def CountsAll : Prop := (∀ vm ∈ getVms r.loaderVms, ¬ r.Named vm) ∧ ((getVms r.loaderVms).map VMBatchItem.id).Nodup

variable {r}

theorem mem_remaining {vm : VMBatchItem} :
    vm ∈ remaining r.loaderVms r.checkpoint ↔ vm ∈ getVms r.loaderVms ∧ ¬ r.Named vm := by
  unfold remaining Named
  cases r.checkpoint with
  | none => simp
  | some cp => simp

/-- The ids of the VMs this run goes on with. -/
def ids (r : Run) : Finset String := ((remaining r.loaderVms r.checkpoint).map VMBatchItem.id).toFinset

theorem remaining_sublist : (remaining r.loaderVms r.checkpoint).Sublist (getVms r.loaderVms) := by
  unfold remaining
  cases r.checkpoint with
  | none => exact .refl _
  | some cp => exact List.filter_sublist

theorem remaining_eq_iff :
    remaining r.loaderVms r.checkpoint = getVms r.loaderVms ↔ ∀ vm ∈ getVms r.loaderVms, ¬ r.Named vm := by
  unfold remaining Named
  cases r.checkpoint with
  | none => simp
  | some cp => simp [List.filter_eq_self]

theorem card_ids_le_length : r.ids.card ≤ (remaining r.loaderVms r.checkpoint).length := by
  have := List.toFinset_card_le ((remaining r.loaderVms r.checkpoint).map VMBatchItem.id)
  rwa [List.length_map] at this

theorem card_ids_le : r.ids.card ≤ r.total := card_ids_le_length.trans remaining_sublist.length_le

theorem card_ids_eq_iff : r.ids.card = r.total ↔ r.CountsAll := by
  constructor
  · intro card
    have whole : remaining r.loaderVms r.checkpoint = getVms r.loaderVms :=
      remaining_sublist.eq_of_length (le_antisymm remaining_sublist.length_le (card.symm.le.trans card_ids_le_length))
    refine ⟨remaining_eq_iff.mp whole, ?_⟩
    rw [ids, whole] at card
    rw [← Multiset.coe_nodup, ← Multiset.toFinset_card_eq_card_iff_nodup, Multiset.coe_card, List.length_map]
    exact card
  · rintro ⟨unnamed, nodup⟩
    rw [ids, remaining_eq_iff.mpr unnamed, List.toFinset_card_of_nodup nodup, List.length_map, total]

theorem total_pos : 0 < r.total :=
  (List.length_pos_of_ne_nil r.some_remaining).trans_le remaining_sublist.length_le

section tracker

variable (r)

/-- The tracker as `run` makes it. -/
def fresh : ProgressTracker := .create r.opened r.batchId r.total

@[simp] theorem fresh_vms : r.fresh.progress.vms = ∅ := by simp [fresh, ProgressTracker.create]

@[simp] theorem fresh_totalVms : r.fresh.progress.totalVms = r.total := by simp [fresh, ProgressTracker.create]

theorem tracker_eq : r.tracker = r.fresh.calls r.calls := rfl

@[simp] theorem totalVms_tracker : r.tracker.progress.totalVms = r.total := by simp [tracker_eq]

theorem mem_doneIds_tracker (id : String) : id ∈ r.tracker.progress.doneIds ↔ Processed (r.calls.map Prod.fst) id :=
  ProgressTracker.mem_doneIds_calls r.calls r.fresh_vms id

/-- Only VMs that the run goes on with are counted, after any of its calls. -/
theorem doneIds_subset_ids (before : List (Call × Moment)) (some_calls : before <+: r.calls) :
    (r.fresh.calls before).progress.doneIds ⊆ r.ids := by
  intro id done
  have started := ProgressTracker.processed_started ((ProgressTracker.mem_doneIds_calls before r.fresh_vms id).mp done)
  obtain ⟨c, mem, start⟩ := List.mem_map.mp started
  have of_remaining := r.of_remaining c (some_calls.subset mem)
  rw [start] at of_remaining
  exact List.mem_toFinset.mpr of_remaining

theorem doneIds_tracker (all : r.AllProcessed) : r.tracker.progress.doneIds = r.ids := by
  apply (r.doneIds_subset_ids r.calls (List.prefix_refl _)).antisymm
  intro id mem
  obtain ⟨vm, remains, rfl⟩ := List.mem_map.mp (List.mem_toFinset.mp mem)
  obtain ⟨enabled, unnamed⟩ := mem_remaining.mp remains
  exact (r.mem_doneIds_tracker vm.id).mpr ((all vm enabled).resolve_left unnamed)

theorem doneIds_fresh : r.fresh.progress.doneIds = ∅ := by
  apply Finset.eq_empty_of_forall_notMem
  intro id mem
  have := BatchProgress.mem_vms_of_mem_doneIds mem
  simp at this

/-- The first file is written by a tracker that has written none. -/
theorem writes_fresh : ∃ blank : ProgressTracker,
    blank.written = [] ∧ blank.progress = r.fresh.progress ∧ blank.Writes r.fresh :=
  ⟨{ progress := r.fresh.progress }, rfl, rfl, by
    simpa [fresh, ProgressTracker.create] using
      ProgressTracker.writes_writeProgress { progress := r.fresh.progress } r.opened _⟩

theorem inRange_calls (before : List (Call × Moment)) (some_calls : before <+: r.calls) :
    (r.fresh.calls before).InRange := by
  induction before using List.reverseRecOn with
  | nil =>
    obtain ⟨blank, none_written, -, writes⟩ := r.writes_fresh
    have blank_inRange : blank.InRange := by simp [ProgressTracker.InRange, none_written]
    have card : r.fresh.progress.doneIds.card ≤ r.total := by simp [doneIds_fresh]
    exact blank_inRange.step writes r.fresh_totalVms card
  | append_singleton before c ih =>
    have range := ih ((List.prefix_append before [c]).trans some_calls)
    have card := (Finset.card_le_card (r.doneIds_subset_ids _ some_calls)).trans card_ids_le
    rw [ProgressTracker.calls_concat] at card ⊢
    exact range.step (ProgressTracker.writes_call _ _ _) (by simp) card

theorem grows_calls (once : r.StartsOnce) (before : List (Call × Moment)) (some_calls : before <+: r.calls) :
    (r.fresh.calls before).Grows := by
  induction before using List.reverseRecOn with
  | nil =>
    obtain ⟨blank, none_written, same, writes⟩ := r.writes_fresh
    have blank_grows : blank.Grows := by simp [ProgressTracker.Grows, none_written]
    exact blank_grows.step writes (by rw [same]; exact le_rfl)
  | append_singleton before c ih =>
    have grows := ih ((List.prefix_append before [c]).trans some_calls)
    rw [ProgressTracker.calls_concat]
    apply grows.step (ProgressTracker.writes_call _ _ _)
    apply BatchProgress.percentage_mono (by simp) (by simp)
    intro id done
    refine (ProgressTracker.mem_doneIds_call _ _ _ _).mpr (.inl ⟨done, ?_⟩)
    intro start
    have started := ProgressTracker.processed_started ((ProgressTracker.mem_doneIds_calls before r.fresh_vms id).mp done)
    have twice : 2 ≤ ((before ++ [c]).map Prod.fst).count (.startVm id) := by
      simp only [List.map_append, List.map_singleton, List.count_append, start, List.count_singleton_self]
      have := List.count_pos_iff.mpr started
      omega
    have := (some_calls.map Prod.fst).sublist.count_le (.startVm id)
    have := once id
    omega

/-- The end of the run writes the percentage the tracker stands at. -/
theorem completeBatch_writes (m : Moment) : r.tracker.Writes (r.tracker.completeBatch m) :=
  ProgressTracker.writes_writeProgress _ _ _

@[simp] theorem doneIds_completeBatch (m : Moment) :
    (r.tracker.completeBatch m).progress.doneIds = r.tracker.progress.doneIds := by
  simp [ProgressTracker.completeBatch, BatchProgress.doneIds]

@[simp] theorem totalVms_completeBatch (m : Moment) : (r.tracker.completeBatch m).progress.totalVms = r.total := by
  simp [ProgressTracker.completeBatch]

theorem written_inRange : ∀ q ∈ r.written, 0 ≤ q ∧ q ≤ 100 := by
  have range : r.tracker.InRange := r.inRange_calls r.calls (List.prefix_refl _)
  unfold written
  cases r.completed with
  | none => exact range
  | some m =>
    apply range.step (r.completeBatch_writes m) (r.totalVms_completeBatch m)
    rw [doneIds_completeBatch]
    exact (Finset.card_le_card (r.doneIds_subset_ids r.calls (List.prefix_refl _))).trans card_ids_le

theorem written_ordered (once : r.StartsOnce) : r.written.Pairwise (· ≤ ·) := by
  have grows : r.tracker.Grows := r.grows_calls once r.calls (List.prefix_refl _)
  unfold written
  cases r.completed with
  | none => exact grows.1
  | some m =>
    refine (grows.step (r.completeBatch_writes m) ?_).1
    exact BatchProgress.percentage_mono (by simp) (by simp) (by simp)

/-- With everything processed, the end writes 100 where the tracker counts to the VMs it goes on with. -/
theorem finalWrite_iff (all : r.AllProcessed) : (∀ q ∈ r.finalWrite, q = 100) ↔ (r.FinalSaved → r.CountsAll) := by
  have full (m : Moment) : (r.tracker.completeBatch m).progress.getCompletionPercentage = 100 ↔ r.CountsAll := by
    rw [BatchProgress.percentage_eq_hundred_iff (r.totalVms_completeBatch m) total_pos, doneIds_completeBatch,
      r.doneIds_tracker all, card_ids_eq_iff]
  unfold finalWrite FinalSaved
  cases r.completed with
  | none => simp
  | some m => cases m.saved <;> simp [full]

end tracker

end Run

/-- The percentages a run writes stay between 0 and 100 and, with no VM started twice, never fall; the
last one is 100 once everything is processed, unless an earlier run did a part of it or two VMs
share an id; and a progress is restored from its dictionary. -/
theorem accounted_iff (r : Run) :
    (r.Accounted ↔ (r.AllProcessed → r.FinalSaved → r.CountsAll)) ∧ ∀ p, BatchProgress.fromDict p.toDict = some p := by
  refine ⟨?_, BatchProgress.fromDict_toDict⟩
  constructor
  · rintro ⟨-, -, final⟩ all
    exact (r.finalWrite_iff all).mp (final all)
  · intro condition
    exact ⟨r.written_inRange, r.written_ordered, fun all => (r.finalWrite_iff all).mpr (condition all)⟩

/-- The second run over two VMs, of which the first run processed one. -/
def resumed : Run where
  batchId := "q"
  loaderVms := [{ index := 0, manifestPath := "/a", id := "a" }, { index := 1, manifestPath := "/b", id := "b" }]
  checkpoint := some ⟨"q", ["a"], [], 2, 1⟩
  opened := ⟨fun _ => 1, true⟩
  calls := [(.startVm "b", ⟨fun _ => 1, true⟩), (.completeVm "b" true none, ⟨fun _ => 2, true⟩)]
  completed := some ⟨fun _ => 3, true⟩
  some_remaining := by decide
  of_remaining := by decide

theorem getVms_resumed : getVms resumed.loaderVms = resumed.loaderVms := by decide

theorem resumed_allProcessed : resumed.AllProcessed := by
  intro vm mem
  rw [getVms_resumed] at mem
  simp only [resumed, List.mem_cons, List.not_mem_nil, or_false] at mem
  rcases mem with rfl | rfl
  · exact .inl ⟨_, rfl, by decide⟩
  · exact .inr ⟨[.startVm "b"], [.completeVm "b" true none], rfl, by simp, ⟨_, List.mem_singleton_self _, rfl⟩, by simp⟩

/-- A resumed run that ends with everything processed writes less than 100. -/
theorem not_accounted_resumed : ¬ resumed.Accounted := by
  rintro ⟨-, -, final⟩
  have counts := (resumed.finalWrite_iff resumed_allProcessed).mp (final resumed_allProcessed) ⟨_, rfl, rfl⟩
  apply counts.1 { index := 0, manifestPath := "/a", id := "a" }
  · rw [getVms_resumed]
    exact List.mem_cons_self
  · exact ⟨_, rfl, by decide⟩

end run

end progressAccounting

end H2kvm.Batch.Progress
