import H2kvm.Framework.Data

namespace H2kvm.Worker

open Framework

/-- A naive UTC `datetime`, in microseconds since the epoch. -/
abbrev Datetime := Int

/-- Job lifecycle states. -/
inductive JobState where
  | created
  | validated
  | queued
  | assigned
  | running
  | progressing
  | completed
  | failed
  | cancelled
  | retrying
  deriving DecidableEq, Repr

namespace JobState

/-- `JobState.value`: the string an enum member stands for. -/
def value : JobState → String
  | .created => "Created"
  | .validated => "Validated"
  | .queued => "Queued"
  | .assigned => "Assigned"
  | .running => "Running"
  | .progressing => "Progressing"
  | .completed => "Completed"
  | .failed => "Failed"
  | .cancelled => "Cancelled"
  | .retrying => "Retrying"

def all : List JobState :=
  [.created, .validated, .queued, .assigned, .running, .progressing, .completed, .failed,
    .cancelled, .retrying]

/-- `JobState(s)`; no member of that value is Python's `ValueError`. -/
def ofValue (s : String) : Option JobState := all.find? fun st => st.value = s

@[simp] theorem ofValue_value (st : JobState) : ofValue st.value = some st := by
  cases st <;> rfl

end JobState

/-- Supported operation types. -/
inductive OperationType where
  | inspect
  | convert
  | offlineFix
  | bootRepair
  | selinuxPrep
  | lvmRepair
  | fsRepair
  | initramfsRegen
  deriving DecidableEq, Repr

def OperationType.value : OperationType → String
  | .inspect => "inspect"
  | .convert => "convert"
  | .offlineFix => "offline_fix"
  | .bootRepair => "boot_repair"
  | .selinuxPrep => "selinux_prep"
  | .lvmRepair => "lvm_repair"
  | .fsRepair => "fs_repair"
  | .initramfsRegen => "initramfs_regenerate"

def validFormats : List String := ["qcow2", "vmdk", "raw", "vdi", "vhd", "vhdx"]

/-- Disk image specification. -/
structure ImageSpec where
  path : String
  format : Option String
  checksum : Option String
  sizeBytes : Option Nat
  format_valid : ∀ f ∈ format, f ∈ validFormats
  deriving DecidableEq

/-- Job capability requirements. -/
structure CapabilityRequirements where
  needsNbd : Bool := false
  needsLvm : Bool := false
  needsMount : Bool := false
  needsSelinuxTools : Bool := false
  minMemoryGb : Option Nat := none
  minDiskSpaceGb : Option Nat := none
  memory_pos : ∀ n ∈ minMemoryGb, 1 ≤ n := by simp
  disk_pos : ∀ n ∈ minDiskSpaceGb, 1 ≤ n := by simp
  deriving DecidableEq

/-- Job execution policy, with the bounds its fields are validated against. -/
structure ExecutionPolicy where
  retryCount : Nat := 0
  timeoutSeconds : Nat := 7200
  idempotent : Bool := true
  priority : Nat := 5
  retry_le : retryCount ≤ 5 := by decide
  timeout_bounds : 60 ≤ timeoutSeconds ∧ timeoutSeconds ≤ 86400 := by decide
  priority_bounds : 1 ≤ priority ∧ priority ≤ 10 := by decide
  deriving DecidableEq

/-- Artifact storage configuration. -/
structure ArtifactConfig where
  logUpload : Bool := true
  storeFixedImage : Bool := true
  outputPath : String
  keepIntermediates : Bool := false
  deriving DecidableEq

/-- Audit trail information. -/
structure AuditInfo where
  requestedBy : String
  ticket : Option String := none
  tags : Option (List (String × String)) := none
  deriving DecidableEq

/-- Complete job specification. -/
structure JobSpec where
  version : String := "1.0"
  jobId : String
  createdAt : Datetime
  operation : OperationType
  image : ImageSpec
  requestedActions : List String := []
  capabilityRequirements : CapabilityRequirements := {}
  executionPolicy : ExecutionPolicy := {}
  artifacts : ArtifactConfig
  audit : AuditInfo
  parameters : Option (List (String × Json)) := none
  deriving DecidableEq

/-- `create_sample_job_spec`; the fresh UUID and the clock are arguments. -/
def createSampleJobSpec (jobId : String) (now : Datetime) (imagePath outputDir : String)
    (operation : OperationType) : JobSpec :=
  { jobId, createdAt := now, operation
    image := ⟨imagePath, some "qcow2", none, none, by simp [validFormats]⟩
    artifacts := { outputPath := outputDir }
    audit := { requestedBy := "test-user" } }

/-- Progress event emitted during job execution. -/
structure ProgressEvent where
  jobId : String
  timestamp : Datetime
  phase : String
  progressPercent : Nat
  message : String
  details : Option (List (String × Json)) := none
  percent_le : progressPercent ≤ 100 := by decide
  deriving DecidableEq

/-- The part of a worker's advertisement that job matching reads. -/
structure WorkerCapabilities where
  workerId : String
  capabilities : Dict String Bool

end H2kvm.Worker
