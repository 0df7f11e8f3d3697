import H2kvm.Framework.Objects
import H2kvm.Framework.Run

namespace H2kvm.Operator

open Framework

inductive Phase where
  | unset
  | pending
  | uploading
  | converting
  | fixing
  | creatingVM
  | ready
  | failed
  deriving DecidableEq

/-- `metav1.Condition`. -/
structure Condition where
  type : String
  status : Bool
  reason : String
  message : String
  lastTransitionTime : Nat
  deriving DecidableEq

/-- `meta.SetStatusCondition`: a condition of the same type is replaced, and keeps its time unless its
status changes. -/
def setStatusCondition (conditions : List Condition) (new : Condition) : List Condition :=
  if conditions.any (fun c => c.type == new.type) then
    conditions.map fun c =>
      if c.type = new.type then
        { new with lastTransitionTime :=
            if c.status = new.status then c.lastTransitionTime else new.lastTransitionTime }
      else c
  else conditions ++ [new]

structure UploadProgressStatus where
  lastUpdateTime : Option Nat := none
  deriving DecidableEq

structure Status where
  phase : Phase := .unset
  progress : Int := 0
  dataVolumeName : String := ""
  fixerJobName : String := ""
  virtualMachineName : String := ""
  uploadProgress : Option UploadProgressStatus := none
  startTime : Option Nat := none
  completionTime : Option Nat := none
  conditions : List Condition := []
  message : String := ""
  deriving DecidableEq

structure SourceSpec where
  url : String
  format : String := "qcow2"

structure VMSpec where
  name : String := ""

structure ConversionOptions where
  offlineFixes : Bool := false
  timeout : Int := 60

structure Spec where
  source : SourceSpec
  vm : Option VMSpec := none
  conversion : Option ConversionOptions := none

structure HyperConversion where
  name : String
  inNamespace : String
  uid : String
  finalizers : List String := []
  deletionTimestamp : Option Nat := none
  spec : Spec
  status : Status := {}

structure DataVolume where
  owner : Option String
  phase : String := ""
  progress : String := ""
  conditions : List (String × String) := []

structure JobCondition where
  type : String
  status : Bool
  message : String

structure Job where
  owner : Option String
  claimName : String
  diskFormat : String
  conditions : List JobCondition := []
  startTime : Option Nat := none
  active : Int := 0

structure VirtualMachine where
  owner : Option String
  rootDisk : String

inductive Kind where
  | dataVolume
  | job
  | virtualMachine
  deriving DecidableEq

inductive Use where
  | recorded
  | mounted
  | deleted
  deriving DecidableEq

/-- An object the reconciler has recorded, mounted or deleted, with the controller owner it had then. -/
structure Touch where
  use : Use
  kind : Kind
  name : String
  owner : Option String
  deriving DecidableEq

/-- The namespace of one HyperConversion. -/
structure Namespace where
  hyperConversion : Option HyperConversion
  dataVolumes : Objects DataVolume
  jobs : Objects Job
  virtualMachines : Objects VirtualMachine
  now : Nat
  touched : List Touch := []

/-- How the API server answers each call a single Reconcile can make. -/
structure Api where
  getHyperConversion : Answer := .ok
  update : Answer := .ok
  statusUpdate : Answer := .ok
  createDataVolume : Answer := .ok
  getDataVolume : Answer := .ok
  deleteDataVolume : Answer := .ok
  createJob : Answer := .ok
  getJob : Answer := .ok
  deleteJob : Answer := .ok
  createVirtualMachine : Answer := .ok
  getVirtualMachine : Answer := .ok
  getExistingVirtualMachine : Answer := .ok
  deleteVirtualMachine : Answer := .ok

/-- `ctrl.Result` with its error. -/
inductive Result where
  | done
  | requeue
  | requeueAfter (seconds : Nat)
  | error (text : String)
  deriving DecidableEq

/-- What the operator reads besides the API: `FIXER_IMAGE`, and `Sscanf` of a percentage, halved. -/
structure Env where
  fixerImage : String := ""
  scanProgress : String → Option Int

def hyperConversionFinalizer : String := "h2kvm.io/hyperconversion-finalizer"

namespace HyperConversion

def dataVolumeName (hc : HyperConversion) : String := hc.name ++ "-dv"

def fixerJobName (hc : HyperConversion) : String := hc.name ++ "-fixer"

def virtualMachineName (hc : HyperConversion) (vm : VMSpec) : String := if vm.name = "" then hc.name else vm.name

def timeoutMinutes (hc : HyperConversion) : Int :=
  match hc.spec.conversion with
  | some c => if 0 < c.timeout then c.timeout else 60
  | none => 60

def timedOut (hc : HyperConversion) (start : Option Nat) (now : Nat) : Bool :=
  start.any fun t => decide (hc.timeoutMinutes * 60 < (now : Int) - t)

end HyperConversion

inductive JobVerdict where
  | complete
  | failed (message : String)
  deriving DecidableEq

/-- The loop over the conditions of the fixer Job: the first one that decides it. -/
def Job.verdict (job : Job) : Option JobVerdict :=
  job.conditions.findSome? fun c =>
    if c.type = "Complete" ∧ c.status = true then some .complete
    else if c.type = "Failed" ∧ c.status = true then some (.failed c.message)
    else none

/-- The message of the `Running` condition of an import that failed. -/
def DataVolume.failureMessage (dv : DataVolume) : String :=
  match dv.conditions.find? fun c => c.1 == "Running" && c.2 != "" with
  | some c => "DataVolume import failed: " ++ c.2
  | none => "DataVolume import failed"

/-- `getFixerImage`. -/
def Env.getFixerImage (env : Env) : String :=
  if env.fixerImage = "" then "ghcr.io/ssahani/h2kvm-fixer:0.3.0" else env.fixerImage

def validFormats : List String := ["qcow2", "raw", "vmdk", "vhd", "vhdx"]

/-- The names a status records. -/
def Status.names (st : Status) : List (Kind × String) :=
  [(.dataVolume, st.dataVolumeName), (.job, st.fixerJobName), (.virtualMachine, st.virtualMachineName)]

namespace Namespace

/-- The controller owner of an object, if the object exists. -/
def ownerOf (ns : Namespace) (kind : Kind) (name : String) : Option (Option String) :=
  match kind with
  | .dataVolume => (ns.dataVolumes name).map (·.owner)
  | .job => (ns.jobs name).map (·.owner)
  | .virtualMachine => (ns.virtualMachines name).map (·.owner)

def touch (ns : Namespace) (use : Use) (kind : Kind) (name : String) : Namespace :=
  match ns.ownerOf kind name with
  | some owner => { ns with touched := ns.touched ++ [⟨use, kind, name, owner⟩] }
  | none => ns

/-- The names a new status records that the stored one did not. -/
def newNames (ns : Namespace) (st : Status) : List (Kind × String) :=
  let old := ns.hyperConversion.elim [] (·.status.names)
  st.names.filter fun n => n.2 != "" && !old.contains n

def storeStatus (ns : Namespace) (st : Status) : Namespace :=
  { ns with hyperConversion := ns.hyperConversion.map fun hc => { hc with status := st } }

/-- `r.Status().Update`. -/
def statusUpdate (api : Api) (ns : Namespace) (st : Status) : Namespace × Option String :=
  (if api.statusUpdate.applied then
    ((ns.newNames st).foldl (fun ns n => ns.touch .recorded n.1 n.2) ns).storeStatus st
  else ns, api.statusUpdate.error?)

/-- A status write whose error ends the Reconcile. -/
def write (api : Api) (ns : Namespace) (st : Status) (result : Result) : Namespace × Result :=
  let updated := ns.statusUpdate api st
  (updated.1, updated.2.elim result .error)

/-- A status write whose error is dropped or only logged. -/
def writeDiscarding (api : Api) (ns : Namespace) (st : Status) (result : Result) : Namespace × Result :=
  ((ns.statusUpdate api st).1, result)

/-- `r.Update` of the object's metadata: an object being deleted goes with its last finalizer. -/
def update (api : Api) (ns : Namespace) (hc : HyperConversion) : Namespace × Option String :=
  (if api.update.applied then
    { ns with hyperConversion :=
        if hc.deletionTimestamp.isSome ∧ hc.finalizers = [] then none else some hc }
  else ns, api.update.error?)

/-- `createDataVolume`. -/
def createDataVolume (api : Api) (ns : Namespace) (hc : HyperConversion) : Namespace × Except String String :=
  let dvName := hc.dataVolumeName
  let made := ns.dataVolumes.ensure "datavolumes.cdi.kubevirt.io" api.createDataVolume api.getDataVolume dvName
    { owner := some hc.uid }
  ({ ns with dataVolumes := made.1 },
    match made.2 with
    | none => .ok dvName
    | some (.get err) => .error ("DataVolume already exists but failed to get it: " ++ err.text)
    | some (.create err) => .error ("failed to create DataVolume \"" ++ dvName ++ "\": " ++ err.text ++
        " — ensure CDI (Containerized Data Importer) is installed in the cluster and the source URL \"" ++
        hc.spec.source.url ++ "\" is reachable"))

/-- What `createFixerJob` refuses before it calls the API. -/
def fixerRefusal (hc : HyperConversion) : Option String :=
  let format := hc.spec.source.format
  if hc.status.dataVolumeName = "" then
    some ("DataVolumeName not set — cannot create fixer Job without a PVC; this usually means the " ++
      "DataVolume was not created in the Uploading phase — check the HyperConversion status conditions with " ++
      "'kubectl describe hyperconversion " ++ hc.name ++ "'")
  else if format ≠ "" ∧ format ∉ validFormats then
    some ("unsupported disk format \"" ++ format ++ "\" (valid: qcow2, raw, vmdk, vhd, vhdx)")
  else none

/-- `createFixerJob`. -/
def createFixerJob (env : Env) (api : Api) (ns : Namespace) (hc : HyperConversion) : Namespace × Except String String :=
  let jobName := hc.fixerJobName
  let pvcName := hc.status.dataVolumeName
  match fixerRefusal hc with
  | some err => (ns, .error err)
  | none =>
    let made := ns.jobs.ensure "jobs.batch" api.createJob api.getJob jobName {
      owner := some hc.uid
      claimName := pvcName
      diskFormat := if hc.spec.source.format = "" then "qcow2" else hc.spec.source.format }
    -- The claim is mounted by a Job that is really made, not by one that was already there.
    let ns := if (ns.jobs jobName).isNone ∧ api.createJob.applied = true
      then ns.touch .mounted .dataVolume pvcName else ns
    ({ ns with jobs := made.1 },
      match made.2 with
      | none => .ok jobName
      | some (.get err) => .error ("fixer Job already exists but failed to get it: " ++ err.text)
      | some (.create err) => .error ("failed to create fixer Job \"" ++ jobName ++ "\" in namespace \"" ++
          hc.inNamespace ++ "\": " ++ err.text ++ " — check RBAC permissions (the operator needs batch/jobs create " ++
          "permission) and ensure the fixer image \"" ++ env.getFixerImage ++ "\" is accessible"))

/-- `createVirtualMachine`, for a spec that has a VM. -/
def createVirtualMachine (api : Api) (ns : Namespace) (hc : HyperConversion) (vm : VMSpec) :
    Namespace × Except String String :=
  let vmName := hc.virtualMachineName vm
  let made := ns.virtualMachines.ensure "virtualmachines.kubevirt.io" api.createVirtualMachine
    api.getExistingVirtualMachine vmName { owner := some hc.uid, rootDisk := hc.status.dataVolumeName }
  ({ ns with virtualMachines := made.1 },
    match made.2 with
    | none => .ok vmName
    | some (.get err) => .error ("VirtualMachine already exists but failed to get it: " ++ err.text)
    | some (.create err) => .error ("failed to create VirtualMachine \"" ++ vmName ++ "\": " ++ err.text ++
        " — ensure KubeVirt is installed in the cluster ('kubectl get kubevirt -A') and the operator has RBAC " ++
        "permissions for kubevirt.io/virtualmachines"))

def deleteDataVolume (api : Api) (ns : Namespace) (name : String) : Namespace :=
  let noted := if api.deleteDataVolume.applied then ns.touch .deleted .dataVolume name else ns
  { noted with dataVolumes := (ns.dataVolumes.delete "datavolumes.cdi.kubevirt.io" api.deleteDataVolume name).1 }

def deleteJob (api : Api) (ns : Namespace) (name : String) : Namespace :=
  let noted := if api.deleteJob.applied then ns.touch .deleted .job name else ns
  { noted with jobs := (ns.jobs.delete "jobs.batch" api.deleteJob name).1 }

def deleteVirtualMachine (api : Api) (ns : Namespace) (name : String) : Namespace :=
  let noted := if api.deleteVirtualMachine.applied then ns.touch .deleted .virtualMachine name else ns
  { noted with virtualMachines :=
      (ns.virtualMachines.delete "virtualmachines.kubevirt.io" api.deleteVirtualMachine name).1 }

/-- `handlePending`. -/
def handlePending (api : Api) (ns : Namespace) (hc : HyperConversion) : Namespace × Result :=
  let now := ns.now
  let st := { hc.status with
    phase := .uploading, startTime := some now, progress := 0, message := "Creating DataVolume for disk import" }
  let made := ns.createDataVolume api hc
  match made.2 with
  | .error err =>
    let st := { st with
      phase := .failed
      message := "Failed to create DataVolume: " ++ err
      conditions := setStatusCondition st.conditions ⟨"DataVolumeReady", false, "CreateFailed", err, now⟩ }
    made.1.writeDiscarding api st (.error err)
  | .ok dvName =>
    let st := { st with
      dataVolumeName := dvName
      message := "DataVolume " ++ dvName ++ " created, waiting for import to complete"
      conditions := setStatusCondition st.conditions
        ⟨"DataVolumeReady", false, "Importing", "DataVolume import in progress", now⟩ }
    made.1.write api st (.requeueAfter 10)

/-- `handleUploading`. -/
def handleUploading (env : Env) (api : Api) (ns : Namespace) (hc : HyperConversion) : Namespace × Result :=
  let now := ns.now
  let st := hc.status
  if st.dataVolumeName = "" then
    ns.writeDiscarding api { st with phase := .failed, message := "DataVolume name missing in Uploading phase" } .done
  else
    match ns.dataVolumes.get "datavolumes.cdi.kubevirt.io" api.getDataVolume st.dataVolumeName with
    | .error (.notFound _ _) =>
      ns.writeDiscarding api { st with phase := .failed, message := "DataVolume disappeared during import" } .done
    | .error err => (ns, .error err.text)
    | .ok dv =>
      if hc.timedOut st.startTime now then
        let message := "Import timeout exceeded after " ++ toString hc.timeoutMinutes ++ " minutes"
        ns.writeDiscarding api { st with phase := .failed, message := message, completionTime := some now } .done
      else if dv.phase = "Succeeded" then
        let st := { st with
          phase := .converting
          progress := 50
          message := "DataVolume import complete, starting conversion"
          conditions := setStatusCondition st.conditions
            ⟨"DataVolumeReady", true, "ImportSucceeded", "DataVolume import completed successfully", now⟩ }
        ns.write api st .requeue
      else if dv.phase = "Failed" then
        let st := { st with
          phase := .failed
          completionTime := some now
          message := dv.failureMessage
          conditions := setStatusCondition st.conditions
            ⟨"DataVolumeReady", false, "ImportFailed", dv.failureMessage, now⟩ }
        ns.writeDiscarding api st .done
      else
        let scanned := if dv.progress ≠ "" ∧ dv.progress ≠ "N/A" then env.scanProgress dv.progress else none
        let st := { st with
          message := "DataVolume import in progress (phase: " ++ dv.phase ++ ", progress: " ++ dv.progress ++ ")"
          uploadProgress := some { lastUpdateTime := some now }
          progress := scanned.getD st.progress }
        ns.writeDiscarding api st (.requeueAfter 10)

/-- `handleConverting`. -/
def handleConverting (api : Api) (ns : Namespace) (hc : HyperConversion) : Namespace × Result :=
  let now := ns.now
  let st := { hc.status with
    conditions := setStatusCondition hc.status.conditions
      ⟨"ConversionComplete", true, "ConversionComplete", "Disk image conversion completed (handled by CDI)", now⟩ }
  if hc.spec.conversion.any (·.offlineFixes) then
    ns.write api { st with
      phase := .fixing
      progress := 55
      message := "Conversion complete, starting offline fixes (LVM, initramfs, fstab)" } .requeue
  else if hc.spec.vm.isNone then
    ns.write api { st with
      phase := .ready
      progress := 100
      completionTime := some now
      message := "Disk import and conversion complete (no VM creation requested)" } .done
  else
    ns.write api { st with
      phase := .creatingVM
      progress := 75
      message := "Conversion complete, creating VirtualMachine" } .requeue

/-- `handleFixing`. -/
def handleFixing (env : Env) (api : Api) (ns : Namespace) (hc : HyperConversion) : Namespace × Result :=
  let now := ns.now
  let st := hc.status
  if st.fixerJobName = "" then
    let made := ns.createFixerJob env api hc
    match made.2 with
    | .error err =>
      made.1.writeDiscarding api { st with
        phase := .failed
        completionTime := some now
        message := "Failed to create fixer Job: " ++ err } (.error err)
    | .ok jobName =>
      made.1.write api { st with
        fixerJobName := jobName
        message := "Fixer Job " ++ jobName ++ " created, running offline fixes" } (.requeueAfter 15)
  else
    match ns.jobs.get "jobs.batch" api.getJob st.fixerJobName with
    | .error (.notFound _ _) =>
      ns.writeDiscarding api { st with
        phase := .failed
        completionTime := some now
        message := "Fixer Job disappeared" } .done
    | .error err => (ns, .error err.text)
    | .ok job =>
      match job.verdict with
      | some .complete =>
        let st := { st with
          conditions := setStatusCondition st.conditions
            ⟨"FixesComplete", true, "FixesComplete", "Offline fixes completed (LVM, initramfs, fstab)", now⟩ }
        let st := if hc.spec.vm.isNone then
            { st with
              phase := .ready
              progress := 100
              completionTime := some now
              message := "Disk import, conversion, and offline fixes complete (no VM creation requested)" }
          else { st with phase := .creatingVM, progress := 75, message := "Offline fixes complete, creating VirtualMachine" }
        ns.write api st .requeue
      | some (.failed message) =>
        ns.writeDiscarding api { st with
          phase := .failed
          completionTime := some now
          message := "Fixer Job failed: " ++ message
          conditions := setStatusCondition st.conditions ⟨"FixesComplete", false, "FixesFailed", message, now⟩ } .done
      | none =>
        if hc.timedOut job.startTime now then
          let ns := ns.deleteJob api st.fixerJobName
          let message := "Fixer Job timeout exceeded after " ++ toString hc.timeoutMinutes ++ " minutes"
          ns.writeDiscarding api { st with phase := .failed, completionTime := some now, message := message } .done
        else
          let message := "Fixer Job " ++ st.fixerJobName ++ " running (active: " ++ toString job.active ++ ")"
          ns.writeDiscarding api { st with message := message } (.requeueAfter 15)

/-- The rest of `handleCreatingVM`, when no recorded VM was found. -/
def makeVM (api : Api) (ns : Namespace) (hc : HyperConversion) (vm : VMSpec) : Namespace × Result :=
  let now := ns.now
  let st := hc.status
  let made := ns.createVirtualMachine api hc vm
  match made.2 with
  | .error err =>
    made.1.writeDiscarding api { st with
      phase := .failed
      completionTime := some now
      message := "Failed to create VirtualMachine: " ++ err
      conditions := setStatusCondition st.conditions ⟨"VMReady", false, "CreateFailed", err, now⟩ } (.error err)
  | .ok vmName =>
    made.1.write api { st with
      phase := .ready
      progress := 100
      virtualMachineName := vmName
      completionTime := some now
      message := "VirtualMachine " ++ vmName ++ " created successfully"
      conditions := setStatusCondition st.conditions
        ⟨"VMReady", true, "VMCreated", "VirtualMachine " ++ vmName ++ " created", now⟩ } .done

/-- `handleCreatingVM`. -/
def handleCreatingVM (api : Api) (ns : Namespace) (hc : HyperConversion) : Namespace × Result :=
  let now := ns.now
  let st := hc.status
  match hc.spec.vm with
  | none =>
    ns.write api { st with
      phase := .ready
      progress := 100
      completionTime := some now
      message := "Conversion and fixes complete (no VM creation requested)" } .done
  | some vm =>
    if st.virtualMachineName = "" then ns.makeVM api hc vm
    else
      match ns.virtualMachines.get "virtualmachines.kubevirt.io" api.getVirtualMachine st.virtualMachineName with
      | .ok _ =>
        ns.writeDiscarding api { st with
          phase := .ready
          progress := 100
          completionTime := some now
          message := "VirtualMachine " ++ st.virtualMachineName ++ " is ready"
          conditions := setStatusCondition st.conditions
            ⟨"VMReady", true, "VMCreated", "VirtualMachine " ++ st.virtualMachineName ++ " created", now⟩ } .done
      | .error _ => ns.makeVM api hc vm

-- The cleanup of `handleDeletion`: what bears a recorded name is got and, if that went well, deleted.

def cleanUpDataVolume (api : Api) (ns : Namespace) (name : String) : Namespace :=
  if name ≠ "" ∧ api.getDataVolume = .ok ∧ (ns.dataVolumes name).isSome then ns.deleteDataVolume api name else ns

def cleanUpJob (api : Api) (ns : Namespace) (name : String) : Namespace :=
  if name ≠ "" ∧ api.getJob = .ok ∧ (ns.jobs name).isSome then ns.deleteJob api name else ns

def cleanUpVirtualMachine (api : Api) (ns : Namespace) (name : String) : Namespace :=
  if name ≠ "" ∧ api.getVirtualMachine = .ok ∧ (ns.virtualMachines name).isSome then ns.deleteVirtualMachine api name else ns

def cleanUp (api : Api) (ns : Namespace) (st : Status) : Namespace :=
  ((ns.cleanUpDataVolume api st.dataVolumeName).cleanUpJob api st.fixerJobName).cleanUpVirtualMachine api
    st.virtualMachineName

/-- `handleDeletion`. -/
def handleDeletion (api : Api) (ns : Namespace) (hc : HyperConversion) : Namespace × Result :=
  if hyperConversionFinalizer ∉ hc.finalizers then (ns, .done)
  else
    let ns := ns.cleanUp api hc.status
    let updated := ns.update api { hc with finalizers := hc.finalizers.filter (· ≠ hyperConversionFinalizer) }
    (updated.1, updated.2.elim .done .error)

/-- The phases of `Reconcile`. -/
def handlePhase (env : Env) (api : Api) (ns : Namespace) (hc : HyperConversion) : Namespace × Result :=
  match hc.status.phase with
  | .unset | .pending => ns.handlePending api hc
  | .uploading => ns.handleUploading env api hc
  | .converting => ns.handleConverting api hc
  | .fixing => ns.handleFixing env api hc
  | .creatingVM => ns.handleCreatingVM api hc
  | .ready | .failed => (ns, .done)

/-- `Reconcile`. -/
def reconcile (env : Env) (ns : Namespace) (api : Api) : Namespace × Result :=
  match api.getHyperConversion.error?, ns.hyperConversion with
  | some err, _ => (ns, .error err)
  | none, none => (ns, .done)
  | none, some hc =>
    if hyperConversionFinalizer ∉ hc.finalizers ∧ hc.deletionTimestamp = none then
      let updated := ns.update api { hc with finalizers := hc.finalizers ++ [hyperConversionFinalizer] }
      (updated.1, updated.2.elim .requeue .error)
    else if hc.deletionTimestamp.isSome then ns.handleDeletion api hc
    else ns.handlePhase env api hc

end Namespace

/-- What happens to a HyperConversion: it is reconciled, and in between the namespace changes and the
clock goes on, its spec is edited, and it is asked to go. -/
inductive Event where
  | reconcile (api : Api)
  | cluster (dataVolumes : Objects DataVolume) (jobs : Objects Job) (virtualMachines : Objects VirtualMachine)
      (elapsed : Nat)
  | edit (spec : Spec)
  | delete

namespace Namespace

/-- Deleting an object that has finalizers only marks it. -/
def markDeleted (ns : Namespace) (hc : HyperConversion) : Option HyperConversion :=
  if hc.finalizers = [] then none
  else some { hc with deletionTimestamp := some (hc.deletionTimestamp.getD ns.now) }

def step (env : Env) (ns : Namespace) : Event → Namespace
  | .reconcile api => (ns.reconcile env api).1
  | .cluster dvs jobs vms elapsed =>
    { ns with dataVolumes := dvs, jobs := jobs, virtualMachines := vms, now := ns.now + elapsed }
  | .edit spec => { ns with hyperConversion := ns.hyperConversion.map fun hc => { hc with spec := spec } }
  | .delete => { ns with hyperConversion := ns.hyperConversion.bind ns.markDeleted }

/-- A HyperConversion as it is created, in a namespace that may hold anything. -/
def created (name inNamespace uid : String) (finalizers : List String) (spec : Spec)
    (dvs : Objects DataVolume) (jobs : Objects Job) (vms : Objects VirtualMachine) (now : Nat) : Namespace where
  hyperConversion := some { name := name, inNamespace := inNamespace, uid := uid, finalizers := finalizers, spec := spec }
  dataVolumes := dvs
  jobs := jobs
  virtualMachines := vms
  now := now

end Namespace

end H2kvm.Operator
