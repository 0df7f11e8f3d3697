import H2kvm.Framework.Data
import H2kvm.Framework.Names
import H2kvm.Framework.Lines

namespace H2kvm.Deployers

open Framework Names Text

abbrev Name := List Char

/-! ### Names -/

/-- Runs of the characters `p` are replaced by one `c`; `inRun` says whether that has been put. -/
def squeeze (p : Char → Bool) (c : Char) (inRun : Bool) : Name → Name
  | [] => []
  | d :: s => if p d then (if inRun then squeeze p c true s else c :: squeeze p c true s) else d :: squeeze p c false s

/-- `str.lower()`. -/
def lower (s : Name) : Name :=
  s.flatMap fun c => if c = '\u0130' then ['i', '\u0307'] else if c = '\u212a' then ['k'] else [c.toLower]

def isAlphanumeric (c : Char) : Bool := ('a' ≤ c && c ≤ 'z') || ('0' ≤ c && c ≤ '9')

def orVm (s : Name) : Name := if s = [] then "vm".toList else s

/-- `sanitize_k8s_dns_subdomain`. -/
def sanitizeK8sDnsSubdomain (name : Name) (maxLen : Nat) : Name :=
  let s := squeeze (fun c => !(isAlphanumeric c || c == '.' || c == '-')) '-' false (lower (strip name))
  let s := squeeze (· == '-') '-' false s
  let s := (s.dropWhile (· == '-')).rdropWhile (· == '-')
  let s := orVm (squeeze (· == '.') '.' false s)
  let s := orVm ((s.dropWhile (!isAlphanumeric ·)).rdropWhile (!isAlphanumeric ·))
  let s := if maxLen < s.length then ((s.take maxLen).rdropWhile (· == '-')).rdropWhile (!isAlphanumeric ·) else s
  orVm s

/-! ### The cluster -/

inductive Format where
  | raw
  | qcow2
  | other
  deriving DecidableEq

/-- What a disk or a container image holds: the guest's disk in a format, the rest of a transfer that broke off, or nothing. -/
inductive Content where
  | disk (guest : Nat) (format : Format)
  | broken
  | empty
  deriving DecidableEq

/-- The file that is deployed. `zstd` says that `qemu-img info` reports that compression for it. -/
structure Image where
  name : Name
  guest : Nat
  format : Format
  zstd : Bool := false
  size : Nat := 0

inductive Volume where
  | persistentVolumeClaim (claimName : Name)
  | containerDisk (image : Name)
  deriving DecidableEq

/-- A VirtualMachine: its volumes, whether its run strategy asks for an instance, and whether this run has created it. -/
structure VirtualMachine where
  root : Volume
  others : List Volume := []
  runs : Bool := false
  ours : Bool := false
  deriving DecidableEq

/-- The VirtualMachines and their instances. -/
structure Compute where
  vms : Dict Name VirtualMachine := ∅
  vmis : List Name := []

namespace Compute

/-- The VirtualMachine has the PVC among its volumes. -/
def Claims (c : Compute) (vm pvc : Name) : Prop :=
  ∃ v, c.vms.lookup vm = some v ∧ Volume.persistentVolumeClaim pvc ∈ v.root :: v.others

end Compute

namespace Compute

variable (c : Compute)

def withoutVmi (vm : Name) : Compute := { c with vmis := c.vmis.filter (· ≠ vm) }

/-- The run strategy of a VirtualMachine is set to `Halted`. -/
def halt (vm : Name) : Compute :=
  match c.vms.lookup vm with
  | some v => { c with vms := c.vms.insert vm { v with runs := false } }
  | none => c

def withoutVm (vm : Name) : Compute := { c with vms := c.vms.erase vm }

def withVm (vm : Name) (v : VirtualMachine) : Compute := { c with vms := c.vms.insert vm v }

/-- The controller starts a VirtualMachine that is to run. -/
def reconcile (vm : Name) : Compute :=
  match c.vms.lookup vm with
  | some v => if v.runs && vm ∉ c.vmis then { c with vmis := vm :: c.vmis } else c
  | none => c

end Compute

structure Storage where
  pvcs : Dict Name Content := ∅
  dataVolumes : List Name := []
  images : Dict Name Content := ∅

/-! ### What the calls and commands answer -/

/-- A call that creates an object: it does so, the API says that the name is taken (409), it refuses for another reason, or no
answer comes. -/
inductive Answer where
  | created
  | conflict
  | refused
  | lost
  deriving DecidableEq

/-- A run of `virtctl image-upload`. One that fails may have written before. -/
inductive Transfer where
  | done
  | failed (stderr : Name) (wrote : Bool)
  | raised
  deriving DecidableEq

/-- A step that succeeds, fails in a way that the code provides for, or raises. -/
inductive Step where
  | done
  | failed
  | raised
  deriving DecidableEq

/-- Where the code asks whether the PVC exists. -/
inductive PvcRead where
  | dataVolume
  | notReady
  | ensure
  | provided
  | attempt (k : Nat)
  deriving DecidableEq

/-- The calls that stop a VirtualMachine. -/
structure Stop where
  readsVm : Bool := true
  readsVmi : Bool := true
  virtctl : Bool := true
  patches : Bool := true
  vmiGone : Bool := true

/-- How every call and every command of a run goes. -/
structure Outcomes where
  imageExists : Bool := true
  prepares : Bool := true
  stop : Stop := {}
  controllerStarts : Bool := false
  hasBuilder : Bool := false
  hasImporter : Bool := false
  stats : Bool := true
  builds : Bool := false
  saves : Bool := false
  imports : Bool := false
  hasCdi : Bool := false
  uploadUrl : Bool := false
  probesForCdi : Bool := true
  createsDataVolume : Answer := .created
  binds : Bool := true
  readsPvc : PvcRead → Bool := fun _ => true
  cdiProvides : PvcRead → Bool := fun _ => false
  uploadReady : Bool := false
  reencodes : Nat → Step := fun _ => .done
  transfers : Nat → Transfer := fun _ => .raised
  createsPvc : Nat → Answer := fun _ => .created
  pvcToken : Nat → Name := fun _ => []
  probes : Bool := true
  converts : Bool := true
  probesRaw : Bool := true
  uploaderRuns : Bool := true
  copies : Bool := true
  cleansUp : Bool := true
  stopAgain : Stop := {}
  deletesVm : Bool := true
  vmGone : Bool := true
  createsVm : Nat → Answer := fun _ => .created
  vmToken : Nat → Name := fun _ => []
  finishes : Bool := true

/-- The arguments that say where to deploy. -/
structure Args where
  vmName : Name := []
  pvcName : Name := []
  autoStart : Bool := false
  stopBeforeDeploy : Bool := true
  containerDiskQcow2MaxBytes : Nat := 4 * 1024 * 1024 * 1024

/-- Where a loop over names ends: at the first one whose creation is not refused for its name. -/
def firstAccepted (answer : Nat → Answer) : (left attempt : Nat) → Option Nat
  | 0, _ => none
  | left + 1, attempt =>
    match answer attempt with
    | .created => some attempt
    | .conflict => firstAccepted answer left (attempt + 1)
    | .refused => none
    | .lost => none

/-- What the deployer has done to the storage: the names it goes by, and the PVCs it has written to. -/
structure Upload where
  storage : Storage
  pvcName : Name
  containerDiskImage : Option Name := none
  written : List Name := []

namespace Upload

variable (u : Upload)

/-- The PVC is there, empty if it was not before. -/
def provide : Upload :=
  if u.pvcName ∈ u.storage.pvcs then u
  else { u with storage := { u.storage with pvcs := u.storage.pvcs.insert u.pvcName .empty } }

/-- Bytes are written to the PVC. -/
def write (content : Content) : Upload :=
  { u with
    storage := { u.storage with pvcs := u.storage.pvcs.insert u.pvcName content }
    written := u.written ++ [u.pvcName] }

end Upload

/-! ### The error texts of `virtctl` -/

def mentions (stderr : Name) (text : String) : Bool := decide (text.toList <:+: lower stderr)

def stderrSuggestsCdiQcow2Incompatible (stderr : Name) : Bool :=
  mentions stderr "unknown compression type" || mentions stderr "unsupported compression" ||
    (mentions stderr "compression type" && mentions stderr "qemu-img" && mentions stderr "qcow2")

def stderrSuggestsCdiPvcNotReady (stderr : Name) : Bool :=
  (mentions stderr "persistentvolumeclaims" && mentions stderr "not found") ||
    (mentions stderr "persistentvolumeclaim" && mentions stderr "not found") ||
    (mentions stderr "datavolumes" && mentions stderr "not found")

def stderrSuggestsCdiUploadTransient (stderr : Name) : Bool :=
  (mentions stderr "rate limiter" && mentions stderr "deadline") || mentions stderr "exceed context deadline" ||
    mentions stderr "context deadline exceeded" ||
    (mentions stderr "timed out" && (mentions stderr "upload" || mentions stderr "waiting for pvc"))

/-! ### A run of the deployer -/

/-- A call of `deploy`: its arguments, the image and how everything outside answers. -/
structure Run where
  args : Args
  image : Image
  outcomes : Outcomes

inductive Target where
  | dv
  | pvc
  deriving DecidableEq

namespace Run

variable (r : Run)

def vmTarget : Name := sanitizeK8sDnsSubdomain (if r.args.vmName = [] then stem r.image.name else r.args.vmName) 63

def pvcTarget : Name :=
  if r.args.pvcName = [] then r.vmTarget ++ "-disk".toList else sanitizeK8sDnsSubdomain r.args.pvcName 253

def imageTag : Name := "localhost/h2kvm/".toList ++ r.vmTarget ++ ":latest".toList

/-- `_build_container_disk` gives an image. -/
def buildsContainerDisk : Bool :=
  r.outcomes.hasBuilder && r.outcomes.hasImporter && r.outcomes.stats &&
    r.image.size ≤ r.args.containerDiskQcow2MaxBytes && r.outcomes.builds && r.outcomes.saves && r.outcomes.imports

def usesZstd : Bool := r.image.format == .qcow2 && r.image.zstd

/-- What a transfer through CDI leaves in the PVC: CDI converts it. -/
def imported : Content := .disk r.image.guest .raw

/-- What `kubectl cp` copies: the converted file, or the image as it is when the conversion fails. -/
def copied : Content :=
  if r.outcomes.probes && r.image.format == .qcow2 && r.outcomes.converts && r.outcomes.probesRaw then
    .disk r.image.guest .raw
  else .disk r.image.guest r.image.format

variable (u : Upload)

/-- `_wait_for_cdi_upload_pvc`. CDI provides the PVC of a DataVolume, or not in time. -/
def waitForCdiUploadPvc (read : PvcRead) : Option (Upload × Bool) :=
  if !r.outcomes.readsPvc read then none
  else if u.pvcName ∈ u.storage.pvcs then some (u, true)
  else if r.outcomes.cdiProvides read && u.pvcName ∈ u.storage.dataVolumes then some (u.provide, true)
  else some (u, false)

/-- A name that is taken is not given again. -/
def answerFor (taken : Bool) (answer : Answer) : Answer := if taken && answer == .created then .conflict else answer

def addDataVolume : Upload :=
  { u with storage := { u.storage with dataVolumes := u.pvcName :: u.storage.dataVolumes } }

/-- `_ensure_cdi_upload_datavolume`. -/
def ensureCdiUploadDatavolume : Option (Upload × Target) :=
  match answerFor (u.pvcName ∈ u.storage.dataVolumes) r.outcomes.createsDataVolume with
  | .created => some (addDataVolume u, .dv)
  | .conflict => if r.outcomes.binds then some (u, .dv) else none
  | .refused => some (u, .pvc)
  | .lost => none

/-- The `k`-th run of `virtctl image-upload`, with its error text if it fails. -/
def runVirtctl (k : Nat) : Option (Upload × Option Name) :=
  match r.outcomes.transfers k with
  | .done => some (u.write r.imported, none)
  | .failed stderr wrote => some (if wrote then u.write .broken else u, some stderr)
  | .raised => none

/-- The end of `_upload_via_cdi`, after uploads that failed. -/
def lastAttempt (preencoded : Bool) (stderr : Name) : Option (Upload × Bool) :=
  if stderrSuggestsCdiUploadTransient stderr || stderrSuggestsCdiPvcNotReady stderr then some (u, false)
  else if preencoded || !stderrSuggestsCdiQcow2Incompatible stderr then some (u, false)
  else match r.outcomes.reencodes 1 with
    | .raised => none
    | .failed => some (u, false)
    | .done =>
      match r.runVirtctl u 2 with
      | none => none
      | some (u, none) => some (u, true)
      | some (u, some _) => some (u, false)

def secondAttempt (preencoded : Bool) (stderr : Name) : Option (Upload × Bool) :=
  if !stderrSuggestsCdiPvcNotReady stderr then r.lastAttempt u preencoded stderr
  else match r.waitForCdiUploadPvc u .notReady with
    | none => none
    | some (u, false) => r.lastAttempt u preencoded stderr
    | some (u, true) =>
      match r.runVirtctl u 1 with
      | none => none
      | some (u, none) => some (u, true)
      | some (u, some stderr) => r.lastAttempt u preencoded stderr

def firstAttempt (preencoded : Bool) : Option (Upload × Bool) :=
  match r.runVirtctl u 0 with
  | none => none
  | some (u, none) => some (u, true)
  | some (u, some stderr) => r.secondAttempt u preencoded stderr

/-- The `try` block of `_upload_via_cdi`. An image with zstd clusters is encoded anew before it is sent. -/
def transfer : Option (Upload × Bool) :=
  if r.outcomes.probesForCdi && r.usesZstd then
    match r.outcomes.reencodes 0 with
    | .raised => none
    | .failed => some (u, false)
    | .done => r.firstAttempt u true
  else r.firstAttempt u false

/-- `_upload_via_cdi`. -/
def uploadViaCdi : Option (Upload × Bool) :=
  if !r.outcomes.uploadUrl then some (u, false)
  else match r.ensureCdiUploadDatavolume u with
    | none => none
    | some (u, .pvc) => r.transfer u
    | some (u, .dv) =>
      match r.waitForCdiUploadPvc u .dataVolume with
      | none => none
      | some (u, false) => some (u, false)
      | some (u, true) => if r.outcomes.uploadReady then r.transfer u else some (u, false)

/-- The names that `_create_pvc` tries. -/
def pvcNameAt (base : Name) (attempt : Nat) : Name :=
  if attempt = 0 then base else sanitizeK8sDnsSubdomain (base ++ '-' :: r.outcomes.pvcToken attempt) 253

/-- What an attempt of `_create_pvc` comes to: a PVC that is said to be taken and is there is used as it is. -/
def pvcAnswer (attempt : Nat) : Answer :=
  match answerFor (r.pvcNameAt u.pvcName attempt ∈ u.storage.pvcs) (r.outcomes.createsPvc attempt) with
  | .created => .created
  | .conflict =>
    if !r.outcomes.readsPvc (.attempt attempt) then .lost
    else if r.pvcNameAt u.pvcName attempt ∈ u.storage.pvcs then .created
    else .conflict
  | .refused => .refused
  | .lost => .lost

def takeName (name : Name) : Upload := { u with pvcName := name }.provide

/-- `_create_pvc`. -/
def createPvc : Option Upload :=
  match firstAccepted (r.pvcAnswer u) 16 0 with
  | none => none
  | some attempt => some (takeName u (r.pvcNameAt u.pvcName attempt))

/-- `_ensure_pvc_for_upload`. -/
def ensurePvcForUpload : Option Upload :=
  if !r.outcomes.readsPvc .ensure then none
  else if u.pvcName ∈ u.storage.pvcs then some u
  else match r.waitForCdiUploadPvc u .provided with
    | none => none
    | some (u, true) => some u
    | some (u, false) => r.createPvc u

/-- `_upload_image`. -/
def uploadImage : Option Upload :=
  if r.outcomes.uploaderRuns && r.outcomes.copies && r.outcomes.cleansUp then some (u.write r.copied) else none

/-- The fall-back: a PVC, and `kubectl cp`. -/
def uploadByCopy : Option Upload :=
  match r.ensurePvcForUpload u with
  | none => none
  | some u => r.uploadImage u

def putImage : Upload :=
  { u with
    storage := { u.storage with images := u.storage.images.insert r.imageTag (.disk r.image.guest r.image.format) }
    containerDiskImage := some r.imageTag }

/-- `_upload_image_auto`. -/
def uploadImageAuto : Option Upload :=
  if r.buildsContainerDisk then some (r.putImage u)
  else if r.outcomes.hasCdi then
    match r.uploadViaCdi u with
    | none => none
    | some (u, true) => some u
    | some (u, false) => r.uploadByCopy u
  else r.uploadByCopy u

variable (c : Compute)

/-- The VirtualMachine is stopped, and the code waits until its instance is gone. -/
def stopVmi (stop : Stop) : Option Compute :=
  if (stop.virtctl || stop.patches) && stop.vmiGone then some ((c.halt r.vmTarget).withoutVmi r.vmTarget) else none

/-- `_stop_existing_kubevirt_vm_if_needed`. -/
def stopExistingKubevirtVmIfNeeded : Option Compute :=
  if !r.args.stopBeforeDeploy then some c
  else if !r.outcomes.stop.readsVm then none
  else if r.vmTarget ∉ c.vms then some c
  else if !r.outcomes.stop.readsVmi then none
  else if r.vmTarget ∉ c.vmis then some c
  else r.stopVmi c r.outcomes.stop

/-- `_remove_existing_kubevirt_vm_before_recreate`. -/
def removeExistingKubevirtVmBeforeRecreate : Option Compute :=
  if !r.args.stopBeforeDeploy then some c
  else if !r.outcomes.stopAgain.readsVm then none
  else if r.vmTarget ∉ c.vms then some c
  else if !r.outcomes.stopAgain.readsVmi then none
  else match (if r.vmTarget ∈ c.vmis then r.stopVmi c r.outcomes.stopAgain else some c) with
    | none => none
    | some c => if r.outcomes.deletesVm && r.outcomes.vmGone then some (c.withoutVm r.vmTarget) else none

/-- The names that `_create_vm` tries. -/
def vmNameAt (attempt : Nat) : Name :=
  if attempt = 0 then r.vmTarget else sanitizeK8sDnsSubdomain (r.vmTarget ++ '-' :: r.outcomes.vmToken attempt) 63

def vmAnswer (attempt : Nat) : Answer := answerFor (r.vmNameAt attempt ∈ c.vms) (r.outcomes.createsVm attempt)

def rootVolume (u : Upload) : Volume :=
  match u.containerDiskImage with
  | some image => .containerDisk image
  | none => .persistentVolumeClaim u.pvcName

def newVm (u : Upload) : VirtualMachine where
  root := rootVolume u
  runs := r.args.autoStart
  ours := true

/-- `_create_vm`, with the name the VirtualMachine gets. -/
def createVm (u : Upload) : Option (Compute × Name) :=
  match firstAccepted (r.vmAnswer c) 16 0 with
  | none => none
  | some attempt => some (c.withVm (r.vmNameAt attempt) (r.newVm u), r.vmNameAt attempt)

end Run

/-- What a call of `deploy` returns, and what it leaves. `during` are the VirtualMachines and instances while the disk was
written. -/
structure Deployment where
  vmName : Name
  pvcName : Name
  vmCreated : Bool
  vmStarted : Bool
  during : Compute
  compute : Compute
  upload : Upload

namespace Run

variable (r : Run) (compute : Compute) (storage : Storage)

/-- The compute side when the upload starts. -/
def beforeUpload : Option Compute :=
  match r.stopExistingKubevirtVmIfNeeded compute with
  | none => none
  | some c => some (if r.outcomes.controllerStarts then c.reconcile r.vmTarget else c)

def start : Upload where
  storage := storage
  pvcName := r.pvcTarget

/-- The rest of `deploy`, after the upload. -/
def finish (during : Compute) (u : Upload) : Option Deployment :=
  match r.removeExistingKubevirtVmBeforeRecreate during with
  | none => none
  | some c =>
    match r.createVm c u with
    | none => none
    | some (compute, vmName) =>
      if r.outcomes.finishes then
        some
          { vmName, pvcName := u.pvcName, vmCreated := true, vmStarted := r.args.autoStart, during, compute, upload := u }
      else none

/-- `deploy`; `none` if it raises. -/
def deploy : Option Deployment :=
  if r.outcomes.imageExists && r.outcomes.prepares then
    match r.beforeUpload compute with
    | none => none
    | some during =>
      match r.uploadImageAuto (r.start storage) with
      | none => none
      | some u => r.finish during u
  else none

end Run

end H2kvm.Deployers
