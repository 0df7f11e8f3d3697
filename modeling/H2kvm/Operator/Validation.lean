import Mathlib.Data.Finset.Card
import H2kvm.Operator.HyperConversion

namespace H2kvm.Operator

open Framework

inductive ValidationPhase where
  | unset
  | pending
  | running
  | validated
  | failed
  | kubeVirtCreated
  deriving DecidableEq

def ValidationPhase.finished : ValidationPhase → Bool
  | .validated | .failed | .kubeVirtCreated => true
  | .unset | .pending | .running => false

structure ValidationChecks where
  systemd : Bool := false
  network : Bool := false
  bootComplete : Bool := false
  cloudInit : Bool := false
  kubelet : Bool := false
  containerRuntime : Bool := false
  cni : Bool := false
  deriving DecidableEq

structure ValidationSpec where
  timeout : Int := 300
  createKubeVirtVM : Bool := false
  kubeVirtTemplate : Option String := none

structure ValidationStatus where
  phase : ValidationPhase := .unset
  validated : Bool := false
  message : String := ""
  validationPod : String := ""
  kubeVirtVM : String := ""
  startTime : Option Nat := none
  completionTime : Option Nat := none
  checks : Option ValidationChecks := none
  deriving DecidableEq

structure Validation where
  name : String
  inNamespace : String
  finalizers : List String := []
  deletionTimestamp : Option Nat := none
  spec : ValidationSpec
  status : ValidationStatus := {}

inductive PodPhase where
  | pending
  | running
  | succeeded
  | failed
  | unknown
  deriving DecidableEq

def PodPhase.terminal : PodPhase → Bool
  | .succeeded | .failed => true
  | .pending | .running | .unknown => false

/-- A pod, with the Validation that controls it and why its first container ended. -/
structure Pod where
  controller : Option String := none
  phase : PodPhase := .pending
  terminatedReason : Option String := none

inductive LogRead where
  | text (body : String)
  | openFailed (error : String)
  | readFailed (error : String)

/-- How each call a single Reconcile can make is answered. The first of two status writes is
`statusUpdate`. -/
structure ValidationApi where
  getValidation : Answer := .ok
  update : Answer := .ok
  statusUpdate : Answer := .ok
  secondStatusUpdate : Answer := .ok
  createPod : Answer := .ok
  getExistingPod : Answer := .ok
  getPod : Answer := .ok
  deletePod : Answer := .ok
  logs : LogRead := .text ""
  createVM : Answer := .ok

/-- The checks a line of the log holds, and the error of a template that is not a VM's. -/
structure ValidationEnv where
  checksOf : String → Option ValidationChecks
  unmarshalTemplate : String → Option String

def validationFinalizer : String := "h2kvm.io/finalizer"

/-- `ParseValidationResults`: the last line that holds checks, or the default ones. -/
def parseValidationResults (env : ValidationEnv) : LogRead → Except String ValidationChecks
  | .openFailed err => .error ("failed to open log stream: " ++ err)
  | .readFailed err => .error ("failed to read log stream: " ++ err)
  | .text body =>
    .ok (((body.splitOn "\n").reverse.findSome? env.checksOf).getD
      { bootComplete := true, systemd := true, network := true })

namespace Validation

def podName (name : String) : String := name ++ "-validation"

def vmName (name : String) : String := name ++ "-vm"

def timeoutSeconds (v : Validation) : Int := if v.spec.timeout = 0 then 300 else v.spec.timeout

def elapsed (start now : Nat) : Int := now - start

def timedOut (v : Validation) (now : Nat) : Bool :=
  v.status.startTime.any fun start => decide (v.timeoutSeconds < elapsed start now)

/-- `BuildKubeVirtVMSpec`: only a template can be wrong. -/
def templateError (env : ValidationEnv) (v : Validation) : Option String :=
  v.spec.kubeVirtTemplate.bind env.unmarshalTemplate

end Validation

/-- The Validations of a namespace with their pods and VMs, the `ActiveValidations` gauge, the Validations
that were counted in, and those a pod of whose own has succeeded. -/
structure Validations where
  objects : Objects Validation
  pods : Objects Pod := fun _ => none
  vms : Objects Unit := fun _ => none
  now : Nat
  gauge : Int := 0
  counted : Finset String := ∅
  succeeded : Finset String := ∅

namespace Validations

/-- `ActiveValidations.Inc`. -/
def inc (s : Validations) (name : String) : Validations :=
  { s with gauge := s.gauge + 1, counted := insert name s.counted }

/-- `ActiveValidations.Dec`. -/
def dec (s : Validations) : Validations := { s with gauge := s.gauge - 1 }

/-- `r.Status().Update`. -/
def statusUpdate (s : Validations) (a : Answer) (v : Validation) (st : ValidationStatus) : Validations × Option String :=
  (if a.applied then { s with objects := Function.update s.objects v.name (some { v with status := st }) } else s,
    a.error?)

/-- `r.Update`. -/
def update (s : Validations) (a : Answer) (v : Validation) : Validations × Option String :=
  (if a.applied then
    let kept := if v.deletionTimestamp.isSome ∧ v.finalizers = [] then none else some v
    { s with objects := Function.update s.objects v.name kept }
  else s, a.error?)

def deletePod (s : Validations) (a : Answer) (name : String) : Validations :=
  { s with pods := (s.pods.delete "pods" a name).1 }

/-- A write whose error ends the Reconcile. -/
def write (s : Validations) (a : Answer) (v : Validation) (st : ValidationStatus) (result : Result) :
    Validations × Result :=
  let updated := s.statusUpdate a v st
  (updated.1, updated.2.elim result .error)

/-- A write whose error is dropped. -/
def writeDiscarding (s : Validations) (a : Answer) (v : Validation) (st : ValidationStatus) (result : Result) :
    Validations × Result :=
  ((s.statusUpdate a v st).1, result)

/-- `handlePending`, from the pod's creation on. -/
def startPod (api : ValidationApi) (s : Validations) (v : Validation) (st : ValidationStatus) : Validations × Result :=
  let s := s.inc v.name
  let podName := Validation.podName v.name
  let made := s.pods.ensure "pods" api.createPod api.getExistingPod podName { controller := some v.name }
  let s := { s with pods := made.1 }
  let fail (err : String) : Validations × Result :=
    s.dec.writeDiscarding api.secondStatusUpdate v
      { st with phase := .failed, message := "Failed to create validation pod: " ++ err } (.error err)
  match made.2 with
  | none => s.write api.secondStatusUpdate v { st with validationPod := podName } (.requeueAfter 10)
  | some (.get err) => fail ("validation pod \"" ++ podName ++ "\" already exists in namespace \"" ++ v.inNamespace ++
      "\" but failed to retrieve it: " ++ err.text)
  | some (.create err) => fail ("failed to create validation pod \"" ++ podName ++ "\" in namespace \"" ++
      v.inNamespace ++ "\": " ++ err.text ++ " — check RBAC permissions and resource quotas")

/-- `handlePending`. -/
def handlePending (api : ValidationApi) (s : Validations) (v : Validation) : Validations × Result :=
  let st := { v.status with
    phase := .running, startTime := some s.now, message := "Creating validation pod" }
  let updated := s.statusUpdate api.statusUpdate v st
  match updated.2 with
  | some err => (updated.1, .error err)
  | none => updated.1.startPod api v st

/-- `handleValidationSuccess`. -/
def handleValidationSuccess (env : ValidationEnv) (api : ValidationApi) (s : Validations) (v : Validation) :
    Validations × Result :=
  let st := match parseValidationResults env api.logs with
    | .error err =>
      { v.status with phase := .failed, message := "Failed to parse results: " ++ err, validated := false }
    | .ok checks =>
      { v.status with phase := .validated, message := "Validation successful", validated := true, checks := some checks }
  let updated := s.dec.statusUpdate api.statusUpdate v { st with completionTime := some s.now }
  match updated.2 with
  | some err => (updated.1, .error err)
  | none => (updated.1.deletePod api.deletePod v.status.validationPod, .done)

/-- `handleValidationFailure`. -/
def handleValidationFailure (api : ValidationApi) (s : Validations) (v : Validation) (pod : Pod) :
    Validations × Result :=
  let message := match pod.terminatedReason with
    | some reason => "Validation failed: " ++ reason
    | none => v.status.message
  let st := { v.status with
    phase := .failed
    validated := false
    message := if message = "" then "Validation failed" else message
    completionTime := some s.now }
  let updated := s.dec.statusUpdate api.statusUpdate v st
  match updated.2 with
  | some err => (updated.1, .error err)
  | none => (updated.1.deletePod api.deletePod v.status.validationPod, .done)

def disappeared : String := "Validation pod disappeared"

/-- The timeout of `handleRunning`. -/
def handleTimeout (api : ValidationApi) (s : Validations) (v : Validation) : Validations × Result :=
  let seconds := v.status.startTime.elim 0 (Validation.elapsed · s.now)
  let st := { v.status with
    phase := .failed
    message := "Validation timeout exceeded (" ++ toString seconds ++ "s)"
    validated := false
    completionTime := some s.now }
  ((s.dec.statusUpdate api.statusUpdate v st).1.deletePod api.deletePod v.status.validationPod, .done)

/-- `handleRunning`. -/
def handleRunning (env : ValidationEnv) (api : ValidationApi) (s : Validations) (v : Validation) : Validations × Result :=
  match s.pods.get "pods" api.getPod v.status.validationPod with
  | .error (.notFound _ _) =>
    s.writeDiscarding api.statusUpdate v { v.status with phase := .failed, message := disappeared } .done
  | .error err => (s, .error err.text)
  | .ok pod =>
    if v.timedOut s.now then s.handleTimeout api v
    else
      match pod.phase with
      | .pending =>
        s.writeDiscarding api.statusUpdate v { v.status with message := "Validation pod pending" } (.requeueAfter 10)
      | .running =>
        s.writeDiscarding api.statusUpdate v { v.status with message := "Validation running" } (.requeueAfter 10)
      | .succeeded => s.handleValidationSuccess env api v
      | .failed => s.handleValidationFailure api v pod
      | .unknown => (s, .requeueAfter 10)

/-- `createKubeVirtVM`. -/
def createKubeVirtVM (env : ValidationEnv) (api : ValidationApi) (s : Validations) (v : Validation) :
    Validations × Option String :=
  match v.templateError env with
  | some err => (s, some ("failed to unmarshal KubeVirt template: " ++ err))
  | none =>
    let made := s.vms.create "virtualmachines.kubevirt.io" api.createVM (Validation.vmName v.name) ()
    ({ s with vms := made.1 }, made.2.map fun err =>
      "failed to create KubeVirt VM \"" ++ Validation.vmName v.name ++ "\" in namespace \"" ++ v.inNamespace ++ "\": " ++
      err.text ++ " — ensure KubeVirt is installed ('kubectl get kubevirt -A') and the operator has RBAC permissions " ++
      "for kubevirt.io/virtualmachines")

/-- `handleValidated`. -/
def handleValidated (env : ValidationEnv) (api : ValidationApi) (s : Validations) (v : Validation) :
    Validations × Result :=
  if v.spec.createKubeVirtVM = false ∨ v.status.kubeVirtVM ≠ "" then (s, .done)
  else
    let made := s.createKubeVirtVM env api v
    match made.2 with
    | some err =>
      made.1.writeDiscarding api.statusUpdate v
        { v.status with message := "Failed to create KubeVirt VM: " ++ err } (.error err)
    | none =>
      made.1.write api.statusUpdate v { v.status with
        phase := .kubeVirtCreated
        kubeVirtVM := Validation.vmName v.name
        message := "KubeVirt VM created: " ++ Validation.vmName v.name } .done

/-- `handleDeletion`. -/
def handleDeletion (api : ValidationApi) (s : Validations) (v : Validation) : Validations × Result :=
  if validationFinalizer ∉ v.finalizers then (s, .done)
  else
    let pod := v.status.validationPod
    let s := if pod ≠ "" ∧ api.getPod = .ok ∧ (s.pods pod).isSome then s.deletePod api.deletePod pod else s
    let updated := s.update api.update { v with finalizers := v.finalizers.filter (· ≠ validationFinalizer) }
    (updated.1, updated.2.elim .done .error)

/-- The phases of `Reconcile`. -/
def handlePhase (env : ValidationEnv) (api : ValidationApi) (s : Validations) (v : Validation) : Validations × Result :=
  match v.status.phase with
  | .unset | .pending => s.handlePending api v
  | .running => s.handleRunning env api v
  | .validated => s.handleValidated env api v
  | .failed | .kubeVirtCreated => (s, .done)

/-- `Reconcile`. -/
def reconcile (env : ValidationEnv) (s : Validations) (name : String) (api : ValidationApi) : Validations × Result :=
  match api.getValidation.error?, s.objects name with
  | some err, _ => (s, .error err)
  | none, none => (s, .done)
  | none, some v =>
    if v.deletionTimestamp.isSome then s.handleDeletion api v
    else if validationFinalizer ∉ v.finalizers then
      let updated := s.update api.update { v with finalizers := v.finalizers ++ [validationFinalizer] }
      (updated.1, updated.2.elim .requeue .error)
    else s.handlePhase env api v

end Validations

/-- What happens in the namespace: a Validation is reconciled or asked to go, a pod changes its phase, others
make and remove pods and VMs, and the clock goes on. -/
inductive ValidationEvent where
  | reconcile (name : String) (api : ValidationApi)
  | podPhase (name : String) (phase : PodPhase) (reason : Option String)
  | createPod (name : String) (pod : PodPhase)
  | deletePod (name : String)
  | createVM (name : String)
  | deleteVM (name : String)
  | delete (name : String)
  | tick (seconds : Nat)

namespace Validations

/-- A pod that has ended keeps its phase; the success of a pod is noted for the Validation that made it. -/
def podPhase (s : Validations) (name : String) (phase : PodPhase) (reason : Option String) : Validations :=
  match s.pods name with
  | none => s
  | some pod =>
    if pod.phase.terminal then s
    else
      { s with
        pods := Function.update s.pods name (some { pod with phase := phase, terminatedReason := reason })
        succeeded := if phase = .succeeded then pod.controller.elim s.succeeded (insert · s.succeeded) else s.succeeded }

def delete (s : Validations) (name : String) : Validations :=
  match s.objects name with
  | none => s
  | some v =>
    let marked :=
      if v.deletionTimestamp.isSome then some v
      else if v.finalizers = [] then none
      else some { v with deletionTimestamp := some s.now }
    { s with objects := Function.update s.objects name marked }

def step (env : ValidationEnv) (s : Validations) : ValidationEvent → Validations
  | .reconcile name api => (s.reconcile env name api).1
  | .podPhase name phase reason => s.podPhase name phase reason
  | .createPod name phase => { s with pods := (s.pods.create "pods" .ok name { phase := phase }).1 }
  | .deletePod name => s.deletePod .ok name
  | .createVM name => { s with vms := (s.vms.create "virtualmachines.kubevirt.io" .ok name ()).1 }
  | .deleteVM name => { s with vms := (s.vms.delete "virtualmachines.kubevirt.io" .ok name).1 }
  | .delete name => s.delete name
  | .tick seconds => { s with now := s.now + seconds }

/-- The Validations as they are created, each with its spec and the finalizers it already has. -/
def created (inNamespace : String) (specs : String → Option (ValidationSpec × List String)) (now : Nat) :
    Validations where
  objects name := (specs name).map fun given =>
    { name := name, inNamespace := inNamespace, finalizers := given.2, spec := given.1 }
  now := now

/-- The Validations that were counted in, and have neither finished nor been deleted. -/
def active (s : Validations) : Finset String :=
  s.counted.filter fun name => (s.objects name).any fun v => !v.status.phase.finished

end Validations

end H2kvm.Operator
