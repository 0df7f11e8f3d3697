import H2kvm.Config.DeepMerge
import H2kvm.Config.Validation
import H2kvm.Framework.Checks
import H2kvm.Framework.Effects
import H2kvm.Hooks.StageHooks

namespace H2kvm.Orchestration.Manifest

open Framework Framework.Checks Yaml Profiles Config

/-- What `load` finds around it. `locate` is `Path(text).expanduser().resolve()` with whether it is
there, and `loadProfile` what `load_profile` makes of a name and a custom path, or the text of what
it raises. -/
structure Environment where
  str : Yaml → String
  repr : Yaml → String
  locate : String → Except PyException (String × Bool)
  locate_error : ∀ text e, locate text = .error e → e.typeName ≠ "ManifestError"
  loadProfile : Yaml → Yaml → Except String Fields

def manifestError (msg : String) : PyException :=
  { typeName := "ManifestError", isFatal := false
    message := if oneLine msg = "" then "ManifestError" else oneLine msg }

/-- `re.match` on a value that is no text. -/
def notText (v : Yaml) : PyException :=
  { typeName := "TypeError", isFatal := false
    message := "expected string or bytes-like object, got '" ++ v.typeName ++ "'" }

/-- `Path` of a value that is no text. -/
def notPath (v : Yaml) : PyException :=
  { typeName := "TypeError", isFatal := false
    message := "argument should be a str or an os.PathLike object where __fspath__ returns a str, not '" ++
      v.typeName ++ "'" }

/-- `isinstance(v, int)`. -/
def asInt? : Yaml → Option Int
  | .bool b => some (if b then 1 else 0)
  | .int n => some n
  | _ => none

/-- `v in names`. -/
def oneOf? (names : List String) : Yaml → Option String
  | .str s => if s ∈ names then some s else none
  | _ => none

structure DiskArtifact where
  id : String
  sourceFormat : String
  bytes : Int
  localPath : String
  checksum : Option String
  bootOrderHint : Int
  label : Yaml
  diskType : String

def supportedVersions : List String := ["1.0"]

def supportedSourceFormats : List String := ["vmdk", "qcow2", "raw", "vhd", "vhdx", "vdi"]

section disks

variable (env : Environment) (idx : Nat)

/-- `disks[idx].field`. -/
def place (field : String) : String := "disks[" ++ toString idx ++ "]." ++ field

def requiredFields : List String := ["id", "source_format", "bytes", "local_path"]

def checkRequired (fields : Fields) : Except PyException Unit :=
  match requiredFields.find? fun field => (fields.get? (.str field)).isNone with
  | some field => .error (manifestError (place idx field ++ " is required"))
  | none => .ok ()

/-- `[a-zA-Z0-9_-]+`. -/
def isDiskId (s : List Char) : Bool := s ≠ [] && s.all fun c => c.isAlphanum || c = '_' || c = '-'

def checkId (ids : List String) (v : Yaml) : Except PyException String :=
  match v with
  | .str id =>
    if id ∈ ids then .error (manifestError ("Duplicate disk ID: " ++ id))
    else if pyMatches isDiskId id.toList then .ok id
    else .error (manifestError (place idx "id must match pattern: ^[a-zA-Z0-9_-]+$ (got: " ++ env.repr v ++ ")"))
  | _ => .error (if v.hashableText.isNone then unhashable v else notText v)

def checkSourceFormat (v : Yaml) : Except PyException String :=
  match oneOf? supportedSourceFormats v with
  | some format => .ok format
  | none => .error (manifestError (place idx "source_format unsupported: " ++ env.str v ++
      ". Supported: ['vmdk', 'qcow2', 'raw', 'vhd', 'vhdx', 'vdi']"))

/-- The check of `bytes`, and that of `boot_order_hint`. -/
def checkCount (field : String) (v : Yaml) : Except PyException Int :=
  match asInt? v with
  | some n => if n < 0 then .error (manifestError (place idx field ++ " must be a non-negative integer")) else .ok n
  | none => .error (manifestError (place idx field ++ " must be a non-negative integer"))

def checkLocalPath (v : Yaml) : Except PyException String :=
  match v with
  | .str text =>
    match env.locate text with
    | .error e => .error e
    | .ok (path, there) =>
      if there then .ok text else .error (manifestError (place idx "local_path not found: " ++ path))
  | _ => .error (notPath v)

/-- `[a-f0-9]`. -/
def isHexDigit (c : Char) : Bool := c.isDigit || ('a' ≤ c && c ≤ 'f')

/-- `sha256:[a-f0-9]{64}`. -/
def isChecksum (s : List Char) : Bool :=
  s.take 7 = "sha256:".toList && (s.drop 7).length = 64 && (s.drop 7).all isHexDigit

def checkChecksum (v : Option Yaml) : Except PyException (Option String) :=
  match v with
  | none => .ok none
  | some (.str checksum) =>
    if pyMatches isChecksum checksum.toList then .ok (some checksum)
    else .error (manifestError (place idx "checksum must match format: sha256:<hexdigest> (got: " ++
      env.repr (.str checksum) ++ ")"))
  | some v => .error (notText v)

def checkBootOrderHint (v : Option Yaml) : Except PyException Int :=
  match v with
  | none => .ok 999
  | some v => checkCount idx "boot_order_hint" v

def checkDiskType (v : Option Yaml) : Except PyException String :=
  match v with
  | none => .ok "unknown"
  | some v =>
    match oneOf? ["boot", "data", "unknown"] v with
    | some diskType => .ok diskType
    | none => .error (manifestError (place idx "disk_type must be one of: boot, data, unknown"))

/-- A field that was found to be there. -/
def field (fields : Fields) (name : String) : Yaml := (fields.get? (.str name)).getD .null

/-- The round of `_validate_disks` for one disk. After its checks `DiskArtifact` does not raise. -/
def checkDisk (ids : List String) : Yaml → Except PyException DiskArtifact
  | .map fields => do
    checkRequired idx fields
    let id ← checkId env idx ids (field fields "id")
    let sourceFormat ← checkSourceFormat env idx (field fields "source_format")
    let bytes ← checkCount idx "bytes" (field fields "bytes")
    let localPath ← checkLocalPath env idx (field fields "local_path")
    let checksum ← checkChecksum env idx (Fields.get? fields (.str "checksum"))
    let bootOrderHint ← checkBootOrderHint idx (Fields.get? fields (.str "boot_order_hint"))
    let diskType ← checkDiskType idx (Fields.get? fields (.str "disk_type"))
    let label := (Fields.get? fields (.str "label")).getD (.str id)
    return { id, sourceFormat, bytes, localPath, checksum, bootOrderHint, label, diskType }
  | _ => .error (manifestError ("disks[" ++ toString idx ++ "] must be an object"))

/-- `_validate_disks`: the disks that were appended to `self.disks`, and what it raises. -/
def validateDisks (disks : List Yaml) : List DiskArtifact × Except PyException Unit :=
  collect (checkDisk env) DiskArtifact.id 0 [] disks

end disks

section manifest

/-- A check that a section makes of a field it has. -/
structure FieldCheck where
  field : String
  valid : Yaml → Bool
  message : String
  showsValue : Bool := false

def checkField (env : Environment) (fields : Fields) (check : FieldCheck) : Except PyException Unit :=
  match fields.get? (.str check.field) with
  | none => .ok ()
  | some v =>
    if check.valid v then .ok ()
    else .error (manifestError (check.message ++ if check.showsValue then " (got: " ++ env.repr v ++ ")" else ""))

/-- `_validate_source` and `_validate_vm`, where the manifest has the section. -/
def validateSection (env : Environment) (name : String) (checks : List FieldCheck) (manifest : Fields) :
    Except PyException Unit :=
  match manifest.get? (.str name) with
  | none => .ok ()
  | some (.map fields) => forM checks (checkField env fields)
  | some _ => .error (manifestError ("Field '" ++ name ++ "' must be an object"))

def isText : Yaml → Bool
  | .str _ => true
  | _ => false

def isNonEmptyText : Yaml → Bool
  | .str s => s ≠ ""
  | _ => false

def isBool : Yaml → Bool
  | .bool _ => true
  | _ => false

def isPositive (v : Yaml) : Bool := (asInt? v).any fun n => 1 ≤ n

/-- A timestamp that is no ISO 8601 is only logged. -/
def sourceChecks : List FieldCheck :=
  [{ field := "provider", valid := isNonEmptyText, message := "source.provider must be a non-empty string" },
    { field := "export_timestamp", valid := isNonEmptyText
      message := "source.export_timestamp must be a non-empty string" },
    { field := "vm_name", valid := isText, message := "source.vm_name must be a string" },
    { field := "vm_id", valid := isText, message := "source.vm_id must be a string" }]

def vmChecks : List FieldCheck :=
  [{ field := "firmware", valid := fun v => (oneOf? ["bios", "uefi", "unknown"] v).isSome
     message := "vm.firmware must be one of: bios, uefi, unknown", showsValue := true },
    { field := "secureboot", valid := isBool, message := "vm.secureboot must be a boolean" },
    { field := "cpu", valid := isPositive, message := "vm.cpu must be an integer >= 1" },
    { field := "mem_gb", valid := isPositive, message := "vm.mem_gb must be an integer >= 1" }]

def validateSource (env : Environment) (manifest : Fields) : Except PyException Unit :=
  validateSection env "source" sourceChecks manifest

def validateVm (env : Environment) (manifest : Fields) : Except PyException Unit :=
  validateSection env "vm" vmChecks manifest

/-- `_validate` up to the disks: the manifest and its disks. -/
def diskList (env : Environment) : Yaml → Except PyException (Fields × List Yaml)
  | .map manifest =>
    let version := (Fields.get? manifest (.str "manifest_version")).getD .null
    if !version.truthy then
      .error (manifestError ("Missing required field: manifest_version. " ++
        "This is an Artifact Manifest v1. Expected versions: ['1.0']"))
    else if (oneOf? supportedVersions version).isNone then
      .error (manifestError ("Unsupported manifest version: " ++ env.str version ++
        ". This h2kvm version supports: ['1.0']"))
    else
      match Fields.get? manifest (.str "disks") with
      | none => .error (manifestError
          "Missing required field: disks[]. Artifact Manifest v1 requires at least one disk.")
      | some (.seq []) => .error (manifestError "Field 'disks' must contain at least one disk")
      | some (.seq disks) => .ok (manifest, disks)
      | some _ => .error (manifestError "Field 'disks' must be an array")
  | _ => .error (manifestError "Manifest must be a JSON object")

/-- `_validate`: the disks that were appended to `self.disks`, and the manifest or what it raises. -/
def validate (env : Environment) (v : Yaml) : List DiskArtifact × Except PyException Fields :=
  match diskList env v with
  | .error e => ([], .error e)
  | .ok (manifest, disks) =>
    let checked := validateDisks env disks
    (checked.1, do
      checked.2
      validateSource env manifest
      validateVm env manifest
      return manifest)

/-- The profile of the manifest with its overrides, or the text of what was raised. -/
def profileConfig (env : Environment) (manifest : Fields) (profileName : Yaml) : Except String Fields := do
  let profile ← env.loadProfile profileName ((manifest.get? (.str "profiles_directory")).getD .null)
  let overrides := (manifest.get? (.str "profile_overrides")).getD (.map [])
  if overrides.truthy then
    match overrides with
    | .map overrides => return mergeDicts .replace profile overrides
    | _ => throw (noAttribute overrides "keys").message
  else return profile

structure ManifestLoader where
  manifest : Yaml := .map []
  disks : List DiskArtifact := []
  loadedProfile : Option Fields := none

/-- `_apply_profile`, on the manifest that was checked. -/
def applyProfile (env : Environment) (manifest : Fields) (loader : ManifestLoader) :
    Except PyException Fields × ManifestLoader :=
  let profileName := (manifest.get? (.str "profile")).getD .null
  if !profileName.truthy then (.ok manifest, loader)
  else
    match profileConfig env manifest profileName with
    | .error e =>
      (.error (manifestError ("Failed to load migration profile '" ++ env.str profileName ++ "': " ++ e ++
        "\nVerify the profile name is correct. Available profiles can be listed with:\n" ++
        "  h2kvmctl --list-profiles\n" ++
        "Custom profiles should be placed in the profiles directory or specified via profiles_directory.")), loader)
    | .ok profile =>
      let merged := mergeDicts .replace profile manifest
      (.ok merged, { loader with loadedProfile := some profile, manifest := .map merged })

/-- `load`; `content` is what the file holds, or what reading it raises. -/
def ManifestLoader.load (env : Environment) (loader : ManifestLoader) (content : Except PyException Yaml) :
    Except PyException Fields × ManifestLoader :=
  match content with
  | .error e => (.error e, loader)
  | .ok v =>
    let validated := validate env v
    let loader := { loader with manifest := v, disks := loader.disks ++ validated.1 }
    match validated.2 with
    | .error e => (.error e, loader)
    | .ok manifest => applyProfile env manifest loader

def ManifestLoader.getDisks (loader : ManifestLoader) : List DiskArtifact := loader.disks

end manifest

end H2kvm.Orchestration.Manifest

namespace H2kvm.Orchestration.ManifestRun

open Framework Hooks

inductive Stage where
  | loadManifest
  | inspect
  | fix
  | convert
  | validate
  | libvirtIntegration
  | kubevirtDeploy
  | openstackDeploy
  deriving DecidableEq

/-- What the manifest says about the pipeline; a list of hooks that is empty counts as none. -/
structure Manifest where
  hooks : String → Option StageHooks
  enabled : Stage → Bool

/-- What may fail besides hooks. -/
structure World where
  stageFails : Stage → Bool := fun _ => false
  /-- `_create_hook_context`, before this hook stage. -/
  contextFails : String → Bool := fun _ => false
  reportFails : Bool := false

inductive Event where
  | hooks (stage : String)
  | stage (stage : Stage)
  deriving DecidableEq

/-- The pipeline with the events so far and the hook runner. -/
structure PipelineState where
  events : List Event := []
  hookRunner : Option HookRunner := none

abbrev Pipeline := EStateM Unit PipelineState

/-- `has_hooks_for_stage`. -/
def hasHooksForStage (config : String → Option StageHooks) (stage : String) : Bool :=
  match config stage with
  | none | some (.hooks []) => false
  | some _ => true

/-- `HookRunner.from_manifest`. -/
def fromManifest (m : Manifest) : Option HookRunner :=
  if HookRunner.supportedStages.any (hasHooksForStage m.hooks) then some ⟨m.hooks, ∅⟩ else none

namespace Pipeline

variable (w : World)

/-- Something that may raise. -/
def guarded (failed : Bool) : Pipeline Unit := fun s => if failed then .error () s else .ok () s

/-- `_run_stage`. -/
def runStage (stage : Stage) : Pipeline Unit := fun s =>
  let s := { s with events := s.events ++ [.stage stage] }
  if w.stageFails stage then .error () s else .ok () s

/-- `_execute_hook_stage`. -/
def executeHookStage (stage : String) : Pipeline Unit := fun s =>
  match s.hookRunner with
  | none => .ok () s
  | some runner =>
    if !hasHooksForStage runner.hooksConfig stage then .ok () s
    else
      let (answer, _, runner) := runner.executeStageHooks stage
      let s := { events := s.events ++ [.hooks stage], hookRunner := some runner }
      match answer with
      | .ok _ => .ok () s
      | .error _ => .error () s

/-- A hook stage with the context that is made for it. -/
def hookStage (stage : String) : Pipeline Unit := do
  guarded (w.contextFails stage)
  executeHookStage stage

/-- Stages gated by an enable/disable check. -/
def gated (enabled : Bool) (x : Pipeline Unit) : Pipeline Unit := if enabled then x else pure ()

/-- The stages of `run` up to `VALIDATE`, each with its hooks. -/
def conversionStages (m : Manifest) : Pipeline Unit := do
  gated (m.enabled .inspect) (runStage w .inspect)
  gated (m.enabled .fix) do
    hookStage w "pre_fix"
    runStage w .fix
    hookStage w "post_fix"
  gated (m.enabled .convert) do
    hookStage w "pre_convert"
    runStage w .convert
    hookStage w "post_convert"
  gated (m.enabled .validate) do
    runStage w .validate
    hookStage w "post_validate"

def deployStages (m : Manifest) : Pipeline Unit := do
  gated (m.enabled .libvirtIntegration) (runStage w .libvirtIntegration)
  gated (m.enabled .kubevirtDeploy) (runStage w .kubevirtDeploy)
  gated (m.enabled .openstackDeploy) (runStage w .openstackDeploy)

/-- `run`, with the manifest that is loaded. -/
def run (m : Manifest) : Pipeline Unit := do
  executeHookStage "pre_extraction"
  runStage w .loadManifest
  modify fun s => { s with hookRunner := fromManifest m }
  hookStage w "post_extraction"
  conversionStages w m
  deployStages w m
  guarded w.reportFails

end Pipeline

/-- A hook stage, the stage of the pipeline it belongs to, and whether it comes before it. -/
structure HookPoint where
  name : String
  stage : Stage
  before : Bool
  deriving DecidableEq

def hookPoints : List HookPoint :=
  [⟨"pre_extraction", .loadManifest, true⟩, ⟨"post_extraction", .loadManifest, false⟩, ⟨"pre_fix", .fix, true⟩,
    ⟨"post_fix", .fix, false⟩, ⟨"pre_convert", .convert, true⟩, ⟨"post_convert", .convert, false⟩,
    ⟨"post_validate", .validate, false⟩]

/-- The hook stages that are configured and belong to the extraction or to a stage that is enabled. -/
def Manifest.due (m : Manifest) (point : HookPoint) : Bool :=
  hasHooksForStage m.hooks point.name && (point.stage == .loadManifest || m.enabled point.stage)

def Event.hookName : Event → Option String
  | .hooks name => some name
  | .stage _ => none

/-- The hook stage and its stage of the pipeline are among the events in their order. -/
def HookPoint.placedIn (point : HookPoint) (events : List Event) : Prop :=
  if point.before then List.Sublist [.hooks point.name, .stage point.stage] events
  else List.Sublist [.stage point.stage, .hooks point.name] events

/-- The hook stages that are due are executed once, in their order, on their side of their stage. -/
structure FiresInOrder (m : Manifest) (events : List Event) : Prop where
  fired : events.filterMap Event.hookName = (hookPoints.filter m.due).map HookPoint.name
  placed : ∀ point ∈ hookPoints, m.due point → point.placedIn events

section events

variable {m : Manifest} {w : World} {s s' : PipelineState} {u : Unit} {name : String}

/-- The event of a hook stage, if it has hooks. -/
def hookEvents (m : Manifest) (name : String) : List Event := if hasHooksForStage m.hooks name then [.hooks name] else []

/-- The runner is the one that the manifest asks for, if it asks for one. -/
def Running (m : Manifest) (s : PipelineState) : Prop :=
  match s.hookRunner with
  | none => ∀ name ∈ HookRunner.supportedStages, hasHooksForStage m.hooks name = false
  | some runner => runner.hooksConfig = m.hooks

/-- A part of the pipeline that adds these events if it succeeds. -/
def Adds (m : Manifest) (x : Pipeline Unit) (events : List Event) : Prop :=
  ∀ s s' u, Running m s → x s = .ok u s' → Running m s' ∧ s'.events = s.events ++ events

theorem running_fromManifest (m : Manifest) (events : List Event) : Running m ⟨events, fromManifest m⟩ := by
  rw [Running, fromManifest]
  split
  · next none =>
    split at none
    · cases none
    · next nowhere =>
      intro name supported
      rw [List.any_eq_true, not_exists] at nowhere
      exact Bool.eq_false_iff.mpr fun there => nowhere name ⟨supported, there⟩
  · next runner some =>
    split at some
    · cases some
      rfl
    · cases some

theorem adds_pure : Adds m (pure ()) [] := by
  intro s s' u running read
  cases read
  exact ⟨running, (List.append_nil _).symm⟩

theorem adds_bind {x y : Pipeline Unit} {first second : List Event} (hx : Adds m x first) (hy : Adds m y second) :
    Adds m (do x; y) (first ++ second) := by
  intro s s'' u running read
  obtain ⟨v, s', ran, rest⟩ := bind_eq_ok_iff.mp read
  obtain ⟨running, events⟩ := hx s s' v running ran
  obtain ⟨running, events'⟩ := hy s' s'' u running rest
  exact ⟨running, by rw [events', events, List.append_assoc]⟩

theorem adds_guarded (failed : Bool) : Adds m (Pipeline.guarded failed) [] := by
  intro s s' u running read
  cases failed with
  | true => cases read
  | false =>
    cases read
    exact ⟨running, (List.append_nil _).symm⟩

theorem adds_runStage (w : World) (stage : Stage) : Adds m (Pipeline.runStage w stage) [.stage stage] := by
  intro s s' u running read
  rw [Pipeline.runStage] at read
  cases fails : w.stageFails stage <;> rw [fails] at read <;> cases read
  exact ⟨running, rfl⟩

theorem executeStageHooks_hooksConfig (r : HookRunner) (name : String) :
    (r.executeStageHooks name).2.2.hooksConfig = r.hooksConfig := by
  rw [HookRunner.executeStageHooks]
  split
  · rfl
  · split <;> rfl

theorem adds_executeHookStage (supported : name ∈ HookRunner.supportedStages) :
    Adds m (Pipeline.executeHookStage name) (hookEvents m name) := by
  intro s s' u running read
  rw [Running] at running
  rw [Pipeline.executeHookStage] at read
  cases known : s.hookRunner with
  | none =>
    rw [known] at running read
    cases read
    have nothing : hookEvents m name = [] := by rw [hookEvents, running name supported, if_neg Bool.false_ne_true]
    rw [Running, known, nothing, List.append_nil]
    exact ⟨running, rfl⟩
  | some runner =>
    rw [known] at running read
    dsimp only at running read
    rw [running] at read
    cases there : hasHooksForStage m.hooks name with
    | false =>
      rw [there] at read
      cases read
      rw [Running, known, hookEvents, there, if_neg Bool.false_ne_true, List.append_nil]
      exact ⟨running, rfl⟩
    | true =>
      rw [there, Bool.not_true, if_neg Bool.false_ne_true] at read
      have same := executeStageHooks_hooksConfig runner name
      rw [hookEvents, there, if_pos rfl]
      cases answer : (runner.executeStageHooks name).1 <;> rw [answer] at read <;> cases read
      exact ⟨same.trans running, rfl⟩

theorem adds_hookStage (supported : name ∈ HookRunner.supportedStages) :
    Adds m (Pipeline.hookStage w name) (hookEvents m name) :=
  adds_bind (adds_guarded _) (adds_executeHookStage supported)

theorem adds_gated {x : Pipeline Unit} {events : List Event} (enabled : Bool) (hx : Adds m x events) :
    Adds m (Pipeline.gated enabled x) (if enabled then events else []) := by
  cases enabled with
  | true => exact hx
  | false => exact adds_pure

end events

section schedule

variable (m : Manifest)

/-- The events of one gated stage, with the hook stages before and after it. -/
def stageEvents (pre post : List String) (stage : Stage) : List Event :=
  if m.enabled stage then pre.flatMap (hookEvents m) ++ ([.stage stage] ++ post.flatMap (hookEvents m)) else []

/-- The events of a run that succeeds, after the manifest is loaded. -/
def convertEvents : List Event :=
  stageEvents m [] [] .inspect ++ (stageEvents m ["pre_fix"] ["post_fix"] .fix ++
    (stageEvents m ["pre_convert"] ["post_convert"] .convert ++ stageEvents m [] ["post_validate"] .validate))

def deployEvents : List Event :=
  stageEvents m [] [] .libvirtIntegration ++
    (stageEvents m [] [] .kubevirtDeploy ++ stageEvents m [] [] .openstackDeploy)

variable {m : Manifest} {w : World} {s' : PipelineState} {u : Unit}

theorem adds_stage {pre post : List String} {stage : Stage} {x : Pipeline Unit}
    (hx : Adds m x (pre.flatMap (hookEvents m) ++ ([.stage stage] ++ post.flatMap (hookEvents m)))) :
    Adds m (Pipeline.gated (m.enabled stage) x) (stageEvents m pre post stage) := adds_gated _ hx

theorem adds_conversionStages : Adds m (Pipeline.conversionStages w m) (convertEvents m) := by
  have hooks (name : String) (supported : name ∈ HookRunner.supportedStages) :
      Adds m (Pipeline.hookStage w name) ([name].flatMap (hookEvents m)) := by
    rw [List.flatMap_singleton]
    exact adds_hookStage supported
  refine adds_bind ?inspect (adds_bind ?fix (adds_bind ?convert ?validate))
  case inspect => exact adds_stage (adds_runStage w .inspect)
  case fix =>
    exact adds_stage (adds_bind (hooks "pre_fix" (by decide)) (adds_bind (adds_runStage w .fix) (hooks "post_fix" (by decide))))
  case convert =>
    have before := hooks "pre_convert" (by decide)
    exact adds_stage (adds_bind before (adds_bind (adds_runStage w .convert) (hooks "post_convert" (by decide))))
  case validate =>
    have checked := adds_bind (adds_runStage w .validate) (hooks "post_validate" (by decide))
    exact adds_stage checked

theorem adds_deployStages : Adds m (Pipeline.deployStages w m) (deployEvents m) := by
  have alone (stage : Stage) : Adds m (Pipeline.gated (m.enabled stage) (Pipeline.runStage w stage)) (stageEvents m [] [] stage) :=
    adds_stage (adds_runStage w stage)
  exact adds_bind (alone .libvirtIntegration) (adds_bind (alone .kubevirtDeploy) (alone .openstackDeploy))

theorem run_events (m : Manifest) (w : World) (s' : PipelineState) (u : Unit)
    (succeeds : Pipeline.run w m {} = .ok u s') :
    s'.events = [.stage .loadManifest] ++ (hookEvents m "post_extraction" ++ (convertEvents m ++ deployEvents m)) := by
  have idle : Pipeline.executeHookStage "pre_extraction" {} = .ok () {} := rfl
  rw [Pipeline.run, bind_of_ok idle] at succeeds
  obtain ⟨_, loaded, load, succeeds⟩ := bind_eq_ok_iff.mp succeeds
  have begun : loaded = ⟨[.stage .loadManifest], none⟩ := by
    rw [Pipeline.runStage] at load
    cases fails : w.stageFails .loadManifest <;> rw [fails] at load <;> cases load
    rfl
  subst begun
  have stages : Adds m (do Pipeline.conversionStages w m; Pipeline.deployStages w m; Pipeline.guarded w.reportFails)
      (convertEvents m ++ (deployEvents m ++ [])) :=
    adds_bind adds_conversionStages (adds_bind adds_deployStages (adds_guarded w.reportFails))
  have extracted : Adds m (Pipeline.hookStage w "post_extraction") (hookEvents m "post_extraction") :=
    adds_hookStage (by decide)
  rw [(adds_bind extracted stages _ _ _ (running_fromManifest m _) succeeds).2, List.append_nil]

/-- The hook points of a stage are those around it. -/
def hookPointsOf (pre post : List String) (stage : Stage) : List HookPoint :=
  pre.map (⟨·, stage, true⟩) ++ post.map (⟨·, stage, false⟩)

theorem hookEvents_hookName (names : List String) :
    (names.flatMap (hookEvents m)).filterMap Event.hookName = names.filter (hasHooksForStage m.hooks) := by
  induction names with
  | nil => rfl
  | cons name names ih =>
    rw [List.flatMap_cons, List.filterMap_append, ih, hookEvents, List.filter_cons]
    split <;> rfl

theorem due_names (names : List String) (stage : Stage) (before : Bool) (gated : stage ≠ .loadManifest) :
    ((names.map (HookPoint.mk · stage before)).filter m.due).map HookPoint.name =
      if m.enabled stage then names.filter (hasHooksForStage m.hooks) else [] := by
  have other : (stage == Stage.loadManifest) = false := beq_eq_false_iff_ne.mpr gated
  induction names with
  | nil => simp
  | cons name names ih =>
    rw [List.map_cons, List.filter_cons, List.filter_cons, Manifest.due, other, Bool.false_or]
    cases enabled : m.enabled stage <;> cases there : hasHooksForStage m.hooks name <;> simp_all

theorem stageEvents_hookName (pre post : List String) (stage : Stage) (gated : stage ≠ .loadManifest) :
    (stageEvents m pre post stage).filterMap Event.hookName =
      ((hookPointsOf pre post stage).filter m.due).map HookPoint.name := by
  rw [hookPointsOf, List.filter_append, List.map_append, due_names pre stage true gated, due_names post stage false gated,
    stageEvents]
  split
  · rw [List.filterMap_append, List.filterMap_append, hookEvents_hookName, hookEvents_hookName]
    rfl
  · rfl

theorem fired_hookName (m : Manifest) :
    ([Event.stage .loadManifest] ++ (hookEvents m "post_extraction" ++ (convertEvents m ++ deployEvents m))).filterMap
      Event.hookName = (hookPoints.tail.filter m.due).map HookPoint.name := by
  have extraction : (hookEvents m "post_extraction").filterMap Event.hookName =
      (List.filter m.due [⟨"post_extraction", .loadManifest, false⟩]).map HookPoint.name := by
    rw [hookEvents, List.filter_cons, Manifest.due]
    cases hasHooksForStage m.hooks "post_extraction" <;> rfl
  have split : hookPoints.tail = [⟨"post_extraction", .loadManifest, false⟩] ++ (hookPointsOf [] [] .inspect ++
      (hookPointsOf ["pre_fix"] ["post_fix"] .fix ++ (hookPointsOf ["pre_convert"] ["post_convert"] .convert ++
      (hookPointsOf [] ["post_validate"] .validate ++ (hookPointsOf [] [] .libvirtIntegration ++
      (hookPointsOf [] [] .kubevirtDeploy ++ hookPointsOf [] [] .openstackDeploy)))))) := rfl
  rw [split, convertEvents, deployEvents]
  simp (disch := decide) only [List.filterMap_append, List.filter_append, List.map_append, List.append_assoc, extraction,
    stageEvents_hookName]
  rfl

theorem HookPoint.placedIn_of_sublist {point : HookPoint} {events all : List Event} (part : List.Sublist events all)
    (placed : point.placedIn events) : point.placedIn all := by
  rw [placedIn] at placed ⊢
  split
  · next before =>
    rw [if_pos before] at placed
    exact placed.trans part
  · next after =>
    rw [if_neg after] at placed
    exact placed.trans part

theorem stageEvents_placed {pre post : List String} {stage : Stage} {point : HookPoint} (gated : stage ≠ .loadManifest)
    (mem : point ∈ hookPointsOf pre post stage) (due : m.due point) : point.placedIn (stageEvents m pre post stage) := by
  have fires {name : String} {names : List String} (there : name ∈ names) (configured : hasHooksForStage m.hooks name) :
      List.Sublist [.hooks name] (names.flatMap (hookEvents m)) := by
    rw [List.singleton_sublist, List.mem_flatMap]
    exact ⟨name, there, by rw [hookEvents, if_pos configured, List.mem_singleton]⟩
  obtain ⟨name, there, rfl⟩ | ⟨name, there, rfl⟩ := (List.mem_append.mp mem).imp List.mem_map.mp List.mem_map.mp <;>
    have enabled : hasHooksForStage m.hooks name = true ∧ m.enabled stage = true := by
      simpa [Manifest.due, gated] using due
  · rw [HookPoint.placedIn, if_pos rfl, stageEvents, if_pos enabled.2]
    exact (fires there enabled.1).append (List.sublist_append_left [Event.stage stage] _)
  · rw [HookPoint.placedIn, if_neg Bool.false_ne_true, stageEvents, if_pos enabled.2]
    exact ((List.Sublist.refl [Event.stage stage]).append (fires there enabled.1)).trans (List.sublist_append_right _ _)

theorem placed_of_due {point : HookPoint} (mem : point ∈ hookPoints.tail) (due : m.due point) :
    point.placedIn ([.stage .loadManifest] ++ (hookEvents m "post_extraction" ++ (convertEvents m ++ deployEvents m))) := by
  have inPart {pre post : List String} {stage : Stage} (part : List.Sublist (stageEvents m pre post stage) (convertEvents m))
      (gated : stage ≠ .loadManifest) (there : point ∈ hookPointsOf pre post stage) :
      point.placedIn ([.stage .loadManifest] ++ (hookEvents m "post_extraction" ++ (convertEvents m ++ deployEvents m))) := by
    refine HookPoint.placedIn_of_sublist ?_ (stageEvents_placed gated there due)
    calc List.Sublist (stageEvents m pre post stage) (convertEvents m) := part
      List.Sublist _ (convertEvents m ++ deployEvents m) := List.sublist_append_left _ _
      List.Sublist _ (hookEvents m "post_extraction" ++ (convertEvents m ++ deployEvents m)) := List.sublist_append_right _ _
      List.Sublist _ _ := List.sublist_append_right _ _
  have fix : List.Sublist (stageEvents m ["pre_fix"] ["post_fix"] .fix) (convertEvents m) :=
    (List.sublist_append_left _ _).trans (List.sublist_append_right _ _)
  have convert : List.Sublist (stageEvents m ["pre_convert"] ["post_convert"] .convert) (convertEvents m) :=
    ((List.sublist_append_left _ _).trans (List.sublist_append_right _ _)).trans (List.sublist_append_right _ _)
  have validate : List.Sublist (stageEvents m [] ["post_validate"] .validate) (convertEvents m) :=
    ((List.sublist_append_right _ _).trans (List.sublist_append_right _ _)).trans (List.sublist_append_right _ _)
  simp only [hookPoints, List.tail_cons, List.mem_cons, List.not_mem_nil, or_false] at mem
  obtain rfl | rfl | rfl | rfl | rfl | rfl := mem
  · rw [Manifest.due, Bool.and_eq_true] at due
    rw [HookPoint.placedIn, if_neg Bool.false_ne_true, hookEvents, if_pos due.1]
    exact (List.Sublist.refl [Event.stage .loadManifest]).append (List.sublist_append_left _ _)
  · exact inPart fix (by decide) (by decide)
  · exact inPart fix (by decide) (by decide)
  · exact inPart convert (by decide) (by decide)
  · exact inPart convert (by decide) (by decide)
  · exact inPart validate (by decide) (by decide)

theorem firesInOrder_iff (m : Manifest) :
    FiresInOrder m ([.stage .loadManifest] ++ (hookEvents m "post_extraction" ++ (convertEvents m ++ deployEvents m))) ↔
      hasHooksForStage m.hooks "pre_extraction" = false := by
  have points : hookPoints = ⟨"pre_extraction", .loadManifest, true⟩ :: hookPoints.tail := rfl
  have first : hookPoints.filter m.due =
      (if hasHooksForStage m.hooks "pre_extraction" then [⟨"pre_extraction", .loadManifest, true⟩] else []) ++
        hookPoints.tail.filter m.due := by
    rw [points, List.filter_cons, Manifest.due]
    cases hasHooksForStage m.hooks "pre_extraction" <;> rfl
  constructor
  · intro ⟨fired, _⟩
    rw [fired_hookName, first, List.map_append] at fired
    have none := List.length_eq_zero_iff.mpr (List.self_eq_append_left.mp fired)
    cases there : hasHooksForStage m.hooks "pre_extraction" with
    | false => rfl
    | true =>
      rw [there] at none
      cases none
  · intro none
    rw [none, if_neg Bool.false_ne_true, List.nil_append] at first
    refine ⟨by rw [fired_hookName, first], fun point mem due => ?_⟩
    rw [points, List.mem_cons] at mem
    rcases mem with rfl | mem
    · rw [Manifest.due, none, Bool.false_and] at due
      cases due
    · exact placed_of_due mem due

end schedule

/-- A run that succeeds executes the hook stages that are due once and in order, just if the manifest has no hooks for
before the extraction, when there is no runner yet. -/
theorem run_firesInOrder_iff (m : Manifest) (w : World) (s' : PipelineState) (u : Unit)
    (succeeds : Pipeline.run w m {} = .ok u s') :
    FiresInOrder m s'.events ↔ hasHooksForStage m.hooks "pre_extraction" = false := by
  rw [run_events m w s' u succeeds]
  exact firesInOrder_iff m

/-- A script that succeeds. -/
def script : Hook := ⟨{ type := some "script", keys := ["path"] }, fun _ => .succeeded⟩

/-- A manifest that has one script for a hook stage. -/
def scripted (name : String) : Manifest where
  hooks stage := if stage = name then some (.hooks [script]) else none
  enabled _ := true

theorem scripted_succeeds : ∃ s', Pipeline.run {} (scripted "pre_fix") {} = .ok () s' := by
  have succeeds : (match Pipeline.run {} (scripted "pre_fix") {} with | .ok _ _ => true | .error _ _ => false) = true := by
    decide +kernel
  cases run : Pipeline.run {} (scripted "pre_fix") {} with
  | ok _ s' => exact ⟨s', rfl⟩
  | error _ _ =>
    rw [run] at succeeds
    cases succeeds

theorem run_firesInOrder_scripted : ∃ s', Pipeline.run {} (scripted "pre_fix") {} = .ok () s' ∧
    (FiresInOrder (scripted "pre_fix") s'.events ↔ hasHooksForStage (scripted "pre_fix").hooks "pre_extraction" = false) := by
  obtain ⟨s', succeeds⟩ := scripted_succeeds
  exact ⟨s', succeeds, run_firesInOrder_iff (scripted "pre_fix") {} s' () succeeds⟩

/-- A script for before the extraction is not executed. -/
theorem not_firesInOrder_scripted : ¬∀ (m : Manifest) (w : World) (s' : PipelineState) (u : Unit),
    Pipeline.run w m {} = .ok u s' → FiresInOrder m s'.events := by
  intro always
  have fires := always (scripted "pre_extraction") {} _ () rfl
  have none := (firesInOrder_iff (scripted "pre_extraction")).mp fires
  cases none

end H2kvm.Orchestration.ManifestRun
