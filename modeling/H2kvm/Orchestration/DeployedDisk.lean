import Mathlib.Data.Option.Basic
import H2kvm.Framework.Data

namespace H2kvm.Orchestration.Artifacts

open Framework

structure Path where
  root : String := ""
  parts : List String := []
  deriving DecidableEq

/-- `/` with a name that has no `/`. -/
def Path.child (p : Path) (name : String) : Path := { p with parts := p.parts ++ [name] }

def Path.parent (p : Path) : Path := { p with parts := p.parts.dropLast }

/-- The paths that exist. -/
abbrev Files := Path → Bool

structure DiskArtifact where
  id : String
  localPath : Path
  bootOrderHint : Nat := 999
  deriving DecidableEq

structure Output where
  directory : Option String := none
  format : Option String := none

/-- What `load` leaves of a manifest, which has at least one disk. -/
structure ManifestLoader where
  path : Option Path := none
  output : Option Output := none
  disks : List DiskArtifact
  nonempty : disks ≠ []

/-- What the stages use; what raises is `none`. -/
structure World where
  /-- `Path(..).expanduser().resolve()`. -/
  resolve : String → Path
  /-- `Path(..)`. -/
  pathOf : String → Path
  ensureDir : Path → Files → Option Files
  /-- `Convert.convert_image_with_progress` of a disk to a path and a format. -/
  convertImage : Path → Path → String → Files → Option Files

namespace ManifestLoader

def supportedOutputFormats : List String := ["qcow2", "raw", "vdi"]

variable (loader : ManifestLoader)

def sortedDisks : List DiskArtifact := loader.disks.mergeSort fun d d' => d.bootOrderHint ≤ d'.bootOrderHint

theorem sortedDisks_ne_nil : loader.sortedDisks ≠ [] := by
  intro none
  have sorted := List.mergeSort_perm loader.disks fun d d' => d.bootOrderHint ≤ d'.bootOrderHint
  rw [← sortedDisks, none] at sorted
  exact loader.nonempty sorted.symm.eq_nil

def getBootDisk : DiskArtifact := loader.sortedDisks.head loader.sortedDisks_ne_nil

def getOutputDirectory (w : World) : Path :=
  match loader.output.bind Output.directory with
  | some directory => w.resolve directory
  | none =>
    match loader.path with
    | some path => path.parent.child "output"
    | none => { parts := ["output"] }

def getOutputFormat : String :=
  match loader.output with
  | some output => output.format.getD "qcow2"
  | none => "qcow2"

end ManifestLoader

/-- What the orchestrator keeps from stage to stage, with the files. -/
structure State where
  files : Files
  outputDir : Option Path := none
  convertedDisks : Dict String Path := ∅

variable (w : World) (loader : ManifestLoader)

/-- A round of the loop of `_stage_convert`. -/
def convertDisk (outputDir : Path) (outputFormat : String) (s : State) (disk : DiskArtifact) : Option State := do
  let outputPath := outputDir.child (disk.id ++ "." ++ outputFormat)
  let files ← w.convertImage disk.localPath outputPath outputFormat s.files
  -- `output_path.stat()`
  guard (files outputPath)
  return { s with files, convertedDisks := s.convertedDisks.insert disk.id outputPath }

/-- `_stage_convert`. -/
def stageConvert (s : State) : Option State := do
  let outputDir := loader.getOutputDirectory w
  let files ← w.ensureDir outputDir s.files
  loader.disks.foldlM (convertDisk w outputDir loader.getOutputFormat) { s with files, outputDir := some outputDir }

/-- The path of the boot disk that a deploy stage looks for in the output directory, or else falls back to. -/
def resolveDisk (s : State) : Path :=
  let bootDisk := loader.getBootDisk
  let outDir :=
    match s.outputDir with
    | some outputDir => outputDir
    | none =>
      match loader.output.bind Output.directory with
      | none | some "" => {}
      | some directory => w.pathOf directory
  let diskPath := outDir.child (bootDisk.id ++ ".qcow2")
  if s.files diskPath then diskPath else bootDisk.localPath

/-- The `disk_path` of `_stage_kubevirt_deploy`. -/
def kubevirtDiskPath (s : State) : Path := resolveDisk w loader s

/-- The `disk_path` of `_stage_openstack_deploy`. -/
def openstackDiskPath (s : State) : Path := resolveDisk w loader s

/-- Both deploy stages use the path that was recorded for the boot disk. -/
def DeploysConverted (s : State) : Prop :=
  s.convertedDisks.lookup loader.getBootDisk.id = some (kubevirtDiskPath w loader s) ∧
    s.convertedDisks.lookup loader.getBootDisk.id = some (openstackDiskPath w loader s)

/-- The disk image that is looked for is the one that was converted, or it is not there and the source image is that one. -/
def GuessRight (files : Files) : Prop :=
  let outputDir := loader.getOutputDirectory w
  let bootDisk := loader.getBootDisk
  if files (outputDir.child (bootDisk.id ++ ".qcow2")) then loader.getOutputFormat = "qcow2"
  else bootDisk.localPath = outputDir.child (bootDisk.id ++ "." ++ loader.getOutputFormat)

section deployed

variable {w : World} {loader : ManifestLoader} {s s' : State} {disks : List DiskArtifact} {outputDir : Path} {format : String}

theorem getBootDisk_least (loader : ManifestLoader) : loader.getBootDisk ∈ loader.disks ∧
    ∀ disk ∈ loader.disks, loader.getBootDisk.bootOrderHint ≤ disk.bootOrderHint := by
  have sorted : loader.sortedDisks.Pairwise (fun d d' => d.bootOrderHint ≤ d'.bootOrderHint) := by
    have pairwise : loader.sortedDisks.Pairwise (fun d d' => decide (d.bootOrderHint ≤ d'.bootOrderHint) = true) :=
      List.pairwise_mergeSort (fun a b c ab bc => by simp only [decide_eq_true_eq] at ab bc ⊢; omega)
        (fun a b => by simp only [Bool.or_eq_true, decide_eq_true_eq]; omega) loader.disks
    simpa only [decide_eq_true_eq] using pairwise
  have same (disk : DiskArtifact) : disk ∈ loader.sortedDisks ↔ disk ∈ loader.disks := List.mem_mergeSort
  have first : loader.sortedDisks = loader.getBootDisk :: loader.sortedDisks.tail :=
    (List.cons_head_tail loader.sortedDisks_ne_nil).symm
  rw [first, List.pairwise_cons] at sorted
  constructor
  · rw [← same, first]
    exact List.mem_cons_self
  · intro disk mem
    rw [← same, first, List.mem_cons] at mem
    rcases mem with rfl | mem
    · exact Nat.le_refl _
    · exact sorted.1 disk mem

theorem child_injective {p : Path} {name name' : String} (same : p.child name = p.child name') : name = name' := by
  have parts := congrArg Path.parts same
  simpa [Path.child] using parts

theorem qcow2_name_eq_iff {id : String} : id ++ ".qcow2" = id ++ "." ++ format ↔ format = "qcow2" := by
  have name : ".qcow2" = "." ++ "qcow2" := by decide
  rw [name, ← String.append_assoc]
  constructor
  · intro same
    have texts := congrArg String.toList same
    simp only [String.toList_append, List.append_cancel_left_eq, String.toList_inj] at texts
    exact texts.symm
  · rintro rfl
    rfl

theorem convertDisk_some {disk : DiskArtifact} (converted : convertDisk w outputDir format s disk = some s') :
    s'.outputDir = s.outputDir ∧
      s'.convertedDisks = s.convertedDisks.insert disk.id (outputDir.child (disk.id ++ "." ++ format)) := by
  simp only [convertDisk, bind, Option.bind_eq_some_iff] at converted
  obtain ⟨files, -, -, -, same⟩ := converted
  cases same
  exact ⟨rfl, rfl⟩

theorem foldlM_convertDisk_some (converted : disks.foldlM (convertDisk w outputDir format) s = some s') :
    s'.outputDir = s.outputDir ∧ ∀ id, id ∈ disks.map DiskArtifact.id ∨
      s.convertedDisks.lookup id = some (outputDir.child (id ++ "." ++ format)) →
      s'.convertedDisks.lookup id = some (outputDir.child (id ++ "." ++ format)) := by
  induction disks generalizing s with
  | nil =>
    cases converted
    refine ⟨rfl, fun id recorded => ?_⟩
    simpa using recorded
  | cons disk disks ih =>
    rw [List.foldlM_cons, Option.bind_eq_bind, Option.bind_eq_some_iff] at converted
    obtain ⟨next, first, rest⟩ := converted
    obtain ⟨kept, inserted⟩ := convertDisk_some first
    obtain ⟨keeps, records⟩ := ih rest
    refine ⟨keeps.trans kept, fun id recorded => records id ?_⟩
    rw [List.map_cons, List.mem_cons, or_assoc] at recorded
    rcases recorded with rfl | later | before
    · exact Or.inr (by rw [inserted, AList.lookup_insert])
    · exact Or.inl later
    · by_cases same : id = disk.id
      · exact Or.inr (by rw [inserted, same, AList.lookup_insert])
      · exact Or.inr (by rw [inserted, AList.lookup_insert_ne same, before])

theorem stageConvert_some (converted : stageConvert w loader s = some s') :
    s'.outputDir = some (loader.getOutputDirectory w) ∧ ∀ disk ∈ loader.disks, s'.convertedDisks.lookup disk.id =
      some ((loader.getOutputDirectory w).child (disk.id ++ "." ++ loader.getOutputFormat)) := by
  rw [stageConvert, Option.bind_eq_bind, Option.bind_eq_some_iff] at converted
  obtain ⟨files, -, disks⟩ := converted
  obtain ⟨dir, records⟩ := foldlM_convertDisk_some disks
  exact ⟨dir, fun disk mem => records disk.id (Or.inl (List.mem_map_of_mem mem))⟩

theorem resolveDisk_eq_iff (found : s.outputDir = some (loader.getOutputDirectory w)) :
    resolveDisk w loader s =
        (loader.getOutputDirectory w).child (loader.getBootDisk.id ++ "." ++ loader.getOutputFormat) ↔
      GuessRight w loader s.files := by
  rw [resolveDisk, GuessRight, found]
  dsimp only
  split
  · rw [← qcow2_name_eq_iff]
    exact ⟨child_injective, congrArg _⟩
  · rfl

/-- After disks are converted, the deploy stages use the converted boot disk, whatever the files are by then, just if the
image that is looked for is the one that was converted, or if it is not there and the source image is that one. -/
theorem deploysConverted_iff (w : World) (loader : ManifestLoader) (s s' : State) (files : Files)
    (converted : stageConvert w loader s = some s') :
    DeploysConverted w loader { s' with files } ↔ GuessRight w loader files := by
  obtain ⟨dir, records⟩ := stageConvert_some converted
  have recorded := records loader.getBootDisk (getBootDisk_least loader).1
  rw [DeploysConverted, kubevirtDiskPath, openstackDiskPath, recorded, and_self, Option.some_inj, eq_comm]
  exact resolveDisk_eq_iff dir

end deployed

/-- Every conversion succeeds and makes its output. -/
def plainWorld : World where
  resolve text := ⟨"/", [text]⟩
  pathOf text := ⟨"", [text]⟩
  ensureDir _ files := some files
  convertImage _ output _ files := some fun path => path = output || files path

/-- A manifest with one disk and this output format. -/
def oneDisk (format : String) : ManifestLoader where
  output := some { directory := some "out", format := some format }
  disks := [⟨"disk0", ⟨"/", ["disk0.vmdk"]⟩, 0⟩]
  nonempty := List.cons_ne_nil _ _

def sourceDisk : Path := ⟨"/", ["disk0.vmdk"]⟩

def outputDisk (format : String) : Path := ⟨"/", ["out", "disk0" ++ "." ++ format]⟩

/-- The state after the disk is converted. -/
def convertedState (format : String) : State where
  files path := path = outputDisk format || path = sourceDisk
  outputDir := some ⟨"/", ["out"]⟩
  convertedDisks := AList.insert "disk0" (outputDisk format) ∅

theorem stageConvert_oneDisk (format : String) :
    stageConvert plainWorld (oneDisk format) { files := fun path => path = sourceDisk } = some (convertedState format) := by
  have there : (convertedState format).files (outputDisk format) = true := by simp [convertedState]
  have first : stageConvert plainWorld (oneDisk format) { files := fun path => path = sourceDisk } =
      ((guard ((convertedState format).files (outputDisk format) = true) >>= fun _ => some (convertedState format)) >>= some) :=
    rfl
  rw [first, there]
  rfl

theorem deploysConverted_qcow2 :
    DeploysConverted plainWorld (oneDisk "qcow2") { convertedState "qcow2" with files := (convertedState "qcow2").files } ↔
      GuessRight plainWorld (oneDisk "qcow2") (convertedState "qcow2").files :=
  deploysConverted_iff plainWorld (oneDisk "qcow2") _ _ _ (stageConvert_oneDisk "qcow2")

/-- A disk that is converted to `raw` is not the one that is deployed, though no file has changed since. -/
theorem not_deploysConverted_raw : ¬∀ (w : World) (loader : ManifestLoader) (s s' : State) (files : Files),
    loader.getOutputFormat ∈ ManifestLoader.supportedOutputFormats → stageConvert w loader s = some s' →
    DeploysConverted w loader { s' with files } := by
  intro always
  have deployed := always plainWorld (oneDisk "raw") _ _ (convertedState "raw").files (by decide) (stageConvert_oneDisk "raw")
  exact absurd deployed.1 (by decide +kernel)

end H2kvm.Orchestration.Artifacts
