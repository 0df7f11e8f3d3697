import Mathlib.Logic.Function.Basic
import H2kvm.Framework.Run
import H2kvm.Framework.Names
import H2kvm.Recovery.Manager

namespace H2kvm.Orchestration

open Framework Names
open Recovery (DateTime nowTs)

section diskProcessor

abbrev Str := List Char

/-- A directory that was there, or one that `tempfile.mkdtemp` makes. -/
inductive Place where
  | folder (path : List Str)
  | temp (name : Str)
  deriving DecidableEq

structure File where
  place : Place
  name : Str
  deriving DecidableEq

/-- What a file holds: the image of the disk of an index, or something else. -/
inductive Data where
  | image (index : Nat)
  | other
  deriving DecidableEq

inductive Change where
  | write (f : File) (data : Data)
  | remove (f : File)
  | mkdir (d : Str)
  | rmtree (d : Str)
  deriving DecidableEq

/-- The change writes, replaces or deletes the file. -/
def Change.Hits : Change → File → Prop
  | .write g _, f | .remove g, f => g = f
  | .mkdir _, _ => False
  | .rmtree d, f => f.place = .temp d

structure FileSystem where
  files : File → Option Data
  dirs : Str → Bool

def FileSystem.apply (fs : FileSystem) : Change → FileSystem
  | .write f data => { fs with files := Function.update fs.files f (some data) }
  | .remove f => { fs with files := Function.update fs.files f none }
  | .mkdir d => { fs with dirs := Function.update fs.dirs d true }
  | .rmtree d =>
    { files := fun f => if f.place = .temp d then none else fs.files f
      dirs := Function.update fs.dirs d false }

def FileSystem.applyAll (fs : FileSystem) (changes : List Change) : FileSystem := changes.foldl FileSystem.apply fs

/-- A path of the configuration that names a file. -/
structure PathArg where
  absolute : Bool
  parent : List Str
  name : Str

/-- The options of the offline fixes that an inspection can change. -/
structure Options where
  regenInitramfs : Bool := true
  initramfsAddDrivers : List Str := []
  deriving DecidableEq

/-- `DiskProcessingConfig`. -/
structure Config where
  workdir : Option (List Str) := none
  skipVmdkInspection : Bool := false
  vmdkAutoFixController : Bool := false
  flatten : Bool := false
  flattenFormat : Str := "qcow2".toList
  report : Option PathArg := none
  dryRun : Bool := false
  toOutput : Option PathArg := none
  options : Options := {}

inductive RiskLevel where
  | fatal
  | high
  | medium
  | info
  deriving DecidableEq

structure Risk where
  level : RiskLevel
  message : Str

/-- `str.lower`, as far as it can give an ASCII letter. -/
def lower (s : Str) : Str := s.map fun c => if c = '\u212a' then 'k' else c.toLower

/-- An input disk, by its real directory. -/
structure Disk where
  folder : List Str
  name : Str
  deriving DecidableEq

def Disk.file (disk : Disk) : File := ⟨.folder disk.folder, disk.name⟩

/-- A call of `process_disks_parallel`, with what `VMDKInspector.inspect` finds, if it does not raise, and the
real path of each directory. -/
structure Job where
  config : Config
  outRoot : List Str
  disks : List Disk
  findings : Disk → Option (List Risk)
  resolve : List Str → List Str

def hasBusLogic (risks : List Risk) : Bool :=
  risks.any fun r => r.level = .fatal && decide ("buslogic".toList <:+: lower r.message)

def hasControllerMismatch (risks : List Risk) : Bool :=
  risks.any fun r => r.level = .high && decide ("controller".toList <:+: lower r.message) &&
    (decide ("mismatch".toList <:+: lower r.message) || decide ("initramfs".toList <:+: lower r.message))

def virtioDrivers : List Str :=
  ["virtio", "virtio_blk", "virtio_scsi", "virtio_net", "virtio_pci"].map String.toList

/-- What an inspection makes of the options when it finds a controller mismatch. -/
def Options.enable (options : Options) : Options where
  regenInitramfs := true
  initramfsAddDrivers := if options.initramfsAddDrivers = [] then virtioDrivers else options.initramfsAddDrivers

/-- `_atomic_tmp`. -/
def atomicTmp (f : File) : File := { f with name := withSuffix f.name (suffix f.name ++ ".part".toList) }

/-- `_json_sidecar_path`. -/
def jsonSidecarPath (name : Str) : Str :=
  if lower (suffix name) = ".json".toList then name
  else if suffix name ≠ [] then withSuffix name ".json".toList
  else name ++ ".json".toList

/-- `_markdown_path_for_base`. -/
def markdownPathForBase (name : Str) : Str :=
  if lower (suffix name) = ".json".toList then withSuffix name ".md".toList else name

/-- `write_report`: the two reports, each written beside itself first. -/
def reportFiles (base : File) : List File :=
  [jsonSidecarPath base.name, markdownPathForBase base.name].flatMap fun name =>
    [{ base with name := name ++ ".tmp.h2kvm".toList }, { base with name := name }]

def diskTag (index : Nat) : Str := "_disk".toList ++ Nat.toDigits 10 index

namespace Job

variable (job : Job)

def multi : Bool := 1 < job.disks.length

/-- What the inspection of a disk finds, if it is made. -/
def inspection (disk : Disk) : Option (List Risk) :=
  if lower (suffix disk.name) ≠ ".vmdk".toList ∨ job.config.skipVmdkInspection then none else job.findings disk

/-- The inspection of the disk changes the options. -/
def switches (disk : Disk) : Bool :=
  (job.inspection disk).any hasControllerMismatch && job.config.vmdkAutoFixController

/-- `_choose_workdir`. -/
def chooseWorkdir : Place :=
  .folder (job.resolve (job.config.workdir.getD (job.outRoot ++ ["work".toList])))

/-- `Flatten.to_working`: the copy of a FLAT extent, or the image that is converted. -/
def workingFile (flat : Bool) (now : DateTime) : File where
  place := job.chooseWorkdir
  name := if flat then "working-flat-".toList ++ nowTs now ++ ".raw".toList
    else "working-flattened-".toList ++ nowTs now ++ '.' :: job.config.flattenFormat

/-- `_resolve_report_path`. -/
def resolveReportPath (index : Nat) : Option File :=
  job.config.report.map fun rp =>
    if rp.absolute then ⟨.folder (job.resolve rp.parent), rp.name⟩
    else if job.multi then ⟨.folder (job.resolve job.outRoot), stem rp.name ++ diskTag index ++ suffix rp.name⟩
    else ⟨.folder (job.resolve (job.outRoot ++ rp.parent)), rp.name⟩

/-- `_resolve_output_path`, where the time is given if the name is taken. -/
def resolveOutputPath (toOutput : PathArg) (index : Nat) (taken : Option DateTime) : File :=
  let name := if job.multi then stem toOutput.name ++ diskTag index ++ suffix toOutput.name else toOutput.name
  { place := .folder (job.resolve (if toOutput.absolute then toOutput.parent else job.outRoot ++ toOutput.parent))
    name := taken.elim name fun now => stem name ++ '-' :: nowTs now ++ suffix name }

end Job

/-- What the processing of a disk takes for itself: working files, reports, an output image and a temporary
directory. -/
inductive Claim where
  | working (flat : Bool) (now : DateTime)
  | report (index : Nat)
  | output (index : Nat) (taken : Option DateTime)
  | temp (dir : Str)
  deriving DecidableEq

/-- The file is one of those claimed. -/
def Claim.Covers (job : Job) : Claim → File → Prop
  | .working flat now, f => f = job.workingFile flat now ∨ f = atomicTmp (job.workingFile flat now)
  | .report index, f => ∃ base, job.resolveReportPath index = some base ∧ f ∈ reportFiles base
  | .output index taken, f => ∃ out, job.config.toOutput = some out ∧
      (f = job.resolveOutputPath out index taken ∨ f = atomicTmp (job.resolveOutputPath out index taken))
  | .temp d, f => f.place = .temp d

/-- Where `process_single_disk` stands. -/
inductive Stage where
  | waiting
  | inspected (working : File)
  | prepared (working : File)
  | copying (source raw : File)
  | copied (raw : File)
  | flattening (source final : File)
  | flattened (working : File)
  | drivers (working : File) (regenInitramfs : Bool)
  | fixing (working : File)
  | fixed (working : File)
  | converting (working out : File)
  | cleanup (result : File)
  | removing (result : File) (dir : Str)
  | clearing (result : File)
  | done (result : File)
  | failed

def Stage.result? : Stage → Option File
  | .done result => some result
  | _ => none

/-- What the surroundings do to a stage: it raises, `mkdtemp` gives a name for the rewritten descriptor, and the
descriptor leads to a FLAT extent. -/
structure Outcome where
  raises : Bool := false
  mkdtemp : Option Str := none
  fastPath : Bool := false

/-- The state all threads share. What each disk uses and which options were applied to it is noted. -/
structure Processor where
  now : DateTime
  options : Options
  busLogicTempDir : Option Str := none
  fs : FileSystem
  stages : Nat → Stage := fun _ => .waiting
  uses : Nat → List Claim := fun _ => []
  applied : Nat → Option Options := fun _ => none

structure Effect where
  stage : Stage
  options : Options
  busLogicTempDir : Option Str
  changes : List Change := []
  claims : List Claim := []
  released : List Claim := []
  applied : Option Options := none

namespace Processor

variable (job : Job) (i : Nat) (o : Outcome) (s : Processor)

def goto (stage : Stage) : Effect where
  stage := stage
  options := s.options
  busLogicTempDir := s.busLogicTempDir

/-- `qemu-img convert` to a temporary file that is then moved, or a copy made the same way. -/
def convertTo (source target : File) (after : Stage) : Effect :=
  match o.raises, s.fs.files source with
  | false, some data =>
    { s.goto after with
      changes := [.remove (atomicTmp target), .write (atomicTmp target) data, .remove (atomicTmp target),
        .write target data] }
  | _, _ => { s.goto .failed with changes := [.remove (atomicTmp target)] }

/-- `_fix_buslogic_controller`, when the descriptor has the line: the descriptor and an extent beside it are
copied to a new directory. -/
def fixBusLogicController (disk : Disk) (d : Str) : Effect :=
  let extent : File := ⟨.folder disk.folder, stem disk.name ++ "-flat.vmdk".toList⟩
  let fixed : File := ⟨.temp d, disk.name⟩
  let copied := match s.fs.files extent with
    | some data => [.write ⟨.temp d, extent.name⟩ data]
    | none => []
  let made := { s.goto (.inspected disk.file) with
    busLogicTempDir := some d
    changes := [.mkdir d]
    claims := [.temp d] }
  if o.raises then made
  else { made with
    stage := .inspected fixed
    changes := .mkdir d :: .write fixed (.image i) :: copied }

/-- `_inspect_vmdk`, up to the fatal risks. -/
def inspect (disk : Disk) : Effect :=
  match job.inspection disk with
  | none => s.goto (.prepared disk.file)
  | some risks =>
    match hasBusLogic risks, o.mkdtemp with
    | true, some d =>
      if s.fs.dirs d then s.goto (.inspected disk.file) else s.fixBusLogicController i o disk d
    | _, _ => s.goto (.inspected disk.file)

/-- `_inspect_vmdk`, the high risks. -/
def switchOptions (disk : Disk) (working : File) : Effect :=
  if job.switches disk then { s.goto (.prepared working) with options := s.options.enable }
  else s.goto (.prepared working)

/-- `Flatten.to_working`, up to the name of the image it makes. -/
def toWorking (flat : Bool) (source : File) : Effect :=
  let target := job.workingFile flat s.now
  { s.goto (if flat then .copying source target else .flattening source target) with
    changes := [.remove (atomicTmp target)]
    claims := [.working flat s.now] }

/-- `_flatten_if_requested`. -/
def flattenIfRequested (working : File) : Effect :=
  if job.config.flatten = false then s.goto (.flattened working)
  else if o.raises ∨ s.fs.files working = none then s.goto .failed
  else s.toWorking job o.fastPath working

/-- `_run_offline_fixes`: the image is changed in place and the reports are written. -/
def runOfflineFixes (working : File) : Effect :=
  match o.raises, s.fs.files working with
  | false, some data =>
    { s.goto (.fixed working) with
      changes := (if job.config.dryRun then [] else [.write working data]) ++
        ((job.resolveReportPath i).elim [] reportFiles).map (.write · .other)
      claims := [.report i] }
  | _, some data => { s.goto .failed with changes := if job.config.dryRun then [] else [.write working data] }
  | _, none => s.goto .failed

/-- `_convert_output`, up to the name of the image. -/
def convertOutput (working : File) : Effect :=
  match job.config.toOutput, job.config.dryRun with
  | some out, false =>
    let taken := if (s.fs.files (job.resolveOutputPath out i none)).isSome then some s.now else none
    { s.goto (.converting working (job.resolveOutputPath out i taken)) with claims := [.output i taken] }
  | _, _ => s.goto (.cleanup working)

/-- `_cleanup_intermediates`, up to the test for the directory. -/
def cleanupIntermediates (result : File) : Effect :=
  match s.busLogicTempDir with
  | some d => if s.fs.dirs d then s.goto (.removing result d) else s.goto (.done result)
  | none => s.goto (.done result)

/-- One part of `process_single_disk`. -/
def effect (disk : Disk) : Effect :=
  match s.stages i with
  | .waiting => s.inspect job i o disk
  | .inspected working => s.switchOptions job disk working
  | .prepared working => s.flattenIfRequested job o working
  | .copying source raw =>
    s.convertTo o source raw (if lower job.config.flattenFormat = "raw".toList then .flattened raw else .copied raw)
  | .copied raw => s.toWorking job false raw
  | .flattening source final => s.convertTo o source final (.flattened final)
  | .flattened working => s.goto (.drivers working s.options.regenInitramfs)
  | .drivers working regenInitramfs =>
    { s.goto (.fixing working) with applied := some ⟨regenInitramfs, s.options.initramfsAddDrivers⟩ }
  | .fixing working => s.runOfflineFixes job i o working
  | .fixed working => s.convertOutput job i working
  | .converting working out => s.convertTo o working out (.cleanup out)
  | .cleanup result => s.cleanupIntermediates result
  | .removing result d =>
    if o.raises then s.goto (.clearing result)
    else { s.goto (.clearing result) with changes := [.rmtree d], released := [.temp d] }
  | .clearing result => { s.goto (.done result) with busLogicTempDir := none }
  | .done result => s.goto (.done result)
  | .failed => s.goto .failed

def commit (e : Effect) : Processor :=
  { s with
    options := e.options
    busLogicTempDir := e.busLogicTempDir
    fs := s.fs.applyAll e.changes
    stages := Function.update s.stages i e.stage
    uses := Function.update s.uses i ((e.claims ++ s.uses i).filter (· ∉ e.released))
    applied := Function.update s.applied i (e.applied <|> s.applied i) }

end Processor

/-- A thread goes on, or the clock shows another second. -/
inductive DiskEvent where
  | advance (index : Nat) (outcome : Outcome)
  | clock (now : DateTime)

namespace Processor

def step (job : Job) (s : Processor) : DiskEvent → Processor
  | .advance i o => match job.disks[i]? with
    | some disk => s.commit i (s.effect job i o disk)
    | none => s
  | .clock now => { s with now := now }

/-- The processor before the disks are submitted. -/
def start (job : Job) (now : DateTime) (others : File → Bool) (dirs : Str → Bool) : Processor where
  now := now
  options := job.config.options
  fs :=
    { files := fun f => match job.disks.findIdx? (·.file = f) with
        | some i => some (.image i)
        | none => if others f then some .other else none
      dirs := dirs }

/-- `process_disks_parallel`: the results in the order of the disks; a disk without one raises. -/
def results (job : Job) (s : Processor) : Option (List File) :=
  let out := (List.range job.disks.length).filterMap fun i => (s.stages i).result?
  if out.length = job.disks.length then some out else none

end Processor

end diskProcessor

section diskNames

theorem atomicTmp_eq (f : File) : atomicTmp f = { f with name := f.name ++ ".part".toList } := by
  have whole := stem_append_suffix f.name
  rw [atomicTmp, withSuffix, ← List.append_assoc, whole]

theorem dot_not_mem_diskTag (i : Nat) : '.' ∉ diskTag i := by
  intro dot
  rcases List.mem_append.mp dot with word | number
  · simp at word
  · have := Nat.isDigit_of_mem_toDigits (by decide) (by decide) number
    simp at this

theorem diskTag_ne_nil (i : Nat) : diskTag i ≠ [] := by simp [diskTag]

section Front

/-- The tag of a disk stands right after `head`. -/
def Tagged (head : Str) (i : Nat) (name : Str) : Prop := ∃ rest, Undigited rest ∧ name = head ++ diskTag i ++ rest

variable {head name : Str} {i j : Nat}

theorem Tagged.index (left : Tagged head i name) (right : Tagged head j name) : i = j := by
  obtain ⟨rest, undigited, rfl⟩ := left
  obtain ⟨rest', undigited', same⟩ := right
  have numbered : head ++ "_disk".toList ++ Nat.toDigits 10 i ++ rest =
      head ++ "_disk".toList ++ Nat.toDigits 10 j ++ rest' := by simpa [diskTag] using same
  exact number_of_front undigited undigited' numbered

theorem Tagged.append (tagged : Tagged head i name) {ext : Str} (undigited : Undigited ext) :
    Tagged head i (name ++ ext) := by
  obtain ⟨rest, free, rfl⟩ := tagged
  refine ⟨rest ++ ext, ?_, by simp⟩
  cases rest with
  | nil => exact undigited
  | cons c rest => exact free

end Front

theorem undigited_cons {c : Char} {s : Str} (letter : c.isDigit = false) : Undigited (c :: s) := by
  intro d first
  rw [List.head?_cons, Option.some.injEq] at first
  rw [← first]
  exact letter

theorem undigited_suffix (name : Str) : Undigited (suffix name) := by
  rcases suffix_eq name with none | ⟨ext, some, -, -⟩
  · rw [none]
    nofun
  · rw [some]
    exact undigited_cons rfl

/-- A dot ends the name, but does not begin it. -/
def Dotted (name : Str) : Prop := ∃ a, a ≠ [] ∧ name = a ++ ['.']

section Base

variable (name : Str) (i : Nat)

/-- The tag stays in the stem. -/
theorem base_of_undotted (undotted : ¬ Dotted name) :
    stem (stem name ++ diskTag i ++ suffix name) = stem name ++ diskTag i ∧
      suffix (stem name ++ diskTag i ++ suffix name) = suffix name := by
  rcases suffix_eq name with none | ⟨ext, some, nonempty, free⟩
  · have whole := stem_of_suffix none
    have bare : suffix (name ++ diskTag i) = [] := by
      by_cases last : name.getLast? = some '.'
      · obtain ⟨a, rfl⟩ := List.getLast?_eq_some_iff.mp last
        have first : a = [] := by
          by_contra headed
          exact undotted ⟨a, headed, rfl⟩
        subst first
        have up : upToDot (['.'] ++ diskTag i) = ['.'] := by
          rw [upToDot_append (dot_not_mem_diskTag i)]
          exact upToDot_concat []
        show suffix (['.'] ++ diskTag i) = []
        unfold suffix hasSuffix
        rw [up]
        rfl
      · exact suffix_append (dot_not_mem_diskTag i) none last
    rw [none, whole, List.append_nil]
    exact ⟨stem_of_suffix bare, bare⟩
  · have headed : stem name ++ diskTag i ≠ [] := by simp [diskTag_ne_nil]
    have parts := suffix_append_dot free nonempty headed
    rw [some]
    exact ⟨parts.2, parts.1⟩

theorem base_of_dotted {a : Str} (headed : a ≠ []) (ends : name = a ++ ['.']) :
    stem name ++ diskTag i ++ suffix name = a ++ '.' :: diskTag i ∧
      stem (a ++ '.' :: diskTag i) = a ∧ suffix (a ++ '.' :: diskTag i) = '.' :: diskTag i := by
  have none : suffix name = [] := by
    rw [ends]
    simp [suffix, hasSuffix, afterDot_concat]
  have parts := suffix_append_dot (dot_not_mem_diskTag i) (diskTag_ne_nil i) headed
  refine ⟨?_, parts.2, parts.1⟩
  rw [none, stem_of_suffix none, ends]
  simp

end Base

section Reports

/-- Each report has the tag of its disk, unless the name given for it ends with a dot. -/
theorem tagged_reportFiles {base f : File} {name : Str} {i : Nat} (undotted : ¬ Dotted name)
    (based : base.name = stem name ++ diskTag i ++ suffix name) (member : f ∈ reportFiles base) :
    Tagged (stem name) i f.name := by
  obtain ⟨stemmed, suffixed⟩ := base_of_undotted name i undotted
  rw [← based] at stemmed suffixed
  have whole : Tagged (stem name) i base.name := ⟨suffix name, undigited_suffix name, based⟩
  have renamed : ∀ ext, Undigited ext → Tagged (stem name) i (withSuffix base.name ext) := by
    intro ext undigited
    rw [withSuffix, stemmed]
    exact ⟨ext, undigited, rfl⟩
  have json : Tagged (stem name) i (jsonSidecarPath base.name) := by
    unfold jsonSidecarPath
    split
    · exact whole
    · split
      · exact renamed _ (undigited_cons rfl)
      · exact whole.append (undigited_cons rfl)
  have markdown : Tagged (stem name) i (markdownPathForBase base.name) := by
    unfold markdownPathForBase
    split
    · exact renamed _ (undigited_cons rfl)
    · exact whole
  simp only [reportFiles, List.flatMap_cons, List.flatMap_nil, List.append_nil, List.cons_append, List.nil_append,
    List.mem_cons, List.not_mem_nil, or_false] at member
  rcases member with rfl | rfl | rfl | rfl
  · exact json.append (undigited_cons rfl)
  · exact json
  · exact markdown.append (undigited_cons rfl)
  · exact markdown

end Reports

section Outputs

/-- A name that ends with the tag of a disk. -/
def EndsTagged (i : Nat) (name : Str) : Prop := ∃ front, name = front ++ diskTag i

variable {i j : Nat} {name : Str}

theorem EndsTagged.index (left : EndsTagged i name) (right : EndsTagged j name) : i = j := by
  obtain ⟨front, rfl⟩ := left
  obtain ⟨front', same⟩ := right
  have numbered : front ++ "_dis".toList ++ 'k' :: Nat.toDigits 10 i = front' ++ "_dis".toList ++ 'k' :: Nat.toDigits 10 j := by
    simpa [diskTag] using same
  exact number_of_back rfl numbered

theorem EndsTagged.last (h : EndsTagged i name) : ∃ c, name.getLast? = some c ∧ c.isDigit = true := by
  obtain ⟨front, rfl⟩ := h
  have digits : Nat.toDigits 10 i ≠ [] := Nat.toDigits_ne_nil
  refine ⟨(Nat.toDigits 10 i).getLast digits, ?_, ?_⟩
  · rw [diskTag, ← List.append_assoc, List.getLast?_append_of_ne_nil _ digits, List.getLast?_eq_some_getLast digits]
  · exact Nat.isDigit_of_mem_toDigits (by decide) (by decide) (List.getLast_mem digits)

variable {job : Job} {out : PathArg} {taken taken' : Option DateTime} {f : File}

theorem tagged_output (multi : job.multi = true) (undotted : ¬ Dotted out.name) :
    Tagged (stem out.name) i (job.resolveOutputPath out i taken).name := by
  obtain ⟨stemmed, suffixed⟩ := base_of_undotted out.name i undotted
  simp only [Job.resolveOutputPath, multi, if_true]
  cases taken with
  | none => exact ⟨suffix out.name, undigited_suffix out.name, rfl⟩
  | some now =>
    refine ⟨'-' :: nowTs now ++ suffix out.name, undigited_cons rfl, ?_⟩
    show stem _ ++ '-' :: nowTs now ++ suffix _ = _
    rw [stemmed, suffixed]
    simp

theorem endsTagged_output (multi : job.multi = true) (dotted : Dotted out.name) :
    EndsTagged i (job.resolveOutputPath out i taken).name := by
  obtain ⟨a, headed, ends⟩ := dotted
  obtain ⟨based, stemmed, suffixed⟩ := base_of_dotted out.name i headed ends
  simp only [Job.resolveOutputPath, multi, if_true, based]
  cases taken with
  | none => exact ⟨a ++ ['.'], by simp⟩
  | some now =>
    refine ⟨a ++ '-' :: nowTs now ++ ['.'], ?_⟩
    show stem _ ++ '-' :: nowTs now ++ suffix _ = _
    rw [stemmed, suffixed]
    simp

/-- No output image is that of two disks. -/
theorem index_of_output (multi : job.multi = true)
    (left : f = job.resolveOutputPath out i taken ∨ f = atomicTmp (job.resolveOutputPath out i taken))
    (right : f = job.resolveOutputPath out j taken' ∨ f = atomicTmp (job.resolveOutputPath out j taken')) : i = j := by
  by_cases dotted : Dotted out.name
  · have first : EndsTagged i (job.resolveOutputPath out i taken).name := endsTagged_output multi dotted
    have second : EndsTagged j (job.resolveOutputPath out j taken').name := endsTagged_output multi dotted
    -- One of the two ends with a digit and the other does not, unless both or neither are temporary.
    have unequal : ∀ {k : Nat} {s t : Str}, EndsTagged k s → s ≠ t ++ ".part".toList := by
      intro k s t ends same
      obtain ⟨c, last, digit⟩ := ends.last
      rw [same] at last
      have letter : c = 't' := by simpa using last.symm
      rw [letter] at digit
      cases digit
    rw [atomicTmp_eq] at left right
    rcases left with rfl | rfl <;> rcases right with same | same
    · rw [same] at first
      exact first.index second
    · exact absurd (congrArg File.name same) (unequal first)
    · exact absurd (congrArg File.name same).symm (unequal second)
    · have names := List.append_cancel_right (congrArg File.name same)
      rw [names] at first
      exact first.index second
  · have part : Undigited ".part".toList := undigited_cons rfl
    have first : Tagged (stem out.name) i (job.resolveOutputPath out i taken).name := tagged_output multi dotted
    have second : Tagged (stem out.name) j (job.resolveOutputPath out j taken').name := tagged_output multi dotted
    rw [atomicTmp_eq] at left right
    have named : Tagged (stem out.name) i f.name := by
      rcases left with rfl | rfl
      · exact first
      · exact first.append part
    have named' : Tagged (stem out.name) j f.name := by
      rcases right with rfl | rfl
      · exact second
      · exact second.append part
    exact named.index named'

end Outputs

section Working

variable {job : Job} {flat flat' : Bool} {now now' : DateTime} {f : File}

/-- No working file is that of two seconds. -/
theorem now_of_working (left : f = job.workingFile flat now ∨ f = atomicTmp (job.workingFile flat now))
    (right : f = job.workingFile flat' now' ∨ f = atomicTmp (job.workingFile flat' now')) : flat = flat' ∧ now = now' := by
  have long : ∀ k, (nowTs k).length = 15 := Recovery.nowTs_length
  have named : ∀ {g : Bool} {k : DateTime}, f = job.workingFile g k ∨ f = atomicTmp (job.workingFile g k) →
      ∃ rest, f.name = (if g then "working-flat-".toList else "working-flattened-".toList) ++ (nowTs k ++ rest) := by
    intro g k h
    rw [atomicTmp_eq] at h
    cases g <;> rcases h with rfl | rfl <;> exact ⟨_, by simp only [Job.workingFile, List.append_assoc]; rfl⟩
  obtain ⟨rest, name⟩ := named left
  obtain ⟨rest', name'⟩ := named right
  rw [name] at name'
  cases flat <;> cases flat'
  · have stamps := (List.append_inj (List.append_cancel_left name') (by rw [long, long])).1
    exact ⟨rfl, Recovery.nowTs_injective stamps⟩
  · simp at name'
  · simp at name'
  · have stamps := (List.append_inj (List.append_cancel_left name') (by rw [long, long])).1
    exact ⟨rfl, Recovery.nowTs_injective stamps⟩

end Working

end diskNames

end H2kvm.Orchestration
