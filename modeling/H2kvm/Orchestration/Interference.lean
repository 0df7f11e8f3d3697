import H2kvm.Orchestration.DiskProcessor

namespace H2kvm.Orchestration

open Framework Names
open Recovery (DateTime nowTs)

/-- The names given for reports, outputs and working files keep the disks apart: a report is given by a relative
path that does not end with a dot, names of different kinds do not meet, and none of them is that of an input
disk, an output name that is not taken aside. -/
structure Job.Tidy (job : Job) : Prop where
  report_relative : job.multi = true → ∀ rp, job.config.report = some rp → rp.absolute = false ∧ ¬ Dotted rp.name
  working_report : job.config.flatten = true → ∀ flat now i f, i < job.disks.length →
    (Claim.working flat now).Covers job f → ¬ (Claim.report i).Covers job f
  working_output : job.config.flatten = true → ∀ flat now i taken f, i < job.disks.length →
    (Claim.working flat now).Covers job f → ¬ (Claim.output i taken).Covers job f
  report_output : ∀ i j taken f, i < job.disks.length → j < job.disks.length → i ≠ j →
    (Claim.report i).Covers job f → ¬ (Claim.output j taken).Covers job f
  disk_working : job.config.flatten = true → ∀ disk ∈ job.disks, ∀ flat now, ¬ (Claim.working flat now).Covers job disk.file
  disk_report : ∀ disk ∈ job.disks, ∀ i, i < job.disks.length → ¬ (Claim.report i).Covers job disk.file
  disk_output : ∀ disk ∈ job.disks, ∀ i out, i < job.disks.length → job.config.toOutput = some out →
    (∀ taken, disk.file ≠ atomicTmp (job.resolveOutputPath out i taken)) ∧
      ∀ now, disk.file ≠ job.resolveOutputPath out i (some now)

/-- The options for a disk that is processed alone. -/
def Job.soloOptions (job : Job) (disk : Disk) : Options :=
  if job.switches disk then job.config.options.enable else job.config.options

/-- The inspection has had its effect on the options. -/
def Stage.passed : Stage → Bool
  | .waiting | .inspected _ => false
  | _ => true

namespace Processor

/-- No disk has changed the options yet. -/
def Unswitched (job : Job) (s : Processor) : Prop :=
  ∀ i < job.disks.length, ∀ disk ∈ job.disks[i]?, job.switches disk = true → (s.stages i).passed = false

instance (job : Job) (s : Processor) : Decidable (s.Unswitched job) :=
  inferInstanceAs (Decidable (∀ i < job.disks.length, ∀ disk ∈ job.disks[i]?, _ → _))

/-- No two disks take a working name of one kind in the same second, no disk gets options that another one has
changed, and the temporary directory that is cleaned up is the disk's own and does not hold its result. -/
def ApartAt (job : Job) (s : Processor) (i : Nat) (o : Outcome) (disk : Disk) : Stage → Prop
  | .prepared _ => job.config.flatten = true → ∀ j < job.disks.length, j ≠ i → .working o.fastPath s.now ∉ s.uses j
  | .copied _ => ∀ j < job.disks.length, j ≠ i → .working false s.now ∉ s.uses j
  | .flattened _ => job.switches disk = true ∨ job.config.options.regenInitramfs = true ∨ s.Unswitched job
  | .drivers _ _ => job.switches disk = true ∨ job.config.options.initramfsAddDrivers ≠ [] ∨ s.Unswitched job
  | .cleanup result => ∀ d ∈ s.busLogicTempDir, s.fs.dirs d = true → .temp d ∈ s.uses i ∧ result.place ≠ .temp d
  | _ => True

instance (job : Job) (s : Processor) (i : Nat) (o : Outcome) (disk : Disk) :
    (stage : Stage) → Decidable (s.ApartAt job i o disk stage)
  | .prepared _ => inferInstanceAs (Decidable (_ → ∀ j < job.disks.length, _ → _))
  | .copied _ => inferInstanceAs (Decidable (∀ j < job.disks.length, _ → _))
  | .flattened _ | .drivers _ _ => inferInstanceAs (Decidable (_ ∨ _ ∨ _))
  | .cleanup _ => inferInstanceAs (Decidable (∀ d ∈ s.busLogicTempDir, _ → _))
  | .waiting | .inspected _ | .copying _ _ | .flattening _ _ | .fixing _ | .fixed _ | .converting _ _ | .removing _ _
  | .clearing _ | .done _ | .failed => inferInstanceAs (Decidable True)

/-- The steps that keep the disks apart. -/
def Apart (job : Job) (s : Processor) : DiskEvent → Prop
  | .clock _ => True
  | .advance i o => ∀ disk ∈ job.disks[i]?, s.ApartAt job i o disk (s.stages i)

instance (job : Job) (s : Processor) : (e : DiskEvent) → Decidable (s.Apart job e)
  | .clock _ => inferInstanceAs (Decidable True)
  | .advance i _ => inferInstanceAs (Decidable (∀ disk ∈ job.disks[i]?, _))

/-- The step changes no file that another disk uses. -/
def Undisturbed (job : Job) (s : Processor) : DiskEvent → Prop
  | .clock _ => True
  | .advance i o => ∀ disk, job.disks[i]? = some disk → ∀ change ∈ (s.effect job i o disk).changes,
      ∀ j, j ≠ i → ∀ c ∈ s.uses j, ∀ f, c.Covers job f → ¬ change.Hits f

/-- The options that have been applied do not depend on other disks. -/
def SoloOptions (job : Job) (s : Processor) : Prop :=
  ∀ i disk options, job.disks[i]? = some disk → s.applied i = some options → options = job.soloOptions disk

/-- What is returned is the image of each disk, in order. -/
def Delivers (job : Job) (s : Processor) : Prop :=
  ∀ outs, s.results job = some outs → outs.length = job.disks.length ∧
    ∀ i f, outs[i]? = some f → s.fs.files f = some (.image i)

end Processor

section Changes

variable {fs : FileSystem} {f : File}

theorem files_apply {c : Change} (unhit : ¬ c.Hits f) : (fs.apply c).files f = fs.files f := by
  cases c with
  | write g data => exact Function.update_of_ne (fun same => unhit same.symm) _ _
  | remove g => exact Function.update_of_ne (fun same => unhit same.symm) _ _
  | mkdir d => rfl
  | rmtree d => exact if_neg unhit

/-- A file that no change hits stays as it is. -/
theorem files_applyAll {cs : List Change} (unhit : ∀ c ∈ cs, ¬ c.Hits f) : (fs.applyAll cs).files f = fs.files f := by
  induction cs generalizing fs with
  | nil => rfl
  | cons c cs ih =>
    show ((fs.apply c).applyAll cs).files f = fs.files f
    rw [ih fun other member => unhit other (List.mem_cons_of_mem c member)]
    exact files_apply (unhit c List.mem_cons_self)

/-- A file that is only ever written with some data holds it if it held it before. -/
theorem files_applyAll_of_same {cs : List Change} {data : Data} (holds : fs.files f = some data)
    (same : ∀ c ∈ cs, c = .write f data ∨ ¬ c.Hits f) : (fs.applyAll cs).files f = some data := by
  induction cs generalizing fs with
  | nil => exact holds
  | cons c cs ih =>
    show ((fs.apply c).applyAll cs).files f = some data
    apply ih
    · rcases same c List.mem_cons_self with rfl | unhit
      · exact Function.update_self _ _ _
      · rw [files_apply unhit]
        exact holds
    · exact fun other member => same other (List.mem_cons_of_mem c member)

theorem dirs_applyAll {cs : List Change} {d : Str} (present : fs.dirs d = true)
    (kept : ∀ c ∈ cs, ∀ e, c = .rmtree e → e ≠ d) : (fs.applyAll cs).dirs d = true := by
  induction cs generalizing fs with
  | nil => exact present
  | cons c cs ih =>
    show ((fs.apply c).applyAll cs).dirs d = true
    apply ih
    · cases c with
      | write g data => exact present
      | remove g => exact present
      | mkdir e =>
        by_cases same : d = e
        · rw [same]
          exact Function.update_self _ _ _
        · exact (Function.update_of_ne same _ _).trans present
      | rmtree e =>
        have other := kept _ List.mem_cons_self e rfl
        exact (Function.update_of_ne (Ne.symm other) _ _).trans present
    · exact fun other member => kept other (List.mem_cons_of_mem c member)

theorem dirs_applyAll_mkdir {cs : List Change} {d : Str} (made : .mkdir d ∈ cs)
    (kept : ∀ c ∈ cs, ∀ e, c ≠ .rmtree e) : (fs.applyAll cs).dirs d = true := by
  obtain ⟨before, after, rfl⟩ := List.append_of_mem made
  show ((before ++ .mkdir d :: after).foldl FileSystem.apply fs).dirs d = true
  rw [List.foldl_append, List.foldl_cons]
  apply dirs_applyAll
  · exact Function.update_self _ _ _
  · exact fun c member e same => absurd same (kept c (by simp [member]) e)

end Changes

theorem Options.enable_enable (options : Options) : options.enable.enable = options.enable := by
  unfold Options.enable
  by_cases none : options.initramfsAddDrivers = []
  · simp [none, virtioDrivers]
  · simp [none]

namespace Claim

/-- The claim is one the processing of disk `i` makes. -/
def Of (job : Job) (i : Nat) : Claim → Prop
  | .working _ _ => job.config.flatten = true
  | .report k => k = i
  | .output k _ => k = i
  | .temp _ => True

variable {job : Job} {i j : Nat} {a b : Claim} {f : File}

theorem place_of_working {flat : Bool} {now : DateTime} (covers : (Claim.working flat now).Covers job f) :
    f.place = job.chooseWorkdir := by
  rcases covers with rfl | rfl
  · rfl
  · rw [atomicTmp_eq]
    rfl

theorem place_of_report {base : File} (member : f ∈ reportFiles base) : f.place = base.place := by
  simp only [reportFiles, List.mem_flatMap, List.mem_cons, List.not_mem_nil, or_false] at member
  obtain ⟨name, -, rfl | rfl⟩ := member <;> rfl

theorem place_of_output {out : PathArg} {taken : Option DateTime}
    (covered : f = job.resolveOutputPath out i taken ∨ f = atomicTmp (job.resolveOutputPath out i taken)) :
    f.place = (job.resolveOutputPath out i taken).place := by
  rcases covered with rfl | rfl
  · rfl
  · rw [atomicTmp_eq]

theorem place_of_covers (covers : a.Covers job f) (file : ∀ d, a ≠ .temp d) : ∃ path, f.place = .folder path := by
  cases a with
  | working flat now => exact ⟨_, place_of_working covers⟩
  | report k =>
    obtain ⟨base, resolved, member⟩ := covers
    rw [place_of_report member]
    obtain ⟨rp, -, rfl⟩ := Option.map_eq_some_iff.mp resolved
    split
    · exact ⟨_, rfl⟩
    · split <;> exact ⟨_, rfl⟩
  | output k taken =>
    obtain ⟨out, -, covered⟩ := covers
    exact ⟨_, place_of_output covered⟩
  | temp d => exact absurd rfl (file d)

theorem index_of_report (tidy : job.Tidy) (multi : job.multi = true) (left : (Claim.report i).Covers job f)
    (right : (Claim.report j).Covers job f) : i = j := by
  obtain ⟨base, resolved, member⟩ := left
  obtain ⟨base', resolved', member'⟩ := right
  obtain ⟨rp, given, rfl⟩ := Option.map_eq_some_iff.mp resolved
  obtain ⟨rp', given', rfl⟩ := Option.map_eq_some_iff.mp resolved'
  rw [given, Option.some.injEq] at given'
  subst given'
  obtain ⟨relative, undotted⟩ := tidy.report_relative multi rp given
  rw [relative, multi] at member member'
  exact (tagged_reportFiles undotted rfl member).index (tagged_reportFiles undotted rfl member')

/-- Two disks do not claim the same file, unless they make the same claim. -/
theorem not_covers (tidy : job.Tidy) (hi : i < job.disks.length) (hj : j < job.disks.length) (other : i ≠ j)
    (ofA : a.Of job i) (ofB : b.Of job j) (different : a ≠ b) (covers : a.Covers job f) : ¬ b.Covers job f := by
  intro covers'
  have multi : job.multi = true := by
    rw [Job.multi, decide_eq_true_eq]
    omega
  cases a with
  | working flat now =>
    cases b with
    | working flat' now' =>
      obtain ⟨rfl, rfl⟩ := now_of_working covers covers'
      exact different rfl
    | report k => exact tidy.working_report ofA flat now k f (ofB ▸ hj) covers covers'
    | output k taken => exact tidy.working_output ofA flat now k taken f (ofB ▸ hj) covers covers'
    | temp d =>
      obtain ⟨path, place⟩ := place_of_covers covers nofun
      cases place.symm.trans covers'
  | report k =>
    obtain rfl : k = i := ofA
    cases b with
    | working flat now => exact tidy.working_report ofB flat now k f hi covers' covers
    | report l =>
      obtain rfl : l = j := ofB
      exact other (index_of_report tidy multi covers covers')
    | output l taken =>
      obtain rfl : l = j := ofB
      exact tidy.report_output k l taken f hi hj other covers covers'
    | temp d =>
      obtain ⟨path, place⟩ := place_of_covers covers nofun
      cases place.symm.trans covers'
  | output k taken =>
    obtain rfl : k = i := ofA
    cases b with
    | working flat now => exact tidy.working_output ofB flat now k taken f hi covers' covers
    | report l =>
      obtain rfl : l = j := ofB
      exact tidy.report_output l k taken f hj hi other.symm covers' covers
    | output l taken' =>
      obtain rfl : l = j := ofB
      obtain ⟨out, given, covered⟩ := covers
      obtain ⟨out', given', covered'⟩ := covers'
      rw [given, Option.some.injEq] at given'
      subst given'
      exact other (index_of_output multi covered covered')
    | temp d =>
      obtain ⟨path, place⟩ := place_of_covers covers nofun
      cases place.symm.trans covers'
  | temp d =>
    cases b with
    | temp e =>
      have same : Place.temp d = .temp e := Eq.trans (Eq.symm covers) covers'
      cases same
      exact different rfl
    | _ =>
      obtain ⟨path, place⟩ := place_of_covers covers' nofun
      cases place.symm.trans covers

/-- Directories of their own keep the names apart. -/
theorem tidy_of_places (reports outputs : Place)
    (relative : job.multi = true → ∀ rp, job.config.report = some rp → rp.absolute = false ∧ ¬ Dotted rp.name)
    (reported : ∀ i base, job.resolveReportPath i = some base → base.place = reports)
    (put : ∀ out i taken, job.config.toOutput = some out → (job.resolveOutputPath out i taken).place = outputs)
    (first : job.chooseWorkdir ≠ reports) (second : job.chooseWorkdir ≠ outputs) (third : reports ≠ outputs)
    (disks : ∀ disk ∈ job.disks, disk.file.place ≠ job.chooseWorkdir ∧ disk.file.place ≠ reports ∧
      disk.file.place ≠ outputs) : job.Tidy := by
  have report : ∀ {i f}, (Claim.report i).Covers job f → f.place = reports := by
    intro i f covers
    obtain ⟨base, resolved, member⟩ := covers
    exact (place_of_report member).trans (reported i base resolved)
  have output : ∀ {i taken f}, (Claim.output i taken).Covers job f → f.place = outputs := by
    intro i taken f covers
    obtain ⟨out, given, covered⟩ := covers
    exact (place_of_output covered).trans (put out i taken given)
  refine ⟨relative, ?_, ?_, ?_, ?_, ?_, ?_⟩
  · intro _ flat now i f _ covers covers'
    exact first ((place_of_working covers).symm.trans (report covers'))
  · intro _ flat now i taken f _ covers covers'
    exact second ((place_of_working covers).symm.trans (output covers'))
  · intro i j taken f _ _ _ covers covers'
    exact third ((report covers).symm.trans (output covers'))
  · intro _ disk member flat now covers
    exact (disks disk member).1 (place_of_working covers)
  · intro disk member i _ covers
    exact (disks disk member).2.1 (report covers)
  · intro disk member i out _ given
    refine ⟨fun taken same => ?_, fun now same => ?_⟩
    · have covers : (Claim.output i taken).Covers job disk.file := ⟨out, given, .inr same⟩
      exact (disks disk member).2.2 (output covers)
    · have covers : (Claim.output i (some now)).Covers job disk.file := ⟨out, given, .inl same⟩
      exact (disks disk member).2.2 (output covers)

def isTemp : Claim → Bool
  | .temp _ => true
  | _ => false

def isTempOrFlat : Claim → Bool
  | .temp _ | .working true _ => true
  | _ => false

def isSource : Claim → Bool
  | .temp _ | .working _ _ => true
  | _ => false

end Claim

/-- The image of disk `i`: the input disk, or a file under one of the allowed claims. -/
def Ready (job : Job) (uses : List Claim) (fs : FileSystem) (i : Nat) (disk : Disk) (allowed : Claim → Bool) (f : File) :
    Prop :=
  fs.files f = some (.image i) ∧ (f = disk.file ∨ ∃ c ∈ uses, allowed c = true ∧ c.Covers job f)

/-- What is known of the files a stage goes on with. -/
def Stage.Stands (job : Job) (uses : List Claim) (fs : FileSystem) (i : Nat) (disk : Disk) : Stage → Prop
  | .waiting | .failed => True
  | .inspected f | .prepared f => Ready job uses fs i disk Claim.isTemp f
  | .copied f => Ready job uses fs i disk Claim.isTempOrFlat f ∧ job.config.flatten = true
  | .copying source target =>
    Ready job uses fs i disk Claim.isTempOrFlat source ∧ ∃ now, .working true now ∈ uses ∧ target = job.workingFile true now
  | .flattening source target =>
    Ready job uses fs i disk Claim.isTempOrFlat source ∧ ∃ now, .working false now ∈ uses ∧ target = job.workingFile false now
  | .flattened f | .fixing f | .fixed f => Ready job uses fs i disk Claim.isSource f
  | .drivers f regenInitramfs =>
    Ready job uses fs i disk Claim.isSource f ∧ regenInitramfs = (job.soloOptions disk).regenInitramfs
  | .converting source target =>
    Ready job uses fs i disk Claim.isSource source ∧
      ∃ out taken, job.config.toOutput = some out ∧ .output i taken ∈ uses ∧ target = job.resolveOutputPath out i taken
  | .cleanup f | .clearing f | .done f => Ready job uses fs i disk (fun _ => true) f
  | .removing f d => Ready job uses fs i disk (fun _ => true) f ∧ .temp d ∈ uses ∧ f.place ≠ .temp d

section Stands

variable {job : Job} {uses uses' : List Claim} {fs fs' : FileSystem} {i : Nat} {disk : Disk}
variable {allowed allowed' : Claim → Bool} {f : File}

theorem Ready.weaken (ready : Ready job uses fs i disk allowed f) (weaker : ∀ c, allowed c = true → allowed' c = true) :
    Ready job uses fs i disk allowed' f := by
  obtain ⟨holds, rfl | ⟨c, member, fine, covers⟩⟩ := ready
  · exact ⟨holds, .inl rfl⟩
  · exact ⟨holds, .inr ⟨c, member, weaker c fine, covers⟩⟩

theorem Ready.transfer (ready : Ready job uses fs i disk allowed f) (kept : ∀ c ∈ uses, c.Covers job f → c ∈ uses')
    (same : fs'.files f = fs.files f) : Ready job uses' fs' i disk allowed f := by
  obtain ⟨holds, place⟩ := ready
  refine ⟨same.trans holds, ?_⟩
  rcases place with rfl | ⟨c, member, fine, covers⟩
  · exact .inl rfl
  · exact .inr ⟨c, kept c member covers, fine, covers⟩

theorem Stage.Stands.transfer {stage : Stage} (stands : stage.Stands job uses fs i disk)
    (same : ∀ f, (f = disk.file ∨ ∃ c ∈ uses, c.Covers job f) → fs'.files f = fs.files f) :
    stage.Stands job uses fs' i disk := by
  have ready : ∀ {allowed : Claim → Bool} {f : File}, Ready job uses fs i disk allowed f →
      Ready job uses fs' i disk allowed f := by
    intro allowed f ready
    apply ready.transfer fun c member _ => member
    apply same
    rcases ready.2 with rfl | ⟨c, member, -, covers⟩
    · exact .inl rfl
    · exact .inr ⟨c, member, covers⟩
  cases stage with
  | waiting => trivial
  | failed => trivial
  | copying source target => exact ⟨ready stands.1, stands.2⟩
  | copied f => exact ⟨ready stands.1, stands.2⟩
  | flattening source target => exact ⟨ready stands.1, stands.2⟩
  | drivers f regenInitramfs => exact ⟨ready stands.1, stands.2⟩
  | converting source target => exact ⟨ready stands.1, stands.2⟩
  | removing f d => exact ⟨ready stands.1, stands.2⟩
  | _ => exact ready stands

end Stands

namespace Processor

/-- What steps apart keep. -/
structure Inv (job : Job) (s : Processor) : Prop where
  options : (s.Unswitched job ∧ s.options = job.config.options) ∨
    (¬ s.Unswitched job ∧ s.options = job.config.options.enable)
  inRange : ∀ i c, c ∈ s.uses i → i < job.disks.length
  claims : ∀ i c, c ∈ s.uses i → c.Of job i ∧ ∀ disk ∈ job.disks, ¬ c.Covers job disk.file
  dirs : ∀ i d, .temp d ∈ s.uses i → s.fs.dirs d = true
  once : ∀ i j c, c ∈ s.uses i → c ∈ s.uses j → i = j
  disks : ∀ i disk, job.disks[i]? = some disk → s.fs.files disk.file = some (.image i)
  stands : ∀ i disk, job.disks[i]? = some disk → (s.stages i).Stands job (s.uses i) s.fs i disk
  applied : s.SoloOptions job

/-- What the processing of disk `i` may do: write the disk's own image, and change what it claims. -/
def Permitted (job : Job) (s : Processor) (i : Nat) (disk : Disk) (claims : List Claim) : Change → Prop
  | .write f data => (f = disk.file ∧ data = .image i) ∨ ∃ c ∈ claims ++ s.uses i, c.Covers job f
  | .remove f => ∃ c ∈ claims ++ s.uses i, c.Covers job f
  | .mkdir _ => True
  | .rmtree d => .temp d ∈ s.uses i

/-- What is to be known of the effect of a step. -/
structure Lawful (job : Job) (s : Processor) (i : Nat) (disk : Disk) (e : Effect) : Prop where
  changes : ∀ c ∈ e.changes, s.Permitted job i disk e.claims c
  claims : ∀ c ∈ e.claims, c.Of job i ∧ (∀ disk ∈ job.disks, ¬ c.Covers job disk.file) ∧ ∀ j, j ≠ i → c ∉ s.uses j
  made : ∀ d, .temp d ∈ e.claims → .mkdir d ∈ e.changes ∧ ∀ c ∈ e.changes, ∀ d, c ≠ .rmtree d
  removed : ∀ d, .rmtree d ∈ e.changes → .temp d ∈ e.released
  stands : e.stage.Stands job ((e.claims ++ s.uses i).filter (· ∉ e.released)) (s.fs.applyAll e.changes) i disk
  options : (e.options = s.options ∧ (job.switches disk = true → e.stage.passed = (s.stages i).passed)) ∨
    (job.switches disk = true ∧ e.stage.passed = true ∧ e.options = s.options.enable)
  applied : ∀ options, e.applied = some options → options = job.soloOptions disk

section Lawful

variable {job : Job} {s : Processor} {i j : Nat} {disk : Disk} {e : Effect} {f : File}

theorem Permitted.of_hits {claims : List Claim} {change : Change} (permitted : s.Permitted job i disk claims change)
    (hits : change.Hits f) :
    (f = disk.file ∧ change = .write f (.image i)) ∨ ∃ c ∈ claims ++ s.uses i, c.Covers job f := by
  cases change with
  | write g data =>
    obtain rfl : g = f := hits
    rcases permitted with ⟨rfl, rfl⟩ | covered
    · exact .inl ⟨rfl, rfl⟩
    · exact .inr covered
  | remove g =>
    obtain rfl : g = f := hits
    exact .inr permitted
  | mkdir d => exact hits.elim
  | rmtree d => exact .inr ⟨.temp d, List.mem_append_right _ permitted, hits⟩

variable (tidy : job.Tidy) (distinct : job.disks.Nodup) (inv : Inv job s) (here : job.disks[i]? = some disk)
variable (lawful : Lawful job s i disk e)

include inv lawful in
theorem Lawful.claim {c : Claim} (member : c ∈ e.claims ++ s.uses i) :
    c.Of job i ∧ (∀ disk ∈ job.disks, ¬ c.Covers job disk.file) ∧ ∀ j, j ≠ i → c ∉ s.uses j := by
  rcases List.mem_append.mp member with new | old
  · exact lawful.claims c new
  · obtain ⟨of, clear⟩ := inv.claims i c old
    exact ⟨of, clear, fun j other theirs => other (inv.once j i c theirs old)⟩

include distinct in
theorem index_of_file {disk' : Disk} (here : job.disks[i]? = some disk) (there : job.disks[j]? = some disk')
    (same : disk.file = disk'.file) : i = j := by
  have equal : disk = disk' := by
    cases disk
    cases disk'
    simpa [Disk.file] using same
  rw [← equal] at there
  have bound : i < job.disks.length := (List.getElem?_eq_some_iff.mp here).1
  exact (List.getElem?_inj bound distinct).mp (here.trans there.symm)

include tidy inv here lawful in
/-- No change of the step hits what another disk claims. -/
theorem Lawful.undisturbed {change : Change} (member : change ∈ e.changes) (other : j ≠ i) {c : Claim} (theirs : c ∈ s.uses j)
    (covers : c.Covers job f) : ¬ change.Hits f := by
  intro hits
  have bound : i < job.disks.length := (List.getElem?_eq_some_iff.mp here).1
  rcases (lawful.changes change member).of_hits hits with ⟨rfl, -⟩ | ⟨k, mine, covers'⟩
  · exact (inv.claims j c theirs).2 disk (List.mem_of_getElem? here) covers
  · obtain ⟨of, -, fresh⟩ := lawful.claim inv mine
    have different : k ≠ c := by
      intro same
      rw [same] at fresh
      exact fresh j other theirs
    exact Claim.not_covers tidy bound (inv.inRange j c theirs) other.symm of (inv.claims j c theirs).1 different covers' covers

include distinct inv here lawful in
/-- The only change that hits an input disk is that its own image is written. -/
theorem Lawful.hits_disk {disk' : Disk} (there : job.disks[j]? = some disk') {change : Change} (member : change ∈ e.changes) :
    change = .write disk'.file (.image j) ∨ ¬ change.Hits disk'.file := by
  by_cases hits : change.Hits disk'.file
  · rcases (lawful.changes change member).of_hits hits with ⟨same, rfl⟩ | ⟨k, mine, covers⟩
    · obtain rfl := index_of_file distinct here there same.symm
      exact .inl rfl
    · exact absurd covers ((lawful.claim inv mine).2.1 disk' (List.mem_of_getElem? there))
  · exact .inr hits

include inv lawful in
theorem Lawful.options_inv (here : job.disks[i]? = some disk) :
    ((s.commit i e).Unswitched job ∧ (s.commit i e).options = job.config.options) ∨
      (¬ (s.commit i e).Unswitched job ∧ (s.commit i e).options = job.config.options.enable) := by
  have elsewhere : ∀ k, k ≠ i → (s.commit i e).stages k = s.stages k := fun k other => Function.update_of_ne other _ _
  have at_i : (s.commit i e).stages i = e.stage := Function.update_self _ _ _
  rcases lawful.options with ⟨same, passed⟩ | ⟨switches, passed, enabled⟩
  · have unswitched : (s.commit i e).Unswitched job ↔ s.Unswitched job := by
      unfold Unswitched
      refine forall₂_congr fun k _ => forall₂_congr fun disk' there => forall_congr' fun switches => ?_
      by_cases other : k = i
      · subst other
        rw [here, Option.mem_some_iff] at there
        rw [at_i, passed (there ▸ switches)]
      · rw [elsewhere k other]
    rw [unswitched]
    show (_ ∧ e.options = _) ∨ (_ ∧ e.options = _)
    rw [same]
    exact inv.options
  · refine .inr ⟨?_, ?_⟩
    · intro unswitched
      have := unswitched i (List.getElem?_eq_some_iff.mp here).1 disk here switches
      rw [at_i, passed] at this
      cases this
    · show e.options = _
      rw [enabled]
      rcases inv.options with ⟨-, same⟩ | ⟨-, same⟩
      · rw [same]
      · rw [same, Options.enable_enable]

include inv lawful in
theorem Lawful.dirs_inv {d : Str} (uses : .temp d ∈ (s.commit i e).uses j) : (s.commit i e).fs.dirs d = true := by
  by_cases other : j = i
  · subst other
    have kept : .temp d ∈ (e.claims ++ s.uses j).filter (· ∉ e.released) := by
      simpa only [commit, Function.update_self] using uses
    obtain ⟨member, unreleased⟩ := List.mem_filter.mp kept
    rw [decide_eq_true_eq] at unreleased
    rcases List.mem_append.mp member with new | old
    · obtain ⟨made, kept⟩ := lawful.made d new
      exact dirs_applyAll_mkdir made kept
    · apply dirs_applyAll (inv.dirs j d old)
      intro c change d' same
      subst same
      intro equal
      rw [equal] at change
      exact unreleased (lawful.removed d change)
  · have theirs : .temp d ∈ s.uses j := by simpa only [commit, Function.update_of_ne other] using uses
    apply dirs_applyAll (inv.dirs j d theirs)
    intro c change d' same
    subst same
    intro equal
    rw [equal] at change
    exact other (inv.once j i _ theirs (lawful.changes _ change))

include tidy distinct inv here lawful in
theorem Lawful.stands_inv {disk' : Disk} (there : job.disks[j]? = some disk') :
    ((s.commit i e).stages j).Stands job ((s.commit i e).uses j) (s.commit i e).fs j disk' := by
  by_cases other : j = i
  · subst other
    rw [here, Option.some.injEq] at there
    subst there
    have stands := lawful.stands
    simpa only [commit, Function.update_self] using stands
  · have stands := inv.stands j disk' there
    simp only [commit, Function.update_of_ne other]
    apply stands.transfer
    intro f owned
    rcases owned with rfl | ⟨c, theirs, covers⟩
    · have holds := inv.disks j disk' there
      rw [holds]
      exact files_applyAll_of_same holds fun c member => lawful.hits_disk distinct inv here there member
    · exact files_applyAll fun change member => lawful.undisturbed tidy inv here member other theirs covers

include tidy distinct inv here lawful in
theorem Lawful.commit_inv : Inv job (s.commit i e) := by
  have bound : i < job.disks.length := (List.getElem?_eq_some_iff.mp here).1
  have elsewhere : ∀ j, j ≠ i → (s.commit i e).uses j = s.uses j := fun j other => Function.update_of_ne other _ _
  have mine : ∀ c ∈ (s.commit i e).uses i, c ∈ e.claims ++ s.uses i := by
    intro c member
    have member : c ∈ (e.claims ++ s.uses i).filter (· ∉ e.released) := by
      simpa only [commit, Function.update_self] using member
    exact (List.mem_filter.mp member).1
  refine ⟨lawful.options_inv inv here, ?_, ?_, fun j d => lawful.dirs_inv inv, ?_, ?_,
    fun j disk' there => lawful.stands_inv tidy distinct inv here there, ?_⟩
  · intro j c member
    by_cases other : j = i
    · rw [other]
      exact bound
    · rw [elsewhere j other] at member
      exact inv.inRange j c member
  · intro j c member
    by_cases other : j = i
    · subst other
      obtain ⟨of, clear, -⟩ := lawful.claim inv (mine c member)
      exact ⟨of, clear⟩
    · rw [elsewhere j other] at member
      exact inv.claims j c member
  · intro j k c left right
    by_cases first : j = i <;> by_cases second : k = i
    · rw [first, second]
    · subst first
      rw [elsewhere k second] at right
      exact absurd right ((lawful.claim inv (mine c left)).2.2 k second)
    · subst second
      rw [elsewhere j first] at left
      exact absurd left ((lawful.claim inv (mine c right)).2.2 j first)
    · rw [elsewhere j first] at left
      rw [elsewhere k second] at right
      exact inv.once j k c left right
  · intro j disk' there
    exact files_applyAll_of_same (inv.disks j disk' there) fun c member =>
      lawful.hits_disk distinct inv here there member
  · intro j disk' options there applied
    by_cases other : j = i
    · subst other
      rw [here, Option.some.injEq] at there
      subst there
      simp only [commit, Function.update_self] at applied
      cases now : e.applied with
      | none =>
        rw [now] at applied
        exact inv.applied j disk options here applied
      | some given =>
        rw [now] at applied
        obtain rfl : given = options := by simpa using applied
        exact lawful.applied given now
    · simp only [commit, Function.update_of_ne other] at applied
      exact inv.applied j disk' options there applied

end Lawful

end Processor

end H2kvm.Orchestration
