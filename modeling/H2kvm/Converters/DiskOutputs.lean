import H2kvm.Framework.Names
import H2kvm.Framework.Paths
import H2kvm.Framework.Replace
import H2kvm.Network.Renames
import Mathlib.Data.List.Nodup
import Mathlib.Logic.Function.Basic

namespace H2kvm.Converters.DiskOutputs

open Framework Names Paths Text
open Network (lower)

/-- The files that are there, by their paths, and the disk image each holds. -/
abbrev Files (C : Type) := Path → Option C

/-- `Path.name`. -/
def nameOf (p : Path) : List Char := p.getLast?.getD []

/-- The temporary file of a conversion. -/
def partOf (out : Path) : Path :=
  out.dropLast ++ [withSuffix (nameOf out) (suffix (nameOf out) ++ ".part".toList)]

/-- The descriptor beside a flat extent. -/
def descriptor? (src : Path) : Option Path :=
  if "-flat.vmdk".toList <:+ nameOf src then
    some (src.dropLast ++ [replace "-flat.vmdk".toList ".vmdk".toList (nameOf src)])
  else none

section code

variable {C D : Type}

/-- `Convert._prefer_descriptor_for_flat`. -/
def preferDescriptorForFlat (files : Files C) (src : Path) : Path :=
  match descriptor? src with
  | some descriptor => if (files descriptor).isSome then descriptor else src
  | none => src

/-- `Convert.convert_image_with_progress`, which succeeds if there is something to read once its temporary file is
cleared. -/
def convertImage (files : Files C) (src dst : Path) : Option (Files C) :=
  let cleared := Function.update files (partOf dst) none
  (cleared (preferDescriptorForFlat files src)).map fun image => Function.update cleared dst (some image)

/-- The loop over the disks, numbered on from `idx`: each is converted to a file under its own name. OVF and AMI skip
those that are not there. -/
def convertDisks (skips : Bool) (disk : D → Path) (out : Files C → Nat → D → Path) :
    Nat → List D → Files C → Option (List Path × Files C)
  | _, [], files => some ([], files)
  | idx, d :: ds, files =>
    if skips && (files (disk d)).isNone then convertDisks skips disk out (idx + 1) ds files
    else
      match convertImage files (disk d) (out files idx d) with
      | none => none
      | some converted =>
        (convertDisks skips disk out (idx + 1) ds converted).map fun rest => (out files idx d :: rest.1, rest.2)

/-- The paths without those that come again. -/
def dedup (paths : List Path) : List Path := paths.foldl (fun uniq p => if p ∈ uniq then uniq else uniq ++ [p]) []

/-- What OVF and AMI return: the distinct outputs, if there are any. -/
def distinctOutputs (ran : Option (List Path × Files C)) : Option (List Path × Files C) :=
  ran.bind fun (outputs, files) => if dedup outputs = [] then none else some (dedup outputs, files)

namespace OVF

/-- The name without `.vmdk`, and with `.qcow2`. -/
def outputName (disk : Path) : List Char :=
  let stem := if ".vmdk".toList <:+ lower (nameOf disk) then (nameOf disk).take ((nameOf disk).length - 5) else nameOf disk
  stem ++ ".qcow2".toList

/-- `OVF._convert_disks_to_qcow2`. -/
def convertDisksToQcow2 (disks : List Path) (outdir : Path) (files : Files C) : Option (List Path × Files C) :=
  distinctOutputs (convertDisks true id (fun _ _ disk => outdir ++ [outputName disk]) 1 disks files)

end OVF

namespace AMI

/-- `{idx:02d}` -/
def number (idx : Nat) : List Char := if idx < 10 then '0' :: Nat.toDigits 10 idx else Nat.toDigits 10 idx

def base (idx : Nat) (disk : Path) : List Char :=
  let named := if suffix (nameOf disk) = [] then nameOf disk else stem (nameOf disk)
  let stem := if named = [] then "disk".toList ++ number idx else named
  "disk".toList ++ number idx ++ '-' :: stem

/-- `AMI._unique_qcow2_name`. `digest` is the first digits of the hash of a path. -/
def uniqueQcow2Name (digest : Path → List Char) (outdir : Path) (files : Files C) (idx : Nat) (disk : Path) : Path :=
  if (files (outdir ++ [base idx disk ++ ".qcow2".toList])).isNone then outdir ++ [base idx disk ++ ".qcow2".toList]
  else outdir ++ [base idx disk ++ '-' :: digest disk ++ ".qcow2".toList]

/-- `AMI._convert_disks_to_qcow2`. -/
def convertDisksToQcow2 (digest : Path → List Char) (disks : List Path) (outdir : Path) (files : Files C) :
    Option (List Path × Files C) :=
  distinctOutputs (convertDisks true id (uniqueQcow2Name digest outdir) 1 disks files)

end AMI

namespace RAW

def outputName (shortHash : List Char → List Char) (disk : Path × List Char) : List Char :=
  stem (nameOf disk.1) ++ '-' :: shortHash ("origin:".toList ++ disk.2) ++ ".qcow2".toList

/-- `RAW._convert_to_qcow2`, of disks with their origin keys. -/
def convertToQcow2 (shortHash : List Char → List Char) (disks : List (Path × List Char)) (outdir : Path) (files : Files C) :
    Option (List Path × Files C) :=
  convertDisks false Prod.fst (fun _ _ disk => outdir ++ [outputName shortHash disk]) 1 disks files

end RAW

end code

section names

variable {p out src descriptor : Path}

/-- The last letter of a path tells outputs, temporary files and descriptors apart. -/
def final (p : Path) : Option Char := (nameOf p).getLast?

theorem final_concat (dir : Path) {name ext : List Char} {c : Char} (last : ext.getLast? = some c) :
    final (dir ++ [name ++ ext]) = some c := by
  rw [final, nameOf, List.getLast?_concat, Option.getD_some, List.getLast?_append, last]
  rfl

theorem final_partOf (out : Path) : final (partOf out) = some 't' := by
  rw [partOf, withSuffix, ← List.append_assoc]
  exact final_concat _ (by decide)

theorem final_of_descriptor? (found : descriptor? src = some descriptor) :
    final descriptor = some 'k' ∧ final src = some 'k' := by
  rw [descriptor?] at found
  split at found
  · next flat =>
    cases found
    have ends : (nameOf src).getLast? = some 'k' := by
      obtain ⟨front, same⟩ := flat
      rw [← same, List.getLast?_append]
      rfl
    refine ⟨?_, ends⟩
    rw [final, nameOf, List.getLast?_concat, Option.getD_some]
    exact getLast?_replace (by decide) ends
  · cases found

theorem ne_of_final {a b : Char} (left : final p = some a) (right : final out = some b) (differ : a ≠ b) : p ≠ out := by
  rintro rfl
  exact differ (Option.some.inj (left.symm.trans right))

end names

section jobs

variable {C : Type} {image files files' : Files C} {job : Path × Path} {done jobs : List (Path × Path)} {p : Path}

/-- The loop over disks whose outputs are known. -/
abbrev runJobs (skips : Bool) (n : Nat) (jobs : List (Path × Path)) (files : Files C) : Option (List Path × Files C) :=
  convertDisks skips Prod.fst (fun _ _ job => job.2) n jobs files

/-- The files after the jobs that are done, if each has read its disk. -/
def left (image : Files C) (done : List (Path × Path)) : Files C := fun p =>
  match done.find? (·.2 = p) with
  | some job => image job.1
  | none => if done.any (partOf ·.2 = p) then none else image p

/-- What a job reads is the image of its disk: no temporary file and no output of another image was put over that, and a
descriptor that is read in its place has the same image. -/
structure Untouched (image : Files C) (done : List (Path × Path)) (job : Path × Path) : Prop where
  cleared : ∀ k ∈ done ++ [job], partOf k.2 ≠ job.1
  overwritten : ∀ k ∈ done, k.2 = job.1 → image k.1 = image job.1
  descriptor : ∀ d, descriptor? job.1 = some d → (image d).isSome → image d = image job.1

/-- So it is for each job in its turn. -/
def Undisturbed (image : Files C) (done jobs : List (Path × Path)) : Prop :=
  ∀ before job after, jobs = before ++ job :: after → Untouched image (done ++ before) job

theorem undisturbed_cons : Undisturbed image done (job :: jobs) ↔
    Untouched image done job ∧ Undisturbed image (done ++ [job]) jobs := by
  constructor
  · intro all
    refine ⟨by simpa using all [] job jobs rfl, fun before k after split => ?_⟩
    simpa using all (job :: before) k after (by rw [split]; rfl)
  · rintro ⟨first, rest⟩ (_ | ⟨b, before⟩) k after split
    · obtain ⟨rfl, rfl⟩ := List.cons.inj split
      simpa using first
    · obtain ⟨rfl, same⟩ := List.cons.inj split
      simpa using rest before k after same

/-- What ends in neither way is as it was. -/
theorem left_of_final {c : Char} (ends : final p = some c) (noOut : c ≠ '2') (noPart : c ≠ 't')
    (named : ∀ k ∈ done, final k.2 = some '2') : left image done p = image p := by
  have none : done.find? (·.2 = p) = none := by
    rw [List.find?_eq_none]
    intro k member same
    exact ne_of_final ends (named k member) noOut (of_decide_eq_true same).symm
  have any : done.any (partOf ·.2 = p) = false := by
    rw [List.any_eq_false]
    intro k member same
    exact ne_of_final ends (final_partOf k.2) noPart (of_decide_eq_true same).symm
  rw [left, none]
  dsimp only
  rw [any, if_neg Bool.false_ne_true]

theorem left_concat (fresh : job.2 ∉ done.map Prod.snd) (outs : ∀ k ∈ done, final k.2 = some '2') :
    Function.update (Function.update (left image done) (partOf job.2) none) job.2 (image job.1) =
      left image (done ++ [job]) := by
  funext p
  rw [left, List.find?_append]
  by_cases isOut : p = job.2
  · subst isOut
    have none : done.find? (·.2 = job.2) = none := by
      rw [List.find?_eq_none]
      exact fun k member same => fresh (List.mem_map.mpr ⟨k, member, of_decide_eq_true same⟩)
    simp [none]
  · rw [Function.update_of_ne isOut]
    have other : [job].find? (·.2 = p) = none := by simp [Ne.symm isOut]
    rw [other, Option.or_none, List.any_append]
    by_cases isPart : p = partOf job.2
    · subst isPart
      have none : done.find? (·.2 = partOf job.2) = none := by
        rw [List.find?_eq_none]
        intro k member same
        exact ne_of_final (outs k member) (final_partOf job.2) (by decide) (of_decide_eq_true same)
      simp [none]
    · have notPart : decide (partOf job.2 = p) = false := decide_eq_false (Ne.symm isPart)
      rw [Function.update_of_ne isPart, left]
      simp only [List.any_cons, List.any_nil, notPart, Bool.or_false]

/-- The file that a conversion reads, when its temporary file is cleared. -/
def source (files : Files C) (job : Path × Path) : Option C :=
  Function.update files (partOf job.2) none (preferDescriptorForFlat files job.1)

theorem convertImage_eq (files : Files C) (job : Path × Path) : convertImage files job.1 job.2 =
    (source files job).map fun image => Function.update (Function.update files (partOf job.2) none) job.2 (some image) := rfl

theorem isSome_of_source (outs : ∀ k ∈ done, final k.2 = some '2') (exist : (image job.1).isSome)
    (reads : source (left image done) job = image job.1) : (left image done job.1).isSome := by
  cases found : descriptor? job.1 with
  | some d => rwa [left_of_final (final_of_descriptor? found).2 (by decide) (by decide) outs]
  | none =>
    rw [source, preferDescriptorForFlat, found] at reads
    dsimp only at reads
    by_cases cleared : job.1 = partOf job.2
    · rw [cleared, Function.update_self, ← cleared] at reads
      rw [← reads] at exist
      cases exist
    · rw [Function.update_of_ne cleared] at reads
      rwa [reads]

/-- A job reads the image of its disk exactly where it is untouched. -/
theorem source_left_iff (outs : ∀ k ∈ done, final k.2 = some '2')
    (distinct : (done.map Prod.snd).Nodup) (exist : (image job.1).isSome) :
    source (left image done) job = image job.1 ↔ Untouched image done job := by
  cases found : descriptor? job.1 with
  | some d =>
    obtain ⟨endsD, endsJob⟩ := final_of_descriptor? found
    have kept : left image done job.1 = image job.1 := left_of_final endsJob (by decide) (by decide) outs
    have keptD : left image done d = image d := left_of_final endsD (by decide) (by decide) outs
    have reads : source (left image done) job = if (image d).isSome then image d else image job.1 := by
      rw [source, preferDescriptorForFlat, found]
      dsimp only
      rw [keptD]
      split
      · rw [Function.update_of_ne (ne_of_final endsD (final_partOf job.2) (by decide)), keptD]
      · rw [Function.update_of_ne (ne_of_final endsJob (final_partOf job.2) (by decide)), kept]
    rw [reads]
    constructor
    · intro same
      refine ⟨fun k _ => ne_of_final (final_partOf k.2) endsJob (by decide), fun k member here => ?_, ?_⟩
      · exact absurd here (ne_of_final (outs k member) endsJob (by decide))
      · intro d' found' there
        cases found.symm.trans found'
        rwa [if_pos there] at same
    · intro untouched
      split
      · next there => exact untouched.descriptor d found there
      · rfl
  | none =>
    have reads : source (left image done) job = Function.update (left image done) (partOf job.2) none job.1 := by
      rw [source, preferDescriptorForFlat, found]
    rw [reads]
    constructor
    · intro same
      have apart : job.1 ≠ partOf job.2 := by
        intro here
        rw [here, Function.update_self, ← here] at same
        rw [← same] at exist
        cases exist
      rw [Function.update_of_ne apart] at same
      refine ⟨fun k member here => ?_, fun k member here => ?_, fun d there => by rw [found] at there; cases there⟩
      · rcases List.mem_append.mp member with old | new
        · have ends : final job.1 = some 't' := here ▸ final_partOf k.2
          have none : done.find? (·.2 = job.1) = none := by
            rw [List.find?_eq_none]
            intro k' member' same'
            exact ne_of_final (outs k' member') ends (by decide) (of_decide_eq_true same')
          have any : done.any (partOf ·.2 = job.1) = true := List.any_eq_true.mpr ⟨k, old, decide_eq_true here⟩
          rw [left, none] at same
          dsimp only at same
          rw [any, if_pos rfl] at same
          rw [← same] at exist
          cases exist
        · rw [List.mem_singleton.mp new] at here
          exact apart here.symm
      · obtain ⟨k', first⟩ : ∃ k', done.find? (·.2 = job.1) = some k' := by
          cases first : done.find? (·.2 = job.1) with
          | some k' => exact ⟨k', rfl⟩
          | none => exact absurd (decide_eq_true here) (List.find?_eq_none.mp first k member)
        have there : k'.2 = job.1 := by simpa using List.find?_some first
        obtain rfl := List.inj_on_of_nodup_map distinct (List.mem_of_find?_eq_some first) member (there.trans here.symm)
        rw [left, first] at same
        exact same
    · intro untouched
      have apart : job.1 ≠ partOf job.2 := (untouched.cleared job (by simp)).symm
      have same : left image done job.1 = image job.1 := by
        rw [left]
        cases first : done.find? (·.2 = job.1) with
        | some k => exact untouched.overwritten k (List.mem_of_find?_eq_some first) (by simpa using List.find?_some first)
        | none =>
          have any : done.any (partOf ·.2 = job.1) = false := by
            rw [List.any_eq_false]
            exact fun k member here => untouched.cleared k (List.mem_append_left _ member) (of_decide_eq_true here)
          dsimp only
          rw [any, if_neg Bool.false_ne_true]
      rw [Function.update_of_ne apart, same]

theorem sublist_of_runJobs {skips : Bool} {n : Nat} {outs : List Path}
    (ran : runJobs skips n jobs files = some (outs, files')) : outs.Sublist (jobs.map Prod.snd) := by
  induction jobs generalizing n outs files files' with
  | nil =>
    cases ran
    exact .slnil
  | cons job jobs ih =>
    rw [runJobs, convertDisks] at ran
    rw [List.map_cons]
    split at ran
    · exact (ih ran).cons _
    · split at ran
      · cases ran
      · obtain ⟨rest, further, same⟩ := Option.map_eq_some_iff.mp ran
        cases same
        exact (ih further).cons_cons _

theorem runJobs_other {skips : Bool} {n : Nat} {outs : List Path} (ran : runJobs skips n jobs files = some (outs, files'))
    (ends : final p = some '2') (other : p ∉ jobs.map Prod.snd) : files' p = files p := by
  induction jobs generalizing n outs files files' with
  | nil =>
    cases ran
    rfl
  | cons job jobs ih =>
    rw [List.map_cons, List.mem_cons, not_or] at other
    rw [runJobs, convertDisks] at ran
    split at ran
    · exact ih ran other.2
    · split at ran
      · cases ran
      · next converted run =>
        obtain ⟨rest, further, same⟩ := Option.map_eq_some_iff.mp ran
        cases same
        obtain ⟨image, -, rfl⟩ := Option.map_eq_some_iff.mp ((convertImage_eq files job).symm.trans run)
        rw [ih further other.2, Function.update_of_ne other.1,
          Function.update_of_ne (ne_of_final ends (final_partOf _) (by decide))]

section turns

variable {skips : Bool} {n : Nat}

/-- A job in its turn: it is not skipped, and goes on where it has read its disk. -/
theorem runJobs_turn (fresh : job.2 ∉ done.map Prod.snd) (outs : ∀ k ∈ done, final k.2 = some '2')
    (exist : (image job.1).isSome) (reads : source (left image done) job = image job.1) :
    runJobs skips n (job :: jobs) (left image done) =
      (runJobs skips (n + 1) jobs (left image (done ++ [job]))).map fun rest => (job.2 :: rest.1, rest.2) := by
  obtain ⟨content, found⟩ := Option.isSome_iff_exists.mp exist
  have skipped : (skips && (left image done job.1).isNone) = false := by
    rw [Option.isNone_eq_false_iff.mpr (isSome_of_source outs exist reads), Bool.and_false]
  have converted : convertImage (left image done) job.1 job.2 = some (left image (done ++ [job])) := by
    rw [convertImage_eq, reads, ← left_concat fresh outs, found]
    rfl
  rw [runJobs, convertDisks, skipped, if_neg Bool.false_ne_true, converted]

theorem runJobs_of_undisturbed (named : ∀ k ∈ done ++ jobs, final k.2 = some '2')
    (distinct : ((done ++ jobs).map Prod.snd).Nodup) (exist : ∀ k ∈ jobs, (image k.1).isSome)
    (undisturbed : Undisturbed image done jobs) :
    runJobs skips n jobs (left image done) = some (jobs.map Prod.snd, left image (done ++ jobs)) := by
  induction jobs generalizing n done with
  | nil => simp [runJobs, convertDisks]
  | cons job jobs ih =>
    obtain ⟨untouched, rest⟩ := undisturbed_cons.mp undisturbed
    have outs (k : Path × Path) (member : k ∈ done) : final k.2 = some '2' := named k (List.mem_append_left _ member)
    have first := exist job List.mem_cons_self
    rw [List.map_append, List.map_cons] at distinct
    have fresh : job.2 ∉ done.map Prod.snd := fun member =>
      (List.nodup_append.mp distinct).2.2 _ member _ List.mem_cons_self rfl
    have reads := (source_left_iff outs (List.nodup_append.mp distinct).1 first).mpr untouched
    have split : done ++ job :: jobs = done ++ [job] ++ jobs := by simp
    rw [runJobs_turn fresh outs first reads, ih (split ▸ named) (by simpa using distinct)
      (fun k member => exist k (List.mem_cons_of_mem job member)) rest, split]
    rfl

/-- Jobs that each leave the image of their disk are undisturbed. -/
theorem undisturbed_of_runJobs (named : ∀ k ∈ done ++ jobs, final k.2 = some '2')
    (distinct : ((done ++ jobs).map Prod.snd).Nodup) (exist : ∀ k ∈ jobs, (image k.1).isSome)
    (ran : runJobs skips n jobs (left image done) = some (jobs.map Prod.snd, files'))
    (right : ∀ k ∈ jobs, files' k.2 = image k.1) : Undisturbed image done jobs := by
  induction jobs generalizing n done with
  | nil => exact fun before job after split => by simp at split
  | cons job jobs ih =>
    have outs (k : Path × Path) (member : k ∈ done) : final k.2 = some '2' := named k (List.mem_append_left _ member)
    have first := exist job List.mem_cons_self
    have split : done ++ job :: jobs = done ++ [job] ++ jobs := by simp
    have distinct' := distinct
    rw [List.map_append, List.map_cons] at distinct
    obtain ⟨distinctDone, distinctRest, apart⟩ := List.nodup_append.mp distinct
    have fresh : job.2 ∉ done.map Prod.snd := fun member => apart _ member _ List.mem_cons_self rfl
    -- Each step below follows the run: the job was not skipped, and what it read stays in its output.
    have ran' := ran
    rw [runJobs, convertDisks] at ran'
    have reads : source (left image done) job = image job.1 := by
      split at ran'
      · have short := (sublist_of_runJobs ran').length_le
        simp only [List.length_map, List.length_cons] at short
        omega
      · split at ran'
        · cases ran'
        · next converted run =>
          obtain ⟨⟨rest, finished⟩, further, same⟩ := Option.map_eq_some_iff.mp ran'
          cases same
          obtain ⟨content, found, rfl⟩ := Option.map_eq_some_iff.mp ((convertImage_eq _ job).symm.trans run)
          have kept := runJobs_other further (named job (by simp)) (List.nodup_cons.mp distinctRest).1
          rw [Function.update_self] at kept
          exact found.trans (kept.symm.trans (right job List.mem_cons_self))
    refine undisturbed_cons.mpr ⟨(source_left_iff outs distinctDone first).mp reads, ?_⟩
    rw [runJobs_turn fresh outs first reads] at ran
    obtain ⟨⟨rest, finished⟩, further, same⟩ := Option.map_eq_some_iff.mp ran
    cases same
    exact ih (split ▸ named) (split ▸ distinct') (fun k member => exist k (List.mem_cons_of_mem job member)) further
      fun k member => right k (List.mem_cons_of_mem job member)

end turns

end jobs

section outputs

variable {C D : Type} {files files' : Files C} {outs : List Path}

/-- Every disk has an output of its own, in order, and the output has the image that the disk had. -/
def NoneLost (files : Files C) (disks : List Path) (ran : Option (List Path × Files C)) : Prop :=
  ∃ outs files', ran = some (outs, files') ∧ outs.Nodup ∧ List.Forall₂ (fun disk out => files' out = files disk) disks outs

theorem foldl_dedup_sublist (uniq paths : List Path) :
    (paths.foldl (fun uniq p => if p ∈ uniq then uniq else uniq ++ [p]) uniq).Sublist (uniq ++ paths) := by
  induction paths generalizing uniq with
  | nil => simp
  | cons p paths ih =>
    rw [List.foldl_cons]
    split
    · exact (ih uniq).trans (List.Sublist.append_left (List.sublist_cons_self p paths) uniq)
    · simpa using ih (uniq ++ [p])

theorem foldl_dedup_of_nodup {uniq paths : List Path} (distinct : (uniq ++ paths).Nodup) :
    paths.foldl (fun uniq p => if p ∈ uniq then uniq else uniq ++ [p]) uniq = uniq ++ paths := by
  induction paths generalizing uniq with
  | nil => simp
  | cons p paths ih =>
    have fresh : p ∉ uniq := fun member => (List.nodup_append.mp distinct).2.2 _ member _ List.mem_cons_self rfl
    rw [List.foldl_cons, if_neg fresh, ih (by simpa using distinct)]
    simp

theorem dedup_sublist (paths : List Path) : (dedup paths).Sublist paths := foldl_dedup_sublist [] paths

theorem dedup_of_nodup {paths : List Path} (distinct : paths.Nodup) : dedup paths = paths :=
  @foldl_dedup_of_nodup [] paths distinct

/-- Jobs over disks that are there lose none exactly if their outputs are distinct and they are undisturbed. -/
theorem noneLost_runJobs_iff {skips : Bool} {n : Nat} {jobs : List (Path × Path)}
    (named : ∀ k ∈ jobs, final k.2 = some '2') (exist : ∀ k ∈ jobs, (files k.1).isSome) :
    NoneLost files (jobs.map Prod.fst) (runJobs skips n jobs files) ↔
      (jobs.map Prod.snd).Nodup ∧ Undisturbed files [] jobs := by
  constructor
  · rintro ⟨outs, files', ran, distinct, same⟩
    have all : outs = jobs.map Prod.snd := by
      refine (sublist_of_runJobs ran).eq_of_length ?_
      rw [List.length_map, ← same.length_eq, List.length_map]
    subst all
    rw [List.forall₂_map_left_iff, List.forall₂_map_right_iff, List.forall₂_same] at same
    exact ⟨distinct, undisturbed_of_runJobs named distinct exist ran same⟩
  · rintro ⟨distinct, undisturbed⟩
    have ran : runJobs skips n jobs (left files []) = some (jobs.map Prod.snd, left files ([] ++ jobs)) :=
      runJobs_of_undisturbed named distinct exist undisturbed
    refine ⟨jobs.map Prod.snd, left files jobs, ran, distinct, ?_⟩
    rw [List.forall₂_map_left_iff, List.forall₂_map_right_iff, List.forall₂_same]
    intro job member
    rw [left]
    cases first : jobs.find? (·.2 = job.2) with
    | none => exact absurd (decide_eq_true rfl) (List.find?_eq_none.mp first job member)
    | some k =>
      have output : k.2 = job.2 := by simpa using List.find?_some first
      rw [List.inj_on_of_nodup_map distinct (List.mem_of_find?_eq_some first) member output]

theorem noneLost_distinctOutputs_iff {disks : List Path} {ran : Option (List Path × Files C)}
    (atMost : ∀ outs files', ran = some (outs, files') → outs.length ≤ disks.length) :
    NoneLost files disks (distinctOutputs ran) ↔ disks ≠ [] ∧ NoneLost files disks ran := by
  constructor
  · rintro ⟨outs, files', distinct, nodup, same⟩
    obtain ⟨⟨outputs, finished⟩, rfl, returned⟩ := Option.bind_eq_some_iff.mp distinct
    dsimp only at returned
    split at returned
    · cases returned
    · next some =>
      cases returned
      have long : outputs.length ≤ (dedup outputs).length := same.length_eq ▸ atMost outputs files' rfl
      have kept := (dedup_sublist outputs).eq_of_length_le long
      rw [kept] at nodup same some
      refine ⟨?_, outputs, files', rfl, nodup, same⟩
      rintro rfl
      cases same
      exact some rfl
  · rintro ⟨some, outs, files', rfl, nodup, same⟩
    refine ⟨outs, files', ?_, nodup, same⟩
    have output : outs ≠ [] := by
      rintro rfl
      cases same
      exact some rfl
    rw [distinctOutputs, Option.bind_some]
    dsimp only
    rw [dedup_of_nodup nodup, if_neg output]

/-- The disks with the outputs that `name` gives them, numbered on from `n`. -/
def numbered (disk : D → Path) (name : Nat → D → Path) (n : Nat) (disks : List D) : List (Path × Path) :=
  (disks.zipIdx n).map fun (d, idx) => (disk d, name idx d)

/-- The loop runs its jobs where the names it asks for stay what they are. -/
theorem convertDisks_eq_runJobs {skips : Bool} {disk : D → Path} {out : Files C → Nat → D → Path} (name : Nat → D → Path)
    (Asks : Nat → Files C → Prop)
    (mono : ∀ {idx : Nat} {files : Files C}, Asks idx files → Asks (idx + 1) files)
    (asks : ∀ {idx : Nat} {files : Files C} {d : D}, Asks idx files → out files idx d = name idx d)
    (step : ∀ {idx : Nat} {files files' : Files C} {d : D}, Asks idx files →
      convertImage files (disk d) (name idx d) = some files' → Asks (idx + 1) files')
    (n : Nat) (disks : List D) (files : Files C) (holds : Asks n files) :
    convertDisks skips disk out n disks files = runJobs skips n (numbered disk name n disks) files := by
  induction disks generalizing n files with
  | nil => rfl
  | cons d disks ih =>
    rw [numbered, List.zipIdx_cons, List.map_cons, runJobs, convertDisks, convertDisks, asks holds]
    dsimp only
    rw [ih (n + 1) files (mono holds)]
    cases run : convertImage files (disk d) (name n d) with
    | none => rfl
    | some converted =>
      dsimp only
      rw [ih (n + 1) converted (step holds run)]
      rfl

theorem convertDisks_const {skips : Bool} {disk name : D → Path} (n : Nat) (disks : List D) (files : Files C) :
    convertDisks skips disk (fun _ _ d => name d) n disks files =
      runJobs skips n (disks.map fun d => (disk d, name d)) files := by
  have jobs : numbered disk (fun _ => name) n disks = disks.map fun d => (disk d, name d) := by
    induction disks generalizing n with
    | nil => rfl
    | cons d disks ih => exact congrArg _ (ih (n + 1))
  rw [← jobs]
  exact convertDisks_eq_runJobs (fun _ => name) (fun _ _ => True) (fun _ => trivial) (fun _ => rfl) (fun _ _ => trivial) n
    disks files trivial

theorem numbered_fst (disk : D → Path) (name : Nat → D → Path) (n : Nat) (disks : List D) :
    (numbered disk name n disks).map Prod.fst = disks.map disk := by
  induction disks generalizing n with
  | nil => rfl
  | cons d disks ih => exact congrArg _ (ih (n + 1))

end outputs

section names

variable {C : Type} {files files' : Files C} {digest : Path → List Char} {outdir disk disk' : Path} {idx idx' : Nat}

theorem final_qcow2 (dir : Path) (name : List Char) : final (dir ++ [name ++ ".qcow2".toList]) = some '2' :=
  final_concat dir (by decide)

theorem convertImage_other {src dst p : Path} (run : convertImage files src dst = some files') (ends : final p = some '2')
    (other : p ≠ dst) : files' p = files p := by
  obtain ⟨content, -, rfl⟩ := Option.map_eq_some_iff.mp ((convertImage_eq files (src, dst)).symm.trans run)
  rw [Function.update_of_ne other, Function.update_of_ne (ne_of_final ends (final_partOf _) (by decide))]

namespace AMI

theorem number_injective (same : number idx = number idx') : idx = idx' := by
  have value (idx : Nat) : Nat.ofDigitChars 10 (number idx) 0 = idx := by
    rw [number]
    split
    · rw [Nat.ofDigitChars_cons]
      exact Nat.ofDigitChars_ten_toDigits
    · exact Nat.ofDigitChars_ten_toDigits
  rw [← value idx, same, value]

theorem takeWhile_number (rest : List Char) : (number idx ++ '-' :: rest).takeWhile Char.isDigit = number idx := by
  have dash : Undigited ('-' :: rest) := by
    rintro c ⟨⟩
    rfl
  rw [number]
  split
  · rw [List.cons_append, List.takeWhile_cons_of_pos (by decide), takeWhile_numeral dash]
  · exact takeWhile_numeral dash

/-- Every name that is tried starts with the number of its disk. -/
theorem number_of_name {rest rest' : List Char} {dir : Path}
    (same : dir ++ ["disk".toList ++ number idx ++ '-' :: rest ++ ".qcow2".toList] =
      dir ++ ["disk".toList ++ number idx' ++ '-' :: rest' ++ ".qcow2".toList]) : idx = idx' := by
  have names := List.append_cancel_right (List.singleton_injective (List.append_cancel_left same))
  rw [List.append_assoc, List.append_assoc] at names
  have numbers := congrArg (List.takeWhile Char.isDigit) (List.append_cancel_left names)
  rw [takeWhile_number, takeWhile_number] at numbers
  exact number_injective numbers

theorem uniqueQcow2Name_eq (digest : Path → List Char) (outdir : Path) (files : Files C) (idx : Nat) (disk : Path) :
    ∃ name, uniqueQcow2Name digest outdir files idx disk =
      outdir ++ ["disk".toList ++ number idx ++ '-' :: name ++ ".qcow2".toList] := by
  obtain ⟨stem, form⟩ : ∃ stem, base idx disk = "disk".toList ++ number idx ++ '-' :: stem := ⟨_, rfl⟩
  rw [uniqueQcow2Name, form]
  split
  · exact ⟨stem, rfl⟩
  · exact ⟨stem ++ '-' :: digest disk, by simp only [List.append_assoc, List.cons_append]⟩

theorem convertDisks_eq (n : Nat) (disks : List Path) (files : Files C) :
    convertDisks true id (uniqueQcow2Name digest outdir) n disks files =
      runJobs true n (numbered id (uniqueQcow2Name digest outdir files) n disks) files := by
  let Asks (n : Nat) (now : Files C) : Prop :=
    ∀ idx, n ≤ idx → ∀ disk, uniqueQcow2Name digest outdir now idx disk = uniqueQcow2Name digest outdir files idx disk
  refine convertDisks_eq_runJobs (uniqueQcow2Name digest outdir files) Asks ?mono ?asks ?step n disks files fun _ _ _ => rfl
  case mono => exact fun asks idx later => asks idx (Nat.le_of_succ_le later)
  case asks => exact fun asks => asks _ (Nat.le_refl _) _
  case step =>
    intro idx now then' disk asks run idx' later disk'
    rw [← asks idx' (Nat.le_of_succ_le later)]
    have apart : outdir ++ [base idx' disk' ++ ".qcow2".toList] ≠ uniqueQcow2Name digest outdir files idx disk := by
      obtain ⟨name, here⟩ := uniqueQcow2Name_eq digest outdir files idx disk
      rw [here]
      intro same
      exact absurd (number_of_name same) (Nat.ne_of_gt later)
    rw [uniqueQcow2Name, uniqueQcow2Name, convertImage_other run (final_qcow2 outdir _) apart]

theorem nodup_numbered (n : Nat) (disks : List Path) :
    ((numbered id (uniqueQcow2Name digest outdir files) n disks).map Prod.snd).Nodup := by
  rw [numbered, List.map_map]
  refine List.Nodup.map_on ?_ (.of_map Prod.snd (by rw [List.zipIdx_map_snd]; exact List.nodup_range'))
  rintro ⟨disk, idx⟩ first ⟨disk', idx'⟩ second same
  obtain ⟨name, here⟩ := uniqueQcow2Name_eq digest outdir files idx disk
  obtain ⟨name', here'⟩ := uniqueQcow2Name_eq digest outdir files idx' disk'
  obtain rfl := number_of_name ((here.symm.trans same).trans here')
  obtain ⟨-, found⟩ := List.mk_mem_zipIdx_iff_le_and_getElem?_sub.mp first
  obtain ⟨-, found'⟩ := List.mk_mem_zipIdx_iff_le_and_getElem?_sub.mp second
  rw [Option.some.inj (found.symm.trans found')]

end AMI

end names

section extractors

variable {C : Type} {files : Files C}

/-- Where the outputs that are skipped or come again are left out. -/
theorem noneLost_skipping_iff {n : Nat} {jobs : List (Path × Path)} (named : ∀ k ∈ jobs, final k.2 = some '2')
    (exist : ∀ k ∈ jobs, (files k.1).isSome) :
    NoneLost files (jobs.map Prod.fst) (distinctOutputs (runJobs true n jobs files)) ↔
      jobs ≠ [] ∧ (jobs.map Prod.snd).Nodup ∧ Undisturbed files [] jobs := by
  have atMost (outs : List Path) (files' : Files C) (ran : runJobs true n jobs files = some (outs, files')) :
      outs.length ≤ (jobs.map Prod.fst).length := by
    simpa using (sublist_of_runJobs ran).length_le
  rw [noneLost_distinctOutputs_iff atMost, noneLost_runJobs_iff named exist, ne_eq, List.map_eq_nil_iff]

section placed

variable {D : Type} {disk : D → Path} {name : D → List Char} {outdir : Path} {disks : List D}

/-- The disks and where in the directory each goes. -/
def placed (disk : D → Path) (name : D → List Char) (outdir : Path) (disks : List D) : List (Path × Path) :=
  disks.map fun d => (disk d, outdir ++ [name d])

theorem placed_fst : (placed disk name outdir disks).map Prod.fst = disks.map disk := by
  rw [placed, List.map_map]
  rfl

theorem nodup_placed : ((placed disk name outdir disks).map Prod.snd).Nodup ↔ (disks.map name).Nodup := by
  have paths : (placed disk name outdir disks).map Prod.snd = (disks.map name).map fun name => outdir ++ [name] := by
    rw [placed, List.map_map, List.map_map]
    rfl
  rw [paths, List.nodup_map_iff fun _ _ same => List.singleton_injective (List.append_cancel_left same)]

theorem named_placed (ext : ∀ d, ∃ front, name d = front ++ ".qcow2".toList) :
    ∀ k ∈ placed disk name outdir disks, final k.2 = some '2' := by
  intro k member
  obtain ⟨d, -, rfl⟩ := List.mem_map.mp member
  obtain ⟨front, here⟩ := ext d
  dsimp only
  rw [here]
  exact final_qcow2 outdir front

end placed

/-- The disks of an appliance, each with the output it is to have. -/
def OVF.jobs (disks : List Path) (outdir : Path) : List (Path × Path) := placed id OVF.outputName outdir disks

def AMI.jobs (digest : Path → List Char) (disks : List Path) (outdir : Path) (files : Files C) : List (Path × Path) :=
  numbered id (AMI.uniqueQcow2Name digest outdir files) 1 disks

def RAW.jobs (shortHash : List Char → List Char) (disks : List (Path × List Char)) (outdir : Path) : List (Path × Path) :=
  placed Prod.fst (RAW.outputName shortHash) outdir disks

theorem exist_of_fst {jobs : List (Path × Path)} {disks : List Path} (same : jobs.map Prod.fst = disks)
    (exist : ∀ disk ∈ disks, (files disk).isSome) : ∀ k ∈ jobs, (files k.1).isSome :=
  fun k member => exist k.1 (same ▸ List.mem_map_of_mem member)

theorem OVF.noneLost_convert_iff {disks : List Path} {outdir : Path} (exist : ∀ disk ∈ disks, (files disk).isSome) :
    NoneLost files disks (OVF.convertDisksToQcow2 disks outdir files) ↔
      disks ≠ [] ∧ (disks.map OVF.outputName).Nodup ∧ Undisturbed files [] (OVF.jobs disks outdir) := by
  have same : (OVF.jobs disks outdir).map Prod.fst = disks := placed_fst.trans (List.map_id disks)
  have named : ∀ k ∈ OVF.jobs disks outdir, final k.2 = some '2' := named_placed fun _ => ⟨_, rfl⟩
  have iff := noneLost_skipping_iff (n := 1) named (exist_of_fst same exist)
  rw [same, ne_eq, ← List.map_eq_nil_iff (f := Prod.fst), same] at iff
  rw [OVF.convertDisksToQcow2, convertDisks_const, ← nodup_placed]
  exact iff

theorem AMI.noneLost_convert_iff {digest : Path → List Char} {disks : List Path} {outdir : Path}
    (exist : ∀ disk ∈ disks, (files disk).isSome) :
    NoneLost files disks (AMI.convertDisksToQcow2 digest disks outdir files) ↔
      disks ≠ [] ∧ Undisturbed files [] (AMI.jobs digest disks outdir files) := by
  have same : (AMI.jobs digest disks outdir files).map Prod.fst = disks := (numbered_fst _ _ _ _).trans (List.map_id disks)
  have named : ∀ k ∈ AMI.jobs digest disks outdir files, final k.2 = some '2' := by
    intro k member
    obtain ⟨⟨disk, idx⟩, -, rfl⟩ := List.mem_map.mp member
    obtain ⟨name, here⟩ := AMI.uniqueQcow2Name_eq digest outdir files idx disk
    dsimp only
    rw [here]
    exact final_qcow2 outdir _
  have iff := noneLost_skipping_iff (n := 1) named (exist_of_fst same exist)
  rw [same, ne_eq, ← List.map_eq_nil_iff (f := Prod.fst), same] at iff
  rw [AMI.convertDisksToQcow2, AMI.convertDisks_eq]
  exact iff.trans (and_congr_right fun _ => and_iff_right (AMI.nodup_numbered 1 disks))

theorem RAW.noneLost_convert_iff {shortHash : List Char → List Char} {disks : List (Path × List Char)} {outdir : Path}
    (exist : ∀ disk ∈ disks.map Prod.fst, (files disk).isSome) :
    NoneLost files (disks.map Prod.fst) (RAW.convertToQcow2 shortHash disks outdir files) ↔
      (disks.map (RAW.outputName shortHash)).Nodup ∧ Undisturbed files [] (RAW.jobs shortHash disks outdir) := by
  have same : (RAW.jobs shortHash disks outdir).map Prod.fst = disks.map Prod.fst := placed_fst
  have named : ∀ k ∈ RAW.jobs shortHash disks outdir, final k.2 = some '2' := named_placed fun _ => ⟨_, rfl⟩
  have iff := @noneLost_runJobs_iff C files false 1 _ named (exist_of_fst same exist)
  rw [same] at iff
  rw [RAW.convertToQcow2, convertDisks_const, ← nodup_placed]
  exact iff

/-- Of disks that are there, appliances, images and raw archives lose none exactly where these are some (of a raw archive,
any), their outputs have names of their own, and none is disturbed before its turn. -/
theorem no_disk_lost_iff (digest : Path → List Char) (shortHash : List Char → List Char) (disks : List (Path × List Char))
    (outdir : Path) (files : Files C) (exist : ∀ disk ∈ disks.map Prod.fst, (files disk).isSome) :
    (NoneLost files (disks.map Prod.fst) (OVF.convertDisksToQcow2 (disks.map Prod.fst) outdir files) ↔
        disks.map Prod.fst ≠ [] ∧ ((disks.map Prod.fst).map OVF.outputName).Nodup ∧
          Undisturbed files [] (OVF.jobs (disks.map Prod.fst) outdir)) ∧
      (NoneLost files (disks.map Prod.fst) (AMI.convertDisksToQcow2 digest (disks.map Prod.fst) outdir files) ↔
        disks.map Prod.fst ≠ [] ∧ Undisturbed files [] (AMI.jobs digest (disks.map Prod.fst) outdir files)) ∧
      (NoneLost files (disks.map Prod.fst) (RAW.convertToQcow2 shortHash disks outdir files) ↔
        (disks.map (RAW.outputName shortHash)).Nodup ∧ Undisturbed files [] (RAW.jobs shortHash disks outdir)) :=
  ⟨OVF.noneLost_convert_iff exist, AMI.noneLost_convert_iff exist, RAW.noneLost_convert_iff exist⟩

end extractors

/-- Two disks of one name in two directories. -/
def sameName : List Path := [["a".toList, "disk.vmdk".toList], ["b".toList, "disk.vmdk".toList]]

/-- Of the two, an image import loses none. -/
theorem no_disk_lost_sameName :
    NoneLost sameName.idxOf? sameName (AMI.convertDisksToQcow2 (fun _ => []) sameName ["out".toList] sameName.idxOf?) := by
  have plain : ∀ disk ∈ sameName, descriptor? disk = none := by decide
  refine (no_disk_lost_iff (fun _ => []) id (sameName.map fun disk => (disk, [])) ["out".toList] sameName.idxOf?
    (by decide)).2.1.mpr ⟨by decide, ?_⟩
  refine undisturbed_cons.mpr ⟨⟨by decide, by decide, fun d found => ?_⟩, ?_⟩
  · cases (plain _ (.head _)).symm.trans found
  · refine undisturbed_cons.mpr ⟨⟨by decide, by decide, fun d found => ?_⟩, ?_⟩
    · cases (plain _ (.tail _ (.head _))).symm.trans found
    · exact fun before job after split => by simp at split

/-- An appliance loses the first: the second takes its output. -/
theorem not_no_disk_lost_sameName :
    sameName.Nodup ∧ (∀ disk ∈ sameName, (sameName.idxOf? disk).isSome) ∧
      (OVF.convertDisksToQcow2 sameName ["out".toList] sameName.idxOf?).isSome ∧
        ¬ NoneLost sameName.idxOf? sameName (OVF.convertDisksToQcow2 sameName ["out".toList] sameName.idxOf?) := by
  refine ⟨by decide, by decide, by decide, fun kept => ?_⟩
  exact absurd ((OVF.noneLost_convert_iff (by decide)).mp kept).2.1 (by decide)

end H2kvm.Converters.DiskOutputs
