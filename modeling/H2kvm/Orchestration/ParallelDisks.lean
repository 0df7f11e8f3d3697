import H2kvm.Orchestration.Interference

namespace H2kvm.Orchestration

open Framework Names
open Recovery (DateTime nowTs)

namespace Processor

section Steps

variable {job : Job} {s : Processor} {i : Nat} {disk : Disk} {o : Outcome}

theorem lawful_goto {stage : Stage} (stands : stage.Stands job (s.uses i) s.fs i disk)
    (passed : job.switches disk = true → stage.passed = (s.stages i).passed) : Lawful job s i disk (s.goto stage) where
  changes := nofun
  claims := nofun
  made := nofun
  removed := nofun
  stands := by simpa [goto, FileSystem.applyAll] using stands
  options := .inl ⟨rfl, passed⟩
  applied := nofun

/-- A target that the disk claims is given the image of the source. -/
theorem lawful_convertTo {allowed : Claim → Bool} {source target : File} {after : Stage} {c : Claim}
    (mine : c ∈ s.uses i) (covers : c.Covers job target) (covers' : c.Covers job (atomicTmp target))
    (ready : Ready job (s.uses i) s.fs i disk allowed source)
    (stands : ∀ fs : FileSystem, fs.files target = some (.image i) → after.Stands job (s.uses i) fs i disk)
    (late : (s.stages i).passed = true) (passed : after.passed = true) :
    Lawful job s i disk (s.convertTo o source target after) := by
  have keep : (s.uses i).filter (· ∉ ([] : List Claim)) = s.uses i := by simp
  unfold convertTo
  rw [ready.1]
  cases o.raises with
  | true =>
    refine ⟨?_, nofun, nofun, ?_, trivial, .inl ⟨rfl, fun _ => late.symm⟩, nofun⟩
    · intro change member
      obtain rfl := List.mem_singleton.mp member
      exact ⟨c, mine, covers'⟩
    · intro d removed
      simp at removed
  | false =>
    have written : (s.fs.applyAll [.remove (atomicTmp target), .write (atomicTmp target) (.image i),
        .remove (atomicTmp target), .write target (.image i)]).files target = some (.image i) :=
      Function.update_self _ _ _
    refine ⟨?_, nofun, nofun, ?_, ?_, .inl ⟨rfl, fun _ => passed.trans late.symm⟩, nofun⟩
    · intro change member
      simp only [List.mem_cons, List.not_mem_nil, or_false] at member
      rcases member with rfl | rfl | rfl | rfl
      · exact ⟨c, mine, covers'⟩
      · exact .inr ⟨c, mine, covers'⟩
      · exact ⟨c, mine, covers'⟩
      · exact .inr ⟨c, mine, covers⟩
    · intro d removed
      simp at removed
    · show after.Stands job ((s.uses i).filter (· ∉ ([] : List Claim))) _ i disk
      rw [keep]
      exact stands _ written

/-- A working name that no other disk has taken is taken. -/
theorem lawful_toWorking (tidy : job.Tidy) (flattens : job.config.flatten = true) {flat : Bool} {source : File}
    (ready : Ready job (s.uses i) s.fs i disk Claim.isTempOrFlat source)
    (clear : ¬ (Claim.working flat s.now).Covers job source) (fresh : ∀ j, j ≠ i → .working flat s.now ∉ s.uses j)
    (late : (s.stages i).passed = true) : Lawful job s i disk (s.toWorking job flat source) := by
  have hidden : (Claim.working flat s.now).Covers job (atomicTmp (job.workingFile flat s.now)) := .inr rfl
  have ready' : Ready job (.working flat s.now :: s.uses i)
      (s.fs.applyAll [.remove (atomicTmp (job.workingFile flat s.now))]) i disk Claim.isTempOrFlat source := by
    apply ready.transfer fun c member _ => List.mem_cons_of_mem _ member
    apply files_applyAll
    intro change member hits
    obtain rfl := List.mem_singleton.mp member
    obtain rfl : atomicTmp (job.workingFile flat s.now) = source := hits
    exact clear hidden
  have keep : (.working flat s.now :: s.uses i).filter (· ∉ ([] : List Claim)) = .working flat s.now :: s.uses i := by simp
  have target : ∃ now, Claim.working flat now ∈ .working flat s.now :: s.uses i ∧
      job.workingFile flat s.now = job.workingFile flat now := ⟨s.now, List.mem_cons_self, rfl⟩
  refine ⟨?_, ?_, ?_, ?_, ?_, .inl ⟨rfl, fun _ => ?_⟩, nofun⟩
  · intro change member
    obtain rfl := List.mem_singleton.mp member
    exact ⟨_, List.mem_append_left _ List.mem_cons_self, hidden⟩
  · intro c member
    obtain rfl := List.mem_singleton.mp member
    exact ⟨flattens, fun disk member => tidy.disk_working flattens disk member flat s.now, fresh⟩
  · intro d member
    cases List.mem_singleton.mp member
  · intro d member
    cases List.mem_singleton.mp member
  · show Stage.Stands job ((.working flat s.now :: s.uses i).filter (· ∉ ([] : List Claim))) _ i disk
      (if flat then .copying source _ else .flattening source _)
    rw [keep]
    cases flat with
    | true => exact ⟨ready', target⟩
    | false => exact ⟨ready', target⟩
  · show (if flat then Stage.copying source _ else .flattening source _).passed = _
    rw [late]
    cases flat <;> rfl

variable (tidy : job.Tidy) (inv : Inv job s) (here : job.disks[i]? = some disk)

theorem mem_flatCopy {o : Option Data} {d name : Str} {change : Change}
    (member : change ∈ match o with
      | some data => [Change.write ⟨.temp d, name⟩ data]
      | none => []) : ∃ data, change = .write ⟨.temp d, name⟩ data := by
  cases o with
  | none => cases member
  | some data => exact ⟨data, List.mem_singleton.mp member⟩

include inv here in
/-- The descriptor is copied to a directory that is new. -/
theorem lawful_fixBusLogicController {d : Str} (new : s.fs.dirs d = false) (waiting : s.stages i = .waiting) :
    Lawful job s i disk (s.fixBusLogicController i o disk d) := by
  have holds := inv.disks i disk here
  have keep : ([Claim.temp d] ++ s.uses i).filter (· ∉ ([] : List Claim)) = .temp d :: s.uses i := by simp
  have claims : ∀ c ∈ [Claim.temp d], c.Of job i ∧ (∀ disk ∈ job.disks, ¬ c.Covers job disk.file) ∧
      ∀ j, j ≠ i → c ∉ s.uses j := by
    intro c member
    obtain rfl := List.mem_singleton.mp member
    refine ⟨trivial, ?_, fun j _ theirs => ?_⟩
    · intro disk _ covers
      cases covers
    have there := inv.dirs j d theirs
    rw [new] at there
    cases there
  have inside : ∀ name, ∃ c ∈ [Claim.temp d] ++ s.uses i, c.Covers job ⟨.temp d, name⟩ := fun name =>
    ⟨.temp d, List.mem_cons_self, rfl⟩
  unfold fixBusLogicController
  dsimp only
  split
  · refine ⟨?_, claims, ?_, ?_, ?_, .inl ⟨rfl, fun _ => by rw [waiting]; rfl⟩, fun options made => by cases made⟩
    · intro change member
      obtain rfl := List.mem_singleton.mp member
      trivial
    · intro e member
      cases List.mem_singleton.mp member
      refine ⟨List.mem_cons_self, fun change member e => ?_⟩
      rw [List.mem_singleton.mp member]
      simp
    · intro e member
      cases List.mem_singleton.mp member
    · exact ⟨holds, .inl rfl⟩
  · have copies (change) := @mem_flatCopy (s.fs.files ⟨.folder disk.folder, stem disk.name ++ "-flat.vmdk".toList⟩) d
      (stem disk.name ++ "-flat.vmdk".toList) change
    have other : stem disk.name ++ "-flat.vmdk".toList ≠ disk.name := stem_append_ne (by decide) _
    refine ⟨?_, claims, ?_, ?_, ?_, .inl ⟨rfl, fun _ => by rw [waiting]; rfl⟩, fun options made => by cases made⟩
    · intro change member
      rcases List.mem_cons.mp member with rfl | member
      · trivial
      · rcases List.mem_cons.mp member with rfl | member
        · exact .inr (inside _)
        · obtain ⟨data, rfl⟩ := copies change member
          exact .inr (inside _)
    · intro e member
      cases List.mem_singleton.mp member
      refine ⟨List.mem_cons_self, fun change member e => ?_⟩
      rcases List.mem_cons.mp member with rfl | member
      · simp
      · rcases List.mem_cons.mp member with rfl | member
        · simp
        · obtain ⟨data, rfl⟩ := copies change member
          simp
    · intro e member
      rcases List.mem_cons.mp member with same | member
      · cases same
      · rcases List.mem_cons.mp member with same | member
        · cases same
        · obtain ⟨data, same⟩ := copies _ member
          cases same
    · show Stage.Stands job (([Claim.temp d] ++ s.uses i).filter (· ∉ ([] : List Claim))) _ i disk (.inspected ⟨.temp d, disk.name⟩)
      rw [keep]
      refine ⟨?_, .inr ⟨.temp d, List.mem_cons_self, rfl, rfl⟩⟩
      show (FileSystem.applyAll ((s.fs.apply (.mkdir d)).apply (.write ⟨.temp d, disk.name⟩ (.image i))) _).files _ = _
      rw [files_applyAll]
      · exact Function.update_self _ _ _
      · intro change member hits
        obtain ⟨data, rfl⟩ := copies change member
        exact other (congrArg File.name hits)

include inv here in
theorem lawful_inspect (waiting : s.stages i = .waiting) : Lawful job s i disk (s.inspect job i o disk) := by
  have ready : Ready job (s.uses i) s.fs i disk Claim.isTemp disk.file := ⟨inv.disks i disk here, .inl rfl⟩
  have stays : Lawful job s i disk (s.goto (.inspected disk.file)) := lawful_goto ready fun _ => by rw [waiting]; rfl
  unfold inspect
  split
  · next none =>
    have stands : Stage.Stands job (s.uses i) s.fs i disk (.prepared disk.file) := ready
    apply lawful_goto stands
    intro switches
    rw [Job.switches, none] at switches
    cases switches
  · split
    · next d _ _ =>
      by_cases there : s.fs.dirs d = true
      · rw [if_pos there]
        exact stays
      · rw [if_neg there]
        exact lawful_fixBusLogicController inv here (by simpa using there) waiting
    · exact stays

theorem lawful_switchOptions {working : File} (ready : Ready job (s.uses i) s.fs i disk Claim.isTemp working) :
    Lawful job s i disk (s.switchOptions job disk working) := by
  unfold switchOptions
  split
  · next switches =>
    have plain : Ready job (([] ++ s.uses i).filter (· ∉ ([] : List Claim))) s.fs i disk Claim.isTemp working := by
      simpa using ready
    exact ⟨nofun, nofun, nofun, nofun, plain, .inr ⟨switches, rfl, rfl⟩, nofun⟩
  · next unswitched => exact lawful_goto ready fun switches => absurd switches unswitched

include tidy here in
/-- A working file is no input disk, and not under a claim of another kind. -/
theorem working_not_covers (flattens : job.config.flatten = true) {allowed : Claim → Bool} {source : File}
    (ready : Ready job (s.uses i) s.fs i disk allowed source) {flat : Bool} {now : DateTime}
    (sources : ∀ c, allowed c = true → c.isSource = true) (other : ∀ now', allowed (.working flat now') = false) :
    ¬ (Claim.working flat now).Covers job source := by
  intro covers
  rcases ready.2 with rfl | ⟨c, member, fine, covers'⟩
  · exact tidy.disk_working flattens disk (List.mem_of_getElem? here) flat now covers
  · cases c with
    | temp d =>
      obtain ⟨path, place⟩ := Claim.place_of_covers covers nofun
      cases place.symm.trans covers'
    | working flat' now' =>
      obtain ⟨rfl, -⟩ := now_of_working covers covers'
      rw [other now'] at fine
      cases fine
    | report k => cases sources _ fine
    | output k taken => cases sources _ fine

include tidy here in
theorem lawful_flattenIfRequested {working : File} (ready : Ready job (s.uses i) s.fs i disk Claim.isTemp working)
    (inRange : ∀ j c, c ∈ s.uses j → j < job.disks.length)
    (fresh : job.config.flatten = true → ∀ j < job.disks.length, j ≠ i → .working o.fastPath s.now ∉ s.uses j)
    (late : (s.stages i).passed = true) : Lawful job s i disk (s.flattenIfRequested job o working) := by
  have flat : ∀ c : Claim, c.isTemp = true → c.isTempOrFlat = true := by
    intro c
    cases c <;> simp [Claim.isTemp, Claim.isTempOrFlat]
  have source : ∀ c : Claim, c.isTemp = true → c.isSource = true := by
    intro c
    cases c <;> simp [Claim.isTemp, Claim.isSource]
  unfold flattenIfRequested
  split
  · refine lawful_goto (ready.weaken source) ?_
    exact fun _ => late.symm
  · next requested =>
    have flattens : job.config.flatten = true := by simpa using requested
    split
    · exact lawful_goto trivial fun _ => late.symm
    · apply lawful_toWorking tidy flattens (ready.weaken flat) _ _ late
      · exact working_not_covers tidy here flattens ready source fun _ => rfl
      · exact fun j other theirs => fresh flattens j (inRange j _ theirs) other theirs

include tidy inv here in
/-- The fixes change the image in place and write the reports of the disk. -/
theorem lawful_runOfflineFixes {working : File} (ready : Ready job (s.uses i) s.fs i disk Claim.isSource working)
    (late : (s.stages i).passed = true) : Lawful job s i disk (s.runOfflineFixes job i o working) := by
  have bound : i < job.disks.length := (List.getElem?_eq_some_iff.mp here).1
  have write : ∀ change ∈ (if job.config.dryRun then [] else [Change.write working (.image i)]),
      change = .write working (.image i) := by
    intro change member
    split at member
    · cases member
    · exact List.mem_singleton.mp member
  have permitted : ∀ claims, s.Permitted job i disk claims (.write working (.image i)) := by
    intro claims
    rcases ready.2 with rfl | ⟨c, member, -, covers⟩
    · exact .inl ⟨rfl, rfl⟩
    · exact .inr ⟨c, List.mem_append_right _ member, covers⟩
  have apart : ¬ (Claim.report i).Covers job working := by
    intro covers
    rcases ready.2 with rfl | ⟨c, member, fine, covers'⟩
    · exact tidy.disk_report disk (List.mem_of_getElem? here) i bound covers
    · cases c with
      | temp d =>
        obtain ⟨path, place⟩ := Claim.place_of_covers covers nofun
        cases place.symm.trans covers'
      | working flat now =>
        have flattens : job.config.flatten = true := (inv.claims i _ member).1
        exact tidy.working_report flattens flat now i working bound covers' covers
      | report k => cases fine
      | output k taken => cases fine
  have reports : ∀ change ∈ ((job.resolveReportPath i).elim [] reportFiles).map (Change.write · .other),
      ∃ f, change = .write f .other ∧ (Claim.report i).Covers job f := by
    intro change member
    obtain ⟨f, written, rfl⟩ := List.mem_map.mp member
    refine ⟨f, rfl, ?_⟩
    cases resolved : job.resolveReportPath i with
    | none =>
      rw [resolved] at written
      cases written
    | some base =>
      rw [resolved] at written
      exact ⟨base, resolved, written⟩
  unfold runOfflineFixes
  rw [ready.1]
  cases o.raises with
  | true =>
    refine ⟨?_, nofun, nofun, ?_, trivial, .inl ⟨rfl, fun _ => late.symm⟩, nofun⟩
    · intro change member
      rw [write change member]
      exact permitted _
    · intro d member
      cases write _ member
  | false =>
    refine ⟨?_, ?_, ?_, ?_, ?_, .inl ⟨rfl, fun _ => late.symm⟩, nofun⟩
    · intro change member
      rcases List.mem_append.mp member with image | report
      · rw [write change image]
        exact permitted _
      · obtain ⟨f, rfl, covers⟩ := reports change report
        exact .inr ⟨.report i, List.mem_append_left _ List.mem_cons_self, covers⟩
    · intro c member
      obtain rfl := List.mem_singleton.mp member
      exact ⟨rfl, fun disk member => tidy.disk_report disk member i bound,
        fun j other theirs => other (inv.claims j _ theirs).1.symm⟩
    · intro d member
      cases List.mem_singleton.mp member
    · intro d member
      rcases List.mem_append.mp member with image | report
      · cases write _ image
      · obtain ⟨f, same, -⟩ := reports _ report
        cases same
    · have kept : ∀ c ∈ s.uses i, c ∈ ([Claim.report i] ++ s.uses i).filter (· ∉ ([] : List Claim)) := by
        intro c member
        simp [member]
      refine ⟨?_, ?_⟩
      · apply files_applyAll_of_same ready.1
        intro change member
        rcases List.mem_append.mp member with image | report
        · exact .inl (write change image)
        · obtain ⟨f, rfl, covers⟩ := reports change report
          refine .inr fun hits => ?_
          obtain rfl : f = working := hits
          exact apart covers
      · rcases ready.2 with rfl | ⟨c, member, fine, covers⟩
        · exact .inl rfl
        · exact .inr ⟨c, kept c member, fine, covers⟩

include tidy inv here in
/-- An output name is taken; one that is not free gets the time. -/
theorem lawful_convertOutput {working : File} (ready : Ready job (s.uses i) s.fs i disk Claim.isSource working)
    (late : (s.stages i).passed = true) : Lawful job s i disk (s.convertOutput job i working) := by
  have bound : i < job.disks.length := (List.getElem?_eq_some_iff.mp here).1
  unfold convertOutput
  split
  · next out given real =>
    dsimp only
    -- The plain name is only taken while no file has it, so it is not that of an input disk.
    have clear : ∀ disk ∈ job.disks, ¬ (Claim.output i (if (s.fs.files (job.resolveOutputPath out i none)).isSome then
        some s.now else none)).Covers job disk.file := by
      intro disk' member covers
      obtain ⟨out', given', covered⟩ := covers
      rw [given, Option.some.injEq] at given'
      subst given'
      obtain ⟨hidden, taken⟩ := tidy.disk_output disk' member i out bound given
      rcases covered with same | same
      · split at same
        · exact taken s.now same
        · next free =>
          obtain ⟨k, there⟩ := List.mem_iff_getElem?.mp member
          have holds := inv.disks k disk' there
          rw [same] at holds
          rw [holds] at free
          exact free rfl
      · exact hidden _ same
    refine ⟨nofun, ?_, ?_, nofun, ?_, .inl ⟨rfl, fun _ => late.symm⟩, nofun⟩
    · intro c member
      obtain rfl := List.mem_singleton.mp member
      exact ⟨rfl, clear, fun j other theirs => other (inv.claims j _ theirs).1.symm⟩
    · intro d member
      cases List.mem_singleton.mp member
    · refine ⟨ready.transfer (fun c member _ => ?_) rfl, out, _, given, ?_, rfl⟩
      · simp [member, goto]
      · simp [goto]
  · exact lawful_goto (ready.weaken fun _ _ => rfl) fun _ => late.symm

theorem lawful_removing {result : File} {d : Str} (ready : Ready job (s.uses i) s.fs i disk (fun _ => true) result)
    (mine : .temp d ∈ s.uses i) (outside : result.place ≠ .temp d) (late : (s.stages i).passed = true) :
    Lawful job s i disk { s.goto (.clearing result) with changes := [.rmtree d], released := [.temp d] } := by
  refine ⟨?_, nofun, nofun, ?_, ?_, .inl ⟨rfl, fun _ => late.symm⟩, nofun⟩
  · intro change member
    obtain rfl := List.mem_singleton.mp member
    exact mine
  · intro e member
    cases List.mem_singleton.mp member
    exact List.mem_cons_self
  · refine ready.transfer (fun c member covers => ?_) ?_
    · have other : c ≠ .temp d := by
        intro same
        rw [same] at covers
        exact outside covers
      simp [member, other]
    · exact if_neg outside

include inv here in
theorem options_solo (late : (s.stages i).passed = true) (own : job.switches disk = true ∨ s.Unswitched job) :
    s.options = job.soloOptions disk := by
  have bound : i < job.disks.length := (List.getElem?_eq_some_iff.mp here).1
  unfold Job.soloOptions
  rcases own with switches | unswitched
  · rw [if_pos switches]
    rcases inv.options with ⟨unswitched, -⟩ | ⟨-, enabled⟩
    · have early := unswitched i bound disk here switches
      rw [late] at early
      cases early
    · exact enabled
  · have unswitching : ¬ job.switches disk = true := by
      intro switches
      have early := unswitched i bound disk here switches
      rw [late] at early
      cases early
    rw [if_neg unswitching]
    rcases inv.options with ⟨-, same⟩ | ⟨switched, -⟩
    · exact same
    · exact absurd unswitched switched

include tidy inv here in
/-- Every part of the processing of a disk is lawful, if it is apart from the others. -/
theorem effect_lawful (apart : s.Apart job (.advance i o)) : Lawful job s i disk (s.effect job i o disk) := by
  have stands := inv.stands i disk here
  have apart := apart disk here
  unfold effect
  cases stage : s.stages i with
  | waiting => exact lawful_inspect inv here stage
  | inspected working =>
    rw [stage] at stands
    exact lawful_switchOptions stands
  | prepared working =>
    rw [stage] at stands apart
    exact lawful_flattenIfRequested tidy here stands inv.inRange apart (by rw [stage]; rfl)
  | copying source raw =>
    rw [stage] at stands
    obtain ⟨ready, now, mine, rfl⟩ := stands
    have flattens : job.config.flatten = true := (inv.claims i _ mine).1
    apply lawful_convertTo mine (.inl rfl) (.inr rfl) ready _ (by rw [stage]; rfl) (by split <;> rfl)
    intro fs holds
    split
    · exact ⟨holds, .inr ⟨_, mine, rfl, .inl rfl⟩⟩
    · exact ⟨⟨holds, .inr ⟨_, mine, rfl, .inl rfl⟩⟩, flattens⟩
  | copied raw =>
    rw [stage] at stands apart
    obtain ⟨ready, flattens⟩ := stands
    have fresh : ∀ j, j ≠ i → .working false s.now ∉ s.uses j := fun j other theirs =>
      apart j (inv.inRange j _ theirs) other theirs
    apply lawful_toWorking tidy flattens ready _ fresh (by rw [stage]; rfl)
    have sources : ∀ c : Claim, c.isTempOrFlat = true → c.isSource = true := by
      intro c fine
      cases c with
      | temp d => rfl
      | working flat now => rfl
      | report k => cases fine
      | output k taken => cases fine
    exact working_not_covers tidy here flattens ready sources fun _ => rfl
  | flattening source final =>
    rw [stage] at stands
    obtain ⟨ready, now, mine, rfl⟩ := stands
    apply lawful_convertTo mine (.inl rfl) (.inr rfl) ready _ (by rw [stage]; rfl) rfl
    intro fs holds
    exact ⟨holds, .inr ⟨_, mine, rfl, .inl rfl⟩⟩
  | flattened working =>
    rw [stage] at stands apart
    have late : (s.stages i).passed = true := by rw [stage]; rfl
    refine lawful_goto ⟨stands, ?_⟩ fun _ => late.symm
    rcases apart with switches | regen | unswitched
    · rw [options_solo inv here late (.inl switches)]
    · unfold Job.soloOptions
      rcases inv.options with ⟨-, same⟩ | ⟨-, same⟩ <;> rw [same] <;> split <;> simp [Options.enable, regen]
    · rw [options_solo inv here late (.inr unswitched)]
  | drivers working regenInitramfs =>
    rw [stage] at stands apart
    have late : (s.stages i).passed = true := by rw [stage]; rfl
    obtain ⟨ready, regen⟩ := stands
    have plain : Lawful job s i disk (s.goto (.fixing working)) := lawful_goto ready fun _ => late.symm
    refine ⟨plain.changes, plain.claims, plain.made, plain.removed, plain.stands, plain.options, ?_⟩
    intro options applied
    obtain rfl : ⟨regenInitramfs, s.options.initramfsAddDrivers⟩ = options := Option.some.inj applied
    have added : s.options.initramfsAddDrivers = (job.soloOptions disk).initramfsAddDrivers := by
      rcases apart with switches | given | unswitched
      · rw [options_solo inv here late (.inl switches)]
      · unfold Job.soloOptions
        rcases inv.options with ⟨-, same⟩ | ⟨-, same⟩ <;> rw [same] <;> split <;> simp [Options.enable, given]
      · rw [options_solo inv here late (.inr unswitched)]
    rw [regen, added]
  | fixing working =>
    rw [stage] at stands
    exact lawful_runOfflineFixes tidy inv here stands (by rw [stage]; rfl)
  | fixed working =>
    rw [stage] at stands
    exact lawful_convertOutput tidy inv here stands (by rw [stage]; rfl)
  | converting working out =>
    rw [stage] at stands
    obtain ⟨ready, target, taken, given, mine, rfl⟩ := stands
    apply lawful_convertTo mine ⟨target, given, .inl rfl⟩ ⟨target, given, .inr rfl⟩ ready _ (by rw [stage]; rfl) rfl
    intro fs holds
    exact ⟨holds, .inr ⟨_, mine, rfl, target, given, .inl rfl⟩⟩
  | cleanup result =>
    rw [stage] at stands apart
    have late : (s.stages i).passed = true := by rw [stage]; rfl
    have finished : Lawful job s i disk (s.goto (.done result)) := lawful_goto stands fun _ => late.symm
    show Lawful job s i disk (s.cleanupIntermediates result)
    unfold cleanupIntermediates
    split
    · next d remembered =>
      split
      · next present => exact lawful_goto ⟨stands, apart d remembered present⟩ fun _ => late.symm
      · exact finished
    · exact finished
  | removing result d =>
    rw [stage] at stands
    have late : (s.stages i).passed = true := by rw [stage]; rfl
    obtain ⟨ready, mine, outside⟩ := stands
    show Lawful job s i disk (if o.raises then _ else _)
    split
    · exact lawful_goto ready fun _ => late.symm
    · exact lawful_removing ready mine outside late
  | clearing result =>
    rw [stage] at stands
    have late : (s.stages i).passed = true := by rw [stage]; rfl
    have finished : Lawful job s i disk (s.goto (.done result)) := lawful_goto stands fun _ => late.symm
    exact ⟨finished.changes, finished.claims, finished.made, finished.removed, finished.stands, finished.options,
      finished.applied⟩
  | done result =>
    rw [stage] at stands
    exact lawful_goto stands fun _ => by rw [stage]
  | failed => exact lawful_goto trivial fun _ => by rw [stage]

end Steps

section Runs

variable {job : Job} {s : Processor}

theorem step_inv (tidy : job.Tidy) (distinct : job.disks.Nodup) (inv : Inv job s) (e : DiskEvent) (apart : s.Apart job e) :
    Inv job (s.step job e) := by
  cases e with
  | clock now =>
    exact ⟨inv.options, inv.inRange, inv.claims, inv.dirs, inv.once, inv.disks, inv.stands, inv.applied⟩
  | advance i o =>
    cases here : job.disks[i]? with
    | some disk =>
      have lawful := effect_lawful tidy inv here apart
      simpa only [step, here] using lawful.commit_inv tidy distinct inv here
    | none => simpa only [step, here] using inv

theorem step_undisturbed (tidy : job.Tidy) (inv : Inv job s) (e : DiskEvent) (apart : s.Apart job e) :
    s.Undisturbed job e := by
  cases e with
  | clock now => trivial
  | advance i o =>
    intro disk here change member j other c theirs f covers
    exact (effect_lawful tidy inv here apart).undisturbed tidy inv here member other theirs covers

theorem start_inv (distinct : job.disks.Nodup) (now : DateTime) (others : File → Bool) (dirs : Str → Bool) :
    Inv job (start job now others dirs) := by
  refine ⟨.inl ⟨fun i _ disk _ _ => rfl, rfl⟩, nofun, nofun, nofun, nofun, ?_, fun i disk _ => trivial, nofun⟩
  intro i disk here
  obtain ⟨bound, at_i⟩ := List.getElem?_eq_some_iff.mp here
  have found : job.disks.findIdx? (·.file = disk.file) = some i := by
    rw [List.findIdx?_eq_some_iff_getElem]
    refine ⟨bound, by simp [at_i], fun j before same => ?_⟩
    have equal := index_of_file distinct (List.getElem?_eq_getElem (Nat.lt_trans before bound)) here (by simpa using same)
    omega
  simp only [start, found]

theorem getElem?_filterMap {α β : Type} {f : α → Option β} {l : List α} (every : ∀ x ∈ l, (f x).isSome) (n : Nat) :
    (l.filterMap f)[n]? = l[n]?.bind f := by
  induction l generalizing n with
  | nil => rfl
  | cons x l ih =>
    obtain ⟨y, given⟩ := Option.isSome_iff_exists.mp (every x List.mem_cons_self)
    rw [List.filterMap_cons_some given]
    cases n with
    | zero => exact given.symm
    | succ n => exact ih (fun x member => every x (List.mem_cons_of_mem _ member)) n

theorem getElem?_results {outs : List File} (returned : s.results job = some outs) :
    outs.length = job.disks.length ∧ ∀ i f, outs[i]? = some f → s.stages i = .done f := by
  unfold results at returned
  dsimp only at returned
  split at returned
  · next all =>
    rw [Option.some.injEq] at returned
    subst returned
    refine ⟨all, fun i f at_i => ?_⟩
    have every : ∀ k ∈ List.range job.disks.length, ((s.stages k).result?).isSome := by
      apply List.filterMap_length_eq_length.mp
      rw [all, List.length_range]
    rw [getElem?_filterMap every] at at_i
    obtain ⟨k, position, result⟩ := Option.bind_eq_some_iff.mp at_i
    obtain ⟨bound, rfl⟩ := List.getElem?_eq_some_iff.mp position
    rw [List.getElem_range] at result
    cases stage : s.stages i with
    | done g =>
      rw [stage] at result
      cases result
      rfl
    | _ =>
      rw [stage] at result
      cases result
  · cases returned

theorem Inv.delivers (inv : Inv job s) : s.Delivers job := by
  intro outs returned
  obtain ⟨all, done⟩ := getElem?_results returned
  refine ⟨all, fun i f at_i => ?_⟩
  have bound : i < job.disks.length := by
    rw [← all]
    exact (List.getElem?_eq_some_iff.mp at_i).1
  have stands := inv.stands i _ (List.getElem?_eq_getElem bound)
  rw [done i f at_i] at stands
  exact stands.1

end Runs

/-- In a run that keeps the disks apart no step changes a file another disk uses, the options of each disk are
those it would have alone, and what is returned is the image of each disk. -/
theorem undisturbed_of_apart (job : Job) (distinct : job.disks.Nodup) (tidy : job.Tidy) (now : DateTime)
    (others : File → Bool) (dirs : Str → Bool) (es : List DiskEvent)
    (apart : EachStep (step job) (Apart job) (start job now others dirs) es) :
    EachStep (step job) (Undisturbed job) (start job now others dirs) es ∧
      SoloOptions job (run (step job) (start job now others dirs) es) ∧
      Delivers job (run (step job) (start job now others dirs) es) := by
  have initial := start_inv distinct now others dirs
  have inv : Inv job (run (step job) (start job now others dirs) es) :=
    invariant_of_eachStep (I := Inv job) (fun s e inv apart => step_inv tidy distinct inv e apart) initial apart
  refine ⟨?_, inv.applied, inv.delivers⟩
  exact eachStep_of_invariant (I := Inv job)
    (fun s e inv apart => ⟨step_inv tidy distinct inv e apart, step_undisturbed tidy inv e apart⟩) initial apart

theorem midnight_valid : 2026 < 10000 ∧ 1 < 13 ∧ 1 < 32 ∧ 0 < 24 ∧ 0 < 60 ∧ 0 < 60 := by decide

def midnight : DateTime := ⟨2026, 1, 1, 0, 0, 0, midnight_valid⟩

def nextSecond : DateTime := ⟨2026, 1, 1, 0, 0, 1, by decide⟩

/-- Two disks, the findings of which are given. -/
def twoDisks (config : Config) (first second : List Risk) : Job where
  config := config
  outRoot := ["out".toList]
  disks := [⟨["in".toList], "a.vmdk".toList⟩, ⟨["in".toList], "b.vmdk".toList⟩]
  findings disk := some (if disk.name = "a.vmdk".toList then first else second)
  resolve path := path

def fresh (job : Job) : Processor := start job midnight (fun _ => false) (fun _ => false)

def go (i n : Nat) : List DiskEvent := List.replicate n (.advance i {})

def flattenBoth : Config :=
  { flatten := true, report := some ⟨false, [], "report.md".toList⟩
    toOutput := some ⟨true, ["images".toList], "vm.qcow2".toList⟩ }

/-- The second disk is flattened a second after the first one. -/
def apartRun : List DiskEvent := go 0 3 ++ go 1 2 ++ [.clock nextSecond] ++ go 1 1 ++ go 0 7 ++ go 1 7

theorem undisturbed_apartRun :
    (run (step (twoDisks flattenBoth [] [])) (fresh (twoDisks flattenBoth [] [])) apartRun).results (twoDisks flattenBoth [] []) =
        some [⟨.folder ["images".toList], "vm_disk0.qcow2".toList⟩, ⟨.folder ["images".toList], "vm_disk1.qcow2".toList⟩] ∧
      Delivers (twoDisks flattenBoth [] [])
        (run (step (twoDisks flattenBoth [] [])) (fresh (twoDisks flattenBoth [] [])) apartRun) := by
  refine ⟨by decide +kernel, (undisturbed_of_apart _ (by decide) ?_ midnight _ _ apartRun (by decide +kernel)).2.2⟩
  apply Claim.tidy_of_places (.folder ["out".toList]) (.folder ["images".toList])
  · intro _ rp given
    cases given
    refine ⟨rfl, fun dotted => ?_⟩
    obtain ⟨a, -, ends⟩ := dotted
    have last := congrArg List.getLast? ends
    simp at last
  · intro i base resolved
    cases resolved
    rfl
  · intro out i taken given
    cases given
    rfl
  · decide
  · decide
  · decide
  · decide

/-- Both disks begin to be flattened in the same second. -/
def sameSecond : List DiskEvent := go 0 3 ++ go 1 3 ++ go 0 1 ++ go 1 1 ++ go 0 6 ++ go 1 6

def fixControllers : Config := { vmdkAutoFixController := true }

def controllerMismatch : Risk := ⟨.high, "Controller mismatch".toList⟩

def busLogic : Risk := ⟨.fatal, "BusLogic controller".toList⟩

def absoluteReport : Config := { report := some ⟨true, ["var".toList], "report.md".toList⟩ }

/-- The descriptor of the first disk is copied, and the second disk comes to its cleanup. -/
def busLogicRun : List DiskEvent := .advance 0 { mkdtemp := some "x".toList } :: go 1 8

theorem parallelDisks_interfere :
    ¬ Delivers (twoDisks flattenBoth [] []) (run (step (twoDisks flattenBoth [] [])) (fresh (twoDisks flattenBoth [] [])) sameSecond) ∧
      ¬ SoloOptions (twoDisks fixControllers [] [controllerMismatch])
        (run (step (twoDisks fixControllers [] [controllerMismatch])) (fresh (twoDisks fixControllers [] [controllerMismatch]))
          (go 1 2 ++ go 0 5)) ∧
      ¬ Undisturbed (twoDisks absoluteReport [] [])
        (run (step (twoDisks absoluteReport [] [])) (fresh (twoDisks absoluteReport [] [])) (go 0 6 ++ go 1 5)) (.advance 1 {}) ∧
      ¬ Undisturbed (twoDisks {} [busLogic] [])
        (run (step (twoDisks {} [busLogic] [])) (fresh (twoDisks {} [busLogic] [])) busLogicRun) (.advance 1 {}) := by
  refine ⟨?_, ?_, ?_, ?_⟩
  · intro delivers
    have image := (delivers [⟨.folder ["images".toList], "vm_disk0.qcow2".toList⟩,
      ⟨.folder ["images".toList], "vm_disk1.qcow2".toList⟩] (by decide +kernel)).2 0 _ rfl
    exact absurd image (by decide +kernel)
  · intro solo
    have options := solo 0 ⟨["in".toList], "a.vmdk".toList⟩ ⟨true, virtioDrivers⟩ rfl (by decide +kernel)
    exact absurd options (by decide +kernel)
  · intro undisturbed
    apply undisturbed ⟨["in".toList], "b.vmdk".toList⟩ rfl (.write ⟨.folder ["var".toList], "report.md".toList⟩ .other)
      (by decide +kernel) 0 (by decide) (.report 0) (by decide +kernel) ⟨.folder ["var".toList], "report.md".toList⟩
    · exact ⟨_, rfl, by decide +kernel⟩
    · exact rfl
  · intro undisturbed
    apply undisturbed ⟨["in".toList], "b.vmdk".toList⟩ rfl (.rmtree "x".toList) (by decide +kernel) 0 (by decide)
      (.temp "x".toList) (by decide +kernel) ⟨.temp "x".toList, "a.vmdk".toList⟩
    · exact rfl
    · exact rfl

end Processor

end H2kvm.Orchestration
