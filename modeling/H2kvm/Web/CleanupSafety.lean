import H2kvm.Framework.Run
import H2kvm.Web.CleanupRuns

namespace H2kvm.Web.AutoCleanup

open Framework Framework.Paths Framework.TreeWalk

/-- What a cleanup may delete: a file below an allowed directory, which is no piece of a running job and was last written
long enough ago. -/
structure Deletable (w : World) (file : FileEntry) : Prop where
  below : ∃ root ∈ roots, root <+: file.path ∧ file.path ≠ root
  named : ∀ suffix ∈ [".part".toList, ".tmp".toList], ¬ suffix <:+ file.path.getLast?.getD []
  there : w.tree.lookup file.path = some (.leaf file.info)
  old : activeJobMinAge ≤ w.now - file.modTime

/-- No file that the second phase deleted is newer than an unprotected one it has left so far. -/
def Oldest (c : Cleaner) (w : World) : Prop :=
  ∀ e ∈ c.surplus, ∀ root ∈ c.targets, ∀ p info, Exposed root w p info → e.modTime ≤ info.modTime

namespace Server

/-- What holds of the server all along. -/
structure Sound (s : Server) : Prop where
  config : s.config.Sane
  disk : ∀ c ∈ s.disk, c.Sane
  savers : ∀ v ∈ s.savers, ∀ c ∈ v.data, c.Sane
  settings : ∀ c ∈ s.cleaners, c.config.Sane
  cleaners : ∀ c ∈ s.cleaners, c.Sound s.world

/-- A request is settled where it is rejected, calls fail only where that does no harm, and nobody disturbs a cleanup. -/
def Allowed (s : Server) : Label → Prop
  | .request body => s.config.Settled body
  | .clean cleaner fails => ∀ c ∈ s.cleaners[cleaner]?, c.Permitted s.world fails
  | .world next => ∀ c ∈ s.cleaners, c.Undisturbed s.world next
  | _ => True

/-- What a step must keep. -/
structure Kept (rt : Runtime) (s : Server) (a : Label) : Prop where
  rejected : ∀ body, a = .request body → (s.config.set rt.quote body).2 ≠ none →
    (s.step rt a).config = s.config ∧ (s.step rt a).disk = s.disk
  used : ∀ c ∈ (s.step rt a).cleaners, c.config.Sane
  deleted : ∀ cleaner fails c file next, a = .clean cleaner fails → s.cleaners[cleaner]? = some c →
    c.move rt s.config s.world fails = .removes file next → Deletable s.world file
  oldest : ∀ c ∈ (s.step rt a).cleaners, Oldest c (s.step rt a).world

end Server

section steps

variable {rt : Runtime} {w : World} {c next : Cleaner} {file : FileEntry} {config : CleanupConfig} {fails : Bool}

theorem lowerAscii_suffix {suffix name : List Char} (lower : suffix.map lowerAscii = suffix)
    (other : suffix.isSuffixOf (name.map lowerAscii) = false) : ¬ suffix <:+ name := by
  rintro ⟨start, rfl⟩
  rw [List.map_append, lower] at other
  have : suffix.isSuffixOf (start.map lowerAscii ++ suffix) = true := List.isSuffixOf_iff_suffix.mpr (List.suffix_append _ _)
  rw [this] at other
  cases other

theorem Cleaner.Sound.deletable (sound : c.Sound w) (judged : file ∈ c.phase.judged)
    (present : removable w.tree file.path = true) : Deletable w file := by
  have held : file ∈ c.phase.held := List.mem_append_right _ judged
  have unprotected := sound.judged file judged
  simp only [isProtectedFromCleanup, Bool.or_eq_false_iff, decide_eq_false_iff_not, not_lt] at unprotected
  obtain ⟨⟨part, tmp⟩, old⟩ := unprotected
  refine ⟨sound.below file held, ?_, (sound.there file held).resolve_right fun gone => ?_, old⟩
  · intro suffix member
    rcases List.mem_cons.mp member with rfl | member
    · exact lowerAscii_suffix (by decide) part
    · rw [List.mem_singleton.mp member]
      exact lowerAscii_suffix (by decide) tmp
  · rw [removable, gone] at present
    cases present

theorem Cleaner.Sound.oldest (sound : c.Sound w) : Oldest c w := by
  intro e member root target p info exposed
  have pending := sound.pending
  unfold Cleaner.Pending at pending
  split at pending
  · rw [pending.1] at member
    cases member
  · exact pending.2.2 e member _ (pending.1 root target p info exposed)
  · exact pending.2.2 e member _ (pending.1 root target p info exposed)
  · exact pending e member root target p info exposed
  · rw [pending] at member
    cases member

theorem config_of_goes (move : c.move rt config w fails = .goes next) : next.config = c.config ∨ next.config = config := by
  cases phase : c.phase with
  | start =>
    rw [Cleaner.move, phase] at move
    dsimp only at move
    split at move
    · cases move
      exact .inr rfl
    · cases move
  | age cutoff todo | collect todo files =>
    rw [Cleaner.move, phase] at move
    rcases todo with _ | ⟨_ | _ | _, todo⟩
    all_goals dsimp only at move
    all_goals repeat' split at move
    all_goals
      cases move
      exact .inl rfl
  | oldest files =>
    rw [Cleaner.move, phase] at move
    rcases files with _ | ⟨file, files⟩
    all_goals dsimp only at move
    all_goals repeat' split at move
    all_goals cases move <;> exact .inl rfl
  | check | recheck | measure files | remove cutoff file todo | report =>
    rw [Cleaner.move, phase] at move
    dsimp only at move
    repeat' split at move
    all_goals cases move <;> exact .inl rfl

theorem sound_new (w : World) : Cleaner.Sound {} w := ⟨nofun, nofun, nofun, nofun, nofun, rfl⟩

end steps

namespace Server

section invariant

variable {rt : Runtime} {s : Server} {w : World} {saver cleaner : Nat} {fails : Bool}

theorem sound_boot (disk : Option CleanupConfig) (w : World) (sane : ∀ c ∈ disk, c.Sane) : (boot disk w).Sound where
  config := by
    cases disk with
    | none => exact CleanupConfig.sane_default
    | some c => exact sane c rfl
  disk := sane
  savers := nofun
  settings := nofun
  cleaners := nofun

/-- A new cleanup. -/
theorem Sound.tick (sound : s.Sound) : Sound { s with cleaners := s.cleaners ++ [{}] } := by
  refine ⟨sound.config, sound.disk, sound.savers, fun c member => ?_, fun c member => ?_⟩
  · obtain old | new := List.mem_append.mp member
    · exact sound.settings c old
    · rw [List.mem_singleton.mp new]
      exact CleanupConfig.sane_default
  · obtain old | new := List.mem_append.mp member
    · exact sound.cleaners c old
    · rw [List.mem_singleton.mp new]
      exact sound_new s.world

theorem Sound.saved (sound : s.Sound) (saver : Nat) (runNow : Bool) : (s.saved saver runNow).Sound := by
  have erased : Sound { s with savers := s.savers.eraseIdx saver } :=
    ⟨sound.config, sound.disk, fun v member => sound.savers v (List.mem_of_mem_eraseIdx member), sound.settings,
      sound.cleaners⟩
  cases runNow with
  | false => exact erased
  | true => exact erased.tick

/-- The configuration is changed, and a save may begin. -/
theorem Sound.of_config (sound : s.Sound) {config : CleanupConfig} (sane : config.Sane) (new : List Saver)
    (blank : ∀ v ∈ new, v.data = none) : Sound { s with config := config, savers := s.savers ++ new } := by
  refine ⟨sane, sound.disk, fun v member => ?_, sound.settings, sound.cleaners⟩
  obtain old | fresh := List.mem_append.mp member
  · exact sound.savers v old
  · rw [blank v fresh]
    exact nofun

theorem Sound.request (sound : s.Sound) (body : Except String SetCleanupSettings) : (s.step rt (.request body)).Sound := by
  have sane := sound.config.set rt.quote body
  have rejected : Sound { s with config := (s.config.set rt.quote body).1 } := by
    have same := sound.of_config sane [] nofun
    rwa [List.append_nil] at same
  unfold step
  dsimp only
  split
  · exact sound.of_config sane _ (by simp)
  · exact rejected

theorem Sound.marshal (sound : s.Sound) : (s.step rt (.marshal saver)).Sound := by
  unfold step
  dsimp only
  split
  · refine ⟨sound.config, sound.disk, fun v member => ?_, sound.settings, sound.cleaners⟩
    obtain old | rfl := List.mem_or_eq_of_mem_set member
    · exact sound.savers v old
    · rintro c same
      cases same
      exact sound.config
  · exact sound

theorem Sound.write (sound : s.Sound) (written : Written) : (s.write saver written).Sound := by
  unfold Server.write
  split
  · next runNow data found =>
    have sane := sound.savers _ (List.mem_of_getElem? found) data rfl
    have put : ∀ disk : Option CleanupConfig, (∀ c ∈ disk, c.Sane) → Sound { s with disk := disk } := fun disk sane =>
      ⟨sound.config, sane, sound.savers, sound.settings, sound.cleaners⟩
    cases written with
    | whole => exact (put (some data) fun c member => by cases member; exact sane).saved saver runNow
    | kept => exact (put s.disk sound.disk).saved saver runNow
    | torn => exact (put none nofun).saved saver runNow
  · exact sound

theorem Sound.clean (sound : s.Sound) (permitted : ∀ c ∈ s.cleaners[cleaner]?, c.Permitted s.world fails) :
    (s.clean rt cleaner fails).Sound := by
  unfold Server.clean
  split
  · exact sound
  · next c found =>
    have member := List.mem_of_getElem? found
    have running := sound.cleaners c member
    have copied : ∀ next : Cleaner, next.config = c.config ∨ next.config = s.config → next.config.Sane := by
      intro next same
      obtain same | same := same
      · rw [same]
        exact sound.settings c member
      · rw [same]
        exact sound.config
    have ended : Sound { s with cleaners := s.cleaners.eraseIdx cleaner } :=
      ⟨sound.config, sound.disk, sound.savers, fun c member => sound.settings c (List.mem_of_mem_eraseIdx member),
        fun c member => sound.cleaners c (List.mem_of_mem_eraseIdx member)⟩
    split
    · exact ended
    · next next move =>
      refine ⟨sound.config, sound.disk, sound.savers, fun d among => ?_, fun d among => ?_⟩
      · obtain old | rfl := List.mem_or_eq_of_mem_set among
        · exact sound.settings d old
        · exact copied d (config_of_goes move)
      · obtain old | rfl := List.mem_or_eq_of_mem_set among
        · exact sound.cleaners d old
        · exact running.goes (permitted c found) move
    · next file next move =>
      have same : next.config = c.config := by
        obtain ⟨-, ⟨cutoff, todo, -, rfl⟩ | ⟨files, -, rfl⟩⟩ := move_removes move <;> rfl
      refine ⟨sound.config, sound.disk, sound.savers, fun d among => ?_, fun d among => ?_⟩
      · obtain old | rfl := List.mem_or_eq_of_mem_set among
        · exact sound.settings d old
        · exact copied d (.inl same)
      · obtain old | rfl := List.mem_or_eq_of_mem_set among
        · exact (sound.cleaners d old).world (undisturbed_erase d s.world file.path)
        · exact (running.removes move).2
    · next deleted move =>
      have sane : (s.reported rt deleted).Sane := ⟨sound.config.threshold, sound.config.maxAge, sound.config.dirs⟩
      exact ended.of_config sane _ (by simp)

/-- An allowed step keeps what holds of the server. -/
theorem Sound.step (sound : s.Sound) {a : Label} (allowed : s.Allowed a) : (s.step rt a).Sound := by
  cases a with
  | restart => exact sound_boot s.disk s.world sound.disk
  | request body => exact sound.request body
  | noDir saver =>
    unfold Server.step
    dsimp only
    split
    · exact sound.saved saver _
    · exact sound
  | marshal saver => exact sound.marshal
  | write saver written => exact sound.write written
  | tick => exact sound.tick
  | clean cleaner fails => exact sound.clean allowed
  | world next =>
    exact ⟨sound.config, sound.disk, sound.savers, sound.settings,
      fun c member => (sound.cleaners c member).world (allowed c member)⟩

theorem Sound.isKept (sound : s.Sound) {a : Label} (allowed : s.Allowed a) : s.Kept rt a := by
  have after : (s.step rt a).Sound := sound.step allowed
  refine ⟨?_, after.settings, ?_, fun c member => (after.cleaners c member).oldest⟩
  · rintro body rfl rejected
    have same := (CleanupConfig.set_rejected_iff rejected).mpr allowed
    unfold Server.step
    dsimp only
    split
    · next none => exact absurd none rejected
    · exact ⟨same, rfl⟩
  · rintro cleaner fails c file next rfl found move
    have running := sound.cleaners c (List.mem_of_getElem? found)
    exact running.deletable (running.removes move).1 (move_removes move).1

end invariant

/-- From a file that holds sane settings, or none that can be read, every run of allowed steps keeps the settings and the
files as it must. -/
theorem kept (rt : Runtime) (disk : Option CleanupConfig) (w : World) (labels : List Label) (sane : ∀ c ∈ disk, c.Sane)
    (allowed : EachStep (step rt) Allowed (boot disk w) labels) : EachStep (step rt) (Kept rt) (boot disk w) labels :=
  eachStep_of_invariant (fun _ _ sound allowed => ⟨sound.step allowed, sound.isKept allowed⟩)
    (sound_boot disk w sane) allowed

/-- A runtime for disks of some blocks, sizes in kilobytes and the first second of 1970. -/
def someRuntime : Runtime where
  atMost stat threshold := 100 * ((stat.blocks : Int) - stat.bavail) ≤ threshold * stat.blocks
  above stat threshold := threshold * stat.blocks < 100 * ((stat.blocks : Int) - stat.bavail)
  formatBytesHuman bytes := toString (bytes / 1024) ++ ".0 KB"
  rfc3339 _ := "1970-01-01T00:00:00Z"
  quote text := "\"" ++ text ++ "\""
  sort files := files.insertionSort fun f g => f.modTime ≤ g.modTime
  sort_perm files := List.perm_insertionSort _ files
  sort_sorted files :=
    have : Std.Total fun f g : FileEntry => f.modTime ≤ g.modTime := ⟨fun f g => le_total f.modTime g.modTime⟩
    have : IsTrans FileEntry fun f g => f.modTime ≤ g.modTime := ⟨fun _ _ _ => le_trans⟩
    List.pairwise_insertionSort _ files

/-- Two files in the output directory of a full disk, the second three days younger. -/
def fullDisk : World where
  tree := [⟨fullPath "output", .dir⟩, ⟨fullPath "output" ++ ["a".toList], .leaf ⟨1024, 0⟩⟩,
    ⟨fullPath "output" ++ ["b".toList], .leaf ⟨1024, 72 * hour⟩⟩].toAList
  stat := some ⟨0, 100⟩
  now := 80 * hour

/-- Settings under which nothing is old enough for the first phase. -/
def patient : CleanupConfig := { maxAgeHours := 1000, dirs := ["output"] }

def settings : SetCleanupSettings := { thresholdPercent := some 60, dirs := ["output"] }

/-- New settings are saved, and a cleanup deletes the older file. -/
def firstSteps : List Label :=
  [.request (.ok settings), .marshal 0, .write 0 .whole, .tick] ++ List.replicate 7 (.clean 0 false)

theorem kept_first : EachStep (step someRuntime) (Kept someRuntime) (boot none fullDisk) firstSteps := by
  refine kept someRuntime none fullDisk firstSteps (by simp) ⟨?_, trivial, trivial, trivial, ?_, ?_, ?_, ?_, ?_, ?_, ?_, trivial⟩
  · simp [Allowed, CleanupConfig.Settled, CleanupConfig.ThresholdValid, CleanupConfig.MaxAgeValid,
      CleanupConfig.DirsValid, settings]
  · rintro c ⟨⟩
    trivial
  · rintro c ⟨⟩
    trivial
  · rintro c ⟨⟩
    exact fun _ _ leaf => by cases leaf
  · rintro c ⟨⟩
    trivial
  · rintro c ⟨⟩
    exact fun out => absurd out (by decide)
  · rintro c ⟨⟩
    trivial
  · rintro c ⟨⟩
    trivial

/-- The older file cannot be removed, and the younger one is. -/
def stubbornFile : List Label := .tick :: List.replicate 17 (.clean 0 false) ++ [.clean 0 true]

/-- A request that is rejected, a file with a threshold of zero, and a file that cannot be removed. -/
theorem not_kept :
    ¬ EachStep (step someRuntime) (Kept someRuntime) (boot none fullDisk)
      [.request (.ok { enabled := some false, thresholdPercent := some 10 })] ∧
    ¬ EachStep (step someRuntime) (Kept someRuntime) (boot (some { thresholdPercent := 0 }) fullDisk)
      [.tick, .clean 0 false] ∧
    ¬ EachStep (step someRuntime) (Kept someRuntime) (boot (some patient) fullDisk) (stubbornFile ++ [.clean 0 false]) := by
  refine ⟨?_, ?_, fun each => ?_⟩
  · rintro ⟨kept, -⟩
    have same := (kept.rejected _ rfl (by decide)).1
    exact absurd (congrArg CleanupConfig.enabled same) (by decide)
  · rintro ⟨-, kept, -⟩
    have sane := kept.used _ List.mem_cons_self
    exact absurd sane.threshold.1 (by decide)
  · let a := fullPath "output" ++ ["a".toList]
    let s := step someRuntime (run (step someRuntime) (boot (some patient) fullDisk) stubbornFile) (.clean 0 false)
    have last : ∀ c ∈ s.cleaners, Oldest c s.world := (eachStep_append.mp each).2.1.oldest
    obtain ⟨c, member, target, e, deleted, young⟩ : ∃ c ∈ s.cleaners, fullPath "output" ∈ c.targets ∧
      ∃ e ∈ c.surplus, e.modTime = 72 * hour := by decide +kernel
    have standing : Standing (fullPath "output") s.world.tree a ⟨1024, 0⟩ := by
      refine ⟨List.prefix_append _ _, by decide +kernel, fun q above inside differ => ?_⟩
      have same : q = fullPath "output" := by
        obtain rfl | inside := List.prefix_concat_iff.mp inside
        · exact absurd rfl differ
        · exact inside.eq_of_length_le above.length_le
      rw [same]
      decide +kernel
    have unprotected : isProtectedFromCleanup s.world.now a ⟨1024, 0⟩ = false := by decide +kernel
    have older := last c member e deleted (fullPath "output") target a ⟨1024, 0⟩ ⟨standing, unprotected⟩
    rw [young] at older
    exact absurd older (by decide)

end Server

end H2kvm.Web.AutoCleanup
