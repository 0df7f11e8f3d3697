import H2kvm.Web.AutoCleanup

namespace H2kvm.Web.AutoCleanup

open Framework Framework.Paths Framework.TreeWalk

/-- The allowed directories. -/
def roots : List Path := [fullPath "output", fullPath "input"]

/-- A file below a directory that is not protected. -/
def Exposed (root : Path) (w : World) (p : Path) (info : FileInfo) : Prop :=
  Standing root w.tree p info ∧ isProtectedFromCleanup w.now p info = false

/-- The files a walk has found and not judged yet. -/
def foundIn (todo : List (Errand FileInfo)) : List FileEntry :=
  todo.filterMap fun
    | .found path info => some ⟨path, info⟩
    | _ => none

namespace Phase

def todo : Phase → List (Errand FileInfo)
  | .age _ todo | .remove _ _ todo | .collect todo _ => todo
  | _ => []

/-- The files that were found deletable. -/
def judged : Phase → List FileEntry
  | .remove _ file _ => [file]
  | .collect _ files | .oldest files | .measure files => files
  | _ => []

/-- The files that are known from a look at them. -/
def held (phase : Phase) : List FileEntry := foundIn phase.todo ++ phase.judged

/-- The second phase. -/
def isSecond : Phase → Bool
  | .collect _ _ | .oldest _ | .measure _ | .report => true
  | _ => false

end Phase

namespace Cleaner

/-- What others may do while a cleanup goes on: the clock is not put back, what it has looked at stays as it is or goes, and
in the second phase no file below its directories becomes unprotected, or comes there. -/
structure Undisturbed (c : Cleaner) (w w' : World) : Prop where
  clock : w.now ≤ w'.now
  held : ∀ e ∈ c.phase.held, w'.tree.lookup e.path = w.tree.lookup e.path ∨ w'.tree.lookup e.path = none
  quiet : c.phase.isSecond = true → ∀ root ∈ c.targets, ∀ p info, Exposed root w' p info → Exposed root w p info

/-- No unprotected file stands at the path or below it. -/
def Bare (c : Cleaner) (w : World) (p : Path) : Prop :=
  ∀ root ∈ c.targets, ∀ q info, p <+: q → ¬ Exposed root w q info

/-- An allowed directory is none but a directory, and in the second phase a call fails only where that leaves no
unprotected file aside. -/
def Permitted (c : Cleaner) (w : World) (fails : Bool) : Prop :=
  match c.phase with
  | .age _ (.look p :: _) => p ∈ roots → ∀ info, w.tree.lookup p ≠ some (.leaf info)
  | .collect (.look p :: _) _ =>
    (p ∈ roots → ∀ info, w.tree.lookup p ≠ some (.leaf info)) ∧ (fails = true → c.Bare w p)
  | .collect (.read p :: _) _ => fails = true → c.Bare w p
  | .oldest (file :: _) => fails = true → w.tree.lookup file.path = none
  | _ => True

/-- What is still to be deleted in the second phase, and what it deleted. -/
def Pending (c : Cleaner) (w : World) : Prop :=
  match c.phase with
  | .collect todo files => c.surplus = [] ∧ ∀ root ∈ c.targets, ∀ p info, Exposed root w p info →
      (∃ errand ∈ todo, root <+: errand.path ∧ errand.Covers p info) ∨ ⟨p, info⟩ ∈ files
  | .oldest files | .measure files =>
    (∀ root ∈ c.targets, ∀ p info, Exposed root w p info → ⟨p, info⟩ ∈ files) ∧
      files.Pairwise (fun f g => f.modTime ≤ g.modTime) ∧ ∀ e ∈ c.surplus, ∀ f ∈ files, e.modTime ≤ f.modTime
  | .report => ∀ e ∈ c.surplus, ∀ root ∈ c.targets, ∀ p info, Exposed root w p info → e.modTime ≤ info.modTime
  | _ => c.surplus = []

/-- What holds of a cleanup all along. -/
structure Sound (c : Cleaner) (w : World) : Prop where
  targets : ∀ root ∈ c.targets, root ∈ roots
  inside : ∀ errand ∈ c.phase.todo, ∃ root ∈ roots, root <+: errand.path
  below : ∀ e ∈ c.phase.held, ∃ root ∈ roots, root <+: e.path ∧ e.path ≠ root
  there : ∀ e ∈ c.phase.held, w.tree.lookup e.path = some (.leaf e.info) ∨ w.tree.lookup e.path = none
  judged : ∀ e ∈ c.phase.judged, isProtectedFromCleanup w.now e.path e.info = false
  pending : c.Pending w

end Cleaner

section lemmas

variable {c next : Cleaner} {w w' : World} {rt : Runtime} {config : CleanupConfig} {fails : Bool}
  {todo : List (Errand FileInfo)} {file : FileEntry}

theorem unprotected_later {now now' : Int} {path : Path} {info : FileInfo} (later : now ≤ now')
    (unprotected : isProtectedFromCleanup now path info = false) : isProtectedFromCleanup now' path info = false := by
  simp only [isProtectedFromCleanup, Bool.or_eq_false_iff, decide_eq_false_iff_not] at unprotected ⊢
  exact ⟨unprotected.1, by omega⟩

theorem foundIn_append (todo todo' : List (Errand FileInfo)) : foundIn (todo ++ todo') = foundIn todo ++ foundIn todo' :=
  List.filterMap_append

theorem mem_foundIn : file ∈ foundIn todo ↔ .found file.path file.info ∈ todo := by
  rw [foundIn, List.mem_filterMap]
  constructor
  · rintro ⟨errand, member, found⟩
    cases errand with
    | look p => cases found
    | read p => cases found
    | found p info =>
      cases found
      exact member
  · exact fun member => ⟨_, member, rfl⟩

/-- A cleanup that is not disturbed goes on as before. -/
theorem Cleaner.Sound.world (sound : c.Sound w) (undisturbed : c.Undisturbed w w') : c.Sound w' := by
  obtain ⟨targets, inside, below, there, judged, pending⟩ := sound
  obtain ⟨clock, held, quiet⟩ := undisturbed
  refine ⟨targets, inside, below, fun e member => ?_, fun e member => unprotected_later clock (judged e member), ?_⟩
  · obtain same | gone := held e member
    · rw [same]
      exact there e member
    · exact .inr gone
  · unfold Cleaner.Pending at pending ⊢
    split
    · next todo files phase =>
      rw [phase] at pending quiet
      exact ⟨pending.1, fun root target p info exposed =>
        pending.2 root target p info (quiet rfl root target p info exposed)⟩
    · next files phase =>
      rw [phase] at pending quiet
      exact ⟨fun root target p info exposed =>
        pending.1 root target p info (quiet rfl root target p info exposed), pending.2⟩
    · next files phase =>
      rw [phase] at pending quiet
      exact ⟨fun root target p info exposed =>
        pending.1 root target p info (quiet rfl root target p info exposed), pending.2⟩
    · next phase =>
      rw [phase] at pending quiet
      exact fun e member root target p info exposed =>
        pending e member root target p info (quiet rfl root target p info exposed)
    · next collect oldest measure report =>
      split at pending
      · next todo files phase => exact absurd phase (collect todo files)
      · next files phase => exact absurd phase (oldest files)
      · next files phase => exact absurd phase (measure files)
      · next phase => exact absurd phase report
      · exact pending

/-- To remove something disturbs no one. -/
theorem undisturbed_erase (c : Cleaner) (w : World) (path : Path) :
    c.Undisturbed w { w with tree := w.tree.erase path } where
  clock := le_rfl
  held := by
    intro e _
    by_cases same : e.path = path
    · rw [same]
      exact .inr (AList.lookup_erase _ _)
    · exact .inl (AList.lookup_erase_ne same)
  quiet := fun _ _ _ _ _ exposed => ⟨exposed.1.of_erase path, exposed.2⟩

end lemmas

section moves

variable {c next : Cleaner} {w : World} {rt : Runtime} {config : CleanupConfig} {fails : Bool}
  {todo new : List (Errand FileInfo)} {errand : Errand FileInfo} {file : FileEntry}

/-- What is told of a file that was looked at: it is below an allowed directory, and still as it was if it is there. -/
def Known (w : World) (e : FileEntry) : Prop :=
  (∃ root ∈ roots, root <+: e.path ∧ e.path ≠ root) ∧
    (w.tree.lookup e.path = some (.leaf e.info) ∨ w.tree.lookup e.path = none)

theorem known_expand (inside : ∃ root ∈ roots, root <+: errand.path) (subset : new ⊆ errand.expand w.tree)
    (known : ∀ path info, errand = .found path info → Known w ⟨path, info⟩)
    (dirs : ∀ p, errand = .look p → p ∈ roots → ∀ info, w.tree.lookup p ≠ some (.leaf info)) :
    (∀ next ∈ new, ∃ root ∈ roots, root <+: next.path) ∧ ∀ e ∈ foundIn new, Known w e := by
  obtain ⟨root, allowed, above⟩ := inside
  refine ⟨fun next member => ⟨root, allowed, above.trans (expand_path (subset member))⟩, fun e member => ?_⟩
  obtain ⟨leaf, rfl⟩ | rfl := lookup_of_found (subset (mem_foundIn.mp member))
  · refine ⟨⟨root, allowed, above, fun same => dirs e.path rfl ?_ e.info leaf⟩, .inl leaf⟩
    rw [same]
    exact allowed
  · exact known _ _ rfl

theorem Cleaner.Sound.known (sound : c.Sound w) : ∀ e ∈ c.phase.held, Known w e := fun e member =>
  ⟨sound.below e member, sound.there e member⟩

theorem Cleaner.Sound.of_known (targets : ∀ root ∈ c.targets, root ∈ roots)
    (inside : ∀ errand ∈ c.phase.todo, ∃ root ∈ roots, root <+: errand.path) (known : ∀ e ∈ c.phase.held, Known w e)
    (judged : ∀ e ∈ c.phase.judged, isProtectedFromCleanup w.now e.path e.info = false) (pending : c.Pending w) :
    c.Sound w :=
  ⟨targets, inside, fun e member => (known e member).1, fun e member => (known e member).2, judged, pending⟩

/-- The first errand of a walk is done. -/
theorem Cleaner.Sound.walked {phase : Phase} (sound : c.Sound w) (before : c.phase.todo = errand :: todo)
    (after : phase.todo = new ++ todo) (same : phase.judged = c.phase.judged) (subset : new ⊆ errand.expand w.tree)
    (dirs : ∀ p, errand = .look p → p ∈ roots → ∀ info, w.tree.lookup p ≠ some (.leaf info))
    (pending : { c with phase := phase }.Pending w) : { c with phase := phase }.Sound w := by
  have known := sound.known
  have inside := sound.inside
  rw [Phase.held, before] at known
  rw [before] at inside
  obtain ⟨newInside, newKnown⟩ := known_expand (inside errand List.mem_cons_self) subset
    (fun path info found => known _ (List.mem_append_left _ (mem_foundIn.mpr (found ▸ List.mem_cons_self)))) dirs
  refine .of_known sound.targets ?_ ?_ ?_ pending
  · dsimp only
    rw [after]
    intro next member
    obtain fresh | old := List.mem_append.mp member
    · exact newInside next fresh
    · exact inside next (List.mem_cons_of_mem _ old)
  · dsimp only
    rw [Phase.held, after, foundIn_append, same]
    intro e member
    obtain found | member := List.mem_append.mp member
    · obtain fresh | old := List.mem_append.mp found
      · exact newKnown e fresh
      · exact known e (List.mem_append_left _ (mem_foundIn.mpr (List.mem_cons_of_mem _ (mem_foundIn.mp old))))
    · exact known e (List.mem_append_right _ member)
  · dsimp only
    rw [same]
    exact sound.judged

/-- A step after which no more is known, and nothing more is to be visited. -/
theorem Cleaner.Sound.fewer (sound : c.Sound w) (targets : next.targets = c.targets)
    (todo : next.phase.todo ⊆ c.phase.todo) (held : next.phase.held ⊆ c.phase.held)
    (judged : ∀ e ∈ next.phase.judged, e ∈ c.phase.judged ∨ isProtectedFromCleanup w.now e.path e.info = false)
    (pending : next.Pending w) : next.Sound w := by
  refine .of_known ?_ (fun errand member => sound.inside errand (todo member)) (fun e member => sound.known e (held member))
    (fun e member => (judged e member).elim (sound.judged e) id) pending
  rw [targets]
  exact sound.targets

theorem foundIn_look (paths : List Path) : foundIn (paths.map .look) = [] := by
  induction paths with
  | nil => rfl
  | cons p paths ih => exact ih

theorem Cleaner.Sound.of_look {targets : List Path} (allowed : ∀ root ∈ targets, root ∈ roots)
    (same : next.targets = targets) (todo : next.phase.todo = targets.map .look) (none : next.phase.judged = [])
    (pending : next.Pending w) : next.Sound w := by
  refine .of_known ?_ ?_ ?_ ?_ pending
  · rw [same]
    exact allowed
  · rw [todo]
    intro errand member
    obtain ⟨root, target, rfl⟩ := List.mem_map.mp member
    exact ⟨root, allowed root target, List.prefix_rfl⟩
  · rw [Phase.held, todo, none, foundIn_look]
    exact nofun
  · rw [none]
    exact nofun

theorem targetDirs_allowed (dirs : List String) : ∀ root ∈ targetDirs dirs, root ∈ roots := by
  intro root member
  unfold targetDirs at member
  dsimp only at member
  split at member
  · exact member
  · obtain ⟨dir, allowed, rfl⟩ := List.mem_map.mp member
    obtain rfl | rfl := CleanupConfig.isAllowed_iff.mp (List.mem_filter.mp allowed).2
    · exact List.mem_cons_self
    · exact List.mem_cons_of_mem _ List.mem_cons_self

theorem held_found (path : Path) (info : FileInfo) (todo : List (Errand FileInfo)) (files : List FileEntry) :
    foundIn (.found path info :: todo) ++ files = ⟨path, info⟩ :: (foundIn todo ++ files) := rfl

variable (new) in
theorem covered_step {targets : List Path} {files files' : List FileEntry}
    (covered : ∀ root ∈ targets, ∀ p info, Exposed root w p info →
      (∃ e ∈ errand :: todo, root <+: e.path ∧ e.Covers p info) ∨ ⟨p, info⟩ ∈ files)
    (kept : files ⊆ files')
    (done : ∀ root ∈ targets, ∀ p info, Exposed root w p info → root <+: errand.path → errand.Covers p info →
      (∃ e ∈ new, root <+: e.path ∧ e.Covers p info) ∨ ⟨p, info⟩ ∈ files') :
    ∀ root ∈ targets, ∀ p info, Exposed root w p info →
      (∃ e ∈ new ++ todo, root <+: e.path ∧ e.Covers p info) ∨ ⟨p, info⟩ ∈ files' := by
  intro root target p info exposed
  obtain ⟨e, member, above, covers⟩ | listed := covered root target p info exposed
  · obtain rfl | later := List.mem_cons.mp member
    · obtain ⟨e, fresh, above, covers⟩ | listed := done root target p info exposed above covers
      · exact .inl ⟨e, List.mem_append_left _ fresh, above, covers⟩
      · exact .inr listed
    · exact .inl ⟨e, List.mem_append_right _ later, above, covers⟩
  · exact .inr (kept listed)

theorem covered_expand {targets : List Path} {files : List FileEntry} (other : ∀ path info, errand ≠ .found path info)
    (bare : fails = true → ∀ root ∈ targets, ∀ q info, errand.path <+: q → ¬ Exposed root w q info) :
    ∀ root ∈ targets, ∀ p info, Exposed root w p info → root <+: errand.path → errand.Covers p info →
      (∃ e ∈ (if fails then [] else errand.expand w.tree), root <+: e.path ∧ e.Covers p info) ∨
        (⟨p, info⟩ : FileEntry) ∈ files := by
  intro root target p info exposed above covers
  have inside : errand.path <+: p := by
    cases errand with
    | look q => exact covers
    | read q => exact covers.1
    | found q d => exact absurd rfl (other q d)
  cases fails with
  | true => exact absurd exposed (bare rfl root target p info inside)
  | false =>
    obtain ⟨e, fresh, covers⟩ := expand_covers exposed.1 above covers
    exact .inl ⟨e, fresh, above.trans (expand_path fresh), covers⟩

theorem expanded_subset (w : World) (fails : Bool) (errand : Errand FileInfo) :
    (if fails then [] else errand.expand w.tree) ⊆ errand.expand w.tree := by
  cases fails with
  | true => exact List.nil_subset _
  | false => exact List.Subset.refl _

theorem isBelowBase_of_root {root path : Path} (allowed : root ∈ roots) (above : root <+: path) :
    isBelowBase path = true := by
  have parent : base <+: root ∧ base.length < root.length := by
    rcases List.mem_cons.mp allowed with rfl | allowed
    · exact ⟨List.prefix_append _ _, by decide⟩
    · rw [List.mem_singleton.mp allowed]
      exact ⟨List.prefix_append _ _, by decide⟩
  have longer := parent.2.trans_le above.length_le
  simp only [isBelowBase, Bool.and_eq_true, List.isPrefixOf_iff_prefix, bne_iff_ne]
  exact ⟨parent.1.trans above, fun same => absurd longer (same ▸ lt_irrefl _)⟩

/-- The first phase's walk. -/
theorem Cleaner.Sound.goes_age {cutoff : Int} (phase : c.phase = .age cutoff todo) (sound : c.Sound w)
    (permitted : c.Permitted w fails) (move : c.move rt config w fails = .goes next) : next.Sound w := by
  obtain ⟨settings, targets, used, phase', aged, surplus⟩ := c
  cases phase
  have pending := sound.pending
  cases todo with
  | nil =>
    cases move
    exact sound.fewer rfl (List.Subset.refl _) (List.Subset.refl _) nofun pending
  | cons errand todo =>
    cases errand with
    | look p =>
      cases move
      refine sound.walked rfl rfl rfl (expanded_subset w fails _) (fun q same => ?_) pending
      cases same
      exact permitted
    | read p =>
      cases move
      exact sound.walked rfl rfl rfl (expanded_subset w fails _) nofun pending
    | found p info =>
      dsimp only [Cleaner.move] at move
      split at move
      · next deletable =>
        cases move
        rw [Bool.and_eq_true, Bool.and_eq_true, Bool.not_eq_true'] at deletable
        refine sound.fewer rfl (List.subset_cons_self _ _) ?_ (fun e member => ?_) pending
        · intro e member
          obtain found | same := List.mem_append.mp member
          · exact List.mem_cons_of_mem _ (List.mem_append_left _ found)
          · rw [List.mem_singleton.mp same]
            exact List.mem_cons_self
        · rw [List.mem_singleton.mp member]
          exact .inr deletable.1.2
      · cases move
        exact sound.walked rfl (List.nil_append _).symm rfl (List.nil_subset _) nofun pending

/-- The second phase's walk. -/
theorem Cleaner.Sound.goes_collect {files : List FileEntry} (phase : c.phase = .collect todo files) (sound : c.Sound w)
    (permitted : c.Permitted w fails) (move : c.move rt config w fails = .goes next) : next.Sound w := by
  obtain ⟨settings, targets, used, phase', aged, surplus⟩ := c
  cases phase
  obtain ⟨none, covered⟩ := sound.pending
  cases todo with
  | nil =>
    cases move
    have same := rt.sort_perm files
    refine sound.fewer rfl (List.Subset.refl _) same.subset (fun e member => .inl (same.subset member)) ⟨?_, ?_, ?_⟩
    · intro root target p info exposed
      obtain ⟨e, member, -⟩ | listed := covered root target p info exposed
      · cases member
      · exact same.symm.subset listed
    · exact rt.sort_sorted files
    · rw [none]
      exact nofun
  | cons errand todo =>
    cases errand with
    | look p =>
      cases move
      refine sound.walked rfl rfl rfl (expanded_subset w fails _) (fun q same => ?_)
        ⟨none, covered_step _ covered (List.Subset.refl _) (covered_expand nofun permitted.2)⟩
      cases same
      exact permitted.1
    | read p =>
      cases move
      exact sound.walked rfl rfl rfl (expanded_subset w fails _) nofun
        ⟨none, covered_step _ covered (List.Subset.refl _) (covered_expand nofun permitted)⟩
    | found p info =>
      dsimp only [Cleaner.move] at move
      split at move
      · next deletable =>
        cases move
        rw [Bool.and_eq_true, Bool.not_eq_true'] at deletable
        refine sound.fewer rfl (List.subset_cons_self _ _) ?_ (fun e member => ?_) ⟨none, ?_⟩
        · intro e member
          obtain found | member := List.mem_append.mp member
          · exact List.mem_cons_of_mem _ (List.mem_append_left _ found)
          · obtain old | same := List.mem_append.mp member
            · exact List.mem_cons_of_mem _ (List.mem_append_right _ old)
            · rw [List.mem_singleton.mp same]
              exact List.mem_cons_self
        · obtain old | same := List.mem_append.mp member
          · exact .inl old
          · rw [List.mem_singleton.mp same]
            exact .inr deletable.2
        · have step := covered_step [] covered (List.subset_append_left files [⟨p, info⟩]) ?_
          · exact step
          · rintro root target p' info' exposed - ⟨rfl, rfl⟩
            exact .inr (List.mem_append_right _ List.mem_cons_self)
      · next kept =>
        cases move
        refine sound.walked rfl (List.nil_append _).symm rfl (List.nil_subset _) nofun ⟨none, ?_⟩
        refine covered_step [] covered (List.Subset.refl _) ?_
        rintro root target p' info' exposed above ⟨rfl, rfl⟩
        have inside : isBelowBase p = true := isBelowBase_of_root (sound.targets root target) above
        rw [inside, exposed.2] at kept
        exact absurd rfl kept

/-- A file of the second phase that is not removed. -/
theorem Cleaner.Sound.goes_oldest {files : List FileEntry} (phase : c.phase = .oldest files) (sound : c.Sound w)
    (permitted : c.Permitted w fails) (move : c.move rt config w fails = .goes next) : next.Sound w := by
  obtain ⟨settings, targets, used, phase', aged, surplus⟩ := c
  cases phase
  obtain ⟨listed, sorted, older⟩ := sound.pending
  cases files with
  | nil =>
    cases move
    refine sound.fewer rfl (List.Subset.refl _) (List.Subset.refl _) nofun ?_
    intro e member root target p info exposed
    cases listed root target p info exposed
  | cons file files =>
    dsimp only [Cleaner.move] at move
    split at move
    · cases move
    · next kept =>
      cases move
      refine sound.fewer rfl (List.Subset.refl _) (List.subset_cons_self _ _)
        (fun e member => .inl (List.mem_cons_of_mem _ member)) ⟨?_, ?_, ?_⟩
      · intro root target p info exposed
        obtain same | later := List.mem_cons.mp (listed root target p info exposed)
        · -- an exposed file can be removed, so the call failed
          subst same
          have leaf := exposed.1.2.1
          cases fails with
          | true => exact absurd (leaf.symm.trans (permitted rfl)) nofun
          | false => exact absurd (by simp [removable, leaf]) kept
        · exact later
      · exact (List.pairwise_cons.mp sorted).2
      · exact fun e member f later => older e member f (List.mem_cons_of_mem _ later)

/-- A move that only goes on keeps what holds of the cleanup. -/
theorem Cleaner.Sound.goes (sound : c.Sound w) (permitted : c.Permitted w fails)
    (move : c.move rt config w fails = .goes next) : next.Sound w := by
  cases phase : c.phase with
  | age cutoff todo => exact sound.goes_age phase permitted move
  | collect todo files => exact sound.goes_collect phase permitted move
  | oldest files => exact sound.goes_oldest phase permitted move
  | report =>
    rw [Cleaner.move, phase] at move
    cases move
  | start =>
    obtain ⟨settings, targets, used, phase', aged, surplus⟩ := c
    cases phase
    dsimp only [Cleaner.move] at move
    split at move
    · cases move
      exact sound.fewer rfl (List.Subset.refl _) (List.Subset.refl _) nofun sound.pending
    · cases move
  | check =>
    obtain ⟨settings, targets, used, phase', aged, surplus⟩ := c
    cases phase
    dsimp only [Cleaner.move] at move
    split at move
    · cases move
    · split at move
      · cases move
      · cases move
        exact .of_look (targetDirs_allowed settings.dirs) rfl rfl rfl sound.pending
  | remove cutoff file todo =>
    obtain ⟨settings, targets, used, phase', aged, surplus⟩ := c
    cases phase
    dsimp only [Cleaner.move] at move
    split at move
    · cases move
    · cases move
      refine sound.fewer rfl (List.Subset.refl _) (fun e member => ?_) nofun sound.pending
      exact List.mem_append_left _ ((List.mem_append.mp member).resolve_right nofun)
  | recheck =>
    obtain ⟨settings, targets, used, phase', aged, surplus⟩ := c
    cases phase
    dsimp only [Cleaner.move] at move
    split at move
    · cases move
      refine .of_look sound.targets rfl rfl rfl ⟨sound.pending, fun root target p info exposed => .inl ?_⟩
      exact ⟨.look root, List.mem_map_of_mem target, List.prefix_rfl, exposed.1.1⟩
    · cases move
      refine sound.fewer rfl (List.Subset.refl _) (List.Subset.refl _) nofun ?_
      have none : surplus = [] := sound.pending
      rw [none]
      exact nofun
  | measure files =>
    obtain ⟨settings, targets, used, phase', aged, surplus⟩ := c
    cases phase
    dsimp only [Cleaner.move] at move
    split at move
    · cases move
      exact sound.fewer rfl (List.Subset.refl _) (List.Subset.refl _) (fun e member => .inl member) sound.pending
    · split at move
      · cases move
        refine sound.fewer rfl (List.Subset.refl _) (List.nil_subset _) nofun ?_
        intro e member root target p info exposed
        exact sound.pending.2.2 e member _ (sound.pending.1 root target p info exposed)
      · cases move
        exact sound.fewer rfl (List.Subset.refl _) (List.Subset.refl _) (fun e member => .inl member) sound.pending

/-- Only two moves remove a file. -/
theorem move_removes (move : c.move rt config w fails = .removes file next) : removable w.tree file.path = true ∧
    ((∃ cutoff todo, c.phase = .remove cutoff file todo ∧
        next = { c with phase := .age cutoff todo, aged := c.aged ++ [file] }) ∨
      ∃ files, c.phase = .oldest (file :: files) ∧
        next = { c with phase := .measure files, surplus := c.surplus ++ [file] }) := by
  cases phase : c.phase with
  | remove cutoff file' todo =>
    rw [Cleaner.move, phase] at move
    dsimp only at move
    split at move
    · next removed =>
      cases move
      exact ⟨(Bool.and_eq_true _ _ ▸ removed).2, .inl ⟨cutoff, todo, rfl, rfl⟩⟩
    · cases move
  | oldest files =>
    rw [Cleaner.move, phase] at move
    cases files with
    | nil => cases move
    | cons file' files =>
      dsimp only at move
      split at move
      · next removed =>
        cases move
        exact ⟨(Bool.and_eq_true _ _ ▸ removed).2, .inr ⟨files, rfl, rfl⟩⟩
      · cases move
  | age cutoff todo | collect todo files =>
    rw [Cleaner.move, phase] at move
    rcases todo with _ | ⟨_ | _ | _, todo⟩
    all_goals dsimp only at move
    all_goals repeat' split at move
    all_goals cases move
  | start | check | recheck | measure files | report =>
    rw [Cleaner.move, phase] at move
    dsimp only at move
    repeat' split at move
    all_goals cases move

/-- A move that removes a file removes one that was found deletable, and keeps what holds of the cleanup. -/
theorem Cleaner.Sound.removes (sound : c.Sound w) (move : c.move rt config w fails = .removes file next) :
    file ∈ c.phase.judged ∧ next.Sound { w with tree := w.tree.erase file.path } := by
  have erased := sound.world (undisturbed_erase _ w file.path)
  obtain ⟨-, ⟨cutoff, todo, phase, rfl⟩ | ⟨files, phase, rfl⟩⟩ := move_removes move
  · obtain ⟨settings, targets, used, phase', aged, surplus⟩ := c
    cases phase
    refine ⟨List.mem_singleton_self _, erased.fewer rfl (List.Subset.refl _) (fun e member => ?_) nofun sound.pending⟩
    exact List.mem_append_left _ ((List.mem_append.mp member).resolve_right nofun)
  · obtain ⟨settings, targets, used, phase', aged, surplus⟩ := c
    cases phase
    obtain ⟨listed, sorted, older⟩ := erased.pending
    refine ⟨List.mem_cons_self, erased.fewer rfl (List.Subset.refl _) (List.subset_cons_self _ _)
      (fun e member => .inl (List.mem_cons_of_mem _ member)) ⟨?_, (List.pairwise_cons.mp sorted).2, ?_⟩⟩
    · intro root target p info exposed
      obtain same | later := List.mem_cons.mp (listed root target p info exposed)
      · -- the file that was removed stands no longer
        subst same
        exact absurd (exposed.1.2.1.symm.trans (AList.lookup_erase _ _)) nofun
      · exact later
    · intro e member f later
      obtain old | same := List.mem_append.mp member
      · exact older e old f (List.mem_cons_of_mem _ later)
      · rw [List.mem_singleton.mp same]
        exact (List.pairwise_cons.mp sorted).1 f later

end moves

end H2kvm.Web.AutoCleanup
