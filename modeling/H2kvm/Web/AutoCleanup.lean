import Mathlib
import H2kvm.Framework.TreeWalk
import H2kvm.Web.Kubeconfig

namespace H2kvm.Web.AutoCleanup

section autoCleanup

open Framework Framework.Paths Framework.TreeWalk

/-- A path of these names, from the root on. -/
def pathOf (names : List String) : Path := names.map String.toList

/-- Nanoseconds. -/
def hour : Int := 3600000000000

def activeJobMinAge : Int := 2 * hour

structure FileInfo where
  size : Int
  modTime : Int
  deriving DecidableEq

/-- `isProtectedFromCleanup` -/
def isProtectedFromCleanup (now : Int) (path : Path) (info : FileInfo) : Bool :=
  let lower := (path.getLast?.getD []).map lowerAscii
  ".part".toList.isSuffixOf lower || ".tmp".toList.isSuffixOf lower || now - info.modTime < activeJobMinAge

structure CleanupConfig where
  enabled : Bool := true
  thresholdPercent : Int := 85
  maxAgeHours : Int := 24
  dirs : List String := ["output", "input"]
  lastCleanup : String := ""
  lastResult : String := ""
  deriving DecidableEq

structure SetCleanupSettings where
  enabled : Option Bool := none
  thresholdPercent : Option Int := none
  maxAgeHours : Option Int := none
  dirs : List String := []
  runNow : Bool := false
  deriving DecidableEq

structure Statfs where
  bavail : Nat
  blocks : Nat

structure FileEntry where
  path : Path
  info : FileInfo

def FileEntry.modTime (e : FileEntry) : Int := e.info.modTime

/-- What the code takes from its runtime: the comparison of the used percentage, a float, with a threshold (neither
need hold), `formatBytesHuman`, `time.Format`, `%q`, and `sort.Slice`, which orders what is equally old in any way. -/
structure Runtime where
  atMost : Statfs → Int → Bool
  above : Statfs → Int → Bool
  formatBytesHuman : Int → String
  rfc3339 : Int → String
  quote : String → String
  sort : List FileEntry → List FileEntry
  sort_perm : ∀ files, (sort files).Perm files
  sort_sorted : ∀ files, (sort files).Pairwise fun f g => f.modTime ≤ g.modTime

/-! ### The settings -/

namespace CleanupConfig

variable (quote : String → String)

def isAllowed (dir : String) : Bool := dir == "output" || dir == "input"

def setDirs (config : CleanupConfig) (dirs : List String) : CleanupConfig × Option String :=
  if dirs = [] then (config, none)
  else match dirs.find? (!isAllowed ·) with
    | some d => (config, some ("invalid dir " ++ quote d ++ ": allowed values are \"output\" and \"input\""))
    | none => ({ config with dirs := dirs }, none)

def setMaxAge (config : CleanupConfig) (req : SetCleanupSettings) : CleanupConfig × Option String :=
  match req.maxAgeHours with
  | some v =>
    if v < 0 then (config, some "max_age_hours must be non-negative")
    else setDirs quote { config with maxAgeHours := v } req.dirs
  | none => setDirs quote config req.dirs

def setThreshold (config : CleanupConfig) (req : SetCleanupSettings) : CleanupConfig × Option String :=
  match req.thresholdPercent with
  | some v =>
    if v < 50 ∨ 95 < v then (config, some "threshold_percent must be between 50 and 95")
    else setMaxAge quote { config with thresholdPercent := v } req
  | none => setMaxAge quote config req

/-- `handleSetCleanupSettings` while it holds the lock: the configuration, and the error it answers with. -/
def set (config : CleanupConfig) : Except String SetCleanupSettings → CleanupConfig × Option String
  | .error message => (config, some message)
  | .ok req => setThreshold quote { config with enabled := req.enabled.getD config.enabled } req

end CleanupConfig

/-! ### A cleanup -/

inductive Phase where
  | start
  | check
  | age (cutoff : Int) (todo : List (Errand FileInfo))
  | remove (cutoff : Int) (file : FileEntry) (todo : List (Errand FileInfo))
  | recheck
  | collect (todo : List (Errand FileInfo)) (files : List FileEntry)
  | oldest (files : List FileEntry)
  | measure (files : List FileEntry)
  | report

/-- A call of `runAutoCleanup`, with its copy of the settings. Where the code counts what it deleted, the files are
kept, those of the second phase apart. -/
structure Cleaner where
  config : CleanupConfig := {}
  targets : List Path := []
  used : Statfs := ⟨0, 0⟩
  phase : Phase := .start
  aged : List FileEntry := []
  surplus : List FileEntry := []

def base : Path := pathOf ["var", "lib", "h2kvm"]

def fullPath (dir : String) : Path := base ++ [dir.toList]

def targetDirs (dirs : List String) : List Path :=
  let targets := (dirs.filter CleanupConfig.isAllowed).map fullPath
  if targets = [] then [fullPath "output", fullPath "input"] else targets

/-- `-time.Duration(maxAge) * time.Hour`, which wraps. -/
def minusHours (maxAge : Int) : Int := (-maxAge * hour).bmod (2 ^ 64)

/-- `os.Remove` would remove what is at the path: anything but a directory that is not empty. -/
def removable (tree : TreeWalk.Tree FileInfo) (path : Path) : Bool :=
  match tree.lookup path with
  | none => false
  | some .dir => names tree path = []
  | some (.leaf _) => true

inductive Move where
  | ends
  | goes (next : Cleaner)
  | removes (file : FileEntry) (next : Cleaner)
  | reports (deleted : List FileEntry)

/-- What a path under `/var/lib/h2kvm/` is. -/
def isBelowBase (path : Path) : Bool := base.isPrefixOf path && path != base

structure World where
  tree : TreeWalk.Tree FileInfo
  stat : Option Statfs
  now : Int

section moves

variable (rt : Runtime) (config : CleanupConfig) (world : World) (fails : Bool)

def World.usage : Option Statfs := if fails then none else world.stat

/-- `runAutoCleanup` up to its next call of the system, which may fail. -/
def Cleaner.move (c : Cleaner) : Move :=
  match c.phase with
  | .start => if config.enabled then .goes { c with config := config, phase := .check } else .ends
  | .check =>
    match world.usage fails with
    | none => .ends
    | some stat =>
      if rt.atMost stat c.config.thresholdPercent then .ends
      else
        let targets := targetDirs c.config.dirs
        .goes { c with
          used := stat, targets := targets
          phase := .age (world.now + minusHours c.config.maxAgeHours) (targets.map .look) }
  | .age _ [] => .goes { c with phase := .recheck }
  | .age cutoff (.found path info :: todo) =>
    if isBelowBase path && !isProtectedFromCleanup world.now path info && info.modTime < cutoff then
      .goes { c with phase := .remove cutoff ⟨path, info⟩ todo }
    else .goes { c with phase := .age cutoff todo }
  | .age cutoff (errand :: todo) =>
    .goes { c with phase := .age cutoff ((if fails then [] else errand.expand world.tree) ++ todo) }
  | .remove cutoff file todo =>
    if !fails && removable world.tree file.path then
      .removes file { c with phase := .age cutoff todo, aged := c.aged ++ [file] }
    else .goes { c with phase := .age cutoff todo }
  | .recheck =>
    let used := (world.usage fails).getD c.used
    if rt.above used c.config.thresholdPercent then
      .goes { c with used := used, phase := .collect (c.targets.map .look) [] }
    else .goes { c with used := used, phase := .report }
  | .collect [] files => .goes { c with phase := .oldest (rt.sort files) }
  | .collect (.found path info :: todo) files =>
    if isBelowBase path && !isProtectedFromCleanup world.now path info then
      .goes { c with phase := .collect todo (files ++ [⟨path, info⟩]) }
    else .goes { c with phase := .collect todo files }
  | .collect (errand :: todo) files =>
    .goes { c with phase := .collect ((if fails then [] else errand.expand world.tree) ++ todo) files }
  | .oldest [] => .goes { c with phase := .report }
  | .oldest (file :: files) =>
    if !fails && removable world.tree file.path then
      .removes file { c with phase := .measure files, surplus := c.surplus ++ [file] }
    else .goes { c with phase := .oldest files }
  | .measure files =>
    match world.usage fails with
    | none => .goes { c with phase := .oldest files }
    | some stat =>
      if rt.atMost stat c.config.thresholdPercent then .goes { c with used := stat, phase := .report }
      else .goes { c with used := stat, phase := .oldest files }
  | .report => .reports (c.aged ++ c.surplus)

end moves

/-! ### The server -/

/-- A call of `saveCleanupConfig`, which may have marshalled the configuration, in a handler that may start a cleanup
after it. -/
structure Saver where
  runNow : Bool
  data : Option CleanupConfig := none

/-- How `os.WriteFile` ends: a write that fails leaves the old file, or a piece of the text, which does not parse. -/
inductive Written where
  | whole
  | kept
  | torn

/-- The server, the file system and the clock. The file is told by what `json.Unmarshal` makes of it, if it can be read
and parsed. -/
structure Server where
  config : CleanupConfig
  disk : Option CleanupConfig
  savers : List Saver := []
  cleaners : List Cleaner := []
  world : World

inductive Label where
  | restart
  | request (body : Except String SetCleanupSettings)
  | noDir (saver : Nat)
  | marshal (saver : Nat)
  | write (saver : Nat) (written : Written)
  | tick
  | clean (cleaner : Nat) (fails : Bool)
  | world (next : World)

/-- `initAutoCleanup`, in a new process. -/
def boot (disk : Option CleanupConfig) (world : World) : Server where
  config := disk.getD {}
  disk := disk
  world := world

namespace Server

variable (rt : Runtime) (s : Server)

/-- A save is over, and the handler goes on. -/
def saved (saver : Nat) (runNow : Bool) : Server :=
  { s with savers := s.savers.eraseIdx saver, cleaners := if runNow then s.cleaners ++ [{}] else s.cleaners }

def write (saver : Nat) (written : Written) : Server :=
  match s.savers[saver]? with
  | some ⟨runNow, some data⟩ =>
    let disk := match written with
      | .whole => some data
      | .kept => s.disk
      | .torn => none
    { s with disk := disk }.saved saver runNow
  | _ => s

/-- The end of `runAutoCleanup`. -/
def reported (deleted : List FileEntry) : CleanupConfig :=
  { s.config with
    lastCleanup := rt.rfc3339 s.world.now
    lastResult := "deleted " ++ toString deleted.length ++ " files, freed " ++
      rt.formatBytesHuman (deleted.map (·.info.size)).sum }

def clean (cleaner : Nat) (fails : Bool) : Server :=
  match s.cleaners[cleaner]? with
  | none => s
  | some c =>
    match c.move rt s.config s.world fails with
    | .ends => { s with cleaners := s.cleaners.eraseIdx cleaner }
    | .goes next => { s with cleaners := s.cleaners.set cleaner next }
    | .removes file next =>
      { s with
        cleaners := s.cleaners.set cleaner next
        world := { s.world with tree := s.world.tree.erase file.path } }
    | .reports deleted =>
      { s with
        config := s.reported rt deleted, savers := s.savers ++ [⟨false, none⟩]
        cleaners := s.cleaners.eraseIdx cleaner }

def step : Label → Server
  | .restart => boot s.disk s.world
  | .request body =>
    let (config, error) := s.config.set rt.quote body
    match error, body with
    | none, .ok req => { s with config := config, savers := s.savers ++ [⟨req.runNow, none⟩] }
    | _, _ => { s with config := config }
  | .noDir saver =>
    match s.savers[saver]? with
    | some ⟨runNow, none⟩ => s.saved saver runNow
    | _ => s
  | .marshal saver =>
    match s.savers[saver]? with
    | some ⟨runNow, none⟩ => { s with savers := s.savers.set saver ⟨runNow, some s.config⟩ }
    | _ => s
  | .write saver written => s.write saver written
  | .tick => { s with cleaners := s.cleaners ++ [{}] }
  | .clean cleaner fails => s.clean rt cleaner fails
  | .world next => { s with world := next }

end Server

end autoCleanup

section cleanupSettings

namespace CleanupConfig

variable {quote : String → String} {config : CleanupConfig} {req : SetCleanupSettings}

/-- A threshold between 50 and 95, a non-negative age, and no directories but those allowed. -/
structure Sane (config : CleanupConfig) : Prop where
  threshold : 50 ≤ config.thresholdPercent ∧ config.thresholdPercent ≤ 95
  maxAge : 0 ≤ config.maxAgeHours
  dirs : ∀ d ∈ config.dirs, d = "output" ∨ d = "input"

theorem sane_default : Sane {} := ⟨by decide, by decide, by simp⟩

def ThresholdValid (req : SetCleanupSettings) : Prop := ∀ v ∈ req.thresholdPercent, 50 ≤ v ∧ v ≤ 95

def MaxAgeValid (req : SetCleanupSettings) : Prop := ∀ v ∈ req.maxAgeHours, 0 ≤ v

def DirsValid (req : SetCleanupSettings) : Prop := ∀ d ∈ req.dirs, d = "output" ∨ d = "input"

/-- A request that is rejected asks for nothing new before the setting it is rejected for. -/
def Settled (config : CleanupConfig) : Except String SetCleanupSettings → Prop
  | .error _ => True
  | .ok req =>
    (¬ (ThresholdValid req ∧ MaxAgeValid req ∧ DirsValid req) → req.enabled.getD config.enabled = config.enabled) ∧
    (ThresholdValid req → ¬ (MaxAgeValid req ∧ DirsValid req) →
      req.thresholdPercent.getD config.thresholdPercent = config.thresholdPercent) ∧
    (ThresholdValid req → MaxAgeValid req → ¬ DirsValid req →
      req.maxAgeHours.getD config.maxAgeHours = config.maxAgeHours)

theorem isAllowed_iff {dir : String} : isAllowed dir = true ↔ dir = "output" ∨ dir = "input" := by
  simp [isAllowed]

theorem setDirs_valid (valid : DirsValid req) : setDirs quote config req.dirs =
    ({ config with dirs := if req.dirs = [] then config.dirs else req.dirs }, none) := by
  unfold setDirs
  split
  · rfl
  · have found : req.dirs.find? (!isAllowed ·) = none := by
      rw [List.find?_eq_none]
      intro d member
      simpa [isAllowed_iff] using valid d member
    rw [found]

theorem setDirs_invalid (invalid : ¬ DirsValid req) : ∃ error, setDirs quote config req.dirs = (config, some error) := by
  obtain ⟨d, member, other⟩ : ∃ d ∈ req.dirs, ¬ (d = "output" ∨ d = "input") := by
    simpa only [DirsValid, not_forall, exists_prop] using invalid
  unfold setDirs
  rw [if_neg (List.ne_nil_of_mem member)]
  cases found : req.dirs.find? (!isAllowed ·) with
  | none =>
    have := List.find?_eq_none.mp found d member
    simp only [Bool.not_eq_true, Bool.not_eq_false', isAllowed_iff] at this
    exact absurd this other
  | some e => exact ⟨_, rfl⟩

theorem setMaxAge_valid (valid : MaxAgeValid req) : setMaxAge quote config req =
    setDirs quote { config with maxAgeHours := req.maxAgeHours.getD config.maxAgeHours } req.dirs := by
  unfold setMaxAge
  cases asked : req.maxAgeHours with
  | none => rfl
  | some v =>
    have := valid v asked
    dsimp only
    rw [if_neg (by omega)]
    rfl

theorem setMaxAge_invalid (invalid : ¬ MaxAgeValid req) : ∃ error, setMaxAge quote config req = (config, some error) := by
  unfold setMaxAge
  cases asked : req.maxAgeHours with
  | none => exact absurd (fun v member => by rw [asked] at member; cases member) invalid
  | some v =>
    by_cases negative : v < 0
    · exact ⟨_, if_pos negative⟩
    · refine absurd (fun w member => ?_) invalid
      rw [asked] at member
      cases member
      omega

theorem setThreshold_valid (valid : ThresholdValid req) : setThreshold quote config req =
    setMaxAge quote { config with thresholdPercent := req.thresholdPercent.getD config.thresholdPercent } req := by
  unfold setThreshold
  cases asked : req.thresholdPercent with
  | none => rfl
  | some v =>
    have := valid v asked
    dsimp only
    rw [if_neg (by omega)]
    rfl

theorem setThreshold_invalid (invalid : ¬ ThresholdValid req) :
    ∃ error, setThreshold quote config req = (config, some error) := by
  unfold setThreshold
  cases asked : req.thresholdPercent with
  | none => exact absurd (fun v member => by rw [asked] at member; cases member) invalid
  | some v =>
    by_cases outside : v < 50 ∨ 95 < v
    · exact ⟨_, if_pos outside⟩
    · refine absurd (fun w member => ?_) invalid
      rw [asked] at member
      cases member
      omega

/-- What a request makes of the configuration, by the first of its settings that is not valid. -/
inductive Outcome (quote : String → String) (config : CleanupConfig) (req : SetCleanupSettings) : Prop
  | threshold (invalid : ¬ ThresholdValid req) (error : String)
    (out : config.set quote (.ok req) = ({ config with enabled := req.enabled.getD config.enabled }, some error))
  | maxAge (threshold : ThresholdValid req) (invalid : ¬ MaxAgeValid req) (error : String)
    (out : config.set quote (.ok req) = ({ config with
      enabled := req.enabled.getD config.enabled
      thresholdPercent := req.thresholdPercent.getD config.thresholdPercent }, some error))
  | dirs (threshold : ThresholdValid req) (maxAge : MaxAgeValid req) (invalid : ¬ DirsValid req) (error : String)
    (out : config.set quote (.ok req) = ({ config with
      enabled := req.enabled.getD config.enabled
      thresholdPercent := req.thresholdPercent.getD config.thresholdPercent
      maxAgeHours := req.maxAgeHours.getD config.maxAgeHours }, some error))
  | done (threshold : ThresholdValid req) (maxAge : MaxAgeValid req) (dirs : DirsValid req)
    (out : config.set quote (.ok req) = ({ config with
      enabled := req.enabled.getD config.enabled
      thresholdPercent := req.thresholdPercent.getD config.thresholdPercent
      maxAgeHours := req.maxAgeHours.getD config.maxAgeHours
      dirs := if req.dirs = [] then config.dirs else req.dirs }, none))

theorem set_outcome (quote : String → String) (config : CleanupConfig) (req : SetCleanupSettings) :
    Outcome quote config req := by
  have start : config.set quote (.ok req) =
    setThreshold quote { config with enabled := req.enabled.getD config.enabled } req := rfl
  by_cases threshold : ThresholdValid req
  · rw [setThreshold_valid threshold] at start
    by_cases maxAge : MaxAgeValid req
    · rw [setMaxAge_valid maxAge] at start
      by_cases dirs : DirsValid req
      · exact .done threshold maxAge dirs (start.trans (setDirs_valid dirs))
      · obtain ⟨error, out⟩ := setDirs_invalid dirs
        exact .dirs threshold maxAge dirs error (start.trans out)
    · obtain ⟨error, out⟩ := setMaxAge_invalid maxAge
      exact .maxAge threshold maxAge error (start.trans out)
  · obtain ⟨error, out⟩ := setThreshold_invalid threshold
    exact .threshold threshold error (start.trans out)

theorem set_rejected_iff {body : Except String SetCleanupSettings} (rejected : (config.set quote body).2 ≠ none) :
    (config.set quote body).1 = config ↔ Settled config body := by
  cases body with
  | error message => exact iff_of_true rfl trivial
  | ok req =>
    cases set_outcome quote config req with
    | threshold invalid error out =>
      rw [out]
      cases config
      simp [Settled, invalid]
    | maxAge threshold invalid error out =>
      rw [out]
      cases config
      simp [Settled, threshold, invalid]
    | dirs threshold maxAge invalid error out =>
      rw [out]
      cases config
      simp [Settled, threshold, maxAge, invalid]
    | done threshold maxAge dirs out =>
      rw [out] at rejected
      exact absurd rfl rejected

/-- Every request leaves sane settings sane. -/
theorem Sane.set (sane : Sane config) (quote : String → String) (body : Except String SetCleanupSettings) :
    Sane (config.set quote body).1 := by
  obtain ⟨within, positive, allowed⟩ := sane
  cases body with
  | error message => exact ⟨within, positive, allowed⟩
  | ok req =>
    have within' (valid : ThresholdValid req) : 50 ≤ req.thresholdPercent.getD config.thresholdPercent ∧
        req.thresholdPercent.getD config.thresholdPercent ≤ 95 := by
      cases asked : req.thresholdPercent with
      | none => exact within
      | some v => exact valid v asked
    have positive' (valid : MaxAgeValid req) : 0 ≤ req.maxAgeHours.getD config.maxAgeHours := by
      cases asked : req.maxAgeHours with
      | none => exact positive
      | some v => exact valid v asked
    cases set_outcome quote config req with
    | threshold invalid error out =>
      rw [out]
      exact ⟨within, positive, allowed⟩
    | maxAge threshold invalid error out =>
      rw [out]
      exact ⟨within' threshold, positive, allowed⟩
    | dirs threshold maxAge invalid error out =>
      rw [out]
      exact ⟨within' threshold, positive' maxAge, allowed⟩
    | done threshold maxAge dirs out =>
      rw [out]
      refine ⟨within' threshold, positive' maxAge, ?_⟩
      dsimp only
      split
      · exact allowed
      · exact dirs

end CleanupConfig

end cleanupSettings

end H2kvm.Web.AutoCleanup
