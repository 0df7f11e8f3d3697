import H2kvm.Framework.Lines
import Mathlib.Logic.Function.Basic
import Mathlib.Data.List.DropRight
import Mathlib.Data.List.Nodup
import H2kvm.Framework.Run

namespace H2kvm.Web

open Framework

section kubeconfig

/-- A character of a Go string, or a byte that is not UTF-8. -/
inductive GoChar where
  | char (c : Char)
  | invalid (byte : UInt8)
  deriving DecidableEq

abbrev GoString := List GoChar

def GoChar.isValid : GoChar → Bool
  | .char _ => true
  | .invalid _ => false

/-- What `json.Marshal` makes of a string. -/
def GoString.asJson (s : GoString) : GoString :=
  s.map fun
    | .char c => .char c
    | .invalid _ => .char '\uFFFD'

section Slugify

/-- `unicode.ToLower` as far as it gives ASCII letters. -/
def lowerAscii (c : Char) : Char :=
  if c = '\u0130' then 'i' else if c = '\u212A' then 'k' else c.toLower

def isSlugChar (c : Char) : Bool := ('a' ≤ c && c ≤ 'z') || ('0' ≤ c && c ≤ '9')

/-- `[^a-z0-9]+` replaced by hyphens, where `inRun` says whether the hyphen has been put. -/
def hyphenate (inRun : Bool) : GoString → List Char
  | [] => []
  | .char c :: rest =>
    if isSlugChar (lowerAscii c) then lowerAscii c :: hyphenate false rest
    else if inRun then hyphenate true rest
    else '-' :: hyphenate true rest
  | .invalid _ :: rest => if inRun then hyphenate true rest else '-' :: hyphenate true rest

def trimRight (s : List Char) : List Char := s.rdropWhile (· = '-')

/-- `slugify`. -/
def slugify (name : GoString) : List Char :=
  let s := trimRight ((hyphenate false name).dropWhile (· = '-'))
  if 63 < s.length then trimRight (s.take 63) else s

end Slugify

structure ClusterEntry where
  id : List Char
  name : GoString
  source : GoString
  originalPath : GoString
  filename : List Char
  addedAt : List Char
  deriving DecidableEq

structure ClustersConfig where
  active : List Char := []
  clusters : List ClusterEntry := []
  deriving DecidableEq

namespace ClustersConfig

def ids (c : ClustersConfig) : List (List Char) := c.clusters.map (·.id)

/-- The configuration as it is read from its JSON. -/
def asJson (c : ClustersConfig) : ClustersConfig :=
  { c with clusters := c.clusters.map fun e =>
      { e with name := e.name.asJson, source := e.source.asJson, originalPath := e.originalPath.asJson } }

end ClustersConfig

/-- How `os.WriteFile` ends; when it fails, it may leave something of the new content behind. -/
inductive FileWrite where
  | written
  | failed (left : Option (List UInt8))
  deriving DecidableEq

inductive StoreCall where
  | start (legacy : Option (List UInt8)) (write : FileWrite) (persisted : Bool) (now : List Char)
  | add (name source : GoString) (data : List UInt8) (originalPath : GoString) (write : FileWrite) (persisted : Bool)
      (now : List Char)
  | activate (id : List Char) (persisted : Bool)
  | delete (id : List Char) (removed : Bool) (persisted : Bool)

/-- The directory, with the configuration the manager has in memory, or had when it was last running. What each listed
cluster was added with is kept beside. -/
structure KubeconfigStore where
  config : ClustersConfig := {}
  clustersJson : Option ClustersConfig := none
  files : List Char → Option (List UInt8) := fun _ => none
  running : Bool := false
  started : Bool := false
  given : List Char → Option (List UInt8) := fun _ => none

def legacySingleKubeconfig : String := "/var/lib/h2kvm/kubeconfig"

def kubeconfigName (id : List Char) : List Char := id ++ ".kubeconfig".toList

/-- The entry a legacy file becomes. -/
def migratedEntry (now : List Char) : ClusterEntry where
  id := "default".toList
  name := "default".toList.map .char
  source := "migrated".toList.map .char
  originalPath := legacySingleKubeconfig.toList.map .char
  filename := "default.kubeconfig".toList
  addedAt := now

namespace KubeconfigStore

variable (s : KubeconfigStore)

def writeFile (filename : List Char) (data : List UInt8) : FileWrite → KubeconfigStore
  | .written => { s with files := Function.update s.files filename (some data) }
  | .failed none => s
  | .failed (some left) => { s with files := Function.update s.files filename (some left) }

/-- `persist`, which goes by a temporary file. -/
def persist (persisted : Bool) : KubeconfigStore :=
  if persisted then { s with clustersJson := some s.config.asJson } else s

/-- `NewKubeconfigManager` in a new process, and whether it returns an error. -/
def start (legacy : Option (List UInt8)) (write : FileWrite) (persisted : Bool) (now : List Char) : KubeconfigStore × Bool :=
  let loaded := s.clustersJson.getD {}
  match legacy.filter (· ≠ []) with
  | some data =>
    if loaded.clusters = [] then
      let entry := migratedEntry now
      match write with
      | .failed left => ({ s.writeFile entry.filename data (.failed left) with running := false }, true)
      | .written =>
        let s := s.writeFile entry.filename data .written
        let migrated : ClustersConfig := ⟨entry.id, [entry]⟩
        if persisted then
          ({ s with
            config := migrated, clustersJson := some migrated.asJson, running := true, started := true
            given := Function.update s.given entry.id (some data) }, false)
        else ({ s with running := false }, true)
    else ({ s with config := loaded, running := true, started := true }, false)
  | none => ({ s with config := loaded, running := true, started := true }, false)

/-- `Add`. -/
def add (name source : GoString) (data : List UInt8) (originalPath : GoString) (write : FileWrite) (persisted : Bool)
    (now : List Char) : KubeconfigStore × Bool :=
  let id := slugify name
  if id = [] then (s, true)
  else if id ∈ s.config.ids then (s, true)
  else
    match write with
    | .failed left => (s.writeFile (kubeconfigName id) data (.failed left), true)
    | .written =>
      let s := s.writeFile (kubeconfigName id) data .written
      let clusters := s.config.clusters ++ [⟨id, name, source, originalPath, kubeconfigName id, now⟩]
      let active := if clusters.length = 1 then id else s.config.active
      let s := { s with config := ⟨active, clusters⟩, given := Function.update s.given id (some data) }
      (s.persist persisted, !persisted)

/-- `Activate`. -/
def activate (id : List Char) (persisted : Bool) : KubeconfigStore × Bool :=
  if id ∈ s.config.ids then
    (({ s with config := { s.config with active := id } } : KubeconfigStore).persist persisted, !persisted)
  else (s, true)

/-- `Delete`; the file is removed if that can be done. -/
def delete (id : List Char) (removed persisted : Bool) : KubeconfigStore × Bool :=
  match s.config.clusters.find? (·.id = id) with
  | none => (s, true)
  | some entry =>
    let files := if removed then Function.update s.files entry.filename none else s.files
    let active := if s.config.active = id then [] else s.config.active
    let s := { s with files, config := ⟨active, s.config.clusters.erase entry⟩ }
    (s.persist persisted, !persisted)

/-- A call, and whether it returns an error. Without a running manager only a start does something. -/
def exec : StoreCall → KubeconfigStore × Bool
  | .start legacy write persisted now => s.start legacy write persisted now
  | .add name source data originalPath write persisted now =>
    if s.running then s.add name source data originalPath write persisted now else (s, false)
  | .activate id persisted => if s.running then s.activate id persisted else (s, false)
  | .delete id removed persisted => if s.running then s.delete id removed persisted else (s, false)

def step (call : StoreCall) : KubeconfigStore := (s.exec call).1

structure Consistent : Prop where
  distinct : s.config.ids.Nodup
  active : s.config.active = [] ∨ s.config.active ∈ s.config.ids
  files : ∀ e ∈ s.config.clusters, s.files e.filename = s.given e.id ∧ (s.given e.id).isSome = true

def StoreCall.isStart : StoreCall → Bool
  | .start .. => true
  | _ => false

/-- What a call promises: a consistent store, nothing changed by an error, and after a restart what was there before. -/
structure Kept (call : StoreCall) : Prop where
  consistent : (s.step call).Consistent
  error : (s.exec call).2 = true → (s.step call).config = s.config ∧ (s.step call).clustersJson = s.clustersJson
  restart : StoreCall.isStart call = true → s.started = true → (s.step call).config = s.config

/-- Once the configuration is changed it is stored, a restart migrates nothing, and what is stored is UTF-8. -/
def Careful : StoreCall → Prop
  | .start legacy write persisted _ => s.started = true →
      (s.config.clusters = [] → legacy.getD [] ≠ [] → write = .written → persisted = false) ∧
        ∀ e ∈ s.config.clusters, ∀ c ∈ e.name ++ e.source ++ e.originalPath, c.isValid = true
  | .add name _ _ _ write persisted _ => s.running = true → slugify name ≠ [] → slugify name ∉ s.config.ids →
      write = .written → persisted = true
  | .activate id persisted => s.running = true → id ∈ s.config.ids → id ≠ s.config.active → persisted = true
  | .delete id _ persisted => s.running = true → id ∈ s.config.ids → persisted = true

end KubeconfigStore

end kubeconfig

section kubeconfigKept

theorem map_eq_self_iff {α : Type*} {f : α → α} {l : List α} : l.map f = l ↔ ∀ a ∈ l, f a = a := by
  have same : l.map f = l ↔ l.map f = l.map id := by rw [List.map_id]
  exact same.trans List.map_inj_left

theorem GoChar.isValid_iff {c : GoChar} :
    c.isValid = true ↔ (match c with | .char c => GoChar.char c | .invalid _ => .char '\uFFFD') = c := by
  cases c <;> simp [isValid]

theorem GoString.asJson_eq_self {s : GoString} : s.asJson = s ↔ ∀ c ∈ s, c.isValid = true := by
  rw [asJson, map_eq_self_iff]
  exact forall₂_congr fun c _ => GoChar.isValid_iff.symm

theorem kubeconfigName_inj {a b : List Char} : kubeconfigName a = kubeconfigName b ↔ a = b :=
  List.append_left_inj _

namespace ClustersConfig

variable {c : ClustersConfig}

@[simp] theorem asJson_active : c.asJson.active = c.active := rfl

@[simp] theorem asJson_ids : c.asJson.ids = c.ids := by
  simp only [ids, asJson, List.map_map]
  rfl

theorem asJson_clusters_eq_nil : c.asJson.clusters = [] ↔ c.clusters = [] := List.map_eq_nil_iff

theorem asJson_eq_self :
    c.asJson = c ↔ ∀ e ∈ c.clusters, ∀ x ∈ e.name ++ e.source ++ e.originalPath, x.isValid = true := by
  have : c.asJson = c ↔ c.asJson.clusters = c.clusters := by
    constructor
    · exact congrArg clusters
    · intro same
      show (⟨c.active, c.asJson.clusters⟩ : ClustersConfig) = c
      rw [same]
  rw [this, asJson, map_eq_self_iff]
  refine forall₂_congr fun e _ => ?_
  rw [List.forall_mem_append, List.forall_mem_append, ← GoString.asJson_eq_self, ← GoString.asJson_eq_self,
    ← GoString.asJson_eq_self]
  cases e
  simp [and_assoc]

@[simp] theorem asJson_asJson : c.asJson.asJson = c.asJson := by
  rw [asJson_eq_self]
  intro e member x text
  obtain ⟨f, -, rfl⟩ := List.mem_map.mp member
  have text : x ∈ f.name.asJson ++ f.source.asJson ++ f.originalPath.asJson := text
  unfold GoString.asJson at text
  rw [← List.map_append, ← List.map_append] at text
  obtain ⟨y, -, rfl⟩ := List.mem_map.mp text
  cases y <;> rfl

/-- What is in the JSON of an entry is in the entry, apart from its texts. -/
theorem exists_of_mem_asJson {e : ClusterEntry} (member : e ∈ c.asJson.clusters) :
    ∃ f ∈ c.clusters, e.id = f.id ∧ e.filename = f.filename := by
  obtain ⟨f, listed, rfl⟩ := List.mem_map.mp member
  exact ⟨f, listed, rfl, rfl⟩

end ClustersConfig

namespace KubeconfigStore

variable {s : KubeconfigStore}

/-- What holds between two careful calls: memory is what the file says, and files are named after their cluster. -/
structure Sound (s : KubeconfigStore) : Prop extends s.Consistent where
  named : ∀ e ∈ s.config.clusters, e.filename = kubeconfigName e.id
  stored : s.clustersJson.getD {} = s.config.asJson
  running : s.running = true → s.started = true

@[simp] theorem persist_config (persisted : Bool) : (s.persist persisted).config = s.config := by
  cases persisted <;> rfl

section WriteFile

variable {filename : List Char} {data : List UInt8} {write : FileWrite}

@[simp] theorem writeFile_config : (s.writeFile filename data write).config = s.config := by
  match write with
  | .written => rfl
  | .failed none => rfl
  | .failed (some _) => rfl

@[simp] theorem writeFile_clustersJson : (s.writeFile filename data write).clustersJson = s.clustersJson := by
  match write with
  | .written => rfl
  | .failed none => rfl
  | .failed (some _) => rfl

end WriteFile

theorem ids_ne_of_mem {e : ClusterEntry} {id : List Char} (member : e ∈ s.config.clusters) (fresh : id ∉ s.config.ids) :
    e.id ≠ id := by
  intro same
  exact fresh (same ▸ List.mem_map_of_mem member)

theorem Consistent.of_files {files : List Char → Option (List UInt8)} (h : s.Consistent)
    (same : ∀ e ∈ s.config.clusters, files e.filename = s.files e.filename) :
    ({ s with files } : KubeconfigStore).Consistent where
  distinct := h.distinct
  active := h.active
  files e member := by
    show files e.filename = s.given e.id ∧ (s.given e.id).isSome = true
    rw [same e member]
    exact h.files e member

theorem Consistent.asJson {running started : Bool} (h : s.Consistent) :
    ({ s with config := s.config.asJson, running, started } : KubeconfigStore).Consistent where
  distinct := by
    rw [ClustersConfig.asJson_ids]
    exact h.distinct
  active := by
    rw [ClustersConfig.asJson_ids]
    exact h.active
  files e member := by
    obtain ⟨f, listed, id, filename⟩ := ClustersConfig.exists_of_mem_asJson member
    show s.files e.filename = s.given e.id ∧ (s.given e.id).isSome = true
    rw [id, filename]
    exact h.files f listed

theorem Consistent.persist {persisted : Bool} (h : s.Consistent) : (s.persist persisted).Consistent := by
  cases persisted with
  | false => exact h
  | true => exact ⟨h.distinct, h.active, h.files⟩

/-- A call that changes nothing. -/
theorem Kept.of_unchanged {call : StoreCall} (h : s.Consistent) (later : StoreCall.isStart call = false)
    (same : s.step call = s) : s.Kept call where
  consistent := by rwa [same]
  error _ := by rw [same]; exact ⟨rfl, rfl⟩
  restart started := by rw [later] at started; cases started

/-- The write of a file that is not listed. -/
theorem Sound.writeFile {id : List Char} {data : List UInt8} {write : FileWrite} (h : s.Sound)
    (fresh : id ∉ s.config.ids) : (s.writeFile (kubeconfigName id) data write).Sound := by
  have other : ∀ new, ∀ e ∈ s.config.clusters,
      Function.update s.files (kubeconfigName id) new e.filename = s.files e.filename := by
    intro new e member
    apply Function.update_of_ne
    rw [h.named e member]
    exact fun same => ids_ne_of_mem member fresh (kubeconfigName_inj.mp same)
  match write with
  | .written => exact ⟨h.toConsistent.of_files (other _), h.named, h.stored, h.running⟩
  | .failed none => exact h
  | .failed (some left) => exact ⟨h.toConsistent.of_files (other _), h.named, h.stored, h.running⟩

theorem Sound.stopped (h : s.Sound) : ({ s with running := false } : KubeconfigStore).Sound :=
  ⟨⟨h.distinct, h.active, h.files⟩, h.named, h.stored, nofun⟩

section Start

variable {legacy : Option (List UInt8)} {write : FileWrite} {persisted : Bool} {now : List Char}

/-- The manager with the legacy file as its only cluster. -/
def migrated (s : KubeconfigStore) (data : List UInt8) (now : List Char) : KubeconfigStore where
  config := ⟨(migratedEntry now).id, [migratedEntry now]⟩
  clustersJson := some (⟨(migratedEntry now).id, [migratedEntry now]⟩ : ClustersConfig).asJson
  files := Function.update s.files (migratedEntry now).filename (some data)
  running := true
  started := true
  given := Function.update s.given (migratedEntry now).id (some data)

theorem filter_of_found (found : legacy.getD [] ≠ []) : legacy.filter (· ≠ []) = some (legacy.getD []) := by
  cases legacy with
  | none => exact absurd rfl found
  | some data => simpa [Option.filter] using found

theorem start_migrating (h : s.Sound) (empty : s.config.clusters = []) (found : legacy.getD [] ≠ []) :
    s.start legacy .written true now = (s.migrated (legacy.getD []) now, false) := by
  unfold start
  rw [filter_of_found found, h.stored]
  dsimp only
  rw [if_pos (ClustersConfig.asJson_clusters_eq_nil.mpr empty)]
  rfl

theorem start_failing (h : s.Sound) (empty : s.config.clusters = []) (found : legacy.getD [] ≠ [])
    (fails : write = .written → persisted = false) :
    s.start legacy write persisted now =
      ({ s.writeFile (kubeconfigName "default".toList) (legacy.getD []) write with running := false }, true) := by
  unfold start
  rw [filter_of_found found, h.stored]
  dsimp only
  rw [if_pos (ClustersConfig.asJson_clusters_eq_nil.mpr empty)]
  cases write with
  | failed left => rfl
  | written =>
    rw [fails rfl]
    rfl

theorem start_restoring (h : s.Sound) (nothing : s.config.clusters = [] → legacy.getD [] = []) :
    s.start legacy write persisted now =
      ({ s with config := s.config.asJson, running := true, started := true }, false) := by
  unfold start
  rw [h.stored]
  dsimp only
  split
  next data found =>
    have listed : s.config.clusters ≠ [] := by
      intro empty
      have := nothing empty
      cases legacy with
      | none => cases found
      | some data =>
        have : data = [] := this
        subst this
        cases found
    rw [if_neg (listed ∘ ClustersConfig.asJson_clusters_eq_nil.mp)]
  next => rfl

theorem sound_migrated (s : KubeconfigStore) (data : List UInt8) (now : List Char) : (s.migrated data now).Sound where
  distinct := List.pairwise_singleton ..
  active := .inr (List.mem_singleton_self _)
  files e member := by
    rw [List.mem_singleton.mp member]
    simp [migrated]
  named e member := by
    rw [List.mem_singleton.mp member]
    rfl
  stored := rfl
  running _ := rfl

theorem Sound.restored (h : s.Sound) :
    ({ s with config := s.config.asJson, running := true, started := true } : KubeconfigStore).Sound where
  toConsistent := h.toConsistent.asJson
  named e member := by
    obtain ⟨f, listed, id, filename⟩ := ClustersConfig.exists_of_mem_asJson member
    rw [id, filename]
    exact h.named f listed
  stored := by
    rw [ClustersConfig.asJson_asJson]
    exact h.stored
  running _ := rfl

theorem sound_start (h : s.Sound) : (s.start legacy write persisted now).1.Sound := by
  by_cases nothing : s.config.clusters = [] → legacy.getD [] = []
  · rw [start_restoring h nothing]
    exact h.restored
  · obtain ⟨empty, found⟩ := Classical.not_imp.mp nothing
    by_cases fails : write = .written → persisted = false
    · rw [start_failing h empty found fails]
      exact (h.writeFile (by simp [ClustersConfig.ids, empty])).stopped
    · obtain ⟨rfl, stored⟩ := Classical.not_imp.mp fails
      rw [Bool.not_eq_false] at stored
      rw [stored, start_migrating h empty found]
      exact sound_migrated s _ now

/-- A start keeps its promise unless it migrates into an emptied list or reads a text other than it was. -/
theorem kept_start (h : s.Sound) :
    s.Kept (.start legacy write persisted now) ↔ s.Careful (.start legacy write persisted now) := by
  have sound : (s.step (.start legacy write persisted now)).Sound := sound_start h
  have careful : s.Careful (.start legacy write persisted now) ↔ (s.started = true →
      (s.config.clusters = [] → legacy.getD [] ≠ [] → write = .written → persisted = false) ∧
        s.config.asJson = s.config) := by
    rw [ClustersConfig.asJson_eq_self]
    rfl
  rw [careful]
  by_cases nothing : s.config.clusters = [] → legacy.getD [] = []
  · have result : s.start legacy write persisted now = _ := start_restoring h nothing
    constructor
    · intro kept started
      refine ⟨fun empty found => absurd (nothing empty) found, ?_⟩
      have := kept.restart rfl started
      rwa [step, exec, result] at this
    · intro allowed
      refine ⟨sound.toConsistent, ?_, fun _ started => ?_⟩
      · rw [exec, result]
        exact nofun
      · rw [step, exec, result]
        exact (allowed started).2
  · obtain ⟨empty, found⟩ := Classical.not_imp.mp nothing
    have same : s.config.asJson = s.config := by
      rw [ClustersConfig.asJson_eq_self, empty]
      exact fun _ member => absurd member List.not_mem_nil
    by_cases fails : write = .written → persisted = false
    · have result : s.start legacy write persisted now = _ := start_failing h empty found fails
      refine iff_of_true ⟨sound.toConsistent, fun _ => ?_, fun _ _ => ?_⟩ fun _ => ⟨fun _ _ => fails, same⟩
      · rw [step, exec, result]
        exact ⟨writeFile_config, writeFile_clustersJson⟩
      · rw [step, exec, result]
        exact writeFile_config
    · obtain ⟨rfl, stored⟩ := Classical.not_imp.mp fails
      rw [Bool.not_eq_false] at stored
      subst stored
      have result : s.start legacy .written true now = _ := start_migrating h empty found
      constructor
      · intro kept started
        have := kept.restart rfl started
        rw [step, exec, result] at this
        rw [← this] at empty
        cases empty
      · intro allowed
        refine ⟨sound.toConsistent, ?_, fun _ started => ?_⟩
        · rw [exec, result]
          exact nofun
        · exact absurd ((allowed started).1 empty found rfl) (by decide)

end Start

section Add

variable {name source originalPath : GoString} {data : List UInt8} {write : FileWrite} {persisted : Bool}
  {now : List Char}

/-- The store with one more cluster in memory, and its file. -/
def listing (s : KubeconfigStore) (name source : GoString) (data : List UInt8) (originalPath : GoString)
    (now : List Char) : KubeconfigStore :=
  let id := slugify name
  let clusters := s.config.clusters ++ [⟨id, name, source, originalPath, kubeconfigName id, now⟩]
  { s with
    config := ⟨if clusters.length = 1 then id else s.config.active, clusters⟩
    files := Function.update s.files (kubeconfigName id) (some data)
    given := Function.update s.given id (some data) }

theorem add_refused (refused : slugify name = [] ∨ slugify name ∈ s.config.ids) :
    s.add name source data originalPath write persisted now = (s, true) := by
  unfold add
  dsimp only
  split
  · rfl
  next named => rw [if_pos (refused.resolve_left named)]

theorem add_unwritten {left : Option (List UInt8)} (named : slugify name ≠ []) (fresh : slugify name ∉ s.config.ids) :
    s.add name source data originalPath (.failed left) persisted now =
      (s.writeFile (kubeconfigName (slugify name)) data (.failed left), true) := by
  unfold add
  dsimp only
  rw [if_neg named, if_neg fresh]

theorem add_written (named : slugify name ≠ []) (fresh : slugify name ∉ s.config.ids) :
    s.add name source data originalPath .written persisted now =
      ((s.listing name source data originalPath now).persist persisted, !persisted) := by
  unfold add
  dsimp only
  rw [if_neg named, if_neg fresh]
  rfl

theorem Sound.listing_consistent (h : s.Sound) (fresh : slugify name ∉ s.config.ids) :
    (s.listing name source data originalPath now).Consistent where
  distinct := by
    show (List.map _ (_ ++ [_])).Nodup
    rw [List.map_append]
    refine List.nodup_append.mpr ⟨h.distinct, List.pairwise_singleton .., fun a listed b new => ?_⟩
    have isNew : b = slugify name := List.mem_singleton.mp new
    exact fun same => fresh ((same.trans isNew) ▸ listed)
  active := by
    show (if _ then _ else _) = [] ∨ (if _ then _ else _) ∈ List.map _ (_ ++ [_])
    rw [List.map_append]
    split
    · exact .inr (List.mem_append_right _ (List.mem_singleton_self _))
    · exact h.active.imp_right (List.mem_append_left _)
  files e member := by
    show Function.update s.files _ _ e.filename = Function.update s.given _ _ e.id ∧ _
    cases List.mem_append.mp member with
    | inl listed =>
      have other := ids_ne_of_mem listed fresh
      rw [Function.update_of_ne other, h.named e listed, Function.update_of_ne (kubeconfigName_inj.not.mpr other),
        ← h.named e listed]
      refine ⟨(h.files e listed).1, ?_⟩
      show (Function.update s.given _ _ e.id).isSome = true
      rw [Function.update_of_ne other]
      exact (h.files e listed).2
    | inr new =>
      rw [List.mem_singleton.mp new]
      simp [listing]

theorem Sound.listed (h : s.Sound) (fresh : slugify name ∉ s.config.ids) :
    ((s.listing name source data originalPath now).persist true).Sound where
  toConsistent := (h.listing_consistent fresh).persist
  named e member := by
    cases List.mem_append.mp member with
    | inl listed => exact h.named e listed
    | inr new =>
      rw [List.mem_singleton.mp new]
  stored := rfl
  running := h.running

theorem kept_add (h : s.Sound) (up : s.running = true) :
    s.Kept (.add name source data originalPath write persisted now) ↔
      s.Careful (.add name source data originalPath write persisted now) := by
  have called : s.exec (.add name source data originalPath write persisted now) =
      s.add name source data originalPath write persisted now := if_pos up
  by_cases refused : slugify name = [] ∨ slugify name ∈ s.config.ids
  · rw [add_refused refused] at called
    refine iff_of_true (.of_unchanged h.toConsistent rfl (congrArg Prod.fst called)) ?_
    exact fun _ named fresh => absurd refused (not_or.mpr ⟨named, fresh⟩)
  · obtain ⟨named, fresh⟩ := not_or.mp refused
    cases write with
    | failed left =>
      rw [add_unwritten named fresh] at called
      refine iff_of_true ⟨?_, fun _ => ?_, nofun⟩ nofun
      · rw [step, called]
        exact (h.writeFile fresh).toConsistent
      · rw [step, called]
        exact ⟨writeFile_config, writeFile_clustersJson⟩
    | written =>
      rw [add_written named fresh] at called
      constructor
      · intro kept _ _ _ _
        by_contra unstored
        rw [Bool.not_eq_true] at unstored
        subst unstored
        have same := (kept.error (congrArg Prod.snd called)).1
        rw [step, called, persist_config] at same
        have := congrArg (·.clusters.length) same
        simp [listing] at this
      · intro allowed
        have := allowed up named fresh rfl
        subst this
        refine ⟨?_, ?_, nofun⟩
        · rw [step, called]
          exact (h.listed fresh).toConsistent
        · rw [called]
          exact nofun

end Add

section Activate

variable {id : List Char} {persisted : Bool}

theorem Consistent.activated (h : s.Consistent) (listed : id ∈ s.config.ids) :
    ({ s with config := { s.config with active := id } } : KubeconfigStore).Consistent :=
  ⟨h.distinct, .inr listed, h.files⟩

theorem Sound.activated (h : s.Sound) (listed : id ∈ s.config.ids) :
    (({ s with config := { s.config with active := id } } : KubeconfigStore).persist true).Sound where
  toConsistent := (h.toConsistent.activated listed).persist
  named := h.named
  stored := rfl
  running := h.running

theorem kept_activate (h : s.Sound) (up : s.running = true) :
    s.Kept (.activate id persisted) ↔ s.Careful (.activate id persisted) := by
  have called : s.exec (.activate id persisted) = s.activate id persisted := if_pos up
  unfold activate at called
  by_cases listed : id ∈ s.config.ids
  · rw [if_pos listed] at called
    have consistent : (s.step (.activate id persisted)).Consistent := by
      rw [step, called]
      exact (h.toConsistent.activated listed).persist
    constructor
    · intro kept _ _ other
      by_contra unstored
      rw [Bool.not_eq_true] at unstored
      subst unstored
      have same := (kept.error (congrArg Prod.snd called)).1
      rw [step, called, persist_config] at same
      exact other (congrArg (·.active) same)
    · intro allowed
      refine ⟨consistent, fun failed => ?_, nofun⟩
      rw [called] at failed
      have unstored : persisted = false := by simpa using failed
      -- an error is harmless when the cluster was active already
      have already : id = s.config.active := by
        by_contra other
        rw [allowed up listed other] at unstored
        cases unstored
      rw [step, called, unstored, already]
      exact ⟨rfl, rfl⟩
  · rw [if_neg listed] at called
    exact iff_of_true (.of_unchanged h.toConsistent rfl (congrArg Prod.fst called)) fun _ member => absurd member listed

end Activate

section Delete

variable {id : List Char} {removed persisted : Bool}

theorem find_id (listed : id ∈ s.config.ids) :
    ∃ e, s.config.clusters.find? (·.id = id) = some e ∧ e ∈ s.config.clusters ∧ e.id = id := by
  obtain ⟨f, member, rfl⟩ := List.mem_map.mp listed
  have found : (s.config.clusters.find? (·.id = f.id)).isSome = true := by
    rw [List.find?_isSome]
    exact ⟨f, member, by simp⟩
  obtain ⟨e, isE⟩ := Option.isSome_iff_exists.mp found
  exact ⟨e, isE, List.mem_of_find?_eq_some isE, by simpa using List.find?_some isE⟩

theorem find_none (absent : id ∉ s.config.ids) : s.config.clusters.find? (·.id = id) = none := by
  rw [List.find?_eq_none]
  intro e member same
  exact absent (of_decide_eq_true same ▸ List.mem_map_of_mem member)

/-- The store without a cluster in memory, nor its file if that could be removed. -/
def without (s : KubeconfigStore) (e : ClusterEntry) (removed : Bool) : KubeconfigStore :=
  { s with
    files := if removed then Function.update s.files e.filename none else s.files
    config := ⟨if s.config.active = e.id then [] else s.config.active, s.config.clusters.erase e⟩ }

theorem delete_listed {e : ClusterEntry} (found : s.config.clusters.find? (·.id = e.id) = some e) :
    s.delete e.id removed persisted = ((s.without e removed).persist persisted, !persisted) := by
  unfold delete
  rw [found]
  rfl

theorem Consistent.ids_ne {e f : ClusterEntry} (h : s.Consistent) (listed : e ∈ s.config.clusters)
    (left : f ∈ s.config.clusters.erase e) : f ∈ s.config.clusters ∧ f.id ≠ e.id := by
  have distinct : s.config.clusters.Nodup := List.Nodup.of_map _ h.distinct
  obtain ⟨other, member⟩ := distinct.mem_erase_iff.mp left
  exact ⟨member, fun same => other (List.inj_on_of_nodup_map h.distinct member listed same)⟩

theorem Sound.without_consistent {e : ClusterEntry} (h : s.Sound) (listed : e ∈ s.config.clusters) :
    (s.without e removed).Consistent where
  distinct := h.distinct.sublist (List.erase_sublist.map _)
  active := by
    show (if _ then _ else _) = [] ∨ (if _ then _ else _) ∈ _
    split
    · exact .inl rfl
    next other =>
      refine h.active.imp_right fun member => ?_
      obtain ⟨f, found, isActive⟩ := List.mem_map.mp member
      have apart : f ≠ e := fun same => other (by rw [← isActive, same])
      exact List.mem_map.mpr ⟨f, (List.mem_erase_of_ne apart).mpr found, isActive⟩
  files f left := by
    obtain ⟨member, other⟩ := h.toConsistent.ids_ne listed left
    have kept : (s.without e removed).files f.filename = s.files f.filename := by
      unfold without
      dsimp only
      split
      · apply Function.update_of_ne
        rw [h.named f member, h.named e listed]
        exact kubeconfigName_inj.not.mpr other
      · rfl
    rw [kept]
    exact h.files f member

theorem Sound.deleted {e : ClusterEntry} (h : s.Sound) (listed : e ∈ s.config.clusters) :
    ((s.without e removed).persist true).Sound where
  toConsistent := (h.without_consistent listed).persist
  named f left := h.named f (h.toConsistent.ids_ne listed left).1
  stored := rfl
  running := h.running

theorem kept_delete (h : s.Sound) (up : s.running = true) :
    s.Kept (.delete id removed persisted) ↔ s.Careful (.delete id removed persisted) := by
  have called : s.exec (.delete id removed persisted) = s.delete id removed persisted := if_pos up
  by_cases listed : id ∈ s.config.ids
  · obtain ⟨e, found, member, rfl⟩ := find_id listed
    rw [delete_listed found] at called
    constructor
    · intro kept _ _
      by_contra unstored
      rw [Bool.not_eq_true] at unstored
      subst unstored
      have same := (kept.error (congrArg Prod.snd called)).1
      rw [step, called, persist_config] at same
      have same := congrArg (·.clusters.length) same
      have shorter := List.length_erase_of_mem member
      have some := List.length_pos_of_mem member
      have same : (s.config.clusters.erase e).length = s.config.clusters.length := same
      omega
    · intro allowed
      have := allowed up listed
      subst this
      refine ⟨?_, ?_, nofun⟩
      · rw [step, called]
        exact (h.deleted member).toConsistent
      · rw [called]
        exact nofun
  · unfold delete at called
    rw [find_none listed] at called
    exact iff_of_true (.of_unchanged h.toConsistent rfl (congrArg Prod.fst called)) fun _ member => absurd member listed

end Delete

theorem Kept.of_stopped {call : StoreCall} (h : s.Sound) (later : StoreCall.isStart call = false)
    (down : ¬ s.running = true) : s.Kept call ∧ s.Careful call ∧ s.step call = s := by
  have same : s.step call = s := by
    cases call with
    | start => cases later
    | add => exact congrArg Prod.fst (if_neg down)
    | activate => exact congrArg Prod.fst (if_neg down)
    | delete => exact congrArg Prod.fst (if_neg down)
  refine ⟨.of_unchanged h.toConsistent later same, ?_, same⟩
  cases call with
  | start => cases later
  | add => exact fun up => absurd up down
  | activate => exact fun up => absurd up down
  | delete => exact fun up => absurd up down

theorem sound_add {name source originalPath : GoString} {data : List UInt8} {write : FileWrite} {persisted : Bool}
    {now : List Char} (h : s.Sound) (stored : slugify name ≠ [] → slugify name ∉ s.config.ids → write = .written → persisted = true) :
    (s.add name source data originalPath write persisted now).1.Sound := by
  by_cases refused : slugify name = [] ∨ slugify name ∈ s.config.ids
  · rw [add_refused refused]
    exact h
  · obtain ⟨named, fresh⟩ := not_or.mp refused
    cases write with
    | failed left =>
      rw [add_unwritten named fresh]
      exact h.writeFile fresh
    | written =>
      rw [add_written named fresh, stored named fresh rfl]
      exact h.listed fresh

theorem sound_activate {id : List Char} {persisted : Bool} (h : s.Sound)
    (stored : id ∈ s.config.ids → id ≠ s.config.active → persisted = true) : (s.activate id persisted).1.Sound := by
  unfold activate
  split
  next listed =>
    by_cases same : id = s.config.active
    · subst same
      cases persisted with
      | false => exact h
      | true => exact h.activated listed
    · rw [stored listed same]
      exact h.activated listed
  · exact h

theorem sound_delete {id : List Char} {removed persisted : Bool} (h : s.Sound)
    (stored : id ∈ s.config.ids → persisted = true) : (s.delete id removed persisted).1.Sound := by
  by_cases listed : id ∈ s.config.ids
  · obtain ⟨e, found, member, rfl⟩ := find_id listed
    rw [delete_listed found, stored listed]
    exact h.deleted member
  · unfold delete
    rw [find_none listed]
    exact h

theorem sound_step (h : s.Sound) (call : StoreCall) (careful : s.Careful call) : (s.step call).Sound := by
  cases later : StoreCall.isStart call with
  | true =>
    cases call with
    | start => exact sound_start h
    | _ => cases later
  | false =>
    by_cases up : s.running = true
    · unfold step
      cases call with
      | start => cases later
      | add =>
        rw [exec, if_pos up]
        exact sound_add h (careful up)
      | activate =>
        rw [exec, if_pos up]
        exact sound_activate h (careful up)
      | delete =>
        rw [exec, if_pos up]
        exact sound_delete h (careful up)
    · rw [(Kept.of_stopped h later up).2.2]
      exact h

theorem kept_iff (h : s.Sound) (call : StoreCall) : s.Kept call ↔ s.Careful call := by
  cases later : StoreCall.isStart call with
  | true =>
    cases call with
    | start => exact kept_start h
    | _ => cases later
  | false =>
    by_cases up : s.running = true
    · cases call with
      | start => cases later
      | add => exact kept_add h up
      | activate => exact kept_activate h up
      | delete => exact kept_delete h up
    · obtain ⟨kept, careful, -⟩ := Kept.of_stopped h later up
      exact iff_of_true kept careful

/-- A store keeps its promises in exactly the runs in which every change of the configuration is stored, no start
migrates into a list that was emptied, and what is restored is UTF-8. -/
theorem each_kept_iff_careful (files : List Char → Option (List UInt8)) (calls : List StoreCall) :
    EachStep step Kept { files } calls ↔ EachStep step Careful { files } calls := by
  have initial : ({ files } : KubeconfigStore).Sound :=
    ⟨⟨List.Pairwise.nil, .inl rfl, fun _ member => absurd member List.not_mem_nil⟩,
      fun _ member => absurd member List.not_mem_nil, rfl, nofun⟩
  exact eachStep_congr (I := Sound) (fun s call h => kept_iff h call) (fun s call h => sound_step h call) initial

/-- An `Add` that fails to store the list leaves its cluster in it, and a deleted default cluster is migrated again. -/
theorem not_kept_unstored :
    (¬ EachStep step Kept {} [.start none .written true [], .add [.char 'a'] [] [1] [] .written false []]) ∧
      ¬ EachStep step Kept {} [.start (some [1]) .written true [], .delete "default".toList true true,
        .start (some [1]) .written true []] := by
  constructor
  · intro each
    have same := congrArg (·.clusters.length) (each.2.1.error rfl).1
    revert same
    decide +kernel
  · intro each
    have same := congrArg (·.clusters.length) (each.2.2.1.restart rfl rfl)
    revert same
    decide +kernel

end KubeconfigStore

end kubeconfigKept

end H2kvm.Web
