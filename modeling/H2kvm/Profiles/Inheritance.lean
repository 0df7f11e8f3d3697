import H2kvm.Framework.Lineage
import H2kvm.Framework.Yaml
import H2kvm.Profiles.Loader

namespace H2kvm.Profiles

open Framework Yaml

section inheritance

/-- The name in the `extends` of a profile; an empty one counts as none. -/
def extendsName (fields : Fields) : Option String :=
  match fields.get? (.str "extends") with
  | some (.str name) => if name = "" then none else some name
  | _ => none

/-- What `extends` has is a string. -/
def NamesParent (fields : Fields) : Prop := ∀ v, fields.get? (.str "extends") = some v → ∃ name, v = .str name

/-- The mapping a file of the custom directory holds. -/
def fileProfile {env : Environment} (file : File env.Content) : Option Fields :=
  match env.safeLoad file.content with
  | .ok v =>
    match v.orEmptyDict with
    | .map fields => some fields
    | _ => none
  | .error _ => none

section profiles

variable {env : Environment} (dir : Directory env) (available : Fields) (customDir : Bool)

/-- The profile of a name: from the custom directory first, then a built-in one. -/
def profileOf (name : String) : Option Fields :=
  match if customDir then dir.lookup (env.child (name ++ ".yaml")) else none with
  | some file => fileProfile file
  | none =>
    match available.get? (.str name) with
    | some (.map fields) => some fields
    | _ => none

/-- Every profile is a mapping that extends another one by name, or none. -/
structure Mappings : Prop where
  yaml : env.yamlAvailable = true
  custom : ∀ path file, dir.lookup path = some file → ∃ fields, fileProfile file = some fields ∧ NamesParent fields
  builtin : ∀ name v, available.get? (.str name) = some v → ∃ fields, v = .map fields ∧ NamesParent fields

/-- `_resolve_inheritance` on the files there are. -/
def resolve (depth : Nat) (visited : List String) (fields : Fields) : Except PyException Fields :=
  (resolveInheritance env available customDir depth (visited.map .str) (.map fields)).run.answer dir.lookup

/-- The deep merge of a line of profiles, from the most distant ancestor down. -/
def mergeDown : List Fields → Fields
  | [] => []
  | [root] => root
  | profile :: ancestors => mergeDicts .replace (mergeDown ancestors) profile

/-- What the code makes of the same line. -/
def resolved : List Fields → Fields
  | [] => []
  | [root] => root
  | profile :: ancestors => (mergeDicts .replace (resolved ancestors) profile).pop (.str "extends")

variable {dir available customDir} {fields p : Fields} {name : String} {visited : List String} {depth : Nat}

theorem profileOf_namesParent (profiles : Mappings dir available) (found : profileOf dir available customDir name = some p) :
    NamesParent p := by
  unfold profileOf at found
  split at found
  · rename_i file there
    have custom : dir.lookup (env.child (name ++ ".yaml")) = some file := by
      cases customDir with
      | true => simpa using there
      | false => cases there
    obtain ⟨fields, loaded, named⟩ := profiles.custom _ _ custom
    rw [loaded, Option.some.injEq] at found
    exact found ▸ named
  · cases there : available.get? (.str name) with
    | none => simp [there] at found
    | some v =>
      obtain ⟨fields, rfl, named⟩ := profiles.builtin _ _ there
      simp only [there, Option.some.injEq] at found
      exact found ▸ named

theorem resolve_last (named : NamesParent fields) (last : extendsName fields = none) :
    resolve dir available customDir (depth + 1) visited fields = .ok fields := by
  unfold resolve resolveInheritance
  unfold extendsName at last
  cases value : fields.get? (.str "extends") with
  | none => rfl
  | some v =>
    obtain ⟨name, rfl⟩ := named v value
    have empty : name = "" := by simpa [value] using last
    subst empty
    rfl

theorem extendsName_eq_some :
    extendsName fields = some name ↔ fields.get? (.str "extends") = some (.str name) ∧ name ≠ "" := by
  unfold extendsName
  split
  · rename_i other value
    rw [value]
    split
    · rename_i empty
      simp only [empty, reduceCtorEq, false_iff, not_and, not_not, Option.some.injEq, Yaml.str.injEq]
      exact fun same => same.symm
    · rename_i nonempty
      simp only [Option.some.injEq, Yaml.str.injEq]
      constructor
      · rintro rfl
        exact ⟨rfl, nonempty⟩
      · exact And.left
  · rename_i none
    refine iff_of_false nofun ?_
    rintro ⟨value, -⟩
    exact none name value

theorem any_sameKey : (visited.map Yaml.str).any (sameKey · (.str name)) = decide (name ∈ visited) := by
  rw [Bool.eq_iff_iff, List.any_map, List.any_eq_true, decide_eq_true_eq]
  constructor
  · rintro ⟨other, mem, same⟩
    rw [Function.comp_apply, Fields.sameKey_str_eq, decide_eq_true_eq] at same
    exact same ▸ mem
  · exact fun mem => ⟨name, mem, by simp [Fields.sameKey_str_eq]⟩

/-- What the code does at a profile that extends one of this name. -/
theorem resolve_named (named : extendsName fields = some name) :
    resolve dir available customDir (depth + 1) visited fields =
      if name ∈ visited then .error (profileError ("Circular inheritance detected: " ++ name ++ " already visited"))
      else
        match (parentData env available customDir (.str name) name).run.answer dir.lookup with
        | .error e => .error e
        | .ok parent =>
          ((resolveInheritance env available customDir depth ((name :: visited).map .str) parent).run.answer dir.lookup).map
            fun r => (mergeDicts .replace r fields).pop (.str "extends") := by
  obtain ⟨value, nonempty⟩ := extendsName_eq_some.mp named
  have truthy : (Yaml.str name).truthy = true := by simp [Yaml.truthy, nonempty]
  rw [resolve, resolveInheritance]
  simp only [value, truthy, Bool.not_true, Bool.false_eq_true, if_false, hashableText, any_sameKey, decide_eq_true_eq]
  split
  · rfl
  · rw [Query.answer_run_bind]
    cases (parentData env available customDir (.str name) name).run.answer dir.lookup with
    | error e => rfl
    | ok parent =>
      dsimp only
      rw [Query.answer_run_bind, List.map_cons]
      cases (resolveInheritance env available customDir depth (.str name :: visited.map .str) parent).run.answer dir.lookup <;> rfl

theorem answer_builtin (profiles : Mappings dir available) :
    (match available.get? (.str name) with
      | none => throw (profileError ("Parent profile '" ++ name ++ "' not found (extended by profile)"))
      | some v => liftExcept (copyBuiltin v) : Load env Yaml).run.answer dir.lookup =
      match (match available.get? (.str name) with
        | some (.map fields) => some fields
        | _ => none) with
      | some p => .ok (.map p)
      | none => .error (profileError ("Parent profile '" ++ name ++ "' not found (extended by profile)")) := by
  cases there : available.get? (.str name) with
  | none => rfl
  | some v =>
    obtain ⟨fields, rfl, -⟩ := profiles.builtin name v there
    rfl

/-- The parent is the profile of the name, or there is none. -/
theorem answer_parentData (profiles : Mappings dir available) :
    (parentData env available customDir (.str name) name).run.answer dir.lookup =
      match profileOf dir available customDir name with
      | some p => .ok (.map p)
      | none => .error (profileError ("Parent profile '" ++ name ++ "' not found (extended by profile)")) := by
  rw [parentData, profileOf]
  cases customDir with
  | false => exact answer_builtin profiles
  | true =>
    have asked : (readFile env (env.child (name ++ ".yaml"))).run.answer dir.lookup =
        .ok (dir.lookup (env.child (name ++ ".yaml"))) := rfl
    simp only [if_true]
    rw [Query.answer_run_bind, asked]
    cases there : dir.lookup (env.child (name ++ ".yaml")) with
    | none => exact answer_builtin profiles
    | some file =>
      obtain ⟨fields, loaded, -⟩ := profiles.custom _ file there
      simp only [loaded]
      unfold fileProfile at loaded
      cases read : env.safeLoad file.content with
      | error e => simp [read] at loaded
      | ok v =>
        have mapping : v.orEmptyDict = .map fields := by
          rw [read] at loaded
          cases value : v.orEmptyDict <;> simp_all
        rw [profiles.yaml, ← mapping]
        rfl

theorem resolve_met (named : extendsName fields = some name) (met : name ∈ visited) :
    ∃ msg, resolve dir available customDir (depth + 1) visited fields = .error (profileError msg) :=
  ⟨_, (resolve_named named).trans (if_pos met)⟩

theorem resolve_missing (profiles : Mappings dir available) (named : extendsName fields = some name)
    (new : name ∉ visited) (missing : profileOf dir available customDir name = none) :
    ∃ msg, resolve dir available customDir (depth + 1) visited fields = .error (profileError msg) := by
  refine ⟨"Parent profile '" ++ name ++ "' not found (extended by profile)", ?_⟩
  rw [resolve_named named, if_neg new, answer_parentData profiles, missing]

theorem resolve_parent (profiles : Mappings dir available) (named : extendsName fields = some name)
    (new : name ∉ visited) (found : profileOf dir available customDir name = some p) :
    resolve dir available customDir (depth + 1) visited fields =
      (resolve dir available customDir depth (name :: visited) p).map
        fun r => (mergeDicts .replace r fields).pop (.str "extends") := by
  rw [resolve_named named, if_neg new, answer_parentData profiles, found]
  rfl

/-- A line that can be followed is merged as the code does it. -/
theorem resolve_of_lineage (profiles : Mappings dir available) (named : NamesParent fields) {line : List Fields}
    (run : lineage extendsName (profileOf dir available customDir) depth visited fields = .ok line) :
    resolve dir available customDir depth visited fields = .ok (resolved line) := by
  induction depth generalizing visited fields line with
  | zero => cases run
  | succ depth ih =>
    cases parent : extendsName fields with
    | none =>
      rw [lineage_last parent, Except.ok.injEq] at run
      subst run
      exact resolve_last named parent
    | some name =>
      by_cases met : name ∈ visited
      · rw [lineage_met parent met] at run
        cases run
      · cases found : profileOf dir available customDir name with
        | none =>
          rw [lineage_missing parent met found] at run
          cases run
        | some p =>
          rw [lineage_parent parent met found] at run
          cases above : lineage extendsName (profileOf dir available customDir) depth (name :: visited) p with
          | error e =>
            rw [above] at run
            cases run
          | ok rest =>
            rw [above] at run
            obtain rfl := Except.ok.inj run
            rw [resolve_parent profiles parent met found, ih (profileOf_namesParent profiles found) above]
            cases rest with
            | nil =>
              have first := lineage_ok above 0
              cases first
            | cons q rest => rfl

theorem resolve_of_obstacle (profiles : Mappings dir available) {e : LineageError} (room : e ≠ .exhausted)
    (run : lineage extendsName (profileOf dir available customDir) depth visited fields = .error e) :
    ∃ msg, resolve dir available customDir depth visited fields = .error (profileError msg) := by
  induction depth generalizing visited fields with
  | zero =>
    cases run
    exact absurd rfl room
  | succ depth ih =>
    cases parent : extendsName fields with
    | none =>
      rw [lineage_last parent] at run
      cases run
    | some name =>
      by_cases met : name ∈ visited
      · exact resolve_met parent met
      · cases found : profileOf dir available customDir name with
        | none => exact resolve_missing profiles parent met found
        | some p =>
          rw [lineage_parent parent met found, map_eq_error_iff] at run
          obtain ⟨msg, raised⟩ := ih run
          exact ⟨msg, by rw [resolve_parent profiles parent met found, raised]; rfl⟩

end profiles

section merging

variable {mode : ListMode} {base base' fields : Fields} {k : Yaml}

theorem pop_mergeDicts_congr (same : base.pop k = base'.pop k) :
    (mergeDicts mode base fields).pop k = (mergeDicts mode base' fields).pop k := by
  induction fields generalizing base base' with
  | nil => simpa only [mergeDicts] using same
  | cons f rest ih =>
    rw [mergeDicts, mergeDicts]
    apply ih
    rw [mergeField, mergeField]
    cases here : sameKey f.1 k with
    | true => rw [Fields.pop_set_self here, Fields.pop_set_self here, same]
    | false =>
      have apart : sameKey k f.1 ≠ true := by
        intro h
        rw [sameKey_symm h] at here
        cases here
      have value : base.get? f.1 = base'.get? f.1 := by
        have left := Fields.find_pop base k f.1
        have right := Fields.find_pop base' k f.1
        rw [if_neg apart] at left right
        rw [← left, same, right]
      rw [Fields.pop_set_other here, Fields.pop_set_other here, same, value]

theorem pop_pop (d : Fields) : (d.pop k).pop k = d.pop k := by
  simp [Fields.pop, List.filter_filter]

theorem pop_resolved (line : List Fields) :
    (resolved line).pop (.str "extends") = (mergeDown line).pop (.str "extends") := by
  induction line with
  | nil => rfl
  | cons profile rest ih =>
    cases rest with
    | nil => rfl
    | cons p rest =>
      show ((mergeDicts .replace (resolved (p :: rest)) profile).pop _).pop _ =
        (mergeDicts .replace (mergeDown (p :: rest)) profile).pop _
      rw [pop_pop, pop_mergeDicts_congr ih]

end merging

section names

variable {env : Environment} (dir : Directory env) (available : Fields)

/-- The names that a profile extends. -/
def parentNames (start : Fields) : List String :=
  (extendsName start).toList ++ dir.entries.filterMap (fun entry => (fileProfile entry.2).bind extendsName) ++
    available.filterMap fun f => match f.2 with
      | .map fields => extendsName fields
      | _ => none

variable {dir available} {customDir : Bool} {start p : Fields} {name m : String}

theorem length_parentNames : (parentNames dir available start).length ≤ dir.entries.length + available.length + 1 := by
  have own : (extendsName start).toList.length ≤ 1 := by cases extendsName start <;> simp
  have custom := List.length_filterMap_le
    (fun entry : Sigma fun _ : String => File env.Content => (fileProfile entry.2).bind extendsName) dir.entries
  have builtin := List.length_filterMap_le (fun f : Yaml × Yaml => match f.2 with
    | .map fields => extendsName fields
    | _ => none) available
  rw [parentNames, List.length_append, List.length_append]
  omega

theorem mem_parentNames (from' : p = start ∨ ∃ n, profileOf dir available customDir n = some p)
    (named : extendsName p = some m) : m ∈ parentNames dir available start := by
  rw [parentNames, List.mem_append, List.mem_append]
  rcases from' with rfl | ⟨n, found⟩
  · exact .inl (.inl (by simp [named]))
  · unfold profileOf at found
    split at found
    · rename_i file there
      have custom : dir.lookup (env.child (n ++ ".yaml")) = some file := by
        cases customDir with
        | true => simpa using there
        | false => cases there
      refine .inl (.inr (List.mem_filterMap.mpr ⟨⟨_, file⟩, AList.mem_lookup_iff.mp custom, ?_⟩))
      simp [found, named]
    · cases there : available.get? (.str n) with
      | none => simp [there] at found
      | some v =>
        obtain ⟨f, mem, rfl⟩ := Option.map_eq_some_iff.mp there
        refine .inr (List.mem_filterMap.mpr ⟨f, List.mem_of_find?_eq_some mem, ?_⟩)
        rw [there] at found
        cases value : f.2 with
        | map fields =>
          simp only [value, Option.some.injEq] at found
          exact found ▸ named
        | _ => simp [value] at found

end names

/-- With room for a call for each profile and two more, the inheritance is resolved: there is a
`ProfileError` just where a parent is missing or a name comes back, and else the deep merge of the
line. -/
theorem resolveInheritance_spec {env : Environment} {dir : Directory env} {available : Fields}
    (profiles : Mappings dir available) (customDir : Bool) {start : Fields} (named : NamesParent start) {depth : Nat}
    (room : dir.entries.length + available.length + 2 ≤ depth) :
    ((∃ msg, resolve dir available customDir depth [] start = .error (profileError msg)) ↔
        Missing extendsName (profileOf dir available customDir) start ∨
          Revisits extendsName (profileOf dir available customDir) start) ∧
      (¬ (Missing extendsName (profileOf dir available customDir) start ∨
          Revisits extendsName (profileOf dir available customDir) start) →
        ∃ line result, resolve dir available customDir depth [] start = .ok result ∧
          (∀ k, (line)[k]? = ancestor extendsName (profileOf dir available customDir) k start) ∧
            result.pop (.str "extends") = (mergeDown line).pop (.str "extends")) := by
  have ends : lineage extendsName (profileOf dir available customDir) depth [] start ≠ .error .exhausted := by
    have known (p : Fields) (m : String) (from' : p = start ∨ ∃ n, profileOf dir available customDir n = some p) :
        extendsName p = some m → m ∈ parentNames dir available start := mem_parentNames from'
    have few : (parentNames dir available start).length ≤ dir.entries.length + available.length + 1 := length_parentNames
    apply lineage_ne_exhausted known
    · rw [List.length_nil]
      omega
    · exact List.nodup_nil
    · exact List.nil_subset _
  have obstacle := lineage_error_iff ends
  have unmet : ¬ Names extendsName (profileOf dir available customDir) [] start := by
    rintro ⟨k, b, n, mem, -⟩
    cases mem
  simp only [unmet, or_false] at obstacle
  cases run : lineage extendsName (profileOf dir available customDir) depth [] start with
  | ok line =>
    have free : ¬ (Missing extendsName (profileOf dir available customDir) start ∨
        Revisits extendsName (profileOf dir available customDir) start) := by
      rw [← obstacle, run]
      rintro ⟨e, same⟩
      cases same
    have result := resolve_of_lineage profiles named run
    refine ⟨iff_of_false ?_ free, fun _ => ⟨line, _, result, lineage_ok run, pop_resolved line⟩⟩
    rintro ⟨msg, raised⟩
    rw [result] at raised
    cases raised
  | error e =>
    have blocked := obstacle.mp ⟨e, run⟩
    have raised := resolve_of_obstacle profiles (fun same => ends (same ▸ run)) run
    exact ⟨iff_of_true raised blocked, fun free => absurd blocked free⟩

/-- No custom directory. -/
def builtinOnly : Environment where
  Content := Empty
  yamlAvailable := true
  safeLoad := nofun
  builtinPath := "builtin_profiles.yaml"
  builtinFile := none
  customPath := ""
  child := id
  repr _ := ""
  recursionLimit := 1000

def minimal : Fields := [(.str "compress", .bool false), (.str "format", .str "raw")]

def fast : Fields := [(.str "extends", .str "minimal"), (.str "format", .str "qcow2")]

theorem resolveInheritance_spec_fast : ∃ result,
    resolve (∅ : Directory builtinOnly) [(.str "minimal", .map minimal)] false 1000 [] fast = .ok result ∧
      result.pop (.str "extends") = [(.str "compress", .bool false), (.str "format", .str "qcow2")] := by
  have named : NamesParent fast := by
    intro v value
    cases value
    exact ⟨_, rfl⟩
  have mappings : Mappings (∅ : Directory builtinOnly) [(.str "minimal", .map minimal)] := by
    refine ⟨rfl, nofun, fun name v value => ?_⟩
    rw [Fields.get?_cons, Fields.sameKey_str_eq] at value
    split at value
    · cases value
      exact ⟨minimal, rfl, nofun⟩
    · cases value
  have room : (∅ : Directory builtinOnly).entries.length + [(Yaml.str "minimal", Yaml.map minimal)].length + 2 ≤ 1000 := by
    decide
  obtain ⟨raises, resolves⟩ := resolveInheritance_spec mappings false named room
  have ran : resolve (∅ : Directory builtinOnly) [(.str "minimal", .map minimal)] false 1000 [] fast =
      .ok [(.str "compress", .bool false), (.str "format", .str "qcow2")] := rfl
  obtain ⟨line, result, ok, all, merged⟩ := resolves fun blocked => by
    obtain ⟨msg, raised⟩ := raises.mpr blocked
    cases ran.symm.trans raised
  have both : line = [fast, minimal] := by
    apply List.ext_getElem?
    intro k
    rw [all]
    match k with
    | 0 => rfl
    | 1 => rfl
    | k + 2 => rfl
  refine ⟨result, ok, ?_⟩
  rw [merged, both]
  rfl

end inheritance

section transparency

/-- An edit of a file of the custom directory. -/
inductive Edit (env : Environment) where
  | create (path : String) (file : File env.Content)
  | modify (path : String) (file : File env.Content)
  | delete (path : String)

inductive Action (env : Environment) where
  | edit (e : Edit env)
  | load (profileName : String)

/-- The custom directory and the cache of one loader. -/
structure Session (env : Environment) where
  dir : Directory env
  cache : ProfileCache

variable {env : Environment}

namespace Edit

def path : Edit env → String
  | .create path _ | .modify path _ | .delete path => path

def apply (dir : Directory env) : Edit env → Directory env
  | .create path file => dir.insert path file
  | .modify path file => if path ∈ dir then dir.insert path file else dir
  | .delete path => dir.erase path

theorem lookup_apply_of_ne {dir : Directory env} {e : Edit env} {path : String} (h : path ≠ e.path) :
    (e.apply dir).lookup path = dir.lookup path := by
  cases e with
  | create p file => exact AList.lookup_insert_ne h
  | modify p file =>
    show (if p ∈ dir then dir.insert p file else dir).lookup path = dir.lookup path
    split
    · exact AList.lookup_insert_ne h
    · rfl
  | delete p => exact AList.lookup_erase_ne h

end Edit

namespace Session

/-- A loader with caching enabled that has loaded nothing. -/
def initial (dir : Directory env) : Session env := ⟨dir, { enabled := true }⟩

def step (s : Session env) : Action env → Session env
  | .edit e => { s with dir := e.apply s.dir }
  | .load profileName => { s with cache := (loadProfile s.dir s.cache profileName).2 }

end Session

/-- What a loader with caching disabled returns. -/
def uncached (dir : Directory env) (profileName : String) : Except PyException Fields :=
  (loadProfile dir { enabled := false } profileName).1

/-- The files a loader with caching disabled looks for. -/
def lookedFor (dir : Directory env) (profileName : String) : List String :=
  (freshProfile env profileName).run.asked dir.lookup

/-- A load returns what it would return without the cache. -/
def LoadAgrees (s : Session env) : Action env → Prop
  | .edit _ => True
  | .load profileName => (loadProfile s.dir s.cache profileName).1 = uncached s.dir profileName

/-- A file is created where there is none, and modified with a new time stamp. -/
def NewMtime (s : Session env) : Action env → Prop
  | .edit (.create path _) => path ∉ s.dir
  | .edit (.modify path file) => ∃ old, s.dir.lookup path = some old ∧ file.mtime ≠ old.mtime
  | .edit (.delete _) | .load _ => True

/-- An edit touches no file that a load of a profile in the cache looked for, unless it
makes the entry invalid; and it makes no entry valid again. -/
def SparesEntries (s : Session env) : Action env → Prop
  | .load _ => True
  | .edit e => ∀ profileName entry, s.cache.entries.lookup (cacheKey env profileName) = some entry →
      entry.isValid (e.apply s.dir) → entry.isValid s.dir ∧ e.path ∉ lookedFor s.dir profileName

/-- Every valid entry holds what a load without the cache returns. -/
def EntriesAgree (s : Session env) : Prop :=
  ∀ profileName entry, s.cache.entries.lookup (cacheKey env profileName) = some entry →
    entry.isValid s.dir → uncached s.dir profileName = .ok entry.profileData

theorem uncached_eq (dir : Directory env) (profileName : String) :
    uncached dir profileName = ((freshProfile env profileName).run.answer dir.lookup).map Prod.fst := by
  simp only [uncached, loadProfile, ProfileCache.get, Bool.not_false, if_true]
  cases (freshProfile env profileName).run.answer dir.lookup <;> rfl

theorem uncached_congr {dir dir' : Directory env} {profileName : String}
    (h : ∀ path ∈ lookedFor dir profileName, dir'.lookup path = dir.lookup path) :
    uncached dir' profileName = uncached dir profileName := by
  rw [uncached_eq, uncached_eq, Query.answer_congr h]

theorem cacheKey_inj {a b : String} (h : cacheKey env a = cacheKey env b) : a = b := by
  have chars := congrArg String.toList h
  simp only [cacheKey, String.toList_append, List.append_cancel_left_eq] at chars
  exact String.toList_inj.mp chars

theorem edit_keeps_agreement {s : Session env} {e : Edit env} (hs : EntriesAgree s)
    (spares : SparesEntries s (.edit e)) : EntriesAgree (s.step (.edit e)) := by
  intro profileName entry found valid
  obtain ⟨wasValid, untouched⟩ := spares profileName entry found valid
  have same : uncached (e.apply s.dir) profileName = uncached s.dir profileName := by
    apply uncached_congr
    intro path asked
    apply Edit.lookup_apply_of_ne
    intro hp
    exact untouched (hp ▸ asked)
  exact same.trans (hs profileName entry found wasValid)

theorem loadProfile_agrees {s : Session env} (hs : EntriesAgree s) (profileName : String) :
    (loadProfile s.dir s.cache profileName).1 = uncached s.dir profileName := by
  have fresh := uncached_eq s.dir profileName
  rcases got : s.cache.get s.dir (cacheKey env profileName) with ⟨_ | cached, cache⟩
  · simp only [loadProfile, got, fresh]
    cases (freshProfile env profileName).run.answer s.dir.lookup <;> rfl
  · obtain ⟨entry, found, valid, same⟩ := ProfileCache.get_some (congrArg Prod.fst got)
    simp only [loadProfile, got, hs profileName entry found valid, same]

theorem lookup_loadProfile {dir : Directory env} {cache : ProfileCache} {profileName key : String}
    {entry : ProfileCacheEntry} (h : (loadProfile dir cache profileName).2.entries.lookup key = some entry) :
    (∃ n, cache.entries.lookup key = some { entry with accessCount := n }) ∨
      key = cacheKey env profileName ∧ uncached dir profileName = .ok entry.profileData := by
  have fresh := uncached_eq dir profileName
  have before : (cache.get dir (cacheKey env profileName)).2.entries.lookup key = some entry →
      ∃ n, cache.entries.lookup key = some { entry with accessCount := n } := ProfileCache.lookup_get
  rcases got : cache.get dir (cacheKey env profileName) with ⟨_ | cached, after⟩
  · rw [got] at before
    cases loaded : (freshProfile env profileName).run.answer dir.lookup with
    | error e =>
      simp only [loadProfile, got, loaded] at h
      exact .inl (before h)
    | ok result =>
      simp only [loadProfile, got, loaded] at h
      rcases ProfileCache.lookup_put h with kept | ⟨hk, made⟩
      · exact .inl (before kept)
      · rw [loaded] at fresh
        exact .inr ⟨hk, by rw [fresh, made]; rfl⟩
  · simp only [loadProfile, got] at h
    rw [got] at before
    exact .inl (before h)

theorem load_keeps_agreement {s : Session env} (hs : EntriesAgree s) (profileName : String) :
    EntriesAgree (s.step (.load profileName)) := by
  intro name entry found valid
  rcases lookup_loadProfile found with ⟨n, was⟩ | ⟨hk, loaded⟩
  · exact hs name { entry with accessCount := n } was valid
  · obtain rfl := cacheKey_inj hk
    exact loaded

theorem step_keeps_agreement (s : Session env) (a : Action env) (hs : EntriesAgree s) (spares : SparesEntries s a) :
    EntriesAgree (s.step a) ∧ LoadAgrees s a := by
  cases a with
  | edit e => exact ⟨edit_keeps_agreement hs spares, trivial⟩
  | load profileName => exact ⟨load_keeps_agreement hs profileName, loadProfile_agrees hs profileName⟩

theorem entriesAgree_initial (dir : Directory env) : EntriesAgree (Session.initial dir) := by
  intro name entry found
  simp [Session.initial] at found

/-- As long as no edit touches a file a valid entry rests on, the cache cannot be seen. -/
theorem cache_transparent_of_spared (dir : Directory env) (actions : List (Action env))
    (spared : EachStep Session.step SparesEntries (Session.initial dir) actions) :
    EachStep Session.step LoadAgrees (Session.initial dir) actions :=
  eachStep_of_invariant step_keeps_agreement (entriesAgree_initial dir) spared

/-- A directory whose profiles extend `base`, as PyYAML reads its files. -/
def siteProfiles : Environment where
  Content := String
  yamlAvailable := true
  safeLoad
    | "extends: base\n" => .ok (.map [(.str "extends", .str "base")])
    | "format: raw\n" => .ok (.map [(.str "format", .str "raw")])
    | "format: qcow2\n" => .ok (.map [(.str "format", .str "qcow2")])
    | _ => .ok .null
  builtinPath := "/usr/lib/h2kvm/builtin_profiles.yaml"
  builtinFile := none
  customPath := "/etc/h2kvm/profiles"
  child rel := "/etc/h2kvm/profiles/" ++ rel
  repr
    | .str s => "'" ++ s ++ "'"
    | _ => ""
  recursionLimit := 1000

def siteWeb : String := "/etc/h2kvm/profiles/web.yaml"

def siteBase : String := "/etc/h2kvm/profiles/base.yaml"

/-- `web` is loaded, modified itself, and loaded again. -/
def profileModified : List (Action siteProfiles) :=
  [.edit (.create siteBase ⟨"format: raw\n", 1⟩), .edit (.create siteWeb ⟨"extends: base\n", 1⟩), .load "web",
    .edit (.modify siteWeb ⟨"format: qcow2\n", 2⟩), .load "web"]

theorem cache_transparent_profileModified :
    EachStep Session.step LoadAgrees (Session.initial ∅) profileModified := by
  apply cache_transparent_of_spared
  refine ⟨?_, ?_, trivial, ?_, trivial, trivial⟩
  · intro name entry found
    simp [Session.initial] at found
  · intro name entry found
    simp [Session.initial, Session.step] at found
  · intro name entry found valid
    have cached : AList.lookup (cacheKey siteProfiles name) (AList.insert (cacheKey siteProfiles "web")
      ⟨[(.str "format", .str "raw")], some 1, some siteWeb, 0⟩ (∅ : Dict String ProfileCacheEntry)) = some entry := found
    by_cases hk : cacheKey siteProfiles name = cacheKey siteProfiles "web"
    · rw [hk, AList.lookup_insert] at cached
      obtain rfl := Option.some.inj cached
      exact absurd valid (by decide)
    · rw [AList.lookup_insert_ne hk] at cached
      simp at cached

/-- `web` is loaded, its parent `base` is modified, and `web` is loaded again. -/
def parentModified : List (Action siteProfiles) :=
  [.edit (.create siteBase ⟨"format: raw\n", 1⟩), .edit (.create siteWeb ⟨"extends: base\n", 1⟩), .load "web",
    .edit (.modify siteBase ⟨"format: qcow2\n", 2⟩), .load "web"]

/-- A profile goes on being served as it was before its parent changed. -/
theorem stale_after_parent_modified :
    EachStep Session.step NewMtime (Session.initial ∅) parentModified ∧
      ¬ EachStep Session.step LoadAgrees (Session.initial ∅) parentModified := by
  constructor
  · refine ⟨?_, ?_, trivial, ⟨⟨"format: raw\n", 1⟩, rfl, ?_⟩, trivial, trivial⟩
    · show siteBase ∉ (∅ : Directory siteProfiles)
      decide
    · show siteWeb ∉ (∅ : Directory siteProfiles).insert siteBase ⟨"format: raw\n", 1⟩
      decide
    · decide
  · intro h
    have cached : (loadProfile (run Session.step (Session.initial ∅) (parentModified.take 4)).dir
      (run Session.step (Session.initial ∅) (parentModified.take 4)).cache "web").1 =
        .ok [(.str "format", .str "raw")] := by rfl
    have fresh : uncached (run Session.step (Session.initial ∅) (parentModified.take 4)).dir "web" =
        .ok [(.str "format", .str "qcow2")] := by rfl
    have agree := (eachStep_iff_prefixes.mp h) (parentModified.take 4) (.load "web") (by simp [parentModified])
    have same := cached.symm.trans (agree.trans fresh)
    simp at same

end transparency

end H2kvm.Profiles
