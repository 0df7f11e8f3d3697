import Mathlib.Data.Rat.Defs
import H2kvm.Framework.Data
import H2kvm.Framework.Query
import H2kvm.Framework.Lines
import H2kvm.Framework.Yaml
import H2kvm.Framework.Run

namespace H2kvm.Profiles

open Framework Yaml

section loader

/-- What a loader finds around it and no edit of the custom directory changes. `safeLoad` is
`open` followed by `yaml.safe_load`, `child rel` the path `custom_dir / rel`, under which the
file is known, and `repr` Python's. -/
structure Environment where
  Content : Type
  yamlAvailable : Bool
  safeLoad : Content → Except PyException Yaml
  builtinPath : String
  builtinFile : Option Content
  customPath : String
  child : String → String
  repr : Yaml → String
  recursionLimit : Nat

structure File (Content : Type) where
  content : Content
  mtime : ℚ

/-- The files of the custom directory by path. -/
abbrev Directory (env : Environment) := Dict String (File env.Content)

/-- A part of the loading, with the files it looks for and what it raises. -/
abbrev Load (env : Environment) := ExceptT PyException (Query String (Option (File env.Content)))

/-- `_one_line` with its default limit. -/
def oneLine (s : String) : String :=
  let line := Text.join [' '] (Text.split s.toList)
  String.ofList (if line.length ≤ 600 then line else line.take 597 ++ ['.', '.', '.'])

def profileError (msg : String) : PyException :=
  { typeName := "ProfileError", isFatal := false
    message := if oneLine msg = "" then "ProfileError" else oneLine msg }

def noAttribute (v : Yaml) (attr : String) : PyException :=
  { typeName := "AttributeError", isFatal := false
    message := "'" ++ v.typeName ++ "' object has no attribute '" ++ attr ++ "'" }

def unhashable (v : Yaml) : PyException :=
  { typeName := "TypeError", isFatal := false, message := "unhashable type: '" ++ v.typeName ++ "'" }

def recursionError : PyException :=
  { typeName := "RecursionError", isFatal := false, message := "maximum recursion depth exceeded" }

variable {env : Environment}

/-- `except Exception as e: raise ProfileError(msg(e))` around `x`. -/
def wrapError {α : Type} (msg : String → String) (x : Load env α) : Load env α :=
  tryCatch x fun e => throw (if e.isFatal then e else profileError (msg e.message))

inductive ListMode where
  | replace
  | append
  | extendUnique
  deriving DecidableEq

/-- The loop of `extend_unique`: the first of equal items stays, an unhashable one always does. -/
def extendUnique : List Yaml → List Yaml → List Yaml
  | _, [] => []
  | seen, item :: items =>
    if item.hashableText.isNone then item :: extendUnique seen items
    else if seen.any (sameKey · item) then extendUnique seen items
    else item :: extendUnique (item :: seen) items

mutual

/-- The value `merge_dicts` gives a key that has the value `old` so far. -/
def mergeValue (mode : ListMode) (old : Option Yaml) : Yaml → Yaml
  | .map override =>
    match old with
    | some (.map base) => .map (mergeDicts mode base override)
    | _ => .map override
  | .seq items =>
    match old, mode with
    | some (.seq base), .append => .seq (base ++ items)
    | some (.seq base), .extendUnique => .seq (extendUnique [] (base ++ items))
    | _, _ => .seq items
  | v => v

def mergeField (mode : ListMode) (out : Fields) : Yaml × Yaml → Fields
  | (k, v) => out.set k (mergeValue mode (out.get? k) v)

/-- `Config.merge_dicts`, as the loop over the fields of `override` into `out`. -/
def mergeDicts (mode : ListMode) (out : Fields) : List (Yaml × Yaml) → Fields
  | [] => out
  | field :: rest => mergeDicts mode (mergeField mode out field) rest

end

variable (env)

/-- `_load_builtin_profiles`; the built-in file does not change, so what was read stays read. -/
def loadBuiltinProfiles : Except PyException Fields :=
  match env.builtinFile with
  | none => .ok []
  | some file =>
    let failed (e : PyException) : Except PyException Fields :=
      .error (if e.isFatal then e else profileError ("Failed to load built-in profiles: " ++ e.message))
    if !env.yamlAvailable then failed (profileError "PyYAML not installed. Install with: pip install PyYAML")
    else
      match env.safeLoad file with
      | .error e => failed e
      | .ok v =>
        match v.orEmptyDict with
        | .map profiles => .ok profiles
        | _ => failed (profileError ("Built-in profiles file must contain a dictionary: " ++ env.builtinPath))

/-- `available_profiles[name].copy()`. -/
def copyBuiltin (v : Yaml) : Except PyException Yaml :=
  match v with
  | .map _ | .seq _ | .set _ => .ok v
  | _ => .error (noAttribute v "copy")

/-- Looks for a file of the custom directory. -/
def readFile (path : String) : Load env (Option (File env.Content)) := ExceptT.lift (Query.read path)

/-- The parent profile: from the custom directory if it is given and has the file, else
from the built-in ones. -/
def parentData (available : Fields) (customDir : Bool) (parentName : Yaml) (text : String) : Load env Yaml := do
  let parentPath := env.child (text ++ ".yaml")
  let file ← if customDir then readFile env parentPath else pure none
  match file with
  | some file =>
    wrapError (fun e => "Failed to load parent profile '" ++ text ++ "' from " ++ parentPath ++ ": " ++ e) do
      if !env.yamlAvailable then throw (profileError "PyYAML not installed")
      return (← liftExcept (env.safeLoad file.content)).orEmptyDict
  | none =>
    match available.get? parentName with
    | none => throw (profileError ("Parent profile '" ++ text ++ "' not found (extended by profile)"))
    | some v => liftExcept (copyBuiltin v)

/-- `_resolve_inheritance`. The first argument counts the calls Python's stack still has room
for, so that the recursion ends here as it does there. -/
def resolveInheritance (available : Fields) (customDir : Bool) : Nat → List Yaml → Yaml → Load env Fields
  | 0, _, _ => throw recursionError
  | depth + 1, visited, .map fields =>
    match Fields.get? fields (.str "extends") with
    | none => return fields
    | some parentName =>
      if !parentName.truthy then return fields
      else
        match parentName.hashableText with
        | none => throw (unhashable parentName)
        | some text => do
          if visited.any (sameKey · parentName) then
            throw (profileError ("Circular inheritance detected: " ++ text ++ " already visited"))
          let parent ← parentData env available customDir parentName text
          let resolvedParent ← resolveInheritance available customDir depth (parentName :: visited) parent
          return (mergeDicts .replace resolvedParent fields).pop (.str "extends")
  | _ + 1, _, profile => throw (noAttribute profile "get")

/-- `_load_and_resolve` of a file of the custom directory. The path ends in `.yaml`, so the
branch for JSON files is never taken. -/
def loadAndResolve (profilePath : String) (file : File env.Content) : Load env Fields :=
  wrapError (fun e => "Failed to load profile from " ++ profilePath ++ ": " ++ e) do
    if !env.yamlAvailable then throw (profileError "PyYAML not installed. Install with: pip install PyYAML")
    let profile := (← liftExcept (env.safeLoad file.content)).orEmptyDict
    match profile with
    | .map _ => do
      let builtin ← liftExcept (loadBuiltinProfiles env)
      resolveInheritance env builtin true env.recursionLimit [] profile
    | _ => throw (profileError ("Profile must be a dictionary: " ++ profilePath))

def notFound (profileName : String) (builtin : Fields) : PyException :=
  let names := ", ".intercalate (builtin.map fun f => env.repr f.1)
  profileError ("Profile '" ++ profileName ++ "' not found. Available built-in profiles: [" ++ names ++ "]")

/-- The part of `load_profile` after the cache: the resolved profile with the file it came
from, if that is one of the custom directory. -/
def freshProfile (profileName : String) : Load env (Fields × Option String) := do
  let profilePath := env.child (profileName ++ ".yaml")
  match ← readFile env profilePath with
  | some file => return (← loadAndResolve env profilePath file, some profilePath)
  | none =>
    let builtin ← liftExcept (loadBuiltinProfiles env)
    match builtin.get? (.str profileName) with
    | some v =>
      let profile ← liftExcept (copyBuiltin v)
      return (← resolveInheritance env builtin false env.recursionLimit [] profile, none)
    | none => throw (notFound env profileName builtin)

end loader

section cache

structure ProfileCacheEntry where
  profileData : Fields
  mtime : Option ℚ
  sourcePath : Option String
  accessCount : Nat := 0

structure ProfileCache where
  enabled : Bool
  entries : Dict String ProfileCacheEntry := ∅
  hits : Nat := 0
  misses : Nat := 0
  invalidations : Nat := 0

variable {env : Environment}

/-- `is_valid`. An entry without a source path never expires. -/
def ProfileCacheEntry.isValid (dir : Directory env) (entry : ProfileCacheEntry) : Bool :=
  match entry.sourcePath with
  | none => true
  | some path =>
    match dir.lookup path with
    | none => false
    | some file => some file.mtime == entry.mtime

namespace ProfileCache

def get (dir : Directory env) (cache : ProfileCache) (key : String) : Option Fields × ProfileCache :=
  if !cache.enabled then (none, cache)
  else
    match cache.entries.lookup key with
    | none => (none, { cache with misses := cache.misses + 1 })
    | some entry =>
      if !entry.isValid dir then
        (none, { cache with entries := cache.entries.erase key
                            invalidations := cache.invalidations + 1
                            misses := cache.misses + 1 })
      else
        let accessed := { entry with accessCount := entry.accessCount + 1 }
        (some entry.profileData, { cache with entries := cache.entries.insert key accessed
                                              hits := cache.hits + 1 })

def put (dir : Directory env) (cache : ProfileCache) (key : String) (profileData : Fields)
    (sourcePath : Option String) : ProfileCache :=
  if !cache.enabled then cache
  else
    let mtime := (sourcePath.bind dir.lookup).map File.mtime
    { cache with entries := cache.entries.insert key { profileData, mtime, sourcePath } }

theorem get_some {dir : Directory env} {cache : ProfileCache} {key : String} {cached : Fields}
    (h : (cache.get dir key).1 = some cached) :
    ∃ entry, cache.entries.lookup key = some entry ∧ entry.isValid dir ∧ entry.profileData = cached := by
  simp only [get] at h
  split at h
  · cases h
  · cases found : cache.entries.lookup key with
    | none => simp [found] at h
    | some entry =>
      cases valid : entry.isValid dir with
      | false => simp [found, valid] at h
      | true => exact ⟨entry, rfl, valid, by simpa [found, valid] using h⟩

/-- `get` adds no entry and changes the access count of an entry at most. -/
theorem lookup_get {dir : Directory env} {cache : ProfileCache} {key k : String} {entry : ProfileCacheEntry}
    (h : (cache.get dir key).2.entries.lookup k = some entry) :
    ∃ n, cache.entries.lookup k = some { entry with accessCount := n } := by
  simp only [get] at h
  split at h
  · exact ⟨entry.accessCount, h⟩
  · cases found : cache.entries.lookup key with
    | none =>
      simp only [found] at h
      exact ⟨entry.accessCount, h⟩
    | some old =>
      cases valid : old.isValid dir with
      | false =>
        simp only [found, valid, Bool.not_false, if_true] at h
        have hk : k ≠ key := by
          intro hk
          rw [hk, AList.lookup_erase] at h
          cases h
        rw [AList.lookup_erase_ne hk] at h
        exact ⟨entry.accessCount, h⟩
      | true =>
        simp only [found, valid, Bool.not_true, Bool.false_eq_true, if_false] at h
        by_cases hk : k = key
        · subst hk
          rw [AList.lookup_insert] at h
          obtain rfl := Option.some.inj h
          exact ⟨old.accessCount, found⟩
        · rw [AList.lookup_insert_ne hk] at h
          exact ⟨entry.accessCount, h⟩

theorem lookup_put {dir : Directory env} {cache : ProfileCache} {key k : String} {data : Fields}
    {source : Option String} {entry : ProfileCacheEntry}
    (h : (cache.put dir key data source).entries.lookup k = some entry) :
    cache.entries.lookup k = some entry ∨ k = key ∧ entry.profileData = data := by
  simp only [put] at h
  split at h
  · exact .inl h
  · by_cases hk : k = key
    · subst hk
      rw [AList.lookup_insert] at h
      obtain rfl := Option.some.inj h
      exact .inr ⟨rfl, rfl⟩
    · rw [AList.lookup_insert_ne hk] at h
      exact .inl h

end ProfileCache

/-- The cache key of a profile of the custom directory. -/
def cacheKey (env : Environment) (profileName : String) : String := env.customPath ++ ":" ++ profileName

/-- `load_profile` with the custom directory. -/
def loadProfile (dir : Directory env) (cache : ProfileCache) (profileName : String) :
    Except PyException Fields × ProfileCache :=
  let key := cacheKey env profileName
  match cache.get dir key with
  | (some cached, cache) => (.ok cached, cache)
  | (none, cache) =>
    match (freshProfile env profileName).run.answer dir.lookup with
    | .error e => (.error e, cache)
    | .ok (profileData, sourcePath) => (.ok profileData, cache.put dir key profileData sourcePath)

end cache

end H2kvm.Profiles
