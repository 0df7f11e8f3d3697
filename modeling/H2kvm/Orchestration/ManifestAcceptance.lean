import H2kvm.Orchestration.ManifestRun

namespace H2kvm.Orchestration.Manifest

open Framework Framework.Checks Yaml Profiles Config

/-- What `load` does not promise to raise. -/
def Foreign (e : PyException) : Prop := e.typeName ≠ "ManifestError"

@[simp] theorem not_foreign_manifestError (msg : String) : ¬ Foreign (manifestError msg) := fun h => h rfl

section patterns

variable {s : List Char} {pattern : List Char → Bool}

/-- A text ends in a newline, which the `$` of a pattern lets pass. -/
def EndsInNewline (s : String) : Prop := s.toList.getLast? = some '\n'

/-- A pattern that no text with a newline at the end has. -/
def NoNewline (pattern : List Char → Bool) : Prop := ∀ s, pattern s = true → s.getLast? ≠ some '\n'

theorem getLast?_ne_of_all {p : Char → Bool} (h : s.all p = true) (newline : p '\n' = false) : s.getLast? ≠ some '\n' := by
  intro last
  rw [List.all_eq_true] at h
  rw [h _ (List.mem_of_getLast? last)] at newline
  cases newline

theorem noNewline_isDiskId : NoNewline isDiskId := by
  intro s found
  rw [isDiskId, Bool.and_eq_true] at found
  exact getLast?_ne_of_all found.2 rfl

theorem noNewline_isChecksum : NoNewline isChecksum := by
  intro s found last
  simp only [isChecksum, Bool.and_eq_true, decide_eq_true_eq] at found
  have digits := getLast?_ne_of_all found.2 rfl
  rw [List.getLast?_drop, if_neg (by have := found.1.2; rw [List.length_drop] at this; omega)] at digits
  exact digits last

theorem pattern_iff_of_pyMatches (none : NoNewline pattern) {s : String} (found : pyMatches pattern s.toList = true) :
    pattern s.toList = true ↔ ¬ EndsInNewline s := by
  simp only [pyMatches, Bool.or_eq_true, Bool.and_eq_true, decide_eq_true_eq] at found
  constructor
  · exact none _
  · intro last
    exact found.resolve_right fun h => last h.1

end patterns

section checks

variable {env : Environment} {idx : Nat} {ids : List String} {v : Yaml} {fields : Fields}

theorem foreign_unhashable (v : Yaml) : Foreign (unhashable v) := show "TypeError" ≠ "ManifestError" by decide

theorem foreign_notText (v : Yaml) : Foreign (notText v) := show "TypeError" ≠ "ManifestError" by decide

theorem foreign_notPath (v : Yaml) : Foreign (notPath v) := show "TypeError" ≠ "ManifestError" by decide

/-- `Path` or the look-up of the path raises. -/
def PathFails (env : Environment) (v : Yaml) : Prop :=
  isText v = false ∨ ∃ text e, v = .str text ∧ env.locate text = .error e

theorem not_raises_checkRequired : ¬ Raises Foreign (checkRequired idx fields) := by
  unfold checkRequired
  split <;> simp

theorem raises_checkId : Raises Foreign (checkId env idx ids v) ↔ isText v = false := by
  cases v with
  | str id =>
    refine iff_of_false ?_ nofun
    simp only [checkId]
    split_ifs <;> simp
  | _ =>
    refine iff_of_true ?_ rfl
    simp only [checkId, raises_error]
    split
    · exact foreign_unhashable _
    · exact foreign_notText _

theorem not_raises_checkSourceFormat : ¬ Raises Foreign (checkSourceFormat env idx v) := by
  unfold checkSourceFormat
  split <;> simp

theorem not_raises_checkCount {field : String} : ¬ Raises Foreign (checkCount idx field v) := by
  unfold checkCount
  split
  · split <;> simp
  · simp

theorem raises_checkLocalPath : Raises Foreign (checkLocalPath env idx v) ↔ PathFails env v := by
  cases v with
  | str text =>
    simp only [checkLocalPath, PathFails, isText, Bool.true_eq_false, false_or, Yaml.str.injEq]
    cases found : env.locate text with
    | error e =>
      rw [raises_error]
      exact iff_of_true (env.locate_error text e found) ⟨text, e, rfl, found⟩
    | ok result =>
      obtain ⟨path, there⟩ := result
      refine iff_of_false ?_ ?_
      · cases there <;> simp
      · rintro ⟨_, e, rfl, failed⟩
        rw [found] at failed
        cases failed
  | _ => exact iff_of_true (raises_error.mpr (foreign_notPath _)) (.inl rfl)

theorem raises_checkChecksum {v : Option Yaml} :
    Raises Foreign (checkChecksum env idx v) ↔ ∃ w, v = some w ∧ isText w = false := by
  rcases v with _ | w
  · exact iff_of_false (raises_ok _) nofun
  · cases w with
    | str checksum =>
      refine iff_of_false ?_ ?_
      · simp only [checkChecksum]
        split <;> simp
      · rintro ⟨_, same, other⟩
        cases same
        cases other
    | _ => exact iff_of_true (raises_error.mpr (foreign_notText _)) ⟨_, rfl, rfl⟩

theorem not_raises_checkBootOrderHint {v : Option Yaml} : ¬ Raises Foreign (checkBootOrderHint idx v) := by
  rcases v with _ | v
  · exact raises_ok _
  · exact not_raises_checkCount

theorem not_raises_checkDiskType {v : Option Yaml} : ¬ Raises Foreign (checkDiskType idx v) := by
  unfold checkDiskType
  split
  · simp
  · split <;> simp

/-- The checks of a disk come to a value that is no text where they take it for one, or to a path
that cannot be looked up. -/
structure Trips (env : Environment) (idx : Nat) (ids : List String) (fields : Fields) : Prop where
  required : Passes (checkRequired idx fields)
  fails : isText (field fields "id") = false ∨
    Passes (checkId env idx ids (field fields "id")) ∧
      Passes (checkSourceFormat env idx (field fields "source_format")) ∧
      Passes (checkCount idx "bytes" (field fields "bytes")) ∧
      (PathFails env (field fields "local_path") ∨
        Passes (checkLocalPath env idx (field fields "local_path")) ∧
          ∃ v, fields.get? (.str "checksum") = some v ∧ isText v = false)

theorem raises_checkDisk {disk : Yaml} :
    Raises Foreign (checkDisk env idx ids disk) ↔ ∃ fields, disk = .map fields ∧ Trips env idx ids fields := by
  cases disk with
  | map fields =>
    simp only [checkDisk, raises_bind, raises_checkId, raises_checkLocalPath, raises_checkChecksum, not_raises_checkRequired,
      not_raises_checkSourceFormat, not_raises_checkCount, not_raises_checkBootOrderHint, not_raises_checkDiskType,
      raises_pure, false_or, and_false, exists_false, or_false, exists_and_right]
    constructor
    · rintro ⟨required, fails⟩
      exact ⟨fields, rfl, required, fails⟩
    · rintro ⟨_, same, required, fails⟩
      cases same
      exact ⟨required, fails⟩
  | _ => exact iff_of_false (by simp [checkDisk]) (by rintro ⟨_, ⟨⟩, _⟩)

end checks

/-- What is promised of the disks. -/
structure DiskArtifact.Exact (disk : DiskArtifact) : Prop where
  id : isDiskId disk.id.toList = true
  checksum : ∀ checksum, disk.checksum = some checksum → isChecksum checksum.toList = true
  bytes : 0 ≤ disk.bytes
  bootOrderHint : 0 ≤ disk.bootOrderHint

/-- The id or the checksum ends in a newline. -/
def DiskArtifact.HasNewline (disk : DiskArtifact) : Prop :=
  EndsInNewline disk.id ∨ ∃ checksum, disk.checksum = some checksum ∧ EndsInNewline checksum

section accepted

variable {env : Environment} {idx : Nat} {ids : List String} {v : Yaml} {disk : DiskArtifact} {disks : List Yaml}

theorem checkId_ok {id : String} (h : checkId env idx ids v = .ok id) : id ∉ ids ∧ pyMatches isDiskId id.toList = true := by
  cases v with
  | str s =>
    simp only [checkId] at h
    split_ifs at h with seen found
    obtain rfl := Except.ok.inj h
    exact ⟨seen, found⟩
  | _ => cases h

theorem checkCount_ok {name : String} {n : Int} (h : checkCount idx name v = .ok n) : 0 ≤ n := by
  unfold checkCount at h
  split at h
  · split_ifs at h with negative
    obtain rfl := Except.ok.inj h
    exact Int.not_lt.mp negative
  · cases h

theorem checkBootOrderHint_ok {v : Option Yaml} {n : Int} (h : checkBootOrderHint idx v = .ok n) : 0 ≤ n := by
  rcases v with _ | v
  · obtain rfl := Except.ok.inj h
    decide
  · exact checkCount_ok h

theorem checkChecksum_ok {v : Option Yaml} {checksum : String} (h : checkChecksum env idx v = .ok (some checksum)) :
    pyMatches isChecksum checksum.toList = true := by
  rcases v with _ | v
  · cases h
  · cases v with
    | str s =>
      simp only [checkChecksum] at h
      split_ifs at h with found
      obtain rfl := Option.some.inj (Except.ok.inj h)
      exact found
    | _ => cases h

theorem checkDisk_ok {v : Yaml} (h : checkDisk env idx ids v = .ok disk) :
    disk.id ∉ ids ∧ (disk.Exact ↔ ¬ disk.HasNewline) := by
  cases v with
  | map fields =>
    simp only [checkDisk, bind_eq_ok] at h
    obtain ⟨-, -, id, idOk, format, -, bytes, bytesOk, path, -, checksum, checksumOk, hint, hintOk, type, -, made⟩ := h
    obtain rfl := Except.ok.inj made
    obtain ⟨new, found⟩ := checkId_ok idOk
    refine ⟨new, ?_⟩
    have idExact := pattern_iff_of_pyMatches noNewline_isDiskId found
    constructor
    · rintro exact' (last | ⟨text, there, last⟩)
      · exact idExact.mp exact'.id last
      · obtain rfl : checksum = some text := there
        exact noNewline_isChecksum _ (exact'.checksum text rfl) last
    · intro clean
      refine ⟨idExact.mpr fun last => clean (.inl last), ?_, checkCount_ok bytesOk, checkBootOrderHint_ok hintOk⟩
      rintro text there
      obtain rfl : checksum = some text := there
      have matched := checkChecksum_ok checksumOk
      exact (pattern_iff_of_pyMatches noNewline_isChecksum matched).mpr fun last => clean (.inr ⟨text, rfl, last⟩)
  | _ => cases h

/-- The disks that were appended have ids of their own. -/
theorem validateDisks_made (env : Environment) (disks : List Yaml) :
    (∀ disk ∈ (validateDisks env disks).1, disk.Exact ↔ ¬ disk.HasNewline) ∧
      ((validateDisks env disks).1.map DiskArtifact.id).Nodup := by
  constructor
  · intro disk mem
    obtain ⟨before, item, rest, -, -, passed⟩ := (mem_collect disks).mp mem
    exact (checkDisk_ok passed).2
  · exact (nodup_collect (fun idx ids item disk passed => (checkDisk_ok passed).1) disks).2

end accepted

section sections

variable {env : Environment} {name : String} {checks : List FieldCheck} {manifest profile : Fields}

/-- What the checks of a section say of a manifest. -/
structure SectionValid (name : String) (checks : List FieldCheck) (manifest : Fields) : Prop where
  object : ∀ v, manifest.get? (.str name) = some v → v.isDict = true
  fields : ∀ check ∈ checks, ∀ v, (Yaml.map manifest).follow [.str name, .str check.field] = some v → check.valid v = true

theorem follow_pair (d : Fields) (k k' : Yaml) {v : Yaml} (found : d.get? k = some v) :
    (Yaml.map d).follow [k, k'] = v.follow [k'] := by
  rw [follow_cons, found]
  rfl

theorem follow_one (d : Fields) (k : Yaml) : (Yaml.map d).follow [k] = d.get? k := by
  rw [follow_cons]
  cases d.get? k with
  | none => rfl
  | some v => exact follow_nil v

theorem checkField_ok {fields : Fields} {check : FieldCheck} :
    checkField env fields check = .ok () ↔ ∀ v, fields.get? (.str check.field) = some v → check.valid v = true := by
  unfold checkField
  cases fields.get? (.str check.field) with
  | none => exact iff_of_true rfl nofun
  | some v =>
    cases valid : check.valid v with
    | true =>
      refine iff_of_true (by simp [valid]) ?_
      rintro _ ⟨⟩
      exact valid
    | false =>
      refine iff_of_false (by simp [valid]) fun all => ?_
      rw [all v rfl] at valid
      cases valid

theorem validateSection_ok : validateSection env name checks manifest = .ok () ↔ SectionValid name checks manifest := by
  cases there : manifest.get? (.str name) with
  | none =>
    rw [validateSection, there]
    refine iff_of_true rfl ⟨?_, ?_⟩
    · intro v found
      rw [there] at found
      cases found
    · intro check _ v found
      rw [follow_cons, there] at found
      cases found
  | some v =>
    cases dict : v.isDict with
    | true =>
      obtain ⟨fields, rfl⟩ := isDict_iff.mp dict
      have one (check : FieldCheck) :
          (Yaml.map manifest).follow [.str name, .str check.field] = Fields.get? fields (.str check.field) := by
        rw [follow_pair manifest _ _ there, follow_one]
      simp only [validateSection, there, forM_eq_ok, checkField_ok]
      constructor
      · intro all
        refine ⟨?_, ?_⟩
        · intro v found
          rw [there] at found
          exact Option.some.inj found ▸ dict
        · intro check mem v found
          exact all check mem v (one check ▸ found)
      · intro valid check mem v found
        exact valid.fields check mem v ((one check).trans found)
    | false =>
      refine iff_of_false ?_ fun valid => ?_
      · cases v with
        | map fields => cases dict
        | _ => simp [validateSection, there]
      · rw [valid.object v there] at dict
        cases dict

theorem not_raises_validateSection : ¬ Raises Foreign (validateSection env name checks manifest) := by
  unfold validateSection
  split
  · exact raises_ok _
  · intro raised
    obtain ⟨check, -, failed⟩ := raises_forM raised
    unfold checkField at failed
    split at failed
    · exact raises_ok _ failed
    · split at failed
      · exact raises_ok _ failed
      · exact not_foreign_manifestError _ (raises_error.mp failed)
  · rw [raises_error]
    exact not_foreign_manifestError _

/-- No dictionary passes the checks. -/
def ScalarsOnly (checks : List FieldCheck) : Prop := ∀ check ∈ checks, ∀ v, check.valid v = true → v.isDict = false

theorem scalarsOnly_sourceChecks : ScalarsOnly sourceChecks := by
  intro check mem v valid
  simp only [sourceChecks, List.mem_cons, List.not_mem_nil, or_false] at mem
  cases v with
  | map fields => rcases mem with rfl | rfl | rfl | rfl <;> cases valid
  | _ => rfl

theorem scalarsOnly_vmChecks : ScalarsOnly vmChecks := by
  intro check mem v valid
  simp only [vmChecks, List.mem_cons, List.not_mem_nil, or_false] at mem
  cases v with
  | map fields => rcases mem with rfl | rfl | rfl | rfl <;> cases valid
  | _ => rfl

/-- Where the manifest leaves a section or a checked field out, what the profile has there is valid. -/
structure Fills (profile manifest : Fields) (name : String) (checks : List FieldCheck) : Prop where
  object : manifest.get? (.str name) = none → ∀ v, profile.get? (.str name) = some v → v.isDict = true
  fields : ∀ check ∈ checks, (Yaml.map manifest).follow [.str name, .str check.field] = none →
    ∀ v, (Yaml.map profile).follow [.str name, .str check.field] = some v → check.valid v = true

/-- The merge with a profile leaves a valid section valid just where the profile fills it. -/
theorem sectionValid_merge_iff (distinct : Distinct (.map manifest)) (scalars : ScalarsOnly checks)
    (valid : SectionValid name checks manifest) :
    SectionValid name checks (mergeDicts .replace profile manifest) ↔ Fills profile manifest name checks := by
  have free (check : FieldCheck) (absent : (Yaml.map manifest).follow [.str name, .str check.field] = none) :
      ¬ Blocks (.map manifest) [.str name, .str check.field] := by
    rintro ⟨above, before, w, there, plain⟩
    match above with
    | [] =>
      obtain rfl := Option.some.inj ((follow_nil _).symm.trans there)
      cases plain
    | [k] =>
      obtain ⟨rfl, -⟩ := List.cons_prefix_cons.mp before
      rw [follow_one] at there
      rw [valid.object w there] at plain
      cases plain
    | k :: k' :: rest =>
      obtain ⟨rfl, next⟩ := List.cons_prefix_cons.mp before
      obtain ⟨rfl, last⟩ := List.cons_prefix_cons.mp next
      obtain rfl := List.prefix_nil.mp last
      rw [absent] at there
      cases there
  constructor
  · intro merged
    refine ⟨?_, ?_⟩
    · intro absent v found
      apply merged.object v
      rw [get?_mergeDicts distinct.keys, absent, found]
    · intro check mem absent v found
      apply merged.fields check mem v
      rw [follow_mergeDicts_of_none distinct absent (free check absent), found]
  · intro fills
    refine ⟨?_, ?_⟩
    · intro v found
      rw [get?_mergeDicts distinct.keys] at found
      cases own : manifest.get? (.str name) with
      | none =>
        rw [own] at found
        exact fills.object own v found
      | some w =>
        rw [own] at found
        obtain rfl := Option.some.inj found
        obtain ⟨fields, rfl⟩ := isDict_iff.mp (valid.object w own)
        by_cases both : ∃ d, profile.get? (.str name) = some (.map d)
        · obtain ⟨d, there⟩ := both
          rw [there, mergeValue_map]
          rfl
        · rw [mergeValue_map_other fun d there => both ⟨d, there⟩]
          rfl
    · intro check mem v found
      cases own : (Yaml.map manifest).follow [.str name, .str check.field] with
      | none =>
        rw [follow_mergeDicts_of_none distinct own (free check own)] at found
        exact fills.fields check mem own v found
      | some w =>
        have good := valid.fields check mem w own
        rw [follow_mergeDicts_of_some distinct own, mergeValue_replace (scalars check mem w good)] at found
        obtain rfl := Option.some.inj found
        exact good

end sections

/-- What a manifest that `load` returned is promised to be. -/
structure Valid (env : Environment) (manifest : Fields) : Prop where
  disks : ∃ disks made, manifest.get? (.str "disks") = some (.seq disks) ∧
    validateDisks env disks = (made, .ok ()) ∧ (∀ disk ∈ made, disk.Exact) ∧ (made.map DiskArtifact.id).Nodup
  source : validateSource env manifest = .ok ()
  vm : validateVm env manifest = .ok ()

/-- `load` raises a `ManifestError` or returns a valid manifest. -/
def Sound (env : Environment) : Except PyException Fields → Prop
  | .error e => e.typeName = "ManifestError"
  | .ok manifest => Valid env manifest

/-- The loop over the disks comes to one whose checks trip. -/
def TripsOn (env : Environment) (v : Yaml) : Prop :=
  ∃ manifest disks, diskList env v = .ok (manifest, disks) ∧
    Reaches (checkDisk env) DiskArtifact.id 0 [] disks fun idx ids disk => ∃ fields, disk = .map fields ∧ Trips env idx ids fields

/-- The profile that is merged in; with no profile nothing is. -/
def appliedProfile (env : Environment) (manifest : Fields) : Except String Fields :=
  let profileName := (manifest.get? (.str "profile")).getD .null
  if !profileName.truthy then .ok [] else profileConfig env manifest profileName

/-- When `load` is sound: no disk trips, and of what passes no id or checksum ends in a newline and
the profile is valid where it adds to the sections. -/
structure Regular (env : Environment) (v : Yaml) : Prop where
  untripped : ¬ TripsOn env v
  merged : ∀ disks manifest profile, validate env v = (disks, .ok manifest) →
    appliedProfile env manifest = .ok profile → (∀ disk ∈ disks, ¬ disk.HasNewline) ∧
      Fills profile manifest "source" sourceChecks ∧ Fills profile manifest "vm" vmChecks

section load

variable {env : Environment} {v : Yaml} {manifest profile : Fields} {disks : List Yaml} {made : List DiskArtifact}

theorem diskList_ok (h : diskList env v = .ok (manifest, disks)) :
    v = .map manifest ∧ manifest.get? (.str "disks") = some (.seq disks) := by
  cases v with
  | map fields =>
    simp only [diskList] at h
    split_ifs at h
    split at h
    · cases h
    · cases h
    · rename_i there
      obtain ⟨rfl, rfl⟩ := Prod.mk.inj (Except.ok.inj h)
      exact ⟨rfl, there⟩
    · cases h
  | _ => cases h

theorem not_raises_diskList : ¬ Raises Foreign (diskList env v) := by
  cases v with
  | map fields =>
    simp only [diskList]
    split_ifs
    · simp
    · simp
    · split <;> simp
  | _ => exact fun h => not_foreign_manifestError _ (raises_error.mp h)

theorem validate_ok (h : validate env v = (made, .ok manifest)) :
    ∃ disks, diskList env v = .ok (manifest, disks) ∧ validateDisks env disks = (made, .ok ()) ∧
      validateSource env manifest = .ok () ∧ validateVm env manifest = .ok () := by
  unfold validate at h
  split at h
  · cases (Prod.mk.inj h).2
  · rename_i m disks listed
    obtain ⟨rfl, checked⟩ := Prod.mk.inj h
    simp only [bind_eq_ok] at checked
    obtain ⟨_, disksOk, _, sourceOk, _, vmOk, same⟩ := checked
    obtain rfl := Except.ok.inj same
    exact ⟨disks, listed, Prod.ext rfl disksOk, sourceOk, vmOk⟩

theorem raises_validate : Raises Foreign (validate env v).2 ↔ TripsOn env v := by
  unfold validate
  split
  · rename_i e listed
    refine iff_of_false ?_ ?_
    · have only : ¬ Raises Foreign (diskList env v) := not_raises_diskList
      rw [listed] at only
      simpa using only
    · rintro ⟨manifest, disks, there, -⟩
      cases listed.symm.trans there
  · rename_i manifest disks listed
    have source : ¬ Raises Foreign (validateSource env manifest) := not_raises_validateSection
    have vm : ¬ Raises Foreign (validateVm env manifest) := not_raises_validateSection
    simp only [raises_bind, source, vm, raises_pure, and_false, exists_false, or_false]
    rw [validateDisks, raises_collect]
    simp only [raises_checkDisk]
    constructor
    · exact fun tripped => ⟨manifest, disks, listed, tripped⟩
    · rintro ⟨_, _, there, tripped⟩
      obtain ⟨rfl, rfl⟩ := Prod.mk.inj (Except.ok.inj (listed.symm.trans there))
      exact tripped

theorem applyProfile_of_ok (loader : ManifestLoader) (h : appliedProfile env manifest = .ok profile) :
    (profile = [] ∧ (applyProfile env manifest loader).1 = .ok manifest) ∨
      (applyProfile env manifest loader).1 = .ok (mergeDicts .replace profile manifest) := by
  simp only [appliedProfile] at h
  simp only [applyProfile]
  split_ifs at h ⊢
  · exact .inl ⟨(Except.ok.inj h).symm, rfl⟩
  · rw [h]
    exact .inr rfl

theorem applyProfile_of_error (loader : ManifestLoader) {e : String} (h : appliedProfile env manifest = .error e) :
    ∃ msg, (applyProfile env manifest loader).1 = .error (manifestError msg) := by
  simp only [appliedProfile] at h
  simp only [applyProfile]
  split_ifs at h ⊢
  rw [h]
  exact ⟨_, rfl⟩

theorem fills_nil (name : String) (checks : List FieldCheck) : Fills [] manifest name checks where
  object _ _ found := nomatch found
  fields _ _ _ _ found := nomatch found

theorem valid_iff (listed : diskList env v = .ok (manifest, disks)) (made' : validateDisks env disks = (made, .ok ()))
    (source : validateSource env manifest = .ok ()) (vm : validateVm env manifest = .ok ()) :
    Valid env manifest ↔ ∀ disk ∈ made, ¬ disk.HasNewline := by
  have madeAll := validateDisks_made env disks
  rw [made'] at madeAll
  obtain ⟨all, distinct⟩ := madeAll
  have there := (diskList_ok listed).2
  constructor
  · rintro ⟨⟨disks', made'', there', ran, exact', -⟩, -, -⟩ disk mem
    obtain rfl := Yaml.seq.inj (Option.some.inj (there.symm.trans there'))
    obtain ⟨rfl, -⟩ := Prod.mk.inj (made'.symm.trans ran)
    exact (all disk mem).mp (exact' disk mem)
  · intro clean
    exact ⟨⟨disks, made, there, made', fun disk mem => (all disk mem).mpr (clean disk mem), distinct⟩, source, vm⟩

theorem valid_merge_iff (keys : Distinct (.map manifest)) (listed : diskList env v = .ok (manifest, disks))
    (made' : validateDisks env disks = (made, .ok ())) (source : validateSource env manifest = .ok ())
    (vm : validateVm env manifest = .ok ()) :
    Valid env (mergeDicts .replace profile manifest) ↔ (∀ disk ∈ made, ¬ disk.HasNewline) ∧
      Fills profile manifest "source" sourceChecks ∧ Fills profile manifest "vm" vmChecks := by
  have there : (mergeDicts .replace profile manifest).get? (.str "disks") = some (.seq disks) := by
    rw [get?_mergeDicts keys.keys, (diskList_ok listed).2]
    exact congrArg some (mergeValue_replace rfl)
  have madeAll := validateDisks_made env disks
  rw [made'] at madeAll
  obtain ⟨all, distinct⟩ := madeAll
  have sourceIff : SectionValid "source" sourceChecks (mergeDicts .replace profile manifest) ↔
      Fills profile manifest "source" sourceChecks :=
    sectionValid_merge_iff keys scalarsOnly_sourceChecks (validateSection_ok.mp source)
  have vmIff : SectionValid "vm" vmChecks (mergeDicts .replace profile manifest) ↔ Fills profile manifest "vm" vmChecks :=
    sectionValid_merge_iff keys scalarsOnly_vmChecks (validateSection_ok.mp vm)
  constructor
  · rintro ⟨⟨disks', made'', there', ran, exact', -⟩, source', vm'⟩
    obtain rfl := Yaml.seq.inj (Option.some.inj (there.symm.trans there'))
    obtain ⟨rfl, -⟩ := Prod.mk.inj (made'.symm.trans ran)
    refine ⟨fun disk mem => (all disk mem).mp (exact' disk mem), ?_, ?_⟩
    · exact sourceIff.mp (validateSection_ok.mp source')
    · exact vmIff.mp (validateSection_ok.mp vm')
  · rintro ⟨clean, sourceFills, vmFills⟩
    refine ⟨⟨disks, made, there, made', fun disk mem => (all disk mem).mpr (clean disk mem), distinct⟩, ?_, ?_⟩
    · exact validateSection_ok.mpr (sourceIff.mpr sourceFills)
    · exact validateSection_ok.mpr (vmIff.mpr vmFills)

theorem load_of_invalid (loader : ManifestLoader) {e : PyException} (h : validate env v = (made, .error e)) :
    (loader.load env (.ok v)).1 = .error e := by
  simp only [ManifestLoader.load, h]

theorem load_of_valid (loader : ManifestLoader) (h : validate env v = (made, .ok manifest)) :
    loader.load env (.ok v) = applyProfile env manifest { loader with manifest := v, disks := loader.disks ++ made } := by
  simp only [ManifestLoader.load, h]

end load

/-- Every path is there, and the one profile has a virtual machine with no processor. -/
def bench : Environment where
  str _ := ""
  repr _ := ""
  locate text := .ok (text, true)
  locate_error := nofun
  loadProfile _ _ := .ok [(.str "vm", .map [(.str "cpu", .int 0)])]

def bootDisk (id : Yaml) : Fields :=
  [(.str "id", id), (.str "source_format", .str "raw"), (.str "bytes", .int 1), (.str "local_path", .str "a")]

def oneDisk (id : Yaml) : Fields := [(.str "manifest_version", .str "1.0"), (.str "disks", .seq [.map (bootDisk id)])]

theorem distinct_oneDisk {id : Yaml} (h : Distinct id) : Distinct (.map (oneDisk id)) := by
  refine .map (by simp [oneDisk, Fields.KeysDistinct, sameKey]) ?_
  have disk : Distinct (.map (bootDisk id)) := by
    refine .map (by simp [bootDisk, Fields.KeysDistinct, sameKey]) ?_
    simp only [bootDisk, List.forall_mem_cons]
    exact ⟨h, .str _, .int _, .str _, List.forall_mem_nil _⟩
  simp only [oneDisk, List.forall_mem_cons]
  exact ⟨.str _, .seq (by simpa using disk), List.forall_mem_nil _⟩

end H2kvm.Orchestration.Manifest
