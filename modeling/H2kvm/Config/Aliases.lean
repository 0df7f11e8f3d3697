import H2kvm.Config.DeepMerge
import H2kvm.Framework.Lines

namespace H2kvm.Config

open Framework Yaml Profiles Text

/-- `str(k).replace("-", "_")`. -/
def normalizeKey (k : Yaml) : Yaml :=
  .str (String.ofList ((k.hashableText.getD "").toList.map fun c => if c = '-' then '_' else c))

mutual

/-- `_normalize_keys`. -/
def normalizeKeys : Yaml → Yaml
  | .map d => .map (normalizeFields [] d)
  | .seq items => .seq (normalizeItems items)
  | v => v

def normalizeItems : List Yaml → List Yaml
  | [] => []
  | x :: xs => normalizeKeys x :: normalizeItems xs

def normalizeField (out : Fields) : Yaml × Yaml → Fields
  | (k, v) => out.set (normalizeKey k) (normalizeKeys v)

def normalizeFields (out : Fields) : List (Yaml × Yaml) → Fields
  | [] => out
  | field :: rest => normalizeFields (normalizeField out field) rest

end

/-- The one of two spellings that is missing is filled in from the other. -/
def fillAlias (a b : String) (d : Fields) : Fields :=
  match d.get? (.str a), d.get? (.str b) with
  | some v, none => d.set (.str b) v
  | none, some v => d.set (.str a) v
  | _, _ => d

def govcMap : List (String × String) :=
  [("GOVC_URL", "govc_url"), ("GOVC_USERNAME", "govc_user"), ("GOVC_USER", "govc_user"),
    ("GOVC_PASSWORD", "govc_password"), ("GOVC_PASSWORD_ENV", "govc_password_env"), ("GOVC_INSECURE", "govc_insecure"),
    ("GOVC_DATACENTER", "govc_datacenter"), ("GOVC_DATASTORE", "govc_ds"), ("GOVC_DS", "govc_ds"),
    ("GOVC_FOLDER", "govc_folder"), ("GOVC_CLUSTER", "govc_cluster"), ("GOVC_RESOURCE_POOL", "govc_resource_pool")]

def fillGovc (d : Fields) (names : String × String) : Fields :=
  match d.get? (.str names.1), d.get? (.str names.2) with
  | some v, none => d.set (.str names.2) v
  | _, _ => d

section loading

-- Python's `str.lower`.
variable (lower : String → String)

/-- `value.strip().lower()` of a string. -/
def lowered : Yaml → Yaml
  | .str s => .str (lower (String.ofList (strip s.toList)))
  | v => v

/-- The lower-casing of `vs_control_plane`, if it is a string. -/
def lowerControlPlane (d : Fields) : Fields :=
  match d.get? (.str "vs_control_plane") with
  | some (.str s) => d.set (.str "vs_control_plane") (lowered lower (.str s))
  | _ => d

/-- `_canonicalize_aliases`. -/
def canonicalizeAliases (d : Fields) : Fields :=
  let d := fillAlias "command" "cmd" d
  let d := fillAlias "vs_action" "action" d
  let d := fillAlias "vs_control_plane" "control_plane" d
  lowerControlPlane lower (govcMap.foldl fillGovc d)

/-- `load_one` of a file that holds this mapping. -/
def loadOne (data : Fields) : Fields := canonicalizeAliases lower (normalizeFields [] data)

/-- `load_many`. -/
def loadMany (mode : ListMode) (files : List Fields) : Fields :=
  if files.isEmpty then []
  else canonicalizeAliases lower (files.foldl (fun conf data => mergeDicts mode conf (loadOne lower data)) [])

/-- The loop over the entries of `vms`; one that is no mapping ends the program. -/
def mergeVms (mode : ListMode) (path : String) (base : Fields) (idx : Nat) : List Yaml → Except String (List Fields)
  | [] => .ok []
  | .map vm :: rest => (mergeVms mode path base (idx + 1) rest).map (mergeDicts mode base vm :: ·)
  | _ :: _ => .error s!"'vms' entries must be mappings/dicts in {path} (index {idx})"

/-- The configurations of one file. -/
def expandFile (mode : ListMode) (path : String) (conf : Fields) : Except String (List Fields) :=
  match conf.get? (.str "vms") with
  | some (.seq vms) => mergeVms mode path (conf.pop (.str "vms")) 0 vms
  | _ => .ok [conf]

/-- The loop over the files, each with its path. -/
def expandVms (mode : ListMode) : List (String × Fields) → Except String (List Fields)
  | [] => .ok []
  | (path, data) :: files => do
    let confs ← expandFile mode path (loadOne lower data)
    return confs ++ (← expandVms mode files)

/-- `load_vm_configs`. -/
def loadVmConfigs (mode : ListMode) (files : List (String × Fields)) : Except String (List Fields) :=
  (expandVms lower mode files).map (List.map (canonicalizeAliases lower))

end loading

mutual

theorem distinct_normalizeKeys : ∀ v, Distinct (normalizeKeys v)
  | .map d => by
    rw [normalizeKeys]
    exact distinct_normalizeFields (.map List.Pairwise.nil nofun) d
  | .seq items => by
    rw [normalizeKeys]
    exact .seq (distinct_normalizeItems items)
  | .null | .bool _ | .int _ | .float _ _ | .str _ | .scalar _ _ _ | .set _ => by
    simp only [normalizeKeys]
    constructor

theorem distinct_normalizeItems : ∀ items, ∀ v ∈ normalizeItems items, Distinct v
  | [] => by simp [normalizeItems]
  | x :: xs => by
    rw [normalizeItems, List.forall_mem_cons]
    exact ⟨distinct_normalizeKeys x, distinct_normalizeItems xs⟩

theorem distinct_normalizeField {out : Fields} (h : Distinct (.map out)) : ∀ field, Distinct (.map (normalizeField out field))
  | (k, v) => by
    rw [normalizeField]
    exact h.setField _ (distinct_normalizeKeys v)

theorem distinct_normalizeFields {out : Fields} (h : Distinct (.map out)) :
    ∀ fields, Distinct (.map (normalizeFields out fields))
  | [] => by
    rw [normalizeFields]
    exact h
  | field :: rest => by
    rw [normalizeFields]
    exact distinct_normalizeFields (distinct_normalizeField h field) rest

end

def aliasPairs : List (String × String) :=
  [("command", "cmd"), ("vs_action", "action"), ("vs_control_plane", "control_plane")]

/-- Two spellings of one option. -/
def Twins (k t : String) : Prop := (k, t) ∈ aliasPairs ∨ (t, k) ∈ aliasPairs

section canonical

variable {lower : String → String} {d : Fields} {k t a b : String} {v : Yaml}

theorem get?_fillAlias (apart : a ≠ b) (d : Fields) (k : String) :
    (fillAlias a b d).get? (.str k) =
      if k = a then (d.get? (.str a)).or (d.get? (.str b))
      else if k = b then (d.get? (.str b)).or (d.get? (.str a)) else d.get? (.str k) := by
  unfold fillAlias
  split
  · rename_i v ha hb
    rw [Fields.get?_set, ha, hb]
    by_cases first : k = a
    · simp [first, apart.symm, ha]
    · by_cases second : k = b
      · simp [second, apart.symm]
      · simp [first, second, Ne.symm second]
  · rename_i v ha hb
    rw [Fields.get?_set, ha, hb]
    by_cases first : k = a
    · simp [first]
    · by_cases second : k = b
      · simp [second, apart, hb]
      · simp [first, second, Ne.symm first]
  · rename_i both neither
    by_cases first : k = a
    · subst first
      cases ha : d.get? (.str k) <;> cases hb : d.get? (.str b) <;> simp_all
    · by_cases second : k = b
      · subst second
        cases ha : d.get? (.str a) <;> cases hb : d.get? (.str k) <;> simp_all
      · simp [first, second]

theorem get?_fillGovc (names : List (String × String)) (other : ∀ n ∈ names, n.2 ≠ k) :
    (names.foldl fillGovc d).get? (.str k) = d.get? (.str k) := by
  induction names generalizing d with
  | nil => rfl
  | cons n names ih =>
    rw [List.forall_mem_cons] at other
    rw [List.foldl_cons, ih other.2]
    unfold fillGovc
    split
    · rw [Fields.get?_set, if_neg other.1]
    · rfl

variable (lower) in
/-- How the value of an option is written in the end. -/
def canonical (k : String) (v : Yaml) : Yaml := if k = "vs_control_plane" then lowered lower v else v

theorem get?_lowerControlPlane (d : Fields) (k : String) :
    (lowerControlPlane lower d).get? (.str k) = (d.get? (.str k)).map (canonical lower k) := by
  unfold lowerControlPlane canonical
  by_cases plane : k = "vs_control_plane"
  · subst plane
    split
    · rename_i s value
      simp [Fields.get?_set, value]
    · rename_i other
      cases value : d.get? (.str "vs_control_plane") with
      | none => rfl
      | some v =>
        cases v with
        | str s => exact absurd value (other s)
        | _ => rfl
  · split
    · simp [Fields.get?_set, plane, Ne.symm plane]
    · simp [plane]

/-- After the spellings are filled in, each has its own value or that of the other one. -/
theorem get?_canonicalizeAliases (twins : Twins k t) (d : Fields) :
    (canonicalizeAliases lower d).get? (.str k) = ((d.get? (.str k)).or (d.get? (.str t))).map (canonical lower k) := by
  have govc : ∀ n ∈ govcMap, n.2 ≠ k := by
    simp only [Twins, aliasPairs, List.mem_cons, Prod.mk.injEq, List.not_mem_nil, or_false] at twins
    rcases twins with (⟨rfl, rfl⟩ | ⟨rfl, rfl⟩ | ⟨rfl, rfl⟩) | (⟨rfl, rfl⟩ | ⟨rfl, rfl⟩ | ⟨rfl, rfl⟩) <;> decide
  rw [canonicalizeAliases, get?_lowerControlPlane, get?_fillGovc _ govc]
  simp only [Twins, aliasPairs, List.mem_cons, Prod.mk.injEq, List.not_mem_nil, or_false] at twins
  rcases twins with (⟨rfl, rfl⟩ | ⟨rfl, rfl⟩ | ⟨rfl, rfl⟩) | (⟨rfl, rfl⟩ | ⟨rfl, rfl⟩ | ⟨rfl, rfl⟩) <;>
    simp [get?_fillAlias]

theorem get?_vms (d : Fields) : (canonicalizeAliases lower d).get? (.str "vms") = d.get? (.str "vms") := by
  have govc : ∀ n ∈ govcMap, n.2 ≠ "vms" := by decide
  have plain : canonical lower "vms" = id := by
    funext v
    exact if_neg (by decide)
  rw [canonicalizeAliases, get?_lowerControlPlane, get?_fillGovc _ govc, plain]
  simp [get?_fillAlias]

theorem Twins.symm (twins : Twins k t) : Twins t k := Or.symm twins

theorem keysDistinct_fillAlias (h : d.KeysDistinct) : (fillAlias a b d).KeysDistinct := by
  unfold fillAlias
  split
  · exact h.set
  · exact h.set
  · exact h

theorem keysDistinct_fillGovc (h : d.KeysDistinct) (names : List (String × String)) :
    Fields.KeysDistinct (names.foldl fillGovc d) := by
  induction names generalizing d with
  | nil => exact h
  | cons n names ih =>
    apply ih
    unfold fillGovc
    split
    · exact h.set
    · exact h

theorem keysDistinct_lowerControlPlane (h : d.KeysDistinct) : (lowerControlPlane lower d).KeysDistinct := by
  unfold lowerControlPlane
  split
  · exact h.set
  · exact h

theorem keysDistinct_canonicalizeAliases (h : d.KeysDistinct) : (canonicalizeAliases lower d).KeysDistinct := by
  rw [canonicalizeAliases]
  apply keysDistinct_lowerControlPlane
  apply keysDistinct_fillGovc
  apply keysDistinct_fillAlias
  apply keysDistinct_fillAlias
  exact keysDistinct_fillAlias h

-- The lemmas above are all that is used of it.
attribute [irreducible] canonicalizeAliases

end canonical

/-- What a mapping says of an option, under either of its spellings. -/
def said (d : Fields) (k t : String) : Option Yaml := (d.get? (.str k)).or (d.get? (.str t))

section overriding

variable (lower : String → String) (mode : ListMode)

/-- The value, or for the control plane what is left of it when it is lower-cased. -/
inductive UpToLower (k : String) (v : Yaml) : Yaml → Prop where
  | same : UpToLower k v v
  | lowered {w : Yaml} (plane : k = "vs_control_plane" ∨ k = "control_plane") (h : UpToLower k v w) :
    UpToLower k v (lowered lower w)

/-- Merging a value over an older one leaves it: always so for a text. -/
def Stays (old : Option Yaml) (v : Yaml) : Prop := mergeValue mode old v = v

/-- A configuration has the values a VM entry gives the options, under both spellings. -/
def Carries (conf vm : Fields) : Prop :=
  ∀ k t v, Twins k t → said vm k t = some v → ∃ w, conf.get? (.str k) = some w ∧ UpToLower lower k v w

/-- The base has nothing that stands against the VM entry: where the entry sets a spelling its
value stays, and where it sets only the other one the base has neither, or that value already. -/
def Yields (base vm : Fields) : Prop :=
  ∀ k t v, Twins k t → said vm k t = some v →
    (vm.get? (.str k) = some v → Stays mode (base.get? (.str k)) v) ∧
      (vm.get? (.str k) = none → ∀ old, base.get? (.str k) = some old → UpToLower lower k v (canonical lower k old))

/-- The VM entries of a file with the base they are merged over. -/
def vmEntries (data : Fields) : List (Option (Fields × Fields)) :=
  match (loadOne lower data).get? (.str "vms") with
  | some (.seq vms) => vms.map fun
    | .map vm => some ((loadOne lower data).pop (.str "vms"), vm)
    | _ => none
  | _ => [none]

/-- Each configuration made from a VM entry carries its values. -/
def VmsOverride (files : List (String × Fields)) (confs : List Fields) : Prop :=
  List.Forall₂ (fun entry conf => ∀ base vm, entry = some (base, vm) → Carries lower conf vm)
    (files.flatMap fun file => vmEntries lower file.2) confs

/-- The value that the earlier files leave of an option. -/
def earlier (k t : String) (files : List Fields) : Option Yaml :=
  files.foldl (fun old data =>
    match said (normalizeFields [] data) k t with
    | some v => some (mergeValue mode old (canonical lower k v))
    | none => old) none

/-- `file` says this of an option, and no file after it says anything. -/
def Last (files before : List Fields) (k t : String) (v : Yaml) : Prop :=
  ∃ file after, files = before ++ file :: after ∧ said (normalizeFields [] file) k t = some v ∧
    ∀ data ∈ after, said (normalizeFields [] data) k t = none

/-- The last file that sets either spelling decides both. -/
def LastDecides (files : List Fields) : Prop :=
  ∀ before k t v, Twins k t → Last files before k t v →
    ∃ w, (loadMany lower mode files).get? (.str k) = some w ∧ UpToLower lower k v w

end overriding

section lemmas

variable {lower : String → String} {mode : ListMode} {base vm data : Fields} {k t : String} {old : Option Yaml} {v w : Yaml}

theorem upToLower_canonical (h : UpToLower lower k v w) : UpToLower lower k v (canonical lower k w) := by
  unfold canonical
  split
  · rename_i plane
    exact .lowered (.inl plane) h
  · exact h

theorem eq_of_not_plane (other : ¬ (k = "vs_control_plane" ∨ k = "control_plane")) (h : UpToLower lower k v w) : w = v := by
  cases h with
  | same => rfl
  | lowered plane => exact absurd plane other

theorem lowered_of_not_str (other : ∀ s, v ≠ .str s) : lowered lower v = v := by
  cases v with
  | str s => exact absurd rfl (other s)
  | _ => rfl

theorem eq_of_upToLower (other : ∀ s, v ≠ .str s) (h : UpToLower lower k v w) : w = v := by
  induction h with
  | same => rfl
  | lowered plane h ih => rw [ih, lowered_of_not_str other]

theorem canonical_of_not_str (other : ∀ s, v ≠ .str s) : canonical lower k v = v := by
  unfold canonical
  split
  · exact lowered_of_not_str other
  · rfl

theorem stays_str (s : String) : Stays mode old (.str s) := by
  unfold Stays
  cases old <;> simp only [mergeValue]

theorem mergeValue_not_str (other : ∀ s, v ≠ .str s) (s : String) : mergeValue mode old v ≠ .str s := by
  cases v with
  | str s' => exact absurd rfl (other s')
  | map d => rcases old with _ | _ | _ | _ | _ | _ | _ | _ | _ | _ <;> simp [mergeValue]
  | seq items => rcases old with _ | _ | _ | _ | _ | _ | _ | _ | _ | _ <;> cases mode <;> simp [mergeValue]
  | _ => simp [mergeValue]

theorem str_of_upToLower {s : String} (h : UpToLower lower k (.str s) w) : ∃ s', w = .str s' := by
  generalize text : Yaml.str s = v at h
  induction h with
  | same => exact ⟨s, text.symm⟩
  | lowered plane h ih =>
    obtain ⟨s', rfl⟩ := ih
    exact ⟨_, rfl⟩

/-- The value is there afterwards just if merging leaves it. -/
theorem upToLower_merged_iff (h : UpToLower lower k v w) :
    UpToLower lower k v (canonical lower k (mergeValue mode old w)) ↔ Stays mode old v := by
  by_cases text : ∃ s, v = .str s
  · obtain ⟨s, rfl⟩ := text
    obtain ⟨s', rfl⟩ := str_of_upToLower h
    refine iff_of_true ?_ (stays_str s)
    rw [stays_str s']
    exact upToLower_canonical h
  · have other : ∀ s, v ≠ .str s := fun s same => text ⟨s, same⟩
    rw [eq_of_upToLower other h, canonical_of_not_str (mergeValue_not_str other)]
    constructor
    · exact eq_of_upToLower other
    · intro stays
      rw [stays]
      exact .same

theorem get?_loadOne (twins : Twins k t) :
    (loadOne lower data).get? (.str k) = (said (normalizeFields [] data) k t).map (canonical lower k) :=
  get?_canonicalizeAliases twins _

theorem keysDistinct_normalizeFields : (normalizeFields [] data).KeysDistinct :=
  (distinct_normalizeFields (.map List.Pairwise.nil nofun) data).keys

theorem said_comm_none (h : said data k t = none) : said data t k = none := by
  rw [said, Option.or_eq_none_iff] at h ⊢
  exact h.symm

theorem Twins.ne_vms (twins : Twins k t) : k ≠ "vms" := by
  simp only [Twins, aliasPairs, List.mem_cons, Prod.mk.injEq, List.not_mem_nil, or_false] at twins
  rcases twins with (⟨rfl, rfl⟩ | ⟨rfl, rfl⟩ | ⟨rfl, rfl⟩) | (⟨rfl, rfl⟩ | ⟨rfl, rfl⟩ | ⟨rfl, rfl⟩) <;> decide

theorem base_none (twins : Twins k t) (h : ((loadOne lower data).pop (.str "vms")).get? (.str k) = none) :
    ((loadOne lower data).pop (.str "vms")).get? (.str t) = none := by
  rw [Fields.get?_pop, if_neg twins.ne_vms.symm, get?_loadOne twins, Option.map_eq_none_iff] at h
  rw [Fields.get?_pop, if_neg twins.symm.ne_vms.symm, get?_loadOne twins.symm, said_comm_none h]
  rfl

theorem carries_iff (both : ∀ k t, Twins k t → base.get? (.str k) = none → base.get? (.str t) = none)
    (distinct : vm.KeysDistinct) :
    Carries lower (canonicalizeAliases lower (mergeDicts mode base vm)) vm ↔ Yields lower mode base vm := by
  refine forall₄_congr fun k t v twins => imp_congr_right fun sets => ?_
  rw [get?_canonicalizeAliases twins, get?_mergeDicts distinct, get?_mergeDicts distinct]
  cases own : vm.get? (.str k) with
  | some x =>
    have same : x = v := by simpa [said, own] using sets
    subst same
    simp only [Option.some_or, Option.map_some, Option.some.injEq, exists_eq_left', upToLower_merged_iff .same,
      forall_const, reduceCtorEq, false_imp_iff, and_true]
  | none =>
    have other : vm.get? (.str t) = some v := by simpa [said, own] using sets
    rw [other]
    cases old : base.get? (.str k) with
    | some x => simp
    | none =>
      rw [both k t twins old]
      simp only [mergeValue_none, Option.none_or, Option.map_some, Option.some.injEq, exists_eq_left']
      exact iff_of_true (upToLower_canonical .same) ⟨nofun, fun _ _ h => nomatch h⟩

theorem follow_vms {vms : List Yaml} (listed : (loadOne lower data).get? (.str "vms") = some (.seq vms))
    (mem : .map vm ∈ vms) : vm.KeysDistinct := by
  rw [loadOne, get?_vms] at listed
  have whole := (distinct_normalizeFields (.map List.Pairwise.nil nofun) data).get listed
  cases whole with
  | seq h => exact (h _ mem).keys

theorem mergeVms_ok {path : String} {idx : Nat} {vms : List Yaml} {confs : List Fields}
    (merged : mergeVms mode path base idx vms = .ok confs) :
    List.Forall₂ (fun vm conf => ∃ fields, vm = .map fields ∧ conf = mergeDicts mode base fields) vms confs := by
  induction vms generalizing idx confs with
  | nil =>
    cases merged
    exact .nil
  | cons vm vms ih =>
    cases vm with
    | map fields =>
      rw [mergeVms] at merged
      cases rest : mergeVms mode path base (idx + 1) vms with
      | error e =>
        rw [rest] at merged
        cases merged
      | ok confs' =>
        rw [rest] at merged
        cases merged
        exact .cons ⟨fields, rfl, rfl⟩ (ih rest)
    | _ => cases merged

theorem expandFile_ok {path : String} {confs : List Fields}
    (expanded : expandFile mode path (loadOne lower data) = .ok confs) :
    List.Forall₂ (fun entry conf => ∀ base vm, entry = some (base, vm) → conf = mergeDicts mode base vm)
      (vmEntries lower data) confs := by
  unfold expandFile at expanded
  unfold vmEntries
  split
  · rename_i vms listed
    rw [listed] at expanded
    rw [List.forall₂_map_left_iff]
    refine (mergeVms_ok expanded).imp ?_
    rintro _ conf ⟨fields, rfl, rfl⟩ base vm same
    cases same
    rfl
  · rename_i other
    split at expanded
    · rename_i vms listed
      exact absurd listed (other vms)
    · cases expanded
      exact .cons nofun .nil

theorem expandVms_ok {files : List (String × Fields)} {confs : List Fields}
    (expanded : expandVms lower mode files = .ok confs) :
    List.Forall₂ (fun entry conf => ∀ base vm, entry = some (base, vm) → conf = mergeDicts mode base vm)
      (files.flatMap fun file => vmEntries lower file.2) confs := by
  induction files generalizing confs with
  | nil =>
    cases expanded
    exact .nil
  | cons file files ih =>
    rw [expandVms] at expanded
    rw [List.flatMap_cons]
    cases here : expandFile mode file.1 (loadOne lower file.2) with
    | error e =>
      rw [here] at expanded
      cases expanded
    | ok first =>
      cases rest : expandVms lower mode files with
      | error e =>
        rw [here, rest] at expanded
        cases expanded
      | ok others =>
        rw [here, rest] at expanded
        cases expanded
        exact List.rel_append (expandFile_ok here) (ih rest)

theorem forall₂_iff_forall {α β : Type} {R P : α → β → Prop} {Q : α → Prop} {l : List α} {m : List β}
    (related : List.Forall₂ R l m) (each : ∀ a ∈ l, ∀ b, R a b → (P a b ↔ Q a)) :
    List.Forall₂ P l m ↔ ∀ a ∈ l, Q a := by
  induction related with
  | nil => simp
  | cons first rest ih =>
    rw [List.forall_mem_cons] at each
    rw [List.forall₂_cons, List.forall_mem_cons, each.1 _ first, ih each.2]

/-- The VM entries are carried just where their bases yield. -/
theorem vmsOverride_iff {files : List (String × Fields)} {confs : List Fields}
    (loaded : loadVmConfigs lower mode files = .ok confs) :
    VmsOverride lower files confs ↔
      ∀ file ∈ files, ∀ base vm, some (base, vm) ∈ vmEntries lower file.2 → Yields lower mode base vm := by
  rw [loadVmConfigs] at loaded
  cases expanded : expandVms lower mode files with
  | error e =>
    rw [expanded] at loaded
    cases loaded
  | ok raw =>
    rw [expanded] at loaded
    cases loaded
    have each : ∀ entry ∈ files.flatMap fun file => vmEntries lower file.2, ∀ conf,
        (∀ base vm, entry = some (base, vm) → conf = mergeDicts mode base vm) →
          ((∀ base vm, entry = some (base, vm) → Carries lower (canonicalizeAliases lower conf) vm) ↔
            ∀ base vm, entry = some (base, vm) → Yields lower mode base vm) := by
      intro entry mem conf merged
      refine forall₃_congr fun base vm same => ?_
      obtain ⟨file, -, mem⟩ := List.mem_flatMap.mp mem
      rw [merged base vm same]
      rw [same, vmEntries] at mem
      split at mem
      · rename_i vms listed
        obtain ⟨value, there, eq⟩ := List.mem_map.mp mem
        cases value with
        | map fields =>
          cases eq
          exact carries_iff (fun k t twins => base_none twins) (follow_vms listed there)
        | _ => cases eq
      · cases List.mem_singleton.mp mem
    rw [VmsOverride, List.forall₂_map_right_iff, forall₂_iff_forall (expandVms_ok expanded) each]
    constructor
    · exact fun all file mem base vm there => all _ (List.mem_flatMap.mpr ⟨file, mem, there⟩) base vm rfl
    · rintro all entry mem base vm rfl
      obtain ⟨file, there, mem⟩ := List.mem_flatMap.mp mem
      exact all file there base vm mem

theorem get?_mergedFiles (twins : Twins k t) (files : List Fields) (conf : Fields) :
    (files.foldl (fun conf data => mergeDicts mode conf (loadOne lower data)) conf).get? (.str k) =
      files.foldl (fun old data =>
        match said (normalizeFields [] data) k t with
        | some v => some (mergeValue mode old (canonical lower k v))
        | none => old) (conf.get? (.str k)) := by
  induction files generalizing conf with
  | nil => rfl
  | cons data files ih =>
    have distinct : (loadOne lower data).KeysDistinct := keysDistinct_canonicalizeAliases keysDistinct_normalizeFields
    rw [List.foldl_cons, List.foldl_cons, ih, get?_mergeDicts distinct, get?_loadOne twins]
    cases said (normalizeFields [] data) k t <;> rfl

theorem foldl_silent {f : Option Yaml → Yaml → Option Yaml} {files : List Fields}
    (silent : ∀ data ∈ files, said (normalizeFields [] data) k t = none) (old : Option Yaml) :
    files.foldl (fun old data =>
      match said (normalizeFields [] data) k t with
      | some v => f old v
      | none => old) old = old := by
  induction files with
  | nil => rfl
  | cons data files ih =>
    rw [List.forall_mem_cons] at silent
    rw [List.foldl_cons, silent.1]
    exact ih silent.2

theorem get?_loadMany {files before : List Fields} (twins : Twins k t) (last : Last files before k t v) :
    (loadMany lower mode files).get? (.str k) =
      some (canonical lower k (mergeValue mode (earlier lower mode k t before) (canonical lower k v))) := by
  obtain ⟨file, after', rfl, sets, silent⟩ := last
  have some' : (before ++ file :: after').isEmpty = false := by simp
  rw [loadMany, some', if_neg Bool.false_ne_true, get?_canonicalizeAliases twins, get?_mergedFiles twins,
    List.foldl_append, List.foldl_cons, sets, foldl_silent silent]
  rfl

theorem lastDecides_iff (files : List Fields) :
    LastDecides lower mode files ↔
      ∀ before k t v, Twins k t → Last files before k t v → Stays mode (earlier lower mode k t before) v := by
  refine forall₄_congr fun before k t v => forall₂_congr fun twins last => ?_
  rw [get?_loadMany twins last]
  simp only [Option.some.injEq, exists_eq_left']
  exact upToLower_merged_iff (upToLower_canonical .same)

end lemmas

/-- A VM entry overrides an option just where its base yields, and the last file decides an option
just where merging leaves its value. -/
theorem overrides_iff (lower : String → String) (mode : ListMode) (files : List (String × Fields)) (confs : List Fields)
    (loaded : loadVmConfigs lower mode files = .ok confs) :
    (VmsOverride lower files confs ↔
      ∀ file ∈ files, ∀ base vm, some (base, vm) ∈ vmEntries lower file.2 → Yields lower mode base vm) ∧
    (LastDecides lower mode (files.map Prod.snd) ↔
      ∀ before k t v, Twins k t → Last (files.map Prod.snd) before k t v → Stays mode (earlier lower mode k t before) v) :=
  ⟨vmsOverride_iff loaded, lastDecides_iff _⟩

/-- A file with one VM, which sets `cmd`. -/
def vmCommand (base : Fields) : List (String × Fields) :=
  [("vms.yaml", base ++ [(.str "vms", .seq [.map [(.str "cmd", .str "vsphere")]])])]

theorem loaded_vmCommand : ∃ confs, loadVmConfigs id .replace (vmCommand []) = .ok confs :=
  ⟨_, by with_unfolding_all rfl⟩

theorem overrides_iff_vmCommand : ∃ confs, loadVmConfigs id .replace (vmCommand []) = .ok confs ∧
    VmsOverride id (vmCommand []) confs := by
  obtain ⟨confs, loaded⟩ := loaded_vmCommand
  refine ⟨confs, loaded, (overrides_iff id .replace _ confs loaded).1.mpr ?_⟩
  intro file mem base vm there
  obtain rfl := List.mem_singleton.mp mem
  have entries : vmEntries id [(.str "vms", .seq [.map [(.str "cmd", .str "vsphere")]])] =
      [some ([], [(.str "cmd", .str "vsphere")])] := by with_unfolding_all rfl
  rw [List.nil_append, entries, List.mem_singleton, Option.some.injEq, Prod.mk.injEq] at there
  obtain ⟨rfl, rfl⟩ := there
  exact fun k t v _ _ => ⟨fun _ => mergeValue_none, fun _ _ old => nomatch old⟩

/-- The base sets `command`, and the VM sets `cmd`. -/
theorem not_vmsOverride_command : ∃ confs,
    loadVmConfigs id .replace (vmCommand [(.str "command", .str "local")]) = .ok confs ∧
      ¬ VmsOverride id (vmCommand [(.str "command", .str "local")]) confs := by
  have loaded : loadVmConfigs id .replace (vmCommand [(.str "command", .str "local")]) =
      .ok [[(.str "command", .str "local"), (.str "cmd", .str "vsphere")]] := by with_unfolding_all rfl
  refine ⟨_, loaded, fun overrides => ?_⟩
  have entries : vmEntries id [(.str "command", .str "local"), (.str "vms", .seq [.map [(.str "cmd", .str "vsphere")]])] =
      [some ([(.str "command", .str "local"), (.str "cmd", .str "local")], [(.str "cmd", .str "vsphere")])] := by
    with_unfolding_all rfl
  have whole : (vmCommand [(.str "command", .str "local")]).flatMap (fun file => vmEntries id file.2) =
      [some ([(.str "command", .str "local"), (.str "cmd", .str "local")], [(.str "cmd", .str "vsphere")])] := by
    rw [vmCommand, List.flatMap_singleton]
    exact entries
  rw [VmsOverride, whole, List.forall₂_cons] at overrides
  obtain ⟨w, value, near⟩ := overrides.1 _ _ rfl "command" "cmd" (.str "vsphere") (.inl (by decide)) rfl
  cases value
  have same := eq_of_not_plane (by decide) near
  exact absurd (Yaml.str.inj same) (by decide)

end H2kvm.Config
