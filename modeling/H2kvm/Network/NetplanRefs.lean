import H2kvm.Network.NetplanPass

namespace H2kvm.Network.Netplan

open Framework Text Yaml

/-- The sections of netplan whose keys are ids of devices. -/
def deviceSections : List String :=
  ["ethernets", "wifis", "modems", "bonds", "bridges", "vlans", "tunnels", "vrfs", "dummy-devices",
    "virtual-ethernets", "nm-devices"]

/-- The id of a device, and the name it is given by `set-name`. -/
def namesOf (e : Yaml × Yaml) : List String := keyText e.1 :: (setName (fieldsOf e.2)).toList

def Defined (nw : Fields) (n : String) : Prop := ∃ kind ∈ deviceSections, ∃ e ∈ devices nw kind, n ∈ namesOf e

/-- A bond slave, bridge port or vlan parent. -/
def IsMember (nw : Fields) (e : Yaml × Yaml) : Prop := ∃ n ∈ namesOf e, n ∈ memberRefs nw

def HasDhcp4 (e : Yaml × Yaml) : Prop := field (fieldsOf e.2) "dhcp4" = some (.bool true)

/-- The name a reference has once it is renamed. -/
def renamed (rm : Dict String String) (s : String) : String := (rm.lookup s).getD s

section sections

variable {kind kind' : String} {fix : Fields → List String → Fields × List String} {nw : Fields} {fixes : List String}

theorem devices_eq {d : Fields} (h : field nw kind = some (.map d)) : devices nw kind = d := by
  rw [devices, h]

theorem devices_eq_nil (h : ∀ d, field nw kind ≠ some (.map d)) : devices nw kind = [] := by
  unfold devices
  split
  · rename_i d found
    exact absurd found (h d)
  · rfl

theorem devices_fixSection_other (apart : kind ≠ kind') :
    devices (fixSection kind fix nw fixes).1 kind' = devices nw kind' := by
  unfold fixSection
  split
  · simp only [devices, field_set, if_neg apart]
  · rfl

theorem devices_fixSection_self (empty : devices nw kind = [] → (fix [] fixes).1 = []) :
    devices (fixSection kind fix nw fixes).1 kind = (fix (devices nw kind) fixes).1 := by
  unfold fixSection
  split
  · rename_i d found
    rw [devices_eq found]
    exact devices_eq ((field_set _ _ _ _).trans (if_pos rfl))
  · rename_i notMap
    have none : devices nw kind = [] := devices_eq_nil notMap
    simp only [none, empty none]

theorem devices_eachDevice (each : Yaml → Fields → List String → Fields × List String) :
    List.Forall₂ (FixedBy each) (devices nw kind) (devices (fixSection kind (eachDevice each) nw fixes).1 kind) := by
  rw [devices_fixSection_self fun _ => rfl]
  exact eachDevice_fixedBy _ _

end sections

/-- The sections of the network that was fixed. -/
structure Sections (fixer : NetplanFixer) (nw nw' : Fields) : Prop where
  ethernets : devices nw' "ethernets" =
    (eachDevice (fixEthernet (context fixer nw)) (rekey fixer.path (devices nw "ethernets")).1
      (rekey fixer.path (devices nw "ethernets")).2.1).1
  bonds : List.Forall₂ (FixedBy (fixBond (context fixer nw))) (devices nw "bonds") (devices nw' "bonds")
  bridges : List.Forall₂ (FixedBy (fixBridge (context fixer nw))) (devices nw "bridges") (devices nw' "bridges")
  vlans : List.Forall₂ (FixedBy (fixVlan (context fixer nw))) (devices nw "vlans") (devices nw' "vlans")
  others : ∀ kind ∉ ["ethernets", "bonds", "bridges", "vlans"], devices nw' kind = devices nw kind

theorem fixNetwork_sections (fixer : NetplanFixer) (nw : Fields) : Sections fixer nw (fixNetwork fixer nw).1 := by
  let ctx := context fixer nw
  let rekeyed := rekey fixer.path (devices nw "ethernets")
  let s₁ := fixSection "ethernets" (fun _ fixes => eachDevice (fixEthernet ctx) rekeyed.1 fixes) nw rekeyed.2.1
  let s₂ := fixSection "bonds" (eachDevice (fixBond ctx)) s₁.1 s₁.2
  let s₃ := fixSection "bridges" (eachDevice (fixBridge ctx)) s₂.1 s₂.2
  let s₄ := fixSection "vlans" (eachDevice (fixVlan ctx)) s₃.1 s₃.2
  have result : (fixNetwork fixer nw).1 = s₄.1 := rfl
  have keep₁ (kind : String) (h : "ethernets" ≠ kind) : devices s₁.1 kind = devices nw kind :=
    devices_fixSection_other h
  have keep₂ (kind : String) (h : "bonds" ≠ kind) : devices s₂.1 kind = devices s₁.1 kind :=
    devices_fixSection_other h
  have keep₃ (kind : String) (h : "bridges" ≠ kind) : devices s₃.1 kind = devices s₂.1 kind :=
    devices_fixSection_other h
  have keep₄ (kind : String) (h : "vlans" ≠ kind) : devices s₄.1 kind = devices s₃.1 kind :=
    devices_fixSection_other h
  rw [result]
  refine ⟨?_, ?_, ?_, ?_, ?_⟩
  · rw [keep₄ _ (by decide), keep₃ _ (by decide), keep₂ _ (by decide)]
    apply devices_fixSection_self
    intro none
    have noCards : rekeyed.1 = [] := by
      simp only [rekeyed, none]
      rfl
    rw [noCards]
    rfl
  · rw [keep₄ _ (by decide), keep₃ _ (by decide), ← keep₁ _ (by decide)]
    exact devices_eachDevice _
  · rw [keep₄ _ (by decide), ← keep₁ _ (by decide), ← keep₂ _ (by decide)]
    exact devices_eachDevice _
  · rw [← keep₁ _ (by decide), ← keep₂ _ (by decide), ← keep₃ _ (by decide)]
    exact devices_eachDevice _
  · intro kind other
    simp only [List.mem_cons, List.not_mem_nil, or_false, not_or] at other
    obtain ⟨h₁, h₂, h₃, h₄⟩ := other
    rw [keep₄ _ (Ne.symm h₄), keep₃ _ (Ne.symm h₃), keep₂ _ (Ne.symm h₂), keep₁ _ (Ne.symm h₁)]

theorem fixNetwork_distinct (fixer : NetplanFixer) {nw : Fields} (h : Distinct (.map nw)) :
    Distinct (.map (fixNetwork fixer nw).1) := by
  have upper {kind r : String} {rename : Yaml → List String → Yaml × List String} (hk : Keeps rename)
      (ctx : Context) (quiet : Yaml → Bool) (d : Fields) (fixes : List String) (hd : Distinct (.map d)) :
      Distinct (.map (eachDevice (fixUpper ctx kind r rename quiet) d fixes).1) :=
    eachDevice_distinct (fun _ _ _ old => (fixUpper_edited hk).distinct old) hd fixes
  have cards : Distinct (.map (devices nw "ethernets")) := by
    by_cases found : ∃ d, field nw "ethernets" = some (.map d)
    · obtain ⟨d, found⟩ := found
      rw [devices_eq found]
      exact h.get found
    · rw [devices_eq_nil (not_exists.mp found)]
      exact .map List.Pairwise.nil fun f hf => (List.not_mem_nil hf).elim
  apply fixSection_distinct (upper (renameRef_keeps _) _ _)
  apply fixSection_distinct (upper (renameList_keeps _) _ _)
  apply fixSection_distinct (upper (renameList_keeps _) _ _)
  apply fixSection_distinct
  · intro d fixes _
    exact eachDevice_distinct (fun _ _ _ old => fixEthernet_edited.distinct old) (rekey_distinct _ cards) fixes
  · exact h

section names

variable {keys : List String} {d d' : Fields} {each : Yaml → Fields → List String → Fields × List String}

theorem setName_eq_of_edited (h : Edited keys d d') (other : "set-name" ∉ keys) : setName d' = setName d := by
  rw [setName, setName, h.field_eq other]

theorem namesOf_eq_of_fixedBy (same : ∀ k d fixes, setName (each k d fixes).1 = setName d) {e e' : Yaml × Yaml}
    (h : FixedBy each e e') : namesOf e' = namesOf e := by
  obtain ⟨key, ⟨d, fixes, old, new⟩ | ⟨-, value⟩⟩ := h
  · have name : setName (fieldsOf e'.2) = setName (fieldsOf e.2) := by
      rw [old, new]
      exact same e.1 d fixes
    rw [namesOf, namesOf, key, name]
  · rw [namesOf, namesOf, key, value]

theorem exists_names_iff (same : ∀ k d fixes, setName (each k d fixes).1 = setName d)
    (h : List.Forall₂ (FixedBy each) d d') (n : String) :
    (∃ e ∈ d', n ∈ namesOf e) ↔ ∃ e ∈ d, n ∈ namesOf e := by
  constructor
  · intro found
    obtain ⟨e', he', hn⟩ := found
    obtain ⟨e, he, fixed⟩ := exists_of_mem_right h he'
    exact ⟨e, he, namesOf_eq_of_fixedBy same fixed ▸ hn⟩
  · intro found
    obtain ⟨e, he, hn⟩ := found
    obtain ⟨e', he', fixed⟩ := exists_of_mem_left h he
    exact ⟨e', he', (namesOf_eq_of_fixedBy same fixed).symm ▸ hn⟩

theorem setName_fixEthernet (ctx : Context) (k : Yaml) (d : Fields) (fixes : List String) :
    setName (fixEthernet ctx k d fixes).1 = setName d :=
  setName_eq_of_edited fixEthernet_edited (by decide)

theorem setName_fixUpper {kind r : String} {rename : Yaml → List String → Yaml × List String} {quiet : Yaml → Bool}
    (hk : Keeps rename) (hr : r ≠ "set-name") (ctx : Context) (k : Yaml) (d : Fields) (fixes : List String) :
    setName (fixUpper ctx kind r rename quiet k d fixes).1 = setName d := by
  apply setName_eq_of_edited (fixUpper_edited hk)
  rw [List.mem_cons, not_or]
  exact ⟨Ne.symm hr, by decide⟩

theorem setName_matchAll (e : Yaml × Yaml) : setName (matchAll e) = setName (fieldsOf e.2) := by
  have same : field (matchAll e) "set-name" = field (fieldsOf e.2) "set-name" :=
    (field_set _ _ _ _).trans (if_neg (by decide))
  rw [setName, setName, same]

/-- The ethernets after the VMware cards made way. -/
theorem mem_rekey_iff {eths : Fields} (h : eths.KeysDistinct) (path : String) {e : Yaml × Yaml} :
    e ∈ (rekey path eths).1 ↔
      (e ∈ eths ∧ isVmwareNic e = false ∧ ((bestNic eths).isSome → e.1 ≠ allEn)) ∨
        ∃ best, bestNic eths = some best ∧ e = (allEn, .map (matchAll best)) := by
  unfold rekey
  split
  · rename_i none
    have noCards : ∀ e ∈ eths, isVmwareNic e = false := by
      have empty := List.head?_eq_none_iff.mp (Option.or_eq_none_iff.mp none).2
      intro e he
      exact Bool.eq_false_iff.mpr (List.filter_eq_nil_iff.mp empty e he)
    constructor
    · intro he
      exact .inl ⟨he, noCards e he, fun some => absurd some (by simp [none])⟩
    · intro he
      rcases he with ⟨he, -⟩ | ⟨best, found, -⟩
      · exact he
      · exact absurd (none.symm.trans found) (by simp)
  · rename_i best found
    refine (Fields.KeysDistinct.mem_set_iff (h.filter _)).trans ?_
    simp only [List.mem_filter, Bool.not_eq_true', found, Option.isSome_some, true_implies, Option.some.injEq,
      exists_eq_left', and_assoc]
    exact Iff.rfl

end names

/-- The names of ethernets that stay. The VMware cards go, and so does an ethernet whose place
their entry takes. -/
def KeptCard (eths : Fields) (n : String) : Prop :=
  (∃ e ∈ eths, isVmwareNic e = false ∧ ((bestNic eths).isSome → e.1 ≠ allEn) ∧ n ∈ namesOf e) ∨
    ∃ best, bestNic eths = some best ∧ n ∈ namesOf (allEn, best.2)

def Kept (nw : Fields) (n : String) : Prop :=
  (∃ kind ∈ deviceSections, kind ≠ "ethernets" ∧ ∃ e ∈ devices nw kind, n ∈ namesOf e) ∨
    KeptCard (devices nw "ethernets") n

theorem exists_names_rekey_iff {eths : Fields} (h : eths.KeysDistinct) (path n : String) :
    (∃ e ∈ (rekey path eths).1, n ∈ namesOf e) ↔ KeptCard eths n := by
  have named (best : Yaml × Yaml) : namesOf (allEn, .map (matchAll best)) = namesOf (allEn, best.2) := by
    rw [namesOf, namesOf, fieldsOf, setName_matchAll]
  constructor
  · intro found
    obtain ⟨e, he, hn⟩ := found
    rcases (mem_rekey_iff h path).mp he with ⟨old, nic, key⟩ | ⟨best, chosen, rfl⟩
    · exact .inl ⟨e, old, nic, key, hn⟩
    · exact .inr ⟨best, chosen, named best ▸ hn⟩
  · intro found
    rcases found with ⟨e, he, nic, key, hn⟩ | ⟨best, chosen, hn⟩
    · exact ⟨e, (mem_rekey_iff h path).mpr (.inl ⟨he, nic, key⟩), hn⟩
    · exact ⟨_, (mem_rekey_iff h path).mpr (.inr ⟨best, chosen, rfl⟩), (named best).symm ▸ hn⟩

theorem defined_iff_kept {fixer : NetplanFixer} {nw nw' : Fields} (h : (devices nw "ethernets").KeysDistinct)
    (sections : Sections fixer nw nw') (n : String) : Defined nw' n ↔ Kept nw n := by
  have cards : (∃ e ∈ devices nw' "ethernets", n ∈ namesOf e) ↔ KeptCard (devices nw "ethernets") n := by
    rw [sections.ethernets, exists_names_iff (setName_fixEthernet _) (eachDevice_fixedBy _ _)]
    exact exists_names_rekey_iff h fixer.path n
  have upper (kind : String) (hk : kind ≠ "ethernets") :
      (∃ e ∈ devices nw' kind, n ∈ namesOf e) ↔ ∃ e ∈ devices nw kind, n ∈ namesOf e := by
    by_cases bonds : kind = "bonds"
    · rw [bonds]
      exact exists_names_iff (setName_fixUpper (renameList_keeps _) (by decide) _) sections.bonds n
    by_cases bridges : kind = "bridges"
    · rw [bridges]
      exact exists_names_iff (setName_fixUpper (renameList_keeps _) (by decide) _) sections.bridges n
    by_cases vlans : kind = "vlans"
    · rw [vlans]
      exact exists_names_iff (setName_fixUpper (renameRef_keeps _) (by decide) _) sections.vlans n
    rw [sections.others kind (by simp [hk, bonds, bridges, vlans])]
  constructor
  · intro found
    obtain ⟨kind, known, found⟩ := found
    by_cases hk : kind = "ethernets"
    · exact .inr (cards.mp (hk ▸ found))
    · exact .inl ⟨kind, known, hk, (upper kind hk).mp found⟩
  · intro kept
    rcases kept with ⟨kind, known, hk, found⟩ | found
    · exact ⟨kind, known, (upper kind hk).mpr found⟩
    · exact ⟨"ethernets", by decide, cards.mpr found⟩

/-- The link of a vlan with what it becomes. -/
def linkPairs (rm : Dict String String) : Yaml → List (String × String)
  | .map d =>
    match field d "link" with
    | some (.str link) => if isBlank link then [] else [(stripped link, stripped (renamed rm link))]
    | _ => []
  | _ => []

/-- The references with what they become. -/
def refPairs (rm : Dict String String) (nw : Fields) : List (String × String) :=
  let listPairs := fun e : Yaml × Yaml => (listed e.2).map fun s => (s, renamed rm s)
  (devices nw "bonds").flatMap listPairs ++ (devices nw "bridges").flatMap listPairs ++
    (devices nw "vlans").flatMap fun e => linkPairs rm e.2

/-- Neither the names that are renamed nor the new ones are blank. -/
def NonBlank (rm : Dict String String) : Prop :=
  ∀ old new, rm.lookup old = some new → isBlank old = false ∧ isBlank new = false

section renames

theorem isBlank_eq_false {s : String} {c : Char} (hc : c ∈ s.toList) (visible : isSpace c = false) :
    isBlank s = false := by
  apply decide_eq_false
  intro blank
  have rest : ∀ x ∈ lstrip s.toList, isSpace x := List.rdropWhile_eq_nil_iff.mp blank
  have parts : c ∈ s.toList.takeWhile isSpace ++ s.toList.dropWhile isSpace := by
    rwa [List.takeWhile_append_dropWhile]
  have space : isSpace c := by
    rcases List.mem_append.mp parts with first | last
    · exact List.mem_takeWhile_imp first
    · exact rest c last
  rw [visible] at space
  cases space

theorem isBlank_eq_false_of_eth (s : String) : isBlank ("eth" ++ s) = false := by
  have first : 'e' ∈ ("eth" ++ s).toList := by
    rw [String.toList_append]
    exact List.mem_append_left _ (by decide)
  exact isBlank_eq_false first (by decide)

theorem isBlank_getSafeInterfaceName (current : String) :
    isBlank (TopologyGraph.getSafeInterfaceName current) = false := by
  unfold TopologyGraph.getSafeInterfaceName
  simp only
  split
  · exact isBlank_eq_false_of_eth "0"
  · exact isBlank_eq_false_of_eth _

theorem isBlank_avoidConflict (used : List String) {new : String} (h : isBlank new = false) :
    isBlank (TopologyGraph.avoidConflict used new) = false := by
  unfold TopologyGraph.avoidConflict
  simp only
  cases found : List.find? _ _ with
  | none => exact h
  | some cand =>
    obtain ⟨k, -, rfl⟩ := List.mem_map.mp (List.mem_of_find?_eq_some found)
    exact isBlank_eq_false_of_eth _

theorem isBlank_eq_false_of_needsRename {old : String} (h : TopologyGraph.needsInterfaceRename old = true) :
    isBlank old = false := by
  apply decide_eq_false
  intro blank
  rw [TopologyGraph.needsInterfaceRename, blank] at h
  exact absurd h (by decide)

theorem planRename_nonBlank (nodes : List (String × DeviceKind)) (used : List String) :
    ∀ p ∈ (nodes.foldl TopologyGraph.planRename ([], used)).1, isBlank p.1 = false ∧ isBlank p.2 = false := by
  apply List.foldlRecOn nodes TopologyGraph.planRename
    (motive := fun plan => ∀ p ∈ plan.1, isBlank p.1 = false ∧ isBlank p.2 = false)
  · intro p hp
    cases hp
  intro plan ih node _ p hp
  unfold TopologyGraph.planRename at hp
  simp only at hp
  split at hp
  · exact ih p hp
  rename_i due
  have needs : TopologyGraph.needsInterfaceRename node.1 = true := by
    by_contra no
    exact due (.inr (by simpa using no))
  have added (new : String) (hn : isBlank new = false)
      (hp : p ∈ (if node.1 ≠ new then (plan.1 ++ [(node.1, new)], new :: plan.2) else plan).1) :
      isBlank p.1 = false ∧ isBlank p.2 = false := by
    split at hp
    · rcases List.mem_append.mp hp with old | new
      · exact ih p old
      · rw [List.mem_singleton.mp new]
        exact ⟨isBlank_eq_false_of_needsRename needs, hn⟩
    · exact ih p hp
  split at hp
  · exact added _ (isBlank_avoidConflict _ (isBlank_getSafeInterfaceName _)) hp
  · exact added _ (isBlank_getSafeInterfaceName _) hp

theorem NonBlank.insert {rm : Dict String String} (h : NonBlank rm) {old new : String} (ho : isBlank old = false)
    (hn : isBlank new = false) : NonBlank (rm.insert old new) := by
  intro a b found
  by_cases same : a = old
  · subst same
    rw [AList.lookup_insert, Option.some.injEq] at found
    exact ⟨ho, found ▸ hn⟩
  · rw [AList.lookup_insert_ne same] at found
    exact h a b found

theorem computeRenameMap_nonBlank (level : FixLevel) (topo : TopologyGraph) :
    NonBlank (topo.computeRenameMap level) := by
  have empty : NonBlank ∅ := fun _ _ found => absurd found (by simp)
  unfold TopologyGraph.computeRenameMap
  split
  · exact empty
  have planned := planRename_nonBlank topo.nodes (topo.nodes.map Prod.fst)
  unfold TopologyGraph.renameMapPropagate
  simp only
  -- A name under a renamed one has a dot in it, before and after.
  apply List.foldlRecOn (motive := NonBlank)
  · apply List.foldlRecOn (motive := NonBlank)
    · exact empty
    · intro out ih p hp
      exact ih.insert (planned p hp).1 (planned p hp).2
  · intro out ih p hp
    apply List.foldlRecOn (motive := NonBlank)
    · exact ih
    · intro out ih n _
      split
      · exact ih
      · rename_i rest found
        have lead : p.1.toList ++ ['.'] <+: n.toList := by
          by_contra no
          rw [after, if_neg no] at found
          cases found
        have dot : '.' ∈ n.toList := lead.subset (by simp)
        have dot' : '.' ∈ (String.ofList (p.2.toList ++ '.' :: rest)).toList := by simp
        exact ih.insert (isBlank_eq_false dot (by decide)) (isBlank_eq_false dot' (by decide))

end renames

section references

variable {rm : Dict String String} {d d' : Fields} {fixes : List String}

theorem listed_eq_of_field (h : field d' "interfaces" = (field d "interfaces").map fun v => (renameList rm v fixes).1) :
    listed (.map d') = (listed (.map d)).map (renamed rm) := by
  simp only [listed]
  rw [h]
  cases field d "interfaces" with
  | none => rfl
  | some v =>
    cases v with
    | seq items =>
      show strings (items.map _) = (strings items).map (renamed rm)
      induction items with
      | nil => rfl
      | cons item items ih =>
        cases item with
        | str s =>
          have new : (rm.lookup s).elim (Yaml.str s) .str = .str (renamed rm s) := by
            rw [renamed]
            cases rm.lookup s with
            | none => rfl
            | some new => rfl
          simp only [List.map_cons, strings, new, ih]
        | _ => exact ih
    | _ => rfl

theorem isBlank_renamed (hb : NonBlank rm) (s : String) : isBlank (renamed rm s) = isBlank s := by
  rw [renamed]
  cases found : rm.lookup s with
  | none => rfl
  | some new =>
    obtain ⟨old, new⟩ := hb s new found
    rw [old]
    exact new

theorem linked_eq_of_field (hb : NonBlank rm)
    (h : field d' "link" = (field d "link").map fun v => (renameRef rm v fixes).1) :
    linked (.map d') = (linkPairs rm (.map d)).map Prod.snd := by
  simp only [linked, linkPairs]
  rw [h]
  cases field d "link" with
  | none => rfl
  | some v =>
    cases v with
    | str link =>
      have new : (renameRef rm (.str link) fixes).1 = .str (renamed rm link) := by
        rw [renameRef, renamed]
        cases rm.lookup link with
        | none => rfl
        | some new => rfl
      simp only [Option.map_some, new, isBlank_renamed hb]
      cases isBlank link with
      | true => rfl
      | false => rfl
    | _ => rfl

theorem linked_eq_fst (v : Yaml) : linked v = (linkPairs rm v).map Prod.fst := by
  cases v with
  | map d =>
    simp only [linked, linkPairs]
    cases field d "link" with
    | none => rfl
    | some v =>
      cases v with
      | str link =>
        simp only
        cases isBlank link with
        | true => rfl
        | false => rfl
      | _ => rfl
  | _ => rfl

theorem memberRefs_eq_fst (rm : Dict String String) (nw : Fields) :
    memberRefs nw = (refPairs rm nw).map Prod.fst := by
  have lists (d : Fields) : d.flatMap (fun e => listed e.2) =
      (d.flatMap fun e => (listed e.2).map fun s => (s, renamed rm s)).map Prod.fst := by
    rw [List.map_flatMap]
    apply List.flatMap_congr
    intro e _
    rw [List.map_map]
    exact (List.map_id _).symm
  have links (d : Fields) : d.flatMap (fun e => linked e.2) = (d.flatMap fun e => linkPairs rm e.2).map Prod.fst := by
    rw [List.map_flatMap]
    exact List.flatMap_congr fun e _ => linked_eq_fst e.2
  rw [memberRefs, lists, lists, links, refPairs, List.map_append, List.map_append]

theorem flatMap_eq_of_forall₂ {α β γ : Type*} {R : α → β → Prop} {l : List α} {l' : List β} {f : β → List γ}
    {g : α → List γ} (h : List.Forall₂ R l l') (same : ∀ a b, R a b → f b = g a) : l'.flatMap f = l.flatMap g := by
  induction h with
  | nil => rfl
  | cons first _ ih => rw [List.flatMap_cons, List.flatMap_cons, same _ _ first, ih]

theorem flatMap_of_fixedBy {each : Yaml → Fields → List String → Fields × List String} {f : Yaml → List String}
    {g : Yaml → List (String × String)} (h : List.Forall₂ (FixedBy each) d d')
    (same : ∀ k d fixes, f (.map (each k d fixes).1) = (g (.map d)).map Prod.snd)
    (rest : ∀ v, (∀ d, v ≠ .map d) → f v = (g v).map Prod.snd) :
    d'.flatMap (fun e => f e.2) = (d.flatMap fun e => g e.2).map Prod.snd := by
  rw [List.map_flatMap]
  apply flatMap_eq_of_forall₂ h
  intro e e' fixed
  obtain ⟨-, ⟨m, fixes, old, new⟩ | ⟨other, value⟩⟩ := fixed
  · rw [old, new]
    exact same e.1 m fixes
  · rw [value]
    exact rest e.2 other

theorem memberRefs_eq_snd {fixer : NetplanFixer} {nw nw' : Fields} (hb : NonBlank fixer.renameMap)
    (sections : Sections fixer nw nw') : memberRefs nw' = (refPairs fixer.renameMap nw).map Prod.snd := by
  have lists {kind : String} {quiet : Yaml → Bool} {d d' : Fields} (h : List.Forall₂ (FixedBy (fixUpper (context fixer nw) kind
      "interfaces" (renameList fixer.renameMap) quiet)) d d') : d'.flatMap (fun e => listed e.2) =
      (d.flatMap fun e => (listed e.2).map fun s => (s, renamed fixer.renameMap s)).map Prod.snd := by
    apply flatMap_of_fixedBy (g := fun v => (listed v).map fun s => (s, renamed fixer.renameMap s)) h
    · intro k d fixes
      obtain ⟨fixes', field⟩ := field_fixUpper (r := "interfaces") (context fixer nw) kind (renameList fixer.renameMap)
        quiet k d fixes (by decide)
      rw [listed_eq_of_field field, List.map_map]
      rfl
    · intro v other
      cases v with
      | map d => exact absurd rfl (other d)
      | _ => rfl
  have links : (devices nw' "vlans").flatMap (fun e => linked e.2) =
      ((devices nw "vlans").flatMap fun e => linkPairs fixer.renameMap e.2).map Prod.snd := by
    apply flatMap_of_fixedBy sections.vlans
    · intro k d fixes
      obtain ⟨fixes', field⟩ := field_fixUpper (r := "link") (context fixer nw) "vlan" (renameRef fixer.renameMap)
        (fun _ => false) k d fixes (by decide)
      exact linked_eq_of_field hb field
    · intro v other
      cases v with
      | map d => exact absurd rfl (other d)
      | _ => rfl
  rw [memberRefs, lists sections.bonds, lists sections.bridges, links, refPairs, List.map_append, List.map_append]

end references

end H2kvm.Network.Netplan
