import Mathlib.Data.List.Forall2
import H2kvm.Framework.Yaml
import H2kvm.Network.Renames

namespace H2kvm.Network

open Framework Text Yaml

/-- `yaml.safe_load` and `yaml.safe_dump`. Dictionaries are loaded with distinct keys, and what
was dumped reads back as it was. -/
structure YamlCodec where
  Content : Type
  safeLoad : Content → Except String Yaml
  safeDump : Yaml → Content
  load_distinct : ∀ {content v}, safeLoad content = .ok v → v.Distinct
  load_dump : ∀ {v}, v.Distinct → safeLoad (safeDump v) = .ok v

structure FixResult (Content : Type) where
  newContent : Content
  appliedFixes : List String
  validationErrors : List String := []
  warnings : List String := []

/-- `VMWARE_DRIVERS`. -/
def vmwareDrivers : List String := ["vmxnet3", "e1000", "e1000e", "vmxnet", "vlance", "pvscsi", "vmw_pvscsi"]

/-- `str(key)` of the key of a dictionary. -/
def keyText (k : Yaml) : String := k.hashableText.getD ""

def stripped (s : String) : String := String.ofList (strip s.toList)

def isBlank (s : String) : Bool := strip s.toList = []

/-- What the backend is set to; `str` is Python's. -/
structure NetplanFixer where
  level : FixLevel
  yamlAvailable : Bool := true
  str : Yaml → String
  path : String
  topo : Option TopologyGraph
  renameMap : Dict String String

namespace Netplan

def field (d : Fields) (k : String) : Option Yaml := d.get? (.str k)

/-- The entries of a section, if it is a dictionary. -/
def devices (nw : Fields) (kind : String) : Fields :=
  match field nw kind with
  | some (.map d) => d
  | _ => []

def strings : List Yaml → List String
  | [] => []
  | .str s :: items => s :: strings items
  | _ :: items => strings items

/-- The interfaces a bond or bridge lists. -/
def listed : Yaml → List String
  | .map d =>
    match field d "interfaces" with
    | some (.seq items) => strings items
    | _ => []
  | _ => []

/-- The parent a vlan names. -/
def linked : Yaml → List String
  | .map d =>
    match field d "link" with
    | some (.str link) => if isBlank link then [] else [stripped link]
    | _ => []
  | _ => []

/-- `_netplan_collect_member_refs`. -/
def memberRefs (nw : Fields) : List String :=
  (devices nw "bonds").flatMap (fun e => listed e.2) ++ (devices nw "bridges").flatMap (fun e => listed e.2) ++
    (devices nw "vlans").flatMap (fun e => linked e.2)

def setName (d : Fields) : Option String :=
  match field d "set-name" with
  | some (.str s) => if isBlank s then none else some (stripped s)
  | _ => none

/-- `_netplan_collect_setname_aliases`. -/
def setNameAliases (nw : Fields) : Dict String String :=
  (devices nw "ethernets").foldl (fun aliases e =>
    match e.2 with
    | .map d => (setName d).elim aliases (aliases.insert (keyText e.1))
    | _ => aliases) ∅

/-- `_netplan_iface_has_static_intent`. -/
def hasStaticIntent (d : Fields) : Bool :=
  ["addresses", "gateway4", "gateway6", "routes", "routing-policy", "nameservers"].any fun k => (field d k).isSome

/-- The fixer at one document: what it is set to, and the names it collected. -/
structure Context where
  fixer : NetplanFixer
  members : List String
  aliases : Dict String String
  renderer : List Char

def context (fixer : NetplanFixer) (nw : Fields) : Context where
  fixer := fixer
  members := memberRefs nw
  aliases := setNameAliases nw
  renderer :=
    match field nw "renderer" with
    | none => []
    | some v => if v.truthy then lower (fixer.str v).toList else []

namespace Context

variable (ctx : Context)

def managed : Bool := ctx.renderer = "networkmanager".toList

def edges : List TopoEdge := ctx.fixer.topo.elim [] TopologyGraph.edges

def allowAutoDhcpAlways : Bool := ctx.fixer.level = .aggressive && !ctx.managed

def isModerate : Bool := ctx.fixer.level = .moderate && !ctx.managed

/-- `is_member`. -/
def isMember (name : String) : Bool :=
  decide (name ∈ ctx.members) ||
    (ctx.aliases.lookup name).any (fun other => decide (other ∈ ctx.members)) ||
    ctx.aliases.entries.any (fun e => e.2 = name && decide (e.1 ∈ ctx.members)) ||
    TopologyGraph.isLowerLayerMember name ctx.edges

end Context

/-- `del d[k]` for a key that is there, with the tag of the fix. -/
def remove (k tag : String) (d : Fields) (fixes : List String) : Fields × List String :=
  if (field d k).isSome then (d.pop (.str k), fixes ++ [tag ++ "-removed-" ++ k]) else (d, fixes)

/-- The hardware address in `match` is removed, and `match` with it if nothing else is there. -/
def scrubMatch (tag : String) (d : Fields) (fixes : List String) : Fields × List String :=
  match field d "match" with
  | some (.map m) =>
    if (field m "macaddress").isNone then (d, fixes)
    else
      let m := Fields.pop m (.str "macaddress")
      if m.isEmpty then
        (d.pop (.str "match"), fixes ++ [tag ++ "-removed-match-mac", tag ++ "-removed-empty-match"])
      else (d.set (.str "match") (.map m), fixes ++ [tag ++ "-removed-match-mac"])
  | _ => (d, fixes)

/-- `scrub_mac`. -/
def scrubMac (level : FixLevel) (tag : String) (d : Fields) (fixes : List String) : Fields × List String :=
  if !level.atLeastModerate then (d, fixes)
  else
    let (d, fixes) := scrubMatch tag d fixes
    let (d, fixes) := remove "macaddress" tag d fixes
    remove "cloned-mac-address" tag d fixes

/-- The removal of a `driver` that names a VMware driver. -/
def dropDriver (str : Yaml → String) (tag : String) (d : Fields) (fixes : List String) : Fields × List String :=
  match field d "driver" with
  | none => (d, fixes)
  | some v =>
    let drv := if v.truthy then lower (str v).toList else []
    match vmwareDrivers.find? fun name => decide (name.toList <:+: drv) with
    | none => (d, fixes)
    | some name => (d.pop (.str "driver"), fixes ++ [tag ++ "-removed-vmware-driver-" ++ name])

def enableDhcp (tag : String) (d : Fields) (fixes : List String) : Fields × List String :=
  (d.set (.str "dhcp4") (.bool true), fixes ++ [tag ++ "-enabled-dhcp4"])

/-- Goes through the dictionaries of a section. -/
def eachDevice (fix : Yaml → Fields → List String → Fields × List String) :
    Fields → List String → Fields × List String
  | [], fixes => ([], fixes)
  | (k, .map d) :: rest, fixes =>
    let (d, fixes) := fix k d fixes
    let (rest, fixes) := eachDevice fix rest fixes
    ((k, .map d) :: rest, fixes)
  | e :: rest, fixes =>
    let (rest, fixes) := eachDevice fix rest fixes
    (e :: rest, fixes)

/-- An ethernet under a name of VMware's that has no `match` of its own. -/
def isVmwareNic (e : Yaml × Yaml) : Bool :=
  match e.2 with
  | .map d =>
    isVmwareName (keyText e.1).toList &&
      match field d "match" with
      | some (.map m) => m.isEmpty
      | _ => true
  | _ => false

def fieldsOf : Yaml → Fields
  | .map d => d
  | _ => []

/-- The VMware card that is kept: the first with a static configuration, else the first. -/
def bestNic (eths : Fields) : Option (Yaml × Yaml) :=
  let nics := eths.filter isVmwareNic
  (nics.find? fun e => hasStaticIntent (fieldsOf e.2)).or nics.head?

def allEn : Yaml := .str "all-en"

/-- The configuration of a card, matched by a wildcard. -/
def matchAll (e : Yaml × Yaml) : Fields := (fieldsOf e.2).set (.str "match") (.map [(.str "name", .str "en*")])

/-- The VMware cards make way for one entry that matches by a wildcard. -/
def rekey (path : String) (eths : Fields) : Fields × List String × List String :=
  match bestNic eths with
  | none => (eths, [], [])
  | some best =>
    let rest := eths.filter fun e => !isVmwareNic e
    let dropped := (eths.filter isVmwareNic).filter fun e => !sameKey e.1 best.1
    let lost := dropped.filter fun e => hasStaticIntent (fieldsOf e.2)
    (Fields.set rest allEn (.map (matchAll best)),
      ("eth-" ++ keyText best.1 ++ "-replaced-vmware-nic-name-with-match") ::
        dropped.map (fun e => "eth-" ++ keyText e.1 ++ "-merged-into-all-en"),
      lost.map fun e => path ++ ": Dropped static config from " ++ keyText e.1 ++ " (merged into all-en from " ++
        keyText best.1 ++ "). Review network config after boot — static addresses may be lost.")

/-- The decision to enable DHCP on an ethernet, once it was cleaned up. -/
def dhcpDue (ctx : Context) (k : Yaml) (d : Fields) (fixes : List String) : Bool :=
  let tag := "eth-" ++ keyText k ++ "-"
  let modified := fixes.any fun f => decide (tag.toList <:+: f.toList)
  let member := ctx.isMember (keyText k) || (setName d).any ctx.isMember
  (ctx.allowAutoDhcpAlways || ctx.isModerate && modified) && !hasStaticIntent d && (field d "dhcp4").isNone && !member

/-- The pinning and the driver are taken off. -/
def cleanEthernet (ctx : Context) (k : Yaml) (d : Fields) (fixes : List String) : Fields × List String :=
  let tag := "eth-" ++ keyText k
  let (d, fixes) := scrubMac ctx.fixer.level tag d fixes
  dropDriver ctx.fixer.str tag d fixes

def fixEthernet (ctx : Context) (k : Yaml) (d : Fields) (fixes : List String) : Fields × List String :=
  let (d, fixes) := cleanEthernet ctx k d fixes
  if dhcpDue ctx k d fixes then enableDhcp ("eth-" ++ keyText k) d fixes else (d, fixes)

/-- `rename_list` on the value of `interfaces`. -/
def renameList (rm : Dict String String) (v : Yaml) (fixes : List String) : Yaml × List String :=
  match v with
  | .seq items =>
    let renamed := fun
      | .str s => (rm.lookup s).elim (.str s) .str
      | item => item
    let changed := (strings items).any fun s => decide (s ∈ rm)
    (.seq (items.map renamed), if changed then fixes ++ ["netplan-renamed-interfaces-ref"] else fixes)
  | v => (v, fixes)

/-- `rename_ref` on the value of `link`. -/
def renameRef (rm : Dict String String) (v : Yaml) (fixes : List String) : Yaml × List String :=
  match v with
  | .str s =>
    match rm.lookup s with
    | some new => (.str new, fixes ++ ["netplan-renamed-vlan-link"])
    | none => (.str s, fixes)
  | v => (v, fixes)

def renameField (k : String) (rename : Yaml → List String → Yaml × List String) (d : Fields)
    (fixes : List String) : Fields × List String :=
  match field d k with
  | none => (d, fixes)
  | some v =>
    let (v, fixes) := rename v fixes
    (d.set (.str k) v, fixes)

/-- What bonds, bridges and vlans have in common: the references under `k` are renamed, and DHCP
is enabled where `quiet` does not forbid it. -/
def fixUpper (ctx : Context) (kind k : String) (rename : Yaml → List String → Yaml × List String)
    (quiet : Yaml → Bool) (name : Yaml) (d : Fields) (fixes : List String) : Fields × List String :=
  let tag := kind ++ "-" ++ keyText name
  let (d, fixes) := scrubMac ctx.fixer.level tag d fixes
  let (d, fixes) := renameField k rename d fixes
  if ctx.allowAutoDhcpAlways && !hasStaticIntent d && (field d "dhcp4").isNone && !quiet name then enableDhcp tag d fixes
  else (d, fixes)

/-- A bond that is a port of a bridge. -/
def isPort (ctx : Context) : Yaml → Bool
  | .str name => ctx.edges.any fun e => e.kind = .port && (name = e.src || name = e.dst)
  | _ => false

def fixBond (ctx : Context) : Yaml → Fields → List String → Fields × List String :=
  fixUpper ctx "bond" "interfaces" (renameList ctx.fixer.renameMap) (isPort ctx)

def fixBridge (ctx : Context) : Yaml → Fields → List String → Fields × List String :=
  fixUpper ctx "bridge" "interfaces" (renameList ctx.fixer.renameMap) fun _ => false

def fixVlan (ctx : Context) : Yaml → Fields → List String → Fields × List String :=
  fixUpper ctx "vlan" "link" (renameRef ctx.fixer.renameMap) fun _ => false

/-- Fixes a section in its place, if it is a dictionary. -/
def fixSection (kind : String) (fix : Fields → List String → Fields × List String) (nw : Fields)
    (fixes : List String) : Fields × List String :=
  match field nw kind with
  | some (.map d) =>
    let (d, fixes) := fix d fixes
    (nw.set (.str kind) (.map d), fixes)
  | _ => (nw, fixes)

/-- The whole pass over `network`. -/
def fixNetwork (fixer : NetplanFixer) (nw : Fields) : Fields × List String × List String :=
  let ctx := context fixer nw
  let (rekeyed, fixes, warnings) := rekey fixer.path (devices nw "ethernets")
  let (nw, fixes) := fixSection "ethernets" (fun _ fixes => eachDevice (fixEthernet ctx) rekeyed fixes) nw fixes
  let (nw, fixes) := fixSection "bonds" (eachDevice (fixBond ctx)) nw fixes
  let (nw, fixes) := fixSection "bridges" (eachDevice (fixBridge ctx)) nw fixes
  let (nw, fixes) := fixSection "vlans" (eachDevice (fixVlan ctx)) nw fixes
  let overridden := ctx.managed && fixes.any fun f => decide ("enabled-dhcp4".toList <:+: f.toList)
  let warning := fixer.path ++
    ": renderer=NetworkManager detected; DHCP changes may be overridden by NM profiles."
  (nw, fixes, if overridden then warnings ++ [warning] else warnings)

/-- `fix_netplan`. -/
def fixNetplan (codec : YamlCodec) (fixer : NetplanFixer) (content : codec.Content) : FixResult codec.Content :=
  if !fixer.yamlAvailable then ⟨content, [], ["YAML support not available"], []⟩
  else
    match codec.safeLoad content with
    | .error e => ⟨content, [], ["YAML parse error: " ++ e], []⟩
    | .ok loaded =>
      match loaded.orEmptyDict with
      | .map data =>
        match field data "network" with
        | some (.map nw) =>
          let (nw, fixes, warnings) := fixNetwork fixer nw
          ⟨codec.safeDump (.map (Fields.set data (.str "network") (.map nw))), fixes, [], warnings⟩
        | _ => ⟨content, [], ["Missing 'network:' section"], []⟩
      | _ => ⟨content, [], ["Netplan YAML is not a dict"], []⟩

end Netplan

end H2kvm.Network

namespace H2kvm.Network.Netplan

open Framework Yaml

theorem field_set (d : Fields) (s k : String) (v : Yaml) :
    field (d.set (.str s) v) k = if s = k then some v else field d k :=
  Fields.get?_set d s k v

theorem field_pop (d : Fields) (s k : String) :
    field (d.pop (.str s)) k = if s = k then none else field d k :=
  Fields.get?_pop d s k

/-- `d'` comes from `d` by setting and removing some of `keys`. -/
inductive Edited (keys : List String) (d : Fields) : Fields → Prop where
  | refl : Edited keys d d
  | pop {d' : Fields} {k : String} (mem : k ∈ keys) (h : Edited keys d d') : Edited keys d (d'.pop (.str k))
  | set {d' : Fields} {k : String} {v : Yaml} (mem : k ∈ keys) (hv : Distinct (.map d) → Distinct v)
      (h : Edited keys d d') : Edited keys d (d'.set (.str k) v)

namespace Edited

variable {keys keys' : List String} {d d' d'' : Fields} {k : String}

/-- All other fields are left alone. -/
theorem field_eq (h : Edited keys d d') (other : k ∉ keys) : field d' k = field d k := by
  induction h with
  | refl => rfl
  | pop mem _ ih =>
    have apart := ne_of_mem_of_not_mem mem other
    rw [field_pop, if_neg apart, ih]
  | set mem _ _ ih =>
    have apart := ne_of_mem_of_not_mem mem other
    rw [field_set, if_neg apart, ih]

theorem distinct (h : Edited keys d d') (hd : Distinct (.map d)) : Distinct (.map d') := by
  induction h with
  | refl => exact hd
  | pop _ _ ih => exact ih.filterFields _
  | set _ hv _ ih => exact ih.setField _ (hv hd)

theorem trans (h : Edited keys d d') (h' : Edited keys' d' d'') (sub : ∀ k ∈ keys', k ∈ keys) : Edited keys d d'' := by
  induction h' with
  | refl => exact h
  | pop mem _ ih => exact .pop (sub _ mem) ih
  | set mem hv _ ih => exact .set (sub _ mem) (fun hd => hv (h.distinct hd)) ih

theorem mono (h : Edited keys d d') (sub : ∀ k ∈ keys, k ∈ keys') : Edited keys' d d' :=
  trans .refl h sub

end Edited

section edits

variable {d : Fields} {level : FixLevel} {tag : String} {fixes : List String}

def macKeys : List String := ["match", "macaddress", "cloned-mac-address"]

theorem remove_edited (k : String) : Edited [k] d (remove k tag d fixes).1 := by
  unfold remove
  split
  · exact .pop (by simp) .refl
  · exact .refl

theorem scrubMatch_edited : Edited ["match"] d (scrubMatch tag d fixes).1 := by
  unfold scrubMatch
  split
  · rename_i m found
    split
    · exact .refl
    simp only
    split
    · exact .pop (by decide) .refl
    · exact .set (by decide) (fun hd => (hd.get found).filterFields _) .refl
  · exact .refl

theorem scrubMac_edited : Edited macKeys d (scrubMac level tag d fixes).1 := by
  unfold scrubMac
  split
  · exact .refl
  · apply Edited.trans _ (remove_edited "cloned-mac-address") (by decide)
    apply Edited.trans _ (remove_edited "macaddress") (by decide)
    exact scrubMatch_edited.mono (by decide)

theorem dropDriver_edited {str : Yaml → String} : Edited ["driver"] d (dropDriver str tag d fixes).1 := by
  unfold dropDriver
  split
  · exact .refl
  simp only
  split
  · exact .refl
  · exact .pop (by simp) .refl

/-- The keys the fix of an ethernet takes away before it looks at DHCP. -/
def cleanedKeys : List String := "driver" :: macKeys

variable {ctx : Context} {k : Yaml}

theorem cleanEthernet_edited : Edited cleanedKeys d (cleanEthernet ctx k d fixes).1 := by
  unfold cleanEthernet
  have scrubbed : Edited cleanedKeys d (scrubMac ctx.fixer.level ("eth-" ++ keyText k) d fixes).1 :=
    scrubMac_edited.mono (by decide)
  exact scrubbed.trans dropDriver_edited (by decide)

theorem fixEthernet_edited : Edited ("dhcp4" :: cleanedKeys) d (fixEthernet ctx k d fixes).1 := by
  unfold fixEthernet
  have cleaned : Edited ("dhcp4" :: cleanedKeys) d (cleanEthernet ctx k d fixes).1 :=
    cleanEthernet_edited.mono (by decide)
  simp only
  split
  · exact .set (by decide) (fun _ => .bool true) cleaned
  · exact cleaned

/-- What the fix of an ethernet leaves of `dhcp4`. -/
theorem field_dhcp4_fixEthernet :
    field (fixEthernet ctx k d fixes).1 "dhcp4" =
      if dhcpDue ctx k (cleanEthernet ctx k d fixes).1 (cleanEthernet ctx k d fixes).2 then some (.bool true)
      else field d "dhcp4" := by
  unfold fixEthernet
  simp only
  split
  · exact (field_set _ _ _ _).trans (if_pos rfl)
  · exact cleanEthernet_edited.field_eq (by decide)

/-- A renaming of references that keeps dictionaries distinct. -/
def Keeps (rename : Yaml → List String → Yaml × List String) : Prop :=
  ∀ v fixes, Distinct v → Distinct (rename v fixes).1

theorem renameList_keeps (rm : Dict String String) : Keeps (renameList rm) := by
  intro v fixes hv
  unfold renameList
  split
  · rename_i items
    refine .seq ?_
    intro item hi
    obtain ⟨old, ho, rfl⟩ := List.mem_map.mp hi
    cases hv with
    | seq h =>
      split
      · cases rm.lookup _ with
        | none => exact .str _
        | some new => exact .str new
      · exact h old ho
  · exact hv

theorem renameRef_keeps (rm : Dict String String) : Keeps (renameRef rm) := by
  intro v fixes hv
  unfold renameRef
  split
  · split
    · exact .str _
    · exact hv
  · exact hv

variable {kind r : String} {rename : Yaml → List String → Yaml × List String} {quiet : Yaml → Bool}

theorem renameField_edited (hk : Keeps rename) : Edited [r] d (renameField r rename d fixes).1 := by
  unfold renameField
  split
  · exact .refl
  · rename_i v found
    exact .set (by simp) (fun hd => hk v fixes (hd.get found)) .refl

theorem fixUpper_edited (hk : Keeps rename) :
    Edited (r :: "dhcp4" :: macKeys) d (fixUpper ctx kind r rename quiet k d fixes).1 := by
  have renamed : Edited (r :: "dhcp4" :: macKeys) d (renameField r rename
      (scrubMac ctx.fixer.level (kind ++ "-" ++ keyText k) d fixes).1
      (scrubMac ctx.fixer.level (kind ++ "-" ++ keyText k) d fixes).2).1 := by
    apply Edited.trans _ (renameField_edited hk) (by simp)
    exact scrubMac_edited.mono fun s hs => List.mem_cons_of_mem _ (List.mem_cons_of_mem _ hs)
  unfold fixUpper
  simp only
  split
  · exact .set (List.mem_cons_of_mem _ List.mem_cons_self) (fun _ => .bool true) renamed
  · exact renamed

theorem field_fixUpper (ctx : Context) (kind : String) (rename : Yaml → List String → Yaml × List String)
    (quiet : Yaml → Bool) (k : Yaml) (d : Fields) (fixes : List String) (hr : r ∉ "dhcp4" :: macKeys) :
    ∃ fixes', field (fixUpper ctx kind r rename quiet k d fixes).1 r =
      (field d r).map fun v => (rename v fixes').1 := by
  obtain ⟨notDhcp, notMac⟩ := not_or.mp (mt List.mem_cons.mpr hr)
  let scrubbed := scrubMac ctx.fixer.level (kind ++ "-" ++ keyText k) d fixes
  have same : field scrubbed.1 r = field d r := scrubMac_edited.field_eq notMac
  have renamed : field (renameField r rename scrubbed.1 scrubbed.2).1 r =
      (field d r).map fun v => (rename v scrubbed.2).1 := by
    unfold renameField
    rw [same]
    cases found : field d r with
    | none => exact same.trans found
    | some v => exact (field_set _ _ _ _).trans (if_pos rfl)
  refine ⟨scrubbed.2, ?_⟩
  unfold fixUpper
  simp only
  split
  · refine Eq.trans ?_ renamed
    exact (field_set _ _ _ _).trans (if_neg (Ne.symm notDhcp))
  · exact renamed

end edits

section sections

variable {fix : Yaml → Fields → List String → Fields × List String}

/-- `e'` is what a pass makes of the entry `e`. -/
def FixedBy (fix : Yaml → Fields → List String → Fields × List String) (e e' : Yaml × Yaml) : Prop :=
  e'.1 = e.1 ∧ ((∃ d fixes, e.2 = .map d ∧ e'.2 = .map (fix e.1 d fixes).1) ∨ (∀ d, e.2 ≠ .map d) ∧ e'.2 = e.2)

theorem eachDevice_fixedBy (d : Fields) (fixes : List String) :
    List.Forall₂ (FixedBy fix) d (eachDevice fix d fixes).1 := by
  induction d generalizing fixes with
  | nil => exact .nil
  | cons e d ih =>
    obtain ⟨k, v⟩ := e
    cases v with
    | map m => exact .cons ⟨rfl, .inl ⟨m, fixes, rfl, rfl⟩⟩ (ih _)
    | _ => exact .cons ⟨rfl, .inr ⟨fun d h => (nomatch h), rfl⟩⟩ (ih fixes)

theorem eachDevice_append (a b : Fields) (fixes : List String) :
    eachDevice fix (a ++ b) fixes =
      ((eachDevice fix a fixes).1 ++ (eachDevice fix b (eachDevice fix a fixes).2).1,
        (eachDevice fix b (eachDevice fix a fixes).2).2) := by
  induction a generalizing fixes with
  | nil => rfl
  | cons e a ih =>
    obtain ⟨k, v⟩ := e
    cases v with
    | map m => simp only [List.cons_append, eachDevice, ih]
    | _ => simp only [List.cons_append, eachDevice, ih]

theorem exists_of_mem_right {α β : Type*} {R : α → β → Prop} {l : List α} {l' : List β} (h : List.Forall₂ R l l')
    {b : β} (hb : b ∈ l') : ∃ a ∈ l, R a b := by
  induction h with
  | nil => cases hb
  | cons first _ ih =>
    rcases List.mem_cons.mp hb with rfl | hb
    · exact ⟨_, List.mem_cons_self, first⟩
    · obtain ⟨a, ha, related⟩ := ih hb
      exact ⟨a, List.mem_cons_of_mem _ ha, related⟩

theorem exists_of_mem_left {α β : Type*} {R : α → β → Prop} {l : List α} {l' : List β} (h : List.Forall₂ R l l')
    {a : α} (ha : a ∈ l) : ∃ b ∈ l', R a b :=
  exists_of_mem_right (List.Forall₂.flip h) ha

theorem keys_eq_of_fixedBy {d d' : Fields} (h : List.Forall₂ (FixedBy fix) d d') :
    d'.map Prod.fst = d.map Prod.fst := by
  induction h with
  | nil => rfl
  | cons first _ ih => rw [List.map_cons, List.map_cons, first.1, ih]

theorem eachDevice_distinct (hf : ∀ k d fixes, Distinct (.map d) → Distinct (.map (fix k d fixes).1)) {d : Fields}
    (hd : Distinct (.map d)) (fixes : List String) : Distinct (.map (eachDevice fix d fixes).1) := by
  have related : List.Forall₂ (FixedBy fix) d (eachDevice fix d fixes).1 := eachDevice_fixedBy d fixes
  refine .map (hd.keys.of_keys (keys_eq_of_fixedBy related)) ?_
  intro e' he'
  obtain ⟨e, he, -, fixed⟩ := exists_of_mem_right related he'
  have old := hd.values e he
  rcases fixed with ⟨m, fixes, map, new⟩ | ⟨-, same⟩
  · rw [new]
    exact hf _ m fixes (map ▸ old)
  · rw [same]
    exact old

theorem bestNic_mem {eths : Fields} {best : Yaml × Yaml} (h : bestNic eths = some best) :
    best ∈ eths ∧ isVmwareNic best = true := by
  have nic : best ∈ eths.filter isVmwareNic := by
    rcases Option.or_eq_some_iff.mp h with found | ⟨-, first⟩
    · exact List.mem_of_find?_eq_some found
    · exact List.mem_of_mem_head? first
  exact List.mem_filter.mp nic

theorem rekey_distinct {eths : Fields} (path : String) (h : Distinct (.map eths)) :
    Distinct (.map (rekey path eths).1) := by
  unfold rekey
  split
  · exact h
  · rename_i best found
    have config : Distinct (.map (fieldsOf best.2)) := by
      have old := h.values best (bestNic_mem found).1
      cases value : best.2 with
      | map d => exact value ▸ old
      | _ => exact .map List.Pairwise.nil fun f hf => (List.not_mem_nil hf).elim
    exact (h.filterFields _).setField _ (config.setField _ (.map (List.pairwise_singleton _ _)
      fun f hf => List.mem_singleton.mp hf ▸ .str _))

theorem fixSection_distinct {kind : String} {fixAll : Fields → List String → Fields × List String}
    (hf : ∀ d fixes, Distinct (.map d) → Distinct (.map (fixAll d fixes).1)) {nw : Fields} (h : Distinct (.map nw))
    (fixes : List String) : Distinct (.map (fixSection kind fixAll nw fixes).1) := by
  unfold fixSection
  split
  · rename_i d found
    exact h.setField _ (hf d fixes (h.get found))
  · exact h

end sections

end H2kvm.Network.Netplan
