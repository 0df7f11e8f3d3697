import H2kvm.Network.NetplanRefs

namespace H2kvm.Network.Netplan

open Framework Text Yaml

/-- The hardware address is pinned. -/
def isPinned (d : Fields) : Bool :=
  (match field d "match" with
    | some (.map m) => (field m "macaddress").isSome
    | _ => false) ||
    (field d "macaddress").isSome || (field d "cloned-mac-address").isSome

def hasVmwareDriver (str : Yaml → String) (d : Fields) : Bool :=
  match field d "driver" with
  | none => false
  | some v =>
    let drv := if v.truthy then lower (str v).toList else []
    vmwareDrivers.any fun name => decide (name.toList <:+: drv)

/-- Something is there that the fix takes off. -/
def isCleaned (ctx : Context) (d : Fields) : Bool :=
  ctx.fixer.level.atLeastModerate && isPinned d || hasVmwareDriver ctx.fixer.str d

/-- What the texts of fixes to the entry of the VMware cards have in them. -/
def mark : List Char := "eth-all-en-".toList

def Marked (fixes : List String) : Prop := ∃ f ∈ fixes, mark <:+: f.toList

/-- The name of an ethernet whose fixes look as if they were made to the entry of the VMware cards. -/
def LooksChosen (tag : String) : Prop := mark <:+: (tag ++ "-").toList

section texts

variable {tag : String} {fixes : List String} {d : Fields}

theorem marked_append (fixes texts : List String) : Marked (fixes ++ texts) ↔ Marked fixes ∨ Marked texts := by
  simp only [Marked, List.mem_append, or_and_right, exists_or]

theorem mark_infix_iff (tag w : String) (h : Apart mark w.toList) :
    mark <:+: (tag ++ ("-" ++ w)).toList ↔ LooksChosen tag := by
  have parts : (tag ++ ("-" ++ w)).toList = (tag ++ "-").toList ++ w.toList := by
    simp only [String.toList_append, List.append_assoc]
  rw [parts]
  exact ⟨infix_of_infix_append h, List.infix_append_of_infix_left⟩

theorem marked_removed (w : String) (h : Apart mark w.toList) :
    Marked (fixes ++ [tag ++ ("-" ++ w)]) ↔ Marked fixes ∨ LooksChosen tag := by
  rw [marked_append, ← mark_infix_iff tag w h]
  simp only [Marked, List.mem_singleton, exists_eq_left]

theorem marked_remove (k : String) (h : Apart mark ("removed-" ++ k).toList) :
    Marked (remove k tag d fixes).2 ↔ Marked fixes ∨ (field d k).isSome = true ∧ LooksChosen tag := by
  unfold remove
  split
  · rename_i found
    have text : tag ++ "-removed-" ++ k = tag ++ ("-" ++ ("removed-" ++ k)) := by
      rw [String.append_assoc]
      rfl
    rw [text, marked_removed _ h]
    simp only [found, true_and]
  · rename_i missing
    simp only [missing, Bool.false_eq_true, false_and, or_false]

theorem marked_scrubMatch :
    Marked (scrubMatch tag d fixes).2 ↔ Marked fixes ∨ (match field d "match" with
      | some (.map m) => (field m "macaddress").isSome
      | _ => false) = true ∧ LooksChosen tag := by
  unfold scrubMatch
  cases field d "match" with
  | none => simp
  | some v =>
    cases v with
    | map m =>
      by_cases found : (field m "macaddress").isSome = true
      · have missing : (field m "macaddress").isNone = false := by simpa [Option.isNone_iff_eq_none, Option.isSome_iff_ne_none] using found
        simp only [missing, found, Bool.false_eq_true, if_false, true_and]
        split
        · have texts : fixes ++ [tag ++ "-removed-match-mac", tag ++ "-removed-empty-match"] =
              (fixes ++ [tag ++ "-removed-match-mac"]) ++ [tag ++ "-removed-empty-match"] := by simp
          show Marked (fixes ++ [tag ++ "-removed-match-mac", tag ++ "-removed-empty-match"]) ↔ _
          rw [texts]
          refine (marked_removed "removed-empty-match" (by decide)).trans ?_
          rw [show Marked (fixes ++ [tag ++ "-removed-match-mac"]) ↔ Marked fixes ∨ LooksChosen tag from
            marked_removed "removed-match-mac" (by decide)]
          rw [or_assoc, or_self]
        · exact marked_removed "removed-match-mac" (by decide)
      · have missing : (field m "macaddress").isNone = true := by simpa using found
        simp [missing, found]
    | _ => simp

theorem marked_scrubMac {level : FixLevel} :
    Marked (scrubMac level tag d fixes).2 ↔
      Marked fixes ∨ (level.atLeastModerate && isPinned d) = true ∧ LooksChosen tag := by
  unfold scrubMac
  cases level.atLeastModerate with
  | false => simp
  | true =>
    let first := scrubMatch tag d fixes
    let second := remove "macaddress" tag first.1 first.2
    have kept {k : String} (hk : k ∉ ["match"]) : field first.1 k = field d k := scrubMatch_edited.field_eq hk
    have kept' : field second.1 "cloned-mac-address" = field d "cloned-mac-address" :=
      ((remove_edited "macaddress").field_eq (by decide)).trans (kept (by decide))
    show Marked (remove "cloned-mac-address" tag second.1 second.2).2 ↔ _
    rw [marked_remove _ (by decide), marked_remove _ (by decide), marked_scrubMatch, kept (by decide), kept']
    simp only [isPinned, Bool.true_and, Bool.or_eq_true, or_and_right, or_assoc]

theorem marked_dropDriver {str : Yaml → String} :
    Marked (dropDriver str tag d fixes).2 ↔ Marked fixes ∨ hasVmwareDriver str d = true ∧ LooksChosen tag := by
  unfold dropDriver hasVmwareDriver
  cases field d "driver" with
  | none => simp
  | some v =>
    simp only
    cases found : List.find? _ vmwareDrivers with
    | none =>
      have absent := List.find?_eq_none.mp found
      have never : vmwareDrivers.any _ = false := List.any_eq_false.mpr absent
      simp only [never, Bool.false_eq_true, false_and, or_false]
    | some name =>
      have mem := List.mem_of_find?_eq_some found
      have some : vmwareDrivers.any _ = true := List.any_eq_true.mpr ⟨name, mem, List.find?_some found⟩
      have apart : ∀ name ∈ vmwareDrivers, Apart mark ("removed-vmware-driver-" ++ name).toList := by decide +kernel
      have text : tag ++ "-removed-vmware-driver-" ++ name = tag ++ ("-" ++ ("removed-vmware-driver-" ++ name)) := by
        rw [String.append_assoc]
        rfl
      simp only [some, true_and]
      rw [text]
      exact marked_removed _ (apart name mem)

theorem marked_cleanEthernet {ctx : Context} {k : Yaml} :
    Marked (cleanEthernet ctx k d fixes).2 ↔
      Marked fixes ∨ isCleaned ctx d = true ∧ LooksChosen ("eth-" ++ keyText k) := by
  let scrubbed := scrubMac ctx.fixer.level ("eth-" ++ keyText k) d fixes
  have same : hasVmwareDriver ctx.fixer.str scrubbed.1 = hasVmwareDriver ctx.fixer.str d := by
    have driver : field scrubbed.1 "driver" = field d "driver" := scrubMac_edited.field_eq (by decide)
    rw [hasVmwareDriver, hasVmwareDriver, driver]
  show Marked (dropDriver ctx.fixer.str _ scrubbed.1 scrubbed.2).2 ↔ _
  rw [marked_dropDriver, marked_scrubMac, same, isCleaned, Bool.or_eq_true, or_and_right, or_assoc]

end texts

section names

theorem dash_not_mem_of_isVmwareName {name : List Char} (h : isVmwareName name = true) : '-' ∉ name :=
  not_mem_of_isVmwareName (by decide) (by decide) (by decide) h

theorem not_looksChosen_of_isVmwareName {name : String} (h : isVmwareName name.toList = true) :
    ¬LooksChosen ("eth-" ++ name) := by
  intro found
  have none : name.toList.count '-' = 0 := List.count_eq_zero.mpr (dash_not_mem_of_isVmwareName h)
  have dashes : mark.count '-' ≤ ("eth-" ++ name ++ "-").toList.count '-' := found.sublist.count_le '-'
  have total : ("eth-" ++ name ++ "-").toList.count '-' = 2 := by
    rw [String.toList_append, String.toList_append, List.count_append, List.count_append, none]
    rfl
  have three : mark.count '-' = 3 := by decide
  omega

theorem not_marked_rekey (path : String) (eths : Fields) : ¬Marked (rekey path eths).2.1 := by
  have vmware {e : Yaml × Yaml} (h : isVmwareNic e = true) : isVmwareName (keyText e.1).toList = true := by
    unfold isVmwareNic at h
    split at h
    · exact (Bool.and_eq_true_iff.mp h).1
    · cases h
  intro found
  obtain ⟨f, hf, inside⟩ := found
  unfold rekey at hf
  split at hf
  · cases hf
  rename_i best chosen
  rcases List.mem_cons.mp hf with rfl | merged
  · have looks := (mark_infix_iff ("eth-" ++ keyText best.1) "replaced-vmware-nic-name-with-match" (by decide)).mp inside
    exact not_looksChosen_of_isVmwareName (vmware (bestNic_mem chosen).2) looks
  · obtain ⟨e, he, rfl⟩ := List.mem_map.mp merged
    have nic : isVmwareNic e = true := (List.mem_filter.mp (List.mem_filter.mp he).1).2
    have looks := (mark_infix_iff ("eth-" ++ keyText e.1) "merged-into-all-en" (by decide)).mp inside
    exact not_looksChosen_of_isVmwareName (vmware nic) looks

end names

/-- An ethernet that is cleaned up under the name of the entry of the VMware cards. -/
def Disturbs (ctx : Context) (e : Yaml × Yaml) : Prop :=
  isCleaned ctx (fieldsOf e.2) = true ∧ LooksChosen ("eth-" ++ keyText e.1)

/-- The ethernets that come before the entry of the VMware cards. -/
def earlier (eths : Fields) : Fields :=
  (eths.filter fun e => !isVmwareNic e).takeWhile fun e => !sameKey e.1 allEn

/-- DHCP is enabled on the VMware card that is kept. -/
def ChosenDue (ctx : Context) (eths : Fields) (best : Yaml × Yaml) : Prop :=
  (ctx.allowAutoDhcpAlways = true ∨
      ctx.isModerate = true ∧ ∃ e ∈ earlier eths ++ [(allEn, .map (matchAll best))], Disturbs ctx e) ∧
    hasStaticIntent (fieldsOf best.2) = false ∧ field (fieldsOf best.2) "dhcp4" = none ∧
    ∀ n ∈ namesOf (allEn, best.2), ctx.isMember n = false

section chosen

variable {ctx : Context}

theorem marked_fixEthernet (careful : ctx.allowAutoDhcpAlways = false) (k : Yaml) (d : Fields) (fixes : List String) :
    Marked (fixEthernet ctx k d fixes).2 ↔ Marked fixes ∨ Disturbs ctx (k, .map d) := by
  rw [Disturbs, fieldsOf, ← marked_cleanEthernet]
  unfold fixEthernet
  simp only
  split
  · rename_i due
    -- DHCP was enabled because of an earlier text, which is marked already if this one is.
    refine (marked_removed "enabled-dhcp4" (by decide)).trans (or_iff_left_of_imp ?_)
    intro looks
    simp only [dhcpDue, careful, Bool.false_or, Bool.and_eq_true, List.any_eq_true, decide_eq_true_eq] at due
    obtain ⟨f, hf, inside⟩ := due.1.1.1.2
    exact ⟨f, hf, List.IsInfix.trans looks inside⟩
  · exact Iff.rfl

theorem isCleaned_nil (ctx : Context) : isCleaned ctx [] = false := by
  rw [isCleaned, show isPinned [] = false from rfl, show hasVmwareDriver ctx.fixer.str [] = false from rfl,
    Bool.and_false, Bool.false_or]

theorem marked_eachDevice (careful : ctx.allowAutoDhcpAlways = false) (d : Fields) (fixes : List String) :
    Marked (eachDevice (fixEthernet ctx) d fixes).2 ↔ Marked fixes ∨ ∃ e ∈ d, Disturbs ctx e := by
  induction d generalizing fixes with
  | nil => simp [eachDevice]
  | cons e d ih =>
    obtain ⟨k, v⟩ := e
    rw [List.exists_mem_cons_iff, ← or_assoc]
    cases v with
    | map m =>
      rw [← marked_fixEthernet careful]
      exact ih _
    | _ =>
      refine (ih fixes).trans (or_congr_left ?_)
      refine (or_iff_left ?_).symm
      intro disturbs
      exact absurd ((isCleaned_nil ctx).symm.trans disturbs.1) (by decide)

theorem hasStaticIntent_eq_of_edited {keys : List String} {d d' : Fields} (h : Edited keys d d')
    (apart : ∀ k ∈ ["addresses", "gateway4", "gateway6", "routes", "routing-policy", "nameservers"], k ∉ keys) :
    hasStaticIntent d' = hasStaticIntent d := by
  rw [hasStaticIntent, hasStaticIntent, Bool.eq_iff_iff, List.any_eq_true, List.any_eq_true]
  apply exists_congr
  intro k
  apply and_congr_right
  intro hk
  rw [h.field_eq (apart k hk)]

theorem any_iff_marked (fixes : List String) :
    (fixes.any fun f => decide (("eth-" ++ keyText allEn ++ "-").toList <:+: f.toList)) = true ↔ Marked fixes := by
  simp only [List.any_eq_true, decide_eq_true_eq]
  exact Iff.rfl

/-- The decision on the card that is kept, in terms of the document. -/
theorem dhcpDue_iff {eths : Fields} {best : Yaml × Yaml} {fixes : List String}
    (marked : ctx.allowAutoDhcpAlways = false → (Marked fixes ↔ ∃ e ∈ earlier eths, Disturbs ctx e)) :
    dhcpDue ctx allEn (cleanEthernet ctx allEn (matchAll best) fixes).1 (cleanEthernet ctx allEn (matchAll best) fixes).2 =
      true ↔ ChosenDue ctx eths best := by
  let cleaned := cleanEthernet ctx allEn (matchAll best) fixes
  have edited : Edited cleanedKeys (fieldsOf best.2) cleaned.1 := by
    refine Edited.trans (.set (by decide) ?_ .refl) cleanEthernet_edited fun k hk => hk
    intro _
    exact .map (List.pairwise_singleton _ _) fun f hf => List.mem_singleton.mp hf ▸ .str _
  have static : hasStaticIntent cleaned.1 = hasStaticIntent (fieldsOf best.2) :=
    hasStaticIntent_eq_of_edited edited (by decide)
  have dhcp4 : field cleaned.1 "dhcp4" = field (fieldsOf best.2) "dhcp4" := edited.field_eq (by decide)
  have name : setName cleaned.1 = setName (fieldsOf best.2) := setName_eq_of_edited edited (by decide)
  have members : (ctx.isMember (keyText allEn) || (setName (fieldsOf best.2)).any ctx.isMember) = false ↔
      ∀ n ∈ namesOf (allEn, best.2), ctx.isMember n = false := by
    rw [namesOf, Bool.or_eq_false_iff, List.forall_mem_cons]
    cases setName (fieldsOf best.2) with
    | none => simp
    | some n => simp
  have modified : ctx.allowAutoDhcpAlways = false → (Marked cleaned.2 ↔
      ∃ e ∈ earlier eths ++ [(allEn, .map (matchAll best))], Disturbs ctx e) := by
    intro careful
    rw [marked_cleanEthernet, marked careful]
    simp only [List.mem_append, List.mem_singleton, or_and_right, exists_or, exists_eq_left]
    exact Iff.rfl
  have allowed : (ctx.allowAutoDhcpAlways = true ∨ ctx.isModerate = true ∧ Marked cleaned.2) ↔
      (ctx.allowAutoDhcpAlways = true ∨
        ctx.isModerate = true ∧ ∃ e ∈ earlier eths ++ [(allEn, .map (matchAll best))], Disturbs ctx e) := by
    cases careful : ctx.allowAutoDhcpAlways with
    | true => simp
    | false => rw [modified careful]
  rw [ChosenDue, ← allowed, ← any_iff_marked, ← members, ← Option.isNone_iff_eq_none]
  show dhcpDue ctx allEn cleaned.1 cleaned.2 = true ↔ _
  simp only [dhcpDue, static, dhcp4, name, Bool.and_eq_true, Bool.or_eq_true, Bool.not_eq_true', and_assoc]

theorem chosen_mem (ctx : Context) {eths : Fields} {best : Yaml × Yaml} (path : String) (chosen : bestNic eths = some best) :
    ∃ d, (allEn, .map d) ∈ (eachDevice (fixEthernet ctx) (rekey path eths).1 (rekey path eths).2.1).1 ∧
      (HasDhcp4 (allEn, .map d) ↔ HasDhcp4 best ∨ ChosenDue ctx eths best) := by
  obtain ⟨tail, place⟩ := Fields.set_eq_append (eths.filter fun e => !isVmwareNic e) "all-en" (.map (matchAll best))
  let texts := (rekey path eths).2.1
  let before := eachDevice (fixEthernet ctx) (earlier eths) texts
  have rekeyed : (rekey path eths).1 = earlier eths ++ (allEn, .map (matchAll best)) :: tail := by
    simp only [rekey, chosen]
    exact place
  have marked (careful : ctx.allowAutoDhcpAlways = false) :
      Marked before.2 ↔ ∃ e ∈ earlier eths, Disturbs ctx e := by
    rw [marked_eachDevice careful, or_iff_right (not_marked_rekey path eths)]
  refine ⟨(fixEthernet ctx allEn (matchAll best) before.2).1, ?_, ?_⟩
  · rw [rekeyed, eachDevice_append]
    exact List.mem_append_right _ List.mem_cons_self
  · have old : field (matchAll best) "dhcp4" = field (fieldsOf best.2) "dhcp4" :=
      (field_set _ _ _ _).trans (if_neg (by decide))
    rw [HasDhcp4, fieldsOf, field_dhcp4_fixEthernet, old]
    split
    · rename_i due
      exact iff_of_true rfl (.inr ((dhcpDue_iff marked).mp due))
    · rename_i notDue
      exact (or_iff_left (mt (dhcpDue_iff marked).mpr notDue)).symm

end chosen

instance (nw : Fields) (n : String) : Decidable (Defined nw n) :=
  inferInstanceAs (Decidable (∃ kind ∈ deviceSections, ∃ e ∈ devices nw kind, n ∈ namesOf e))

/-- The network a document describes. -/
def networkOf (codec : YamlCodec) (content : codec.Content) : Option Fields :=
  match codec.safeLoad content with
  | .error _ => none
  | .ok loaded =>
    match loaded.orEmptyDict with
    | .map data =>
      match field data "network" with
      | some (.map nw) => some nw
      | _ => none
    | _ => none

/-- Every reference to a device that was defined is one after the pass. -/
def Resolvable (nw nw' : Fields) : Prop :=
  List.Forall₂ (fun n n' => Defined nw n → Defined nw' n') (memberRefs nw) (memberRefs nw')

/-- `e'` is what became of the ethernet `e`: the entry with its id, or the wildcard that took its
configuration over. -/
def Became (nw nw' : Fields) (e e' : Yaml × Yaml) : Prop :=
  e'.1 = e.1 ∨
    (∀ x ∈ devices nw' "ethernets", x.1 ≠ e.1) ∧ bestNic (devices nw "ethernets") = some e ∧ e'.1 = allEn

/-- No bond slave, bridge port or vlan parent is given DHCP. -/
def MembersQuiet (nw nw' : Fields) : Prop :=
  ∀ e ∈ devices nw "ethernets", IsMember nw e →
    ∀ e' ∈ devices nw' "ethernets", Became nw nw' e e' → HasDhcp4 e' → HasDhcp4 e

def SafeFix (codec : YamlCodec) (before after : codec.Content) : Prop :=
  ∀ nw, networkOf codec before = some nw →
    ∃ nw', networkOf codec after = some nw' ∧ Resolvable nw nw' ∧ MembersQuiet nw nw'

/-- What a reference becomes is a name that stays. -/
def ReferencesKept (rm : Dict String String) (nw : Fields) : Prop :=
  ∀ p ∈ refPairs rm nw, Defined nw p.1 → Kept nw p.2

/-- The VMware card that is kept is no member that would be given DHCP, nor does it bring DHCP to
a member whose entry it takes over. -/
def ChosenQuiet (ctx : Context) (nw : Fields) : Prop :=
  ∀ best, bestNic (devices nw "ethernets") = some best →
    ∀ e ∈ devices nw "ethernets", IsMember nw e → (e = best ∨ e.1 = allEn) →
      (HasDhcp4 best ∨ ChosenDue ctx (devices nw "ethernets") best) → HasDhcp4 e

theorem devices_distinct {nw : Fields} (h : Distinct (.map nw)) (kind : String) : (devices nw kind).KeysDistinct := by
  by_cases found : ∃ d, field nw kind = some (.map d)
  · obtain ⟨d, found⟩ := found
    rw [devices_eq found]
    exact (h.get found).keys
  · rw [devices_eq_nil (not_exists.mp found)]
    exact List.Pairwise.nil

section quiet

variable {fixer : NetplanFixer} {nw nw' : Fields}

theorem hasDhcp4_of_fixed {e e' : Yaml × Yaml} (member : IsMember nw e)
    (fixed : FixedBy (fixEthernet (context fixer nw)) e e') (h : HasDhcp4 e') : HasDhcp4 e := by
  obtain ⟨-, ⟨d, fixes, old, new⟩ | ⟨-, value⟩⟩ := fixed
  · let ctx := context fixer nw
    let cleaned := cleanEthernet ctx e.1 d fixes
    have name : setName cleaned.1 = setName d := setName_eq_of_edited cleanEthernet_edited (by decide)
    have known : (ctx.isMember (keyText e.1) || (setName cleaned.1).any ctx.isMember) = true := by
      obtain ⟨n, hn, listed⟩ := member
      have isMember : ctx.isMember n = true := by
        have direct : decide (n ∈ ctx.members) = true := decide_eq_true listed
        rw [Context.isMember, direct, Bool.true_or, Bool.true_or, Bool.true_or]
      rw [namesOf, old, List.mem_cons] at hn
      rcases hn with rfl | alt
      · rw [isMember, Bool.true_or]
      · have given : setName d = some n := Option.mem_toList.mp alt
        rw [name, given, Option.any_some, isMember, Bool.or_true]
    have notDue : dhcpDue ctx e.1 cleaned.1 cleaned.2 = false := by
      simp only [dhcpDue, known, Bool.not_true, Bool.and_false]
    rw [HasDhcp4, new, fieldsOf, field_dhcp4_fixEthernet, if_neg (by rw [notDue]; decide)] at h
    rw [HasDhcp4, old]
    exact h
  · rw [HasDhcp4, value] at h
    exact h

theorem membersQuiet_iff (h : Distinct (.map nw)) (h' : Distinct (.map nw')) (sections : Sections fixer nw nw') :
    MembersQuiet nw nw' ↔ ChosenQuiet (context fixer nw) nw := by
  have distinct := devices_distinct h "ethernets"
  have distinct' := devices_distinct h' "ethernets"
  have source {e' : Yaml × Yaml} (he' : e' ∈ devices nw' "ethernets") :
      ∃ e ∈ (rekey fixer.path (devices nw "ethernets")).1, FixedBy (fixEthernet (context fixer nw)) e e' := by
    rw [sections.ethernets] at he'
    exact exists_of_mem_right (eachDevice_fixedBy _ _) he'
  constructor
  · intro quiet best chosen e he member place dhcp
    obtain ⟨d, entry, given⟩ := chosen_mem (context fixer nw) fixer.path chosen
    rw [← sections.ethernets] at entry
    refine quiet e he member _ entry ?_ (given.mpr dhcp)
    rcases place with rfl | key
    · refine .inr ⟨?_, chosen, rfl⟩
      intro x hx same
      obtain ⟨y, hy, key, -⟩ := source hx
      have nic := (bestNic_mem chosen).2
      rcases (mem_rekey_iff distinct fixer.path).mp hy with ⟨old, other, -⟩ | ⟨b, -, rfl⟩
      · have one : y = e := distinct.eq_of_key old he (key.symm.trans same)
        rw [one, nic] at other
        cases other
      · have wildcard : e.1 = allEn := same.symm.trans key
        unfold isVmwareNic at nic
        rw [wildcard] at nic
        split at nic
        · exact absurd (Bool.and_eq_true_iff.mp nic).1 (by decide)
        · cases nic
    · exact .inl key.symm
  · intro quiet e he member e' he' became dhcp
    obtain ⟨x, hx, fixed⟩ := source he'
    rcases (mem_rekey_iff distinct fixer.path).mp hx with ⟨old, -, kept⟩ | ⟨best, chosen, rfl⟩
    · rcases became with key | ⟨-, chosen, key⟩
      · have one : x = e := distinct.eq_of_key old he (fixed.1.symm.trans key)
        exact hasDhcp4_of_fixed member (one ▸ fixed) dhcp
      · exact absurd (fixed.1.symm.trans key) (kept (by rw [chosen]; rfl))
    · obtain ⟨d, entry, given⟩ := chosen_mem (context fixer nw) fixer.path chosen
      rw [← sections.ethernets] at entry
      have one : e' = (allEn, .map d) := distinct'.eq_of_key he' entry fixed.1
      have due := given.mp (one ▸ dhcp)
      rcases became with key | ⟨-, chosen', -⟩
      · exact quiet best chosen e he member (.inr (key.symm.trans fixed.1)) due
      · have same : e = best := Option.some.inj (chosen'.symm.trans chosen)
        exact quiet best chosen e he member (.inl same) due

theorem resolvable_iff (h : Distinct (.map nw)) (hb : NonBlank fixer.renameMap) (sections : Sections fixer nw nw') :
    Resolvable nw nw' ↔ ReferencesKept fixer.renameMap nw := by
  have distinct := devices_distinct h "ethernets"
  rw [Resolvable, memberRefs_eq_fst fixer.renameMap nw, memberRefs_eq_snd hb sections, List.forall₂_map_left_iff,
    List.forall₂_map_right_iff, List.forall₂_same]
  apply forall₂_congr
  intro p _
  rw [defined_iff_kept distinct sections]

end quiet

section documents

variable {codec : YamlCodec} {content : codec.Content}

theorem networkOf_eq_some {nw : Fields} (h : networkOf codec content = some nw) :
    ∃ loaded data, codec.safeLoad content = .ok loaded ∧ loaded.orEmptyDict = .map data ∧
      field data "network" = some (.map nw) ∧ Distinct (.map data) := by
  unfold networkOf at h
  split at h
  · cases h
  rename_i loaded load
  split at h
  · rename_i data dict
    split at h
    · rename_i found
      cases h
      have whole : Distinct (.map data) := by
        rw [← dict, orEmptyDict]
        split
        · exact codec.load_distinct load
        · exact .map List.Pairwise.nil fun f hf => (List.not_mem_nil hf).elim
      exact ⟨loaded, data, load, dict, found, whole⟩
    · cases h
  · cases h

theorem networkOf_distinct {nw : Fields} (h : networkOf codec content = some nw) : Distinct (.map nw) := by
  obtain ⟨-, data, -, -, found, whole⟩ := networkOf_eq_some h
  exact whole.get found

theorem set_isEmpty (d : Fields) (k v : Yaml) : List.isEmpty (Fields.set d k v) = false := by
  cases d with
  | nil => rfl
  | cons f d =>
    rw [Fields.set]
    split
    · rfl
    · rfl

/-- What the fixed document describes. -/
theorem networkOf_fixNetplan {fixer : NetplanFixer} {nw : Fields} (available : fixer.yamlAvailable = true)
    (h : networkOf codec content = some nw) :
    networkOf codec (fixNetplan codec fixer content).newContent = some (fixNetwork fixer nw).1 := by
  obtain ⟨loaded, data, load, dict, found, whole⟩ := networkOf_eq_some h
  let fixed := Fields.set data (.str "network") (.map (fixNetwork fixer nw).1)
  have result : (fixNetplan codec fixer content).newContent = codec.safeDump (.map fixed) := by
    simp only [fixNetplan, available, Bool.not_true, Bool.false_eq_true, if_false, load, dict, found]
    rfl
  have reload : codec.safeLoad (codec.safeDump (.map fixed)) = .ok (.map fixed) :=
    codec.load_dump (whole.setField _ (fixNetwork_distinct fixer (whole.get found)))
  have kept : (Yaml.map fixed).orEmptyDict = .map fixed := by
    rw [orEmptyDict, truthy, set_isEmpty]
    rfl
  have network : field fixed "network" = some (.map (fixNetwork fixer nw).1) := (field_set _ _ _ _).trans (if_pos rfl)
  rw [result, networkOf, reload]
  simp only [kept, network]

end documents

/-- The fixer as it is called: the names to change are computed from the topology. -/
def fixerFor (level : FixLevel) (yamlAvailable : Bool) (str : Yaml → String) (path : String) (topo : TopologyGraph) :
    NetplanFixer where
  level := level
  yamlAvailable := yamlAvailable
  str := str
  path := path
  topo := some topo
  renameMap := topo.computeRenameMap level

/-- A bond over a card that VMware named. -/
def bondedCard : Fields :=
  [(.str "ethernets", .map [(.str "ens192", .map [])]),
    (.str "bonds", .map [(.str "bond0", .map [(.str "interfaces", .seq [.str "ens192"])])])]

def bondedDocument : Yaml := .map [(.str "network", .map bondedCard)]

theorem bondedDocument_distinct : bondedDocument.Distinct := by
  have empty : Distinct (.map []) := .map List.Pairwise.nil fun f hf => (List.not_mem_nil hf).elim
  have only {s : String} {v : Yaml} (h : Distinct v) : Distinct (.map [(.str s, v)]) :=
    .map (List.pairwise_singleton _ _) fun f hf => List.mem_singleton.mp hf ▸ h
  have names : Distinct (.seq [.str "ens192"]) := .seq fun v hv => List.mem_singleton.mp hv ▸ .str _
  have ethernets : Distinct (.map [(.str "ethernets", .map [(.str "ens192", .map [])])]) := only (only empty)
  exact only (ethernets.setField "bonds" (only (only names)))

/-- Documents that are the values themselves. -/
noncomputable def valueCodec : YamlCodec where
  Content := { v : Yaml // v.Distinct }
  safeLoad content := .ok content.1
  safeDump v := open Classical in if h : v.Distinct then ⟨v, h⟩ else ⟨.null, .null⟩
  load_distinct {content v} h := by
    cases h
    exact content.2
  load_dump {v} h := by rw [dif_pos h]

def plainFixer : NetplanFixer := fixerFor .conservative true keyText "/etc/netplan/01-bond.yaml" ⟨[], []⟩

end H2kvm.Network.Netplan
