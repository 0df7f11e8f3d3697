import Mathlib
import H2kvm.Deployers.Kubernetes
import H2kvm.Framework.Scanning

namespace H2kvm.Deployers

open Framework Text

/-! ### Forms of names -/

/-- A lower-case letter, a digit, a dot or a hyphen. -/
def isNameChar (c : Char) : Bool := isAlphanumeric c || c == '.' || c == '-'

/-- Neither two hyphens nor two dots. -/
def Single (a b : Char) : Prop := ¬ (a = '-' ∧ b = '-') ∧ ¬ (a = '.' ∧ b = '.')

instance : DecidableRel Single := fun _ _ => inferInstanceAs (Decidable (_ ∧ _))

/-- A text that starts and ends with a letter or digit. -/
structure Edged (s : Name) : Prop where
  nonempty : s ≠ []
  first : ∀ c, s.head? = some c → isAlphanumeric c = true
  last : ∀ c, s.getLast? = some c → isAlphanumeric c = true

/-- What the sanitizer leaves: letters and digits with single dots and hyphens between them. -/
structure Slug (s : Name) : Prop extends Edged s where
  chars : ∀ c ∈ s, isNameChar c = true
  single : s.IsChain Single

/-- A label of a DNS name. -/
structure DnsLabel (s : Name) : Prop extends Edged s where
  chars : ∀ c ∈ s, isAlphanumeric c = true ∨ c = '-'

/-- An RFC 1123 subdomain: labels with dots between them. -/
def DnsSubdomain (s : Name) : Prop := ∀ label ∈ s.splitOn '.', DnsLabel label

/-- A dot has no dot and no hyphen beside it. -/
def Joined (a b : Char) : Prop := (a = '.' → b ≠ '.' ∧ b ≠ '-') ∧ (b = '.' → a ≠ '-')

section alphabet

variable {c : Char} {s t : Name}

theorem isAlphanumeric_ne (alphanumeric : isAlphanumeric c = true) : c ≠ '.' ∧ c ≠ '-' := by
  constructor <;>
  · rintro rfl
    cases alphanumeric

theorem isNameChar_range (name : isNameChar c = true) :
    (0x61 ≤ c.toNat ∧ c.toNat ≤ 0x7a) ∨ (0x2d ≤ c.toNat ∧ c.toNat ≤ 0x39) := by
  simp only [isNameChar, isAlphanumeric, Bool.or_eq_true, Bool.and_eq_true, decide_eq_true_eq, beq_iff_eq] at name
  rcases name with ((⟨lower, upper⟩ | ⟨lower, upper⟩) | rfl) | rfl
  · exact .inl ⟨lower, upper⟩
  · have lower' : 0x30 ≤ c.toNat := lower
    exact .inr ⟨by omega, upper⟩
  · exact .inr (by decide)
  · exact .inr (by decide)

theorem isSpace_of_isNameChar (name : isNameChar c = true) : isSpace c = false := by
  have range := isNameChar_range name
  rw [Bool.eq_false_iff]
  intro space
  simp only [isSpace, Bool.or_eq_true, Bool.and_eq_true, decide_eq_true_eq, beq_iff_eq] at space
  omega

theorem toLower_of_isNameChar (name : isNameChar c = true) : c.toLower = c := by
  have range := isNameChar_range name
  rw [Char.toLower, dif_neg]
  rintro ⟨upper, upper'⟩
  have least : 0x41 ≤ c.toNat := upper
  have most : c.toNat ≤ 0x5a := upper'
  omega

theorem lower_append (s t : Name) : lower (s ++ t) = lower s ++ lower t := List.flatMap_append

/-- What is in lower case stays as it is. -/
theorem lower_eq_self (plain : ∀ c ∈ s, c.toLower = c ∧ c.toNat < 0x80) : lower s = s := by
  have each : ∀ c ∈ s,
      (if c = '\u0130' then ['i', '\u0307'] else if c = '\u212a' then ['k'] else [c.toLower]) = [c] := by
    intro c member
    obtain ⟨same, ascii⟩ := plain c member
    rw [if_neg, if_neg, same]
    all_goals
      rintro rfl
      exact absurd ascii (by decide)
  rw [lower, List.flatMap_congr each, List.flatMap_singleton']

theorem lower_of_isNameChar (chars : ∀ c ∈ s, isNameChar c = true) : lower s = s := by
  refine lower_eq_self fun c member => ⟨toLower_of_isNameChar (chars c member), ?_⟩
  have range := isNameChar_range (chars c member)
  omega

end alphabet

/-! ### The passes of the sanitizer -/

section passes

variable {p : Char → Bool} {c d : Char} {inRun : Bool} {s t : Name} {R : Char → Char → Prop}

theorem mem_squeeze (member : d ∈ squeeze p c inRun s) : d = c ∨ (d ∈ s ∧ p d = false) := by
  induction s generalizing inRun with
  | nil => cases member
  | cons e s ih =>
    rw [squeeze] at member
    have later (member : d ∈ squeeze p c true s) : d = c ∨ (d ∈ e :: s ∧ p d = false) :=
      (ih member).imp_right fun ⟨there, free⟩ => ⟨List.mem_cons_of_mem _ there, free⟩
    split at member
    · split at member
      · exact later member
      · rcases List.mem_cons.mp member with same | member
        · exact .inl same
        · exact later member
    · next free =>
      rcases List.mem_cons.mp member with rfl | member
      · exact .inr ⟨List.mem_cons_self, Bool.eq_false_iff.mpr free⟩
      · exact (ih member).imp_right fun ⟨there, free⟩ => ⟨List.mem_cons_of_mem _ there, free⟩

theorem isChain_squeeze_cons (chain : (d :: s).IsChain R) (run : inRun = true ↔ d = c) :
    (d :: squeeze (· == c) c inRun s).IsChain fun a b => R a b ∧ ¬ (a = c ∧ b = c) := by
  induction s generalizing inRun d with
  | nil => exact List.IsChain.singleton _
  | cons e s ih =>
    obtain ⟨here, chain⟩ := List.isChain_cons_cons.mp chain
    rw [squeeze]
    by_cases same : e = c
    · subst same
      rw [if_pos (beq_self_eq_true e)]
      have started : true = true ↔ e = e := iff_of_true rfl rfl
      have later := ih chain started
      split
      · next started =>
        rw [run.mp started]
        exact later
      · next fresh =>
        exact List.isChain_cons_cons.mpr ⟨⟨here, fun both => fresh (run.mpr both.1)⟩, later⟩
    · rw [if_neg (by simpa using same)]
      exact List.isChain_cons_cons.mpr ⟨⟨here, fun both => same both.2⟩,
        ih chain (iff_of_false nofun same)⟩

theorem isChain_squeeze (chain : s.IsChain R) :
    (squeeze (· == c) c false s).IsChain fun a b => R a b ∧ ¬ (a = c ∧ b = c) := by
  cases s with
  | nil => exact List.IsChain.nil
  | cons d s =>
    rw [squeeze]
    by_cases same : d = c
    · subst same
      rw [if_pos (beq_self_eq_true d), if_neg nofun]
      exact isChain_squeeze_cons chain (iff_of_true rfl rfl)
    · rw [if_neg (by simpa using same)]
      exact isChain_squeeze_cons chain (iff_of_false nofun same)

theorem squeeze_free (free : ∀ d ∈ s, p d = false) : squeeze p c inRun s = s := by
  induction s generalizing inRun with
  | nil => rfl
  | cons d s ih =>
    rw [squeeze, if_neg (by rw [free d List.mem_cons_self]; decide),
      ih fun e member => free e (List.mem_cons_of_mem _ member)]

theorem squeeze_single (chain : s.IsChain fun a b => ¬ (a = c ∧ b = c)) : squeeze (· == c) c false s = s := by
  induction s with
  | nil => rfl
  | cons d s ih =>
    have rest := ih chain.tail
    rw [squeeze]
    split
    · next same =>
      rw [if_neg nofun, beq_iff_eq.mp same]
      congr 1
      cases s with
      | nil => rfl
      | cons e s =>
        have apart := (List.isChain_cons_cons.mp chain).1
        have other : e ≠ c := fun also => apart ⟨beq_iff_eq.mp same, also⟩
        have free : (e == c) = false := beq_false_of_ne other
        rw [squeeze, free, if_neg nofun] at rest ⊢
        exact rest
    · rw [rest]

/-- What is between the first character and the last that are kept. -/
theorem isInfix_trim (p : Char → Bool) (s : Name) : (s.dropWhile p).rdropWhile p <:+: s :=
  (List.rdropWhile_prefix p _).isInfix.trans (List.dropWhile_suffix p).isInfix

theorem head?_of_isPrefix {c : Char} (before : t <+: s) (first : t.head? = some c) : s.head? = some c := by
  obtain ⟨more, rfl⟩ := before
  cases t with
  | nil => cases first
  | cons d t => exact first

theorem head?_trim {c : Char} (first : ((s.dropWhile p).rdropWhile p).head? = some c) : p c = false := by
  have kept := List.head?_dropWhile_not p s
  rw [head?_of_isPrefix (List.rdropWhile_prefix p _) first] at kept
  exact kept

theorem getLast?_rdropWhile {c : Char} (last : (s.rdropWhile p).getLast? = some c) : p c = false := by
  have some : s.rdropWhile p ≠ [] := by
    rintro none
    rw [none] at last
    cases last
  have kept := List.rdropWhile_last_not p s some
  rw [List.getLast?_eq_getLast_of_ne_nil some] at last
  cases last
  exact Bool.eq_false_iff.mpr kept

theorem trim_eq_self (first : ∀ c, s.head? = some c → p c = false) (last : ∀ c, s.getLast? = some c → p c = false) :
    (s.dropWhile p).rdropWhile p = s := by
  have start : s.dropWhile p = s := by
    cases s with
    | nil => rfl
    | cons c s => exact List.dropWhile_cons_of_neg (by rw [first c rfl]; decide)
  rw [start, List.rdropWhile_eq_self_iff]
  intro some
  rw [last _ (List.getLast?_eq_getLast_of_ne_nil some)]
  decide

end passes

/-! ### What the sanitizer leaves -/

section slugs

variable {s t name : Name} {c : Char} {limit : Nat}

theorem slug_vm : Slug "vm".toList where
  nonempty := by decide
  first := by
    rintro c ⟨⟩
    decide
  last := by
    rintro c ⟨⟩
    decide
  chars := by decide
  single := by decide

theorem orVm_eq_self (nonempty : s ≠ []) : orVm s = s := if_neg nonempty

theorem slug_orVm_trim (chars : ∀ c ∈ s, isNameChar c = true) (single : s.IsChain Single) :
    Slug (orVm ((s.dropWhile (!isAlphanumeric ·)).rdropWhile (!isAlphanumeric ·))) := by
  by_cases nothing : (s.dropWhile (!isAlphanumeric ·)).rdropWhile (!isAlphanumeric ·) = []
  · rw [nothing]
    exact slug_vm
  · rw [orVm_eq_self nothing]
    have inside := isInfix_trim (!isAlphanumeric ·) s
    exact {
      nonempty := nothing
      first := fun c first => by simpa using head?_trim first
      last := fun c last => by simpa using getLast?_rdropWhile last
      chars := fun c member => chars c (inside.subset member)
      single := single.infix inside }

theorem orVm_cases (s : Name) : orVm s = s ∨ orVm s = "vm".toList := by
  unfold orVm
  split
  · exact .inr rfl
  · exact .inl rfl

/-- The name before it is cut to the limit. -/
def fullName (name : Name) : Name :=
  let s := squeeze (fun c => !(isAlphanumeric c || c == '.' || c == '-')) '-' false (lower (strip name))
  let s := squeeze (· == '-') '-' false s
  let s := (s.dropWhile (· == '-')).rdropWhile (· == '-')
  let s := orVm (squeeze (· == '.') '.' false s)
  orVm ((s.dropWhile (!isAlphanumeric ·)).rdropWhile (!isAlphanumeric ·))

def cutName (s : Name) (limit : Nat) : Name :=
  orVm (if limit < s.length then ((s.take limit).rdropWhile (· == '-')).rdropWhile (!isAlphanumeric ·) else s)

theorem sanitize_eq (name : Name) (limit : Nat) : sanitizeK8sDnsSubdomain name limit = cutName (fullName name) limit := rfl

theorem slug_fullName (name : Name) : Slug (fullName name) := by
  unfold fullName
  dsimp only
  have hyphens := isChain_squeeze (c := '-') (R := fun _ _ => True)
    (s := squeeze (fun c => !(isAlphanumeric c || c == '.' || c == '-')) '-' false (lower (strip name)))
    (List.Pairwise.isChain (List.pairwise_of_forall fun _ _ => trivial))
  have chars : ∀ c ∈ squeeze (· == '-') '-' false
      (squeeze (fun c => !(isAlphanumeric c || c == '.' || c == '-')) '-' false (lower (strip name))),
      isNameChar c = true := by
    intro c member
    rcases mem_squeeze member with rfl | ⟨member, -⟩
    · rfl
    · rcases mem_squeeze member with rfl | ⟨-, free⟩
      · rfl
      · exact Bool.not_inj (y := true) free
  generalize squeeze (· == '-') '-' false _ = s at hyphens chars
  have inside := isInfix_trim (· == '-') s
  have dots := isChain_squeeze (c := '.') ( hyphens.infix inside)
  generalize (s.dropWhile (· == '-')).rdropWhile (· == '-') = t at inside dots
  have chars' : ∀ c ∈ squeeze (· == '.') '.' false t, isNameChar c = true := by
    intro c member
    rcases mem_squeeze member with rfl | ⟨member, -⟩
    · rfl
    · exact chars c (inside.subset member)
  refine slug_orVm_trim ?_ ?_
  · rcases orVm_cases (squeeze (· == '.') '.' false t) with same | same <;> rw [same]
    · exact chars'
    · exact slug_vm.chars
  · rcases orVm_cases (squeeze (· == '.') '.' false t) with same | same <;> rw [same]
    · exact dots.imp fun a b apart => ⟨apart.1.2, apart.2⟩
    · exact slug_vm.single

/-- A cut name starts as the name does, and ends with a letter or digit. -/
theorem slug_cutName (slug : Slug s) (positive : 1 ≤ limit) :
    Slug (cutName s limit) ∧ (cutName s limit).length ≤ limit ∧ cutName s limit <+: s := by
  unfold cutName
  split
  · next long =>
    obtain ⟨c, rest, rfl⟩ := List.exists_cons_of_ne_nil slug.nonempty
    obtain ⟨m, rfl⟩ := Nat.exists_eq_add_of_le' positive
    have start : isAlphanumeric c = true := slug.first c rfl
    have kept : (((c :: rest).take (m + 1)).rdropWhile (· == '-')).rdropWhile (!isAlphanumeric ·) ≠ [] := by
      rw [List.take_succ_cons, ne_eq, List.rdropWhile_eq_nil_iff]
      intro all
      have some : (c :: rest.take m).rdropWhile (· == '-') ≠ [] := by
        rw [ne_eq, List.rdropWhile_eq_nil_iff]
        intro hyphens
        exact (isAlphanumeric_ne start).2 (beq_iff_eq.mp (hyphens c List.mem_cons_self))
      obtain ⟨d, more, cut⟩ := List.exists_cons_of_ne_nil some
      have same := head?_of_isPrefix (c := d) (List.rdropWhile_prefix (· == '-') (c :: rest.take m)) (by rw [cut]; rfl)
      cases same
      have odd := all c (by rw [cut]; exact List.mem_cons_self)
      rw [start] at odd
      cases odd
    have before : (((c :: rest).take (m + 1)).rdropWhile (· == '-')).rdropWhile (!isAlphanumeric ·) <+:
        (c :: rest).take (m + 1) :=
      (List.rdropWhile_prefix _ _).trans (List.rdropWhile_prefix _ _)
    have whole := before.trans (List.take_prefix _ _)
    rw [orVm_eq_self kept]
    refine ⟨{ nonempty := kept, first := ?_, last := ?_, chars := ?_, single := slug.single.infix whole.isInfix }, ?_, whole⟩
    · exact fun d first => slug.first d (head?_of_isPrefix whole first)
    · exact fun d last => by simpa using getLast?_rdropWhile last
    · exact fun d member => slug.chars d (whole.subset member)
    · exact before.length_le.trans (List.length_take_le _ _)
  · next short =>
    rw [orVm_eq_self slug.nonempty]
    exact ⟨slug, by omega, List.prefix_rfl⟩

theorem fullName_of_slug (slug : Slug s) : fullName s = s := by
  have visible : ∀ c ∈ s, isSpace c = false := fun c member => isSpace_of_isNameChar (slug.chars c member)
  have stripped : strip s = s := strip_eq_self slug.nonempty visible
  have free : ∀ c ∈ s, (!(isAlphanumeric c || c == '.' || c == '-')) = false := by
    intro c member
    have name := slug.chars c member
    unfold isNameChar at name
    rw [name]
    rfl
  have hyphens : squeeze (· == '-') '-' false s = s := squeeze_single (slug.single.imp fun _ _ apart => apart.1)
  have dots : squeeze (· == '.') '.' false s = s := squeeze_single (slug.single.imp fun _ _ apart => apart.2)
  have ends : (s.dropWhile (· == '-')).rdropWhile (· == '-') = s :=
    trim_eq_self (fun c first => beq_false_of_ne (isAlphanumeric_ne (slug.first c first)).2)
      fun c last => beq_false_of_ne (isAlphanumeric_ne (slug.last c last)).2
  have ends' : (s.dropWhile (!isAlphanumeric ·)).rdropWhile (!isAlphanumeric ·) = s :=
    trim_eq_self (fun c first => by rw [slug.first c first]; rfl) fun c last => by rw [slug.last c last]; rfl
  unfold fullName
  simp only [stripped, lower_of_isNameChar slug.chars, squeeze_free free, hyphens, ends, dots,
    orVm_eq_self slug.nonempty, ends']

/-- A name of the form is not changed but cut. -/
theorem sanitize_of_slug (slug : Slug s) (short : s.length ≤ limit) : sanitizeK8sDnsSubdomain s limit = s := by
  rw [sanitize_eq, fullName_of_slug slug, cutName, if_neg (by omega), orVm_eq_self slug.nonempty]

theorem slug_sanitize (name : Name) (limit : Nat) (positive : 1 ≤ limit) :
    Slug (sanitizeK8sDnsSubdomain name limit) ∧ (sanitizeK8sDnsSubdomain name limit).length ≤ limit :=
  ⟨(slug_cutName (slug_fullName name) positive).1, (slug_cutName (slug_fullName name) positive).2.1⟩

theorem sanitize_sanitize (name : Name) (positive : 1 ≤ limit) :
    sanitizeK8sDnsSubdomain (sanitizeK8sDnsSubdomain name limit) limit = sanitizeK8sDnsSubdomain name limit :=
  sanitize_of_slug (slug_sanitize name limit positive).1 (slug_sanitize name limit positive).2

end slugs

/-! ### Subdomains -/

section subdomains

variable {s w rest : Name} {c : Char}

/-- What makes a name a subdomain, said of the name as a whole. -/
structure DnsName (s : Name) : Prop extends Edged s where
  chars : ∀ c ∈ s, isNameChar c = true
  joined : s.IsChain Joined

theorem isAlphanumeric_of_isNameChar (name : isNameChar c = true) (dot : c ≠ '.') (hyphen : c ≠ '-') :
    isAlphanumeric c = true := by
  simpa [isNameChar, dot, hyphen] using name

theorem joined_of_ne_dot {a b : Char} (first : a ≠ '.') (second : b ≠ '.') : Joined a b :=
  ⟨fun dot => absurd dot first, fun dot => absurd dot second⟩

/-- A text without a dot is one label. -/
theorem dnsLabel_iff (free : '.' ∉ s) : DnsLabel s ↔ DnsName s := by
  constructor
  · intro label
    refine { label with chars := fun c member => ?_, joined := List.Pairwise.isChain ?_ }
    · rcases label.chars c member with alphanumeric | rfl
      · rw [isNameChar, alphanumeric]
        rfl
      · rfl
    · rw [List.pairwise_iff_forall_sublist]
      intro a b both
      have members : a ∈ s ∧ b ∈ s := ⟨both.subset (by simp), both.subset (by simp)⟩
      exact joined_of_ne_dot (fun dot => free (dot ▸ members.1)) fun dot => free (dot ▸ members.2)
  · intro name
    refine { name with chars := fun c member => ?_ }
    by_cases hyphen : c = '-'
    · exact .inr hyphen
    · exact .inl (isAlphanumeric_of_isNameChar (name.chars c member) (fun dot => free (dot ▸ member)) hyphen)

/-- A name with a dot is a label, and a name after the dot. -/
theorem dnsName_append_iff (free : '.' ∉ w) : DnsName (w ++ '.' :: rest) ↔ DnsLabel w ∧ DnsName rest := by
  constructor
  · intro name
    obtain ⟨chainW, chain, boundary⟩ := List.isChain_append.mp name.joined
    have someW : w ≠ [] := by
      rintro rfl
      have first := name.first '.' rfl
      cases first
    have someRest : rest ≠ [] := by
      rintro rfl
      have last := name.last '.' (by simp)
      cases last
    obtain ⟨r, rest, rfl⟩ := List.exists_cons_of_ne_nil someRest
    obtain ⟨dot, chainRest⟩ := List.isChain_cons_cons.mp chain
    have charsRest : ∀ c ∈ r :: rest, isNameChar c = true := fun c member =>
      name.chars c (List.mem_append_right _ (List.mem_cons_of_mem _ member))
    refine ⟨(dnsLabel_iff free).mpr ⟨⟨someW, fun c first => name.first c ?_, fun c last => ?_⟩, fun c member => ?_, chainW⟩,
      ⟨⟨someRest, fun c first => ?_, fun c last => name.last c ?_⟩, charsRest, chainRest⟩⟩
    · exact head?_of_isPrefix (List.prefix_append _ _) first
    · have inside := List.mem_of_getLast? last
      refine isAlphanumeric_of_isNameChar (name.chars c (List.mem_append_left _ inside))
        (fun same => free (same ▸ inside)) ?_
      exact (boundary c last '.' rfl).2 rfl
    · exact name.chars c (List.mem_append_left _ member)
    · cases first
      exact isAlphanumeric_of_isNameChar (charsRest r List.mem_cons_self) (dot.1 rfl).1 (dot.1 rfl).2
    · rw [List.getLast?_append, List.getLast?_cons_cons, last]
      rfl
  · rintro ⟨label, name⟩
    have label' := (dnsLabel_iff free).mp label
    obtain ⟨r, rest, rfl⟩ := List.exists_cons_of_ne_nil name.nonempty
    obtain ⟨notDot, notHyphen⟩ := isAlphanumeric_ne (name.first r rfl)
    refine ⟨⟨by simp, fun c first => ?_, fun c last => name.last c ?_⟩, fun c member => ?_, ?_⟩
    · obtain ⟨d, w, rfl⟩ := List.exists_cons_of_ne_nil label.nonempty
      exact label.first c first
    · rw [List.getLast?_append, List.getLast?_cons_cons] at last
      cases found : (r :: rest).getLast? with
      | none => exact absurd (List.getLast?_eq_none_iff.mp found) (by simp)
      | some d =>
        rw [found] at last
        exact last
    · rcases List.mem_append.mp member with inside | inside
      · exact label'.chars c inside
      · rcases List.mem_cons.mp inside with rfl | inside
        · rfl
        · exact name.chars c inside
    · have dotted : Joined '.' r := ⟨fun _ => ⟨notDot, notHyphen⟩, fun dot => absurd dot notDot⟩
      refine List.isChain_append.mpr ⟨label'.joined, List.isChain_cons_cons.mpr ⟨dotted, name.joined⟩, ?_⟩
      rintro a last b ⟨⟩
      obtain ⟨dot, hyphen⟩ := isAlphanumeric_ne (label.last a last)
      exact ⟨fun same => absurd same dot, fun _ => hyphen⟩

/-- A subdomain is a name that starts and ends with a letter or digit and has no dot or hyphen beside a dot. -/
theorem dnsSubdomain_iff (s : Name) : DnsSubdomain s ↔ DnsName s := by
  by_cases dot : '.' ∈ s
  · obtain ⟨w, rest, split, free⟩ := List.eq_append_cons_of_mem dot
    have shorter : rest.length < s.length := by
      rw [split, List.length_append, List.length_cons]
      omega
    rw [DnsSubdomain, split, List.splitOn_append_cons_self_of_not_mem free _, dnsName_append_iff free, List.forall_mem_cons,
      ← dnsSubdomain_iff rest, DnsSubdomain]
  · rw [DnsSubdomain, List.splitOn_eq_singleton dot, List.forall_mem_singleton, dnsLabel_iff dot]
termination_by s.length

end subdomains

end H2kvm.Deployers
