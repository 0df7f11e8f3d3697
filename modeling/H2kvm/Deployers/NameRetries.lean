import H2kvm.Deployers.DnsName
import Mathlib.Data.Finset.Card

namespace H2kvm.Deployers

open Framework Text

/-! ### The loops -/

/-- What becomes of a call that creates an object: the API answers it, by creating the object or with a 409; or it refuses
with another error; or an error comes instead of the answer, and the object may be there. -/
inductive Reply where
  | answers
  | refuses
  | loses (applied : Bool)
  deriving DecidableEq

/-- How a namespace meets a loop: the names that are taken at each attempt, what becomes of the call, and what is found
where the loop looks a taken name up (an error is none). -/
structure Api where
  taken : Nat → Name → Bool
  reply : Nat → Reply
  found : Nat → Name → Option Bool

inductive Outcome where
  | returned (name : Name)
  | raised
  deriving DecidableEq

/-- A loop over names; one that `reuses` returns where a name that is taken is there when it is looked up. -/
structure Retry where
  attempts : Nat
  limit : Nat
  nameAt : Nat → Name
  reuses : Bool

namespace Retry

variable (r : Retry) (api : Api)

/-- What an attempt ends the loop with, and the objects that the loop has created then; none where it goes on. -/
def attempt (k : Nat) : Option (Outcome × List Name) :=
  match api.reply k with
  | .refuses => some (.raised, [])
  | .loses applied => some (.raised, if applied && !api.taken k (r.nameAt k) then [r.nameAt k] else [])
  | .answers =>
    if !api.taken k (r.nameAt k) then some (.returned (r.nameAt k), [r.nameAt k])
    else if !r.reuses then none
    else
      match api.found k (r.nameAt k) with
      | none => some (.raised, [])
      | some true => some (.returned (r.nameAt k), [])
      | some false => none

def loop : (left k : Nat) → Outcome × List Name
  | 0, _ => (.raised, [])
  | left + 1, k => (r.attempt api k).getD (loop left (k + 1))

def run : Outcome × List Name := r.loop api r.attempts 0

end Retry

/-- The loop of `_create_vm`. -/
def vmRetry (originalVm : Name) (token : Nat → Name) : Retry where
  attempts := 16
  limit := 63
  nameAt attempt := if attempt = 0 then originalVm else sanitizeK8sDnsSubdomain (originalVm ++ '-' :: token attempt) 63
  reuses := false

/-- The loop of `_create_pvc`. -/
def pvcRetry (base : Name) (token : Nat → Name) : Retry where
  attempts := 16
  limit := 253
  nameAt attempt := if attempt = 0 then base else sanitizeK8sDnsSubdomain (base ++ '-' :: token attempt) 253
  reuses := true

/-- The part of the VM's name that is in an uploader pod's. -/
def uploaderStem (vmName : Name) : Name := (vmName.take 35).rdropWhile (· == '-')

/-- The loop over uploader pods of `_upload_image`. -/
def uploaderRetry (vmName : Name) (token : Nat → Name) : Retry where
  attempts := 8
  limit := 63
  nameAt attempt := sanitizeK8sDnsSubdomain ("up-".toList ++ uploaderStem vmName ++ '-' :: token attempt) 63
  reuses := false

/-- `secrets.token_hex(4)` for the attempts that take one, no two alike. -/
structure Tokens (token : Nat → Name) (first attempts : Nat) : Prop where
  eight : ∀ k, (token k).length = 8
  hex : ∀ k, ∀ c ∈ token k, c ∈ "0123456789abcdef".toList
  distinct : ∀ i j, first ≤ i → i < attempts → first ≤ j → j < attempts → token i = token j → i = j

namespace Retry

variable (r : Retry) (api : Api)

/-- The loop tries new names, all of them valid; where fewer names are taken than it has attempts it creates the object; the
name it returns is that of an object it has created; and where it raises it has created none. -/
structure Renames : Prop where
  distinct : ∀ i j, i < r.attempts → j < r.attempts → r.nameAt i = r.nameAt j → i = j
  valid : ∀ k < r.attempts, DnsSubdomain (r.nameAt k) ∧ (r.nameAt k).length ≤ r.limit
  creates : (∀ k, api.reply k = .answers) → (r.reuses = true → ∀ k name, api.found k name ≠ none) →
    (∃ names : Finset Name, names.card < r.attempts ∧ ∀ k name, api.taken k name = true → name ∈ names) →
    ∃ name, r.run api = (.returned name, [name])
  accepted : ∀ name made, r.run api = (.returned name, made) → made = [name]
  clean : ∀ made, r.run api = (.raised, made) → made = []

/-- A name that is taken is found where it is looked up. -/
def Reuses (k : Nat) : Prop :=
  api.reply k = .answers ∧ api.taken k (r.nameAt k) = true ∧ r.reuses = true ∧ api.found k (r.nameAt k) = some true

/-- An object is created, and an error comes instead of the answer. -/
def Loses (k : Nat) : Prop := api.reply k = .loses true ∧ api.taken k (r.nameAt k) = false

/-- The loop goes on after an attempt: the name is taken, and not found where it is looked up. -/
def Passes (k : Nat) : Prop :=
  api.reply k = .answers ∧ api.taken k (r.nameAt k) = true ∧ (r.reuses = true → api.found k (r.nameAt k) = some false)

/-- No attempt that the loop comes to is of that kind. -/
def Never (bad : Nat → Prop) : Prop := ∀ k < r.attempts, (∀ j < k, r.Passes api j) → ¬ bad k

end Retry

namespace Retry

variable {r : Retry} {api : Api} {k left : Nat} {out : Outcome × List Name}

theorem attempt_none_iff : r.attempt api k = none ↔ r.Passes api k := by
  unfold attempt Passes
  cases reply : api.reply k with
  | refuses => simp
  | loses applied => simp
  | answers =>
    cases taken : api.taken k (r.nameAt k) with
    | false => simp
    | true =>
      cases reuses : r.reuses with
      | false => simp
      | true =>
        match found : api.found k (r.nameAt k) with
        | none => simp
        | some true => simp
        | some false => simp

/-- What an attempt that ends the loop comes to. -/
theorem attempt_some (ends : r.attempt api k = some out) :
    (r.Reuses api k ∧ out = (.returned (r.nameAt k), [])) ∨
    (r.Loses api k ∧ out = (.raised, [r.nameAt k])) ∨
    (¬ r.Reuses api k ∧ ¬ r.Loses api k ∧
      (out = (.returned (r.nameAt k), [r.nameAt k]) ∨
        (out = (.raised, []) ∧ (api.reply k = .answers → r.reuses = true ∧ api.found k (r.nameAt k) = none)))) := by
  unfold attempt at ends
  unfold Reuses Loses
  cases reply : api.reply k with
  | refuses =>
    rw [reply] at ends
    cases ends
    simp
  | loses applied =>
    rw [reply] at ends
    cases taken : api.taken k (r.nameAt k) <;> cases applied <;> rw [taken] at ends <;> cases ends <;> simp
  | answers =>
    rw [reply] at ends
    dsimp only at ends
    cases taken : api.taken k (r.nameAt k) with
    | false =>
      rw [taken] at ends
      cases ends
      simp
    | true =>
      cases reuses : r.reuses with
      | false =>
        rw [taken, reuses] at ends
        cases ends
      | true =>
        rw [taken, reuses] at ends
        match found : api.found k (r.nameAt k) with
        | none =>
          rw [found] at ends
          cases ends
          simp
        | some true =>
          rw [found] at ends
          cases ends
          simp
        | some false =>
          rw [found] at ends
          cases ends

theorem loop_cases (r : Retry) (api : Api) (left k : Nat) :
    (∃ i < left, (∀ j < i, r.Passes api (k + j)) ∧ r.attempt api (k + i) = some (r.loop api left k)) ∨
    ((∀ j < left, r.Passes api (k + j)) ∧ r.loop api left k = (.raised, [])) := by
  induction left generalizing k with
  | zero => exact .inr ⟨nofun, rfl⟩
  | succ left ih =>
    rw [loop]
    cases here : r.attempt api k with
    | some out => exact .inl ⟨0, by omega, nofun, here⟩
    | none =>
      have passes : r.Passes api k := attempt_none_iff.mp here
      have extend {i : Nat} (before : ∀ j < i, r.Passes api (k + 1 + j)) : ∀ j < i + 1, r.Passes api (k + j) := by
        intro j less
        cases j with
        | zero => exact passes
        | succ j =>
          rw [Nat.add_comm j 1, ← Nat.add_assoc]
          exact before j (by omega)
      rcases ih (k + 1) with ⟨i, less, before, ends⟩ | ⟨all, raised⟩
      · refine .inl ⟨i + 1, by omega, extend before, ?_⟩
        rw [Nat.add_comm i 1, ← Nat.add_assoc]
        exact ends
      · exact .inr ⟨extend all, raised⟩

theorem run_cases (r : Retry) (api : Api) :
    (∃ k < r.attempts, (∀ j < k, r.Passes api j) ∧ r.attempt api k = some (r.run api)) ∨
    ((∀ j < r.attempts, r.Passes api j) ∧ r.run api = (.raised, [])) := by
  have cases := r.loop_cases api r.attempts 0
  simp only [Nat.zero_add] at cases
  exact cases

theorem run_eq_of_attempt (less : k < r.attempts) (before : ∀ j < k, r.Passes api j) (ends : r.attempt api k = some out) :
    r.run api = out := by
  rcases r.run_cases api with ⟨i, -, before', ends'⟩ | ⟨all, -⟩
  · have same : i = k := by
      by_contra apart
      rcases Nat.lt_or_gt_of_ne apart with earlier | later
      · rw [attempt_none_iff.mpr (before i earlier)] at ends'
        cases ends'
      · rw [attempt_none_iff.mpr (before' k later)] at ends
        cases ends
    rw [same, ends] at ends'
    exact (Option.some.inj ends').symm
  · rw [attempt_none_iff.mpr (all k less)] at ends
    cases ends

theorem accepted_iff : (∀ name made, r.run api = (.returned name, made) → made = [name]) ↔ r.Never api (r.Reuses api) := by
  constructor
  · intro accepted k less before reuses
    have ends : r.attempt api k = some (.returned (r.nameAt k), []) := by
      obtain ⟨reply, taken, may, found⟩ := reuses
      rw [attempt, reply]
      dsimp only
      rw [taken, may, found]
      rfl
    have made := accepted _ _ (run_eq_of_attempt less before ends)
    cases made
  · intro never name made returned
    rcases r.run_cases api with ⟨k, less, before, ends⟩ | ⟨-, raised⟩
    · rcases attempt_some ends with ⟨reuses, -⟩ | ⟨-, out⟩ | ⟨-, -, out | ⟨out, -⟩⟩
      · exact absurd reuses (never k less before)
      · rw [out] at returned
        cases returned
      · rw [out] at returned
        cases returned
        rfl
      · rw [out] at returned
        cases returned
    · rw [raised] at returned
      cases returned

theorem clean_iff : (∀ made, r.run api = (.raised, made) → made = []) ↔ r.Never api (r.Loses api) := by
  constructor
  · intro clean k less before loses
    have ends : r.attempt api k = some (.raised, [r.nameAt k]) := by
      obtain ⟨reply, free⟩ := loses
      rw [attempt, reply]
      dsimp only
      rw [free]
      rfl
    have made := clean _ (run_eq_of_attempt less before ends)
    cases made
  · intro never made raised
    rcases r.run_cases api with ⟨k, less, before, ends⟩ | ⟨-, out⟩
    · rcases attempt_some ends with ⟨-, out⟩ | ⟨loses, -⟩ | ⟨-, -, out | ⟨out, -⟩⟩
      · rw [out] at raised
        cases raised
      · exact absurd loses (never k less before)
      · rw [out] at raised
        cases raised
      · rw [out] at raised
        cases raised
        rfl
    · rw [out] at raised
      cases raised
      rfl

theorem creates_of_distinct (distinct : ∀ i j, i < r.attempts → j < r.attempts → r.nameAt i = r.nameAt j → i = j)
    (never : r.Never api (r.Reuses api)) (answers : ∀ k, api.reply k = .answers)
    (looked : r.reuses = true → ∀ k name, api.found k name ≠ none) (names : Finset Name) (fewer : names.card < r.attempts)
    (taken : ∀ k name, api.taken k name = true → name ∈ names) :
    ∃ name, r.run api = (.returned name, [name]) := by
  rcases r.run_cases api with ⟨k, less, before, ends⟩ | ⟨all, -⟩
  · rcases attempt_some ends with ⟨reuses, -⟩ | ⟨loses, -⟩ | ⟨-, -, out | ⟨-, failed⟩⟩
    · exact absurd reuses (never k less before)
    · obtain ⟨reply, -⟩ := loses
      rw [answers k] at reply
      cases reply
    · exact ⟨_, out⟩
    · obtain ⟨may, nothing⟩ := failed (answers k)
      exact absurd nothing (looked may k _)
  · obtain ⟨i, inside, j, inside', apart, same⟩ := Finset.exists_ne_map_eq_of_card_lt_of_maps_to
      (s := Finset.range r.attempts) (t := names) (f := r.nameAt) (by rwa [Finset.card_range])
      fun k member => taken k _ (all k (Finset.mem_range.mp member)).2.1
    exact absurd (distinct i j (Finset.mem_range.mp inside) (Finset.mem_range.mp inside') same) apart

theorem renames_iff : r.Renames api ↔
    (∀ i j, i < r.attempts → j < r.attempts → r.nameAt i = r.nameAt j → i = j) ∧
    (∀ k < r.attempts, DnsSubdomain (r.nameAt k) ∧ (r.nameAt k).length ≤ r.limit) ∧
    r.Never api (r.Reuses api) ∧ r.Never api (r.Loses api) := by
  constructor
  · intro renames
    exact ⟨renames.distinct, renames.valid, accepted_iff.mp renames.accepted, clean_iff.mp renames.clean⟩
  · rintro ⟨distinct, valid, never, never'⟩
    refine ⟨distinct, valid, fun answers looked => ?_, accepted_iff.mpr never, clean_iff.mpr never'⟩
    rintro ⟨names, fewer, taken⟩
    exact creates_of_distinct distinct never answers looked names fewer taken

end Retry

/-! ### The names -/

section names

variable {base word tok : Name} {limit : Nat} {token : Nat → Name}

theorem isAlphanumeric_of_hex (hex : ∀ c ∈ tok, c ∈ "0123456789abcdef".toList) : ∀ c ∈ tok, isAlphanumeric c = true := by
  have all : ∀ c ∈ "0123456789abcdef".toList, isAlphanumeric c = true := by decide
  exact fun c member => all c (hex c member)

theorem Tokens.ne_nil {first attempts : Nat} (tokens : Tokens token first attempts) (k : Nat) : token k ≠ [] := by
  intro none
  have eight := tokens.eight k
  rw [none] at eight
  cases eight

/-- A name that ends with a token of letters and digits has the form where it has it up to the token. -/
theorem slug_append_token (some : word ≠ []) (first : ∀ c, word.head? = .some c → isAlphanumeric c = true)
    (chars : ∀ c ∈ word, isNameChar c = true) (single : word.IsChain Single) (last : ∀ c, word.getLast? = .some c → c ≠ '-')
    (someTok : tok ≠ []) (alphanumeric : ∀ c ∈ tok, isAlphanumeric c = true) : Slug (word ++ '-' :: tok) := by
  have isName {c : Char} (member : c ∈ tok) : isNameChar c = true := by
    rw [isNameChar, alphanumeric c member]
    rfl
  obtain ⟨t, tok, rfl⟩ := List.exists_cons_of_ne_nil someTok
  have lastTok : (word ++ '-' :: t :: tok).getLast? = (t :: tok).getLast? := by
    rw [List.getLast?_append, List.getLast?_cons_cons]
    cases found : (t :: tok).getLast? with
    | none => exact absurd (List.getLast?_eq_none_iff.mp found) (by simp)
    | some d => rfl
  refine ⟨⟨by simp, fun c head => ?_, fun c ends => ?_⟩, fun c member => ?_, ?_⟩
  · obtain ⟨d, word, rfl⟩ := List.exists_cons_of_ne_nil some
    exact first c head
  · rw [lastTok] at ends
    exact alphanumeric c (List.mem_of_getLast? ends)
  · rcases List.mem_append.mp member with inside | inside
    · exact chars c inside
    · rcases List.mem_cons.mp inside with rfl | inside
      · rfl
      · exact isName inside
  · have plain : (t :: tok).IsChain Single := by
      refine List.Pairwise.isChain (List.pairwise_iff_forall_sublist.mpr fun {a b} both => ?_)
      obtain ⟨dot, hyphen⟩ := isAlphanumeric_ne (alphanumeric a (both.subset (by simp)))
      exact ⟨fun same => hyphen same.1, fun same => dot same.1⟩
    obtain ⟨dot, hyphen⟩ := isAlphanumeric_ne (alphanumeric t List.mem_cons_self)
    have start : Single '-' t := ⟨fun same => hyphen same.2, fun same => dot same.2⟩
    refine List.isChain_append.mpr ⟨single, List.isChain_cons_cons.mpr ⟨start, plain⟩, ?_⟩
    rintro a ends b ⟨⟩
    exact ⟨fun same => last a ends same.1, fun same => absurd same.2 (by decide)⟩

/-- It is a subdomain where it is one up to the token. -/
theorem dnsName_append_token_iff (some : word ≠ []) (last : ∀ c, word.getLast? = .some c → c ≠ '-') (someTok : tok ≠ [])
    (alphanumeric : ∀ c ∈ tok, isAlphanumeric c = true) : DnsName (word ++ '-' :: tok) ↔ DnsName word := by
  obtain ⟨t, tok, rfl⟩ := List.exists_cons_of_ne_nil someTok
  obtain ⟨dotT, hyphenT⟩ := isAlphanumeric_ne (alphanumeric t List.mem_cons_self)
  constructor
  · intro name
    obtain ⟨chain, -, boundary⟩ := List.isChain_append.mp name.joined
    refine ⟨⟨some, fun c head => name.first c (head?_of_isPrefix (List.prefix_append _ _) head), fun c ends => ?_⟩,
      fun c member => name.chars c (List.mem_append_left _ member), chain⟩
    have inside := List.mem_of_getLast? ends
    refine isAlphanumeric_of_isNameChar (name.chars c (List.mem_append_left _ inside)) (fun dot => ?_) (last c ends)
    exact ((boundary c ends '-' rfl).1 dot).2 rfl
  · intro name
    refine ⟨⟨by simp, fun c head => ?_, fun c ends => ?_⟩, fun c member => ?_, ?_⟩
    · obtain ⟨d, word, rfl⟩ := List.exists_cons_of_ne_nil some
      exact name.first c head
    · rw [List.getLast?_append, List.getLast?_cons_cons] at ends
      cases found : (t :: tok).getLast? with
      | none => exact absurd (List.getLast?_eq_none_iff.mp found) (by simp)
      | some d =>
        rw [found] at ends
        cases ends
        exact alphanumeric _ (List.mem_of_getLast? found)
    · rcases List.mem_append.mp member with inside | inside
      · exact name.chars c inside
      · rcases List.mem_cons.mp inside with rfl | inside
        · rfl
        · rw [isNameChar, alphanumeric c inside]
          rfl
    · have plain : (t :: tok).IsChain Joined := by
        refine List.Pairwise.isChain (List.pairwise_iff_forall_sublist.mpr fun {a b} both => ?_)
        exact joined_of_ne_dot (isAlphanumeric_ne (alphanumeric a (both.subset (by simp)))).1
          (isAlphanumeric_ne (alphanumeric b (both.subset (by simp)))).1
      refine List.isChain_append.mpr ⟨name.joined, List.isChain_cons_cons.mpr ⟨joined_of_ne_dot (by decide) dotT, plain⟩, ?_⟩
      rintro a ends b ⟨⟩
      exact joined_of_ne_dot (isAlphanumeric_ne (name.last a ends)).1 (by decide)

/-- A name that is tried after the first: what is within the limit of the base, a hyphen and the token. -/
def suffixed (base tok : Name) (limit : Nat) : Name :=
  if base.length + 1 < limit then base ++ '-' :: tok.take (limit - base.length - 1) else base

theorem cutName_of_take {s gap : Name} (long : limit < s.length) (cut : s.take limit = word ++ gap) (slug : Slug word)
    (hyphens : ∀ c ∈ gap, c = '-') : cutName s limit = word := by
  have trailing : (word ++ gap).rdropWhile (· == '-') = word := by
    rw [rdropWhile_append (fun c ends => beq_false_of_ne (isAlphanumeric_ne (slug.last c ends)).2) slug.nonempty,
      List.rdropWhile_eq_nil_iff.mpr fun c member => beq_iff_eq.mpr (hyphens c member), List.append_nil]
  have ends : word.rdropWhile (!isAlphanumeric ·) = word := by
    rw [List.rdropWhile_eq_self_iff]
    intro some
    rw [slug.last _ (List.getLast?_eq_getLast_of_ne_nil some)]
    decide
  rw [cutName, if_pos long, cut, trailing, ends, orVm_eq_self slug.nonempty]

theorem sanitize_suffixed (slug : Slug base) (short : base.length ≤ limit) (someTok : tok ≠ [])
    (alphanumeric : ∀ c ∈ tok, isAlphanumeric c = true) :
    sanitizeK8sDnsSubdomain (base ++ '-' :: tok) limit = suffixed base tok limit := by
  have notHyphen : ∀ c, base.getLast? = some c → c ≠ '-' := fun c ends => (isAlphanumeric_ne (slug.last c ends)).2
  have whole := slug_append_token slug.nonempty slug.first slug.chars slug.single notHyphen someTok alphanumeric
  have length : (base ++ '-' :: tok).length = base.length + tok.length + 1 := by
    rw [List.length_append, List.length_cons, Nat.add_assoc]
  have cut : (base ++ '-' :: tok).take limit = base ++ ('-' :: tok).take (limit - base.length) := by
    rw [List.take_append, List.take_of_length_le short]
  by_cases long : limit < (base ++ '-' :: tok).length
  · rw [sanitize_eq, fullName_of_slug whole, suffixed]
    split
    · next room =>
      rw [show limit - base.length = limit - base.length - 1 + 1 by omega, List.take_succ_cons] at cut
      have someTake : tok.take (limit - base.length - 1) ≠ [] := by
        rw [ne_eq, List.take_eq_nil_iff]
        rintro (none | none)
        · omega
        · exact someTok none
      have slugged := slug_append_token slug.nonempty slug.first slug.chars slug.single notHyphen someTake
        fun c member => alphanumeric c (List.mem_of_mem_take member)
      exact cutName_of_take long (cut.trans (List.append_nil _).symm) slugged nofun
    · next full =>
      refine cutName_of_take long cut slug fun c member => ?_
      rcases Nat.lt_or_ge base.length limit with less | full'
      · rw [show limit - base.length = 1 by omega, List.take_succ_cons, List.take_zero] at member
        exact List.mem_singleton.mp member
      · rw [show limit - base.length = 0 by omega, List.take_zero] at member
        cases member
  · have pos := List.length_pos_iff.mpr someTok
    rw [sanitize_of_slug whole (by omega), suffixed, if_pos (by omega), List.take_of_length_le (by omega)]

/-- The tokens are told apart by what is left of them within the limit. -/
structure Apart (base : Name) (limit : Nat) (token : Nat → Name) (attempts : Nat) : Prop where
  room : base.length + 1 < limit
  distinct : ∀ i j, 1 ≤ i → i < attempts → 1 ≤ j → j < attempts →
    (token i).take (limit - base.length - 1) = (token j).take (limit - base.length - 1) → i = j

/-- The names that a loop tries with a suffix from its second attempt on. -/
def suffixedAt (base : Name) (token : Nat → Name) (limit attempt : Nat) : Name :=
  if attempt = 0 then base else suffixed base (token attempt) limit

theorem suffixedAt_distinct_iff (token : Nat → Name) (attempts : Nat) (several : 2 ≤ attempts) :
    (∀ i j, i < attempts → j < attempts → suffixedAt base token limit i = suffixedAt base token limit j → i = j) ↔
      Apart base limit token attempts := by
  constructor
  · intro distinct
    have room : base.length + 1 < limit := by
      by_contra full
      have same : suffixedAt base token limit 0 = suffixedAt base token limit 1 := by
        rw [suffixedAt, if_pos rfl, suffixedAt, if_neg (by decide), suffixed, if_neg full]
      exact absurd (distinct 0 1 (by omega) (by omega) same) (by decide)
    refine ⟨room, fun i j one less one' less' same => distinct i j less less' ?_⟩
    rw [suffixedAt, suffixedAt, if_neg (by omega), if_neg (by omega), suffixed, suffixed, if_pos room, if_pos room, same]
  · intro apart i j less less' same
    have longer {k : Nat} (later : k ≠ 0) : suffixedAt base token limit k ≠ base := by
      rw [suffixedAt, if_neg later, suffixed, if_pos apart.room]
      intro equal
      have lengths := congrArg List.length equal
      rw [List.length_append, List.length_cons] at lengths
      omega
    have zero : suffixedAt base token limit 0 = base := if_pos rfl
    by_cases first : i = 0
    · by_cases first' : j = 0
      · rw [first, first']
      · rw [first, zero] at same
        exact absurd same.symm (longer first')
    · by_cases first' : j = 0
      · rw [first', zero] at same
        exact absurd same (longer first)
      · rw [suffixedAt, suffixedAt, if_neg first, if_neg first', suffixed, suffixed, if_pos apart.room,
          if_pos apart.room] at same
        exact apart.distinct i j (by omega) less (by omega) less' (List.cons.inj (List.append_cancel_left same)).2

theorem suffixedAt_valid_iff (slug : Slug base) (short : base.length ≤ limit) {attempts : Nat} (several : 2 ≤ attempts)
    (tokens : Tokens token 1 attempts) :
    (∀ k < attempts, DnsSubdomain (suffixedAt base token limit k) ∧ (suffixedAt base token limit k).length ≤ limit) ↔
      DnsSubdomain base := by
  constructor
  · exact fun valid => (valid 0 (by omega)).1
  · intro valid k _
    have notHyphen : ∀ c, base.getLast? = some c → c ≠ '-' := fun c ends => (isAlphanumeric_ne (slug.last c ends)).2
    rw [suffixedAt]
    split
    · exact ⟨valid, short⟩
    · rw [suffixed]
      split
      · next room =>
        have some : (token k).take (limit - base.length - 1) ≠ [] := by
          rw [ne_eq, List.take_eq_nil_iff, ← List.length_eq_zero_iff, tokens.eight k]
          omega
        rw [dnsSubdomain_iff, dnsName_append_token_iff slug.nonempty notHyphen some
          fun c member => isAlphanumeric_of_hex (tokens.hex k) c (List.mem_of_mem_take member)]
        refine ⟨(dnsSubdomain_iff base).mp valid, ?_⟩
        rw [List.length_append, List.length_cons, List.length_take]
        omega
      · exact ⟨valid, short⟩

theorem renames_suffixed_iff (r : Retry) (api : Api) (slug : Slug base) (short : base.length ≤ r.limit)
    (several : 2 ≤ r.attempts) (tokens : Tokens token 1 r.attempts) (names : r.nameAt = suffixedAt base token r.limit) :
    r.Renames api ↔ Apart base r.limit token r.attempts ∧ DnsSubdomain base ∧
      r.Never api (r.Reuses api) ∧ r.Never api (r.Loses api) := by
  rw [Retry.renames_iff, names, suffixedAt_distinct_iff token r.attempts several,
    suffixedAt_valid_iff slug short several tokens]

theorem nameAt_suffixed (slug : Slug base) (short : base.length ≤ limit) {attempts : Nat}
    (tokens : Tokens token 1 attempts) :
    (fun attempt => if attempt = 0 then base else sanitizeK8sDnsSubdomain (base ++ '-' :: token attempt) limit) =
      suffixedAt base token limit := by
  funext attempt
  rw [suffixedAt]
  split
  · rfl
  · exact sanitize_suffixed slug short (tokens.ne_nil attempt) (isAlphanumeric_of_hex (tokens.hex attempt))

/-! ### Uploader pods -/

variable {vmName : Name}

/-- The part of a VM's name that is in a pod's has the form but for a dot at its end. -/
structure Stem (s : Name) : Prop where
  some : s ≠ []
  first : ∀ c, s.head? = .some c → isAlphanumeric c = true
  last : ∀ c, s.getLast? = .some c → c ≠ '-'
  chars : ∀ c ∈ s, isNameChar c = true
  single : s.IsChain Single
  short : s.length ≤ 35

theorem stem_uploaderStem (slug : Slug vmName) : Stem (uploaderStem vmName) := by
  have before : uploaderStem vmName <+: vmName.take 35 := List.rdropWhile_prefix _ _
  have whole := before.trans (List.take_prefix _ _)
  obtain ⟨c, rest, rfl⟩ := List.exists_cons_of_ne_nil slug.nonempty
  refine ⟨?_, fun d first => slug.first d (head?_of_isPrefix whole first), fun d last => ?_,
    fun d member => slug.chars d (whole.subset member), slug.single.infix whole.isInfix, ?_⟩
  · rw [uploaderStem, List.take_succ_cons, ne_eq, List.rdropWhile_eq_nil_iff]
    intro hyphens
    exact (isAlphanumeric_ne (slug.first c rfl)).2 (beq_iff_eq.mp (hyphens c List.mem_cons_self))
  · rw [uploaderStem] at last
    have free : (d == '-') = false := getLast?_rdropWhile (p := (· == '-')) last
    exact beq_eq_false_iff_ne.mp free
  · exact before.length_le.trans (List.length_take_le _ _)

theorem getLast?_up (stem : Stem word) : ("up-".toList ++ word).getLast? = word.getLast? := by
  rw [List.getLast?_append]
  cases found : word.getLast? with
  | none => exact absurd (List.getLast?_eq_none_iff.mp found) stem.some
  | some c => rfl

theorem slug_up (stem : Stem word) (someTok : tok ≠ []) (alphanumeric : ∀ c ∈ tok, isAlphanumeric c = true) :
    Slug ("up-".toList ++ word ++ '-' :: tok) := by
  refine slug_append_token (by simp) ?_ ?_ ?_ ?_ someTok alphanumeric
  · rintro c ⟨⟩
    decide
  · intro c member
    rcases List.mem_append.mp member with inside | inside
    · exact (by decide : ∀ c ∈ "up-".toList, isNameChar c = true) c inside
    · exact stem.chars c inside
  · refine List.isChain_append.mpr ⟨by decide, stem.single, ?_⟩
    intro a last b first
    obtain ⟨dot, hyphen⟩ := isAlphanumeric_ne (stem.first b first)
    exact ⟨fun same => hyphen same.2, fun same => dot same.2⟩
  · rw [getLast?_up stem]
    exact stem.last

theorem length_up (stem : Stem word) (eight : tok.length = 8) : ("up-".toList ++ word ++ '-' :: tok).length ≤ 63 := by
  have short := stem.short
  have three : "up-".toList.length = 3 := rfl
  rw [List.length_append, List.length_append, List.length_cons, three]
  omega

theorem uploaderRetry_nameAt (slug : Slug vmName) (tokens : Tokens token 0 8) (attempt : Nat) :
    (uploaderRetry vmName token).nameAt attempt = "up-".toList ++ uploaderStem vmName ++ '-' :: token attempt := by
  have stem := stem_uploaderStem slug
  have same := sanitize_of_slug (slug_up stem (tokens.ne_nil attempt) (isAlphanumeric_of_hex (tokens.hex attempt)))
    (length_up stem (tokens.eight attempt))
  -- the sanitizer is not to be unfolded here
  unfold uploaderRetry
  with_reducible exact same

theorem dnsName_up_iff (stem : Stem word) : DnsName ("up-".toList ++ word) ↔ DnsName word := by
  constructor
  · intro name
    refine ⟨⟨stem.some, stem.first, fun c last => name.last c (by rw [getLast?_up stem, last])⟩, stem.chars, ?_⟩
    exact (List.isChain_append.mp name.joined).2.1
  · intro name
    refine ⟨⟨by simp, ?_, fun c last => name.last c (by rwa [getLast?_up stem] at last)⟩, fun c member => ?_, ?_⟩
    · rintro c ⟨⟩
      decide
    · rcases List.mem_append.mp member with inside | inside
      · exact (by decide : ∀ c ∈ "up-".toList, isNameChar c = true) c inside
      · exact stem.chars c inside
    · refine List.isChain_append.mpr ⟨?_, name.joined, ?_⟩
      · exact List.isChain_cons_cons.mpr ⟨joined_of_ne_dot (by decide) (by decide),
          List.isChain_cons_cons.mpr ⟨joined_of_ne_dot (by decide) (by decide), List.IsChain.singleton _⟩⟩
      · rintro a ⟨⟩ b first
        exact joined_of_ne_dot (by decide) (isAlphanumeric_ne (stem.first b first)).1

theorem uploader_names (slug : Slug vmName) (tokens : Tokens token 0 8) :
    (∀ i j, i < 8 → j < 8 → (uploaderRetry vmName token).nameAt i = (uploaderRetry vmName token).nameAt j → i = j) ∧
    ((∀ k < 8, DnsSubdomain ((uploaderRetry vmName token).nameAt k) ∧ ((uploaderRetry vmName token).nameAt k).length ≤ 63) ↔
      DnsSubdomain (uploaderStem vmName)) := by
  have stem := stem_uploaderStem slug
  have valid_iff (k : Nat) : DnsSubdomain ((uploaderRetry vmName token).nameAt k) ↔ DnsSubdomain (uploaderStem vmName) := by
    rw [uploaderRetry_nameAt slug tokens, dnsSubdomain_iff, dnsName_append_token_iff (by simp)
      (by rw [getLast?_up stem]; exact stem.last) (tokens.ne_nil k) (isAlphanumeric_of_hex (tokens.hex k)),
      dnsName_up_iff stem, dnsSubdomain_iff]
  refine ⟨fun i j less less' same => ?_, fun valid => (valid_iff 0).mp (valid 0 (by decide)).1, fun valid k _ => ⟨?_, ?_⟩⟩
  · rw [uploaderRetry_nameAt slug tokens, uploaderRetry_nameAt slug tokens] at same
    exact tokens.distinct i j (Nat.zero_le i) less (Nat.zero_le j) less' (List.cons.inj (List.append_cancel_left same)).2
  · exact (valid_iff k).mpr valid
  · rw [uploaderRetry_nameAt slug tokens]
    exact length_up stem (tokens.eight k)

end names

/-- The loops try new names exactly where the base leaves room for tokens that differ within the limit, and is a subdomain;
and no answer may be lost, nor a PVC that is taken be found. -/
theorem renames_iff_apart (name : Name) (token : Nat → Name) (api : Api) :
    (Tokens token 1 16 →
      let r := vmRetry (sanitizeK8sDnsSubdomain name 63) token
      (r.Renames api ↔ Apart (sanitizeK8sDnsSubdomain name 63) 63 token 16 ∧
        DnsSubdomain (sanitizeK8sDnsSubdomain name 63) ∧ r.Never api (r.Loses api))) ∧
    (Tokens token 1 16 →
      let r := pvcRetry (sanitizeK8sDnsSubdomain name 253) token
      (r.Renames api ↔ Apart (sanitizeK8sDnsSubdomain name 253) 253 token 16 ∧
        DnsSubdomain (sanitizeK8sDnsSubdomain name 253) ∧ r.Never api (r.Reuses api) ∧ r.Never api (r.Loses api))) ∧
    (Tokens token 0 8 →
      let r := uploaderRetry (sanitizeK8sDnsSubdomain name 63) token
      (r.Renames api ↔ DnsSubdomain (uploaderStem (sanitizeK8sDnsSubdomain name 63)) ∧ r.Never api (r.Loses api))) := by
  have fixed {r : Retry} {api : Api} (fixed : r.reuses = false) : r.Never api (r.Reuses api) := by
    rintro k - - ⟨-, -, reuses, -⟩
    rw [fixed] at reuses
    cases reuses
  refine ⟨fun tokens => ?_, fun tokens => ?_, fun tokens => ?_⟩
  · obtain ⟨slug, short⟩ := slug_sanitize name 63 (by decide)
    have spec := renames_suffixed_iff (vmRetry (sanitizeK8sDnsSubdomain name 63) token) api slug short
      (Nat.le_of_ble_eq_true rfl) tokens (nameAt_suffixed slug short tokens)
    exact spec.trans (and_congr_right' (and_congr_right' (and_iff_right (fixed rfl))))
  · obtain ⟨slug, short⟩ := slug_sanitize name 253 (by decide)
    exact renames_suffixed_iff (pvcRetry (sanitizeK8sDnsSubdomain name 253) token) api slug short
      (Nat.le_of_ble_eq_true rfl) tokens (nameAt_suffixed slug short tokens)
  · obtain ⟨slug, -⟩ := slug_sanitize name 63 (by decide)
    obtain ⟨distinct, valid⟩ := uploader_names slug tokens
    exact Retry.renames_iff.trans ((and_iff_right distinct).trans (and_congr valid (and_iff_right (fixed rfl))))

/-- A namespace in which nothing is taken, and every call is answered. -/
def quietApi : Api where
  taken _ _ := false
  reply _ := .answers
  found _ _ := some false

def countedToken (k : Nat) : Name := List.replicate 7 '0' ++ [Nat.digitChar (k % 16)]

theorem tokens_counted : Tokens countedToken 1 16 where
  eight _ := rfl
  hex k := by
    have each : ∀ d < 16, ∀ c ∈ List.replicate 7 '0' ++ [Nat.digitChar d], c ∈ "0123456789abcdef".toList := by decide
    exact each (k % 16) (Nat.mod_lt _ (by decide))
  distinct := by
    have each : ∀ i < 16, ∀ j < 16, countedToken i = countedToken j → i = j := by decide +kernel
    exact fun i j _ less _ less' same => each i less j less' same

/-- A name of the greatest length is tried again and again. -/
theorem not_renames_long : Tokens countedToken 1 16 ∧
    sanitizeK8sDnsSubdomain (List.replicate 63 'a') 63 = List.replicate 63 'a' ∧
    ¬ (vmRetry (List.replicate 63 'a') countedToken).Renames quietApi := by
  have slug : Slug (List.replicate 63 'a') := by
    refine ⟨⟨by decide, ?_, ?_⟩, by decide +kernel, by decide +kernel⟩
    · rintro c ⟨⟩
      decide
    · rintro c ⟨⟩
      decide
  refine ⟨tokens_counted, sanitize_of_slug slug (le_refl 63), fun renames => ?_⟩
  have names : (vmRetry (List.replicate 63 'a') countedToken).nameAt = suffixedAt (List.replicate 63 'a') countedToken 63 :=
    nameAt_suffixed slug (le_refl 63) tokens_counted
  have distinct := renames.distinct
  rw [names] at distinct
  have room := ((suffixedAt_distinct_iff countedToken 16 (by decide)).mp distinct).room
  exact absurd room (by decide)

end H2kvm.Deployers
