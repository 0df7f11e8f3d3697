import Mathlib.Data.List.Chain
import Mathlib.Data.List.Nodup

namespace H2kvm.Framework

section trail

variable {α ε : Type} (next : α → Except ε (Option α))

/-- From one to another in so many steps. -/
inductive Steps : Nat → α → α → Prop
  | refl (a : α) : Steps 0 a a
  | tail {k : Nat} {a b c : α} : Steps k a b → next b = .ok (some c) → Steps (k + 1) a c

/-- One after the other, until there is none, one that was met, or no more room. -/
def trail [DecidableEq α] : Nat → List α → α → Except ε (List α)
  | 0, met, _ => .ok met
  | room + 1, met, a =>
    match next a with
    | .error e => .error e
    | .ok none => .ok (met ++ [a])
    | .ok (some b) => if b ∈ met ++ [a] then .ok (met ++ [a]) else trail room (met ++ [a]) b

/-- Each is followed by the one that comes next, and behind the last one comes none, one of these, or no room is left. -/
structure Followed (room : Nat) (a : α) (chain : List α) : Prop where
  first : room ≠ 0 → chain.head? = some a
  linked : chain.IsChain fun b c => next b = .ok (some c)
  distinct : chain.Nodup
  bounded : chain.length ≤ room
  stops : ∀ b, chain.getLast? = some b →
    next b = .ok none ∨ ∃ c, next b = .ok (some c) ∧ (c ∈ chain ∨ chain.length = room)

variable {next} {a b c : α} {k room : Nat} {met chain : List α}

theorem Steps.head (first : next a = .ok (some b)) (rest : Steps next k b c) : Steps next (k + 1) a c := by
  induction rest with
  | refl b => exact .tail (.refl a) first
  | tail _ last ih => exact .tail (ih first) last

theorem Steps.unique (there : Steps next k a b) (there' : Steps next k a c) : b = c := by
  induction there generalizing c with
  | refl a =>
    cases there'
    rfl
  | tail _ last ih =>
    cases there' with
    | tail there' last' =>
      rw [← ih there', last] at last'
      exact Option.some.inj (Except.ok.inj last')

section made

variable [DecidableEq α]

theorem trail_cases (made : trail next (room + 1) met a = .ok chain) :
    chain = met ++ [a] ∧ next a = .ok none ∨
      ∃ b, next a = .ok (some b) ∧ (chain = met ++ [a] ∧ b ∈ chain ∨
        b ∉ met ++ [a] ∧ trail next room (met ++ [a]) b = .ok chain) := by
  rw [trail] at made
  split at made
  · cases made
  · next last => exact .inl ⟨(Except.ok.inj made).symm, last⟩
  · next b onward =>
    refine .inr ⟨b, onward, ?_⟩
    split_ifs at made with again
    · obtain rfl := Except.ok.inj made
      exact .inl ⟨rfl, again⟩
    · exact .inr ⟨again, made⟩

theorem trail_cons (linked : (met ++ [a]).IsChain fun b c => next b = .ok (some c)) (distinct : (met ++ [a]).Nodup)
    (made : trail next (room + 1) met a = .ok chain) :
    ∃ rest, chain = met ++ a :: rest ∧ rest.length ≤ room ∧ (chain.IsChain fun b c => next b = .ok (some c)) ∧
      chain.Nodup ∧ ∀ b, chain.getLast? = some b →
        next b = .ok none ∨ ∃ c, next b = .ok (some c) ∧ (c ∈ chain ∨ rest.length = room) := by
  induction room generalizing met a with
  | zero =>
    have whole : chain = met ++ [a] := by
      rcases trail_cases made with ⟨whole, -⟩ | ⟨b, -, ⟨whole, -⟩ | ⟨-, whole⟩⟩
      · exact whole
      · exact whole
      · exact (Except.ok.inj whole).symm
    subst whole
    refine ⟨[], rfl, Nat.le_refl 0, linked, distinct, fun b ends => ?_⟩
    rw [List.getLast?_concat, Option.some.injEq] at ends
    subst ends
    rcases trail_cases made with ⟨-, last⟩ | ⟨b, onward, -⟩
    · exact .inl last
    · exact .inr ⟨b, onward, .inr rfl⟩
  | succ room ih =>
    rcases trail_cases made with ⟨rfl, last⟩ | ⟨b, onward, ⟨rfl, again⟩ | ⟨new, rest⟩⟩
    · refine ⟨[], rfl, Nat.zero_le _, linked, distinct, fun b ends => .inl ?_⟩
      rw [List.getLast?_concat] at ends
      rw [← Option.some.inj ends, last]
    · refine ⟨[], rfl, Nat.zero_le _, linked, distinct, fun c ends => .inr ⟨b, ?_, .inl again⟩⟩
      rw [List.getLast?_concat] at ends
      rw [← Option.some.inj ends, onward]
    · have linked' : (met ++ [a] ++ [b]).IsChain fun b c => next b = .ok (some c) := by
        refine linked.append (List.isChain_singleton b) fun x ends y first => ?_
        rw [List.getLast?_concat] at ends
        rw [List.head?_singleton] at first
        rw [← Option.some.inj ends, ← Option.some.inj first, onward]
      have distinct' : (met ++ [a] ++ [b]).Nodup := by
        refine distinct.append (List.nodup_singleton b) fun x member single => ?_
        exact new (List.mem_singleton.mp single ▸ member)
      obtain ⟨rest, whole, length, linked, distinct, stops⟩ := ih linked' distinct' rest
      refine ⟨b :: rest, by rw [whole, List.append_assoc, List.singleton_append], Nat.succ_le_succ length,
        linked, distinct, fun c ends => (stops c ends).imp_right ?_⟩
      rintro ⟨d, onward, again | full⟩
      · exact ⟨d, onward, .inl again⟩
      · exact ⟨d, onward, .inr (congrArg (· + 1) full)⟩

theorem trail_followed (made : trail next room [] a = .ok chain) : Followed next room a chain := by
  cases room with
  | zero =>
    obtain rfl := Except.ok.inj made
    exact ⟨fun h => absurd rfl h, List.isChain_nil, List.nodup_nil, Nat.le_refl 0, nofun⟩
  | succ room =>
    obtain ⟨rest, whole, length, linked, distinct, stops⟩ :=
      trail_cons (List.isChain_singleton a) (List.nodup_singleton a) made
    rw [List.nil_append] at whole
    subst whole
    refine ⟨fun _ => rfl, linked, distinct, Nat.succ_le_succ length, fun b ends => (stops b ends).imp_right ?_⟩
    rintro ⟨d, onward, again | full⟩
    · exact ⟨d, onward, .inl again⟩
    · exact ⟨d, onward, .inr (congrArg (· + 1) full)⟩

end made

theorem Followed.steps (followed : Followed next room a chain) {i : Nat} (there : chain[i]? = some b) : Steps next i a b := by
  obtain ⟨inside, -⟩ := List.getElem?_eq_some_iff.mp there
  have nonzero : room ≠ 0 := by
    have := followed.bounded
    omega
  induction i generalizing b with
  | zero =>
    rw [← List.head?_eq_getElem?, followed.first nonzero] at there
    exact Option.some.inj there ▸ .refl a
  | succ i ih =>
    have here : chain[i]? = some chain[i] := List.getElem?_eq_getElem (by omega)
    have onward := List.isChain_iff_getElem.mp followed.linked i inside
    rw [List.getElem?_eq_getElem inside, Option.some.injEq] at there
    exact .tail (ih here (by omega)) (there ▸ onward)

/-- Behind each comes one of these again, or none, unless there is no room for more. -/
theorem Followed.onward (followed : Followed next room a chain) {i : Nat} (there : chain[i]? = some b) :
    next b = .ok none ∨ ∃ c, next b = .ok (some c) ∧ (c ∈ chain ∨ i + 1 = room) := by
  obtain ⟨inside, rfl⟩ := List.getElem?_eq_some_iff.mp there
  by_cases more : i + 1 < chain.length
  · exact .inr ⟨_, List.isChain_iff_getElem.mp followed.linked i more, .inl (List.getElem_mem more)⟩
  · have last : chain.getLast? = some chain[i] := by
      rw [List.getLast?_eq_getElem?, ← there]
      congr 1
      omega
    have full : i + 1 = chain.length := by omega
    rw [full]
    exact followed.stops _ last

theorem Followed.mem_iff (followed : Followed next room a chain) : b ∈ chain ↔ ∃ k < room, Steps next k a b := by
  constructor
  · intro member
    obtain ⟨i, inside, there⟩ := List.mem_iff_getElem.mp member
    have bounded := followed.bounded
    exact ⟨i, by omega, followed.steps (List.getElem?_eq_some_iff.mpr ⟨inside, there⟩)⟩
  · rintro ⟨k, inside, there⟩
    induction there with
    | refl a =>
      have first := followed.first (by omega)
      exact List.mem_of_head? first
    | @tail k a b c before last ih =>
      have member := ih followed (by omega)
      obtain ⟨i, inside', there⟩ := List.mem_iff_getElem.mp member
      have there : chain[i]? = some b := List.getElem?_eq_some_iff.mpr ⟨inside', there⟩
      rcases followed.onward there with none | ⟨d, again, member | full⟩
      · rw [last] at none
        cases none
      · rw [last] at again
        exact Option.some.inj (Except.ok.inj again) ▸ member
      · -- The last place there is room for is not this one, and each is met at one place only.
        have bounded : k < chain.length := by omega
        have same : chain[k] = b := (followed.steps (List.getElem?_eq_getElem bounded)).unique before
        have at' : chain[i]? = chain[k]? := by rw [there, List.getElem?_eq_getElem bounded, same]
        have := (List.getElem?_inj inside' followed.distinct).mp at'
        omega

theorem trail_ok_iff [DecidableEq α] :
    (∃ chain, trail next room [] a = .ok chain) ↔ ∀ k < room, ∀ b e, Steps next k a b → next b ≠ .error e := by
  constructor
  · rintro ⟨chain, made⟩ k inside b e there failed
    have followed := trail_followed made
    obtain ⟨i, inside', there'⟩ := List.mem_iff_getElem.mp (followed.mem_iff.mpr ⟨k, inside, there⟩)
    rcases followed.onward (List.getElem?_eq_some_iff.mpr ⟨inside', there'⟩) with none | ⟨c, onward, -⟩
    · rw [failed] at none
      cases none
    · rw [failed] at onward
      cases onward
  · intro fine
    generalize ([] : List α) = met
    induction room generalizing met a with
    | zero => exact ⟨met, rfl⟩
    | succ room ih =>
      rw [trail]
      split
      · next e failed => exact absurd failed (fine 0 (by omega) a e (.refl a))
      · exact ⟨_, rfl⟩
      · next b onward =>
        split_ifs
        · exact ⟨_, rfl⟩
        · exact ih (fun k inside c e there => fine (k + 1) (by omega) c e (there.head onward)) _

end trail

end H2kvm.Framework
