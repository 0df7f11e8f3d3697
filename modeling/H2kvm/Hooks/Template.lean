import H2kvm.Framework.Lines

namespace H2kvm.Hooks

open Framework

section template

namespace Template

/-- The characters that `\w` matches, of which none is white space or a brace. -/
structure Words where
  isWord : Char → Bool
  space : ∀ c, Text.isSpace c → isWord c = false
  openBrace : isWord '{' = false
  closeBrace : isWord '}' = false

structure ValueError where
  message : List Char
  deriving DecidableEq

/-- The variables with the texts of their values, except for `None`. -/
abbrev Variables := List Char → Option (Option (List Char))

variable (w : Words) (vars : Variables) (strict : Bool)

/-- `\{\{\s*(\w+)\s*\}\}` matched at the start of a text: its group and the match. -/
def matchAt : List Char → Option (List Char × List Char)
  | '{' :: '{' :: s =>
    let before := s.takeWhile Text.isSpace
    let s := s.dropWhile Text.isSpace
    let name := s.takeWhile w.isWord
    let s := s.dropWhile w.isWord
    let after := s.takeWhile Text.isSpace
    if name ≠ [] ∧ ['}', '}'] <+: s.dropWhile Text.isSpace then
      some (name, ['{', '{'] ++ (before ++ (name ++ (after ++ ['}', '}']))))
    else none
  | _ => none

/-- The `replacer` of `substitute`. -/
def replacer (name matched : List Char) : Except ValueError (List Char) :=
  match vars name with
  | some value => .ok (value.getD [])
  | none =>
    if strict then .error ⟨"Variable '".toList ++ name ++ "' not found in context".toList⟩
    else .ok matched

/-- `pattern.sub`, with what is left of the last match to be passed over. -/
def subFrom : Nat → List Char → Except ValueError (List Char)
  | _, [] => .ok []
  | skip + 1, _ :: s => subFrom skip s
  | 0, c :: s =>
    match matchAt w (c :: s) with
    | none => do return c :: (← subFrom 0 s)
    | some (name, matched) => do return (← replacer vars strict name matched) ++ (← subFrom (matched.length - 1) s)

def substitute (template : List Char) : Except ValueError (List Char) := subFrom w vars strict 0 template

/-- `{{ name }}`, with any white space around the name. -/
def IsPlaceholder (name p : List Char) : Prop :=
  ∃ before after, p = ['{', '{'] ++ (before ++ (name ++ (after ++ ['}', '}']))) ∧ name ≠ [] ∧
    (∀ c ∈ before, Text.isSpace c) ∧ (∀ c ∈ name, w.isWord c) ∧ ∀ c ∈ after, Text.isSpace c

/-- What a placeholder stands for; one whose name is not known stays. -/
def textOf (name p : List Char) : List Char :=
  match vars name with
  | some value => value.getD []
  | none => p

/-- All placeholders of a text are replaced and all other text is kept. -/
inductive Expands : List Char → List Char → Prop where
  | done : Expands [] []
  | text {c : Char} {s t : List Char} (plain : ∀ name p, IsPlaceholder w name p → ¬p <+: c :: s) (rest : Expands s t) :
      Expands (c :: s) (c :: t)
  | placeholder {name p s t : List Char} (is : IsPlaceholder w name p) (rest : Expands s t) :
      Expands (p ++ s) (textOf vars name p ++ t)

/-- A placeholder with a name that is not known is somewhere in the text. -/
def HasUnknown (s : List Char) : Prop := ∃ name p, IsPlaceholder w name p ∧ p <:+: s ∧ vars name = none

section matching

variable {w : Words} {vars : Variables} {strict : Bool} {name name' p p' s t t' : List Char} {c : Char}

theorem takeWhile_append_of_head {f : Char → Bool} {body rest : List Char} (inside : ∀ c ∈ body, f c)
    (stop : ∀ c, rest.head? = some c → f c = false) :
    (body ++ rest).takeWhile f = body ∧ (body ++ rest).dropWhile f = rest := by
  rw [List.takeWhile_append_of_pos inside, List.dropWhile_append_of_pos inside]
  cases rest with
  | nil => simp
  | cons c rest => simp [stop c rfl]

/-- A match is found just where a placeholder starts. -/
theorem matchAt_eq_some_iff : matchAt w s = some (name, p) ↔ IsPlaceholder w name p ∧ p <+: s := by
  constructor
  · intro found
    rw [matchAt.eq_def] at found
    split at found
    · next s =>
      dsimp only at found
      split at found
      · next ends =>
        obtain ⟨named, rest, ends⟩ := ends
        cases found
        refine ⟨⟨_, _, rfl, named, fun c => List.mem_takeWhile_imp, fun c => List.mem_takeWhile_imp,
          fun c => List.mem_takeWhile_imp⟩, rest, ?_⟩
        simp only [List.append_assoc, List.cons_append, List.nil_append] at ends ⊢
        rw [ends, List.takeWhile_append_dropWhile, List.takeWhile_append_dropWhile, List.takeWhile_append_dropWhile]
      · cases found
    · cases found
  · rintro ⟨⟨before, after, rfl, named, spaces, word, spaces'⟩, rest, rfl⟩
    have notSpace : ∀ c ∈ name, Text.isSpace c = false := fun c mem => by
      cases space : Text.isSpace c with
      | false => rfl
      | true => exact absurd (word c mem) (by rw [w.space c space]; decide)
    have lead : ∀ c, (name ++ (after ++ (['}', '}'] ++ rest))).head? = some c → Text.isSpace c = false := by
      obtain ⟨d, name, rfl⟩ := List.exists_cons_of_ne_nil named
      rintro c ⟨⟩
      exact notSpace d List.mem_cons_self
    have trail : ∀ c, (after ++ (['}', '}'] ++ rest)).head? = some c → w.isWord c = false := by
      intro c head
      cases after with
      | nil =>
        cases head
        exact w.closeBrace
      | cons d after =>
        cases head
        exact w.space c (spaces' c List.mem_cons_self)
    have close : ∀ c, (['}', '}'] ++ rest).head? = some c → Text.isSpace c = false := by
      rintro c ⟨⟩
      decide
    have first := takeWhile_append_of_head spaces lead
    have second := takeWhile_append_of_head word trail
    have third := takeWhile_append_of_head spaces' close
    have shape : ['{', '{'] ++ (before ++ (name ++ (after ++ ['}', '}']))) ++ rest =
        '{' :: '{' :: (before ++ (name ++ (after ++ (['}', '}'] ++ rest)))) := by simp
    rw [shape, matchAt]
    simp only [first, second, third]
    rw [if_pos ⟨named, List.prefix_append _ _⟩]

theorem IsPlaceholder.unique (is : IsPlaceholder w name p) (is' : IsPlaceholder w name' p') (here : p <+: s)
    (here' : p' <+: s) : name = name' ∧ p = p' := by
  have found := matchAt_eq_some_iff.mpr ⟨is, here⟩
  rw [matchAt_eq_some_iff.mpr ⟨is', here'⟩] at found
  cases found
  exact ⟨rfl, rfl⟩

theorem IsPlaceholder.length_pos (is : IsPlaceholder w name p) : 0 < p.length := by
  obtain ⟨before, after, rfl, -⟩ := is
  simp

theorem matchAt_eq_none_iff : matchAt w s = none ↔ ∀ name p, IsPlaceholder w name p → ¬p <+: s := by
  constructor
  · intro none name p is here
    rw [matchAt_eq_some_iff.mpr ⟨is, here⟩] at none
    cases none
  · intro plain
    cases found : matchAt w s with
    | none => rfl
    | some result =>
      obtain ⟨is, here⟩ := matchAt_eq_some_iff.mp found
      exact absurd here (plain _ _ is)

theorem infix_of_infix_append {body : List Char} (opens : ∃ q, p = '{' :: q) (free : '{' ∉ body) (found : p <:+: body ++ s) :
    p <:+: s := by
  induction body with
  | nil => exact found
  | cons c body ih =>
    rw [List.mem_cons, not_or] at free
    rw [List.cons_append, List.infix_cons_iff] at found
    rcases found with here | later
    · obtain ⟨q, rfl⟩ := opens
      rw [List.cons_prefix_cons] at here
      exact absurd here.1 free.1
    · exact ih free.2 later

theorem IsPlaceholder.opens (is : IsPlaceholder w name p) :
    ∃ c body, p = '{' :: '{' :: c :: body ∧ '{' ∉ c :: body := by
  obtain ⟨before, after, rfl, named, spaces, word, spaces'⟩ := is
  have free : '{' ∉ before ++ (name ++ (after ++ ['}', '}'])) := by
    intro mem
    rcases List.mem_append.mp mem with mem | mem
    · exact absurd (spaces _ mem) (by decide)
    rcases List.mem_append.mp mem with mem | mem
    · exact absurd (word _ mem) (by rw [w.openBrace]; decide)
    rcases List.mem_append.mp mem with mem | mem
    · exact absurd (spaces' _ mem) (by decide)
    · exact absurd mem (by decide)
  obtain ⟨c, body, cons⟩ := List.exists_cons_of_ne_nil
    (show before ++ (name ++ (after ++ ['}', '}'])) ≠ [] by simp)
  rw [cons] at free ⊢
  exact ⟨c, body, rfl, free⟩

theorem IsPlaceholder.infix_append (is : IsPlaceholder w name p) (is' : IsPlaceholder w name' p') (found : p <:+: p' ++ s) :
    (name = name' ∧ p = p') ∨ p <:+: s := by
  have here := List.prefix_append p' s
  obtain ⟨d, q, first, -⟩ := is.opens
  obtain ⟨c, body, shape, free⟩ := is'.opens
  have split : p' ++ s = '{' :: '{' :: (c :: body ++ s) := by rw [shape]; rfl
  rw [split, List.infix_cons_iff, List.infix_cons_iff] at found
  rcases found with same | inside | later
  · rw [← split] at same
    exact Or.inl (is.unique is' same here)
  · rw [first, List.cons_append, List.cons_prefix_cons, List.cons_prefix_cons] at inside
    exact absurd (List.mem_cons.mpr (Or.inl inside.2.1)) free
  · exact Or.inr (infix_of_infix_append ⟨_, first⟩ free later)

theorem subFrom_eq_drop (n : Nat) (s : List Char) : subFrom w vars strict n s = substitute w vars strict (s.drop n) := by
  induction s generalizing n with
  | nil => cases n <;> simp [substitute, subFrom]
  | cons c s ih =>
    cases n with
    | zero => rfl
    | succ n => rw [subFrom, ih, List.drop_succ_cons]

theorem substitute_cons (plain : ∀ name p, IsPlaceholder w name p → ¬p <+: c :: s) :
    substitute w vars strict (c :: s) = (do return c :: (← substitute w vars strict s)) := by
  rw [substitute, subFrom, matchAt_eq_none_iff.mpr plain]
  rfl

theorem substitute_placeholder (is : IsPlaceholder w name p) : substitute w vars strict (p ++ s) =
    (do return (← replacer vars strict name p) ++ (← substitute w vars strict s)) := by
  have found := matchAt_eq_some_iff.mpr ⟨is, List.prefix_append p s⟩
  obtain ⟨c, q, rfl⟩ := List.exists_cons_of_length_pos is.length_pos
  rw [substitute, List.cons_append, subFrom]
  rw [List.cons_append] at found
  rw [found]
  simp only [subFrom_eq_drop, List.length_cons, Nat.add_sub_cancel, List.drop_left]

theorem hasUnknown_cons_iff (plain : ∀ name p, IsPlaceholder w name p → ¬p <+: c :: s) :
    HasUnknown w vars (c :: s) ↔ HasUnknown w vars s := by
  constructor
  · rintro ⟨name, p, is, found, unknown⟩
    rcases List.infix_cons_iff.mp found with here | later
    · exact absurd here (plain name p is)
    · exact ⟨name, p, is, later, unknown⟩
  · rintro ⟨name, p, is, found, unknown⟩
    exact ⟨name, p, is, List.infix_cons found, unknown⟩

theorem hasUnknown_append_iff (is : IsPlaceholder w name p) :
    HasUnknown w vars (p ++ s) ↔ vars name = none ∨ HasUnknown w vars s := by
  constructor
  · rintro ⟨name', p', is', found, unknown⟩
    rcases is'.infix_append is found with ⟨rfl, rfl⟩ | later
    · exact Or.inl unknown
    · exact Or.inr ⟨name', p', is', later, unknown⟩
  · rintro (unknown | ⟨name', p', is', found, unknown⟩)
    · exact ⟨name, p, is, (List.prefix_append p s).isInfix, unknown⟩
    · exact ⟨name', p', is', found.trans (List.suffix_append p s).isInfix, unknown⟩

theorem exists_expands (w : Words) (vars : Variables) (s : List Char) : ∃ t, Expands w vars s t := by
  induction length : s.length using Nat.strong_induction_on generalizing s with
  | _ n ih =>
    cases s with
    | nil => exact ⟨[], .done⟩
    | cons c s =>
      rw [List.length_cons] at length
      cases found : matchAt w (c :: s) with
      | none =>
        obtain ⟨t, rest⟩ := ih s.length (by omega) s rfl
        exact ⟨c :: t, .text (matchAt_eq_none_iff.mp found) rest⟩
      | some result =>
        obtain ⟨is, after, shape⟩ := matchAt_eq_some_iff.mp found
        have lengths := congrArg List.length shape
        have positive := is.length_pos
        rw [List.length_append, List.length_cons] at lengths
        obtain ⟨t, rest⟩ := ih after.length (by omega) after rfl
        rw [← shape]
        exact ⟨_, .placeholder is rest⟩

theorem replacer_of_known (known : strict = true → vars name ≠ none) :
    replacer vars strict name p = .ok (textOf vars name p) := by
  rw [replacer, textOf]
  cases value : vars name with
  | some text => rfl
  | none =>
    have lenient : strict = false := by
      cases strict with
      | false => rfl
      | true => exact absurd value (known rfl)
    rw [lenient]
    rfl

theorem substitute_of_expands (known : strict = true → ¬HasUnknown w vars s) (expands : Expands w vars s t) :
    substitute w vars strict s = .ok t := by
  induction expands with
  | done => rfl
  | text plain _ ih =>
    rw [hasUnknown_cons_iff plain] at known
    rw [substitute_cons plain, ih known]
    rfl
  | placeholder is _ ih =>
    rw [hasUnknown_append_iff is] at known
    have rest := ih fun strict => fun unknown => known strict (Or.inr unknown)
    rw [substitute_placeholder is, rest, replacer_of_known fun strict => fun unknown => known strict (Or.inl unknown)]
    rfl

/-- A text with a placeholder that is not known raises in strict mode. -/
theorem substitute_of_hasUnknown (unknown : HasUnknown w vars s) : ∃ e, substitute w vars true s = .error e := by
  obtain ⟨t, expands⟩ := exists_expands w vars s
  induction expands with
  | done =>
    obtain ⟨name, p, is, found, -⟩ := unknown
    rw [List.infix_nil] at found
    exact absurd is.length_pos (by rw [found]; decide)
  | text plain _ ih =>
    obtain ⟨e, raises⟩ := ih ((hasUnknown_cons_iff plain).mp unknown)
    exact ⟨e, by rw [substitute_cons plain, raises]; rfl⟩
  | @placeholder name p s t is _ ih =>
    rw [substitute_placeholder is]
    cases value : vars name with
    | none => exact ⟨_, by rw [replacer, value]; rfl⟩
    | some text =>
      obtain ⟨e, raises⟩ := ih (((hasUnknown_append_iff is).mp unknown).resolve_left (by rw [value]; nofun))
      exact ⟨e, by rw [replacer, value, raises]; rfl⟩

theorem Expands.unique (expands : Expands w vars s t) (expands' : Expands w vars s t') : t = t' := by
  have once : substitute w vars false s = .ok t := substitute_of_expands (fun strict => nomatch strict) expands
  have again : substitute w vars false s = .ok t' := substitute_of_expands (fun strict => nomatch strict) expands'
  rw [again] at once
  cases once
  rfl

/-- What the substitution in one text gives. -/
theorem substitute_eq_ok_iff :
    substitute w vars strict s = .ok t ↔ Expands w vars s t ∧ (strict = true → ¬HasUnknown w vars s) := by
  constructor
  · intro ok
    have known : strict = true → ¬HasUnknown w vars s := by
      rintro rfl unknown
      obtain ⟨e, raises⟩ := substitute_of_hasUnknown unknown
      rw [raises] at ok
      cases ok
    obtain ⟨t', expands⟩ := exists_expands w vars s
    rw [substitute_of_expands known expands] at ok
    cases ok
    exact ⟨expands, known⟩
  · intro ⟨expands, known⟩
    exact substitute_of_expands known expands

end matching

end Template

end template

section templateDepth

namespace Template

/-- A structure of dicts and lists, with keys and the leaves that are no strings. -/
inductive Config (K α : Type) where
  | str (text : List Char)
  | dict (entries : List (K × Config K α))
  | list (items : List (Config K α))
  | other (value : α)

variable {K α : Type}

section code

variable (w : Words) (vars : Variables) (strict : Bool)

/-- An item of a list in a dict. -/
def substituteItem : Config K α → Except ValueError (Config K α)
  | .str text => do return .str (← substitute w vars strict text)
  | item => .ok item

mutual

/-- A value in the loop of `substitute_dict`. -/
def substituteValue : Config K α → Except ValueError (Config K α)
  | .str text => do return .str (← substitute w vars strict text)
  | .dict entries => do return .dict (← substituteDict entries)
  | .list items => do return .list (← items.mapM (substituteItem w vars strict))
  | .other value => .ok (.other value)

def substituteDict : List (K × Config K α) → Except ValueError (List (K × Config K α))
  | [] => .ok []
  | (key, value) :: entries => do return (key, ← substituteValue value) :: (← substituteDict entries)

end

mutual

/-- An item in the loop of `substitute_list`. -/
def substituteElement : Config K α → Except ValueError (Config K α)
  | .str text => do return .str (← substitute w vars strict text)
  | .dict entries => do return .dict (← substituteDict w vars strict entries)
  | .list items => do return .list (← substituteList items)
  | .other value => .ok (.other value)

def substituteList : List (Config K α) → Except ValueError (List (Config K α))
  | [] => .ok []
  | item :: items => do return (← substituteElement item) :: (← substituteList items)

end

end code

section depth

mutual

/-- Every text at any depth changed by a function. -/
def Config.mapTexts (f : List Char → List Char) : Config K α → Config K α
  | .str text => .str (f text)
  | .dict entries => .dict (mapEntries f entries)
  | .list items => .list (mapItems f items)
  | .other value => .other value

def Config.mapEntries (f : List Char → List Char) : List (K × Config K α) → List (K × Config K α)
  | [] => []
  | (key, value) :: entries => (key, value.mapTexts f) :: mapEntries f entries

def Config.mapItems (f : List Char → List Char) : List (Config K α) → List (Config K α)
  | [] => []
  | item :: items => item.mapTexts f :: mapItems f items

end

mutual

/-- The texts at any depth. -/
def Config.texts : Config K α → List (List Char)
  | .str text => [text]
  | .dict entries => entriesTexts entries
  | .list items => itemsTexts items
  | .other _ => []

def Config.entriesTexts : List (K × Config K α) → List (List Char)
  | [] => []
  | (_, value) :: entries => value.texts ++ entriesTexts entries

def Config.itemsTexts : List (Config K α) → List (List Char)
  | [] => []
  | item :: items => item.texts ++ itemsTexts items

end

/-- The text of a string. -/
def Config.own : Config K α → List (List Char)
  | .str text => [text]
  | _ => []

/-- The texts that are inside of what is no string. -/
def Config.inner : Config K α → List (List Char)
  | .str _ => []
  | item => item.texts

mutual

/-- The texts that are reached, in a list that is a value of a dict only its strings. -/
def Config.seen (inDict : Bool) : Config K α → List (List Char)
  | .str text => [text]
  | .dict entries => seenEntries entries
  | .list items => if inDict then items.flatMap own else seenItems items
  | .other _ => []

def Config.seenEntries : List (K × Config K α) → List (List Char)
  | [] => []
  | (_, value) :: entries => value.seen true ++ seenEntries entries

def Config.seenItems : List (Config K α) → List (List Char)
  | [] => []
  | item :: items => item.seen false ++ seenItems items

end

mutual

/-- The texts in the dicts and lists of a list that is a value of a dict. -/
def Config.unseen (inDict : Bool) : Config K α → List (List Char)
  | .str _ => []
  | .dict entries => unseenEntries entries
  | .list items => if inDict then items.flatMap inner else unseenItems items
  | .other _ => []

def Config.unseenEntries : List (K × Config K α) → List (List Char)
  | [] => []
  | (_, value) :: entries => value.unseen true ++ unseenEntries entries

def Config.unseenItems : List (Config K α) → List (List Char)
  | [] => []
  | item :: items => item.unseen false ++ unseenItems items

end

variable (w : Words) (vars : Variables) (strict : Bool)

/-- The texts at any depth are expanded, and in strict mode a placeholder that is not known in one of them raises. -/
structure Deep (template : Config K α) (outcome : Except ValueError (Config K α)) : Prop where
  raises : (∃ e, outcome = .error e) ↔ strict = true ∧ ∃ text ∈ template.texts, HasUnknown w vars text
  replaced : ∀ result, outcome = .ok result →
    ∃ f, (∀ text, Expands w vars text (f text)) ∧ result = template.mapTexts f

/-- The texts that are not reached have nothing to expand, nor to raise for if no other text raises. -/
structure NoneMissed (template : Config K α) : Prop where
  raised : strict = true → (∃ text ∈ template.unseen false, HasUnknown w vars text) →
    ∃ text ∈ template.seen false, HasUnknown w vars text
  expanded : (strict = true → ∀ text ∈ template.seen false, ¬HasUnknown w vars text) →
    ∀ text ∈ template.unseen false, Expands w vars text text

end depth

section meets

variable {w : Words} {vars : Variables} {strict : Bool} {f : List Char → List Char} {bad : List Char → Prop} {A B C : Type}

/-- A part of the traversal, with what it should give, the texts it reaches and those it does not. -/
structure Meets (f : List Char → List Char) (bad : List Char → Prop) (x : Except ValueError A) (target : A)
    (seen unseen : List (List Char)) : Prop where
  raises : (∃ e, x = .error e) ↔ ∃ text ∈ seen, bad text
  gives : ∀ result, x = .ok result → (result = target ↔ ∀ text ∈ unseen, f text = text)

theorem meets_ok {a target : A} {unseen : List (List Char)} (same : a = target ↔ ∀ text ∈ unseen, f text = text) :
    Meets f bad (.ok a) target [] unseen := by
  constructor
  · simp
  · rintro result ⟨⟩
    exact same

theorem meets_map {x : Except ValueError A} {target : A} {seen unseen : List (List Char)} {g : A → B}
    (injective : Function.Injective g) (hx : Meets f bad x target seen unseen) :
    Meets f bad (do return g (← x)) (g target) seen unseen := by
  cases x with
  | error e =>
    exact ⟨⟨fun _ => hx.raises.mp ⟨e, rfl⟩, fun _ => ⟨e, rfl⟩⟩, fun result ok => nomatch ok⟩
  | ok a =>
    constructor
    · rw [← hx.raises]
      exact iff_of_false (fun ⟨_, error⟩ => nomatch error) fun ⟨_, error⟩ => nomatch error
    · rintro result ⟨⟩
      rw [injective.eq_iff, hx.gives a rfl]

theorem meets_map₂ {x : Except ValueError A} {y : Except ValueError B} {a : A} {b : B}
    {seen seen' unseen unseen' : List (List Char)} {g : A → B → C} (injective : Function.Injective2 g)
    (hx : Meets f bad x a seen unseen) (hy : Meets f bad y b seen' unseen') :
    Meets f bad (do return g (← x) (← y)) (g a b) (seen ++ seen') (unseen ++ unseen') := by
  have raises : (∃ text ∈ seen ++ seen', bad text) ↔ (∃ e, x = .error e) ∨ ∃ e, y = .error e := by
    rw [hx.raises, hy.raises]
    simp only [List.mem_append, or_and_right, exists_or]
  constructor
  · rw [raises]
    cases x with
    | error e => exact iff_of_true ⟨e, rfl⟩ (Or.inl ⟨e, rfl⟩)
    | ok v =>
      cases y with
      | error e => exact iff_of_true ⟨e, rfl⟩ (Or.inr ⟨e, rfl⟩)
      | ok u => exact iff_of_false (fun ⟨_, error⟩ => nomatch error) (by simp)
  · intro result ok
    cases x with
    | error e => cases ok
    | ok v =>
      cases y with
      | error e => cases ok
      | ok u =>
        cases ok
        rw [injective.eq_iff, hx.gives v rfl, hy.gives u rfl, List.forall_mem_append]

mutual

theorem mapTexts_eq_self_iff : (c : Config K α) → (c = c.mapTexts f ↔ ∀ text ∈ c.texts, f text = text)
  | .str text => by simp [Config.mapTexts, Config.texts, eq_comm]
  | .dict entries => by
    rw [Config.mapTexts, Config.texts, Config.dict.injEq]
    exact mapEntries_eq_self_iff entries
  | .list items => by
    rw [Config.mapTexts, Config.texts, Config.list.injEq]
    exact mapItems_eq_self_iff items
  | .other value => by simp [Config.mapTexts, Config.texts]

theorem mapEntries_eq_self_iff : (entries : List (K × Config K α)) →
    (entries = Config.mapEntries f entries ↔ ∀ text ∈ Config.entriesTexts entries, f text = text)
  | [] => by simp [Config.mapEntries, Config.entriesTexts]
  | (key, value) :: entries => by
    rw [Config.mapEntries, Config.entriesTexts, List.forall_mem_append, List.cons.injEq, Prod.mk.injEq, eq_self, true_and,
      mapTexts_eq_self_iff value, mapEntries_eq_self_iff entries]

theorem mapItems_eq_self_iff : (items : List (Config K α)) →
    (items = Config.mapItems f items ↔ ∀ text ∈ Config.itemsTexts items, f text = text)
  | [] => by simp [Config.mapItems, Config.itemsTexts]
  | item :: items => by
    rw [Config.mapItems, Config.itemsTexts, List.forall_mem_append, List.cons.injEq, mapTexts_eq_self_iff item,
      mapItems_eq_self_iff items]

end

end meets

section traversal

variable {w : Words} {vars : Variables} {strict : Bool} {f : List Char → List Char}

/-- What raises in a text. -/
def Raises (w : Words) (vars : Variables) (strict : Bool) (text : List Char) : Prop := strict = true ∧ HasUnknown w vars text

theorem meets_substitute (expands : ∀ text, Expands w vars text (f text)) (text : List Char) :
    Meets f (Raises w vars strict) (substitute w vars strict text) (f text) [text] [] := by
  constructor
  · simp only [List.mem_singleton, exists_eq_left]
    constructor
    · rintro ⟨e, error⟩
      by_contra known
      have ok := substitute_eq_ok_iff.mpr ⟨expands text, fun strict unknown => known ⟨strict, unknown⟩⟩
      rw [error] at ok
      cases ok
    · rintro ⟨rfl, unknown⟩
      exact substitute_of_hasUnknown unknown
  · intro result ok
    have same := (substitute_eq_ok_iff.mp ok).1.unique (expands text)
    simp [same]

theorem meets_item (expands : ∀ text, Expands w vars text (f text)) (item : Config K α) :
    Meets f (Raises w vars strict) (substituteItem w vars strict item) (item.mapTexts f) item.own item.inner := by
  cases item with
  | str text => exact meets_map (fun _ _ => Config.str.inj) (meets_substitute expands text)
  | _ => exact meets_ok (mapTexts_eq_self_iff _)

theorem meets_items (expands : ∀ text, Expands w vars text (f text)) (items : List (Config K α)) :
    Meets f (Raises w vars strict) (items.mapM (substituteItem w vars strict)) (Config.mapItems f items)
      (items.flatMap Config.own) (items.flatMap Config.inner) := by
  induction items with
  | nil => exact meets_ok (by simp [Config.mapItems])
  | cons item items ih =>
    rw [List.mapM_cons, List.flatMap_cons, List.flatMap_cons]
    exact meets_map₂ (fun _ _ _ _ => List.cons.inj) (meets_item expands item) ih

mutual

theorem meets_value (expands : ∀ text, Expands w vars text (f text)) :
    (value : Config K α) → Meets f (Raises w vars strict) (substituteValue w vars strict value)
      (value.mapTexts f) (value.seen true) (value.unseen true)
  | .str text => by
    rw [substituteValue]
    exact meets_map (fun _ _ => Config.str.inj) (meets_substitute expands text)
  | .dict entries => by
    rw [substituteValue]
    exact meets_map (fun _ _ => Config.dict.inj) (meets_dict expands entries)
  | .list items => by
    rw [substituteValue]
    exact meets_map (fun _ _ => Config.list.inj) (meets_items expands items)
  | .other value => by
    rw [substituteValue]
    exact meets_ok (by simp [Config.mapTexts, Config.unseen])

theorem meets_dict (expands : ∀ text, Expands w vars text (f text)) :
    (entries : List (K × Config K α)) → Meets f (Raises w vars strict) (substituteDict w vars strict entries)
      (Config.mapEntries f entries) (Config.seenEntries entries) (Config.unseenEntries entries)
  | [] => by
    rw [substituteDict]
    exact meets_ok (by simp [Config.mapEntries, Config.unseenEntries])
  | (key, value) :: entries => by
    rw [substituteDict]
    have entry : Function.Injective2 fun (value : Config K α) entries => (key, value) :: entries := by
      rintro value value' entries entries' same
      cases same
      exact ⟨rfl, rfl⟩
    exact meets_map₂ entry (meets_value expands value) (meets_dict expands entries)

end

mutual

theorem meets_element (expands : ∀ text, Expands w vars text (f text)) :
    (item : Config K α) → Meets f (Raises w vars strict) (substituteElement w vars strict item)
      (item.mapTexts f) (item.seen false) (item.unseen false)
  | .str text => by
    rw [substituteElement]
    exact meets_map (fun _ _ => Config.str.inj) (meets_substitute expands text)
  | .dict entries => by
    rw [substituteElement]
    exact meets_map (fun _ _ => Config.dict.inj) (meets_dict expands entries)
  | .list items => by
    rw [substituteElement]
    exact meets_map (fun _ _ => Config.list.inj) (meets_list expands items)
  | .other value => by
    rw [substituteElement]
    exact meets_ok (by simp [Config.mapTexts, Config.unseen])

theorem meets_list (expands : ∀ text, Expands w vars text (f text)) :
    (items : List (Config K α)) → Meets f (Raises w vars strict) (substituteList w vars strict items)
      (Config.mapItems f items) (Config.seenItems items) (Config.unseenItems items)
  | [] => by
    rw [substituteList]
    exact meets_ok (by simp [Config.mapItems, Config.unseenItems])
  | item :: items => by
    rw [substituteList]
    exact meets_map₂ (fun _ _ _ _ => List.cons.inj) (meets_element expands item) (meets_list expands items)

end

end traversal

section missed

variable {text : List Char}

theorem mem_own_or_inner (item : Config K α) : text ∈ item.texts ↔ text ∈ item.own ∨ text ∈ item.inner := by
  cases item <;> simp [Config.own, Config.inner, Config.texts]

theorem mem_itemsTexts_iff (items : List (Config K α)) :
    text ∈ Config.itemsTexts items ↔ text ∈ items.flatMap Config.own ∨ text ∈ items.flatMap Config.inner := by
  induction items with
  | nil => simp [Config.itemsTexts]
  | cons item items ih =>
    simp only [Config.itemsTexts, List.flatMap_cons, List.mem_append, ih, mem_own_or_inner item]
    tauto

mutual

theorem mem_texts_iff : (inDict : Bool) → (c : Config K α) → (text ∈ c.texts ↔ text ∈ c.seen inDict ∨ text ∈ c.unseen inDict)
  | _, .str _ => by simp [Config.texts, Config.seen, Config.unseen]
  | _, .dict entries => mem_entriesTexts_iff entries
  | true, .list items => mem_itemsTexts_iff items
  | false, .list items => mem_listTexts_iff items
  | _, .other _ => by simp [Config.texts, Config.seen, Config.unseen]

theorem mem_entriesTexts_iff : (entries : List (K × Config K α)) →
    (text ∈ Config.entriesTexts entries ↔ text ∈ Config.seenEntries entries ∨ text ∈ Config.unseenEntries entries)
  | [] => by simp [Config.entriesTexts, Config.seenEntries, Config.unseenEntries]
  | (_, value) :: entries => by
    simp only [Config.entriesTexts, Config.seenEntries, Config.unseenEntries, List.mem_append, mem_texts_iff true value,
      mem_entriesTexts_iff entries]
    tauto

theorem mem_listTexts_iff : (items : List (Config K α)) →
    (text ∈ Config.itemsTexts items ↔ text ∈ Config.seenItems items ∨ text ∈ Config.unseenItems items)
  | [] => by simp [Config.itemsTexts, Config.seenItems, Config.unseenItems]
  | item :: items => by
    simp only [Config.itemsTexts, Config.seenItems, Config.unseenItems, List.mem_append, mem_texts_iff false item,
      mem_listTexts_iff items]
    tauto

end

variable {w : Words} {vars : Variables} {strict : Bool} {template : Config K α} {outcome : Except ValueError (Config K α)}

theorem deep_iff (meets : ∀ f, (∀ text, Expands w vars text (f text)) →
    Meets f (Raises w vars strict) outcome (template.mapTexts f) (template.seen false) (template.unseen false)) :
    Deep w vars strict template outcome ↔ NoneMissed w vars strict template := by
  choose f expands using exists_expands w vars
  obtain ⟨raises, gives⟩ := meets f expands
  have fixed (text : List Char) : f text = text ↔ Expands w vars text text := by
    constructor
    · intro same
      have expansion := expands text
      rwa [same] at expansion
    · exact (expands text).unique
  constructor
  · intro deep
    constructor
    · rintro rfl ⟨text, mem, unknown⟩
      have raised := deep.raises.mpr ⟨rfl, text, (mem_texts_iff false template).mpr (Or.inr mem), unknown⟩
      obtain ⟨text', mem', unknown'⟩ := raises.mp raised
      exact ⟨text', mem', unknown'.2⟩
    · intro known text mem
      cases outcome with
      | error e =>
        obtain ⟨text', mem', isStrict, unknown⟩ := raises.mp ⟨e, rfl⟩
        exact absurd unknown (known isStrict text' mem')
      | ok result =>
        obtain ⟨f', expands', replaced⟩ := deep.replaced result rfl
        have same : f' = f := funext fun text => (expands' text).unique (expands text)
        rw [same] at replaced
        exact (fixed text).mp ((gives result rfl).mp replaced text mem)
  · intro ⟨raised, expanded⟩
    constructor
    · rw [raises]
      constructor
      · rintro ⟨text, mem, isStrict, unknown⟩
        exact ⟨isStrict, text, (mem_texts_iff false template).mpr (Or.inl mem), unknown⟩
      · rintro ⟨isStrict, text, mem, unknown⟩
        rcases (mem_texts_iff false template).mp mem with seen | unseen
        · exact ⟨text, seen, isStrict, unknown⟩
        · obtain ⟨text', mem', unknown'⟩ := raised isStrict ⟨text, unseen, unknown⟩
          exact ⟨text', mem', isStrict, unknown'⟩
    · intro result ok
      have known : strict = true → ∀ text ∈ template.seen false, ¬HasUnknown w vars text := by
        intro isStrict text mem unknown
        obtain ⟨e, error⟩ := raises.mpr ⟨text, mem, isStrict, unknown⟩
        rw [ok] at error
        cases error
      refine ⟨f, expands, (gives result ok).mpr fun text mem => ?_⟩
      exact (fixed text).mpr (expanded known text mem)

/-- The substitution in dicts and lists is deep just if what it does not reach, the dicts and lists in a list that is a value
of a dict, has nothing to expand, nor to raise for if nothing else raises. -/
theorem substitute_deep_iff (w : Words) (vars : Variables) (strict : Bool) :
    (∀ entries : List (K × Config K α),
      Deep w vars strict (.dict entries) (do return .dict (← substituteDict w vars strict entries)) ↔
        NoneMissed w vars strict (.dict entries)) ∧
    ∀ items : List (Config K α), Deep w vars strict (.list items) (do return .list (← substituteList w vars strict items)) ↔
      NoneMissed w vars strict (.list items) := by
  constructor
  · intro entries
    exact deep_iff fun f expands => meets_map (fun _ _ => Config.dict.inj) (meets_dict expands entries)
  · intro items
    exact deep_iff fun f expands => meets_map (fun _ _ => Config.list.inj) (meets_list expands items)

end missed

/-- The ASCII characters of `\w`. -/
def asciiWords : Words where
  isWord c :=
    let n := c.toNat
    (0x30 ≤ n && n ≤ 0x39) || (0x41 ≤ n && n ≤ 0x5a) || (0x61 ≤ n && n ≤ 0x7a) || n == 0x5f
  space c space := by
    simp only [Text.isSpace, Bool.or_eq_true, Bool.and_eq_true, decide_eq_true_eq, beq_iff_eq] at space
    simp only [Bool.or_eq_false_iff, Bool.and_eq_false_iff, decide_eq_false_iff_not, beq_eq_false_iff_ne]
    omega
  openBrace := by decide
  closeBrace := by decide

/-- `{"blocks": [{"text": "{{ x }}"}]}` -/
def nested : List (String × Config String Unit) := [("blocks", .list [.dict [("text", .str "{{ x }}".toList)]])]

/-- A placeholder in a dict in a list in a dict is not replaced. -/
theorem not_deep_nested : ¬∀ (w : Words) (vars : Variables) (strict : Bool) (entries : List (String × Config String Unit)),
    Deep w vars strict (.dict entries) (do return .dict (← substituteDict w vars strict entries)) := by
  intro always
  have deep := always asciiWords (fun _ => some (some "1".toList)) false nested
  have missed := (deep_iff fun f expands => meets_map (fun _ _ => Config.dict.inj) (meets_dict expands nested)).mp deep
  have expands := missed.expanded (fun strict => nomatch strict) "{{ x }}".toList (by decide)
  have once : substitute asciiWords (fun _ => some (some "1".toList)) false "{{ x }}".toList = .ok "{{ x }}".toList :=
    substitute_eq_ok_iff.mpr ⟨expands, fun strict => nomatch strict⟩
  exact absurd once (by decide)

end Template

end templateDepth

end H2kvm.Hooks
