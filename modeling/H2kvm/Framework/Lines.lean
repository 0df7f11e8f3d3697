import Mathlib.Data.List.DropRight
import Mathlib.Data.List.Infix
import Mathlib.Data.List.Forall2

namespace H2kvm.Framework.Text

section text

-- There are finitely many characters, but a list of them is what is to be gone through.
instance (priority := 2000) decidableForallMem (l : List Char) (p : Char → Prop) [DecidablePred p] :
    Decidable (∀ c ∈ l, p c) := List.decidableBAll p l

-- Whether a text is one of a list is decided through these.
instance lawfulBEqText : LawfulBEq (List Char) := inferInstance

instance lawfulBEqTexts : LawfulBEq (List (List Char)) := inferInstance

/-- `str.isspace`, the characters `str.split` and `str.strip` take for white space. -/
def isSpace (c : Char) : Bool :=
  let n := c.toNat
  (0x09 ≤ n && n ≤ 0x0d) || (0x1c ≤ n && n ≤ 0x20) || n == 0x85 || n == 0xa0 || n == 0x1680 ||
    (0x2000 ≤ n && n ≤ 0x200a) || n == 0x2028 || n == 0x2029 || n == 0x202f || n == 0x205f || n == 0x3000

def lstrip (s : List Char) : List Char := s.dropWhile isSpace

def rstrip (s : List Char) : List Char := s.rdropWhile isSpace

/-- `str.strip()`. -/
def strip (s : List Char) : List Char := rstrip (lstrip s)

/-- The words of `s`, where `word` has been read of the current one. -/
def splitFrom (word : List Char) : List Char → List (List Char)
  | [] => if word = [] then [] else [word]
  | c :: cs =>
    if isSpace c then (if word = [] then splitFrom [] cs else word :: splitFrom [] cs)
    else splitFrom (word ++ [c]) cs

/-- `str.split()`. -/
def split (s : List Char) : List (List Char) := splitFrom [] s

/-- `sep.join(parts)`. -/
def join (sep : List Char) (parts : List (List Char)) : List Char := sep.intercalate parts

/-- The zero of each of Unicode's decimal systems; `\d` and `int` take the digits of all of them. -/
def decimalZeros : List Nat :=
  [0x30, 0x660, 0x6f0, 0x7c0, 0x966, 0x9e6, 0xa66, 0xae6, 0xb66, 0xbe6, 0xc66, 0xce6, 0xd66, 0xde6, 0xe50, 0xed0,
    0xf20, 0x1040, 0x1090, 0x17e0, 0x1810, 0x1946, 0x19d0, 0x1a80, 0x1a90, 0x1b50, 0x1bb0, 0x1c40, 0x1c50, 0xa620,
    0xa8d0, 0xa900, 0xa9d0, 0xa9f0, 0xaa50, 0xabf0, 0xff10, 0x104a0, 0x10d30, 0x11066, 0x110f0, 0x11136, 0x111d0,
    0x112f0, 0x11450, 0x114d0, 0x11650, 0x116c0, 0x11730, 0x118e0, 0x11950, 0x11c50, 0x11d50, 0x11da0, 0x16a60,
    0x16ac0, 0x16b50, 0x1d7ce, 0x1d7d8, 0x1d7e2, 0x1d7ec, 0x1d7f6, 0x1e140, 0x1e2f0, 0x1e950, 0x1fbf0]

def digit? (c : Char) : Option Nat :=
  (decimalZeros.find? fun origin => origin ≤ c.toNat && c.toNat < origin + 10).map (c.toNat - ·)

def isDigit (c : Char) : Bool := (digit? c).isSome

/-- `int(digits)`. -/
def intOf (digits : List Char) : Nat := digits.foldl (fun n c => 10 * n + (digit? c).getD 0) 0

/-- What follows `lead` at the start of a text. -/
def after (lead s : List Char) : Option (List Char) := if lead <+: s then some (s.drop lead.length) else none

/-- What follows one or more digits. -/
def afterDigits (s : List Char) : Option (List Char) :=
  if s.takeWhile isDigit = [] then none else some (s.dropWhile isDigit)

/-- No end of `t` starts `w`, nor is `t` inside it. -/
def Apart (t w : List Char) : Prop := (∀ v ∈ t.tails, v ≠ [] → ¬v <+: w) ∧ ¬t <:+: w

instance (t w : List Char) : Decidable (Apart t w) := inferInstanceAs (Decidable (_ ∧ _))

theorem infix_of_infix_append {t a w : List Char} (h : Apart t w) (found : t <:+: a ++ w) : t <:+: a := by
  obtain ⟨x, y, eq⟩ := found
  rcases List.append_eq_append_iff.mp eq with ⟨z, left, right⟩ | ⟨z, left, right⟩
  · exact ⟨x, z, left.symm⟩
  · rcases List.append_eq_append_iff.mp left with ⟨c, inner, rest⟩ | ⟨c, inner, rest⟩
    · by_cases last : z = []
      · rw [last, List.append_nil] at rest
        rw [inner, rest]
        exact List.infix_append_right
      · have tail : z <:+ t := ⟨c, rest.symm⟩
        exact absurd ⟨y, right.symm⟩ (h.1 z ((List.mem_tails _ _).mpr tail) last)
    · exact absurd ⟨c, y, by rw [right, rest]⟩ h.2

end text

section lines

/-- The characters `str.splitlines` breaks at. -/
def isBreak (c : Char) : Bool :=
  let n := c.toNat
  (0x0a ≤ n && n ≤ 0x0d) || (0x1c ≤ n && n ≤ 0x1e) || n == 0x85 || n == 0x2028 || n == 0x2029

/-- The lines of a text, where `line` has been read of the current one. -/
def splitlinesFrom (line : List Char) : List Char → List (List Char)
  | [] => if line = [] then [] else [line]
  | c :: cs =>
    if isBreak c then
      -- of a CR and LF the LF ends the line
      if c = '\r' ∧ cs.head? = some '\n' then splitlinesFrom line cs
      else line :: splitlinesFrom [] cs
    else splitlinesFrom (line ++ [c]) cs

/-- `str.splitlines()`. -/
def splitlines (s : List Char) : List (List Char) := splitlinesFrom [] s

section generic

variable {α β : Type*}

/-- The lines with their ends, where `chunk` has been read of the current one. -/
def chunksFrom (isEnd : α → Bool) (chunk : List α) : List α → List (List α)
  | [] => if chunk = [] then [] else [chunk]
  | x :: xs =>
    if isEnd x then (chunk ++ [x]) :: chunksFrom isEnd [] xs else chunksFrom isEnd (chunk ++ [x]) xs

def chunks (isEnd : α → Bool) (l : List α) : List (List α) := chunksFrom isEnd [] l

/-- A chunk without its end. -/
def chomp (isEnd : α → Bool) (l : List α) : List α := if l.getLast?.any isEnd then l.dropLast else l

/-- The words of a list, where `word` has been read of the current one. -/
def wordsFrom (isSep : α → Bool) (word : List α) : List α → List (List α)
  | [] => if word = [] then [] else [word]
  | x :: xs =>
    if isSep x then (if word = [] then wordsFrom isSep [] xs else word :: wordsFrom isSep [] xs)
    else wordsFrom isSep (word ++ [x]) xs

def words (isSep : α → Bool) (l : List α) : List (List α) := wordsFrom isSep [] l

/-- `s.split(sep, 1)`, when `sep` is in `s`. -/
def cut [DecidableEq α] (sep : List α) : List α → Option (List α × List α)
  | [] => if sep = [] then some ([], []) else none
  | x :: xs =>
    if sep <+: x :: xs then some ([], (x :: xs).drop sep.length)
    else (cut sep xs).map fun (before, after) => (x :: before, after)

variable {isEnd isSep : α → Bool}

theorem chunksFrom_append {xs : List α} (free : ∀ x ∈ xs, isEnd x = false) (chunk ys : List α) :
    chunksFrom isEnd chunk (xs ++ ys) = chunksFrom isEnd (chunk ++ xs) ys := by
  induction xs generalizing chunk with
  | nil => rw [List.nil_append, List.append_nil]
  | cons x xs ih =>
    have first : isEnd x = false := free x List.mem_cons_self
    rw [List.cons_append, chunksFrom, first, if_neg Bool.false_ne_true,
      ih (fun y hy => free y (List.mem_cons_of_mem _ hy)), List.append_assoc, List.singleton_append]

theorem chunks_last {xs : List α} (free : ∀ x ∈ xs, isEnd x = false) (nonempty : xs ≠ []) : chunks isEnd xs = [xs] := by
  have h := chunksFrom_append free [] []
  rw [List.append_nil, List.nil_append] at h
  rw [chunks, h, chunksFrom, if_neg nonempty]

theorem chunks_append {xs : List α} (free : ∀ x ∈ xs, isEnd x = false) {z : α} (hz : isEnd z) (ys : List α) :
    chunks isEnd (xs ++ z :: ys) = (xs ++ [z]) :: chunks isEnd ys := by
  rw [chunks, chunksFrom_append free, List.nil_append, chunksFrom, if_pos hz]
  rfl

/-- A list is empty, a last line without end, or a line with its end before a list. -/
theorem line_induction (isEnd : α → Bool) {motive : List α → Prop} (nil : motive [])
    (last : ∀ xs, xs ≠ [] → (∀ x ∈ xs, isEnd x = false) → motive xs)
    (more : ∀ xs z ys, (∀ x ∈ xs, isEnd x = false) → isEnd z → motive ys → motive (xs ++ z :: ys)) (l : List α) :
    motive l := by
  induction h : l.length using Nat.strong_induction_on generalizing l with
  | h n ih =>
    have split : l = l.takeWhile (fun x => !isEnd x) ++ l.dropWhile (fun x => !isEnd x) :=
      List.takeWhile_append_dropWhile.symm
    have free : ∀ x ∈ l.takeWhile (fun x => !isEnd x), isEnd x = false := fun x hx => by
      simpa using List.mem_takeWhile_imp hx
    cases rest : l.dropWhile (fun x => !isEnd x) with
    | nil =>
      rw [rest, List.append_nil] at split
      rw [← split] at free
      cases l with
      | nil => exact nil
      | cons x xs => exact last (x :: xs) (List.cons_ne_nil x xs) free
    | cons z ys =>
      have hz : isEnd z := by
        have := List.head_dropWhile_not (fun x => !isEnd x) (by rw [rest]; exact List.cons_ne_nil z ys)
        simpa [rest] using this
      rw [rest] at split
      have shorter : ys.length < n := by
        have := congrArg List.length split
        rw [List.length_append, List.length_cons] at this
        omega
      rw [split]
      exact more _ z ys free hz (ih ys.length shorter ys rfl)

theorem chunks_append_end (xs : List α) {z : α} (hz : isEnd z) (ys : List α) :
    chunks isEnd (xs ++ z :: ys) = chunks isEnd (xs ++ [z]) ++ chunks isEnd ys := by
  induction xs using line_induction isEnd with
  | nil =>
    have free : ∀ x ∈ ([] : List α), isEnd x = false := fun x hx => (List.not_mem_nil hx).elim
    rw [chunks_append free hz ys, chunks_append free hz []]
    rfl
  | last xs _ free =>
    rw [chunks_append free hz ys, chunks_append free hz []]
    rfl
  | more xs y rest free hy ih =>
    rw [List.append_assoc, List.append_assoc, List.cons_append, List.cons_append, chunks_append free hy,
      chunks_append free hy, ih, List.cons_append]

theorem chunks_ne_nil {l : List α} (nonempty : l ≠ []) : chunks isEnd l ≠ [] := by
  induction l using line_induction isEnd with
  | nil => exact absurd rfl nonempty
  | last xs some free =>
    rw [chunks_last free some]
    exact List.cons_ne_nil _ _
  | more xs z ys free hz _ =>
    rw [chunks_append free hz]
    exact List.cons_ne_nil _ _

/-- A line has no end in it but its own. -/
theorem mem_chunks {l c : List α} (h : c ∈ chunks isEnd l) :
    ∃ xs, (∀ x ∈ xs, isEnd x = false) ∧ (c = xs ∧ xs ≠ [] ∨ ∃ z, isEnd z ∧ c = xs ++ [z]) := by
  induction l using line_induction isEnd with
  | nil => cases h
  | last xs some free =>
    rw [chunks_last free some] at h
    exact ⟨xs, free, .inl ⟨List.mem_singleton.mp h, some⟩⟩
  | more xs z ys free hz ih =>
    rw [chunks_append free hz] at h
    rcases List.mem_cons.mp h with rfl | h
    · exact ⟨xs, free, .inr ⟨z, hz, rfl⟩⟩
    · exact ih h

theorem chomp_append {xs : List α} {z : α} (hz : isEnd z) : chomp isEnd (xs ++ [z]) = xs := by
  simp [chomp, hz]

theorem chomp_of_free {xs : List α} (free : ∀ x ∈ xs, isEnd x = false) : chomp isEnd xs = xs := by
  unfold chomp
  rw [if_neg]
  cases h : xs.getLast? with
  | none => simp
  | some x =>
    have : isEnd x = false := free x (List.mem_of_getLast? h)
    simp [this]

theorem wordsFrom_append {xs : List α} (free : ∀ x ∈ xs, isSep x = false) (word ys : List α) :
    wordsFrom isSep word (xs ++ ys) = wordsFrom isSep (word ++ xs) ys := by
  induction xs generalizing word with
  | nil => rw [List.nil_append, List.append_nil]
  | cons x xs ih =>
    have first : isSep x = false := free x List.mem_cons_self
    rw [List.cons_append, wordsFrom, first, if_neg Bool.false_ne_true,
      ih (fun y hy => free y (List.mem_cons_of_mem _ hy)), List.append_assoc, List.singleton_append]

theorem words_single {xs : List α} (free : ∀ x ∈ xs, isSep x = false) (nonempty : xs ≠ []) : words isSep xs = [xs] := by
  have h := wordsFrom_append free [] []
  rw [List.append_nil, List.nil_append] at h
  rw [words, h, wordsFrom, if_neg nonempty]

theorem wordsFrom_append_sep {z : α} (hz : isSep z) (word xs ys : List α) :
    wordsFrom isSep word (xs ++ z :: ys) = wordsFrom isSep word xs ++ words isSep ys := by
  induction xs generalizing word with
  | nil =>
    rw [List.nil_append, wordsFrom.eq_def isSep word (z :: ys)]
    simp only [if_pos hz, wordsFrom]
    split
    · rfl
    · rfl
  | cons x xs ih =>
    rw [List.cons_append, wordsFrom, wordsFrom]
    split
    · split
      · exact ih []
      · rw [ih [], List.cons_append]
    · exact ih (word ++ [x])

/-- A separator parts the words before it from those after it. -/
theorem words_append_sep {z : α} (hz : isSep z) (xs ys : List α) :
    words isSep (xs ++ z :: ys) = words isSep xs ++ words isSep ys :=
  wordsFrom_append_sep hz [] xs ys

theorem words_append_seps {xs zs : List α} (hz : ∀ z ∈ zs, isSep z) : words isSep (xs ++ zs) = words isSep xs := by
  induction zs generalizing xs with
  | nil => rw [List.append_nil]
  | cons z zs ih =>
    have rest : words isSep ([] ++ zs) = words isSep [] := ih fun y hy => hz y (List.mem_cons_of_mem _ hy)
    rw [words_append_sep (hz z List.mem_cons_self), ← List.nil_append zs, rest]
    exact List.append_nil _

theorem words_dropWhile (xs : List α) : words isSep (xs.dropWhile isSep) = words isSep xs := by
  induction xs with
  | nil => rfl
  | cons x xs ih =>
    rw [List.dropWhile_cons]
    split
    · rename_i sep
      rw [ih]
      exact (words_append_sep sep [] xs).symm
    · rfl

theorem words_rdropWhile (xs : List α) : words isSep (xs.rdropWhile isSep) = words isSep xs := by
  induction xs using List.reverseRecOn with
  | nil => rfl
  | append_singleton xs x ih =>
    by_cases sep : isSep x
    · rw [List.rdropWhile_concat_pos _ _ _ sep, ih, words_append_sep sep]
      exact (List.append_nil _).symm
    · rw [List.rdropWhile_concat_neg _ _ _ sep]

/-- The first word of a list that begins with no separator is what it begins with. -/
theorem words_head {x : α} (hx : isSep x = false) (xs : List α) :
    ∃ w ws, words isSep (x :: xs) = w :: ws ∧ w <+: x :: xs ∧ w ≠ [] := by
  generalize whole : x :: xs = l
  have head : l.head? = some x := by rw [← whole]; rfl
  induction l using line_induction isSep with
  | nil => cases whole
  | last l nonempty free => exact ⟨l, [], words_single free nonempty, List.prefix_rfl, nonempty⟩
  | more l z ys free hz _ =>
    have nonempty : l ≠ [] := by
      intro empty
      rw [empty, List.nil_append, List.head?_cons] at head
      rw [Option.some.inj head, hx] at hz
      cases hz
    refine ⟨l, words isSep ys, ?_, List.prefix_append l _, nonempty⟩
    rw [words_append_sep hz, words_single free nonempty, List.singleton_append]

theorem mem_wordsFrom {w : List α} {word xs : List α} (free : ∀ x ∈ word, isSep x = false)
    (hw : w ∈ wordsFrom isSep word xs) : w ≠ [] ∧ ∀ x ∈ w, isSep x = false := by
  induction xs generalizing word with
  | nil =>
    rw [wordsFrom] at hw
    split at hw
    · cases hw
    · rename_i nonempty
      obtain rfl := List.mem_singleton.mp hw
      exact ⟨nonempty, free⟩
  | cons x xs ih =>
    have empty : ∀ x ∈ ([] : List α), isSep x = false := fun x hx => by cases hx
    rw [wordsFrom] at hw
    split at hw
    · split at hw
      · exact ih empty hw
      · rename_i nonempty
        rcases List.mem_cons.mp hw with rfl | hw
        · exact ⟨nonempty, free⟩
        · exact ih empty hw
    · rename_i sep
      apply ih _ hw
      intro y hy
      rcases List.mem_append.mp hy with hy | hy
      · exact free y hy
      · obtain rfl := List.mem_singleton.mp hy
        exact Bool.eq_false_iff.mpr sep

/-- A word is not empty and has no separator in it. -/
theorem mem_words {w xs : List α} (hw : w ∈ words isSep xs) : w ≠ [] ∧ ∀ x ∈ w, isSep x = false :=
  mem_wordsFrom (fun x hx => by cases hx) hw

theorem wordsFrom_map (f : β → α) (word xs : List β) :
    wordsFrom isSep (word.map f) (xs.map f) = (wordsFrom (isSep ∘ f) word xs).map (List.map f) := by
  induction xs generalizing word with
  | nil =>
    rw [List.map_nil, wordsFrom, wordsFrom]
    cases word with
    | nil => rfl
    | cons x xs => rfl
  | cons x xs ih =>
    have fresh := ih []
    have longer := ih (word ++ [x])
    rw [List.map_append] at longer
    rw [List.map_cons, wordsFrom, wordsFrom, Function.comp_apply]
    split
    · cases word with
      | nil => exact fresh
      | cons y ys => exact congrArg (List.map f (y :: ys) :: ·) fresh
    · exact longer

theorem words_map (f : β → α) (xs : List β) :
    words isSep (xs.map f) = (words (isSep ∘ f) xs).map (List.map f) :=
  wordsFrom_map f [] xs

theorem length_le_flatMap {f : α → List β} {l : List α} (nonempty : ∀ x ∈ l, f x ≠ []) : l.length ≤ (l.flatMap f).length := by
  induction l with
  | nil => exact Nat.le_refl _
  | cons x l ih =>
    have first : 0 < (f x).length := List.length_pos_of_ne_nil (nonempty x List.mem_cons_self)
    have rest := ih fun y hy => nonempty y (List.mem_cons_of_mem _ hy)
    rw [List.flatMap_cons, List.length_append, List.length_cons]
    omega

/-- What `f` makes of a list, one piece for each member, is related to it member by member exactly
when every piece is one related value. -/
theorem forall₂_flatMap_iff {γ : Type*} {R : α → β → Prop} {f : γ → List β} {g : γ → α} {l : List γ}
    (nonempty : ∀ x ∈ l, f x ≠ []) :
    List.Forall₂ R (l.map g) (l.flatMap f) ↔ ∀ x ∈ l, ∃ y, f x = [y] ∧ R (g x) y := by
  induction l with
  | nil => simp
  | cons x l ih =>
    have here := nonempty x List.mem_cons_self
    have there : ∀ y ∈ l, f y ≠ [] := fun y hy => nonempty y (List.mem_cons_of_mem _ hy)
    rw [List.map_cons, List.flatMap_cons, List.forall_mem_cons]
    constructor
    · intro h
      have same := h.length_eq
      have rest := length_le_flatMap there
      rw [List.length_cons, List.length_map, List.length_append] at same
      cases fx : f x with
      | nil => exact absurd fx here
      | cons y ys =>
        rw [fx, List.length_cons] at same
        obtain rfl : ys = [] := List.length_eq_zero_iff.mp (by omega)
        rw [fx, List.singleton_append] at h
        obtain ⟨first, rest⟩ := List.forall₂_cons.mp h
        exact ⟨⟨y, rfl, first⟩, (ih there).mp rest⟩
    · intro h
      obtain ⟨⟨y, fx, first⟩, rest⟩ := h
      rw [fx, List.singleton_append]
      exact List.Forall₂.cons first ((ih there).mpr rest)

/-- What comes after separators up to the next one is the first word. -/
theorem words_cons {seps w rest : List α} (hs : ∀ x ∈ seps, isSep x) (free : ∀ x ∈ w, isSep x = false)
    (nonempty : w ≠ []) (stops : ∀ z ∈ rest.head?, isSep z) :
    words isSep (seps ++ (w ++ rest)) = w :: words isSep rest := by
  have skipped : words isSep (seps ++ (w ++ rest)) = words isSep (w ++ rest) := by
    induction seps with
    | nil => rfl
    | cons x seps ih =>
      have first : isSep x := hs x List.mem_cons_self
      have later := ih fun y hy => hs y (List.mem_cons_of_mem _ hy)
      rw [← later]
      exact words_append_sep first [] (seps ++ (w ++ rest))
  rw [skipped]
  cases rest with
  | nil => rw [List.append_nil, words_single free nonempty]; rfl
  | cons z rest =>
    have hz : isSep z := stops z rfl
    have after : words isSep (z :: rest) = words isSep rest := words_append_sep hz [] rest
    rw [words_append_sep hz, words_single free nonempty, after, List.singleton_append]

theorem words_eq_cons {l w : List α} {ws : List (List α)} (h : words isSep l = w :: ws) :
    ∃ seps rest, l = seps ++ (w ++ rest) ∧ (∀ x ∈ seps, isSep x) ∧ words isSep rest = ws ∧
      ∀ z ∈ rest.head?, isSep z := by
  induction l using line_induction isSep with
  | nil => cases h
  | last xs nonempty free =>
    rw [words_single free nonempty] at h
    cases h
    exact ⟨[], [], by simp, by simp, rfl, by simp⟩
  | more xs z ys free hz ih =>
    rw [words_append_sep hz] at h
    by_cases empty : xs = []
    · rw [empty] at h ⊢
      obtain ⟨seps, rest, rfl, hs, later, stops⟩ := ih h
      exact ⟨z :: seps, rest, by simp, by simpa [hz] using hs, later, stops⟩
    · rw [words_single free empty] at h
      cases h
      have after : words isSep (z :: ys) = words isSep ys := words_append_sep hz [] ys
      exact ⟨[], z :: ys, rfl, by simp, after, by simp [hz]⟩

/-- A word stands between separators, after the words before it. -/
theorem words_eq_append {l w : List α} {ws more : List (List α)} (h : words isSep l = ws ++ w :: more) :
    ∃ lead rest, l = lead ++ (w ++ rest) ∧ words isSep lead = ws ∧ words isSep rest = more ∧
      (∀ z ∈ lead.getLast?, isSep z) ∧ ∀ z ∈ rest.head?, isSep z := by
  induction ws generalizing l with
  | nil =>
    obtain ⟨seps, rest, rfl, hs, later, stops⟩ := words_eq_cons h
    have none : words isSep ([] ++ seps) = words isSep [] := words_append_seps hs
    exact ⟨seps, rest, rfl, none, later, fun z hz => hs z (List.mem_of_getLast? hz), stops⟩
  | cons v ws ih =>
    have member : v ∈ words isSep l := by rw [h]; exact List.mem_cons_self
    obtain ⟨nonempty, free⟩ := mem_words member
    obtain ⟨seps, tail, rfl, hs, later, stops⟩ := words_eq_cons h
    obtain ⟨lead, rest, rfl, before, after, ends, stops'⟩ := ih later
    have hw : w ∈ words isSep (lead ++ (w ++ rest)) := by rw [later]; simp
    obtain ⟨some, visible⟩ := mem_words hw
    have parted : lead ≠ [] := by
      intro empty
      rw [empty] at stops
      obtain ⟨x, w', rfl⟩ := List.exists_cons_of_ne_nil some
      have sep : isSep x := stops x rfl
      rw [visible x List.mem_cons_self] at sep
      cases sep
    obtain ⟨x, lead', rfl⟩ := List.exists_cons_of_ne_nil parted
    refine ⟨seps ++ (v ++ x :: lead'), rest, by simp, ?_, after, ?_, stops'⟩
    · have stops'' : ∀ z ∈ (x :: lead').head?, isSep z := fun z hz => stops z hz
      rw [words_cons hs free nonempty stops'', before]
    · rw [List.getLast?_append_of_ne_nil _ (by simp), List.getLast?_append_of_ne_nil _ (by simp)]
      exact ends

theorem subset_of_mem_words {w xs : List α} (h : w ∈ words isSep xs) : ∀ x ∈ w, x ∈ xs := by
  obtain ⟨ws, more, whole⟩ := List.append_of_mem h
  obtain ⟨lead, rest, rfl, -⟩ := words_eq_append whole
  intro x hx
  simp [hx]

theorem forall₂_append_iff {γ : Type*} {R : α → γ → Prop} {a b : List α} {c d : List γ} (same : a.length = c.length) :
    List.Forall₂ R (a ++ b) (c ++ d) ↔ List.Forall₂ R a c ∧ List.Forall₂ R b d := by
  constructor
  · intro h
    have first := List.forall₂_take a.length h
    have rest := List.forall₂_drop a.length h
    rw [List.take_left, same, List.take_left] at first
    rw [List.drop_left, same, List.drop_left] at rest
    exact ⟨first, rest⟩
  · intro ⟨first, rest⟩
    exact List.rel_append first rest

theorem forall₂_replace {γ : Type*} {R S : α → γ → Prop} (sub : ∀ x y, R x y → S x y) {l : List α} {a b : List γ} {c : γ}
    (h : List.Forall₂ R l (a ++ c :: b)) (c' : γ) : ∃ x ∈ l, R x c ∧ (List.Forall₂ S l (a ++ c' :: b) ↔ S x c') := by
  induction a generalizing l with
  | nil =>
    obtain ⟨x, rest, here, there, rfl⟩ := List.forall₂_cons_right_iff.mp h
    refine ⟨x, List.mem_cons_self, here, ?_⟩
    rw [List.nil_append, List.forall₂_cons]
    exact and_iff_left (there.imp sub)
  | cons y a ih =>
    obtain ⟨x, rest, here, there, rfl⟩ := List.forall₂_cons_right_iff.mp h
    obtain ⟨z, member, found, same⟩ := ih there
    refine ⟨z, List.mem_cons_of_mem _ member, found, ?_⟩
    rw [List.cons_append, List.forall₂_cons, same]
    exact and_iff_right (sub x y here)

theorem flatMap_eq_singleton {f : α → List β} (nonempty : ∀ x, f x ≠ []) {l : List α} {y : β} :
    l.flatMap f = [y] ↔ ∃ x, l = [x] ∧ f x = [y] := by
  constructor
  · intro h
    cases l with
    | nil => cases h
    | cons x xs =>
      rw [List.flatMap_cons] at h
      have length := congrArg List.length h
      have first := List.length_pos_of_ne_nil (nonempty x)
      rw [List.length_append, List.length_singleton] at length
      have none : xs.flatMap f = [] := List.length_eq_zero_iff.mp (by omega)
      cases xs with
      | nil => exact ⟨x, rfl, by rwa [none, List.append_nil] at h⟩
      | cons x' xs =>
        rw [List.flatMap_cons] at none
        exact absurd (List.append_eq_nil_iff.mp none).1 (nonempty x')
  · intro h
    obtain ⟨x, rfl, single⟩ := h
    rw [List.flatMap_singleton, single]

/-- A part of a list has no separator in it. -/
theorem mem_splitOn [DecidableEq α] {part s : List α} {sep : α} (mem : part ∈ s.splitOn sep) : sep ∉ part ∧ ∀ c ∈ part, c ∈ s := by
  induction s generalizing part with
  | nil =>
    obtain rfl := List.mem_singleton.mp mem
    exact ⟨List.not_mem_nil, nofun⟩
  | cons x s ih =>
    rw [List.splitOn_cons_eq_if_modifyHead] at mem
    split at mem
    · rcases List.mem_cons.mp mem with rfl | later
      · exact ⟨List.not_mem_nil, nofun⟩
      · exact ⟨(ih later).1, fun c inside => List.mem_cons_of_mem x ((ih later).2 c inside)⟩
    · next other =>
      rcases parts : s.splitOn sep with _ | ⟨first, rest⟩
      · exact absurd parts (List.splitOn_ne_nil sep s)
      rw [parts, List.modifyHead_cons] at mem
      rcases List.mem_cons.mp mem with rfl | later
      · obtain ⟨free, sub⟩ := ih (by rw [parts]; exact List.mem_cons_self)
        refine ⟨?_, ?_⟩
        · intro inside
          rcases List.mem_cons.mp inside with rfl | inside
          · exact other (beq_self_eq_true _)
          · exact free inside
        · intro c inside
          rcases List.mem_cons.mp inside with rfl | inside
          · exact List.mem_cons_self
          · exact List.mem_cons_of_mem x (sub c inside)
      · obtain ⟨free, sub⟩ := ih (by rw [parts]; exact List.mem_cons_of_mem first later)
        exact ⟨free, fun c inside => List.mem_cons_of_mem x (sub c inside)⟩

end generic

theorem splitFrom_eq_wordsFrom (word s : List Char) : splitFrom word s = wordsFrom isSpace word s := by
  induction s generalizing word with
  | nil => rfl
  | cons c cs ih => rw [splitFrom, wordsFrom, ih [], ih (word ++ [c])]

theorem split_eq_words (s : List Char) : split s = words isSpace s :=
  splitFrom_eq_wordsFrom [] s

theorem split_strip (s : List Char) : split (strip s) = split s := by
  rw [split_eq_words, split_eq_words, strip, rstrip, lstrip, words_rdropWhile, words_dropWhile]

theorem isSpace_head_lstrip {s t : List Char} {c : Char} (h : lstrip s = c :: t) : isSpace c = false := by
  induction s with
  | nil => cases h
  | cons d s ih =>
    rw [lstrip, List.dropWhile_cons] at h
    split at h
    · exact ih h
    · rename_i visible
      cases h
      exact Bool.eq_false_iff.mpr visible

theorem isSpace_of_isBreak {c : Char} (h : isBreak c) : isSpace c := by
  simp only [isBreak, isSpace, Bool.or_eq_true, Bool.and_eq_true, decide_eq_true_eq, beq_iff_eq] at h ⊢
  omega

theorem splitlinesFrom_append (line xs ys : List Char) :
    splitlinesFrom line (xs ++ '\n' :: ys) = splitlinesFrom line (xs ++ ['\n']) ++ splitlines ys := by
  induction xs generalizing line with
  | nil => rfl
  | cons c cs ih =>
    have next : (cs ++ '\n' :: ys).head? = (cs ++ ['\n']).head? := by
      cases cs with
      | nil => rfl
      | cons d ds => rfl
    rw [List.cons_append, List.cons_append, splitlinesFrom, splitlinesFrom, next, ih line, ih [], ih (line ++ [c])]
    split
    · split
      · rfl
      · rfl
    · rfl

/-- A newline ends the lines before it. -/
theorem splitlines_append (xs ys : List Char) :
    splitlines (xs ++ '\n' :: ys) = splitlines (xs ++ ['\n']) ++ splitlines ys :=
  splitlinesFrom_append [] xs ys

theorem splitlinesFrom_eq_nil {line s : List Char} (h : splitlinesFrom line s = []) : line = [] ∧ s = [] := by
  induction s generalizing line with
  | nil =>
    rw [splitlinesFrom] at h
    split at h
    · exact ⟨‹_›, rfl⟩
    · cases h
  | cons c cs ih =>
    rw [splitlinesFrom] at h
    split at h
    · split at h
      · rename_i cr
        have := (ih h).2
        rw [this] at cr
        cases cr.2
      · cases h
    · exact absurd (ih h).1 (by simp)

theorem splitlines_ne_nil {s : List Char} (nonempty : s ≠ []) : splitlines s ≠ [] := fun h =>
  nonempty (splitlinesFrom_eq_nil h).2

theorem splitlinesFrom_append_free {xs : List Char} (free : ∀ c ∈ xs, isBreak c = false) (line ys : List Char) :
    splitlinesFrom line (xs ++ ys) = splitlinesFrom (line ++ xs) ys := by
  induction xs generalizing line with
  | nil => rw [List.nil_append, List.append_nil]
  | cons c cs ih =>
    have first : isBreak c = false := free c List.mem_cons_self
    rw [List.cons_append, splitlinesFrom, first, if_neg Bool.false_ne_true,
      ih (fun y hy => free y (List.mem_cons_of_mem _ hy)), List.append_assoc, List.singleton_append]

/-- What is a single line is that line and what ends it. -/
theorem splitlinesFrom_eq_singleton {line s t : List Char} (free : ∀ c ∈ line, isBreak c = false)
    (h : splitlinesFrom line s = [t]) :
    (∀ c ∈ t, isBreak c = false) ∧ ∃ ends, (∀ c ∈ ends, isBreak c) ∧ line ++ s = t ++ ends := by
  induction s generalizing line with
  | nil =>
    rw [splitlinesFrom] at h
    split at h
    · cases h
    · obtain rfl := (List.cons.inj h).1
      exact ⟨free, [], ⟨fun c hc => (List.not_mem_nil hc).elim, rfl⟩⟩
  | cons c cs ih =>
    rw [splitlinesFrom] at h
    split at h
    · rename_i br
      split at h
      · rename_i cr
        obtain ⟨d, ds, rfl⟩ : ∃ d ds, cs = d :: ds := by
          cases cs with
          | nil => cases cr.2
          | cons d ds => exact ⟨d, ds, rfl⟩
        have hd : d = '\n' := by simpa using cr.2
        have single : line :: splitlines ds = [t] := by
          rw [hd] at h
          exact h
        obtain ⟨rfl, empty⟩ := List.cons.inj single
        have nothing : ds = [] := (splitlinesFrom_eq_nil empty).2
        refine ⟨free, c :: d :: ds, ?_, rfl⟩
        intro x hx
        rw [nothing, hd] at hx
        rcases List.mem_cons.mp hx with rfl | hx
        · exact br
        · obtain rfl := List.mem_singleton.mp hx
          rfl
      · obtain ⟨rfl, empty⟩ := List.cons.inj h
        have nothing : cs = [] := (splitlinesFrom_eq_nil empty).2
        refine ⟨free, c :: cs, ?_, rfl⟩
        intro x hx
        rw [nothing] at hx
        obtain rfl := List.mem_singleton.mp hx
        exact br
    · rename_i plain
      have longer : ∀ x ∈ line ++ [c], isBreak x = false := by
        intro x hx
        rcases List.mem_append.mp hx with hx | hx
        · exact free x hx
        · obtain rfl := List.mem_singleton.mp hx
          exact Bool.eq_false_iff.mpr plain
      obtain ⟨free', ends, hends, whole⟩ := ih longer h
      exact ⟨free', ends, hends, by rw [← whole]; simp⟩

theorem splitlines_eq_singleton {s t : List Char} (h : splitlines s = [t]) :
    (∀ c ∈ t, isBreak c = false) ∧ ∃ ends, (∀ c ∈ ends, isBreak c) ∧ s = t ++ ends :=
  splitlinesFrom_eq_singleton (fun c hc => by cases hc) h

theorem splitlines_line {xs : List Char} (free : ∀ c ∈ xs, isBreak c = false) :
    splitlines (xs ++ ['\n']) = [xs] := by
  rw [splitlines, splitlinesFrom_append_free free, List.nil_append]
  rfl

theorem splitlines_last {xs : List Char} (free : ∀ c ∈ xs, isBreak c = false) (nonempty : xs ≠ []) :
    splitlines xs = [xs] := by
  have h := splitlinesFrom_append_free free [] []
  rw [List.append_nil, List.nil_append] at h
  rw [splitlines, h, splitlinesFrom, if_neg nonempty]

theorem mem_splitlinesFrom {line s l : List Char} (free : ∀ c ∈ line, isBreak c = false)
    (h : l ∈ splitlinesFrom line s) : ∀ c ∈ l, isBreak c = false := by
  induction s generalizing line with
  | nil =>
    rw [splitlinesFrom] at h
    split at h
    · cases h
    · rw [List.mem_singleton.mp h]
      exact free
  | cons c cs ih =>
    rw [splitlinesFrom] at h
    split at h
    · split at h
      · exact ih free h
      · rcases List.mem_cons.mp h with rfl | later
        · exact free
        · exact ih (fun x hx => (List.not_mem_nil hx).elim) later
    · rename_i plain
      apply ih _ h
      intro x hx
      rcases List.mem_append.mp hx with old | new
      · exact free x old
      · rw [List.mem_singleton.mp new]
        exact Bool.eq_false_iff.mpr plain

theorem mem_splitlines {s l : List Char} (h : l ∈ splitlines s) : ∀ c ∈ l, isBreak c = false :=
  mem_splitlinesFrom (fun _ hc => (List.not_mem_nil hc).elim) h

theorem join_cons {sep part : List Char} {parts : List (List Char)} (nonempty : parts ≠ []) :
    join sep (part :: parts) = part ++ (sep ++ join sep parts) := by
  cases parts with
  | nil => exact absurd rfl nonempty
  | cons next parts => simp [join, List.intercalate]

theorem join_concat {sep part : List Char} {parts : List (List Char)} (nonempty : parts ≠ []) :
    join sep (parts ++ [part]) = join sep parts ++ (sep ++ part) := by
  induction parts with
  | nil => exact absurd rfl nonempty
  | cons first parts ih =>
    by_cases last : parts = []
    · subst last
      simp [join, List.intercalate]
    · rw [List.cons_append, join_cons (by simp), ih last, join_cons last]
      simp only [List.append_assoc]

/-- Lines put together are found again. -/
theorem splitlines_join {lines : List (List Char)} (nonempty : lines ≠ []) (free : ∀ l ∈ lines, ∀ c ∈ l, isBreak c = false) :
    splitlines (join ['\n'] lines ++ ['\n']) = lines := by
  induction lines with
  | nil => exact absurd rfl nonempty
  | cons l lines ih =>
    obtain ⟨first, rest⟩ := List.forall_mem_cons.mp free
    by_cases last : lines = []
    · subst last
      have alone : join ['\n'] [l] = l := by simp [join, List.intercalate]
      rw [alone]
      exact splitlines_line first
    · rw [join_cons last, List.append_assoc, List.append_assoc, List.singleton_append, splitlines_append,
        splitlines_line first, ih last rest]
      rfl

theorem mem_join {sep : List Char} {parts : List (List Char)} {c : Char} (h : c ∈ join sep parts) :
    c ∈ sep ∨ ∃ part ∈ parts, c ∈ part := by
  induction parts with
  | nil => cases h
  | cons part parts ih =>
    cases parts with
    | nil =>
      have here : c ∈ part := by simpa [join, List.intercalate] using h
      exact .inr ⟨part, List.mem_cons_self, here⟩
    | cons next parts =>
      have cases : c ∈ part ∨ c ∈ sep ∨ c ∈ join sep (next :: parts) := by
        simpa [join, List.intercalate] using h
      rcases cases with here | here | later
      · exact .inr ⟨part, List.mem_cons_self, here⟩
      · exact .inl here
      · rcases ih later with here | ⟨other, mem, here⟩
        · exact .inl here
        · exact .inr ⟨other, List.mem_cons_of_mem _ mem, here⟩

theorem words_join {isSep : Char → Bool} {z : Char} (hz : isSep z = true) {parts : List (List Char)}
    (nonempty : parts ≠ []) : words isSep (join [z] parts) = parts.flatMap (words isSep) := by
  induction parts with
  | nil => exact absurd rfl nonempty
  | cons part parts ih =>
    cases parts with
    | nil => simp [join, List.intercalate]
    | cons next parts =>
      have rest := ih (List.cons_ne_nil next parts)
      have whole : join [z] (part :: next :: parts) = part ++ z :: join [z] (next :: parts) := by
        simp [join, List.intercalate]
      rw [whole, words_append_sep hz, rest]
      rfl

/-- Words put together are found again. -/
theorem words_join_words {isSep : Char → Bool} {z : Char} (hz : isSep z = true) {parts : List (List Char)}
    (nonempty : parts ≠ []) (single : ∀ w ∈ parts, w ≠ [] ∧ ∀ c ∈ w, isSep c = false) :
    words isSep (join [z] parts) = parts := by
  have same : ∀ w ∈ parts, words isSep w = [w] := fun w hw => words_single (single w hw).2 (single w hw).1
  rw [words_join hz nonempty, List.flatMap_congr same]
  exact List.flatMap_singleton' parts

theorem split_join {z : Char} (hz : isSpace z = true) {parts : List (List Char)} (nonempty : parts ≠ []) :
    split (join [z] parts) = parts.flatMap split := by
  have each : split = words isSpace := funext split_eq_words
  rw [each, words_join hz nonempty]

theorem split_join_tab {parts : List (List Char)} (nonempty : parts ≠ []) :
    split (join ['\t'] parts) = parts.flatMap split := split_join (by decide) nonempty

theorem split_join_words {z : Char} (hz : isSpace z = true) {parts : List (List Char)} (nonempty : parts ≠ [])
    (single : ∀ w ∈ parts, w ≠ [] ∧ ∀ c ∈ w, isSpace c = false) : split (join [z] parts) = parts := by
  rw [split_eq_words]
  exact words_join_words hz nonempty single

theorem subset_strip (s : List Char) : ∀ c ∈ strip s, c ∈ s := by
  intro c hc
  have inner : c ∈ lstrip s := (List.rdropWhile_prefix isSpace (lstrip s)).subset hc
  exact (List.dropWhile_sublist isSpace).subset inner

end lines

end H2kvm.Framework.Text
