import Mathlib.Data.Char
import Mathlib.Data.List.Lex
import Mathlib.Data.List.Sort
import H2kvm.Framework.Data
import H2kvm.Framework.Paths

namespace H2kvm.Framework.FileTree

open Paths

/-- What stands at a place of a file system. A link keeps the path it leads to. -/
inductive Node (δ : Type)
  | dir
  | file (data : δ)
  | link (absolute : Bool) (target : Path)
  | special

/-- The places by their real paths; the root is not listed. -/
abbrev Places (δ : Type) := Dict Path (Node δ)

inductive Errno
  | missing
  | notDirectory
  | isDirectory
  | present
  | loop
  deriving DecidableEq

/-- How a path is walked: whether what it goes through must be there, and which links it
refuses to follow. -/
structure Manner where
  strict : Bool
  refuses : Path → Bool

/-- `os.path.realpath`. -/
def Manner.lenient : Manner := ⟨false, fun _ => false⟩

/-- The walk of a system call. -/
def Manner.kernel : Manner := ⟨true, fun _ => false⟩

/-- `realpath`, but without the links at or below a directory. -/
def Manner.outside (dir : Path) : Manner := ⟨false, fun p => decide (dir <+: p)⟩

variable {δ : Type}

def node (t : Places δ) (p : Path) : Option (Node δ) := if p = [] then some .dir else t.lookup p

def isDir (t : Places δ) (p : Path) : Bool :=
  match node t p with
  | some .dir => true
  | _ => false

def link? (t : Places δ) (p : Path) : Option (Bool × Path) :=
  match node t p with
  | some (.link absolute target) => some (absolute, target)
  | _ => none

/-- Neither a directory nor a file. -/
def Node.odd : Node δ → Bool
  | .dir | .file _ => false
  | .link _ _ | .special => true

/-- Why one cannot go on from a place that is no directory. -/
def halt (t : Places δ) (p : Path) : Errno := if (node t p).isNone then .missing else .notDirectory

/-- From the real path `done` on to `rest`, up to the first link. -/
def walk (m : Manner) (t : Places δ) (follow : Path → Path → Except Errno Path) : Path → Path → Except Errno Path
  | done, [] => .ok done
  | done, c :: rest =>
    if m.strict && !isDir t done then .error (halt t done)
    else if c = [] ∨ c = ['.'] then walk m t follow done rest
    else if c = up then walk m t follow done.dropLast rest
    else match link? t (done ++ [c]) with
      | some (absolute, target) =>
        if m.refuses (done ++ [c]) then .error .loop else follow (if absolute then [] else done) (target ++ rest)
      | none => walk m t follow (done ++ [c]) rest

/-- The walk that follows at most so many links. -/
def resolve (m : Manner) (t : Places δ) : Nat → Path → Path → Except Errno Path
  | 0 => walk m t fun _ _ => .error .loop
  | n + 1 => walk m t (resolve m t n)

/-- No link stands on the way. -/
def Unlinked (t : Places δ) (p : Path) : Prop := ∀ q, q <+: p → link? t q = none

/-- Directories lead to it. -/
def Rooted (t : Places δ) (p : Path) : Prop := ∀ q, q <+: p → q ≠ p → isDir t q = true

variable {m m' : Manner} {t t' : Places δ} {follow : Path → Path → Except Errno Path} {n : Nat}
  {p q r rest done : Path} {c : List Char}

@[simp] theorem node_root : node t [] = some .dir := if_pos rfl

@[simp] theorem link?_root : link? t [] = none := by simp [link?]

@[simp] theorem isDir_root : isDir t [] = true := by simp [isDir]

theorem node_of_isDir (dir : isDir t p = true) : node t p = some .dir := by
  unfold isDir at dir
  split at dir
  · next found => exact found
  · cases dir

theorem link?_of_isDir (dir : isDir t p = true) : link? t p = none := by
  rw [link?, node_of_isDir dir]

theorem Unlinked.of_above (unlinked : Unlinked t p) (inside : q <+: p) : Unlinked t q := fun s above =>
  unlinked s (above.trans inside)

theorem Unlinked.concat (unlinked : Unlinked t p) (plain : link? t (p ++ [c]) = none) : Unlinked t (p ++ [c]) := by
  intro q above
  rcases List.prefix_concat_iff.mp above with same | inside
  · rw [same]
    exact plain
  · exact unlinked q inside

theorem Rooted.of_above (rooted : Rooted t p) (inside : q <+: p) : Rooted t q := by
  intro s above differ
  refine rooted s (above.trans inside) fun same => differ ?_
  subst same
  exact above.eq_of_length_le inside.length_le

theorem Rooted.concat (rooted : Rooted t p) (dir : isDir t p = true) : Rooted t (p ++ [c]) := by
  intro q above differ
  rcases List.prefix_concat_iff.mp above with same | inside
  · exact absurd same differ
  · by_cases same : q = p
    · rw [same]
      exact dir
    · exact rooted q inside same

/-- A directory that directories lead to is reached without links. -/
theorem Rooted.unlinked (rooted : Rooted t p) (dir : isDir t p = true) : Unlinked t p := by
  intro q above
  by_cases same : q = p
  · rw [same]
    exact link?_of_isDir dir
  · exact link?_of_isDir (rooted q above same)

section walks

/-- One component of a walk that ends at `r`. -/
inductive Stride (m : Manner) (t : Places δ) (follow : Path → Path → Except Errno Path) (done : Path) (c : List Char)
    (rest r : Path) : Prop
  | stay (unnamed : c = [] ∨ c = ['.']) (further : walk m t follow done rest = .ok r)
  | ascend (isUp : c = up) (further : walk m t follow done.dropLast rest = .ok r)
  | jump (absolute : Bool) (target : Path) (proper : Proper c) (found : link? t (done ++ [c]) = some (absolute, target))
    (free : m.refuses (done ++ [c]) = false)
    (further : follow (if absolute then [] else done) (target ++ rest) = .ok r)
  | enter (proper : Proper c) (plain : link? t (done ++ [c]) = none)
    (further : walk m t follow (done ++ [c]) rest = .ok r)

theorem walk_cons_iff : walk m t follow done (c :: rest) = .ok r ↔
    (m.strict = true → isDir t done = true) ∧ Stride m t follow done c rest r := by
  have passes : (m.strict = true → isDir t done = true) ↔ ¬ (m.strict && !isDir t done) = true := by
    cases m.strict <;> cases isDir t done <;> decide
  rw [passes, walk]
  by_cases stops : (m.strict && !isDir t done) = true
  · rw [if_pos stops]
    exact ⟨nofun, fun going => absurd stops going.1⟩
  rw [if_neg stops]
  by_cases unnamed : c = [] ∨ c = ['.']
  · rw [if_pos unnamed]
    refine ⟨fun further => ⟨stops, .stay unnamed further⟩, fun going => ?_⟩
    cases going.2 with
    | stay _ further => exact further
    | ascend isUp _ => exact absurd (isUp ▸ unnamed) (by decide)
    | jump _ _ proper => exact absurd unnamed (not_or.mpr ⟨proper.1, proper.2.1⟩)
    | enter proper => exact absurd unnamed (not_or.mpr ⟨proper.1, proper.2.1⟩)
  rw [if_neg unnamed]
  by_cases isUp : c = up
  · rw [if_pos isUp]
    refine ⟨fun further => ⟨stops, .ascend isUp further⟩, fun going => ?_⟩
    cases going.2 with
    | stay named _ => exact absurd named unnamed
    | ascend _ further => exact further
    | jump _ _ proper => exact absurd isUp proper.2.2
    | enter proper => exact absurd isUp proper.2.2
  rw [if_neg isUp]
  have proper : Proper c := ⟨fun empty => unnamed (.inl empty), fun dot => unnamed (.inr dot), isUp⟩
  cases found : link? t (done ++ [c]) with
  | none =>
    refine ⟨fun further => ⟨stops, .enter proper found further⟩, fun going => ?_⟩
    cases going.2 with
    | stay named _ => exact absurd named unnamed
    | ascend ascends _ => exact absurd ascends isUp
    | jump _ _ _ other => rw [found] at other; cases other
    | enter _ _ further => exact further
  | some link =>
    obtain ⟨absolute, target⟩ := link
    dsimp only
    cases free : m.refuses (done ++ [c]) with
    | true =>
      refine ⟨nofun, fun going => ?_⟩
      cases going.2 with
      | stay named _ => exact absurd named unnamed
      | ascend ascends _ => exact absurd ascends isUp
      | jump _ _ _ _ other => rw [free] at other; cases other
      | enter _ plain => rw [found] at plain; cases plain
    | false =>
      refine ⟨fun further => ⟨stops, .jump absolute target proper found free further⟩, fun going => ?_⟩
      cases going.2 with
      | stay named _ => exact absurd named unnamed
      | ascend ascends _ => exact absurd ascends isUp
      | jump _ _ _ other _ further =>
        rw [found] at other
        cases other
        exact further
      | enter _ plain => rw [found] at plain; cases plain

theorem walk_keeps {P : Path → Prop} (above : ∀ p, P p → P p.dropLast) (root : P [])
    (below : ∀ p c, P p → Proper c → link? t (p ++ [c]) = none → (m.strict = true → isDir t p = true) → P (p ++ [c]))
    (onward : ∀ d s r, P d → follow d s = .ok r → P r) (start : P done) (walked : walk m t follow done rest = .ok r) :
    P r := by
  induction rest generalizing done with
  | nil =>
    cases walked
    exact start
  | cons c rest ih =>
    obtain ⟨dir, stride⟩ := walk_cons_iff.mp walked
    cases stride with
    | stay _ further => exact ih start further
    | ascend _ further => exact ih (above done start) further
    | jump absolute target _ _ _ further =>
      refine onward _ _ r ?_ further
      cases absolute with
      | true => exact root
      | false => exact start
    | enter proper plain further => exact ih (below done c start proper plain dir) further

theorem resolve_keeps {P : Path → Prop} (above : ∀ p, P p → P p.dropLast) (root : P [])
    (below : ∀ p c, P p → Proper c → link? t (p ++ [c]) = none → (m.strict = true → isDir t p = true) → P (p ++ [c]))
    (start : P done) (walked : resolve m t n done rest = .ok r) : P r := by
  induction n generalizing done rest r with
  | zero => exact walk_keeps above root below (fun _ _ _ _ stuck => by cases stuck) start walked
  | succ n ih => exact walk_keeps above root below (fun d s r held further => ih held further) start walked

theorem resolve_normal (start : Normal done) (walked : resolve m t n done rest = .ok r) : Normal r := by
  refine resolve_keeps (fun p normal => normal.dropLast) nofun ?_ start walked
  intro p c normal proper _ _ d member
  rcases List.mem_append.mp member with old | new
  · exact normal d old
  · rw [List.mem_singleton.mp new]
    exact proper

theorem resolve_unlinked (start : Unlinked t done) (walked : resolve m t n done rest = .ok r) : Unlinked t r := by
  refine resolve_keeps ?_ ?_ (fun p c unlinked _ plain _ => unlinked.concat plain) start walked
  · exact fun p unlinked => unlinked.of_above (List.dropLast_prefix p)
  · intro q above
    rw [List.prefix_nil.mp above]
    exact link?_root

theorem resolve_rooted (strict : m.strict = true) (start : Rooted t done) (walked : resolve m t n done rest = .ok r) :
    Rooted t r := by
  refine resolve_keeps ?_ ?_ (fun p c rooted _ _ dir => rooted.concat (dir strict)) start walked
  · exact fun p rooted => rooted.of_above (List.dropLast_prefix p)
  · intro q above differ
    exact absurd (List.prefix_nil.mp above) differ

/-- Plain names are walked one after another. -/
theorem walk_plain (normal : Normal p) (unlinked : Unlinked t (done ++ p))
    (rooted : m.strict = true → Rooted t (done ++ p)) :
    walk m t follow done (p ++ rest) = walk m t follow (done ++ p) rest := by
  induction p generalizing done with
  | nil => rw [List.nil_append, List.append_nil]
  | cons c p ih =>
    obtain ⟨nonempty, nodot, noup⟩ := normal c List.mem_cons_self
    have assoc : done ++ c :: p = done ++ [c] ++ p := by simp
    have passable : (m.strict && !isDir t done) = false := by
      cases strict : m.strict with
      | false => rfl
      | true =>
        have dir := rooted strict done (List.prefix_append done (c :: p)) (by simp)
        simp [dir]
    have plain : link? t (done ++ [c]) = none := by
      apply unlinked
      rw [assoc]
      exact List.prefix_append _ p
    rw [assoc] at unlinked rooted ⊢
    rw [List.cons_append, walk, passable, plain, if_neg Bool.false_ne_true, if_neg (not_or.mpr ⟨nonempty, nodot⟩),
      if_neg noup]
    exact ih (fun d member => normal d (List.mem_cons_of_mem c member)) unlinked rooted

theorem resolve_eq_walk (m : Manner) (t : Places δ) (n : Nat) : ∃ follow, resolve m t n = walk m t follow := by
  cases n with
  | zero => exact ⟨_, rfl⟩
  | succ n => exact ⟨_, rfl⟩

theorem resolve_plain (normal : Normal p) (unlinked : Unlinked t (done ++ p))
    (rooted : m.strict = true → Rooted t (done ++ p)) : resolve m t n done p = .ok (done ++ p) := by
  obtain ⟨follow, same⟩ := resolve_eq_walk m t n
  have through : walk m t follow done (p ++ []) = walk m t follow (done ++ p) [] :=
    walk_plain normal unlinked rooted
  rw [List.append_nil] at through
  rw [same, through]
  rfl

theorem walk_append (normal : Normal q) (onward : ∀ d s, follow d s = .ok r → follow d (s ++ q) = .ok (r ++ q))
    (unlinked : Unlinked t (r ++ q)) (rooted : m.strict = true → Rooted t (r ++ q))
    (walked : walk m t follow done p = .ok r) : walk m t follow done (p ++ q) = .ok (r ++ q) := by
  induction p generalizing done with
  | nil =>
    cases walked
    have through : walk m t follow r (q ++ []) = walk m t follow (r ++ q) [] := walk_plain normal unlinked rooted
    rw [List.append_nil] at through
    rw [List.nil_append, through]
    rfl
  | cons c p ih =>
    obtain ⟨dir, stride⟩ := walk_cons_iff.mp walked
    rw [List.cons_append]
    refine walk_cons_iff.mpr ⟨dir, ?_⟩
    cases stride with
    | stay unnamed further => exact .stay unnamed (ih further)
    | ascend isUp further => exact .ascend isUp (ih further)
    | jump absolute target proper found free further =>
      refine .jump absolute target proper found free ?_
      rw [← List.append_assoc]
      exact onward _ _ further
    | enter proper plain further => exact .enter proper plain (ih further)

theorem resolve_append (normal : Normal q) (unlinked : Unlinked t (r ++ q)) (rooted : m.strict = true → Rooted t (r ++ q))
    (walked : resolve m t n done p = .ok r) : resolve m t n done (p ++ q) = .ok (r ++ q) := by
  induction n generalizing done p with
  | zero => exact walk_append normal (fun _ _ stuck => by cases stuck) unlinked rooted walked
  | succ n ih => exact walk_append normal (fun d s further => ih further) unlinked rooted walked

theorem walk_split {there : Path → Prop} (onward : ∀ d s, follow d (s ++ q) = .ok r → ∃ mid, follow d s = .ok mid ∧ there mid)
    (here : ∀ mid, walk m t follow mid q = .ok r → there mid) (walked : walk m t follow done (p ++ q) = .ok r) :
    ∃ mid, walk m t follow done p = .ok mid ∧ there mid := by
  induction p generalizing done with
  | nil => exact ⟨done, rfl, here done walked⟩
  | cons c p ih =>
    rw [List.cons_append] at walked
    obtain ⟨dir, stride⟩ := walk_cons_iff.mp walked
    cases stride with
    | stay unnamed further =>
      obtain ⟨mid, first, rest⟩ := ih further
      exact ⟨mid, walk_cons_iff.mpr ⟨dir, .stay unnamed first⟩, rest⟩
    | ascend isUp further =>
      obtain ⟨mid, first, rest⟩ := ih further
      exact ⟨mid, walk_cons_iff.mpr ⟨dir, .ascend isUp first⟩, rest⟩
    | jump absolute target proper found free further =>
      rw [← List.append_assoc] at further
      obtain ⟨mid, first, rest⟩ := onward _ _ further
      exact ⟨mid, walk_cons_iff.mpr ⟨dir, .jump absolute target proper found free first⟩, rest⟩
    | enter proper plain further =>
      obtain ⟨mid, first, rest⟩ := ih further
      exact ⟨mid, walk_cons_iff.mpr ⟨dir, .enter proper plain first⟩, rest⟩

theorem resolve_split (walked : resolve m t n done (p ++ q) = .ok r) :
    ∃ mid, resolve m t n done p = .ok mid ∧ ∃ k, resolve m t k mid q = .ok r := by
  induction n generalizing done p with
  | zero => exact walk_split (fun _ _ stuck => by cases stuck) (fun mid walked => ⟨0, walked⟩) walked
  | succ n ih => exact walk_split (fun d s further => ih further) (fun mid walked => ⟨n + 1, walked⟩) walked

/-- What a tree must have of another for the walks of the other to end where they did. -/
structure Simulates (m : Manner) (t : Places δ) (m' : Manner) (t' : Places δ) : Prop where
  strict : m'.strict = true → m.strict = true ∧ ∀ q, isDir t q = true → isDir t' q = true
  refuses : ∀ q, m'.refuses q = true → m.refuses q = true
  fewer : ∀ q, link? t q = none → link? t' q = none
  same : ∀ q, m.refuses q = false → link? t' q = link? t q

theorem walk_simulates {follow' : Path → Path → Except Errno Path} (sim : Simulates m t m' t')
    (onward : ∀ d s r, follow d s = .ok r → follow' d s = .ok r) (walked : walk m t follow done rest = .ok r) :
    walk m' t' follow' done rest = .ok r := by
  induction rest generalizing done with
  | nil => exact walked
  | cons c rest ih =>
    obtain ⟨dir, stride⟩ := walk_cons_iff.mp walked
    refine walk_cons_iff.mpr ⟨?_, ?_⟩
    · intro strict'
      obtain ⟨strict, dirs⟩ := sim.strict strict'
      exact dirs done (dir strict)
    · cases stride with
      | stay unnamed further => exact .stay unnamed (ih further)
      | ascend isUp further => exact .ascend isUp (ih further)
      | jump absolute target proper found free further =>
        have free' : m'.refuses (done ++ [c]) = false := by
          apply Bool.eq_false_iff.mpr
          intro refused
          rw [sim.refuses _ refused] at free
          cases free
        exact .jump absolute target proper ((sim.same _ free).trans found) free' (onward _ _ r further)
      | enter proper plain further => exact .enter proper (sim.fewer _ plain) (ih further)

theorem resolve_simulates {k : Nat} (sim : Simulates m t m' t') (deeper : n ≤ k)
    (walked : resolve m t n done rest = .ok r) : resolve m' t' k done rest = .ok r := by
  induction n generalizing k done rest r with
  | zero =>
    obtain ⟨follow', same⟩ := resolve_eq_walk m' t' k
    rw [same]
    exact walk_simulates sim (fun _ _ _ stuck => by cases stuck) walked
  | succ n ih =>
    obtain ⟨k, rfl⟩ : ∃ j, k = j + 1 := ⟨k - 1, by omega⟩
    exact walk_simulates sim (fun d s r further => ih (by omega) further) walked

theorem Simulates.lenient (m : Manner) (t : Places δ) : Simulates m t Manner.lenient t where
  strict := nofun
  refuses := nofun
  fewer := fun _ none => none
  same := fun _ _ => rfl

/-- However far two walks may go, they end at one place. -/
theorem resolve_unique {k : Nat} {r' : Path} (sim : Simulates m t m' t') (walked : resolve m t n done rest = .ok r)
    (walked' : resolve m' t' k done rest = .ok r') : r = r' := by
  have there := resolve_simulates sim (Nat.le_max_left n k) walked
  have refl : Simulates m' t' m' t' := ⟨fun strict => ⟨strict, fun _ dir => dir⟩, fun _ refused => refused,
    fun _ none => none, fun _ _ => rfl⟩
  have there' := resolve_simulates refl (Nat.le_max_right n k) walked'
  exact Except.ok.inj (there.symm.trans there')

end walks

end H2kvm.Framework.FileTree

namespace H2kvm.Framework.TreeWalk

open Paths

/-- What stands at a path: a directory, or anything else with what is told of it. -/
inductive Place (δ : Type) where
  | dir
  | leaf (data : δ)
  deriving DecidableEq

abbrev Tree (δ : Type) := Dict Path (Place δ)

/-- What a walk has before it: a path to look at, a directory to read, and a leaf that was found. -/
inductive Errand (δ : Type) where
  | look (path : Path)
  | read (path : Path)
  | found (path : Path) (data : δ)

variable {δ : Type}

/-- The names in a directory, in order. -/
def names (t : Tree δ) (dir : Path) : List (List Char) :=
  (t.keys.filterMap fun p => if p.dropLast = dir then p.getLast? else none).insertionSort (· ≤ ·)

/-- What comes of an errand, in a tree that may be another one at each of them. -/
def Errand.expand (t : Tree δ) : Errand δ → List (Errand δ)
  | .look p =>
    match t.lookup p with
    | none => []
    | some .dir => [.read p]
    | some (.leaf data) => [.found p data]
  | .read p =>
    match t.lookup p with
    | some .dir => (names t p).map fun c => .look (p ++ [c])
    | _ => []
  | .found p data => [.found p data]

/-- A leaf that directories lead to from the root. -/
def Standing (root : Path) (t : Tree δ) (p : Path) (data : δ) : Prop :=
  root <+: p ∧ t.lookup p = some (.leaf data) ∧ ∀ q, root <+: q → q <+: p → q ≠ p → t.lookup q = some .dir

def Errand.path : Errand δ → Path
  | .look p | .read p | .found p _ => p

/-- The walk comes to the leaf by this errand. -/
def Errand.Covers (p : Path) (data : δ) : Errand δ → Prop
  | .look q => q <+: p
  | .read q => q <+: p ∧ q ≠ p
  | .found q d => q = p ∧ d = data

variable {t : Tree δ} {root p q : Path} {data : δ} {errand next : Errand δ}

theorem mem_names {c : List Char} : c ∈ names t p ↔ p ++ [c] ∈ t := by
  rw [names, List.mem_insertionSort, List.mem_filterMap, AList.mem_keys]
  constructor
  · rintro ⟨q, member, named⟩
    split at named
    · next parent =>
      obtain ⟨above, rfl⟩ := List.getLast?_eq_some_iff.mp named
      rw [List.dropLast_concat] at parent
      rwa [← parent]
    · cases named
  · intro member
    exact ⟨p ++ [c], member, by simp⟩

theorem Standing.of_erase (gone : Path) (standing : Standing root (t.erase gone) p data) : Standing root t p data := by
  obtain ⟨below, leaf, dirs⟩ := standing
  have other : ∀ {r : Path} {place : Place δ}, (t.erase gone).lookup r = some place → t.lookup r = some place := by
    intro r place found
    by_cases same : r = gone
    · rw [same, AList.lookup_erase] at found
      cases found
    · rwa [AList.lookup_erase_ne same] at found
  exact ⟨below, other leaf, fun q inside above differ => other (dirs q inside above differ)⟩

theorem expand_path (member : next ∈ errand.expand t) : errand.path <+: next.path := by
  cases errand with
  | look p =>
    rw [Errand.expand] at member
    split at member
    · cases member
    · rw [List.mem_singleton.mp member]
      exact List.prefix_rfl
    · rw [List.mem_singleton.mp member]
      exact List.prefix_rfl
  | read p =>
    rw [Errand.expand] at member
    split at member
    · obtain ⟨c, -, rfl⟩ := List.mem_map.mp member
      exact List.prefix_append p [c]
    · cases member
  | found p d => rw [List.mem_singleton.mp member]

theorem lookup_of_found (member : .found p data ∈ errand.expand t) :
    t.lookup p = some (.leaf data) ∧ errand = .look p ∨ errand = .found p data := by
  cases errand with
  | look q =>
    rw [Errand.expand] at member
    split at member
    · cases member
    · nomatch List.mem_singleton.mp member
    · next d leaf =>
      cases List.mem_singleton.mp member
      exact .inl ⟨leaf, rfl⟩
  | read q =>
    rw [Errand.expand] at member
    split at member
    · obtain ⟨c, -, nope⟩ := List.mem_map.mp member
      cases nope
    · cases member
  | found q d => exact .inr (List.mem_singleton.mp member).symm

/-- What one errand covers is covered by what comes of it, as long as it stands. -/
theorem expand_covers (standing : Standing root t p data) (inside : root <+: errand.path) (covers : errand.Covers p data) :
    ∃ next ∈ errand.expand t, next.Covers p data := by
  obtain ⟨-, leaf, dirs⟩ := standing
  cases errand with
  | look q =>
    by_cases same : q = p
    · refine ⟨.found p data, ?_, rfl, rfl⟩
      rw [Errand.expand]
      rw [same, leaf]
      exact List.mem_singleton_self _
    · refine ⟨.read q, ?_, covers, same⟩
      rw [Errand.expand]
      rw [dirs q inside covers same]
      exact List.mem_singleton_self _
  | read q =>
    obtain ⟨⟨rest, rfl⟩, differ⟩ := covers
    cases rest with
    | nil => exact absurd (List.append_nil q).symm differ
    | cons c rest =>
      have assoc : q ++ c :: rest = q ++ [c] ++ rest := by simp
      refine ⟨.look (q ++ [c]), ?_, rest, assoc.symm⟩
      have there : q ++ [c] ∈ t := by
        rw [← AList.lookup_isSome]
        by_cases last : rest = []
        · rw [last] at leaf
          rw [leaf]
          rfl
        · have differ : q ++ [c] ≠ q ++ c :: rest := fun same => last (by simpa using same)
          rw [dirs (q ++ [c]) (inside.trans (List.prefix_append q [c])) ⟨rest, assoc.symm⟩ differ]
          rfl
      rw [Errand.expand]
      rw [dirs q inside (List.prefix_append q (c :: rest)) differ]
      exact List.mem_map_of_mem (mem_names.mpr there)
  | found q d =>
    obtain ⟨rfl, rfl⟩ := covers
    exact ⟨_, List.mem_singleton_self _, rfl, rfl⟩

end H2kvm.Framework.TreeWalk
