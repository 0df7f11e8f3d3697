import Mathlib.Data.Set.Function
import H2kvm.Framework.Data
import H2kvm.Framework.Lines
import H2kvm.Framework.FirstFit
import H2kvm.Framework.Scanning

namespace H2kvm.Network

section topology

open Framework Text

inductive FixLevel where
  | conservative
  | moderate
  | aggressive
  deriving DecidableEq

/-- `fix_level in (FixLevel.MODERATE, FixLevel.AGGRESSIVE)`. -/
def FixLevel.atLeastModerate (level : FixLevel) : Bool := level ≠ .conservative

inductive DeviceKind where
  | ethernet
  | bond
  | bridge
  | vlan
  | unknown
  deriving DecidableEq

inductive EdgeKind where
  | slave
  | port
  | vlan
  deriving DecidableEq

structure TopoEdge where
  src : String
  dst : String
  kind : EdgeKind
  deriving DecidableEq

/-- The nodes in the order they were added. -/
structure TopologyGraph where
  nodes : List (String × DeviceKind)
  edges : List TopoEdge

/-- A character without its case, as `re.IGNORECASE` takes it for ASCII letters. -/
def foldCase (c : Char) : Char :=
  if c = '\u0130' ∨ c = '\u0131' then 'i' else if c = '\u017f' then 's' else if c = '\u212a' then 'k' else c.toLower

/-- `str.lower()`. -/
def lower (s : List Char) : List Char :=
  s.flatMap fun c => if c = '\u0130' then ['i', '\u0307'] else if c = '\u212a' then ['k'] else [c.toLower]

/-- The text up to where `$` matches. -/
def upToEnd (s : List Char) : List Char := if s.getLast? = some '\n' then s.dropLast else s

def vmwareNumbers : List (List Char) :=
  ["33".toList, "160".toList, "161".toList, "192".toList, "224".toList, "256".toList, "193".toList, "225".toList]

/-- `INTERFACE_NAME_PATTERNS`: the names VMware gives to network cards. -/
def isVmwareName (name : List Char) : Bool :=
  let folded := fun n => ((upToEnd name).take n).map foldCase
  (folded 3 = "ens".toList && decide ((upToEnd name).drop 3 ∈ vmwareNumbers)) ||
    (folded 5 = "vmnic".toList && (upToEnd name).drop 5 ≠ [] && ((upToEnd name).drop 5).all isDigit)

/-- A name of VMware's is made of the letters of `ens` and `vmnic`, digits and a line break at its end. -/
theorem not_mem_of_isVmwareName {name : List Char} {c : Char} (letter : foldCase c ∉ "ensvmic".toList)
    (digit : isDigit c = false) (newline : c ≠ '\n') (h : isVmwareName name = true) : c ∉ name := by
  have core : c ∉ upToEnd name := by
    intro member
    have split (n : Nat) : c ∈ (upToEnd name).take n ∨ c ∈ (upToEnd name).drop n := by
      rw [← List.mem_append, List.take_append_drop]
      exact member
    have folded (n : Nat) (hc : c ∈ (upToEnd name).take n) : foldCase c ∈ ((upToEnd name).take n).map foldCase :=
      List.mem_map_of_mem hc
    simp only [isVmwareName, Bool.or_eq_true, Bool.and_eq_true, decide_eq_true_eq] at h
    rcases h with ⟨lead, number⟩ | ⟨⟨lead, -⟩, digits⟩
    · rcases split 3 with first | last
      · have bad := folded 3 first
        have letters : ∀ d ∈ "ens".toList, d ∈ "ensvmic".toList := by decide
        rw [lead] at bad
        exact letter (letters _ bad)
      · have plain : ∀ n ∈ vmwareNumbers, ∀ d ∈ n, isDigit d = true := by decide +kernel
        have bad := plain _ number c last
        rw [digit] at bad
        cases bad
    · rcases split 5 with first | last
      · have bad := folded 5 first
        have letters : ∀ d ∈ "vmnic".toList, d ∈ "ensvmic".toList := by decide
        rw [lead] at bad
        exact letter (letters _ bad)
      · have bad := List.all_eq_true.mp digits c last
        rw [digit] at bad
        cases bad
  intro member
  unfold upToEnd at core
  split at core
  · rename_i ends
    obtain ⟨ys, rfl⟩ := List.getLast?_eq_some_iff.mp ends
    rw [List.dropLast_concat] at core
    rcases List.mem_append.mp member with old | last
    · exact core old
    · exact newline (List.mem_singleton.mp last)
  · exact core member

namespace TopologyGraph

/-- `_is_lower_layer_member`. -/
def isLowerLayerMember (name : String) (edges : List TopoEdge) : Bool :=
  edges.any fun e => name = e.src || name = e.dst

/-- `needs_interface_rename`. -/
def needsInterfaceRename (name : String) : Bool := isVmwareName (strip name.toList)

/-- The first run of digits. -/
def firstNumber (name : List Char) : List Char := (name.dropWhile fun c => !isDigit c).takeWhile isDigit

/-- `get_safe_interface_name`. -/
def getSafeInterfaceName (current : String) : String :=
  let digits := firstNumber current.toList
  if digits = [] then "eth0" else "eth" ++ String.ofList digits

/-- A name that is not in use, among the next 32. -/
def avoidConflict (used : List String) (new : String) : String :=
  let num := intOf (firstNumber new.toList)
  let cands := (List.range 32).map fun k => "eth" ++ toString (num + k)
  (cands.find? fun cand => decide (cand ∉ used)).getD new

/-- One node of `compute_rename_map`. -/
def planRename (plan : List (String × String) × List String) (node : String × DeviceKind) :
    List (String × String) × List String :=
  let (rename, used) := plan
  let (old, kind) := node
  if (kind ≠ .ethernet ∧ kind ≠ .unknown) ∨ !needsInterfaceRename old then plan
  else
    let safe := getSafeInterfaceName old
    let new := if safe ∈ used ∧ safe ≠ old then avoidConflict used safe else safe
    if old ≠ new then (rename ++ [(old, new)], new :: used) else plan

/-- The names the graph has seen. -/
def seen (topo : TopologyGraph) : List String :=
  topo.nodes.map Prod.fst ++ topo.edges.flatMap fun e => [e.src, e.dst]

/-- `rename_map_propagate`. -/
def renameMapPropagate (topo : TopologyGraph) (rename : List (String × String)) : Dict String String :=
  let out := rename.foldl (fun out (old, new) => out.insert old new) ∅
  rename.foldl (fun out (old, new) =>
    topo.seen.foldl (fun out n =>
      match after (old.toList ++ ['.']) n.toList with
      | none => out
      | some rest => out.insert n (String.ofList (new.toList ++ '.' :: rest))) out) out

/-- `compute_rename_map`. -/
def computeRenameMap (level : FixLevel) (topo : TopologyGraph) : Dict String String :=
  if level ≠ .aggressive then ∅
  else topo.renameMapPropagate (topo.nodes.foldl planRename ([], topo.nodes.map Prod.fst)).1

end TopologyGraph

end topology

section renames

open Framework Text FirstFit

/-- A graph as it is built up: each device has one node. -/
structure Topology extends TopologyGraph where
  names_nodup : (nodes.map Prod.fst).Nodup

namespace TopologyGraph

/-- `rename_map.get(name, name)`. -/
def renamed (rm : Dict String String) (name : String) : String := (rm.lookup name).getD name

/-- One node of `apply_rename_map`: it is put under its new name, or merged with the node that is there. -/
def putRenamed (rm : Dict String String) (newNodes : List (String × DeviceKind)) (node : String × DeviceKind) :
    List (String × DeviceKind) :=
  let newName := renamed rm node.1
  if newName ∈ newNodes.map Prod.fst then
    newNodes.map fun existing =>
      if existing.1 = newName ∧ existing.2 = .unknown ∧ node.2 ≠ .unknown then (existing.1, node.2) else existing
  else newNodes ++ [(newName, node.2)]

/-- `apply_rename_map`. -/
def applyRenameMap (topo : TopologyGraph) (rm : Dict String String) : TopologyGraph :=
  if rm.keys = [] then topo
  else
    { nodes := topo.nodes.foldl (putRenamed rm) []
      edges := topo.edges.map fun e => { e with src := renamed rm e.src, dst := renamed rm e.dst } }

/-- No two names of the graph become the same, so each node and each edge is found again under its new names. -/
def RenamesApart (topo : TopologyGraph) : Prop :=
  let rm := topo.computeRenameMap .aggressive
  Set.InjOn (renamed rm) {n | n ∈ topo.seen} ∧
    (topo.applyRenameMap rm).nodes = topo.nodes.map (fun node => (renamed rm node.1, node.2)) ∧
      (topo.applyRenameMap rm).edges =
        topo.edges.map fun e => { e with src := renamed rm e.src, dst := renamed rm e.dst }

/-- What may be a network card, with a name VMware gives. -/
def isCard (node : String × DeviceKind) : Bool :=
  (node.2 = .ethernet || node.2 = .unknown) && needsInterfaceRename node.1

def cards (topo : TopologyGraph) : List String := (topo.nodes.filter isCard).map Prod.fst

/-- The number in a name. -/
def number (name : String) : Nat := intOf (firstNumber name.toList)

def numbered (k : Nat) : String := "eth" ++ toString k

/-- A card asks for a number if its safe name is one with a number, or is gone: a node has it, or the safe name of a
card before it is the same. -/
def Asks (names earlier : List String) (card : String) : Prop :=
  getSafeInterfaceName card = numbered (number (getSafeInterfaceName card)) ∨ getSafeInterfaceName card ∈ names ∨
    getSafeInterfaceName card ∈ earlier.map getSafeInterfaceName

instance (names earlier : List String) (card : String) : Decidable (Asks names earlier card) :=
  inferInstanceAs (Decidable (_ ∨ _))

/-- The numbers in use and those asked for, the card that comes last first. -/
def asks (names : List String) : List String → List Nat
  | [] => (names.filter fun n => n = numbered (number n)).map number
  | card :: earlier =>
    if Asks names earlier card then number (getSafeInterfaceName card) :: asks names earlier else asks names earlier

/-- A name stays out of the way of what the graph has seen, also before the dot of a VLAN. -/
def Unseen (topo : TopologyGraph) (card new : String) : Prop :=
  new ∉ topo.seen ∧ ∀ rest, card ++ "." ++ rest ∈ topo.seen → new ++ "." ++ rest ∉ topo.seen

/-- A card finds a name: its safe name, or the first free number of the next 32 if it asks for one. -/
def Finds (topo : TopologyGraph) (earlier : List String) (card : String) : Prop :=
  if Asks (topo.nodes.map Prod.fst) earlier card then
    ∃ k, FirstFree (asks (topo.nodes.map Prod.fst) earlier) (number (getSafeInterfaceName card)) k ∧
      k < number (getSafeInterfaceName card) + 32 ∧ topo.Unseen card (numbered k)
  else topo.Unseen card (getSafeInterfaceName card)

/-- Each card finds a name when its turn comes; the last one stands first. -/
def RoomFor (topo : TopologyGraph) : List String → Prop
  | [] => True
  | card :: earlier => topo.RoomFor earlier ∧ topo.Finds earlier card

/-- There is room for the new names. -/
def Roomy (topo : TopologyGraph) : Prop := topo.RoomFor topo.cards.reverse

section lookups

variable {K V α : Type} [DecidableEq K]

theorem lookup_foldl {step : Dict K V → α → Dict K V} {f : α → Option V} {k : K}
    (hstep : ∀ out x, (step out x).lookup k = (f x).or (out.lookup k)) (xs : List α) (out : Dict K V) :
    (xs.foldl step out).lookup k = xs.foldl (fun found x => (f x).or found) (out.lookup k) := by
  induction xs generalizing out with
  | nil => rfl
  | cons x xs ih => rw [List.foldl_cons, ih, hstep, List.foldl_cons]

theorem foldl_or_self {f : K → Option V} {k : K} (xs : List K) (found : Option V) :
    xs.foldl (fun found x => (if k = x then f x else none).or found) found =
      if k ∈ xs then (f k).or found else found := by
  induction xs generalizing found with
  | nil => rfl
  | cons x xs ih =>
    rw [List.foldl_cons, ih]
    by_cases here : k = x
    · subst here
      cases f k <;> simp
    · simp [here]

theorem foldl_or_lookup {g : String → V} {k : String} (pairs : List (String × String))
    (distinct : (pairs.map Prod.fst).Nodup) (found : Option V) :
    pairs.foldl (fun found p => (if k = p.1 then some (g p.2) else none).or found) found =
      ((pairs.lookup k).map g).or found := by
  induction pairs generalizing found with
  | nil => rfl
  | cons p pairs ih =>
    obtain ⟨fresh, distinct⟩ := List.nodup_cons.mp distinct
    rw [List.foldl_cons, ih distinct, List.lookup_cons]
    by_cases here : k = p.1
    · have none : pairs.lookup k = none := by
        rw [List.lookup_eq_none_iff]
        intro q hq
        have other : k ≠ q.1 := by
          rintro rfl
          exact fresh (here ▸ List.mem_map_of_mem hq)
        simpa using other
      simp [here, here ▸ none]
    · have differs : (k == p.1) = false := by simpa using here
      simp [here, differs]

end lookups

section names

/-- The name up to its first dot. -/
def headOf (name : String) : String := String.ofList (name.toList.takeWhile (· ≠ '.'))

/-- The name from its first dot on. -/
def tailOf (name : String) : List Char := name.toList.dropWhile (· ≠ '.')

def Dotless (name : String) : Prop := '.' ∉ name.toList

theorem takeWhile_dot {xs ys : List Char} (plain : '.' ∉ xs) :
    (xs ++ '.' :: ys).takeWhile (· ≠ '.') = xs ∧ (xs ++ '.' :: ys).dropWhile (· ≠ '.') = '.' :: ys := by
  have all : ∀ c ∈ xs, decide (c ≠ '.') = true := by
    intro c hc
    exact decide_eq_true fun dot => plain (dot ▸ hc)
  rw [List.takeWhile_append_of_pos all, List.dropWhile_append_of_pos all]
  simp

theorem Dotless.takeWhile {name : String} (h : Dotless name) :
    name.toList.takeWhile (· ≠ '.') = name.toList ∧ name.toList.dropWhile (· ≠ '.') = [] := by
  have all : ∀ c ∈ name.toList, decide (c ≠ '.') = true := by
    intro c hc
    exact decide_eq_true fun dot => h (dot ▸ hc)
  exact ⟨List.takeWhile_eq_self_iff.mpr all, List.dropWhile_eq_nil_iff.mpr all⟩

theorem head_append_tail (name : String) : (headOf name).toList ++ tailOf name = name.toList := by
  rw [headOf, String.toList_ofList, tailOf, List.takeWhile_append_dropWhile]

theorem dotless_headOf (name : String) : Dotless (headOf name) := by
  intro dot
  rw [headOf, String.toList_ofList] at dot
  have plain := List.mem_takeWhile_imp dot
  simp at plain

theorem tailOf_cases (name : String) : tailOf name = [] ∨ ∃ rest, tailOf name = '.' :: rest := by
  cases h : tailOf name with
  | nil => exact .inl rfl
  | cons c rest =>
    have first := List.head_dropWhile_not (p := fun c => decide (c ≠ '.')) (l := name.toList) (by rw [← tailOf, h]; simp)
    have same : (name.toList.dropWhile fun c => decide (c ≠ '.')) = c :: rest := h
    simp only [same, List.head_cons] at first
    have dot : c = '.' := by simpa using first
    exact .inr ⟨rest, by rw [dot]⟩

theorem Dotless.headOf_eq {name : String} (h : Dotless name) : headOf name = name := by
  rw [headOf, h.takeWhile.1, String.ofList_toList]

theorem Dotless.tailOf_eq {name : String} (h : Dotless name) : tailOf name = [] := h.takeWhile.2

theorem headOf_join {name : String} {tail : List Char} (plain : Dotless name) (dot : tail = [] ∨ ∃ rest, tail = '.' :: rest) :
    headOf (String.ofList (name.toList ++ tail)) = name ∧ tailOf (String.ofList (name.toList ++ tail)) = tail := by
  rcases dot with rfl | ⟨rest, rfl⟩
  · rw [List.append_nil, String.ofList_toList]
    exact ⟨plain.headOf_eq, plain.tailOf_eq⟩
  · obtain ⟨head, tail⟩ := @takeWhile_dot _ rest plain
    rw [headOf, tailOf, String.toList_ofList, head, tail, String.ofList_toList]
    exact ⟨rfl, rfl⟩

theorem after_dot {old name : String} (plain : Dotless old) :
    after (old.toList ++ ['.']) name.toList = if headOf name = old then (tailOf name).tail? else none := by
  by_cases lead : old.toList ++ ['.'] <+: name.toList
  · obtain ⟨rest, text⟩ := lead
    have parts : name.toList = old.toList ++ '.' :: rest := by rw [← text]; simp
    obtain ⟨head, tail⟩ := @takeWhile_dot _ rest plain
    have same : headOf name = old := by rw [headOf, parts, head, String.ofList_toList]
    have left : tailOf name = '.' :: rest := by rw [tailOf, parts, tail]
    rw [after, if_pos ⟨rest, text⟩, if_pos same, left, ← text, List.drop_left]
    rfl
  · rw [after, if_neg lead]
    split
    · rename_i same
      rcases tailOf_cases name with none | ⟨rest, dot⟩
      · rw [none]
        rfl
      · refine absurd ⟨rest, ?_⟩ lead
        rw [← head_append_tail name, same, dot]
        simp
    · rfl

end names

section propagation

variable {topo : TopologyGraph} {rename : List (String × String)}

/-- The renames planned have no dot on either side and rename each card once. -/
structure Planned (rename : List (String × String)) : Prop where
  distinct : (rename.map Prod.fst).Nodup
  plain : ∀ p ∈ rename, Dotless p.1 ∧ Dotless p.2

/-- What the plan makes of a head. -/
def newHead (rename : List (String × String)) (head : String) : String := (rename.lookup head).getD head

theorem lookup_planned (plan : Planned rename) (k : String) :
    (rename.foldl (fun out (old, new) => out.insert old new) (∅ : Dict String String)).lookup k = rename.lookup k := by
  have step (out : Dict String String) (p : String × String) :
      (out.insert p.1 p.2).lookup k = (if k = p.1 then some p.2 else none).or (out.lookup k) := by
    by_cases here : k = p.1
    · subst here
      simp
    · simp [here, AList.lookup_insert_ne here]
  have found := foldl_or_lookup (g := id) (k := k) rename plan.distinct none
  rw [lookup_foldl step, AList.lookup_empty]
  simpa using found

theorem Planned.lookup_none (plan : Planned rename) {k : String} (dotted : tailOf k ≠ []) : rename.lookup k = none := by
  rw [List.lookup_eq_none_iff]
  intro p hp
  have other : k ≠ p.1 := by
    rintro rfl
    exact dotted (plan.plain p hp).1.tailOf_eq
  simpa using other

/-- The name a VLAN gets when the card under it is renamed. -/
def derived (p : String × String) (n : String) : Option String :=
  (after (p.1.toList ++ ['.']) n.toList).map fun rest => String.ofList (p.2.toList ++ '.' :: rest)

theorem derived_eq {p : String × String} (plain : Dotless p.1) (n : String) :
    derived p n = if headOf n = p.1 ∧ tailOf n ≠ [] then some (String.ofList (p.2.toList ++ tailOf n)) else none := by
  rw [derived, after_dot plain]
  rcases tailOf_cases n with none | ⟨rest, dot⟩
  · simp [none]
  · by_cases here : headOf n = p.1
    · simp [here, dot]
    · simp [here]

theorem lookup_propagate (plan : Planned rename) {k : String} (known : k ∈ topo.seen) :
    (topo.renameMapPropagate rename).lookup k =
      if tailOf k = [] then rename.lookup k
      else (rename.lookup (headOf k)).map fun new => String.ofList (new.toList ++ tailOf k) := by
  have inner (p : String × String) (out : Dict String String) :
      (topo.seen.foldl (fun out n =>
        match after (p.1.toList ++ ['.']) n.toList with
        | none => out
        | some rest => out.insert n (String.ofList (p.2.toList ++ '.' :: rest))) out).lookup k =
        (derived p k).or (out.lookup k) := by
    rw [lookup_foldl (f := fun n => if k = n then derived p n else none), foldl_or_self, if_pos known]
    intro out n
    rw [derived]
    cases after (p.1.toList ++ ['.']) n.toList with
    | none => simp
    | some rest =>
      by_cases here : k = n
      · subst here
        simp
      · simp [here, AList.lookup_insert_ne here]
  have whole : (topo.renameMapPropagate rename).lookup k =
      rename.foldl (fun found p => (derived p k).or found) (rename.lookup k) := by
    rw [← lookup_planned plan]
    exact lookup_foldl (fun out p => inner p out) rename _
  rw [whole]
  split
  · rename_i plain
    have none : ∀ found : Option String, ∀ p ∈ rename, (derived p k).or found = found := by
      intro found p hp
      rw [derived_eq (plan.plain p hp).1, if_neg fun h => h.2 plain]
      rfl
    rw [List.foldl_ext _ (fun found _ => found) _ none, List.foldl_fixed]
  · rename_i dotted
    have one : ∀ found : Option String, ∀ p ∈ rename, (derived p k).or found =
        (if headOf k = p.1 then some (String.ofList (p.2.toList ++ tailOf k)) else none).or found := by
      intro found p hp
      rw [derived_eq (plan.plain p hp).1]
      simp [dotted]
    have found := foldl_or_lookup (g := fun new => String.ofList (new.toList ++ tailOf k)) (k := headOf k) rename
      plan.distinct none
    rw [List.foldl_ext _ _ _ one, plan.lookup_none dotted, found, Option.or_none]

theorem renamed_propagate (plan : Planned rename) {k : String} (known : k ∈ topo.seen) :
    renamed (topo.renameMapPropagate rename) k = String.ofList ((newHead rename (headOf k)).toList ++ tailOf k) := by
  have text : String.ofList ((headOf k).toList ++ tailOf k) = k := by rw [head_append_tail, String.ofList_toList]
  rw [renamed, lookup_propagate plan known, newHead]
  split
  · rename_i plain
    have whole : headOf k = k := by
      rw [plain, List.append_nil, String.ofList_toList] at text
      exact text
    rw [plain, whole, List.append_nil, String.ofList_toList]
  · cases rename.lookup (headOf k) with
    | none => exact text.symm
    | some new => rfl

theorem Planned.dotless_newHead (plan : Planned rename) {head : String} (plain : Dotless head) :
    Dotless (newHead rename head) := by
  rw [newHead]
  cases found : rename.lookup head with
  | none => exact plain
  | some new =>
    obtain ⟨before, behind, text, -⟩ := List.lookup_eq_some_iff.mp found
    exact (plan.plain (head, new) (by rw [text]; simp)).2

theorem renamed_eq_iff (plan : Planned rename) {m n : String} (hm : m ∈ topo.seen) (hn : n ∈ topo.seen) :
    renamed (topo.renameMapPropagate rename) m = renamed (topo.renameMapPropagate rename) n ↔
      newHead rename (headOf m) = newHead rename (headOf n) ∧ tailOf m = tailOf n := by
  rw [renamed_propagate plan hm, renamed_propagate plan hn]
  constructor
  · intro same
    obtain ⟨headM, tailM⟩ := headOf_join (plan.dotless_newHead (dotless_headOf m)) (tailOf_cases m)
    obtain ⟨headN, tailN⟩ := headOf_join (plan.dotless_newHead (dotless_headOf n)) (tailOf_cases n)
    have head := congrArg headOf same
    have tail := congrArg tailOf same
    rw [headM, headN] at head
    rw [tailM, tailN] at tail
    exact ⟨head, tail⟩
  · intro ⟨head, tail⟩
    rw [head, tail]

end propagation

section injectivity

variable {topo : TopologyGraph} {rename : List (String × String)}

theorem eq_of_head_tail {m n : String} (head : headOf m = headOf n) (tail : tailOf m = tailOf n) : m = n := by
  apply String.toList_inj.mp
  rw [← head_append_tail m, ← head_append_tail n, head, tail]

theorem Planned.newHead_of_mem (plan : Planned rename) {p : String × String} (hp : p ∈ rename) :
    newHead rename p.1 = p.2 := by
  obtain ⟨before, behind, rfl⟩ := List.append_of_mem hp
  have distinct := plan.distinct
  rw [List.map_append, List.map_cons] at distinct
  have first : ∀ q ∈ before, (p.1 != q.1) = true := by
    intro q hq
    have apart := (List.nodup_append.mp distinct).2.2 q.1 (List.mem_map_of_mem hq) p.1 List.mem_cons_self
    simpa using Ne.symm apart
  have found : (before ++ p :: behind).lookup p.1 = some p.2 := List.lookup_eq_some_iff.mpr ⟨before, behind, rfl, first⟩
  rw [newHead, found]
  rfl

theorem newHead_of_not_mem {head : String} (other : ∀ p ∈ rename, head ≠ p.1) : newHead rename head = head := by
  have none : rename.lookup head = none := List.lookup_eq_none_iff.mpr fun p hp => by simpa using other p hp
  rw [newHead, none]
  rfl

theorem headOf_dot {head rest : String} (plain : Dotless head) :
    headOf (head ++ "." ++ rest) = head ∧ tailOf (head ++ "." ++ rest) = '.' :: rest.toList := by
  have text : head ++ "." ++ rest = String.ofList (head.toList ++ '.' :: rest.toList) := by
    apply String.toList_inj.mp
    simp
  rw [text]
  exact headOf_join plain (.inr ⟨rest.toList, rfl⟩)

theorem head_dot_rest {n : String} {rest : List Char} (dot : tailOf n = '.' :: rest) :
    headOf n ++ "." ++ String.ofList rest = n := by
  apply String.toList_inj.mp
  rw [← head_append_tail n, dot]
  simp

theorem headOf_of_tailOf {n : String} (none : tailOf n = []) : headOf n = n := by
  apply String.toList_inj.mp
  have text := head_append_tail n
  rwa [none, List.append_nil] at text

theorem unseen_iff {card new : String} (plain : Dotless card) (plain' : Dotless new) (known : card ∈ topo.seen) :
    topo.Unseen card new ↔
      ∀ m ∈ topo.seen, headOf m = card → ∀ n ∈ topo.seen, headOf n = new → tailOf m ≠ tailOf n := by
  constructor
  · rintro ⟨fresh, below⟩ m hm headM n hn headN tail
    rcases tailOf_cases n with none | ⟨rest, dot⟩
    · rw [headOf_of_tailOf none] at headN
      exact fresh (headN ▸ hn)
    · have textM := head_dot_rest (tail.trans dot)
      have textN := head_dot_rest dot
      rw [headM] at textM
      rw [headN] at textN
      refine below (String.ofList rest) ?_ ?_
      · rwa [textM]
      · rwa [textN]
  · intro apart
    refine ⟨fun seen => ?_, fun rest hm hn => ?_⟩
    · exact apart card known plain.headOf_eq new seen plain'.headOf_eq (by rw [plain.tailOf_eq, plain'.tailOf_eq])
    · have partsM := @headOf_dot _ rest plain
      have partsN := @headOf_dot _ rest plain'
      exact apart _ hm partsM.1 _ hn partsN.1 (partsM.2.trans partsN.2.symm)

/-- The renaming is injective exactly if the new names are distinct and out of the way. -/
theorem injOn_iff (plan : Planned rename) (known : ∀ p ∈ rename, p.1 ∈ topo.seen)
    (fresh : ∀ p ∈ rename, ∀ q ∈ rename, p.2 ≠ q.1) :
    Set.InjOn (renamed (topo.renameMapPropagate rename)) {n | n ∈ topo.seen} ↔
      (rename.map Prod.snd).Nodup ∧ ∀ p ∈ rename, topo.Unseen p.1 p.2 := by
  have unseen {p : String × String} (hp : p ∈ rename) := unseen_iff (plan.plain p hp).1 (plan.plain p hp).2 (known p hp)
  have kept {p : String × String} (hp : p ∈ rename) : newHead rename p.2 = p.2 := newHead_of_not_mem (fresh p hp)
  constructor
  · intro injective
    have heads {m n : String} (hm : m ∈ topo.seen) (hn : n ∈ topo.seen)
        (head : newHead rename (headOf m) = newHead rename (headOf n)) (tail : tailOf m = tailOf n) : m = n :=
      injective hm hn ((renamed_eq_iff plan hm hn).mpr ⟨head, tail⟩)
    refine ⟨?_, fun p hp => (unseen hp).mpr ?_⟩
    · rw [List.nodup_map_iff_inj_on plan.distinct.of_map]
      intro p hp q hq same
      have heads : p.1 = q.1 := by
        obtain ⟨plainP, -⟩ := plan.plain p hp
        obtain ⟨plainQ, -⟩ := plan.plain q hq
        apply heads (known p hp) (known q hq)
        · rw [plainP.headOf_eq, plainQ.headOf_eq, plan.newHead_of_mem hp, plan.newHead_of_mem hq, same]
        · rw [plainP.tailOf_eq, plainQ.tailOf_eq]
      exact Prod.ext heads same
    · intro m hm headM n hn headN tail
      have same : m = n := by
        apply heads hm hn _ tail
        rw [headM, headN, plan.newHead_of_mem hp, kept hp]
      have back : p.2 = p.1 := by rw [← headN, ← headM, same]
      exact fresh p hp p hp back
  · intro ⟨distinct, out⟩ m hm n hn same
    obtain ⟨head, tail⟩ := (renamed_eq_iff plan hm hn).mp same
    refine eq_of_head_tail ?_ tail
    -- a renamed head meets neither another one nor a head that stays
    by_cases cardM : ∃ p ∈ rename, headOf m = p.1
    · obtain ⟨p, hp, headM⟩ := cardM
      rw [headM, plan.newHead_of_mem hp] at head
      by_cases cardN : ∃ q ∈ rename, headOf n = q.1
      · obtain ⟨q, hq, headN⟩ := cardN
        rw [headN, plan.newHead_of_mem hq] at head
        have one := (List.nodup_map_iff_inj_on plan.distinct.of_map).mp distinct p hp q hq head
        rw [headM, headN, one]
      · rw [newHead_of_not_mem fun q hq h => cardN ⟨q, hq, h⟩] at head
        exact absurd tail ((unseen hp).mp (out p hp) m hm headM n hn head.symm)
    · rw [newHead_of_not_mem fun q hq h => cardM ⟨q, hq, h⟩] at head
      by_cases cardN : ∃ q ∈ rename, headOf n = q.1
      · obtain ⟨q, hq, headN⟩ := cardN
        rw [headN, plan.newHead_of_mem hq] at head
        exact absurd tail.symm ((unseen hq).mp (out q hq) n hn headN m hm head)
      · rwa [newHead_of_not_mem fun q hq h => cardN ⟨q, hq, h⟩] at head

theorem foldl_putRenamed {rm : Dict String String} (nodes done : List (String × DeviceKind))
    (distinct : ((done ++ nodes).map fun node => renamed rm node.1).Nodup) :
    nodes.foldl (putRenamed rm) (done.map fun node => (renamed rm node.1, node.2)) =
      (done ++ nodes).map fun node => (renamed rm node.1, node.2) := by
  induction nodes generalizing done with
  | nil => simp
  | cons node nodes ih =>
    have whole : done ++ node :: nodes = done ++ [node] ++ nodes := by simp
    have new : renamed rm node.1 ∉ (done.map fun node => (renamed rm node.1, node.2)).map Prod.fst := by
      intro member
      rw [List.map_append, List.map_cons] at distinct
      have apart := (List.nodup_append.mp distinct).2.2
      simp only [List.map_map] at member
      exact apart _ member _ List.mem_cons_self rfl
    rw [List.foldl_cons, putRenamed, if_neg new, whole]
    rw [whole] at distinct
    have next := ih (done ++ [node]) distinct
    rw [List.map_append] at next
    exact next

theorem renamesApart_iff_injOn (topo : Topology) :
    topo.RenamesApart ↔ Set.InjOn (renamed (topo.computeRenameMap .aggressive)) {n | n ∈ topo.seen} := by
  constructor
  · exact fun h => h.1
  · intro injective
    let rm := topo.computeRenameMap .aggressive
    have nodes : ∀ node ∈ topo.nodes, node.1 ∈ topo.seen := by
      intro node hnode
      exact List.mem_append_left _ (List.mem_map_of_mem hnode)
    have distinct : (topo.nodes.map fun node => renamed rm node.1).Nodup := by
      rw [List.nodup_map_iff_inj_on topo.names_nodup.of_map]
      intro node hnode node' hnode' same
      have name := injective (nodes node hnode) (nodes node' hnode') same
      exact (List.nodup_map_iff_inj_on topo.names_nodup.of_map).mp topo.names_nodup node hnode node' hnode' name
    refine ⟨injective, ?_⟩
    show (topo.applyRenameMap rm).nodes = _ ∧ (topo.applyRenameMap rm).edges = _
    rw [applyRenameMap]
    split
    · rename_i empty
      have same (n : String) : renamed rm n = n := by
        have none : rm.lookup n = none := by
          have out : n ∉ rm.keys := by simp [empty]
          exact AList.lookup_eq_none.mpr out
        rw [renamed, none]
        rfl
      have here : topo.computeRenameMap .aggressive = rm := rfl
      simp [here, same]
    · exact ⟨foldl_putRenamed topo.nodes [] distinct, rfl⟩

end injectivity

section numbers

theorem toList_numbered (k : Nat) : (numbered k).toList = 'e' :: 't' :: 'h' :: Nat.toDigits 10 k := by
  have text : (toString k).toList = Nat.toDigits 10 k := Nat.toList_repr
  rw [numbered, String.toList_append, text]
  rfl

theorem number_numbered (k : Nat) : number (numbered k) = k := by
  have digits : ∀ c ∈ Nat.toDigits 10 k, isDigit c = true := isDigit_toDigits k
  have dropped : (Nat.toDigits 10 k).dropWhile (fun c => !isDigit c) = Nat.toDigits 10 k := by
    cases text : Nat.toDigits 10 k with
    | nil => rfl
    | cons c rest =>
      have first := digits c (text ▸ List.mem_cons_self)
      exact List.dropWhile_cons_of_neg (by simp [first])
  have all : (Nat.toDigits 10 k).takeWhile isDigit = Nat.toDigits 10 k := List.takeWhile_eq_self_iff.mpr digits
  have letters : ∀ c ∈ ['e', 't', 'h'], (!isDigit c) = true := by decide +kernel
  have first : firstNumber ('e' :: 't' :: 'h' :: Nat.toDigits 10 k) = Nat.toDigits 10 k := by
    have parts : 'e' :: 't' :: 'h' :: Nat.toDigits 10 k = ['e', 't', 'h'] ++ Nat.toDigits 10 k := rfl
    rw [firstNumber, parts, List.dropWhile_append_of_pos letters, dropped, all]
  rw [number, toList_numbered, first, intOf_toDigits]

theorem numbered_injective {j k : Nat} (h : numbered j = numbered k) : j = k := by
  have numbers := congrArg number h
  rwa [number_numbered, number_numbered] at numbers

theorem dotless_numbered (k : Nat) : Dotless (numbered k) := by
  intro dot
  rw [toList_numbered] at dot
  have digit : '.' ∈ Nat.toDigits 10 k := by simpa using dot
  have ascii : '.'.isDigit = true := Nat.isDigit_of_mem_toDigits (by decide) (by decide) digit
  exact absurd ascii (by decide)

theorem dotless_safe (card : String) : Dotless (getSafeInterfaceName card) := by
  rw [getSafeInterfaceName]
  split
  · exact dotless_numbered 0
  · intro dot
    rw [String.toList_append] at dot
    rcases List.mem_append.mp dot with lead | digits
    · exact absurd lead (by decide)
    · rw [String.toList_ofList, firstNumber] at digits
      exact absurd (List.mem_takeWhile_imp digits) (by decide +kernel)

theorem not_isVmwareName_eth {name s : List Char} (lead : name <+: 'e' :: 't' :: 'h' :: s) :
    isVmwareName name = false := by
  have start : upToEnd name <+: 'e' :: 't' :: 'h' :: s := by
    rw [upToEnd]
    split
    · exact (List.dropLast_prefix name).trans lead
    · exact lead
  have front (n : Nat) : ∃ m, (upToEnd name).take n = ('e' :: 't' :: 'h' :: s).take m := by
    rw [List.prefix_iff_eq_take.mp start, List.take_take]
    exact ⟨_, rfl⟩
  have ens : ((upToEnd name).take 3).map foldCase ≠ "ens".toList := by
    obtain ⟨m, text⟩ := front 3
    rw [text]
    rcases m with - | - | m
    · simp
    · simp
    · intro same
      have second : foldCase 't' = 'n' := (List.cons.inj (List.cons.inj same).2).1
      exact absurd second (by decide)
  have vmnic : ((upToEnd name).take 5).map foldCase ≠ "vmnic".toList := by
    obtain ⟨m, text⟩ := front 5
    rw [text]
    rcases m with - | m
    · simp
    · intro same
      have first : foldCase 'e' = 'v' := (List.cons.inj same).1
      exact absurd first (by decide)
  simp only [isVmwareName, ens, vmnic, decide_false, Bool.false_and, Bool.or_self]

theorem not_needsInterfaceRename_eth (s : String) : needsInterfaceRename ("eth" ++ s) = false := by
  have text : ("eth" ++ s).toList = 'e' :: 't' :: 'h' :: s.toList := by simp
  have space : lstrip ('e' :: 't' :: 'h' :: s.toList) = 'e' :: 't' :: 'h' :: s.toList :=
    List.dropWhile_cons_of_neg (by decide)
  rw [needsInterfaceRename, text, strip, space]
  exact not_isVmwareName_eth (List.rdropWhile_prefix _ _)

theorem dotless_of_needsInterfaceRename {card : String} (h : needsInterfaceRename card = true) : Dotless card := by
  have core := not_mem_of_isVmwareName (c := '.') (by decide) (by decide +kernel) (by decide) h
  intro dot
  apply core
  -- a dot is no white space, so it is not stripped
  have left : '.' ∈ lstrip card.toList := by
    have parts : '.' ∈ card.toList.takeWhile isSpace ++ card.toList.dropWhile isSpace := by
      rwa [List.takeWhile_append_dropWhile]
    rcases List.mem_append.mp parts with space | rest
    · exact absurd (List.mem_takeWhile_imp space) (by decide)
    · exact rest
  have parts : '.' ∈ (lstrip card.toList).rdropWhile isSpace ++ (lstrip card.toList).rtakeWhile isSpace := by
    rwa [List.rdropWhile_append_rtakeWhile]
  rcases List.mem_append.mp parts with kept | space
  · exact kept
  · exact absurd (List.mem_rtakeWhile_imp space) (by decide)

end numbers

section planning

variable {names earlier : List String} {card : String}

/-- The name a card is given where `used` are taken. -/
def newName (used : List String) (card : String) : String :=
  if getSafeInterfaceName card ∈ used then avoidConflict used (getSafeInterfaceName card) else getSafeInterfaceName card

/-- The plan once these cards, the last one first, have had their turn. -/
def planned (names : List String) : List String → List (String × String) × List String
  | [] => ([], names)
  | card :: earlier => planRename (planned names earlier) (card, .ethernet)

theorem exists_eth_safe (card : String) : ∃ s, getSafeInterfaceName card = "eth" ++ s := by
  rw [getSafeInterfaceName]
  split
  · exact ⟨"0", rfl⟩
  · exact ⟨_, rfl⟩

theorem avoidConflict_eq (used : List String) (new : String) :
    avoidConflict used new =
      (((List.range 32).map fun k => numbered (number new + k)).find? fun cand => decide (cand ∉ used)).getD new := rfl

/-- The conflict is avoided by the first number of the window that is not in use, or not at all. -/
theorem avoidConflict_cases (used : List String) (new : String) :
    (avoidConflict used new = new ∧ ∀ k < 32, numbered (number new + k) ∈ used) ∨
      ∃ k < 32, avoidConflict used new = numbered (number new + k) ∧ numbered (number new + k) ∉ used ∧
        ∀ j < k, numbered (number new + j) ∈ used := by
  rw [avoidConflict_eq, List.find?_map]
  cases found : List.find? _ (List.range 32) with
  | none =>
    refine .inl ⟨rfl, fun k hk => ?_⟩
    have taken := List.find?_eq_none.mp found k (List.mem_range.mpr hk)
    simpa using taken
  | some k =>
    obtain ⟨fresh, before⟩ := List.find?_range_eq_some.mp found
    refine .inr ⟨k, List.mem_range.mp before.1, rfl, by simpa using fresh, fun j hj => ?_⟩
    have taken := before.2 j hj
    simpa using taken

theorem newName_cases (used : List String) (card : String) :
    newName used card = getSafeInterfaceName card ∨ ∃ k, newName used card = numbered k := by
  rw [newName]
  split
  · rcases avoidConflict_cases used (getSafeInterfaceName card) with ⟨same, -⟩ | ⟨k, -, number, -⟩
    · exact .inl same
    · exact .inr ⟨_, number⟩
  · exact .inl rfl

theorem dotless_newName (used : List String) (card : String) : Dotless (newName used card) := by
  rcases newName_cases used card with safe | ⟨k, number⟩
  · rw [safe]
    exact dotless_safe card
  · rw [number]
    exact dotless_numbered k

theorem not_needsInterfaceRename_newName (used : List String) (card : String) :
    needsInterfaceRename (newName used card) = false := by
  rcases newName_cases used card with safe | ⟨k, number⟩
  · obtain ⟨s, eth⟩ := exists_eth_safe card
    rw [safe, eth]
    exact not_needsInterfaceRename_eth s
  · rw [number]
    exact not_needsInterfaceRename_eth _

theorem planned_cons (vmware : needsInterfaceRename card = true) :
    planned names (card :: earlier) =
      ((planned names earlier).1 ++ [(card, newName (planned names earlier).2 card)],
        newName (planned names earlier).2 card :: (planned names earlier).2) := by
  have safe : getSafeInterfaceName card ≠ card := by
    intro same
    obtain ⟨s, eth⟩ := exists_eth_safe card
    rw [← same, eth, not_needsInterfaceRename_eth] at vmware
    cases vmware
  have other : card ≠ newName (planned names earlier).2 card := by
    intro same
    rw [same, not_needsInterfaceRename_newName] at vmware
    cases vmware
  have chosen : (if getSafeInterfaceName card ∈ (planned names earlier).2 ∧ getSafeInterfaceName card ≠ card then
      avoidConflict (planned names earlier).2 (getSafeInterfaceName card) else getSafeInterfaceName card) =
      newName (planned names earlier).2 card := by simp [newName, safe]
  rw [planned, planRename]
  simp only [chosen, vmware]
  simp [other]

theorem foldl_planRename (nodes : List (String × DeviceKind)) (names : List String) :
    nodes.foldl planRename ([], names) = planned names ((nodes.filter isCard).map Prod.fst).reverse := by
  induction nodes using List.reverseRecOn with
  | nil => rfl
  | append_singleton nodes node ih =>
    rw [List.foldl_append, ih, List.filter_append, List.map_append, List.reverse_append]
    by_cases card : isCard node = true
    · have kind : ¬(node.2 ≠ .ethernet ∧ node.2 ≠ .unknown) := by
        simp only [isCard, Bool.and_eq_true, Bool.or_eq_true, decide_eq_true_eq] at card
        intro no
        exact card.1.elim no.1 no.2
      simp [card, planned, planRename, kind]
    · have stays : (node.2 ≠ .ethernet ∧ node.2 ≠ .unknown) ∨ (!needsInterfaceRename node.1) = true := by
        simp only [isCard, Bool.and_eq_true, Bool.or_eq_true, decide_eq_true_eq, not_and] at card
        by_cases kind : node.2 = .ethernet ∨ node.2 = .unknown
        · exact .inr (by simpa using card kind)
        · exact .inl (not_or.mp kind)
      simp only [List.foldl_cons, List.foldl_nil, planRename]
      rw [if_pos stays]
      simp [card]

/-- What is taken, once these cards have had their turn: numbers that are not free and safe names of another form. -/
structure Taken (names earlier : List String) : Prop where
  numbers : ∀ k, numbered k ∈ (planned names earlier).2 ↔ ¬Free (asks names earlier) k
  others : ∀ s, s ≠ numbered (number s) →
    (s ∈ (planned names earlier).2 ↔ s ∈ names ∨ s ∈ earlier.map getSafeInterfaceName)

theorem taken_nil (names : List String) (distinct : names.Nodup) : Taken names [] where
  numbers k := by
    have inj : ∀ m ∈ names.filter (fun n => n = numbered (number n)),
        ∀ n ∈ names.filter (fun n => n = numbered (number n)), number m = number n → m = n := by
      intro m hm n hn same
      have formM : m = numbered (number m) := by simpa using (List.mem_filter.mp hm).2
      have formN : n = numbered (number n) := by simpa using (List.mem_filter.mp hn).2
      rw [formM, formN, same]
    have nodup : (asks names []).Nodup := (List.nodup_map_iff_inj_on (distinct.filter _)).mpr inj
    rw [free_iff_not_mem nodup, not_not]
    constructor
    · intro member
      have kept : numbered k ∈ names.filter (fun n => n = numbered (number n)) := by
        rw [List.mem_filter, number_numbered]
        exact ⟨member, by simp⟩
      have listed := List.mem_map_of_mem (f := number) kept
      rwa [number_numbered] at listed
    · intro member
      obtain ⟨n, hn, rfl⟩ := List.mem_map.mp member
      obtain ⟨hn, form⟩ := List.mem_filter.mp hn
      have form : n = numbered (number n) := by simpa using form
      exact form ▸ hn
  others s _ := by simp [planned]

/-- How a card comes by its name: it keeps the safe one, or is given the first free number, or there is none in reach. -/
theorem newName_spec (taken : Taken names earlier) (card : String) :
    (¬Asks names earlier card ∧ newName (planned names earlier).2 card = getSafeInterfaceName card ∧
        getSafeInterfaceName card ∉ (planned names earlier).2) ∨
      (∃ k, Asks names earlier card ∧ FirstFree (asks names earlier) (number (getSafeInterfaceName card)) k ∧
        k < number (getSafeInterfaceName card) + 32 ∧ newName (planned names earlier).2 card = numbered k) ∨
      (Asks names earlier card ∧ newName (planned names earlier).2 card ∈ (planned names earlier).2 ∧
        ∀ k, number (getSafeInterfaceName card) ≤ k → k < number (getSafeInterfaceName card) + 32 →
          ¬Free (asks names earlier) k) := by
  by_cases gone : getSafeInterfaceName card ∈ (planned names earlier).2
  · have asking : Asks names earlier card := by
      by_cases form : getSafeInterfaceName card = numbered (number (getSafeInterfaceName card))
      · exact .inl form
      · exact .inr ((taken.others _ form).mp gone)
    have chosen : newName (planned names earlier).2 card =
        avoidConflict (planned names earlier).2 (getSafeInterfaceName card) := if_pos gone
    rcases avoidConflict_cases (planned names earlier).2 (getSafeInterfaceName card) with
      ⟨same, full⟩ | ⟨k, window, found, fresh, before⟩
    · refine .inr (.inr ⟨asking, ?_, fun j lower upper => ?_⟩)
      · rwa [chosen, same]
      · have used := full (j - number (getSafeInterfaceName card)) (by omega)
        rw [Nat.add_sub_cancel' lower] at used
        exact (taken.numbers j).mp used
    · refine .inr (.inl ⟨_, asking, ⟨by omega, ?_, fun j lower upper => ?_⟩, by omega, chosen.trans found⟩)
      · by_contra full
        exact fresh ((taken.numbers _).mpr full)
      · have used := before (j - number (getSafeInterfaceName card)) (by omega)
        rw [Nat.add_sub_cancel' lower] at used
        exact (taken.numbers j).mp used
  · have chosen : newName (planned names earlier).2 card = getSafeInterfaceName card := if_neg gone
    by_cases form : getSafeInterfaceName card = numbered (number (getSafeInterfaceName card))
    · refine .inr (.inl ⟨number (getSafeInterfaceName card), .inl form, Free.firstFree ?_, by omega, chosen.trans form⟩)
      by_contra full
      have used := (taken.numbers _).mpr full
      rw [← form] at used
      exact gone used
    · refine .inl ⟨?_, chosen, gone⟩
      rintro (own | other)
      · exact form own
      · exact gone ((taken.others _ form).mpr other)

theorem Taken.fresh_of_firstFree (taken : Taken names earlier) {n k : Nat} (first : FirstFree (asks names earlier) n k) :
    numbered k ∉ (planned names earlier).2 := by
  intro used
  exact (taken.numbers k).mp used first.2.1

/-- A card whose name was free takes just that name. -/
theorem Taken.cons (taken : Taken names earlier) (vmware : needsInterfaceRename card = true)
    (fresh : newName (planned names earlier).2 card ∉ (planned names earlier).2) : Taken names (card :: earlier) := by
  have used : (planned names (card :: earlier)).2 =
      newName (planned names earlier).2 card :: (planned names earlier).2 := by rw [planned_cons vmware]
  rcases newName_spec taken card with ⟨quiet, chosen, -⟩ | ⟨k, asking, first, -, chosen⟩ | ⟨-, gone, -⟩
  · have form : getSafeInterfaceName card ≠ numbered (number (getSafeInterfaceName card)) := fun same => quiet (.inl same)
    have same : asks names (card :: earlier) = asks names earlier := if_neg quiet
    refine ⟨fun k => ?_, fun s plain => ?_⟩
    · have other : numbered k ≠ getSafeInterfaceName card := by
        intro same
        rw [← same, number_numbered] at form
        exact form rfl
      rw [used, chosen, same, ← taken.numbers k, List.mem_cons]
      simp [other]
    · rw [used, chosen, List.mem_cons, taken.others s plain, List.map_cons, List.mem_cons]
      exact or_left_comm
  · have more : asks names (card :: earlier) = number (getSafeInterfaceName card) :: asks names earlier := if_pos asking
    refine ⟨fun j => ?_, fun s plain => ?_⟩
    · have one : numbered j = numbered k ↔ j = k := ⟨numbered_injective, congrArg numbered⟩
      rw [used, chosen, more, first.free_cons, List.mem_cons, one, taken.numbers j, not_and_or, not_not]
      exact or_comm
    · have other : s ≠ numbered k := by
        rintro rfl
        rw [number_numbered] at plain
        exact plain rfl
      have listed : s = getSafeInterfaceName card → s ∈ names ∨ s ∈ earlier.map getSafeInterfaceName := by
        rintro rfl
        exact asking.resolve_left plain
      rw [used, chosen, List.mem_cons, taken.others s plain, List.map_cons, List.mem_cons]
      constructor
      · rintro (same | there | later)
        · exact absurd same other
        · exact .inl there
        · exact .inr (.inr later)
      · rintro (there | same | later)
        · exact .inr (.inl there)
        · exact .inr (listed same)
        · exact .inr (.inr later)
  · exact absurd gone fresh

theorem finds_iff {topo : TopologyGraph} {earlier : List String} (taken : Taken (topo.nodes.map Prod.fst) earlier)
    (card : String) :
    topo.Finds earlier card ↔
      newName (planned (topo.nodes.map Prod.fst) earlier).2 card ∉ (planned (topo.nodes.map Prod.fst) earlier).2 ∧
        topo.Unseen card (newName (planned (topo.nodes.map Prod.fst) earlier).2 card) := by
  rw [Finds]
  rcases newName_spec taken card with ⟨quiet, chosen, fresh⟩ | ⟨k, asking, first, window, chosen⟩ | ⟨asking, gone, full⟩
  · rw [if_neg quiet, chosen]
    exact ⟨fun unseen => ⟨fresh, unseen⟩, fun h => h.2⟩
  · rw [if_pos asking, chosen]
    constructor
    · rintro ⟨j, other, -, unseen⟩
      rw [other.unique first] at unseen
      exact ⟨taken.fresh_of_firstFree first, unseen⟩
    · exact fun h => ⟨k, first, window, h.2⟩
  · rw [if_pos asking]
    constructor
    · rintro ⟨k, first, window, -⟩
      exact absurd first.2.1 (full k first.1 window)
    · exact fun h => absurd gone h.1

end planning

section room

variable {topo : TopologyGraph}

/-- The renames planned for these cards are distinct and out of the way. -/
def Fit (topo : TopologyGraph) (earlier : List String) : Prop :=
  ((planned (topo.nodes.map Prod.fst) earlier).1.map Prod.snd).Nodup ∧
    ∀ p ∈ (planned (topo.nodes.map Prod.fst) earlier).1, topo.Unseen p.1 p.2

theorem mem_used_iff {names earlier : List String} (vmware : ∀ card ∈ earlier, needsInterfaceRename card = true)
    (name : String) :
    name ∈ (planned names earlier).2 ↔ name ∈ names ∨ name ∈ (planned names earlier).1.map Prod.snd := by
  induction earlier with
  | nil => simp [planned]
  | cons card earlier ih =>
    obtain ⟨here, others⟩ := List.forall_mem_cons.mp vmware
    rw [planned_cons here, List.mem_cons, ih others, List.map_append, List.mem_append]
    simp only [List.map_cons, List.map_nil, List.mem_singleton]
    constructor
    · rintro (new | there | later)
      · exact .inr (.inr new)
      · exact .inl there
      · exact .inr (.inl later)
    · rintro (there | later | new)
      · exact .inr (.inl there)
      · exact .inr (.inr later)
      · exact .inl new

theorem fit_cons {earlier : List String} {card : String}
    (vmware : ∀ c ∈ card :: earlier, needsInterfaceRename c = true) :
    topo.Fit (card :: earlier) ↔ topo.Fit earlier ∧
      newName (planned (topo.nodes.map Prod.fst) earlier).2 card ∉ (planned (topo.nodes.map Prod.fst) earlier).2 ∧
        topo.Unseen card (newName (planned (topo.nodes.map Prod.fst) earlier).2 card) := by
  obtain ⟨here, others⟩ := List.forall_mem_cons.mp vmware
  have names {new : String} (unseen : topo.Unseen card new) : new ∉ topo.nodes.map Prod.fst := fun member =>
    unseen.1 (List.mem_append_left _ member)
  rw [Fit, planned_cons here, Fit, mem_used_iff others, List.map_append]
  simp only [List.map_cons, List.map_nil, List.forall_mem_append, List.forall_mem_singleton]
  rw [List.nodup_append_comm, List.singleton_append, List.nodup_cons]
  constructor
  · rintro ⟨⟨fresh, distinct⟩, all, unseen⟩
    exact ⟨⟨distinct, all⟩, fun used => used.elim (names unseen) fresh, unseen⟩
  · rintro ⟨⟨distinct, all⟩, fresh, unseen⟩
    exact ⟨⟨fun used => fresh (.inr used), distinct⟩, all, unseen⟩

theorem fit_iff (topo : Topology) {earlier : List String} (vmware : ∀ c ∈ earlier, needsInterfaceRename c = true) :
    (topo.Fit earlier ↔ topo.RoomFor earlier) ∧ (topo.Fit earlier → Taken (topo.nodes.map Prod.fst) earlier) := by
  induction earlier with
  | nil =>
    have fit : topo.Fit [] := by simp [Fit, planned]
    exact ⟨iff_of_true fit trivial, fun _ => taken_nil _ topo.names_nodup⟩
  | cons card earlier ih =>
    obtain ⟨here, others⟩ := List.forall_mem_cons.mp vmware
    obtain ⟨same, taken⟩ := ih others
    rw [fit_cons vmware, RoomFor, ← same]
    constructor
    · exact and_congr_right fun fit => (finds_iff (taken fit) card).symm
    · exact fun h => (taken h.1).cons here h.2.1

theorem map_fst_planned {names earlier : List String} (vmware : ∀ c ∈ earlier, needsInterfaceRename c = true) :
    (planned names earlier).1.map Prod.fst = earlier.reverse := by
  induction earlier with
  | nil => rfl
  | cons card earlier ih =>
    obtain ⟨here, others⟩ := List.forall_mem_cons.mp vmware
    rw [planned_cons here, List.map_append, ih others, List.reverse_cons]
    rfl

theorem newName_of_mem_planned {names earlier : List String} (vmware : ∀ c ∈ earlier, needsInterfaceRename c = true) :
    ∀ p ∈ (planned names earlier).1, ∃ used, p.2 = newName used p.1 := by
  induction earlier with
  | nil => simp [planned]
  | cons card earlier ih =>
    obtain ⟨here, others⟩ := List.forall_mem_cons.mp vmware
    rw [planned_cons here]
    intro p hp
    rcases List.mem_append.mp hp with old | new
    · exact ih others p old
    · rw [List.mem_singleton.mp new]
      exact ⟨_, rfl⟩

end room

/-- The names of a graph stay apart exactly if there is room for the new ones. -/
theorem renamesApart_iff (topo : Topology) : topo.RenamesApart ↔ topo.Roomy := by
  have vmware : ∀ c ∈ topo.cards.reverse, needsInterfaceRename c = true := by
    intro c hc
    obtain ⟨node, hnode, rfl⟩ := List.mem_map.mp (List.mem_reverse.mp hc)
    have card := (List.mem_filter.mp hnode).2
    rw [isCard, Bool.and_eq_true] at card
    exact card.2
  let rename := (planned (topo.nodes.map Prod.fst) topo.cards.reverse).1
  have keys : rename.map Prod.fst = topo.cards := by rw [map_fst_planned vmware, List.reverse_reverse]
  have card {p : String × String} (hp : p ∈ rename) : p.1 ∈ topo.cards := keys ▸ List.mem_map_of_mem hp
  have old {p : String × String} (hp : p ∈ rename) : needsInterfaceRename p.1 = true :=
    vmware p.1 (List.mem_reverse.mpr (card hp))
  have plan : Planned rename := by
    refine ⟨?_, fun p hp => ⟨dotless_of_needsInterfaceRename (old hp), ?_⟩⟩
    · rw [keys]
      exact topo.names_nodup.sublist (List.filter_sublist.map Prod.fst)
    · obtain ⟨used, new⟩ := newName_of_mem_planned vmware p hp
      rw [new]
      exact dotless_newName used p.1
  have known : ∀ p ∈ rename, p.1 ∈ topo.seen := by
    intro p hp
    obtain ⟨node, hnode, same⟩ := List.mem_map.mp (card hp)
    rw [← same]
    exact List.mem_append_left _ (List.mem_map_of_mem (List.mem_of_mem_filter hnode))
  have fresh : ∀ p ∈ rename, ∀ q ∈ rename, p.2 ≠ q.1 := by
    intro p hp q hq same
    obtain ⟨used, new⟩ := newName_of_mem_planned vmware p hp
    have needs := old hq
    rw [← same, new, not_needsInterfaceRename_newName] at needs
    cases needs
  have map : topo.computeRenameMap .aggressive = topo.renameMapPropagate rename := by
    rw [computeRenameMap, if_neg (by simp), foldl_planRename]
    rfl
  rw [renamesApart_iff_injOn, map, injOn_iff plan known fresh]
  exact (fit_iff topo vmware).1

/-- A VLAN gets the name of another one when the card under it is renamed. -/
theorem not_renamesApart_vlan :
    ¬(⟨⟨[("ens192", .ethernet), ("ens192.100", .vlan), ("eth192.100", .vlan)], []⟩, by decide⟩ :
      Topology).RenamesApart := by
  intro apart
  have known : ∀ n ∈ ["ens192.100", "eth192.100"],
      n ∈ seen ⟨[("ens192", .ethernet), ("ens192.100", .vlan), ("eth192.100", .vlan)], []⟩ := by decide +kernel
  have same := apart.1 (known "ens192.100" (by decide)) (known "eth192.100" (by decide)) (by decide +kernel)
  exact absurd same (by decide)

end TopologyGraph

end renames

end H2kvm.Network
