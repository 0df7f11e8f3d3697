import Mathlib.Data.List.Basic
import H2kvm.Framework.Effects
import H2kvm.Framework.TreeWalk

namespace H2kvm.Framework.Purge

variable {σ α ω ν : Type*} (step : σ → α → σ × ω) (own : α → Bool)

/-- What the actions of one's own return in a run that others act in as well. -/
def readings (s : σ) : List α → List ω
  | [] => []
  | a :: as =>
    let rest := readings (step s a).1 as
    if own a then (step s a).2 :: rest else rest

/-- What one reads in a run is what one reads with everyone else's actions left out. -/
def Isolated (s : σ) (as : List α) : Prop := readings step own s as = readings step own s (as.filter own)

variable {step own}

theorem isolated_of_view (view : σ → ν) {as : List α} (others : ∀ s, ∀ a ∈ as, own a = false → view (step s a).1 = view s)
    (mine : ∀ s t a, own a = true → view s = view t →
      view (step s a).1 = view (step t a).1 ∧ (step s a).2 = (step t a).2) (s : σ) : Isolated step own s as := by
  have follows (t : σ) (same : view s = view t) : readings step own s as = readings step own t (as.filter own) := by
    induction as generalizing s t with
    | nil => rfl
    | cons a as ih =>
      have ih := ih fun s b mem => others s b (List.mem_cons_of_mem a mem)
      cases owner : own a with
      | true =>
        obtain ⟨next, out⟩ := mine s t a owner same
        rw [List.filter_cons_of_pos owner, readings, readings, owner, if_pos rfl, if_pos rfl, out, ih _ _ next]
      | false =>
        rw [List.filter_cons_of_neg (by simp [owner]), readings, owner, if_neg (by decide)]
        exact ih _ _ ((others s a List.mem_cons_self owner).trans same)
  exact follows s rfl

end H2kvm.Framework.Purge

namespace H2kvm.Framework.FileTree

open Paths

inductive Effect
  | created
  | overwritten
  | truncated
  | unlinked
  | chmodded (mode : Nat)
  deriving DecidableEq

/-- What was done, and the real path it was done at. -/
structure Change where
  effect : Effect
  location : Path
  deriving DecidableEq

structure Disk (δ : Type) where
  tree : Places δ
  log : List Change

/-- A system call. -/
abbrev Call (δ α : Type) := EStateM Errno (Disk δ) α

variable {δ : Type} (hops : Nat)

section calls

variable (t : Places δ) (p : Path)

/-- The real path of a name, where a link may stand. -/
def place : Except Errno Path :=
  match p.getLast? with
  | none => .ok []
  | some c =>
    if Proper c then
      match resolve .kernel t hops [] p.dropLast with
      | .ok r => if isDir t r then .ok (r ++ [c]) else .error (halt t r)
      | .error e => .error e
    else resolve .kernel t hops [] p

def lstat : Except Errno (Node δ) :=
  match place hops t p with
  | .ok r => (node t r).elim (.error .missing) .ok
  | .error e => .error e

def stat : Except Errno (Node δ) :=
  match resolve .kernel t hops [] p with
  | .ok r => (node t r).elim (.error .missing) .ok
  | .error e => .error e

/-- `Path.exists`. -/
def isPresent : Bool := (stat hops t p).toBool

/-- `Path.is_symlink`. -/
def isSymlink : Bool :=
  match lstat hops t p with
  | .ok (.link _ _) => true
  | _ => false

/-- `Path.is_dir`. -/
def isDirectory : Bool :=
  match stat hops t p with
  | .ok .dir => true
  | _ => false

/-- The content of a regular file. -/
def content : Option δ :=
  match stat hops t p with
  | .ok (.file data) => some data
  | _ => none

end calls

/-- One entry is written, or taken away. -/
def Disk.put (d : Disk δ) (p : Path) (n : Node δ) (e : Effect) : Disk δ := ⟨d.tree.insert p n, d.log ++ [⟨e, p⟩]⟩

def Disk.drop (d : Disk δ) (p : Path) : Disk δ := ⟨d.tree.erase p, d.log ++ [⟨.unlinked, p⟩]⟩

def Disk.note (d : Disk δ) (p : Path) (e : Effect) : Disk δ := ⟨d.tree, d.log ++ [⟨e, p⟩]⟩

/-- `os.mkdir`. -/
def mkdir (p : Path) : Call δ Unit := fun d =>
  match place hops d.tree p with
  | .error e => .error e d
  | .ok r => if (node d.tree r).isSome then .error .present d else .ok () (d.put r .dir .created)

/-- `os.open` with `O_CREAT | O_EXCL`. -/
def openNew [Inhabited δ] (p : Path) : Call δ Path := fun d =>
  match place hops d.tree p with
  | .error e => .error e d
  | .ok r => if (node d.tree r).isSome then .error .present d else .ok r (d.put r (.file default) .created)

/-- `os.open` with `O_CREAT | O_TRUNC`, and with `O_NOFOLLOW` if links are not followed. -/
def openOver [Inhabited δ] (follows : Bool) (p : Path) : Call δ Path := fun d =>
  match if follows then resolve .kernel d.tree hops [] p else place hops d.tree p with
  | .error e => .error e d
  | .ok r =>
    match node d.tree r with
    | none => .ok r (d.put r (.file default) .created)
    | some .dir => .error .isDirectory d
    | some (.link _ _) => .error .loop d
    | some (.file _) => .ok r (d.put r (.file default) .truncated)
    | some .special => .ok r (d.note r .truncated)

/-- Writes through an open descriptor. -/
def write (r : Path) (data : δ) : Call δ Unit := fun d =>
  match node d.tree r with
  | some (.file _) => .ok () (d.put r (.file data) .overwritten)
  | _ => .ok () (d.note r .overwritten)

/-- `os.unlink`. -/
def unlink (p : Path) : Call δ Unit := fun d =>
  match place hops d.tree p with
  | .error e => .error e d
  | .ok r =>
    if (node d.tree r).isNone then .error .missing d
    else if isDir d.tree r then .error .isDirectory d
    else .ok () (d.drop r)

/-- `os.replace` of what is no directory. -/
def replace (p q : Path) : Call δ Unit := fun d =>
  match place hops d.tree p, place hops d.tree q with
  | .error e, _ | .ok _, .error e => .error e d
  | .ok r, .ok s =>
    match node d.tree r with
    | none => .error .missing d
    | some n =>
      if isDir d.tree r || isDir d.tree s then .error .isDirectory d
      else if r = s then .ok () d
      else .ok () ((d.put s n (if (node d.tree s).isSome then .overwritten else .created)).drop r)

/-- `os.chmod`. -/
def chmod (p : Path) (mode : Nat) : Call δ Unit := fun d =>
  match resolve .kernel d.tree hops [] p with
  | .error e => .error e d
  | .ok r => if (node d.tree r).isSome then .ok () (d.note r (.chmodded mode)) else .error .missing d

/-- `os.mkdir`, where a directory may be there before. -/
def mkdirOnce (p : Path) : Call δ Unit :=
  tryCatch (mkdir hops p) fun e => do
    let d ← get
    require (e ≠ .missing && isDirectory hops d.tree p) e

/-- `Path.mkdir` with `parents` and `exist_ok`, of a path by its components from the last on. -/
def mkdirUp : Path → Call δ Unit
  | [] => mkdirOnce hops []
  | c :: above =>
    tryCatch (mkdirOnce hops (c :: above).reverse) fun e =>
      if e = .missing then do
        mkdirUp above
        mkdirOnce hops (c :: above).reverse
      else throw e

def mkdirs (p : Path) : Call δ Unit := mkdirUp hops p.reverse

/-- `tempfile.mkstemp`, which tries one name after another. -/
def mkstemp [Inhabited δ] (dir : Path) : List (List Char) → Call δ Path
  | [] => throw .present
  | name :: names =>
    tryCatch (openNew hops (dir ++ [name])) fun e => if e = .present then mkstemp dir names else throw e

/-- From one state of a disk on to another: nothing has changed but at or below a directory, no directory is gone
and no link or device is new. `drops` allows links to be taken away. -/
structure Onward (drops : Bool) (dir : Path) (d d' : Disk δ) : Prop where
  odd : ∀ q n, node d'.tree q = some n → n.odd = true → node d.tree q = some n
  dirs : ∀ q, isDir d.tree q = true → isDir d'.tree q = true
  outer : ∀ q, ¬ dir <+: q → node d'.tree q = node d.tree q
  links : drops = false → ∀ q, link? d'.tree q = link? d.tree q
  log : ∃ new, d'.log = d.log ++ new ∧ ∀ c ∈ new, dir <+: c.location

/-- A directory there is, reached by directories. -/
structure Ground (t : Places δ) (dir : Path) : Prop where
  normal : Normal dir
  rooted : Rooted t dir
  isDir : isDir t dir = true

/-- A name whose place is at or below a directory. -/
structure Secure (t : Places δ) (dir p : Path) : Prop where
  normal : Normal p
  unlinked : Unlinked t p.dropLast
  inside : dir <+: p

variable {hops} {drops : Bool} {dir p q r : Path} {d d' d'' : Disk δ} {t : Places δ} {n : Node δ} {e : Effect}

theorem node_insert (named : p ≠ []) : node (t.insert p n) q = if q = p then some n else node t q := by
  unfold node
  by_cases same : q = p
  · subst same
    rw [if_neg named, if_pos rfl, AList.lookup_insert]
  · rw [if_neg same, AList.lookup_insert_ne same]

theorem node_erase (named : p ≠ []) : node (t.erase p) q = if q = p then none else node t q := by
  unfold node
  by_cases same : q = p
  · subst same
    rw [if_neg named, if_pos rfl, AList.lookup_erase]
  · rw [if_neg same, AList.lookup_erase_ne same]

theorem ne_nil_of_not_dir (nodir : isDir t p = false) : p ≠ [] := by
  intro empty
  rw [empty, isDir_root] at nodir
  cases nodir

namespace Onward

theorem refl (d : Disk δ) : Onward drops dir d d :=
  ⟨fun _ _ found _ => found, fun _ dir => dir, fun _ _ => rfl, fun _ _ => rfl, [], (List.append_nil _).symm, by simp⟩

theorem trans (first : Onward drops dir d d') (second : Onward drops dir d' d'') : Onward drops dir d d'' := by
  obtain ⟨new, grown, inside⟩ := first.log
  obtain ⟨new', grown', inside'⟩ := second.log
  refine ⟨?_, ?_, ?_, ?_, new ++ new', ?_, ?_⟩
  · intro q n found isOdd
    exact first.odd q n (second.odd q n found isOdd) isOdd
  · exact fun q isDir => second.dirs q (first.dirs q isDir)
  · exact fun q outside => (second.outer q outside).trans (first.outer q outside)
  · exact fun keeps q => (second.links keeps q).trans (first.links keeps q)
  · rw [grown', grown, List.append_assoc]
  · intro c member
    rcases List.mem_append.mp member with old | late
    · exact inside c old
    · exact inside' c late

instance : IsPreorder (Disk δ) (Onward drops dir) where
  refl := refl
  trans _ _ _ := trans

theorem link_none (onward : Onward drops dir d d') (plain : link? d.tree q = none) : link? d'.tree q = none := by
  unfold link?
  split
  · next absolute target found =>
    have was := onward.odd q _ found rfl
    rw [link?, was] at plain
    cases plain
  · rfl

/-- Where a file was, no link or device is put. -/
theorem not_odd_of_file {data : δ} (onward : Onward drops dir d d') (was : node d.tree q = some (.file data))
    (found : node d'.tree q = some n) : n.odd = false := by
  cases odd : n.odd with
  | false => rfl
  | true =>
    have same := onward.odd q n found odd
    rw [was] at same
    cases same
    cases odd

theorem unlinked (onward : Onward drops dir d d') (was : Unlinked d.tree p) : Unlinked d'.tree p := fun q above =>
  onward.link_none (was q above)

theorem rooted (onward : Onward drops dir d d') (was : Rooted d.tree p) : Rooted d'.tree p := fun q above differ =>
  onward.dirs q (was q above differ)

theorem ground (onward : Onward drops dir d d') (was : Ground d.tree r) : Ground d'.tree r :=
  ⟨was.normal, onward.rooted was.rooted, onward.dirs r was.isDir⟩

theorem secure (onward : Onward drops dir d d') (was : Secure d.tree r p) : Secure d'.tree r p :=
  ⟨was.normal, onward.unlinked was.unlinked, was.inside⟩

theorem widen (inside : dir <+: r) (onward : Onward drops r d d') : Onward drops dir d d' := by
  obtain ⟨new, grown, below⟩ := onward.log
  refine ⟨onward.odd, onward.dirs, ?_, onward.links, new, grown, fun c member => inside.trans (below c member)⟩
  exact fun q outside => onward.outer q fun deeper => outside (inside.trans deeper)

/-- One place at or below the directory changes, and becomes no link. -/
theorem change {new : Option (Node δ)} (found : ∀ q, node d'.tree q = if q = p then new else node d.tree q)
    (logged : d'.log = d.log ++ [⟨e, p⟩]) (inside : dir <+: p) (plain : ∀ n, new = some n → n.odd = false)
    (nodir : isDir d.tree p = false) (kept : drops = false → link? d.tree p = none) : Onward drops dir d d' := by
  refine ⟨?_, ?_, ?_, ?_, [⟨e, p⟩], logged, by simpa using inside⟩
  · intro q n there isOdd
    rw [found] at there
    split at there
    · rw [plain n there] at isOdd
      cases isOdd
    · exact there
  · intro q was
    have other : q ≠ p := by
      intro same
      rw [same, nodir] at was
      cases was
    rw [isDir, found, if_neg other]
    exact was
  · intro q outside
    have other : q ≠ p := fun same => outside (same ▸ inside)
    rw [found, if_neg other]
  · intro keeps q
    rw [link?, found]
    by_cases same : q = p
    · rw [if_pos same, same, kept keeps]
      split
      · next absolute target => cases plain _ rfl
      · rfl
    · rw [if_neg same]
      rfl

theorem put (inside : dir <+: p) (plain : n.odd = false) (nodir : isDir d.tree p = false)
    (kept : drops = false → link? d.tree p = none) : Onward drops dir d (d.put p n e) := by
  refine change (fun _ => node_insert (ne_nil_of_not_dir nodir)) rfl inside ?_ nodir kept
  intro m same
  cases same
  exact plain

theorem drop (inside : dir <+: p) (nodir : isDir d.tree p = false)
    (kept : drops = false → link? d.tree p = none) : Onward drops dir d (d.drop p) :=
  change (fun _ => node_erase (ne_nil_of_not_dir nodir)) rfl inside nofun nodir kept

theorem note (inside : dir <+: p) : Onward drops dir d (d.note p e) :=
  ⟨fun _ _ found _ => found, fun _ was => was, fun _ _ => rfl, fun _ _ => rfl, [⟨e, p⟩], rfl, by simpa using inside⟩

end Onward

section specs

theorem isDir_of_none (free : node t p = none) : isDir t p = false := by rw [isDir, free]

theorem link?_of_none (free : node t p = none) : link? t p = none := by rw [link?, free]

/-- A walk of plain names ends where they say. -/
theorem eq_of_resolve {m : Manner} (normal : Normal p) (unlinked : Unlinked t p)
    (walked : resolve m t hops [] p = .ok r) : r = p := by
  have plain : resolve .lenient t hops [] p = .ok p := resolve_plain normal unlinked nofun
  exact resolve_unique (Simulates.lenient m t) walked plain

theorem Secure.eq_place (secure : Secure t dir p) (placed : place hops t p = .ok r) : r = p := by
  unfold place at placed
  cases last : p.getLast? with
  | none =>
    rw [last] at placed
    cases placed
    exact (List.getLast?_eq_none_iff.mp last).symm
  | some c =>
    have split : p.dropLast ++ [c] = p := List.dropLast_append_getLast? c last
    have proper : Proper c := secure.normal c (List.mem_of_getLast? last)
    rw [last] at placed
    dsimp only at placed
    rw [if_pos proper] at placed
    cases walked : resolve .kernel t hops [] p.dropLast with
    | error e =>
      rw [walked] at placed
      cases placed
    | ok s =>
      rw [walked] at placed
      dsimp only at placed
      have there : s = p.dropLast := eq_of_resolve secure.normal.dropLast secure.unlinked walked
      split at placed
      · cases placed
        rw [there, split]
      · cases placed

theorem Secure.of_unlinked (normal : Normal p) (unlinked : Unlinked t p) (inside : dir <+: p) : Secure t dir p :=
  ⟨normal, unlinked.of_above (List.dropLast_prefix p), inside⟩

theorem mkdir_onward (secure : Secure d.tree dir p) : Onward drops dir d (endState (mkdir hops p) d) := by
  unfold endState mkdir
  cases placed : place hops d.tree p with
  | error e => exact .refl d
  | ok r =>
    obtain rfl := secure.eq_place placed
    dsimp only
    cases free : node d.tree r with
    | some n => exact .refl d
    | none => exact .put secure.inside rfl (isDir_of_none free) fun _ => link?_of_none free

theorem mkdirOnce_onward (secure : Secure d.tree dir p) : Onward drops dir d (endState (mkdirOnce hops p) d) := by
  refine endState_tryCatch (mkdir_onward secure) fun e d' _ _ => ?_
  refine Reads.of_get.endState_bind fun s _ => ?_
  rw [endState_require]
  exact .refl d'

/-- Where the directory of a path is there, at most the last one is made. -/
theorem mkdirOnce_of_place (placed : place hops d.tree p = .ok r) :
    mkdirOnce hops p d =
      if (node d.tree r).isSome then if isDirectory hops d.tree p then .ok () d else .error .present d
      else .ok () (d.put r .dir .created) := by
  have made : mkdir hops p d = if (node d.tree r).isSome then .error .present d else .ok () (d.put r .dir .created) := by
    rw [mkdir, placed]
  split
  · next there =>
    rw [if_pos there] at made
    rw [mkdirOnce, tryCatch_of_error made, bind_get]
    cases isDirectory hops d.tree p <;> rfl
  · next free =>
    rw [if_neg free] at made
    exact tryCatch_of_ok made

/-- Nothing is made on the way where nothing is missing. -/
theorem mkdirs_eq_mkdirOnce (there : ∀ d', mkdirOnce hops p d ≠ .error .missing d') :
    mkdirs hops p d = mkdirOnce hops p d := by
  have same : mkdirUp hops p.reverse d = mkdirOnce hops p.reverse.reverse d := by
    cases reversed : p.reverse with
    | nil => rfl
    | cons c above =>
      rw [← reversed, List.reverse_reverse, reversed, mkdirUp, ← reversed, List.reverse_reverse]
      cases once : mkdirOnce hops p d with
      | ok u d' => exact tryCatch_of_ok once
      | error e d' =>
        have present : e ≠ .missing := by
          rintro rfl
          exact there d' once
        rw [tryCatch_of_error once, if_neg present]
        rfl
  rwa [List.reverse_reverse] at same

theorem mkdirs_of_place (placed : place hops d.tree p = .ok r) :
    mkdirs hops p d =
      if (node d.tree r).isSome then if isDirectory hops d.tree p then .ok () d else .error .present d
      else .ok () (d.put r .dir .created) := by
  have once := mkdirOnce_of_place placed
  rw [mkdirs_eq_mkdirOnce, once]
  intro d' missing
  rw [once] at missing
  split at missing
  · split at missing
    · cases missing
    · cases missing
  · cases missing

/-- The place of a name in a directory. -/
theorem place_concat {c : List Char} (proper : Proper c) (walked : resolve .kernel t hops [] p = .ok r)
    (found : isDir t r = true) : place hops t (p ++ [c]) = .ok (r ++ [c]) := by
  rw [place, List.getLast?_concat]
  dsimp only
  rw [if_pos proper, List.dropLast_concat, walked]
  dsimp only
  rw [if_pos found]

theorem isDirectory_iff : isDirectory hops t p = true ↔ ∃ r, resolve .kernel t hops [] p = .ok r ∧ isDir t r = true := by
  rw [isDirectory, stat]
  cases resolve .kernel t hops [] p with
  | error e => simp
  | ok r =>
    simp only [Except.ok.injEq, exists_eq_left', isDir]
    cases node t r with
    | none => simp
    | some n => cases n <;> simp

/-- A directory that a path leads to is reached by directories. -/
theorem ground_of_resolve (walked : resolve .kernel t hops [] p = .ok r) (found : isDir t r = true) : Ground t r := by
  have root : Normal [] := nofun
  refine ⟨resolve_normal root walked, resolve_rooted rfl ?_ walked, found⟩
  intro q above differ
  exact absurd (List.prefix_nil.mp above) differ

theorem resolve_concat {c : List Char} (proper : Proper c) (walked : resolve .kernel t hops [] p = .ok r)
    (found : isDir t r = true) (child : isDir t (r ++ [c]) = true) :
    resolve .kernel t hops [] (p ++ [c]) = .ok (r ++ [c]) := by
  have rooted := (ground_of_resolve walked found).rooted.concat found (c := c)
  have normal : Normal [c] := by
    intro d member
    rw [List.mem_singleton.mp member]
    exact proper
  exact resolve_append normal (rooted.unlinked child) (fun _ => rooted) walked

theorem Ground.resolve (ground : Ground t p) : resolve .kernel t hops [] p = .ok p :=
  resolve_plain ground.normal (ground.rooted.unlinked ground.isDir) fun _ => ground.rooted

theorem Ground.dropLast (ground : Ground t p) : Ground t p.dropLast := by
  refine ⟨ground.normal.dropLast, ground.rooted.of_above (List.dropLast_prefix p), ?_⟩
  by_cases same : p.dropLast = p
  · rw [same]
    exact ground.isDir
  · exact ground.rooted p.dropLast (List.dropLast_prefix p) same

/-- A directory that is there is not made again. -/
theorem mkdirOnce_of_ground (ground : Ground d.tree p) : mkdirOnce hops p d = .ok () d := by
  have placed : place hops d.tree p = .ok p := by
    cases last : p.getLast? with
    | none =>
      rw [List.getLast?_eq_none_iff.mp last]
      rfl
    | some c =>
      have split : p.dropLast ++ [c] = p := List.dropLast_append_getLast? c last
      have proper : Proper c := ground.normal c (List.mem_of_getLast? last)
      have placed : place hops d.tree (p.dropLast ++ [c]) = .ok (p.dropLast ++ [c]) :=
        place_concat proper ground.dropLast.resolve ground.dropLast.isDir
      rwa [split] at placed
  have there : isDirectory hops d.tree p = true := isDirectory_iff.mpr ⟨p, ground.resolve, ground.isDir⟩
  rw [mkdirOnce_of_place placed, node_of_isDir ground.isDir, there]
  rfl

theorem mkdirs_of_ground (ground : Ground d.tree p) : endState (mkdirs hops p) d = d := by
  have once : mkdirOnce hops p d = .ok () d := mkdirOnce_of_ground ground
  have run : mkdirs hops p d = mkdirOnce hops p d := mkdirs_eq_mkdirOnce fun d' => by
    rw [once]
    exact nofun
  exact endState_of_ok (run.trans once)

theorem mkdirUp_onward {reversed : Path} (ground : Ground d.tree dir) (normal : Normal reversed.reverse)
    (unlinked : Unlinked d.tree reversed.reverse) (inside : dir <+: reversed.reverse) :
    Onward drops dir d (endState (mkdirUp hops reversed) d) := by
  induction reversed generalizing d with
  | nil => exact mkdirOnce_onward (.of_unlinked normal unlinked inside)
  | cons c above ih =>
    have secure := Secure.of_unlinked normal unlinked inside
    refine endState_tryCatch (mkdirOnce_onward secure) fun e d' failed first => ?_
    split
    · rw [List.reverse_cons] at normal unlinked inside
      rcases List.prefix_concat_iff.mp inside with same | shorter
      · have made : mkdirOnce hops (c :: above).reverse d = .ok () d := by
          rw [List.reverse_cons, ← same]
          exact mkdirOnce_of_ground ground
        rw [made] at failed
        cases failed
      · have parent : Normal above.reverse := fun x member => normal x (List.mem_append_left [c] member)
        have unlinked' := first.unlinked (unlinked.of_above (List.prefix_append above.reverse [c]))
        have up := ih (first.ground ground) parent unlinked' shorter
        refine endState_bind up fun _ d'' _ further => ?_
        exact mkdirOnce_onward (further.secure (first.secure secure))
    · exact .refl d'

theorem mkdirs_onward (ground : Ground d.tree dir) (normal : Normal p) (unlinked : Unlinked d.tree p)
    (inside : dir <+: p) : Onward drops dir d (endState (mkdirs hops p) d) := by
  apply mkdirUp_onward ground
  all_goals rw [List.reverse_reverse]; assumption

theorem openNew_of_ok [Inhabited δ] (secure : Secure d.tree dir p) (opened : openNew hops p d = .ok r d') :
    r = p ∧ node d.tree p = none ∧ d' = d.put p (.file default) .created := by
  unfold openNew at opened
  cases placed : place hops d.tree p with
  | error e =>
    rw [placed] at opened
    cases opened
  | ok s =>
    obtain rfl := secure.eq_place placed
    rw [placed] at opened
    dsimp only at opened
    cases free : node d.tree s with
    | some n =>
      rw [free] at opened
      cases opened
    | none =>
      rw [free] at opened
      cases opened
      exact ⟨rfl, rfl, rfl⟩

theorem openNew_onward [Inhabited δ] (secure : Secure d.tree dir p) : Onward drops dir d (endState (openNew hops p) d) := by
  cases opened : openNew hops p d with
  | error e d' =>
    rw [endState_of_error opened]
    unfold openNew at opened
    cases placed : place hops d.tree p with
    | error e =>
      rw [placed] at opened
      cases opened
      exact .refl d
    | ok s =>
      rw [placed] at opened
      dsimp only at opened
      split at opened
      · cases opened
        exact .refl d
      · cases opened
  | ok r d' =>
    obtain ⟨-, free, rfl⟩ := openNew_of_ok secure opened
    rw [endState_of_ok opened]
    exact .put secure.inside rfl (isDir_of_none free) fun _ => link?_of_none free

theorem plain_of_file {data : δ} (found : node t p = some (.file data)) : isDir t p = false ∧ link? t p = none := by
  constructor
  · rw [isDir, found]
  · rw [link?, found]

theorem openOver_onward [Inhabited δ] (follows : Bool) (normal : Normal p) (unlinked : Unlinked d.tree p)
    (inside : dir <+: p) : Onward drops dir d (endState (openOver hops follows p) d) ∧
      ∀ r d', openOver hops follows p d = .ok r d' → r = p := by
  have there : ∀ r, (if follows then resolve .kernel d.tree hops [] p else place hops d.tree p) = .ok r → r = p := by
    intro r walked
    cases follows with
    | true => exact eq_of_resolve normal unlinked walked
    | false => exact (Secure.of_unlinked normal unlinked inside).eq_place walked
  unfold endState openOver
  cases walked : (if follows then resolve .kernel d.tree hops [] p else place hops d.tree p) with
  | error e => exact ⟨.refl d, nofun⟩
  | ok r =>
    obtain rfl := there r walked
    dsimp only
    cases found : node d.tree r with
    | none =>
      refine ⟨.put inside rfl (isDir_of_none found) fun _ => link?_of_none found, ?_⟩
      intro s d' opened
      cases opened
      rfl
    | some n =>
      cases n with
      | dir => exact ⟨.refl d, nofun⟩
      | link _ _ => exact ⟨.refl d, nofun⟩
      | file _ =>
        obtain ⟨nodir, plain⟩ := plain_of_file found
        refine ⟨.put inside rfl nodir fun _ => plain, ?_⟩
        intro s d' opened
        cases opened
        rfl
      | special =>
        refine ⟨.note inside, ?_⟩
        intro s d' opened
        cases opened
        rfl

theorem write_onward (inside : dir <+: r) (data : δ) : Onward drops dir d (endState (write r data) d) := by
  unfold endState write
  split
  · next found =>
    split at found
    · next old there =>
      cases found
      obtain ⟨nodir, plain⟩ := plain_of_file there
      exact .put inside rfl nodir fun _ => plain
    · cases found
      exact .note inside
  · next found =>
    split at found
    · cases found
    · cases found

theorem unlink_onward (secure : Secure d.tree dir p) (kept : drops = false → link? d.tree p = none) :
    Onward drops dir d (endState (unlink hops p) d) := by
  unfold endState unlink
  cases placed : place hops d.tree p with
  | error e => exact .refl d
  | ok r =>
    obtain rfl := secure.eq_place placed
    dsimp only
    cases (node d.tree r).isNone with
    | true => exact .refl d
    | false =>
      cases nodir : isDir d.tree r with
      | true => exact .refl d
      | false => exact .drop secure.inside nodir kept

theorem chmod_onward (normal : Normal p) (unlinked : Unlinked d.tree p) (inside : dir <+: p) (mode : Nat) :
    Onward drops dir d (endState (chmod hops p mode) d) := by
  unfold endState chmod
  cases walked : resolve .kernel d.tree hops [] p with
  | error e => exact .refl d
  | ok r =>
    obtain rfl := eq_of_resolve normal unlinked walked
    dsimp only
    cases (node d.tree r).isSome with
    | false => exact .refl d
    | true => exact .note inside

/-- What is moved is taken from one place and stands at the other. -/
theorem replace_onward (source : Secure d.tree dir p) (target : Secure d.tree dir q)
    (plain : ∀ n, node d.tree p = some n → n.odd = false) (kept : drops = false → link? d.tree q = none) :
    Onward drops dir d (endState (replace hops p q) d) := by
  unfold endState replace
  cases placed : place hops d.tree p with
  | error e => exact .refl d
  | ok r =>
    obtain rfl := source.eq_place placed
    cases placed' : place hops d.tree q with
    | error e => exact .refl d
    | ok s =>
      obtain rfl := target.eq_place placed'
      dsimp only
      cases found : node d.tree r with
      | none => exact .refl d
      | some n =>
        dsimp only
        cases isD : isDir d.tree r || isDir d.tree s with
        | true => exact .refl d
        | false =>
          obtain ⟨nodir, nodir'⟩ := Bool.or_eq_false_iff.mp isD
          by_cases same : r = s
          · rw [if_pos same]
            exact .refl d
          · rw [if_neg same, if_neg Bool.false_ne_true]
            generalize (if (node d.tree s).isSome then Effect.overwritten else Effect.created) = effect
            have first : Onward drops dir d (d.put s n effect) := .put target.inside (plain n found) nodir' kept
            have unmoved : node (d.put s n effect).tree r = some n := by
              rw [Disk.put, node_insert (ne_nil_of_not_dir nodir'), if_neg same, found]
            refine first.trans (.drop source.inside ?_ fun _ => ?_)
            · rw [isDir, unmoved, ← found]
              exact nodir
            · rw [link?, unmoved]
              have isPlain := plain n found
              cases n <;> first | rfl | cases isPlain

theorem Secure.child {c : List Char} (normal : Normal p) (proper : Proper c) (unlinked : Unlinked t p)
    (inside : dir <+: p) : Secure t dir (p ++ [c]) := by
  refine ⟨?_, ?_, inside.trans (List.prefix_append p [c])⟩
  · intro x member
    rcases List.mem_append.mp member with old | new
    · exact normal x old
    · rw [List.mem_singleton.mp new]
      exact proper
  · rw [List.dropLast_concat]
    exact unlinked

section temporary

variable [Inhabited δ] {names : List (List Char)}

theorem mkstemp_onward (normal : Normal p) (unlinked : Unlinked d.tree p) (inside : dir <+: p)
    (proper : ∀ name ∈ names, Proper name) : Onward drops dir d (endState (mkstemp hops p names) d) := by
  induction names generalizing d with
  | nil => exact .refl d
  | cons name names ih =>
    have secure : Secure d.tree dir (p ++ [name]) := .child normal (proper name List.mem_cons_self) unlinked inside
    have first : Onward drops dir d (endState (openNew hops (p ++ [name])) d) := openNew_onward secure
    refine endState_tryCatch first fun e d' _ first => ?_
    split
    · exact ih (first.unlinked unlinked) fun other member => proper other (List.mem_cons_of_mem name member)
    · exact .refl d'

theorem mkstemp_of_ok (normal : Normal p) (unlinked : Unlinked d.tree p) (inside : dir <+: p)
    (proper : ∀ name ∈ names, Proper name) (made : mkstemp hops p names d = .ok r d') :
    (∃ name ∈ names, r = p ++ [name]) ∧ node d'.tree r = some (.file default) := by
  induction names generalizing d with
  | nil => cases made
  | cons name names ih =>
    have secure : Secure d.tree dir (p ++ [name]) := .child normal (proper name List.mem_cons_self) unlinked inside
    unfold mkstemp at made
    cases opened : openNew hops (p ++ [name]) d with
    | ok s d'' =>
      rw [tryCatch_of_ok opened] at made
      cases made
      obtain ⟨rfl, free, rfl⟩ := openNew_of_ok secure opened
      refine ⟨⟨name, List.mem_cons_self, rfl⟩, ?_⟩
      rw [Disk.put, node_insert (ne_nil_of_not_dir (isDir_of_none free)), if_pos rfl]
    | error e d'' =>
      have first : Onward false dir d (endState (openNew hops (p ++ [name])) d) := openNew_onward secure
      rw [tryCatch_of_error opened] at made
      rw [endState_of_error opened] at first
      split at made
      · have later : ∀ other ∈ names, Proper other := fun other member => proper other (List.mem_cons_of_mem name member)
        obtain ⟨⟨other, member, same⟩, found⟩ := ih (first.unlinked unlinked) later made
        exact ⟨⟨other, List.mem_cons_of_mem name member, same⟩, found⟩
      · cases made

end temporary

end specs

end H2kvm.Framework.FileTree
