import H2kvm.Converters.Contained
import H2kvm.Framework.Obstacles

namespace H2kvm.Converters.Extract

open Framework FileTree Names Paths Text

variable {δ α β : Type} {sys : System} {outdir target p q r : Path} {d d' : Disk δ} {x : Act δ α} {f : α → Act δ β}

/-- The code raises and leaves the disk as it was. -/
def Refuses (x : Act δ α) (d : Disk δ) : Prop := ∃ e, x d = .error e d

section refusing

theorem refuses_throw (e : Failure) : Refuses (throw e : Act δ α) d := ⟨e, rfl⟩

theorem not_refuses_pure (a : α) : ¬Refuses (pure a : Act δ α) d := by
  rintro ⟨e, run⟩
  cases run

theorem not_refuses_of_grows (grows : d.log.length < (endState x d).log.length) : ¬Refuses x d := by
  rintro ⟨e, run⟩
  rw [endState_of_error run] at grows
  exact lt_irrefl _ grows

theorem refuses_bind_ok {a : α} (run : x d = .ok a d) : Refuses (x >>= f) d ↔ Refuses (f a) d := by
  rw [Refuses, Refuses, bind_of_ok run]

theorem refuses_bind_error {e : Failure} (run : x d = .error e d) : Refuses (x >>= f) d :=
  ⟨e, bind_of_error run⟩

theorem not_refuses_bind_of_grows (grows : d.log.length < (endState x d).log.length)
    (lasting : ∀ a, Lasting (f a)) : ¬Refuses (x >>= f) d := by
  refine not_refuses_of_grows ?_
  cases run : x d with
  | ok a d' =>
    rw [endState_of_ok run] at grows
    have rest : endState (x >>= f) d = endState (f a) d' := by rw [endState, bind_of_ok run, endState]
    rw [rest]
    exact grows.trans_le (lasting a d').length_le
  | error e d' =>
    rw [endState_of_error run] at grows
    rw [endState_of_error (bind_of_error run)]
    exact grows

theorem refuses_lift_bind {y : Except Failure α} : Refuses (lift y >>= f) d ↔ ∀ a, y = .ok a → Refuses (f a) d := by
  cases y with
  | ok a =>
    rw [refuses_bind_ok (x := lift (.ok a)) rfl]
    exact ⟨fun refuses b same => Except.ok.inj same ▸ refuses, fun all => all a rfl⟩
  | error e => exact iff_of_true (refuses_bind_error (e := e) rfl) nofun

theorem refuses_resolved_bind {f : Path → Act δ β} :
    Refuses (resolved sys p >>= f) d ↔ ∀ r, realpath sys d.tree p = .ok r → Refuses (f r) d :=
  refuses_lift_bind (y := realpath sys d.tree p)

theorem refuses_require_bind {holds : Bool} {e : Failure} {f : Unit → Act δ β} :
    Refuses (require holds e >>= f) d ↔ (holds = true → Refuses (f ()) d) := by
  cases holds with
  | true => exact (refuses_bind_ok (x := require true e) rfl).trans ⟨fun refuses _ => refuses, fun all => all rfl⟩
  | false => exact iff_of_true (refuses_bind_error (e := e) rfl) nofun

theorem not_refuses_suppress_bind {ε : Type} {y : EStateM ε (Disk δ) Unit} {a : α} :
    ¬Refuses (suppress y >>= fun _ => pure a) d := by
  rintro ⟨e, run⟩
  cases run

theorem refuses_reads_bind (reads : Reads x) : Refuses (x >>= f) d ↔ ∀ a, x d = .ok a d → Refuses (f a) d := by
  have same := reads d
  cases run : x d with
  | ok a d' =>
    rw [endState_of_ok run] at same
    subst same
    rw [refuses_bind_ok run]
    refine ⟨fun refuses b ok => ?_, fun all => all a rfl⟩
    cases ok
    exact refuses
  | error e d' =>
    rw [endState_of_error run] at same
    subst same
    exact iff_of_true (refuses_bind_error run) nofun

theorem refuses_get_bind {f : Disk δ → Act δ β} : Refuses (get >>= f) d ↔ Refuses (f d) d := Iff.rfl

/-- Directories are made on the way, unless something is in it. -/
theorem refuses_mkdirs_bind {f : Unit → Act δ β} (normal : Normal p) (unlinked : Unlinked d.tree p)
    (lasting : Lasting (f ())) :
    Refuses (call (mkdirs sys.hops p) >>= f) d ↔ Halted d.tree p ∨ Ground d.tree p ∧ Refuses (f ()) d := by
  by_cases halted : Halted d.tree p
  · obtain ⟨e, run⟩ := mkdirs_halted sys.hops normal unlinked halted
    have failed : call (mkdirs sys.hops p) d = .error (.os e) d := by simp [call, EStateM.adaptExcept, run]
    exact iff_of_true (refuses_bind_error failed) (.inl halted)
  by_cases ground : Ground d.tree p
  · have run : call (mkdirs sys.hops p) d = .ok () d := by simp [call, EStateM.adaptExcept, mkdirs_ground ground]
    rw [refuses_bind_ok run]
    exact ⟨fun refuses => .inr ⟨ground, refuses⟩, fun either => either.elim (absurd · halted) And.right⟩
  · refine iff_of_false (not_refuses_bind_of_grows ?_ fun _ => lasting) ?_
    · rw [endState_call]
      exact mkdirs_grows normal unlinked halted ground
    · rintro (blocked | ⟨there, -⟩)
      · exact halted blocked
      · exact ground there

theorem lasting_call {y : Call δ α} (lasting : Lasting y) : Lasting (call y) := fun d => by
  rw [endState_call]
  exact lasting d

theorem lasting_removeIfPresent (p : Path) : Lasting (removeIfPresent sys p : Act δ Unit) := by
  refine (Lasting.of_reads Reads.of_get).bind fun d => ?_
  split
  · exact (lasting_unlink p).suppress
  · exact .of_reads (.of_pure ())

end refusing

section places

/-- No part of a path has a null byte. -/
def Textual (p : Path) : Prop := p.any (·.contains '\x00') = false

theorem Textual.of_above (textual : Textual p) (above : q <+: p) : Textual q := by
  rw [Textual, List.any_eq_false] at *
  exact fun c member => textual c (above.subset member)

theorem forall_textual {holds : Prop} : (Textual q → Textual p → q <+: p → holds) ↔ (Textual p → q <+: p → holds) :=
  ⟨fun all textual above => all (textual.of_above above) textual above, fun all _ => all⟩

/-- A plain path leads to itself. -/
theorem realpath_of_plain (normal : Normal p) (unlinked : Unlinked d.tree p) :
    realpath sys d.tree p = .ok r ↔ Textual p ∧ r = p := by
  have walked : resolve .lenient d.tree sys.depth [] p = .ok p := resolve_plain normal unlinked nofun
  rw [realpath_eq_ok_iff, walked, Except.ok.injEq, eq_comm (a := p)]
  rfl

/-- The system calls see a place that directories lead to where it is. -/
theorem lstat_eq (normal : Normal p) (ground : Ground d.tree p.dropLast) :
    lstat sys.hops d.tree p = (node d.tree p).elim (.error .missing) .ok := by
  cases p using List.reverseRecOn with
  | nil => rfl
  | append_singleton p c =>
    rw [List.dropLast_concat] at ground
    rw [lstat, place_ground _ ground (normal c (by simp))]

theorem stat_eq (normal : Normal p) (ground : Ground d.tree p.dropLast) (plain : link? d.tree p = none) :
    stat sys.hops d.tree p = (node d.tree p).elim (.error .missing) .ok := by
  cases p using List.reverseRecOn with
  | nil => rw [stat, ground_root.resolve]
  | append_singleton p c =>
    rw [List.dropLast_concat] at ground
    have walked : resolve .kernel d.tree sys.hops [] (p ++ [c]) = .ok (p ++ [c]) :=
      resolve_plain normal ((ground.rooted.unlinked ground.isDir).concat plain) fun _ => ground.rooted.concat ground.isDir
    rw [stat, walked]

/-- What is there and no link is not taken for one. -/
theorem not_link_of_present (normal : Normal p) (unlinked : Unlinked d.tree p)
    (there : isPresent sys.hops d.tree p = true) : ∃ n, lstat sys.hops d.tree p = .ok n ∧ ∀ a dest, n ≠ .link a dest := by
  rcases ground_or_first (t := d.tree) normal.dropLast with ground | ⟨q, ⟨rest, same⟩, rooted, nodir⟩
  · have plain := unlinked p List.prefix_rfl
    rw [isPresent, stat_eq normal ground plain] at there
    cases found : node d.tree p with
    | none =>
      rw [found] at there
      cases there
    | some n =>
      refine ⟨n, by rw [lstat_eq normal ground, found]; rfl, ?_⟩
      rintro a dest rfl
      rw [link?, found] at plain
      cases plain
  · exfalso
    cases p using List.reverseRecOn with
    | nil =>
      obtain ⟨rfl, -⟩ := List.append_eq_nil_iff.mp same
      rw [isDir_root] at nodir
      cases nodir
    | append_singleton p c =>
      rw [List.dropLast_concat] at same
      subst same
      have plain := unlinked q (by simp)
      have above : Normal q := fun x member => normal x (by simp [member])
      have stuck : stat sys.hops d.tree (q ++ rest ++ [c]) = .error (halt d.tree q) := by
        cases rest with
        | nil => rw [List.append_nil, stat, resolve_stuck above rooted nodir plain]
        | cons b rest =>
          have split : q ++ b :: rest ++ [c] = q ++ b :: (rest ++ [c]) := by simp
          rw [split, stat, resolve_stuck above rooted nodir plain]
      rw [isPresent, stuck] at there
      cases there

theorem mem_cursors_above {base rel cur : Path} (member : cur ∈ cursors base rel) : cur <+: base ++ rel := by
  obtain ⟨above, inside, rfl⟩ := List.mem_map.mp member
  exact (List.prefix_append_right_inj base).mpr ((List.mem_inits above rel).mp (List.mem_of_mem_tail inside))

/-- The joined path of a name, and the place it leads to in the output directory. -/
def Lands (sys : System) (outdir : Path) (d : Disk δ) (parts : Except Failure Path) (outdirR target : Path) : Prop :=
  realpath sys d.tree outdir = .ok outdirR ∧
    ∃ rel, parts = .ok rel ∧ realpath sys d.tree (outdirR ++ rel) = .ok target ∧ outdirR <+: target

theorem Lands.plain {parts : Except Failure Path} (lands : Lands sys outdir d parts r target) :
    Normal target ∧ Unlinked d.tree target := by
  obtain ⟨-, rel, -, joined, -⟩ := lands
  exact realpath_plain joined

theorem forall_lands {parts : Except Failure Path} {P : Path → Path → Prop} :
    (∀ outdirR target, Lands sys outdir d parts outdirR target → P outdirR target) ↔
      ∀ outdirR, realpath sys d.tree outdir = .ok outdirR → ∀ rel, parts = .ok rel →
        ∀ target, realpath sys d.tree (outdirR ++ rel) = .ok target → outdirR <+: target → P outdirR target :=
  ⟨fun all outdirR real rel named target joined inside => all outdirR target ⟨real, rel, named, joined, inside⟩,
    fun all outdirR target ⟨real, rel, named, joined, inside⟩ => all outdirR real rel named target joined inside⟩

/-- A component of the joined path below the output directory is a link. -/
def Linked (sys : System) (outdir : Path) (d : Disk δ) (parts : Except Failure Path) : Prop :=
  ∃ outdirR rel p, realpath sys d.tree outdir = .ok outdirR ∧ parts = .ok rel ∧ p <+: rel ∧ p ≠ [] ∧
    isSymlink sys.hops d.tree (outdirR ++ p) = true

end places

namespace OVF

theorem assertNoSymlinkParents_passes (normal : Normal target) (unlinked : Unlinked d.tree target) (inside : r <+: target) :
    assertNoSymlinkParents sys r target d = .ok () d := by
  have none : ((cursors r (target.drop r.length).dropLast).find? fun cur =>
      isPresent sys.hops d.tree cur && isSymlink sys.hops d.tree cur) = none := by
    rw [List.find?_eq_none]
    intro cur member
    have above : cur <+: target := by
      obtain ⟨rest, rfl⟩ := inside
      rw [List.drop_left] at member
      exact (mem_cursors_above member).trans ((List.prefix_append_right_inj r).mpr (List.dropLast_prefix rest))
    rw [Bool.and_eq_true, not_and]
    intro there
    obtain ⟨n, found, other⟩ := not_link_of_present (fun x m => normal x (above.subset m)) (unlinked.of_above above) there
    rw [isSymlink, found]
    cases n with
    | link a dest => exact absurd rfl (other a dest)
    | _ => simp
  rw [assertNoSymlinkParents, bind_get, none, decide_eq_true inside]
  rfl

theorem refuses_safeOutPath_bind {rel : List Char} {f : Path → Act δ β} :
    Refuses (safeOutPath sys outdir rel >>= f) d ↔
      ∀ outdirR target, Lands sys outdir d (cleanPosixRelpath rel) outdirR target → Refuses (f target) d := by
  simp only [safeOutPath, bind_assoc, pure_bind, refuses_resolved_bind, refuses_lift_bind, refuses_require_bind,
    decide_eq_true_eq]
  constructor
  · rintro all outdirR target ⟨real, parts, cleaned, joined, inside⟩
    obtain ⟨normal, unlinked⟩ := realpath_plain joined
    have rest := all outdirR real parts cleaned target joined inside
    rwa [refuses_bind_ok (assertNoSymlinkParents_passes normal unlinked inside)] at rest
  · intro all outdirR real parts cleaned target joined inside
    obtain ⟨normal, unlinked⟩ := realpath_plain joined
    rw [refuses_bind_ok (assertNoSymlinkParents_passes normal unlinked inside)]
    exact all outdirR target ⟨real, parts, cleaned, joined, inside⟩

/-- What stops a member apart from links: its kind or size, a name that leads nowhere in the output directory, or
something in the way there. -/
def Barred (sys : System) (outdir : Path) (maxMemberBytes : Option Nat) (drawn : List (List Char)) (d : Disk δ)
    (member : Member δ) : Prop :=
  (member.kind = .dir ∧ ∀ outdirR target, Lands sys outdir d (cleanPosixRelpath member.name) outdirR target →
    Halted d.tree target) ∨
  member.kind = .file ∧ (within maxMemberBytes member.size →
    ∀ outdirR target, Lands sys outdir d (cleanPosixRelpath member.name) outdirR target →
      Halted d.tree target.dropLast ∨ Ground d.tree target.dropLast ∧ member.stream.isSome ∧
        ∀ name ∈ temporaryNames target drawn, (node d.tree (target.dropLast ++ [name])).isSome)

theorem lasting_fill (tmpPath target : Path) (src : Stream δ) :
    Lasting (tryCatch (do
      call (write tmpPath src.data)
      require src.whole .readError
      call (replace sys.hops tmpPath target)
      suppress (chmod sys.hops target 0o644))
      fun e => do
        removeIfPresent sys tmpPath
        throw e : Act δ Unit) := by
  refine .tryCatch ?_ fun e => (lasting_removeIfPresent tmpPath).bind fun _ => .of_reads fun _ => rfl
  refine (lasting_call (lasting_write tmpPath src.data)).bind fun _ => ?_
  refine (Lasting.of_reads (Reads.of_require _ _)).bind fun _ => ?_
  exact (lasting_call (lasting_replace tmpPath target)).bind fun _ => (lasting_chmod target _).suppress

variable [Inhabited δ] {drawn : List (List Char)}

theorem lasting_store (target : Path) (drawn : List (List Char)) (src : Stream δ) :
    Lasting (store sys target drawn src) :=
  (lasting_call (lasting_mkstemp _ _)).bind fun tmpPath =>
    (lasting_fill tmpPath target src).bind fun _ => lasting_removeIfPresent tmpPath

theorem refuses_store {f : Unit → Act δ α} (ground : Ground d.tree target.dropLast) (src : Stream δ)
    (lasting : Lasting (f ())) :
    Refuses (store sys target drawn src >>= f) d ↔
      ∀ name ∈ temporaryNames target drawn, (node d.tree (target.dropLast ++ [name])).isSome := by
  rcases mkstemp_ground sys.hops ground (proper_temporaryNames target drawn) with
    ⟨taken, failed⟩ | ⟨⟨name, member, free⟩, grows⟩
  · refine iff_of_true ?_ taken
    have failed : call (mkstemp sys.hops target.dropLast (temporaryNames target drawn)) d = .error (.os .present) d := by
      simp [call, EStateM.adaptExcept, failed]
    rw [store, bind_assoc]
    exact refuses_bind_error failed
  · refine iff_of_false ?_ fun all => by simpa [free] using all name member
    rw [store, bind_assoc]
    refine not_refuses_bind_of_grows (by rwa [endState_call]) fun tmpPath => ?_
    exact ((lasting_fill tmpPath target src).bind fun _ => lasting_removeIfPresent tmpPath).bind fun _ => lasting

theorem refuses_iff {skipSpecial : Bool} {maxMemberBytes : Option Nat} {member : Member δ} :
    Refuses (safeExtractOne sys outdir skipSpecial maxMemberBytes drawn member) d ↔
      Barred sys outdir maxMemberBytes drawn d member := by
  rw [safeExtractOne, Barred]
  split
  · next special =>
    obtain ⟨special, -⟩ := Bool.and_eq_true_iff.mp special
    refine iff_of_false (not_refuses_pure _) ?_
    rintro (⟨same, -⟩ | ⟨same, -⟩) <;> simp [isSpecial, same] at special
  split
  · next isDir =>
    simp only [isDir, true_and, refuses_safeOutPath_bind, reduceCtorEq, false_and, or_false]
    refine forall₂_congr fun outdirR target => forall_congr' fun lands => ?_
    obtain ⟨normal, unlinked⟩ := lands.plain
    refine (refuses_mkdirs_bind (f := fun _ => pure (0, Status.extracted)) normal unlinked (.of_reads (.of_pure _))).trans ?_
    exact or_iff_left fun made => not_refuses_pure _ made.2
  split
  · next noDir noFile =>
    exact iff_of_false (not_refuses_pure _) (by simp [noDir, noFile])
  · next noDir isFile =>
    simp only [not_not.mp isFile, true_and, reduceCtorEq, false_and, false_or, refuses_require_bind, refuses_safeOutPath_bind]
    refine forall_congr' fun _ => forall₂_congr fun outdirR target => forall_congr' fun lands => ?_
    obtain ⟨normal, unlinked⟩ := lands.plain
    have parent := unlinked.of_above (List.dropLast_prefix target)
    refine (refuses_mkdirs_bind normal.dropLast parent ?_).trans ?_
    · cases member.stream with
      | none => exact .of_reads (.of_pure _)
      | some src => exact (lasting_store target drawn src).bind fun _ => .of_reads (.of_pure _)
    · refine or_congr_right (and_congr_right fun ground => ?_)
      cases member.stream with
      | none => exact iff_of_false (not_refuses_pure _) (by simp)
      | some src =>
        refine Iff.trans ?_ (and_iff_right rfl).symm
        exact refuses_store (f := fun _ => pure (src.length, Status.extracted)) ground src (.of_reads (.of_pure _))

end OVF

namespace AMI

theorem lasting_copyLimited (limit : Option Nat) (r : Path) (src : Stream δ) : Lasting (copyLimited limit r src) :=
  (lasting_call (lasting_write r src.data)).bind fun _ => .of_reads <|
    (Reads.of_require _ _).bind fun _ => (Reads.of_require _ _).bind fun _ => Reads.of_pure _

section stores

variable [Inhabited δ]

/-- What comes after the target was opened only adds to that. -/
theorem later_store (target : Path) (limit : Option Nat) (src : Stream δ) :
    Later (endState (openOver sys.hops (!sys.noFollow) target) d) (endState (store sys target limit src) d) := by
  rw [← endState_call (openOver sys.hops (!sys.noFollow) target)]
  refine (Lasting.later_bind fun r => lasting_copyLimited limit r src).trans (Lasting.later_tryCatch fun e => ?_)
  split
  · exact (lasting_removeIfPresent target).bind fun _ => .of_reads fun _ => rfl
  · exact .of_reads fun _ => rfl

theorem lasting_store (target : Path) (limit : Option Nat) (src : Stream δ) : Lasting (store sys target limit src) := fun d =>
  (lasting_openOver target _ d).trans (later_store target limit src)

theorem refuses_store {limit : Option Nat} {f : Nat → Act δ α} (normal : Normal target)
    (ground : Ground d.tree target.dropLast) (plain : link? d.tree target = none) (src : Stream δ) (lasting : ∀ n, Lasting (f n)) :
    Refuses (store sys target limit src >>= f) d ↔ isDir d.tree target = true := by
  rcases openOver_ground sys.hops (!sys.noFollow) normal ground plain with ⟨dir, failed⟩ | ⟨nodir, grows⟩
  · refine iff_of_true ?_ dir
    have failed : call (openOver sys.hops (!sys.noFollow) target) d = .error (.os .isDirectory) d := by
      simp [call, EStateM.adaptExcept, failed]
    refine refuses_bind_error (e := .os .isDirectory) ?_
    rw [store, tryCatch_of_error (bind_of_error failed)]
    rfl
  · exact iff_of_false (not_refuses_bind_of_grows (grows.trans_le (later_store target limit src).length_le) lasting)
      (by simp [nodir])

end stores

theorem not_taken_for_link (normal : Normal p) (unlinked : Unlinked d.tree p) :
    (isPresent sys.hops d.tree p && isLink sys d.tree p) = false := by
  cases there : isPresent sys.hops d.tree p with
  | false => rfl
  | true =>
    obtain ⟨n, found, other⟩ := not_link_of_present normal unlinked there
    rw [isLink, found]
    cases n with
    | link a dest => exact absurd rfl (other a dest)
    | _ => rfl

/-- The check for links stops nothing but what is not in the directory, or cannot be looked at. -/
theorem refuses_hasSymlinkInParents_bind {base dir : Path} {e : Failure} {f : Act δ α} (normal : Normal base)
    (unlinked : Unlinked d.tree base) (normal' : Normal dir) (unlinked' : Unlinked d.tree dir) :
    Refuses (hasSymlinkInParents sys base dir >>= fun linked => require (!linked) e >>= fun _ => f) d ↔
      (Textual base → Textual dir → base <+: dir → Refuses f d) := by
  simp only [hasSymlinkInParents, bind_assoc, refuses_resolved_bind, realpath_of_plain normal unlinked,
    realpath_of_plain normal' unlinked', refuses_get_bind]
  have through (below : base <+: dir) : (cursors base (dir.drop base.length)).any (fun cur =>
      isPresent sys.hops d.tree cur && isLink sys d.tree cur) = false := by
    rw [List.any_eq_false]
    intro cur member
    have above : cur <+: dir := by
      obtain ⟨rest, rfl⟩ := below
      rw [List.drop_left] at member
      exact mem_cursors_above member
    rw [not_taken_for_link (fun x m => normal' x (above.subset m)) (unlinked'.of_above above)]
    exact Bool.false_ne_true
  have stops : Refuses ((if base <+: dir then
        pure ((cursors base (dir.drop base.length)).any fun cur => isPresent sys.hops d.tree cur && isLink sys d.tree cur)
      else pure true) >>= fun linked => require (!linked) e >>= fun _ => f) d ↔ (base <+: dir → Refuses f d) := by
    split
    · next below =>
      rw [through below, pure_bind, refuses_require_bind]
      simp [below]
    · next outside =>
      rw [pure_bind, refuses_require_bind]
      simp [outside]
  constructor
  · exact fun all textual textual' => stops.mp (all base ⟨textual, rfl⟩ dir ⟨textual', rfl⟩)
  · rintro all _ ⟨textual, rfl⟩ _ ⟨textual', rfl⟩
    exact stops.mpr (all textual textual')

/-- The parts of the joined path of a name. -/
def joined (name : List Char) : Except Failure Path :=
  let normalized := normalizeTarName name
  if normalized = [] then .error (.emptyName name)
  else if normalized.head? = some '/' then .error (.absolute name)
  else .ok (components normalized)

theorem forall_joined {name : List Char} {P : Path → Prop} :
    (∀ rel, joined name = .ok rel → P rel) ↔
      (decide (normalizeTarName name ≠ []) = true → decide ((normalizeTarName name).head? ≠ some '/') = true →
        P (components (normalizeTarName name))) := by
  simp only [joined, decide_eq_true_eq]
  split
  · next empty => exact iff_of_true nofun fun named => absurd empty named
  split
  · next absolute => exact iff_of_true nofun fun _ relative => absurd absolute relative
  · next named relative =>
    exact ⟨fun all _ _ => all _ rfl, fun holds rel same => Except.ok.inj same ▸ holds named relative⟩

def Barred (sys : System) (outdir : Path) (skipSpecial : Bool) (maxSingleFileBytes : Option Nat) (d : Disk δ)
    (member : Member δ) : Prop :=
  ∀ outdirR target, Lands sys outdir d (joined member.name) outdirR target →
    if member.kind = .dir then Textual target → Halted d.tree target
    else if member.kind = .file then
      within maxSingleFileBytes member.size → Halted d.tree target.dropLast ∨ Ground d.tree target.dropLast ∧
        (Textual target.dropLast → outdirR <+: target.dropLast → member.stream = none ∨ isDir d.tree target = true)
    else skipSpecial = false

theorem refuses_iff [Inhabited δ] {skipSpecial : Bool} {maxSingleFileBytes : Option Nat} {member : Member δ} :
    Refuses (safeExtractOne sys outdir skipSpecial maxSingleFileBytes member) d ↔
      Barred sys outdir skipSpecial maxSingleFileBytes d member := by
  simp only [safeExtractOne, refuses_resolved_bind, refuses_require_bind, decide_eq_true_eq, Barred, forall_lands,
    forall_joined]
  refine forall₂_congr fun outdirR real => forall₂_congr fun named relative => forall₂_congr fun target there =>
    forall_congr' fun inside => ?_
  obtain ⟨normal, unlinked⟩ := realpath_plain there
  have ⟨normalR, unlinkedR⟩ := realpath_plain real
  by_cases isDir : member.kind = .dir
  · have noFile : (decide (Kind.dir ≠ Kind.file) || within maxSingleFileBytes member.size) = true := rfl
    simp only [isDir, if_true, noFile, forall_const]
    rw [refuses_hasSymlinkInParents_bind normalR unlinkedR normal unlinked]
    rw [forall_textual]
    refine forall_congr' fun _ => (forall_prop_of_true inside).trans ?_
    refine (refuses_mkdirs_bind normal unlinked ?_).trans (or_iff_left fun made => ?_)
    · split
      · exact (Lasting.suppress (lasting_chmod target _)).bind fun _ => .of_reads (.of_pure _)
      · exact .of_reads (.of_pure _)
    · split at made
      · exact not_refuses_suppress_bind made.2
      · exact not_refuses_pure _ made.2
  by_cases isFile : member.kind = .file
  · have parent := unlinked.of_above (List.dropLast_prefix target)
    have noFile : (decide (Kind.file ≠ Kind.file) || within maxSingleFileBytes member.size) =
      within maxSingleFileBytes member.size := rfl
    simp only [isFile, reduceCtorEq, if_false, if_true, noFile]
    refine forall_congr' fun _ => (refuses_mkdirs_bind normal.dropLast parent ?_).trans ?_
    · refine (Lasting.of_reads (reads_hasSymlinkInParents _ _)).bind fun _ => ?_
      refine (Lasting.of_reads (Reads.of_require _ _)).bind fun _ => (Lasting.of_reads Reads.of_get).bind fun s => ?_
      refine (Lasting.of_reads (Reads.of_require _ _)).bind fun _ => ?_
      cases member.stream with
      | none => exact .of_reads fun _ => rfl
      | some src =>
        refine (lasting_store target _ src).bind fun written => ?_
        exact (Lasting.suppress (lasting_chmod target _)).bind fun _ => .of_reads (.of_pure _)
    · refine or_congr_right (and_congr_right fun ground => ?_)
      rw [refuses_hasSymlinkInParents_bind normalR unlinkedR normal.dropLast parent, forall_textual]
      refine forall₂_congr fun _ _ => ?_
      rw [refuses_get_bind, refuses_require_bind, not_taken_for_link normal unlinked, forall_prop_of_true Bool.not_false]
      cases member.stream with
      | none => exact iff_of_true (refuses_throw _) (.inl rfl)
      | some src =>
        refine (refuses_store normal ground (unlinked target List.prefix_rfl) src fun written => ?_).trans ?_
        · exact (Lasting.suppress (lasting_chmod target _)).bind fun _ => .of_reads (.of_pure _)
        · simp
  · have other : (decide (member.kind ≠ .file) || within maxSingleFileBytes member.size) = true := by simp [isFile]
    rw [if_neg isDir, if_neg isDir, if_pos isFile, if_neg isFile]
    simp only [other, forall_const]
    cases skipSpecial with
    | true => exact iff_of_false (not_refuses_pure _) (by simp)
    | false => exact iff_of_true (refuses_throw _) rfl

end AMI

namespace RAW

theorem isSymlinkLstat_of_ground (ground : Ground d.tree p) : isSymlinkLstat sys d.tree p = .ok false := by
  rw [isSymlinkLstat, lstat_eq ground.normal ground.dropLast, node_of_isDir ground.isDir]
  rfl

theorem refuses_ensureNoSymlinkComponents_bind {base dir : Path} {f : Unit → Act δ α} (normal : Normal base)
    (unlinked : Unlinked d.tree base) (ground : Ground d.tree dir) :
    Refuses (ensureNoSymlinkComponents sys base dir >>= f) d ↔ (Textual dir → base <+: dir → Refuses (f ()) d) := by
  simp only [ensureNoSymlinkComponents, bind_assoc, refuses_resolved_bind, realpath_of_plain normal unlinked,
    realpath_of_plain ground.normal (ground.rooted.unlinked ground.isDir), refuses_require_bind, refuses_get_bind,
    decide_eq_true_eq]
  have passes (below : base <+: dir) : ((cursors base (dir.drop base.length)).foldlM (fun (_ : Unit) cur => do
      let linked ← lift (isSymlinkLstat sys d.tree cur)
      require (!linked) (.symlinkComponent cur)) () : Act δ Unit) d = .ok () d := by
    obtain ⟨rest, rfl⟩ := below
    rw [List.drop_left]
    have each : ∀ cur ∈ cursors base rest, Ground d.tree cur := by
      intro cur member
      have above := mem_cursors_above member
      exact ⟨fun x m => ground.normal x (above.subset m), ground.rooted.of_above above, ground.isDir_of_above above⟩
    generalize cursors base rest = curs at each
    induction curs with
    | nil => rfl
    | cons cur curs ih =>
      rw [List.foldlM_cons, isSymlinkLstat_of_ground (each cur List.mem_cons_self)]
      exact ih fun other member => each other (List.mem_cons_of_mem cur member)
  constructor
  · intro all textual inside
    exact (refuses_bind_ok (passes inside)).mp (all base ⟨textual.of_above inside, rfl⟩ dir ⟨textual, rfl⟩ inside)
  · rintro all _ ⟨textual, rfl⟩ _ ⟨textual', rfl⟩ inside
    exact (refuses_bind_ok (passes inside)).mpr (all textual' inside)

/-- A temporary path that is neither free nor cleared: a directory, or a link that leads nowhere. -/
def Stuck (sys : System) (d : Disk δ) (tmpPath : Path) : Prop :=
  isDir d.tree tmpPath = true ∨ (link? d.tree tmpPath).isSome ∧ isPresent sys.hops d.tree tmpPath = false

theorem lasting_preserveMode (policy : ExtractPolicy) (p : Path) (mode : Nat) :
    Lasting (preserveMode sys policy p mode : Act δ Unit) := by
  rw [preserveMode]
  split
  · exact (lasting_chmod p _).suppress
  · exact .of_reads (.of_pure ())

theorem lasting_clear (p : Path) : Lasting (clear sys p : Act δ Unit) := by
  refine (Lasting.of_reads Reads.of_get).bind fun s => ?_
  split
  · exact lasting_call (lasting_unlink p)
  · exact .of_reads (.of_pure ())

theorem lasting_fill (policy : ExtractPolicy) (budget : Option Nat) (writtenTotal mode : Nat) (tmpPath final r : Path)
    (src : Stream δ) :
    Lasting (do
      call (write r src.data)
      require (within budget (writtenTotal + src.length)) (.exceeded src.length)
      require src.whole .readError
      preserveMode sys policy tmpPath mode
      call (replace sys.hops tmpPath final) : Act δ Unit) := by
  refine (lasting_call (lasting_write r src.data)).bind fun _ => (Lasting.of_reads (Reads.of_require _ _)).bind fun _ => ?_
  refine (Lasting.of_reads (Reads.of_require _ _)).bind fun _ => (lasting_preserveMode policy _ _).bind fun _ => ?_
  exact lasting_call (lasting_replace tmpPath final)

section stores

variable [Inhabited δ] {c : List Char}

theorem lasting_openForWriteNofollow (path : Path) (overwrite : Bool) :
    Lasting (openForWriteNofollow sys path overwrite : Act δ Path) := by
  refine (Lasting.of_reads Reads.of_get).bind fun s => ?_
  split
  · refine (Lasting.of_reads (Reads.of_require _ _)).bind fun _ => (Lasting.of_reads (Reads.of_require _ _)).bind fun _ => ?_
    split
    · exact lasting_call (lasting_openOver path false)
    · exact .of_reads fun _ => rfl
  · split
    · exact lasting_call (lasting_openNew path)
    · exact .of_reads fun _ => rfl

/-- The temporary path is cleared and opened, unless what is there stays. -/
theorem clear_open (sys : System) (ground : Ground d.tree p) (proper : Proper c) :
    Stuck sys d (p ++ [c]) ∧
        (∃ e, (clear sys (p ++ [c]) >>= fun _ => openForWriteNofollow sys (p ++ [c]) false) d = .error e d) ∧
        removeIfPresent sys (p ++ [c]) d = .ok () d ∨
      ¬Stuck sys d (p ++ [c]) ∧ d.log.length <
        (endState (clear sys (p ++ [c]) >>= fun _ => openForWriteNofollow sys (p ++ [c]) false) d).log.length := by
  have normal : Normal (p ++ [c]) := fun x member => (List.mem_append.mp member).elim (ground.normal x)
    fun new => List.mem_singleton.mp new ▸ proper
  have parent : Ground d.tree (p ++ [c]).dropLast := by rwa [List.dropLast_concat]
  have unlinked := unlink_ground sys.hops ground proper
  cases there : isPresent sys.hops d.tree (p ++ [c]) with
  | true =>
    have some : (node d.tree (p ++ [c])).isNone = false := by
      cases found : node d.tree (p ++ [c]) with
      | some n => rfl
      | none =>
        rw [isPresent, stat_eq normal parent (link?_of_none found), found] at there
        cases there
    have cleared : clear sys (p ++ [c]) d = call (unlink sys.hops (p ++ [c])) d := by rw [clear, bind_get, there, if_pos rfl]
    rw [some, if_neg Bool.false_ne_true] at unlinked
    cases dir : isDir d.tree (p ++ [c]) with
    | true =>
      rw [dir, if_pos rfl] at unlinked
      refine .inl ⟨.inl dir, ⟨.os .isDirectory, bind_of_error (cleared.trans ?_)⟩, ?_⟩
      · simp [call, EStateM.adaptExcept, unlinked]
      · rw [removeIfPresent, bind_get, there, if_pos rfl, suppress, endState_of_error unlinked]
    | false =>
      rw [dir, if_neg Bool.false_ne_true] at unlinked
      refine .inr ⟨fun stuck => ?_, ?_⟩
      · rcases stuck with isDir | ⟨-, absent⟩
        · rw [dir] at isDir
          cases isDir
        · rw [there] at absent
          cases absent
      · have gone : d.log.length < (endState (clear sys (p ++ [c])) d).log.length := by
          rw [endState, cleared, ← endState, endState_call, endState_of_ok unlinked]
          simp [Disk.drop]
        exact gone.trans_le (Lasting.later_bind fun _ => lasting_openForWriteNofollow _ _).length_le
  | false =>
    have cleared : clear sys (p ++ [c]) d = .ok () d := by
      rw [clear, bind_get, there]
      rfl
    have seen : lstat sys.hops d.tree (p ++ [c]) = (node d.tree (p ++ [c])).elim (.error .missing) .ok :=
      lstat_eq normal parent
    cases found : node d.tree (p ++ [c]) with
    | none =>
      refine .inr ⟨fun stuck => ?_, ?_⟩
      · rcases stuck with isDir | ⟨linked, -⟩
        · rw [isDir_of_none found] at isDir
          cases isDir
        · rw [link?_of_none found] at linked
          cases linked
      · have opened := openNew_ground sys.hops ground proper
        rw [found] at opened seen
        have run : openForWriteNofollow sys (p ++ [c]) false d = call (openNew sys.hops (p ++ [c])) d := by
          rw [openForWriteNofollow, bind_get, seen]
          rfl
        rw [endState, bind_of_ok cleared, run, ← endState, endState_call, endState_of_ok opened]
        simp [Disk.put]
    | some n =>
      rw [found] at seen
      have linked : (link? d.tree (p ++ [c])).isSome := by
        cases plain : link? d.tree (p ++ [c]) with
        | some link => rfl
        | none =>
          rw [isPresent, stat_eq normal parent plain, found] at there
          cases there
      refine .inl ⟨.inr ⟨linked, there⟩, ⟨.symlinkTarget (p ++ [c]), ?_⟩, ?_⟩
      · have isLink : isSymlink sys.hops d.tree (p ++ [c]) = true := by
          rw [isSymlink, seen]
          cases n with
          | link absolute dest => rfl
          | _ => simp [link?, found] at linked
        rw [bind_of_ok cleared, openForWriteNofollow, bind_get, seen]
        simp [isLink, Option.elim, require]
        rfl
      · rw [removeIfPresent, bind_get, there]
        rfl

theorem lasting_store (policy : ExtractPolicy) (writtenTotal : Nat) (bytesBudget : Option Nat) (mode : Nat) (final : Path)
    (src : Stream δ) : Lasting (store sys policy writtenTotal bytesBudget mode final src) := by
  refine (Lasting.of_reads (reads_lift _)).bind fun tmpPath => .tryCatch ?_ fun e => ?_
  · refine (lasting_clear tmpPath).bind fun _ => (lasting_openForWriteNofollow tmpPath false).bind fun r => ?_
    exact lasting_fill policy _ writtenTotal _ tmpPath final r src
  · exact (lasting_removeIfPresent tmpPath).bind fun _ => .of_reads fun _ => rfl

theorem refuses_store {policy : ExtractPolicy} {writtenTotal mode : Nat} {bytesBudget : Option Nat} {final : Path}
    {f : Unit → Act δ α} (ground : Ground d.tree final.dropLast) (src : Stream δ)
    (lasting : Lasting (f ())) :
    Refuses (store sys policy writtenTotal bytesBudget mode final src >>= f) d ↔
      ∀ tmpPath, atomicTmp sys final = .ok tmpPath → Stuck sys d tmpPath := by
  rw [store, bind_assoc, refuses_lift_bind]
  refine forall₂_congr fun tmpPath named => ?_
  obtain ⟨c, proper, rfl⟩ := atomicTmp_ok named
  rw [← bind_assoc (x := clear sys _)]
  rcases clear_open sys ground proper with ⟨stuck, ⟨e, failed⟩, kept⟩ | ⟨free, grows⟩
  · refine iff_of_true (refuses_bind_error (e := e) ?_) stuck
    rw [tryCatch_of_error (bind_of_error failed), bind_of_ok kept]
    rfl
  · refine iff_of_false (not_refuses_bind_of_grows ?_ fun _ => lasting) free
    suffices later : Later _ _ from grows.trans_le later.length_le
    refine (Lasting.later_bind fun r => ?_).trans (Lasting.later_tryCatch fun e => ?_)
    · exact lasting_fill policy _ writtenTotal _ _ final r src
    · exact (lasting_removeIfPresent _).bind fun _ => .of_reads fun _ => rfl

end stores

def Barred (sys : System) (outdir : Path) (policy : ExtractPolicy) (isManifest : Bool) (d : Disk δ) (member : Member δ) :
    Prop :=
  if member.kind ≠ .dir ∧ member.kind ≠ .file then
    ∀ outdirR, realpath sys d.tree outdir = .ok outdirR → policy.skipSpecial = false
  else ∀ outdirR target, Lands sys outdir d (normalizeTarName sys member.name) outdirR target →
    if member.kind = .dir then Halted d.tree target
    else Halted d.tree target.dropLast ∨ Ground d.tree target.dropLast ∧
      (Textual target.dropLast → outdirR <+: target.dropLast → ∀ final, finalPath sys policy target d = .ok final d →
        ¬(isManifest ∧ member.size > policy.maxManifestBytes) ∧
          (member.stream = none ∨ ∀ tmpPath, atomicTmp sys final = .ok tmpPath → Stuck sys d tmpPath))

theorem refuses_iff [Inhabited δ] {policy : ExtractPolicy} {writtenTotal : Nat} {bytesBudget : Option Nat} {isManifest : Bool}
    {member : Member δ} :
    Refuses (safeExtractOne sys outdir policy writtenTotal bytesBudget isManifest member) d ↔
      Barred sys outdir policy isManifest d member := by
  rw [safeExtractOne, refuses_resolved_bind, Barred]
  by_cases special : member.kind ≠ .dir ∧ member.kind ≠ .file
  · have holds : (decide (member.kind ≠ .dir) && decide (member.kind ≠ .file)) = true := by simpa using special
    rw [if_pos special]
    refine forall₂_congr fun outdirR real => ?_
    rw [if_pos holds, refuses_require_bind]
    cases policy.skipSpecial with
    | true => exact iff_of_false (fun all => not_refuses_pure _ (all rfl)) (by simp)
    | false => exact iff_of_true (fun same => by cases same) rfl
  · have holds : ¬(decide (member.kind ≠ .dir) && decide (member.kind ≠ .file)) = true := by simpa using special
    rw [if_neg special, forall_lands]
    refine forall₂_congr fun outdirR real => ?_
    rw [if_neg holds, refuses_lift_bind]
    refine forall₂_congr fun rel named => ?_
    rw [refuses_resolved_bind]
    refine forall₂_congr fun target there => ?_
    rw [refuses_require_bind, decide_eq_true_eq]
    refine forall_congr' fun inside => ?_
    obtain ⟨normal, unlinked⟩ := realpath_plain there
    have ⟨normalR, unlinkedR⟩ := realpath_plain real
    have parent := unlinked.of_above (List.dropLast_prefix target)
    by_cases isDir : member.kind = .dir
    · rw [if_pos isDir, if_pos isDir]
      refine (refuses_mkdirs_bind normal unlinked ?_).trans (or_iff_left fun made => ?_)
      · exact (lasting_preserveMode policy target _).bind fun _ => .of_reads (.of_pure _)
      · have refused := made.2
        rw [preserveMode] at refused
        split at refused
        · exact not_refuses_suppress_bind refused
        · exact not_refuses_pure _ refused
    · rw [if_neg isDir, if_neg isDir]
      refine (refuses_mkdirs_bind normal.dropLast parent ?_).trans (or_congr_right (and_congr_right fun ground => ?_))
      · refine (Lasting.of_reads (reads_ensureNoSymlinkComponents _ _)).bind fun _ => ?_
        refine (Lasting.of_reads (reads_finalPath policy target)).bind fun final => ?_
        split
        · exact .of_reads (.of_pure _)
        · cases member.stream with
          | none => exact .of_reads fun _ => rfl
          | some src => exact (lasting_store policy _ _ _ final src).bind fun _ => .of_reads (.of_pure _)
      · rw [refuses_ensureNoSymlinkComponents_bind normalR unlinkedR ground]
        refine forall₂_congr fun _ _ => ?_
        rw [refuses_reads_bind (reads_finalPath policy target)]
        refine forall₂_congr fun final chosen => ?_
        split
        · next large =>
          exact iff_of_false (not_refuses_pure _) fun both => both.1 (by simpa using large)
        · next small =>
          rw [and_iff_right (by simpa using small)]
          cases member.stream with
          | none => exact iff_of_true (refuses_throw _) (.inl rfl)
          | some src =>
            have beside : final.dropLast = target.dropLast := by
              rcases finalPath_ok chosen with rfl | ⟨c, -, rfl⟩
              · rfl
              · exact List.dropLast_concat
            refine (refuses_store (beside ▸ ground) src ?_).trans ?_
            · exact .of_reads (.of_pure _)
            · simp

end RAW

/-- A member whose joined path goes over a link below the output directory is refused exactly where it would be without
that: by its kind, size or name, by what is in the way where the path leads, and if that is not in the output directory.
No check for links refuses any. -/
theorem refuses_linked_iff [Inhabited δ] (sys : System) (outdir : Path) (d : Disk δ) (member : Member δ) :
    (∀ skipSpecial maxMemberBytes drawn,
      (Linked sys outdir d (OVF.cleanPosixRelpath member.name) →
          Refuses (OVF.safeExtractOne sys outdir skipSpecial maxMemberBytes drawn member) d) ↔
        (Linked sys outdir d (OVF.cleanPosixRelpath member.name) → OVF.Barred sys outdir maxMemberBytes drawn d member)) ∧
    (∀ skipSpecial maxSingleFileBytes,
      (Linked sys outdir d (AMI.joined member.name) →
          Refuses (AMI.safeExtractOne sys outdir skipSpecial maxSingleFileBytes member) d) ↔
        (Linked sys outdir d (AMI.joined member.name) → AMI.Barred sys outdir skipSpecial maxSingleFileBytes d member)) ∧
    ∀ policy writtenTotal bytesBudget isManifest,
      (Linked sys outdir d (RAW.normalizeTarName sys member.name) →
          Refuses (RAW.safeExtractOne sys outdir policy writtenTotal bytesBudget isManifest member) d) ↔
        (Linked sys outdir d (RAW.normalizeTarName sys member.name) → RAW.Barred sys outdir policy isManifest d member) :=
  ⟨fun _ _ _ => imp_congr_right fun _ => OVF.refuses_iff, fun _ _ => imp_congr_right fun _ => AMI.refuses_iff,
    fun _ _ _ _ => imp_congr_right fun _ => RAW.refuses_iff⟩

/-- A link in the output directory to a directory in it. -/
def linkedInside : Disk Nat := prepared [out, out ++ ["a".toList]] "l" false ["a".toList]

theorem not_refuses_of_content {x : Act Nat α} {n : Nat}
    (written : content linux.hops (endState x linkedInside).tree p = some n) (free : content linux.hops linkedInside.tree p = none) : ¬Refuses x linkedInside := by
  rintro ⟨e, run⟩
  rw [endState_of_error run, free] at written
  cases written

/-- A file is written through the link. -/
theorem not_refuses_linkedInside :
    (Linked linux out linkedInside (OVF.cleanPosixRelpath (regular "l/f").name) ∧
      ¬Refuses (OVF.safeExtractOne linux out true none ["t".toList] (regular "l/f")) linkedInside) ∧
    (Linked linux out linkedInside (AMI.joined (regular "l/f").name) ∧
      ¬Refuses (AMI.safeExtractOne linux out true none (regular "l/f")) linkedInside) ∧
    Linked linux out linkedInside (RAW.normalizeTarName linux (regular "l/f").name) ∧
      ¬Refuses (RAW.safeExtractOne linux out {} 0 none false (regular "l/f")) linkedInside := by
  have real : realpath linux linkedInside.tree out = .ok out := by decide +kernel
  have linked {parts : Except Failure Path} (named : parts = .ok ["l".toList, "f".toList]) :
      Linked linux out linkedInside parts :=
    ⟨out, _, ["l".toList], real, named, by decide, by decide, by decide +kernel⟩
  have free : content linux.hops linkedInside.tree (out ++ ["a".toList, "f".toList]) = none := by decide +kernel
  refine ⟨⟨linked (by decide +kernel), ?_⟩, ⟨linked (by decide +kernel), ?_⟩, linked (by decide +kernel), ?_⟩
  · exact not_refuses_of_content (n := 7) (by decide +kernel) free
  · exact not_refuses_of_content (n := 7) (by decide +kernel) free
  · exact not_refuses_of_content (n := 7) (by decide +kernel) free

end H2kvm.Converters.Extract
