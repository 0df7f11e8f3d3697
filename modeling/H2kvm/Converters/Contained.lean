import H2kvm.Converters.Extract

namespace H2kvm.Converters.Extract

open Framework FileTree Names Paths Text

/-- From one state of a disk on to another, everything was done at or below a directory, what is elsewhere is as it
was, and no link or device is new. -/
structure Contained {δ : Type} (dir : Path) (d d' : Disk δ) : Prop where
  log : ∃ new, d'.log = d.log ++ new ∧ ∀ c ∈ new, dir <+: c.location
  outer : ∀ q, ¬ dir <+: q → node d'.tree q = node d.tree q
  odd : ∀ q n, node d'.tree q = some n → n.odd = true → node d.tree q = some n

variable {δ α β : Type} {sys : System} {drops : Bool} {outdir dir target p q r : Path} {d d' : Disk δ}

theorem contained_of_onward (onward : Onward drops dir d d') : Contained dir d d' := ⟨onward.log, onward.outer, onward.odd⟩

section reading

theorem reads_lift (x : Except Failure α) : Reads (lift x : Act δ α) := by
  intro d
  cases x <;> rfl

theorem reads_resolved (p : Path) : Reads (resolved sys p : Act δ Path) := fun d => reads_lift (realpath sys d.tree p) d

theorem lift_ok {x : Except Failure α} {a : α} (h : lift x d = .ok a d') : x = .ok a := by
  cases x <;> cases h
  rfl

theorem resolved_ok (h : resolved sys p d = .ok r d') : realpath sys d.tree p = .ok r := lift_ok h

theorem call_ok {x : Call δ α} {a : α} (h : call x d = .ok a d') : x d = .ok a d' := by
  simp only [call, EStateM.adaptExcept] at h
  cases run : x d with
  | ok b s =>
    rw [run] at h
    cases h
    rfl
  | error e s =>
    rw [run] at h
    cases h

theorem require_ok {holds : Bool} {e : Failure} {u : Unit} (h : (require holds e : Act δ Unit) d = .ok u d') :
    holds = true := (require_of_ok h).1

@[simp] theorem endState_call (x : Call δ α) : endState (call x) d = endState x d := endState_adaptExcept _ _ _

theorem endState_call_bind {x : Call δ α} {f : α → Act δ β} (first : Onward drops dir d (endState x d))
    (second : ∀ a d', x d = .ok a d' → Onward drops dir d d' → Onward drops dir d' (endState (f a) d')) :
    Onward drops dir d (endState (call x >>= f) d) := by
  refine endState_bind (by rwa [endState_call]) fun a d' made onward => ?_
  exact second a d' (call_ok made) onward

end reading

section places

theorem realpath_eq_ok_iff : realpath sys d.tree p = .ok r ↔
    p.any (·.contains '\x00') = false ∧ resolve .lenient d.tree sys.depth [] p = .ok r := by
  rw [realpath]
  cases p.any (·.contains '\x00') with
  | true => simp
  | false =>
    cases resolve .lenient d.tree sys.depth [] p <;> simp

/-- The place of a name is a plain path. -/
theorem realpath_plain (real : realpath sys d.tree p = .ok r) : Normal r ∧ Unlinked d.tree r := by
  have walked := (realpath_eq_ok_iff.mp real).2
  have root : Normal [] := nofun
  refine ⟨resolve_normal root walked, resolve_unlinked ?_ walked⟩
  intro q above
  rw [List.prefix_nil.mp above]
  exact link?_root

theorem realpath_ground (ground : Ground d.tree dir) (real : realpath sys d.tree dir = .ok r) : r = dir :=
  eq_of_resolve ground.normal (ground.rooted.unlinked ground.isDir) (realpath_eq_ok_iff.mp real).2

/-- If no link is taken away, a name leads where it led. -/
theorem realpath_onward_iff (onward : Onward false dir d d') :
    realpath sys d'.tree p = .ok r ↔ realpath sys d.tree p = .ok r := by
  have same : ∀ q, link? d'.tree q = link? d.tree q := onward.links rfl
  have back : Simulates .lenient d'.tree .lenient d.tree :=
    ⟨nofun, nofun, fun q none => (same q).symm.trans none, fun q _ => (same q).symm⟩
  have on : Simulates .lenient d.tree .lenient d'.tree :=
    ⟨nofun, nofun, fun q none => (same q).trans none, fun q _ => same q⟩
  rw [realpath_eq_ok_iff, realpath_eq_ok_iff]
  exact and_congr_right fun _ => ⟨resolve_simulates back le_rfl, resolve_simulates on le_rfl⟩

theorem prefix_dropLast_or_eq (inside : dir <+: target) : dir <+: target.dropLast ∨ target = dir := by
  cases target using List.reverseRecOn with
  | nil => exact Or.inr (List.prefix_nil.mp inside).symm
  | append_singleton target c =>
    rw [List.dropLast_concat]
    rcases List.prefix_concat_iff.mp inside with same | above
    · exact Or.inr same.symm
    · exact Or.inl above

/-- A directory is made for what goes to a place, unless it is there. -/
theorem mkdirs_dropLast_onward (ground : Ground d.tree dir) (normal : Normal target) (unlinked : Unlinked d.tree target)
    (inside : dir <+: target) : Onward drops dir d (endState (mkdirs sys.hops target.dropLast) d) := by
  rcases prefix_dropLast_or_eq inside with above | rfl
  · exact mkdirs_onward ground normal.dropLast (unlinked.of_above (List.dropLast_prefix target)) above
  · rw [mkdirs_of_ground ground.dropLast]
    exact .refl d

/-- A child that is no link is reached without links. -/
theorem unlinked_of_dropLast (unlinked : Unlinked d.tree p.dropLast) (plain : link? d.tree p = none) :
    Unlinked d.tree p := by
  cases p using List.reverseRecOn with
  | nil => exact unlinked
  | append_singleton p c =>
    rw [List.dropLast_concat] at unlinked
    exact unlinked.concat plain

theorem removeIfPresent_onward (secure : Secure d.tree dir p) (kept : drops = false → link? d.tree p = none) :
    Onward drops dir d (endState (removeIfPresent sys p) d) := by
  refine Reads.of_get.endState_bind fun s got => ?_
  cases got
  split
  · rw [endState_suppress]
    exact unlink_onward secure kept
  · exact .refl d

/-- The output directory is there, and its path leads nowhere else. -/
structure Stands (sys : System) (outdir dir : Path) (d : Disk δ) : Prop where
  ground : Ground d.tree dir
  leads : ∀ r, realpath sys d.tree outdir = .ok r → r = dir

theorem Stands.of_ground (ground : Ground d.tree dir) : Stands sys dir dir d := ⟨ground, fun _ => realpath_ground ground⟩

theorem Stands.onward (stands : Stands sys outdir dir d) (onward : Onward false dir d d') : Stands sys outdir dir d' :=
  ⟨onward.ground stands.ground, fun r real => stands.leads r ((realpath_onward_iff onward).mp real)⟩

theorem Stands.of_isDirectory (real : realpath sys d.tree outdir = .ok dir)
    (there : isDirectory sys.hops d.tree outdir = true) : Stands sys outdir dir d := by
  obtain ⟨r, walked, found⟩ := isDirectory_iff.mp there
  have same : r = dir := resolve_unique (Simulates.lenient .kernel d.tree) walked (realpath_eq_ok_iff.mp real).2
  subst same
  refine ⟨ground_of_resolve walked found, fun q real' => ?_⟩
  rw [real] at real'
  exact (Except.ok.inj real').symm

end places

theorem reads_checkLimits (limits : Limits) (members : List (Member δ)) : Reads (checkLimits limits members : Act δ Unit) :=
  (Reads.of_require _ _).bind fun _ => Reads.of_require _ _

namespace OVF

theorem reads_assertNoSymlinkParents (outdir target : Path) :
    Reads (assertNoSymlinkParents sys outdir target : Act δ Unit) :=
  Reads.of_get.bind fun _ => (Reads.of_require _ _).bind fun _ => Reads.of_require _ _

theorem reads_safeOutPath (outdir : Path) (rel : List Char) : Reads (safeOutPath sys outdir rel : Act δ Path) := by
  refine (reads_resolved outdir).bind fun outdirR => (reads_lift _).bind fun parts => ?_
  refine (reads_resolved _).bind fun target => (Reads.of_require _ _).bind fun _ => ?_
  exact (reads_assertNoSymlinkParents outdirR target).bind fun _ => Reads.of_pure target

theorem safeOutPath_ok {rel : List Char} (h : safeOutPath sys outdir rel d = .ok target d') :
    ∃ outdirR parts, realpath sys d.tree outdir = .ok outdirR ∧ cleanPosixRelpath rel = .ok parts ∧
      realpath sys d.tree (outdirR ++ parts) = .ok target ∧ outdirR <+: target := by
  obtain ⟨outdirR, first, rest⟩ := (reads_resolved outdir).bind_ok h
  obtain ⟨parts, cleaned, rest⟩ := (reads_lift _).bind_ok rest
  obtain ⟨target', joined, rest⟩ := (reads_resolved _).bind_ok rest
  obtain ⟨_, below, rest⟩ := (Reads.of_require _ _).bind_ok rest
  obtain ⟨_, _, last⟩ := (reads_assertNoSymlinkParents outdirR target').bind_ok rest
  cases last
  exact ⟨outdirR, parts, resolved_ok first, lift_ok cleaned, resolved_ok joined, of_decide_eq_true (require_ok below)⟩

theorem proper_temporaryNames (target : Path) (drawn : List (List Char)) :
    ∀ name ∈ temporaryNames target drawn, Proper name := by
  intro name member
  obtain ⟨text, -, rfl⟩ := List.mem_map.mp member
  apply proper_of_length
  simp
  omega

theorem store_onward [Inhabited δ] (normal : Normal target) (unlinked : Unlinked d.tree target)
    (inside : dir <+: target.dropLast) (drawn : List (List Char)) (src : Stream δ) :
    Onward drops dir d (endState (store sys target drawn src) d) := by
  have parent := unlinked.of_above (List.dropLast_prefix target)
  have proper := proper_temporaryNames target drawn
  refine endState_call_bind (mkstemp_onward normal.dropLast parent inside proper) fun tmpPath d1 made first => ?_
  obtain ⟨⟨name, member, rfl⟩, found⟩ := mkstemp_of_ok normal.dropLast parent inside proper made
  obtain ⟨-, plain⟩ := plain_of_file found
  have secure : Secure d1.tree dir (target.dropLast ++ [name]) :=
    .child normal.dropLast (proper name member) (first.unlinked parent) inside
  have remove {d2 : Disk δ} (further : Onward drops dir d1 d2) :
      Onward drops dir d2 (endState (removeIfPresent sys (target.dropLast ++ [name])) d2) :=
    removeIfPresent_onward (further.secure secure) fun _ => further.link_none plain
  have moved : Secure d.tree dir target :=
    .of_unlinked normal unlinked (inside.trans (List.dropLast_prefix target))
  refine endState_bind (endState_tryCatch ?_ fun e d2 _ further => ?_) fun _ d2 _ further => remove further
  · refine endState_call_bind (write_onward secure.inside src.data) fun _ d2 _ second => ?_
    refine (Reads.of_require _ _).endState_bind fun _ _ => ?_
    have target' := first.trans second
    refine endState_call_bind (replace_onward (second.secure secure) (target'.secure moved) ?_ fun _ => ?_) fun _ d3 _ third => ?_
    · exact fun n there => second.not_odd_of_file found there
    · exact target'.link_none (unlinked target List.prefix_rfl)
    · rw [endState_suppress]
      exact chmod_onward normal ((target'.trans third).unlinked unlinked) moved.inside 0o644
  · exact endState_bind (remove further) fun _ d3 _ _ => .refl d3

/-- The directory of the place a file goes to is in the output directory as well. -/
def Apart (sys : System) (dir : Path) (maxMemberBytes : Option Nat) (d : Disk δ) (member : Member δ) : Prop :=
  member.kind = .file → within maxMemberBytes member.size → member.stream.isSome →
    ∀ parts target, cleanPosixRelpath member.name = .ok parts → realpath sys d.tree (dir ++ parts) = .ok target →
      dir <+: target → dir <+: target.dropLast

theorem safeExtractOne_onward [Inhabited δ] {skipSpecial : Bool} {maxMemberBytes : Option Nat} {member : Member δ}
    (stands : Stands sys outdir dir d) (apart : Apart sys dir maxMemberBytes d member) (drawn : List (List Char)) :
    Onward drops dir d (endState (safeExtractOne sys outdir skipSpecial maxMemberBytes drawn member) d) := by
  rw [safeExtractOne]
  split
  · exact .refl d
  · split
    · refine (reads_safeOutPath outdir member.name).endState_bind fun target there => ?_
      obtain ⟨outdirR, parts, real, -, joined, inside⟩ := safeOutPath_ok there
      obtain rfl := stands.leads outdirR real
      obtain ⟨normal, unlinked⟩ := realpath_plain joined
      exact endState_call_bind (mkdirs_onward stands.ground normal unlinked inside) fun _ d1 _ _ => .refl d1
    · split
      · exact .refl d
      · next isFile =>
        refine (Reads.of_require _ _).endState_bind fun _ small => ?_
        refine (reads_safeOutPath outdir member.name).endState_bind fun target there => ?_
        obtain ⟨outdirR, parts, real, cleaned, joined, inside⟩ := safeOutPath_ok there
        obtain rfl := stands.leads outdirR real
        obtain ⟨normal, unlinked⟩ := realpath_plain joined
        refine endState_call_bind (mkdirs_dropLast_onward stands.ground normal unlinked inside) fun _ d1 _ made => ?_
        split
        · exact .refl d1
        · next src stream =>
          have above := apart (not_not.mp isFile) (require_ok small) (by rw [stream]; rfl) parts target cleaned joined inside
          exact endState_bind (store_onward normal (made.unlinked unlinked) above drawn src) fun _ d2 _ _ => .refl d2

theorem extractNext_onward [Inhabited δ] {opts : Options} {next : Member δ × List (List Char)}
    (stands : Stands sys outdir dir d) (apart : Apart sys dir opts.maxMemberBytes d next.1) (regularFileCount : Nat) :
    Onward drops dir d (endState (extractNext sys outdir opts regularFileCount next) d) := by
  refine (Reads.of_require _ _).endState_bind fun _ _ => endState_bind ?_ fun _ d1 _ _ => .refl d1
  rw [endState_suppress]
  exact endState_bind (safeExtractOne_onward stands apart next.2) fun _ d1 _ _ => .refl d1

theorem extractOva_onward [Inhabited δ] {opts : Options} {members : List (Member δ × List (List Char))}
    (stands : Stands sys outdir dir d)
    (rounds : EachRound (extractNext sys outdir opts) (fun d next => Apart sys dir opts.maxMemberBytes d next.1) members 0 d) :
    Onward false dir d (endState (extractOva sys outdir opts members) d) := by
  refine (reads_checkLimits _ _).endState_bind fun _ _ => endState_bind ?_ fun _ d1 _ _ => .refl d1
  exact endState_foldlM (fun files next _ d stands apart => extractNext_onward stands apart files)
    (fun d d' stands onward => stands.onward onward) stands rounds

end OVF

namespace AMI

theorem reads_hasSymlinkInParents (baseDir targetDir : Path) :
    Reads (hasSymlinkInParents sys baseDir targetDir : Act δ Bool) := by
  refine (reads_resolved baseDir).bind fun baseR => (reads_resolved targetDir).bind fun targetR => ?_
  refine Reads.of_get.bind fun d => ?_
  split
  · exact Reads.of_pure _
  · exact Reads.of_pure _

theorem store_onward [Inhabited δ] (normal : Normal target) (unlinked : Unlinked d.tree target) (inside : dir <+: target)
    (limit : Option Nat) (src : Stream δ) : Onward drops dir d (endState (store sys target limit src) d) := by
  obtain ⟨opened, place⟩ : Onward drops dir d (endState (openOver sys.hops (!sys.noFollow) target) d) ∧ _ :=
    openOver_onward (!sys.noFollow) normal unlinked inside
  refine endState_tryCatch ?_ fun e d1 _ first => ?_
  · refine endState_call_bind opened fun r d1 run _ => ?_
    obtain rfl := place r d1 run
    refine endState_call_bind (write_onward inside src.data) fun _ d2 _ _ => ?_
    refine (Reads.of_require _ _).endState_bind fun _ _ => (Reads.of_require _ _).endState_bind fun _ _ => ?_
    exact .refl d2
  · split
    · have there := first.unlinked unlinked
      have removed : Onward drops dir d1 (endState (removeIfPresent sys target) d1) :=
        removeIfPresent_onward (.of_unlinked normal there inside) fun _ => there target List.prefix_rfl
      exact endState_bind removed fun _ d2 _ _ => .refl d2
    · exact .refl d1

theorem safeExtractOne_onward [Inhabited δ] {skipSpecial : Bool} {maxSingleFileBytes : Option Nat} {member : Member δ}
    (stands : Stands sys outdir dir d) :
    Onward drops dir d (endState (safeExtractOne sys outdir skipSpecial maxSingleFileBytes member) d) := by
  refine (reads_resolved outdir).endState_bind fun outdirR real => ?_
  obtain rfl := stands.leads outdirR (resolved_ok real)
  refine (Reads.of_require _ _).endState_bind fun _ _ => (Reads.of_require _ _).endState_bind fun _ _ => ?_
  refine (reads_resolved _).endState_bind fun target joined => ?_
  obtain ⟨normal, unlinked⟩ := realpath_plain (resolved_ok joined)
  refine (Reads.of_require _ _).endState_bind fun _ below => (Reads.of_require _ _).endState_bind fun _ _ => ?_
  have inside : outdirR <+: target := of_decide_eq_true (require_ok below)
  split
  · refine (reads_hasSymlinkInParents _ _).endState_bind fun _ _ => (Reads.of_require _ _).endState_bind fun _ _ => ?_
    refine endState_call_bind (mkdirs_onward stands.ground normal unlinked inside) fun _ d1 _ made => ?_
    split
    · refine endState_bind ?_ fun _ d2 _ _ => .refl d2
      rw [endState_suppress]
      exact chmod_onward normal (made.unlinked unlinked) inside member.mode
    · exact .refl d1
  · split
    · split
      · exact .refl d
      · exact .refl d
    · refine endState_call_bind (mkdirs_dropLast_onward stands.ground normal unlinked inside) fun _ d1 _ made => ?_
      refine (reads_hasSymlinkInParents _ _).endState_bind fun _ _ => (Reads.of_require _ _).endState_bind fun _ _ => ?_
      refine Reads.of_get.endState_bind fun s _ => (Reads.of_require _ _).endState_bind fun _ _ => ?_
      split
      · exact .refl d1
      · next src _ =>
        refine endState_bind (store_onward normal (made.unlinked unlinked) inside _ src) fun _ d2 _ stored => ?_
        refine endState_bind ?_ fun _ d3 _ _ => .refl d3
        rw [endState_suppress]
        exact chmod_onward normal ((made.trans stored).unlinked unlinked) inside _

theorem extractTar_onward [Inhabited δ] {opts : Options} {members : List (Member δ)} (stands : Stands sys outdir dir d) :
    Onward false dir d (endState (extractTar sys outdir opts members) d) := by
  refine (reads_resolved outdir).endState_bind fun outdirR real => (reads_checkLimits _ _).endState_bind fun _ _ => ?_
  obtain rfl := stands.leads outdirR (resolved_ok real)
  have rounds : EachRound (extractNext sys outdirR opts) (fun _ _ => True) members () d :=
    eachRound_of_invariant (I := fun _ => True) (fun _ _ _ _ => trivial) (fun _ _ _ => trivial) trivial
  refine endState_foldlM (fun _ member _ d ground _ => ?_) (fun d d' ground onward => onward.ground ground) stands.ground rounds
  exact endState_bind (safeExtractOne_onward (.of_ground ground)) fun _ d1 _ _ => .refl d1

/-- The path of a directory at or below another. -/
def Beneath (sys : System) (dir : Path) (d : Disk δ) (p : Path) : Prop :=
  ∃ r, resolve .kernel d.tree sys.hops [] p = .ok r ∧ isDir d.tree r = true ∧ dir <+: r

/-- If no link is taken away, a system call finds what it found. -/
theorem resolve_onward (onward : Onward false dir d d') (walked : resolve .kernel d.tree sys.hops [] p = .ok r) :
    resolve .kernel d'.tree sys.hops [] p = .ok r := by
  have sim : Simulates .kernel d.tree .kernel d'.tree :=
    ⟨fun strict => ⟨strict, onward.dirs⟩, fun _ refused => refused, fun q => onward.link_none,
      fun q _ => onward.links rfl q⟩
  exact resolve_simulates sim le_rfl walked

theorem Beneath.onward (beneath : Beneath sys dir d p) (onward : Onward false dir d d') : Beneath sys dir d' p := by
  obtain ⟨r, walked, found, inside⟩ := beneath
  exact ⟨r, resolve_onward onward walked, onward.dirs r found, inside⟩

theorem mem_cursors {base rel : Path} (above : p <+: rel) (named : p ≠ []) : base ++ p ∈ cursors base rel := by
  have member : p ∈ rel.inits := (List.mem_inits p rel).mpr above
  refine List.mem_map_of_mem ?_
  cases rel with
  | nil => exact absurd (List.prefix_nil.mp above) named
  | cons c rel =>
    rw [List.inits_cons] at member ⊢
    exact List.mem_of_ne_of_mem named member

/-- What `rglob` meets lies in directories below the one it starts from. -/
theorem ground_of_mem_rglob (ground : Ground d.tree dir) (member : p ∈ rglob d.tree dir) :
    p ≠ [] ∧ Normal p ∧ Ground d.tree (dir ++ p.dropLast) := by
  obtain ⟨q, kept, rfl⟩ := List.mem_map.mp member
  obtain ⟨-, passes⟩ := List.mem_filter.mp kept
  simp only [Bool.and_eq_true, decide_eq_true_eq, List.all_eq_true] at passes
  obtain ⟨⟨⟨inside, differ⟩, normal⟩, dirs⟩ := passes
  obtain ⟨rel, rfl⟩ := inside
  rw [List.drop_left] at dirs ⊢
  have normal' : Normal rel := fun c inRel => normal c (List.mem_append_right dir inRel)
  have there : ∀ x, x <+: rel.dropLast → isDir d.tree (dir ++ x) = true := by
    intro x above
    by_cases empty : x = []
    · rw [empty, List.append_nil]
      exact ground.isDir
    · exact dirs _ (mem_cursors above empty)
  refine ⟨?_, normal', ?_, ?_, there _ List.prefix_rfl⟩
  · rintro rfl
    exact differ (List.append_nil dir)
  · intro c inPath
    rcases List.mem_append.mp inPath with old | new
    · exact ground.normal c old
    · exact normal'.dropLast c new
  · intro x above _
    rcases List.prefix_or_prefix_of_prefix above (List.prefix_append dir rel.dropLast) with higher | ⟨y, rfl⟩
    · by_cases same : x = dir
      · rw [same]
        exact ground.isDir
      · exact ground.rooted x higher same
    · exact there y ((List.prefix_append_right_inj dir).mp above)

theorem beneath_of_mem_candidates {t : Path} (stands : Stands sys outdir dir d) (real : realpath sys d.tree outdir = .ok dir)
    (member : t ∈ candidates sys d.tree outdir) : Beneath sys dir d t.dropLast := by
  rw [candidates] at member
  split at member
  · cases member
  · next r walked =>
    have same : r = dir := resolve_unique (Simulates.lenient .kernel d.tree) walked (realpath_eq_ok_iff.mp real).2
    subst same
    rw [List.mem_mergeSort] at member
    obtain ⟨rel, met, rfl⟩ := List.mem_map.mp (List.mem_filter.mp member).1
    obtain ⟨named, normal, ground⟩ := ground_of_mem_rglob stands.ground met
    refine ⟨r ++ rel.dropLast, ?_, ground.isDir, List.prefix_append r _⟩
    rw [List.dropLast_append_of_ne_nil named]
    exact resolve_append normal.dropLast (ground.rooted.unlinked ground.isDir) (fun _ => ground.rooted) walked

/-- Where a nested archive goes is no directory outside. -/
def Apart (sys : System) (dir : Path) (getmembers : δ → Option (List (Member δ))) (d : Disk δ) (t : Path) : Prop :=
  ((content sys.hops d.tree t).bind getmembers).isSome →
    ∀ r, resolve .kernel d.tree sys.hops [] (nestedOut t) = .ok r → isDir d.tree r = true → dir <+: r

theorem nestedOut_eq (t : Path) : ∃ c, Proper c ∧ nestedOut t = t.dropLast ++ [c] := by
  refine ⟨_, proper_of_length ?_, rfl⟩
  simp

/-- The directory of a nested archive is made beside it, or stood there. -/
theorem mkdirs_nestedOut {t : Path} (beneath : Beneath sys dir d t.dropLast)
    (apart : ∀ r, resolve .kernel d.tree sys.hops [] (nestedOut t) = .ok r → isDir d.tree r = true → dir <+: r) :
    Onward false dir d (endState (mkdirs sys.hops (nestedOut t)) d) ∧
      ∀ u d', mkdirs sys.hops (nestedOut t) d = .ok u d' → Beneath sys dir d' (nestedOut t) := by
  obtain ⟨parent, walked, found, inside⟩ := beneath
  obtain ⟨c, proper, out⟩ := nestedOut_eq t
  rw [out] at apart ⊢
  have run := mkdirs_of_place (place_concat proper walked found)
  split at run
  · split at run
    · next there =>
      obtain ⟨r, leads, isD⟩ := isDirectory_iff.mp there
      rw [endState_of_ok run]
      refine ⟨.refl d, fun u d' made => ?_⟩
      rw [run] at made
      cases made
      exact ⟨r, leads, isD, apart r leads isD⟩
    · rw [endState_of_error run]
      refine ⟨.refl d, fun u d' made => ?_⟩
      rw [run] at made
      cases made
  · next free =>
    have none := Option.not_isSome_iff_eq_none.mp free
    have below := inside.trans (List.prefix_append parent [c])
    have first : Onward false dir d (d.put (parent ++ [c]) .dir .created) :=
      .put below rfl (isDir_of_none none) fun _ => link?_of_none none
    rw [endState_of_ok run]
    refine ⟨first, fun u d' made => ?_⟩
    rw [run] at made
    cases made
    have child : isDir (d.put (parent ++ [c]) .dir .created).tree (parent ++ [c]) = true := by
      rw [isDir, Disk.put, node_insert (ne_nil_of_not_dir (isDir_of_none none)), if_pos rfl]
    exact ⟨_, resolve_concat proper (resolve_onward first walked) (first.dirs parent found) child, child, below⟩

theorem extractNested_onward [Inhabited δ] {getmembers : δ → Option (List (Member δ))} {opts : Options} {t : Path}
    (beneath : Beneath sys dir d t.dropLast) (apart : Apart sys dir getmembers d t) :
    Onward false dir d (endState (extractNested sys getmembers opts () t) d) := by
  refine Reads.of_get.endState_bind fun s got => ?_
  cases got
  split
  · exact .refl d
  · next members archive =>
    obtain ⟨made, leads⟩ := mkdirs_nestedOut beneath (apart (by rw [archive]; rfl))
    refine endState_call_bind made fun u d1 run _ => ?_
    obtain ⟨r, walked, found, inside⟩ := leads u d1 run
    have stands : Stands sys (nestedOut t) r d1 :=
      ⟨ground_of_resolve walked found, fun q real =>
        (resolve_unique (Simulates.lenient .kernel d1.tree) walked (realpath_eq_ok_iff.mp real).2).symm⟩
    rw [endState_suppress]
    exact (extractTar_onward stands).widen inside

theorem extractAll_onward [Inhabited δ] {getmembers : δ → Option (List (Member δ))} {opts : Options}
    {extractNestedTar : Bool} {members : List (Member δ)} (stands : Stands sys outdir dir d) (real : realpath sys d.tree outdir = .ok dir)
    (rounds : extractNestedTar → ∀ d', extractTar sys outdir opts members d = .ok () d' →
      EachRound (extractNested sys getmembers opts) (Apart sys dir getmembers) (candidates sys d'.tree outdir) () d') :
    Onward false dir d (endState (extractAll sys getmembers outdir opts extractNestedTar members) d) := by
  refine endState_bind (extractTar_onward stands) fun _ d1 run first => Reads.of_get.endState_bind fun s got => ?_
  cases got
  split
  · next nested =>
    refine endState_foldlM (I := fun d2 => ∀ t ∈ candidates sys d1.tree outdir, Beneath sys dir d2 t.dropLast)
      (fun _ t member d2 beneath apart => extractNested_onward (beneath t member) apart)
      (fun d2 d3 beneath onward t member => (beneath t member).onward onward) (fun t member => ?_) (rounds nested d1 run)
    exact beneath_of_mem_candidates (stands.onward first) ((realpath_onward_iff first).mpr real) member
  · exact .refl d1

end AMI

namespace RAW

theorem reads_ensureNoSymlinkComponents (base targetDir : Path) :
    Reads (ensureNoSymlinkComponents sys base targetDir : Act δ Unit) := by
  refine (reads_resolved base).bind fun base => (reads_resolved targetDir).bind fun targetDir => ?_
  refine (Reads.of_require _ _).bind fun _ => Reads.of_get.bind fun d => ?_
  exact Reads.foldlM (fun _ cur => (reads_lift _).bind fun _ => Reads.of_require _ _) _ ()

theorem ensureNoSymlinkComponents_ok {base targetDir : Path} {u : Unit} (normal : Normal base)
    (unlinked : Unlinked d.tree base) (normal' : Normal targetDir) (unlinked' : Unlinked d.tree targetDir)
    (passed : ensureNoSymlinkComponents sys base targetDir d = .ok u d') : base <+: targetDir := by
  obtain ⟨baseR, first, rest⟩ := (reads_resolved base).bind_ok passed
  obtain ⟨targetR, second, last⟩ := (reads_resolved targetDir).bind_ok rest
  obtain ⟨_, below, _⟩ := (Reads.of_require _ _).bind_ok last
  have same := eq_of_resolve normal unlinked (realpath_eq_ok_iff.mp (resolved_ok first)).2
  have there := eq_of_resolve normal' unlinked' (realpath_eq_ok_iff.mp (resolved_ok second)).2
  rw [← same, ← there]
  exact of_decide_eq_true (require_ok below)

theorem reads_finalPath (policy : ExtractPolicy) (target : Path) : Reads (finalPath sys policy target : Act δ Path) := by
  refine Reads.of_get.bind fun d => ?_
  split
  · refine (reads_lift _).bind fun _ => (Reads.of_require _ _).bind fun _ => ?_
    split
    · exact reads_lift _
    · exact (Reads.of_require _ _).bind fun _ => Reads.of_pure target
  · exact Reads.of_pure target

theorem uniquePath_ok {t : Places δ} {path : Path} (h : uniquePath sys t path = .ok r) :
    r = path ∨ ∃ c, Proper c ∧ r = path.dropLast ++ [c] := by
  rw [uniquePath] at h
  split at h
  · dsimp only at h
    split at h
    · cases h
      refine Or.inr ⟨_, proper_of_length ?_, rfl⟩
      simp
      omega
    · cases h
  · cases h
    exact Or.inl rfl

/-- A file goes to its target, or beside it. -/
theorem finalPath_ok {policy : ExtractPolicy} (h : finalPath sys policy target d = .ok r d') :
    r = target ∨ ∃ c, Proper c ∧ r = target.dropLast ++ [c] := by
  obtain ⟨s, _, rest⟩ := Reads.of_get.bind_ok h
  split at rest
  · obtain ⟨_, _, rest⟩ := (reads_lift _).bind_ok rest
    obtain ⟨_, _, rest⟩ := (Reads.of_require _ _).bind_ok rest
    split at rest
    · exact uniquePath_ok (lift_ok rest)
    · obtain ⟨_, _, last⟩ := (Reads.of_require _ _).bind_ok rest
      cases last
      exact Or.inl rfl
  · cases rest
    exact Or.inl rfl

theorem atomicTmp_ok (h : atomicTmp sys p = .ok r) : ∃ c, Proper c ∧ r = p.dropLast ++ [c] := by
  rw [atomicTmp] at h
  split at h
  · cases h
  · cases h
    refine ⟨_, proper_of_length ?_, rfl⟩
    simp
    omega

theorem clear_onward (secure : Secure d.tree dir p) : Onward true dir d (endState (clear sys p) d) := by
  refine Reads.of_get.endState_bind fun s _ => ?_
  split
  · rw [endState_call]
    exact unlink_onward secure nofun
  · exact .refl d

theorem preserveMode_onward (normal : Normal p) (unlinked : Unlinked d.tree p) (inside : dir <+: p) (policy : ExtractPolicy)
    (mode : Nat) : Onward drops dir d (endState (preserveMode sys policy p mode) d) := by
  rw [preserveMode]
  split
  · rw [endState_suppress]
    exact chmod_onward normal unlinked inside _
  · exact .refl d

section opening

variable [Inhabited δ]

/-- What may not be overwritten is only opened if it is new. -/
theorem openForWriteNofollow_put (secure : Secure d.tree dir p) (h : openForWriteNofollow sys p false d = .ok r d') :
    r = p ∧ node d.tree p = none ∧ d' = d.put p (.file default) .created := by
  obtain ⟨s, got, rest⟩ := Reads.of_get.bind_ok h
  cases got
  cases found : lstat sys.hops d.tree p with
  | ok n =>
    rw [found] at rest
    obtain ⟨_, _, rest⟩ := (Reads.of_require _ _).bind_ok rest
    obtain ⟨_, overwrite, _⟩ := (Reads.of_require _ _).bind_ok rest
    cases require_ok overwrite
  | error e =>
    rw [found] at rest
    dsimp only at rest
    split at rest
    · exact openNew_of_ok secure (call_ok rest)
    · cases rest

theorem openForWriteNofollow_ok (secure : Secure d.tree dir p) (h : openForWriteNofollow sys p false d = .ok r d') :
    r = p ∧ node d'.tree p = some (.file default) := by
  obtain ⟨same, free, rfl⟩ := openForWriteNofollow_put secure h
  refine ⟨same, ?_⟩
  rw [Disk.put, node_insert (ne_nil_of_not_dir (isDir_of_none free)), if_pos rfl]

theorem openForWriteNofollow_onward (secure : Secure d.tree dir p) :
    Onward drops dir d (endState (openForWriteNofollow sys p false) d) := by
  refine Reads.of_get.endState_bind fun s got => ?_
  cases got
  cases lstat sys.hops d.tree p with
  | ok n =>
    refine (Reads.of_require _ _).endState_bind fun _ _ => (Reads.of_require _ _).endState_bind fun _ overwrite => ?_
    cases require_ok overwrite
  | error e =>
    dsimp only
    split
    · rw [endState_call]
      exact openNew_onward secure
    · exact .refl d

theorem store_onward {policy : ExtractPolicy} {writtenTotal : Nat} {bytesBudget : Option Nat} {mode : Nat} {src : Stream δ}
    (secure : Secure d.tree dir p) (inside : dir <+: p.dropLast) :
    Onward true dir d (endState (store sys policy writtenTotal bytesBudget mode p src) d) := by
  refine (reads_lift _).endState_bind fun tmpPath named => ?_
  obtain ⟨c, proper, rfl⟩ := atomicTmp_ok (lift_ok named)
  have tmp : Secure d.tree dir (p.dropLast ++ [c]) := .child secure.normal.dropLast proper secure.unlinked inside
  refine endState_tryCatch (endState_bind (clear_onward tmp) fun _ d1 _ first => ?_) fun e d1 _ first => ?_
  · refine endState_bind (openForWriteNofollow_onward (first.secure tmp)) fun r d2 opened second => ?_
    obtain ⟨rfl, found⟩ := openForWriteNofollow_ok (first.secure tmp) opened
    obtain ⟨-, plain⟩ := plain_of_file found
    have there := first.trans second
    refine endState_call_bind (write_onward tmp.inside src.data) fun _ d3 _ third => ?_
    refine (Reads.of_require _ _).endState_bind fun _ _ => (Reads.of_require _ _).endState_bind fun _ _ => ?_
    have unlinked := unlinked_of_dropLast ((there.secure tmp).unlinked) plain
    refine endState_bind (preserveMode_onward tmp.normal (third.unlinked unlinked) tmp.inside policy _) fun _ d4 _ fourth => ?_
    rw [endState_call]
    have last := third.trans fourth
    exact replace_onward ((there.trans last).secure tmp) ((there.trans last).secure secure)
      (fun n moved => last.not_odd_of_file found moved) nofun
  · exact endState_bind (removeIfPresent_onward (first.secure tmp) nofun) fun _ d2 _ _ => .refl d2

theorem safeExtractOne_onward {policy : ExtractPolicy} {writtenTotal : Nat} {bytesBudget : Option Nat} {isManifest : Bool}
    {member : Member δ} (ground : Ground d.tree dir) (leads : ∀ r, realpath sys d.tree outdir = .ok r → dir <+: r) :
    Onward true dir d (endState (safeExtractOne sys outdir policy writtenTotal bytesBudget isManifest member) d) := by
  refine (reads_resolved outdir).endState_bind fun outdirR real => ?_
  obtain ⟨normalR, unlinkedR⟩ := realpath_plain (resolved_ok real)
  have into := leads outdirR (resolved_ok real)
  split
  · exact (Reads.of_require _ _).endState_bind fun _ _ => .refl d
  · refine (reads_lift _).endState_bind fun parts _ => (reads_resolved _).endState_bind fun target joined => ?_
    obtain ⟨normal, unlinked⟩ := realpath_plain (resolved_ok joined)
    refine (Reads.of_require _ _).endState_bind fun _ below => ?_
    have inside : dir <+: target := into.trans (of_decide_eq_true (require_ok below))
    split
    · refine endState_call_bind (mkdirs_onward ground normal unlinked inside) fun _ d1 _ made => ?_
      exact endState_bind (preserveMode_onward normal (made.unlinked unlinked) inside policy _) fun _ d2 _ _ => .refl d2
    · refine endState_call_bind (mkdirs_dropLast_onward ground normal unlinked inside) fun _ d1 _ made => ?_
      refine (reads_ensureNoSymlinkComponents _ _).endState_bind fun _ passed => ?_
      have parent := (made.unlinked unlinked).of_above (List.dropLast_prefix target)
      have above := into.trans
        (ensureNoSymlinkComponents_ok normalR (made.unlinked unlinkedR) normal.dropLast parent passed)
      refine (reads_finalPath policy target).endState_bind fun final found => ?_
      split
      · exact .refl d1
      · split
        · exact .refl d1
        · next src _ =>
          refine endState_bind ?_ fun _ d2 _ _ => .refl d2
          rcases finalPath_ok found with rfl | ⟨c, proper, rfl⟩
          · exact store_onward (made.secure (.of_unlinked normal unlinked inside)) above
          · have secure : Secure d1.tree dir (target.dropLast ++ [c]) := .child normal.dropLast proper parent above
            refine store_onward secure ?_
            rwa [List.dropLast_concat]

end opening

/-- The path of the output directory leads into a directory, if anywhere. -/
def Into (sys : System) (outdir dir : Path) (d : Disk δ) : Prop := ∀ r, realpath sys d.tree outdir = .ok r → dir <+: r

theorem extractRawTar_onward [Inhabited δ] {policy : ExtractPolicy} {maxMembers : Option Nat}
    {extractAll includeManifests : Bool} {members : List (Member δ)} (ground : Ground d.tree dir)
    (rounds : EachRound (extractNext sys outdir policy) (fun d _ => Into sys outdir dir d)
      (planned extractAll includeManifests members) 0 d) :
    Onward true dir d (endState (extractRawTar sys outdir policy maxMembers extractAll includeManifests members) d) := by
  refine (Reads.of_require _ _).endState_bind fun _ _ => (Reads.of_require _ _).endState_bind fun _ _ => ?_
  refine (Reads.of_require _ _).endState_bind fun _ _ => ?_
  refine endState_foldlM (fun writtenTotal member _ d ground into => ?_) (fun d d' ground onward => onward.ground ground) ground
    rounds
  exact endState_bind (safeExtractOne_onward ground into) fun _ d1 _ _ => .refl d1

/-- The way of a path goes over no link of the directory that it leads to. -/
def Direct (sys : System) (outdir dir : Path) (d : Disk δ) : Prop :=
  resolve (.outside dir) d.tree sys.depth [] outdir = .ok dir

theorem Direct.into (direct : Direct sys outdir dir d) : Into sys outdir dir d := by
  intro r real
  rw [resolve_unique (Simulates.lenient (.outside dir) d.tree) direct (realpath_eq_ok_iff.mp real).2]

theorem Direct.onward (direct : Direct sys outdir dir d) (onward : Onward drops dir d d') : Direct sys outdir dir d' := by
  refine resolve_simulates ⟨nofun, fun _ refused => refused, fun q => onward.link_none, ?_⟩ le_rfl direct
  intro q free
  have outside : ¬ dir <+: q := of_decide_eq_false free
  rw [link?, onward.outer q outside]
  rfl

theorem rounds_of_direct [Inhabited δ] {policy : ExtractPolicy} {members : List (Member δ)} (ground : Ground d.tree dir)
    (direct : Direct sys outdir dir d) (writtenTotal : Nat) :
    EachRound (extractNext sys outdir policy) (fun d _ => Into sys outdir dir d) members writtenTotal d := by
  refine eachRound_of_invariant (I := fun d => Ground d.tree dir ∧ Direct sys outdir dir d) ?_ ?_ ⟨ground, direct⟩
  · rintro writtenTotal member d ⟨ground, direct⟩
    have onward : Onward true dir d (endState (extractNext sys outdir policy writtenTotal member) d) :=
      endState_bind (safeExtractOne_onward ground direct.into) fun _ d1 _ _ => .refl d1
    exact ⟨onward.ground ground, direct.onward onward⟩
  · exact fun d _ held => held.2.into

end RAW

/-- Where the output directory is there, nothing is done outside it: by OVF, if what a file goes to has its directory
in it; by AMI, if no nested archive goes to a directory outside; by RAW, as long as its path leads into it. -/
theorem contained [Inhabited δ] (real : realpath sys d.tree outdir = .ok dir)
    (there : isDirectory sys.hops d.tree outdir = true) :
    (∀ opts members, EachRound (OVF.extractNext sys outdir opts)
        (fun d next => OVF.Apart sys dir opts.maxMemberBytes d next.1) members 0 d →
      Contained dir d (endState (OVF.extractOva sys outdir opts members) d)) ∧
    (∀ getmembers opts (extractNestedTar : Bool) members,
      (extractNestedTar → ∀ d', AMI.extractTar sys outdir opts members d = .ok () d' →
        EachRound (AMI.extractNested sys getmembers opts) (AMI.Apart sys dir getmembers)
          (AMI.candidates sys d'.tree outdir) () d') →
      Contained dir d (endState (AMI.extractAll sys getmembers outdir opts extractNestedTar members) d)) ∧
    ∀ policy maxMembers extractAll includeManifests members, EachRound (RAW.extractNext sys outdir policy)
        (fun d _ => RAW.Into sys outdir dir d) (RAW.planned extractAll includeManifests members) 0 d →
      Contained dir d (endState (RAW.extractRawTar sys outdir policy maxMembers extractAll includeManifests members) d) := by
  have stands := Stands.of_isDirectory real there
  refine ⟨?_, ?_, ?_⟩
  · intro opts members rounds
    exact contained_of_onward (OVF.extractOva_onward stands rounds)
  · intro getmembers opts extractNestedTar members rounds
    exact contained_of_onward (AMI.extractAll_onward stands real rounds)
  · intro policy maxMembers extractAll includeManifests members rounds
    exact contained_of_onward (RAW.extractRawTar_onward stands.ground rounds)

section inputs

def linux : System := ⟨40, 40, true, fun _ => "0a1b2c3d".toList, Char.isAlpha⟩

def out : Path := ["out".toList]

def regular (name : String) : Member Nat := ⟨name.toList, .file, 1, 0o644, some ⟨7, 1, true⟩⟩

/-- Some directories, and a link in the output directory. -/
def prepared (dirs : List Path) (name : String) (absolute : Bool) (link : Path) : Disk Nat :=
  ⟨(dirs.foldl (fun (t : Places Nat) p => t.insert p .dir) ∅).insert (out ++ [name.toList]) (.link absolute link), []⟩

def linkedToItself : Disk Nat := prepared [out] "disk.vmdk" false [['.']]

def linkedElsewhere : Disk Nat := prepared [["etc".toList], out] "in.extracted" true ["etc".toList]

def linkedDeeper : Disk Nat :=
  prepared [out, out ++ ["x".toList], out ++ ["x".toList, "y".toList]] "a.raw.tmp.0a1b2c3d" false ["x".toList, "y".toList]

/-- The output directory is there, and what is done is not all in it. -/
def Escapes (outdir : Path) (d d' : Disk Nat) : Prop :=
  realpath linux d.tree outdir = .ok out ∧ isDirectory linux.hops d.tree outdir = true ∧ ¬ Contained out d d'

theorem escapes_of_mem {d d' : Disk Nat} {c : Change} (real : realpath linux d.tree outdir = .ok out)
    (there : isDirectory linux.hops d.tree outdir = true) (fresh : d.log = []) (member : c ∈ d'.log)
    (outside : ¬ out <+: c.location) : Escapes outdir d d' := by
  refine ⟨real, there, fun contained => ?_⟩
  obtain ⟨new, grown, inside⟩ := contained.log
  rw [fresh, List.nil_append] at grown
  rw [grown] at member
  exact outside (inside c member)

/-- A file that goes to a link to the output directory is first made beside that; a nested archive goes through a link;
and the path of the output directory leads elsewhere once a link on its way is taken away. -/
theorem not_contained :
    Escapes out linkedToItself
      (endState (OVF.safeExtractOne linux out true none ["t".toList] (regular "disk.vmdk")) linkedToItself) ∧
    Escapes out linkedElsewhere
      (endState (AMI.extractAll linux (fun _ => some [regular "passwd"]) out ⟨true, ⟨none, none⟩, none⟩ true
        [regular "in.tar"]) linkedElsewhere) ∧
    Escapes (out ++ ["a.raw.tmp.0a1b2c3d".toList, up, up]) linkedDeeper
      (endState (RAW.extractRawTar linux (out ++ ["a.raw.tmp.0a1b2c3d".toList, up, up]) {} none true true
        [regular "a.raw", regular "b.raw"]) linkedDeeper) := by
  refine ⟨?_, ?_, ?_⟩
  · exact escapes_of_mem (c := ⟨.created, [".out.t.tmp".toList]⟩) (by decide +kernel) (by decide +kernel) rfl
      (by decide +kernel) (by decide)
  · exact escapes_of_mem (c := ⟨.created, ["etc".toList, "passwd".toList]⟩) (by decide +kernel) (by decide +kernel) rfl
      (by decide +kernel) (by decide)
  · exact escapes_of_mem (c := ⟨.created, ["b.raw".toList]⟩) (by decide +kernel) (by decide +kernel) rfl
      (by decide +kernel) (by decide)

theorem contained_linkedElsewhere :
    Contained out linkedElsewhere (endState (OVF.extractOva linux out ⟨true, ⟨none, none⟩, none, none⟩
      [(regular "a.ovf", ["t".toList])]) linkedElsewhere) ∧
    Contained out linkedElsewhere (endState (AMI.extractAll linux (fun _ => some [regular "b"]) out
      ⟨true, ⟨none, none⟩, none⟩ true [regular "a.tar"]) linkedElsewhere) ∧
    Contained out linkedElsewhere (endState (RAW.extractRawTar linux out {} none false true
      [regular "a.raw", regular "b/c.raw"]) linkedElsewhere) := by
  have walked : resolve .kernel linkedElsewhere.tree linux.hops [] out = .ok out := by decide +kernel
  have direct : RAW.Direct linux out out linkedElsewhere := by
    unfold RAW.Direct
    decide +kernel
  have real : realpath linux linkedElsewhere.tree out = .ok out := by decide +kernel
  have there : isDirectory linux.hops linkedElsewhere.tree out = true := by decide +kernel
  obtain ⟨ovf, ami, raw⟩ := contained real there
  refine ⟨ovf _ _ ⟨?_, fun _ _ _ => trivial⟩, ami _ _ _ _ ?_, raw _ _ _ _ _ ?_⟩
  · intro _ _ _ parts target cleaned joined _
    have clean : OVF.cleanPosixRelpath (regular "a.ovf").name = .ok ["a.ovf".toList] := by decide +kernel
    rw [clean] at cleaned
    cases cleaned
    have place : realpath linux linkedElsewhere.tree (out ++ ["a.ovf".toList]) = .ok (out ++ ["a.ovf".toList]) := by
      decide +kernel
    rw [place] at joined
    cases joined
    decide
  · intro _ d' run
    rw [← endState_of_ok run]
    have one : AMI.candidates linux (endState (AMI.extractTar linux out ⟨true, ⟨none, none⟩, none⟩ [regular "a.tar"])
      linkedElsewhere).tree out = [out ++ ["a.tar".toList]] := by decide +kernel
    rw [one]
    refine ⟨fun _ r leads found => ?_, fun _ _ _ => trivial⟩
    have place : resolve .kernel (endState (AMI.extractTar linux out ⟨true, ⟨none, none⟩, none⟩ [regular "a.tar"])
      linkedElsewhere).tree linux.hops [] (AMI.nestedOut (out ++ ["a.tar".toList])) = .ok (out ++ ["a.extracted".toList]) := by
      decide +kernel
    rw [place] at leads
    cases leads
    decide
  · exact RAW.rounds_of_direct (ground_of_resolve walked (by decide +kernel)) direct 0

end inputs

end H2kvm.Converters.Extract
