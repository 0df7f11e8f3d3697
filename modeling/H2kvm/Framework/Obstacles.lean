import H2kvm.Framework.FileOps

namespace H2kvm.Framework.FileTree

open Paths

variable {δ : Type} {hops : Nat} {t : Places δ} {d d' : Disk δ} {p q r : Path} {c : List Char}

/-- The first place on a way that is no directory is taken. -/
def Halted (t : Places δ) (p : Path) : Prop :=
  ∃ q, q <+: p ∧ Rooted t q ∧ (node t q).isSome ∧ isDir t q = false

/-- Nothing that was done is undone. -/
def Later (d d' : Disk δ) : Prop := d.log <+: d'.log

theorem Later.refl (d : Disk δ) : Later d d := List.prefix_rfl

instance : IsPreorder (Disk δ) Later where
  refl := .refl
  trans _ _ _ := List.IsPrefix.trans

/-- Code that undoes nothing of what was done before it. -/
def Lasting {ε α : Type} (x : EStateM ε (Disk δ) α) : Prop := ∀ d, Later d (endState x d)

section lasting

variable {ε ε' α β : Type}

namespace Lasting

theorem of_reads {x : EStateM ε (Disk δ) α} (reads : Reads x) : Lasting x := fun d => by
  rw [reads d]
  exact .refl d

theorem bind {x : EStateM ε (Disk δ) α} {f : α → EStateM ε (Disk δ) β} (first : Lasting x) (second : ∀ a, Lasting (f a)) :
    Lasting (x >>= f) := fun d => endState_bind (first d) fun a d' _ _ => second a d'

/-- What comes later only adds to it. -/
theorem later_bind {x : EStateM ε (Disk δ) α} {f : α → EStateM ε (Disk δ) β} (second : ∀ a, Lasting (f a)) :
    Later (endState x d) (endState (x >>= f) d) := by
  cases run : x d with
  | error e d' =>
    rw [endState_of_error run, endState_of_error (bind_of_error run)]
    exact .refl d'
  | ok a d' =>
    rw [endState_of_ok run, endState, bind_of_ok run]
    exact second a d'

theorem later_tryCatch {x : EStateM ε (Disk δ) α} {handle : ε → EStateM ε (Disk δ) α} (second : ∀ e, Lasting (handle e)) :
    Later (endState x d) (endState (MonadExcept.tryCatch x handle) d) := by
  cases run : x d with
  | error e d' =>
    rw [endState_of_error run, endState, tryCatch_of_error run]
    exact second e d'
  | ok a d' =>
    rw [endState_of_ok run, endState_of_ok (tryCatch_of_ok run)]
    exact .refl d'

theorem tryCatch {x : EStateM ε (Disk δ) α} {handle : ε → EStateM ε (Disk δ) α} (first : Lasting x)
    (second : ∀ e, Lasting (handle e)) : Lasting (tryCatch x handle) := fun d =>
  endState_tryCatch (first d) fun e d' _ _ => second e d'

theorem suppress {x : EStateM ε (Disk δ) Unit} (lasting : Lasting x) :
    Lasting (Framework.suppress x : EStateM ε' (Disk δ) Unit) := lasting

end Lasting

variable (p q : Path)

theorem lasting_mkdir : Lasting (mkdir hops p : Call δ Unit) := fun d => by
  unfold endState mkdir
  cases place hops d.tree p with
  | error e => exact .refl d
  | ok r =>
    dsimp only
    cases (node d.tree r).isSome with
    | true => exact .refl d
    | false => exact List.prefix_append _ _

theorem lasting_mkdirOnce : Lasting (mkdirOnce hops p : Call δ Unit) := by
  refine (lasting_mkdir p).tryCatch fun e => .of_reads (Reads.of_get.bind fun d => Reads.of_require _ _)

theorem lasting_write (data : δ) : Lasting (write p data) := fun d => by
  unfold endState write
  cases node d.tree p with
  | none => exact List.prefix_append _ _
  | some n => cases n <;> exact List.prefix_append _ _

theorem lasting_unlink : Lasting (unlink hops p : Call δ Unit) := fun d => by
  unfold endState unlink
  cases place hops d.tree p with
  | error e => exact .refl d
  | ok r =>
    dsimp only
    cases (node d.tree r).isNone with
    | true => exact .refl d
    | false =>
      cases isDir d.tree r with
      | true => exact .refl d
      | false => exact List.prefix_append _ _

theorem lasting_chmod (mode : Nat) : Lasting (chmod hops p mode : Call δ Unit) := fun d => by
  unfold endState chmod
  cases resolve .kernel d.tree hops [] p with
  | error e => exact .refl d
  | ok r =>
    dsimp only
    cases (node d.tree r).isSome with
    | true => exact List.prefix_append _ _
    | false => exact .refl d

theorem lasting_replace : Lasting (replace hops p q : Call δ Unit) := fun d => by
  unfold endState replace
  cases place hops d.tree p with
  | error e => exact .refl d
  | ok r =>
    cases place hops d.tree q with
    | error e => exact .refl d
    | ok s =>
      dsimp only
      cases node d.tree r with
      | none => exact .refl d
      | some n =>
        dsimp only
        cases isDir d.tree r || isDir d.tree s with
        | true => exact .refl d
        | false =>
          by_cases same : r = s
          · rw [if_pos same]
            exact .refl d
          · rw [if_neg same, if_neg Bool.false_ne_true]
            simp [Later, Disk.put, Disk.drop]

variable [Inhabited δ]

theorem lasting_openNew : Lasting (openNew hops p : Call δ Path) := fun d => by
  unfold endState openNew
  cases place hops d.tree p with
  | error e => exact .refl d
  | ok r =>
    dsimp only
    cases (node d.tree r).isSome with
    | true => exact .refl d
    | false => exact List.prefix_append _ _

theorem lasting_mkstemp (names : List (List Char)) : Lasting (mkstemp hops p names : Call δ Path) := by
  induction names with
  | nil => exact .of_reads fun _ => rfl
  | cons name names ih =>
    refine (lasting_openNew _).tryCatch fun e => ?_
    split
    · exact ih
    · exact .of_reads fun _ => rfl

theorem lasting_openOver (follows : Bool) : Lasting (openOver hops follows p : Call δ Path) := fun d => by
  unfold endState openOver
  cases (if follows then resolve .kernel d.tree hops [] p else place hops d.tree p) with
  | error e => exact .refl d
  | ok r =>
    dsimp only
    cases node d.tree r with
    | none => exact List.prefix_append _ _
    | some n =>
      cases n with
      | dir | link _ _ => exact .refl d
      | file _ | special => exact List.prefix_append _ _

end lasting

section ways

theorem ground_root : Ground t [] :=
  ⟨nofun, fun _ above differ => absurd (List.prefix_nil.mp above) differ, isDir_root⟩

theorem Ground.child (ground : Ground t p) (proper : Proper c) (dir : FileTree.isDir t (p ++ [c]) = true) :
    Ground t (p ++ [c]) := by
  refine ⟨?_, ground.rooted.concat ground.isDir, dir⟩
  intro x member
  rcases List.mem_append.mp member with old | new
  · exact ground.normal x old
  · rw [List.mem_singleton.mp new]
    exact proper

/-- A way leads over directories only, or there is a first place that is none. -/
theorem ground_or_first (normal : Normal p) : Ground t p ∨ ∃ q, q <+: p ∧ Rooted t q ∧ isDir t q = false := by
  induction p using List.reverseRecOn with
  | nil => exact .inl ground_root
  | append_singleton p c ih =>
    rcases ih fun x member => normal x (List.mem_append_left [c] member) with ground | ⟨q, above, first⟩
    · cases dir : isDir t (p ++ [c]) with
      | true => exact .inl (ground.child (normal c (by simp)) dir)
      | false => exact .inr ⟨p ++ [c], List.prefix_rfl, ground.rooted.concat ground.isDir, dir⟩
    · exact .inr ⟨q, above.trans (List.prefix_append p [c]), first⟩

theorem Ground.isDir_of_above (ground : Ground t p) (above : q <+: p) : FileTree.isDir t q = true := by
  by_cases same : q = p
  · rw [same]
    exact ground.isDir
  · exact ground.rooted q above same

/-- A system call stops at the first place that is no directory. -/
theorem resolve_stuck {rest : Path} (normal : Normal q) (rooted : Rooted t q) (nodir : isDir t q = false)
    (plain : link? t q = none) : resolve .kernel t hops [] (q ++ c :: rest) = .error (halt t q) := by
  have unlinked : Unlinked t q := by
    intro s above
    by_cases same : s = q
    · rw [same]
      exact plain
    · exact link?_of_isDir (rooted s above same)
  obtain ⟨follow, same⟩ := resolve_eq_walk .kernel t hops
  have through : walk .kernel t follow [] (q ++ c :: rest) = walk .kernel t follow q (c :: rest) :=
    walk_plain normal unlinked fun _ => rooted
  rw [same, through, walk, nodir]
  rfl

theorem place_ground (hops : Nat) (ground : Ground t p) (proper : Proper c) : place hops t (p ++ [c]) = .ok (p ++ [c]) :=
  place_concat proper ground.resolve ground.isDir

theorem place_stuck (normal : Normal (q ++ [c])) {rest : Path} (last : Normal rest) (rooted : Rooted t q)
    (nodir : isDir t q = false) (plain : link? t q = none) : place hops t (q ++ c :: rest) = .error (halt t q) := by
  have above : Normal q := fun x member => normal x (List.mem_append_left [c] member)
  cases rest using List.reverseRecOn with
  | nil =>
    have walked : resolve .kernel t hops [] q = .ok q := by
      refine resolve_plain above ?_ fun _ => rooted
      intro s inside
      by_cases same : s = q
      · rw [same]
        exact plain
      · exact link?_of_isDir (rooted s inside same)
    rw [place, List.getLast?_concat]
    dsimp only
    rw [if_pos (normal c (by simp)), List.dropLast_concat, walked]
    dsimp only
    rw [nodir, if_neg Bool.false_ne_true]
  | append_singleton rest b =>
    have split : q ++ c :: (rest ++ [b]) = q ++ c :: rest ++ [b] := by simp
    rw [split, place, List.getLast?_concat]
    dsimp only
    rw [if_pos (last b (by simp)), List.dropLast_concat, resolve_stuck above rooted nodir plain]

end ways

section mkdirs

theorem mkdirOnce_stuck (hops : Nat) (normal : Normal (q ++ [c])) {rest : Path} (last : Normal rest) (rooted : Rooted t q)
    (nodir : isDir d.tree q = false) (plain : link? d.tree q = none) (same : d.tree = t) :
    mkdirOnce hops (q ++ c :: rest) d = .error (halt t q) d := by
  subst same
  have made : mkdir hops (q ++ c :: rest) d = .error (halt d.tree q) d := by
    rw [mkdir, place_stuck normal last rooted nodir plain]
  have none : isDirectory hops d.tree (q ++ c :: rest) = false := by
    have above : Normal q := fun x member => normal x (List.mem_append_left [c] member)
    rw [isDirectory, stat, resolve_stuck above rooted nodir plain]
  rw [mkdirOnce, tryCatch_of_error made, bind_get, none, Bool.and_false]
  rfl

/-- No directory is made where something else is on the way. -/
theorem mkdirs_halted (hops : Nat) (normal : Normal p) (unlinked : Unlinked d.tree p) (halted : Halted d.tree p) :
    ∃ e, mkdirs hops p d = .error e d := by
  obtain ⟨q, ⟨rest, rfl⟩, rooted, taken, nodir⟩ := halted
  have plain : link? d.tree q = none := unlinked q (List.prefix_append q rest)
  cases rest with
  | nil =>
    rw [List.append_nil] at normal ⊢
    obtain ⟨above, c, rfl⟩ := (List.eq_nil_or_concat' q).resolve_left (ne_nil_of_not_dir nodir)
    have parent : Ground d.tree above :=
      ⟨fun x member => normal x (List.mem_append_left [c] member), rooted.of_above (List.prefix_append above [c]),
        rooted above (List.prefix_append above [c]) (by simp)⟩
    have placed := place_ground hops parent (normal c (by simp))
    have none : isDirectory hops d.tree (above ++ [c]) = false := by
      have walked : resolve .kernel d.tree hops [] (above ++ [c]) = .ok (above ++ [c]) :=
        resolve_plain normal (by simpa using unlinked) fun _ => rooted
      rw [Bool.eq_false_iff, Ne, isDirectory_iff, walked]
      rintro ⟨r, same, dir⟩
      cases same
      rw [nodir] at dir
      cases dir
    exact ⟨.present, by rw [mkdirs_of_place placed, if_pos taken, none, if_neg Bool.false_ne_true]⟩
  | cons c rest =>
    have normal' : Normal (q ++ [c]) := fun x member => normal x (by simp at member ⊢; tauto)
    have last : Normal rest := fun x member => normal x (by simp [member])
    have once := mkdirOnce_stuck hops normal' last rooted nodir plain rfl
    have present : halt d.tree q ≠ .missing := by
      rw [halt]
      cases found : node d.tree q with
      | none => simp [found] at taken
      | some n => simp
    refine ⟨halt d.tree q, ?_⟩
    rw [mkdirs_eq_mkdirOnce, once]
    intro d' missing
    rw [once] at missing
    exact present (EStateM.Result.error.inj missing).1

theorem mkdirs_ground (ground : Ground d.tree p) : mkdirs hops p d = .ok () d := by
  have once : mkdirOnce hops p d = .ok () d := mkdirOnce_of_ground ground
  rw [mkdirs_eq_mkdirOnce, once]
  rw [once]
  exact nofun

/-- Where nothing is on the way and not all is there, something is made. -/
theorem mkdirs_grows (normal : Normal p) (unlinked : Unlinked d.tree p) (free : ¬Halted d.tree p) (fresh : ¬Ground d.tree p) :
    d.log.length < (endState (mkdirs hops p) d).log.length := by
  induction p using List.reverseRecOn with
  | nil => exact absurd ground_root fresh
  | append_singleton p c ih =>
    have parent : Normal p := fun x member => normal x (List.mem_append_left [c] member)
    have proper : Proper c := normal c (by simp)
    rcases ground_or_first (t := d.tree) parent with ground | ⟨q, ⟨rest, rfl⟩, rooted, nodir⟩
    · have placed := place_ground hops ground proper
      cases found : node d.tree (p ++ [c]) with
      | none =>
        rw [endState, mkdirs_of_place placed, found]
        simp [Disk.put]
      | some n =>
        cases dir : isDir d.tree (p ++ [c]) with
        | true => exact absurd (ground.child proper dir) fresh
        | false =>
          exact absurd ⟨p ++ [c], List.prefix_rfl, ground.rooted.concat ground.isDir, by simp [found], dir⟩ free
    · have above : q <+: q ++ rest ++ [c] := by simp
      have none : node d.tree q = none := by
        cases found : node d.tree q with
        | none => rfl
        | some n => exact absurd ⟨q, above, rooted, by simp [found], nodir⟩ free
      have grows := ih parent (unlinked.of_above (List.prefix_append (q ++ rest) [c]))
        (by
          rintro ⟨s, inside, halts⟩
          exact free ⟨s, inside.trans (List.prefix_append (q ++ rest) [c]), halts⟩)
        (fun ground => by
          rw [ground.isDir_of_above (List.prefix_append q rest)] at nodir
          cases nodir)
      have once : mkdirOnce hops (q ++ rest ++ [c]) d = .error .missing d := by
        have missing : halt d.tree q = .missing := by rw [halt, none]; rfl
        rw [← missing]
        have plain := link?_of_none none
        cases rest with
        | nil =>
          rw [List.append_nil] at normal ⊢
          exact mkdirOnce_stuck hops normal (List.forall_mem_nil _) rooted nodir plain rfl
        | cons b rest =>
          have split : q ++ b :: rest ++ [c] = q ++ b :: (rest ++ [c]) := by simp
          rw [split] at normal ⊢
          exact mkdirOnce_stuck hops (fun x member => normal x (by simp at member ⊢; tauto))
            (fun x member => normal x (by simp at member ⊢; tauto)) rooted nodir plain rfl
      have run : endState (mkdirs hops (q ++ rest ++ [c])) d =
          endState (do mkdirUp hops (q ++ rest).reverse; mkdirOnce hops (q ++ rest ++ [c])) d := by
        have same : (c :: (q ++ rest).reverse).reverse = q ++ rest ++ [c] := by simp
        rw [mkdirs, List.reverse_append, List.reverse_singleton, List.singleton_append, mkdirUp, same, endState,
          tryCatch_of_error once, if_pos rfl, endState]
      rw [run]
      have more : Later (endState (mkdirs hops (q ++ rest)) d)
          (endState (do mkdirUp hops (q ++ rest).reverse; mkdirOnce hops (q ++ rest ++ [c])) d) :=
        Lasting.later_bind fun _ => lasting_mkdirOnce _
      exact grows.trans_le more.length_le

end mkdirs

theorem unlink_ground (hops : Nat) (ground : Ground d.tree p) (proper : Proper c) :
    unlink hops (p ++ [c]) d =
      if (node d.tree (p ++ [c])).isNone then .error .missing d
      else if isDir d.tree (p ++ [c]) then .error .isDirectory d
      else .ok () (d.drop (p ++ [c])) := by
  rw [unlink, place_ground hops ground proper]

section openings

variable [Inhabited δ]

theorem openNew_ground (hops : Nat) (ground : Ground d.tree p) (proper : Proper c) :
    openNew hops (p ++ [c]) d =
      if (node d.tree (p ++ [c])).isSome then .error .present d
      else .ok (p ++ [c]) (d.put (p ++ [c]) (.file default) .created) := by
  rw [openNew, place_ground hops ground proper]

theorem mkstemp_ground (hops : Nat) {names : List (List Char)} (ground : Ground d.tree p)
    (proper : ∀ name ∈ names, Proper name) :
    (∀ name ∈ names, (node d.tree (p ++ [name])).isSome) ∧ mkstemp hops p names d = .error .present d ∨
      (∃ name ∈ names, node d.tree (p ++ [name]) = none) ∧
        d.log.length < (endState (mkstemp hops p names) d).log.length := by
  induction names with
  | nil => exact .inl ⟨nofun, rfl⟩
  | cons name names ih =>
    have opened := openNew_ground hops ground (proper name List.mem_cons_self)
    cases free : node d.tree (p ++ [name]) with
    | none =>
      rw [free] at opened
      refine .inr ⟨⟨name, List.mem_cons_self, free⟩, ?_⟩
      rw [mkstemp, endState, tryCatch_of_ok opened]
      simp [Disk.put]
    | some n =>
      rw [free] at opened
      have run : mkstemp hops p (name :: names) d = mkstemp hops p names d := by
        rw [mkstemp, tryCatch_of_error opened, if_pos rfl]
      rw [endState, run]
      rcases ih fun other member => proper other (List.mem_cons_of_mem name member) with
        ⟨taken, fails⟩ | ⟨⟨other, member, none⟩, grows⟩
      · refine .inl ⟨?_, fails⟩
        intro other member
        rcases List.mem_cons.mp member with rfl | later
        · simp [free]
        · exact taken other later
      · exact .inr ⟨⟨other, List.mem_cons_of_mem name member, none⟩, grows⟩

theorem openOver_ground (hops : Nat) (follows : Bool) (normal : Normal p) (ground : Ground d.tree p.dropLast)
    (plain : link? d.tree p = none) :
    isDir d.tree p = true ∧ openOver hops follows p d = .error .isDirectory d ∨
      isDir d.tree p = false ∧ d.log.length < (endState (openOver hops follows p) d).log.length := by
  have there : (if follows then resolve .kernel d.tree hops [] p else place hops d.tree p) = .ok p := by
    cases p using List.reverseRecOn with
    | nil =>
      cases follows with
      | true => exact ground_root.resolve
      | false => rfl
    | append_singleton p c =>
      rw [List.dropLast_concat] at ground
      have rooted := ground.rooted.concat ground.isDir (c := c)
      cases follows with
      | false => exact place_ground hops ground (normal c (by simp))
      | true => exact resolve_plain normal ((ground.rooted.unlinked ground.isDir).concat plain) fun _ => rooted
  rw [endState, openOver, there]
  dsimp only
  cases found : node d.tree p with
  | none => exact .inr ⟨isDir_of_none found, by simp [Disk.put]⟩
  | some n =>
    cases n with
    | dir => exact .inl ⟨by rw [isDir, found], rfl⟩
    | link absolute target => rw [link?, found] at plain; cases plain
    | file data => exact .inr ⟨(plain_of_file found).1, by simp [Disk.put]⟩
    | special => exact .inr ⟨by rw [isDir, found], by simp [Disk.note]⟩

end openings

end H2kvm.Framework.FileTree
