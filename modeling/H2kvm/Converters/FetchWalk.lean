import H2kvm.Converters.Fetch

namespace H2kvm.Converters

open Framework Names Paths

section fetchWalk

theorem name_append (path : Path) (c : Str) : name (path ++ [c]) = c := by simp [name]

theorem dirname_append (path : Path) (c : Str) : dirname (path ++ [c]) = path := by simp [dirname]

theorem path_eq_dirname_append {path : Path} (nonempty : path ≠ []) : path = dirname path ++ [name path] := by
  rw [name, List.getLast?_eq_some_getLast nonempty]
  exact (List.dropLast_append_getLast nonempty).symm

namespace RemoteTree

variable {tree : RemoteTree} {p q : Path}

theorem isFile_iff : tree.isFile p = true ↔ ∃ f ∈ tree.files, f.1 = p := by simp [isFile]

theorem normal_of_isFile (file : tree.isFile p = true) : p ≠ [] ∧ Normal p := by
  obtain ⟨f, member, rfl⟩ := isFile_iff.mp file
  exact tree.named f member

theorem isThere_of_isFile (file : tree.isFile p = true) : tree.isThere p = true := by
  obtain ⟨f, member, rfl⟩ := isFile_iff.mp file
  simp only [isThere, List.any_eq_true, decide_eq_true_eq]
  exact ⟨f, member, List.prefix_rfl⟩

theorem eq_of_prefix (file : tree.isFile p = true) (file' : tree.isFile q = true) (above : p <+: q) : p = q := by
  obtain ⟨f, member, rfl⟩ := isFile_iff.mp file
  obtain ⟨g, member', rfl⟩ := isFile_iff.mp file'
  exact tree.leaves f member g member' above

theorem not_isFile_dirname (file : tree.isFile p = true) (above : q <+: dirname p) : tree.isFile q = false := by
  by_contra there
  have whole := eq_of_prefix (by simpa using there) file (above.trans (List.dropLast_prefix p))
  have lengths := above.length_le
  have : 0 < p.length := List.length_pos_iff.mpr (normal_of_isFile file).1
  rw [whole, dirname, List.length_dropLast] at lengths
  omega

end RemoteTree

section Requests

variable {tree : RemoteTree} {scheme : Scheme} {fetched after : Fetched} {desc copy : Copy}

theorem stream_eq_ok : stream tree fetched copy = .ok after ↔
    tree.isFile copy.source = true ∧ after = { fetched with copies := copy :: fetched.copies } := by
  unfold stream
  split
  · next file => simp [file, eq_comm]
  · next file => simp [file]

theorem fetchExtentForDescriptor_eq_ok (ok : fetchExtentForDescriptor tree scheme fetched desc = .ok after) :
    (after = fetched ∧ ∀ extent, extentOf tree scheme fetched desc = some extent → tree.isThere extent.source = false) ∨
      ∃ extent, extentOf tree scheme fetched desc = some extent ∧ tree.isFile extent.source = true ∧
        after = { fetched with copies := extent :: fetched.copies } := by
  unfold fetchExtentForDescriptor at ok
  split at ok
  · next extent found =>
    split at ok
    · obtain ⟨file, same⟩ := stream_eq_ok.mp ok
      exact .inr ⟨extent, found, file, same⟩
    · next missing =>
      refine .inl ⟨(Except.ok.inj ok).symm, fun other found' => ?_⟩
      rw [found, Option.some.injEq] at found'
      rw [← found']
      simpa using missing
  · next none =>
    refine .inl ⟨(Except.ok.inj ok).symm, fun other found' => ?_⟩
    rw [none] at found'
    cases found'

/-- A descriptor that is fetched is copied, and then its extent if there is one. -/
theorem fetchDescriptor_eq_ok (ok : fetchDescriptor tree scheme fetched desc = .ok after) :
    tree.isFile desc.source = true ∧
      fetchExtentForDescriptor tree scheme ⟨desc :: fetched.copies, desc :: fetched.descriptors⟩ desc = .ok after := by
  unfold fetchDescriptor at ok
  split at ok
  · next streamed =>
    obtain ⟨file, rfl⟩ := stream_eq_ok.mp streamed
    exact ⟨file, ok⟩
  · cases ok

/-- With a descriptor comes at most one extent. -/
theorem fetchDescriptor_cases (ok : fetchDescriptor tree scheme fetched desc = .ok after) :
    tree.isFile desc.source = true ∧ after.descriptors = desc :: fetched.descriptors ∧
      ((after.copies = desc :: fetched.copies ∧
          ∀ extent, extentOf tree scheme ⟨desc :: fetched.copies, desc :: fetched.descriptors⟩ desc = some extent →
            tree.isThere extent.source = false) ∨
        ∃ extent, extentOf tree scheme ⟨desc :: fetched.copies, desc :: fetched.descriptors⟩ desc = some extent ∧
          tree.isFile extent.source = true ∧ after.copies = extent :: desc :: fetched.copies) := by
  obtain ⟨file, rest⟩ := fetchDescriptor_eq_ok ok
  refine ⟨file, ?_⟩
  rcases fetchExtentForDescriptor_eq_ok rest with ⟨rfl, missing⟩ | ⟨extent, found, there, rfl⟩
  · exact ⟨rfl, .inl ⟨rfl, missing⟩⟩
  · exact ⟨rfl, .inr ⟨extent, found, there, rfl⟩⟩

/-- The walk stops, or goes on with a parent that has not been seen. -/
theorem walk_succ_eq_ok {fuel : Nat} {seen : List Path} (ok : walk tree scheme (fuel + 1) seen desc fetched = .ok after) :
    (after = fetched ∧ ∀ hint parent, (fetched.infoAt tree desc.target).bind (·.parseParent) = some hint →
      scheme.join (dirname desc.source) hint = some parent → parent ∈ seen ∨ tree.isThere parent = false) ∨
    ∃ hint parent next, (fetched.infoAt tree desc.target).bind (·.parseParent) = some hint ∧
      scheme.join (dirname desc.source) hint = some parent ∧ parent ∉ seen ∧
      fetchDescriptor tree scheme fetched ⟨scheme.parentTarget hint parent, parent⟩ = .ok next ∧
      walk tree scheme fuel (parent :: seen) ⟨scheme.parentTarget hint parent, parent⟩ next = .ok after := by
  unfold walk at ok
  split at ok
  · next none =>
    refine .inl ⟨(Except.ok.inj ok).symm, fun hint parent given => ?_⟩
    rw [none] at given
    cases given
  · next hint given =>
    split at ok
    · next refused =>
      refine .inl ⟨(Except.ok.inj ok).symm, fun hint' parent given' joined => ?_⟩
      rw [given, Option.some.injEq] at given'
      rw [← given', refused] at joined
      cases joined
    · next parent joined =>
      split at ok
      · next stops =>
        refine .inl ⟨(Except.ok.inj ok).symm, fun hint' parent' given' joined' => ?_⟩
        rw [given, Option.some.injEq] at given'
        rw [← given', joined, Option.some.injEq] at joined'
        rw [← joined']
        exact stops
      · next goes =>
        split at ok
        · next streamed => exact .inr ⟨hint, parent, _, given, joined, (not_or.mp goes).1, streamed, ok⟩
        · cases ok

/-- What every fetched descriptor keeps holds at the end of the walk. -/
theorem walk_invariant {I : List Path → Copy → Fetched → Prop}
    (keep : ∀ seen desc fetched hint parent next, I seen desc fetched →
      (fetched.infoAt tree desc.target).bind (·.parseParent) = some hint →
      scheme.join (dirname desc.source) hint = some parent →
      fetchDescriptor tree scheme fetched ⟨scheme.parentTarget hint parent, parent⟩ = .ok next →
      I (parent :: seen) ⟨scheme.parentTarget hint parent, parent⟩ next)
    {fuel : Nat} {seen : List Path} (inv : I seen desc fetched) (ok : walk tree scheme fuel seen desc fetched = .ok after) :
    ∃ seen' desc', I seen' desc' after ∧ ∀ hint parent, (after.infoAt tree desc'.target).bind (·.parseParent) = some hint →
      scheme.join (dirname desc'.source) hint = some parent → parent ∈ seen' ∨ tree.isThere parent = false := by
  induction fuel generalizing seen desc fetched with
  | zero => cases ok
  | succ fuel ih =>
    rcases walk_succ_eq_ok ok with ⟨rfl, stops⟩ | ⟨hint, parent, next, given, joined, -, streamed, rest⟩
    · exact ⟨seen, desc, inv, stops⟩
    · exact ih (keep seen desc fetched hint parent next inv given joined streamed) rest

theorem fetchAll_eq_ok {top : Path} (ok : fetchAll tree scheme top = .ok after) :
    ∃ first, fetchDescriptor tree scheme {} ⟨scheme.plainTarget top, top⟩ = .ok first ∧
      walk tree scheme (tree.files.length + 1) [] ⟨scheme.plainTarget top, top⟩ first = .ok after := by
  unfold fetchAll at ok
  split at ok
  · cases ok
  · split at ok
    · next first fetched => exact ⟨first, fetched, ok⟩
    · cases ok

/-- What holds of the copies of every descriptor with its extent holds of all copies. -/
theorem forall_copies {P : Copy → Prop} (parents : ∀ hint base parent, scheme.join base hint = some parent →
      tree.isFile parent = true → P ⟨scheme.parentTarget hint parent, parent⟩)
    (extents : ∀ fetched desc extent, extentOf tree scheme fetched desc = some extent → tree.isFile extent.source = true →
      P extent)
    {top : Path} (first : tree.isFile top = true → P ⟨scheme.plainTarget top, top⟩)
    (ok : fetchAll tree scheme top = .ok after) :
    (∀ copy ∈ after.copies, P copy) ∧ tree.isFile top = true ∧ ⟨scheme.plainTarget top, top⟩ ∈ after.descriptors := by
  have one : ∀ (fetched after : Fetched) (desc : Copy), (∀ copy ∈ fetched.copies, P copy) → P desc →
      fetchDescriptor tree scheme fetched desc = .ok after → ∀ copy ∈ after.copies, P copy := by
    intro fetched after desc before holds ok copy member
    obtain ⟨-, -, ⟨copies, -⟩ | ⟨extent, found, there, copies⟩⟩ := fetchDescriptor_cases ok
    · rw [copies] at member
      rcases List.mem_cons.mp member with rfl | old
      · exact holds
      · exact before copy old
    · rw [copies] at member
      rcases List.mem_cons.mp member with rfl | member
      · exact extents _ _ _ found there
      · rcases List.mem_cons.mp member with rfl | old
        · exact holds
        · exact before copy old
  obtain ⟨second, fetchedTop, rest⟩ := fetchAll_eq_ok ok
  obtain ⟨file, descriptors, -⟩ := fetchDescriptor_cases fetchedTop
  obtain ⟨-, -, ⟨copies, top_mem⟩, -⟩ := walk_invariant
    (I := fun _ _ fetched => (∀ copy ∈ fetched.copies, P copy) ∧ ⟨scheme.plainTarget top, top⟩ ∈ fetched.descriptors)
    (by
      intro seen desc fetched hint parent next ⟨before, top_mem⟩ _ joined streamed
      obtain ⟨there, added, -⟩ := fetchDescriptor_cases streamed
      refine ⟨one fetched next _ before (parents hint _ parent joined there) streamed, ?_⟩
      rw [added]
      exact List.mem_cons_of_mem _ top_mem)
    ⟨one {} second _ nofun (first file) fetchedTop, by rw [descriptors]; exact List.mem_cons_self⟩ rest
  exact ⟨copies, file, top_mem⟩

end Requests

section Alone

variable {tree : RemoteTree} {scheme : Scheme} {after : Fetched} {top : Path}

theorem DescriptorInfo.parse_of_references_eq_nil {info : DescriptorInfo} (alone : info.references = []) :
    info.parseExtent = none ∧ info.parseParent = none := by
  have empty : ∀ ref ∈ info.extents ++ info.parent.toList, ref = [] := by
    intro ref member
    by_contra nonempty
    have kept : ref ∈ info.references := List.mem_filter.mpr ⟨member, by simpa using nonempty⟩
    rw [alone] at kept
    cases kept
  constructor
  · rw [parseExtent, Option.filter_eq_none_iff]
    intro ref head
    rw [empty ref (List.mem_append_left _ (List.mem_of_head? head))]
    decide
  · rw [parseParent, Option.filter_eq_none_iff]
    intro ref parent
    rw [empty ref (List.mem_append_right _ (by rw [parent]; exact List.mem_cons_self))]
    decide

theorem RemoteTree.parse_of_references_eq_nil (alone : tree.references top = []) :
    (tree.info top).bind (·.parseExtent) = none ∧ (tree.info top).bind (·.parseParent) = none := by
  unfold references at alone
  cases known : tree.info top with
  | none => exact ⟨rfl, rfl⟩
  | some info =>
    rw [known] at alone
    exact DescriptorInfo.parse_of_references_eq_nil alone

theorem descriptors_of_references_eq_nil (alone : tree.references top = [])
    (apart : scheme.plainTarget (normpath true (dirname top ++
      [stem (name (scheme.plainTarget top)) ++ "-flat.vmdk".toList])) ≠ scheme.plainTarget top)
    (ok : fetchAll tree scheme top = .ok after) : after.descriptors = [⟨scheme.plainTarget top, top⟩] := by
  obtain ⟨noExtent, noParent⟩ := RemoteTree.parse_of_references_eq_nil alone
  obtain ⟨first, fetchedTop, rest⟩ := fetchAll_eq_ok ok
  obtain ⟨-, descriptors, copied⟩ := fetchDescriptor_cases fetchedTop
  have read : first.infoAt tree (scheme.plainTarget top) = tree.info top := by
    rcases copied with ⟨copies, -⟩ | ⟨extent, found, -, copies⟩
    · simp [Fetched.infoAt, Fetched.sourceOf, copies]
    · have guessed : extent.target ≠ scheme.plainTarget top := by
        unfold extentOf at found
        rw [show (Fetched.infoAt tree _ (scheme.plainTarget top)) = tree.info top by
          simp [Fetched.infoAt, Fetched.sourceOf], noExtent] at found
        dsimp only at found
        split at found
        · rw [← Option.some.inj found]
          exact apart
        · cases found
      simp [Fetched.infoAt, Fetched.sourceOf, copies, guessed]
  rcases walk_succ_eq_ok rest with ⟨rfl, -⟩ | ⟨hint, parent, next, given, -⟩
  · exact descriptors
  · rw [read, noParent] at given
    cases given

theorem selfContained_of_references_eq_nil (alone : tree.references top = [])
    (apart : scheme.plainTarget (normpath true (dirname top ++
      [stem (name (scheme.plainTarget top)) ++ "-flat.vmdk".toList])) ≠ scheme.plainTarget top)
    (ok : fetchAll tree scheme top = .ok after) : after.SelfContained tree := by
  intro desc member ref written
  rw [descriptors_of_references_eq_nil alone apart ok, List.mem_singleton] at member
  rw [member, alone] at written
  cases written

end Alone

section Fuel

variable {tree : RemoteTree} {scheme : Scheme}

theorem fetchDescriptor_ne_outOfFuel (fetched : Fetched) (desc : Copy) :
    fetchDescriptor tree scheme fetched desc ≠ .error .outOfFuel := by
  have streams : ∀ (fetched : Fetched) copy, stream tree fetched copy ≠ .error .outOfFuel := by
    intro fetched copy
    unfold stream
    split <;> nofun
  unfold fetchDescriptor
  split
  · unfold fetchExtentForDescriptor
    split
    · split
      · exact streams _ _
      · nofun
    · nofun
  · next err failed =>
    intro same
    rw [same] at failed
    exact streams _ _ failed

/-- Each round takes a remote file that has not been seen. -/
theorem walk_ne_outOfFuel {fuel : Nat} {seen : List Path} (fresh : seen.Nodup) (files : ∀ p ∈ seen, tree.isFile p = true)
    (enough : tree.files.length < fuel + seen.length) (desc : Copy) (fetched : Fetched) :
    walk tree scheme fuel seen desc fetched ≠ .error .outOfFuel := by
  induction fuel generalizing seen desc fetched with
  | zero =>
    have inside : seen ⊆ tree.files.map (·.1) := by
      intro p member
      obtain ⟨f, found, same⟩ := RemoteTree.isFile_iff.mp (files p member)
      exact List.mem_map.mpr ⟨f, found, same⟩
    have few := (List.subperm_of_subset fresh inside).length_le
    rw [List.length_map] at few
    omega
  | succ fuel ih =>
    unfold walk
    split
    · nofun
    · split
      · nofun
      · next parent joined =>
        split
        · nofun
        · next goes =>
          obtain ⟨unseen, -⟩ := not_or.mp goes
          split
          · next next streamed =>
            have file := (fetchDescriptor_eq_ok streamed).1
            apply ih (List.nodup_cons.mpr ⟨unseen, fresh⟩)
            · intro p member
              rcases List.mem_cons.mp member with rfl | old
              · exact file
              · exact files p old
            · rw [List.length_cons]
              omega
          · next err failed =>
            intro same
            rw [same] at failed
            exact fetchDescriptor_ne_outOfFuel _ _ failed

theorem fetchAll_ne_outOfFuel (top : Path) : fetchAll tree scheme top ≠ .error .outOfFuel := by
  unfold fetchAll
  split
  · nofun
  · split
    · exact walk_ne_outOfFuel List.nodup_nil nofun (by simp) _ _
    · next err failed =>
      intro same
      rw [same] at failed
      exact fetchDescriptor_ne_outOfFuel _ _ failed

end Fuel

end fetchWalk

section selfContained

theorem resolve_cases (ref : Str) : (∃ b, Proper b ∧ ∀ dir, ∃ front, resolve dir ref = front ++ [b]) ∨
    ∀ dir, resolve dir ref <+: normpath true dir := by
  unfold resolve
  split
  · have normal := normal_normpath (components (slashed ref))
    cases form : normpath true (components (slashed ref)) using List.reverseRecOn with
    | nil => exact .inr fun dir => List.nil_prefix
    | append_singleton front b =>
      rw [form] at normal
      exact .inl ⟨b, normal b (by simp), fun dir => ⟨front, rfl⟩⟩
  · obtain ⟨n, names, form, normal⟩ := normpath_relative (components (slashed ref))
    have joined : ∀ dir, normpath true (dir ++ components (slashed ref)) =
        names.foldl (push true) ((List.replicate n up).foldl (push true) (normpath true dir)) := by
      intro dir
      have base := normal_normpath dir
      calc normpath true (dir ++ components (slashed ref))
          = normpath true (normpath true dir ++ components (slashed ref)) := by
            rw [normpath, List.foldl_append, normpath, List.foldl_append]
            congr 1
            exact (normpath_normal base).symm
        _ = normpath true (normpath true dir ++ (List.replicate n up ++ names)) := by
            rw [normpath_append_relative base, form]
        _ = _ := by
            rw [normpath, List.foldl_append, foldl_push_normal base, List.foldl_append, List.nil_append]
    cases names using List.reverseRecOn with
    | nil =>
      refine .inr fun dir => ?_
      rw [joined]
      exact foldl_push_ups (normal_normpath dir)
    | append_singleton names b =>
      refine .inl ⟨b, normal b (by simp), fun dir => ?_⟩
      rw [joined, List.foldl_append, List.foldl_cons, List.foldl_nil, push_proper (normal b (by simp))]
      exact ⟨_, rfl⟩

theorem proper_flat (s : Str) : Proper (s ++ "-flat.vmdk".toList) := by
  have long : 10 ≤ (s ++ "-flat.vmdk".toList).length := by
    rw [List.length_append, show "-flat.vmdk".toList.length = 10 from rfl]
    omega
  refine ⟨?_, ?_, ?_⟩
  all_goals
    intro same
    rw [same] at long
    exact absurd long (by decide)

/-- The extent that is guessed is in the directory of the descriptor. -/
theorem normpath_flat (dir : Path) (s : Str) : normpath true (dir ++ [s ++ "-flat.vmdk".toList]) =
    normpath true dir ++ [s ++ "-flat.vmdk".toList] := normpath_concat (proper_flat s)

namespace Flatten

variable {tree : RemoteTree} {outdir top : Path} {after : Fetched}

theorem guessed_apart (outdir top : Path) :
    (scheme outdir).plainTarget (normpath true (dirname top ++
      [stem (name ((scheme outdir).plainTarget top)) ++ "-flat.vmdk".toList])) ≠ (scheme outdir).plainTarget top := by
  rw [normpath_flat]
  change outdir ++ [name (normpath true (dirname top) ++ [stem (name (outdir ++ [name top])) ++ "-flat.vmdk".toList])] ≠
    outdir ++ [name top]
  rw [name_append, name_append]
  intro same
  have renamed := List.singleton_injective (List.append_cancel_left same)
  exact stem_append_ne (by decide) _ renamed

end Flatten

namespace Fetch

open Recovery (isSafe subUnsafe)

theorem isSafe_of_mem_subUnsafe {inRun : Bool} {s : Str} {c : Char} (member : c ∈ subUnsafe inRun s) : isSafe c = true := by
  induction s generalizing inRun with
  | nil => cases member
  | cons d s ih =>
    unfold subUnsafe at member
    split at member
    · next safe =>
      rcases List.mem_cons.mp member with rfl | rest
      · exact safe
      · exact ih rest
    · split at member
      · exact ih member
      · rcases List.mem_cons.mp member with rfl | rest
        · rfl
        · exact ih rest

theorem subUnsafe_of_isSafe {inRun : Bool} {s : Str} (safe : ∀ c ∈ s, isSafe c = true) : subUnsafe inRun s = s := by
  induction s generalizing inRun with
  | nil => rfl
  | cons c s ih =>
    rw [subUnsafe, if_pos (safe c List.mem_cons_self), ih fun d member => safe d (List.mem_cons_of_mem c member)]

theorem isSafe_of_mem_safeParts {remote : Path} {part : Str} (member : part ∈ safeParts remote) :
    ∀ c ∈ part, isSafe c = true := by
  have kept := List.mem_of_mem_drop member
  split at kept
  · rw [List.mem_singleton.mp kept]
    decide
  · obtain ⟨p, filtered, rfl⟩ := List.mem_map.mp kept
    split
    · decide
    · obtain ⟨component, -, rfl⟩ := List.mem_map.mp (List.mem_filter.mp filtered).1
      exact fun c => isSafe_of_mem_subUnsafe

/-- A name that is safe stays the last part. -/
theorem name_safeParts {front : Path} {b : Str} (proper : Proper b) (safe : ∀ c ∈ b, isSafe c = true) :
    name (safeParts (front ++ [b])) = b := by
  obtain ⟨nonempty, nodot, noup⟩ := proper
  unfold safeParts
  dsimp only
  rw [List.map_append, List.filter_append, List.map_append, List.map_singleton, subUnsafe_of_isSafe safe]
  have kept : [b].filter (fun p => p ≠ [] ∧ p ≠ ['.']) = [b] := by
    simp [nonempty, nodot]
  have last : ([b].filter fun p => p ≠ [] ∧ p ≠ ['.']).map (fun p => if p = up then "__UP__".toList else p) = [b] := by
    rw [kept, List.map_singleton, if_neg noup]
  have few : ∀ parts : Path, ¬ (parts ++ [b]).length ≤ (parts ++ [b]).length - 3 := by
    intro parts
    rw [List.length_append, List.length_singleton]
    omega
  have some (parts : Path) : parts ++ [b] ≠ [] := by simp
  rw [last, if_neg (some _), name, List.getLast?_drop, if_neg (few _), List.getLast?_concat]
  rfl

variable {digest : Digest} {remote : Path}

theorem isSafe_of_mem_name : ∀ c ∈ name (safeLocalRelFromRemote digest remote), isSafe c = true := by
  have parts : ∀ c ∈ name (safeParts remote), isSafe c = true := by
    intro c member
    unfold name at member
    cases last : (safeParts remote).getLast? with
    | none =>
      rw [last] at member
      cases member
    | some part =>
      rw [last] at member
      exact isSafe_of_mem_safeParts (List.mem_of_getLast? last) c member
  have whole := stem_append_suffix (name (safeParts remote))
  intro c member
  rw [safeLocalRelFromRemote, name_append] at member
  rcases List.mem_append.mp member with member | after
  · rcases List.mem_append.mp member with member | digits
    · rcases List.mem_append.mp member with before | dashes
      · exact parts c (by rw [← whole]; exact List.mem_append_left _ before)
      · have marks : ∀ c ∈ "__".toList, isSafe c = true := by decide
        exact marks c dashes
    · simp [isSafe, digest.hex remote c digits]
  · exact parts c (by rw [← whole]; exact List.mem_append_right _ after)

theorem name_safeLocalRelFromRemote_ne {front : Path} {b : Str} (proper : Proper b) :
    name (safeLocalRelFromRemote digest (front ++ [b])) ≠ b := by
  intro same
  have safe : ∀ c ∈ b, isSafe c = true := by
    have stays : ∀ c ∈ name (safeLocalRelFromRemote digest (front ++ [b])), isSafe c = true := isSafe_of_mem_name
    rwa [same] at stays
  rw [safeLocalRelFromRemote, name_append, name_safeParts proper safe] at same
  have lengths := congrArg List.length same
  have whole := congrArg List.length (stem_append_suffix b)
  simp only [List.length_append] at lengths whole
  have : "__".toList.length = 2 := rfl
  omega

variable {tree : RemoteTree} {outdir sandbox top : Path} {after : Fetched}

theorem name_local (remote : Path) :
    name (outdir ++ safeLocalRelFromRemote digest remote) = name (safeLocalRelFromRemote digest remote) := by
  rw [safeLocalRelFromRemote, ← List.append_assoc, name_append, name_append]

theorem copies_fetchAll (ok : fetchAll tree (scheme digest outdir sandbox) top = .ok after) :
    (∀ copy ∈ after.copies, copy.target = outdir ++ safeLocalRelFromRemote digest copy.source ∧
      tree.isFile copy.source = true) ∧ tree.isFile top = true ∧
      ⟨outdir ++ safeLocalRelFromRemote digest top, top⟩ ∈ after.descriptors := by
  apply forall_copies _ _ _ ok
  · intro hint base parent _ file
    exact ⟨rfl, file⟩
  · intro fetched desc extent found file
    refine ⟨?_, file⟩
    unfold extentOf at found
    split at found
    · obtain ⟨remote, -, rfl⟩ := Option.map_eq_some_iff.mp found
      rfl
    · dsimp only at found
      split at found
      · rw [← Option.some.inj found]
        rfl
      · cases found
  · intro file
    exact ⟨rfl, file⟩

theorem references_eq_nil (ok : fetchAll tree (scheme digest outdir sandbox) top = .ok after)
    (contained : after.SelfContained tree) : tree.references top = [] := by
  obtain ⟨copies, file, top_mem⟩ := copies_fetchAll ok
  rw [List.eq_nil_iff_forall_not_mem]
  intro ref member
  have leads := contained _ top_mem ref member
  dsimp only at leads
  obtain ⟨copy, found, source⟩ := Option.map_eq_some_iff.mp leads
  obtain ⟨target, there⟩ := copies copy (List.mem_of_find?_eq_some found)
  have reached : copy.target = resolve (dirname (outdir ++ safeLocalRelFromRemote digest top)) ref := by
    simpa using List.find?_some found
  rcases resolve_cases ref with ⟨b, proper, ends⟩ | above
  · obtain ⟨front, remote⟩ := ends (dirname top)
    obtain ⟨front', here⟩ := ends (dirname (outdir ++ safeLocalRelFromRemote digest top))
    have local_name : name copy.target = b := by rw [reached, here, name_append]
    rw [target, name_local, source, remote] at local_name
    exact name_safeLocalRelFromRemote_ne proper local_name
  · have up := above (dirname top)
    rw [normpath_normal (RemoteTree.normal_of_isFile file).2.dirname] at up
    rw [source, RemoteTree.not_isFile_dirname file up] at there
    cases there

theorem guessed_apart (digest : Digest) (outdir sandbox top : Path) :
    (scheme digest outdir sandbox).plainTarget (normpath true (dirname top ++
      [stem (name ((scheme digest outdir sandbox).plainTarget top)) ++ "-flat.vmdk".toList])) ≠
      (scheme digest outdir sandbox).plainTarget top := by
  rw [normpath_flat]
  change outdir ++ safeLocalRelFromRemote digest (normpath true (dirname top) ++
    [stem (name (outdir ++ safeLocalRelFromRemote digest top)) ++ "-flat.vmdk".toList]) ≠
    outdir ++ safeLocalRelFromRemote digest top
  rw [name_local]
  intro same
  have renamed := congrArg name (List.append_cancel_left same)
  generalize short : name (safeLocalRelFromRemote digest top) = l at renamed
  have safe : ∀ c ∈ stem l ++ "-flat.vmdk".toList, isSafe c = true := by
    intro c member
    rcases List.mem_append.mp member with before | after
    · have whole : c ∈ l := by
        rw [← stem_append_suffix l]
        exact List.mem_append_left _ before
      rw [← short] at whole
      exact isSafe_of_mem_name c whole
    · have marks : ∀ c ∈ "-flat.vmdk".toList, isSafe c = true := by decide
      exact marks c after
  have split : stem l ++ "-flat.vmdk".toList = (stem l ++ "-flat".toList) ++ '.' :: "vmdk".toList := by simp
  obtain ⟨ext, base⟩ := suffix_append_dot (s := stem l ++ "-flat".toList) (t := "vmdk".toList) (by decide) (by decide) (by simp)
  rw [safeLocalRelFromRemote, name_append, name_safeParts (proper_flat _) safe, split, ext, base] at renamed
  rw [List.append_assoc, List.append_assoc, List.append_assoc] at renamed
  exact stem_append_ne (by decide) _ renamed

end Fetch

end selfContained

end H2kvm.Converters
