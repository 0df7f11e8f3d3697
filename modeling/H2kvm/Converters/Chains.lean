import H2kvm.Converters.FetchWalk

namespace H2kvm.Converters

open Framework Names Paths

namespace Flatten

/-- A descriptor with at most one extent, whose references lead to files below its directory, and the parent in it. -/
structure Plain (tree : RemoteTree) (p : Path) : Prop where
  single : ∀ info, tree.info p = some info → info.extents.length ≤ 1
  below : ∀ ref ∈ tree.references p, (slashed ref).head? ≠ some '/' ∧ Normal (normRelPath ref) ∧
    tree.isFile (dirname p ++ normRelPath ref) = true
  beside : ∀ hint, (tree.info p).bind (·.parseParent) = some hint → (normRelPath hint).length = 1

/-- The descriptors along the parents. -/
inductive Chain (tree : RemoteTree) (top : Path) : Path → Prop
  | top : Chain tree top top
  | parent {p : Path} {hint : Str} : Chain tree top p → (tree.info p).bind (·.parseParent) = some hint →
      Chain tree top (dirname p ++ normRelPath hint)

section Joins

variable {dir outdir : Path} {ref : Str}

theorem resolve_below (normal : Normal dir) (relative : (slashed ref).head? ≠ some '/') (names : Normal (normRelPath ref)) :
    resolve dir ref = dir ++ normRelPath ref := by
  rw [resolve, if_neg relative, normpath_append_relative normal]
  exact normpath_append normal names

theorem safeJoinRemote_below (nested : dir ≠ []) (normal : Normal dir) (names : Normal (normRelPath ref))
    (nonempty : normRelPath ref ≠ []) : safeJoinRemote dir ref = some (dir ++ normRelPath ref) := by
  unfold safeJoinRemote
  dsimp only
  rw [normpath_append normal names, if_neg (not_or.mpr ⟨nonempty, nested⟩), if_pos (List.prefix_append _ _)]

theorem safeJoinLocal_below (normal : Normal outdir) (names : Normal (normRelPath ref))
    (nonempty : normRelPath ref ≠ []) : safeJoinLocal outdir ref = some (outdir ++ normRelPath ref) := by
  unfold safeJoinLocal
  dsimp only
  rw [normpath_append normal names, if_neg nonempty, if_pos (List.prefix_append _ _)]

end Joins

/-- What is below one directory, copied to the same place below another. -/
def placed (outdir dir rel : Path) : Copy := ⟨outdir ++ rel, dir ++ rel⟩

/-- The descriptors are where their remote ones are, with all they refer to, but for the parent of the current one. -/
structure Gathered (tree : RemoteTree) (outdir dir : Path) (pending : Path) (fetched : Fetched) : Prop where
  copies : ∀ copy ∈ fetched.copies, ∃ rel, copy = placed outdir dir rel
  descriptors : ∀ desc ∈ fetched.descriptors, ∃ c, desc = placed outdir dir [c] ∧ Plain tree (dir ++ [c])
  gathered : ∀ desc ∈ fetched.descriptors, ∀ ref ∈ tree.references desc.source,
    placed outdir dir (normRelPath ref) ∈ fetched.copies ∨
      desc.source = pending ∧ (tree.info pending).bind (·.parseParent) = some ref

theorem gathered_nil (tree : RemoteTree) (outdir dir pending : Path) : Gathered tree outdir dir pending {} where
  copies _ member := absurd member List.not_mem_nil
  descriptors _ member := absurd member List.not_mem_nil
  gathered _ member := absurd member List.not_mem_nil

section Gathering

variable {tree : RemoteTree} {outdir dir rel pending : Path} {fetched after : Fetched} {c : Str}

theorem Gathered.sourceOf (inv : Gathered tree outdir dir pending fetched) (member : placed outdir dir rel ∈ fetched.copies) :
    fetched.sourceOf (outdir ++ rel) = some (dir ++ rel) := by
  have some_found : (fetched.copies.find? (·.target = outdir ++ rel)).isSome = true :=
    List.find?_isSome.mpr ⟨_, member, by simp [placed]⟩
  obtain ⟨copy, found⟩ := Option.isSome_iff_exists.mp some_found
  obtain ⟨rel', rfl⟩ := inv.copies copy (List.mem_of_find?_eq_some found)
  have target : outdir ++ rel' = outdir ++ rel := by simpa [placed] using List.find?_some found
  rw [Fetched.sourceOf, found, List.append_cancel_left target]
  rfl

theorem Gathered.infoAt (inv : Gathered tree outdir dir pending fetched) (member : placed outdir dir rel ∈ fetched.copies) :
    fetched.infoAt tree (outdir ++ rel) = tree.info (dir ++ rel) := by
  rw [Fetched.infoAt, inv.sourceOf member]
  rfl

theorem infoAt_head (tree : RemoteTree) (copies descriptors : List Copy) (desc : Copy) :
    (Fetched.mk (desc :: copies) descriptors).infoAt tree desc.target = tree.info desc.source := by
  simp [Fetched.infoAt, Fetched.sourceOf]

theorem mem_references_of_parseExtent {p : Path} {ref : Str} (first : (tree.info p).bind (·.parseExtent) = some ref) :
    ref ∈ tree.references p := by
  obtain ⟨info, known, parsed⟩ := Option.bind_eq_some_iff.mp first
  obtain ⟨head, nonempty⟩ := Option.filter_eq_some_iff.mp parsed
  rw [RemoteTree.references, known]
  exact List.mem_filter.mpr ⟨List.mem_append_left _ (List.mem_of_head? head), nonempty⟩

theorem mem_references_of_parseParent {p : Path} {hint : Str} (given : (tree.info p).bind (·.parseParent) = some hint) :
    hint ∈ tree.references p := by
  obtain ⟨info, known, parsed⟩ := Option.bind_eq_some_iff.mp given
  obtain ⟨parent, nonempty⟩ := Option.filter_eq_some_iff.mp parsed
  rw [RemoteTree.references, known]
  exact List.mem_filter.mpr ⟨List.mem_append_right _ (by rw [parent]; exact List.mem_cons_self), nonempty⟩

theorem Plain.reference_cases {p : Path} {ref : Str} (plain : Plain tree p) (member : ref ∈ tree.references p) :
    (tree.info p).bind (·.parseExtent) = some ref ∨ (tree.info p).bind (·.parseParent) = some ref := by
  cases known : tree.info p with
  | none =>
    rw [RemoteTree.references, known] at member
    cases member
  | some info =>
    rw [RemoteTree.references, known] at member
    obtain ⟨written, nonempty⟩ := List.mem_filter.mp member
    rcases List.mem_append.mp written with extent | parent
    · have few := plain.single info known
      obtain ⟨only, form⟩ : ∃ only, info.extents = [only] := by
        match info.extents, extent, few with
        | [only], _, _ => exact ⟨only, rfl⟩
      rw [form, List.mem_singleton] at extent
      refine .inl (Option.filter_eq_some_iff.mpr ⟨?_, nonempty⟩)
      rw [form, extent]
      rfl
    · exact .inr (Option.filter_eq_some_iff.mpr ⟨Option.mem_toList.mp parent, nonempty⟩)

theorem Plain.below_directory {ref : Str} (plain : Plain tree (dir ++ [c])) (directory : tree.isFile dir = false)
    (member : ref ∈ tree.references (dir ++ [c])) : Normal (normRelPath ref) ∧ normRelPath ref ≠ [] ∧
      tree.isFile (dir ++ normRelPath ref) = true := by
  obtain ⟨-, names, file⟩ := plain.below ref member
  rw [dirname_append] at file
  refine ⟨names, ?_, file⟩
  intro empty
  rw [empty, List.append_nil, directory] at file
  cases file

variable (nested : dir ≠ []) (normal : Normal dir) (directory : tree.isFile dir = false) (normal' : Normal outdir)

include nested normal directory normal'

theorem extentOf_parsed {ref : Str} (plain : Plain tree (dir ++ [c]))
    (first : (tree.info (dir ++ [c])).bind (·.parseExtent) = some ref) (copies descriptors : List Copy) :
    extentOf tree (scheme outdir) ⟨placed outdir dir [c] :: copies, descriptors⟩ (placed outdir dir [c]) =
      some (placed outdir dir (normRelPath ref)) := by
  obtain ⟨names, nonempty, -⟩ := plain.below_directory directory (mem_references_of_parseExtent first)
  have read := infoAt_head tree copies descriptors (placed outdir dir [c])
  unfold extentOf
  rw [read, show (placed outdir dir [c]).source = dir ++ [c] from rfl, first, dirname_append]
  change (safeJoinRemote dir ref).map (fun remote => Copy.mk ((safeJoinLocal outdir ref).getD _) remote) = _
  rw [safeJoinRemote_below nested normal names nonempty, safeJoinLocal_below normal' names nonempty]
  rfl

omit nested directory normal' in
theorem extentOf_guessed (none : (tree.info (dir ++ [c])).bind (·.parseExtent) = none) (copies descriptors : List Copy) :
    extentOf tree (scheme outdir) ⟨placed outdir dir [c] :: copies, descriptors⟩ (placed outdir dir [c]) =
      some (placed outdir dir [stem c ++ "-flat.vmdk".toList]) := by
  have read := infoAt_head tree copies descriptors (placed outdir dir [c])
  unfold extentOf
  rw [read, show (placed outdir dir [c]).source = dir ++ [c] from rfl, none, dirname_append,
    show (placed outdir dir [c]).target = outdir ++ [c] from rfl, name_append]
  dsimp only
  rw [normpath_flat, normpath_normal normal]
  change some (Copy.mk (outdir ++ [name (dir ++ [_])]) _) = _
  rw [name_append]
  rfl

/-- A plain descriptor that is fetched as the parent of the current one takes its place. -/
theorem gathered_fetchDescriptor (plain : Plain tree (dir ++ [c])) (inv : Gathered tree outdir dir pending fetched)
    (closes : ∀ desc ∈ fetched.descriptors, desc.source = pending → ∀ ref,
      (tree.info pending).bind (·.parseParent) = some ref → normRelPath ref = [c])
    (ok : fetchDescriptor tree (scheme outdir) fetched (placed outdir dir [c]) = .ok after) :
    Gathered tree outdir dir (dir ++ [c]) after ∧ placed outdir dir [c] ∈ after.copies ∧
      ∀ copy ∈ fetched.copies, copy ∈ after.copies := by
  obtain ⟨file, descriptors, copied⟩ := fetchDescriptor_cases ok
  have desc_mem : placed outdir dir [c] ∈ after.copies := by
    rcases copied with ⟨copies, -⟩ | ⟨extent, -, -, copies⟩
    · rw [copies]
      exact List.mem_cons_self
    · rw [copies]
      exact List.mem_cons_of_mem _ List.mem_cons_self
  have kept : ∀ copy ∈ fetched.copies, copy ∈ after.copies := by
    intro copy member
    rcases copied with ⟨copies, -⟩ | ⟨extent, -, -, copies⟩
    · rw [copies]
      exact List.mem_cons_of_mem _ member
    · rw [copies]
      exact List.mem_cons_of_mem _ (List.mem_cons_of_mem _ member)
  refine ⟨⟨?_, ?_, ?_⟩, desc_mem, kept⟩
  · intro copy member
    rcases copied with ⟨copies, -⟩ | ⟨extent, found, -, copies⟩
    · rw [copies] at member
      rcases List.mem_cons.mp member with rfl | old
      · exact ⟨[c], rfl⟩
      · exact inv.copies copy old
    · rw [copies] at member
      rcases List.mem_cons.mp member with rfl | member
      · cases first : (tree.info (dir ++ [c])).bind (·.parseExtent) with
        | none =>
          rw [extentOf_guessed normal first] at found
          exact ⟨_, (Option.some.inj found).symm⟩
        | some ref =>
          rw [extentOf_parsed nested normal directory normal' plain first] at found
          exact ⟨_, (Option.some.inj found).symm⟩
      · rcases List.mem_cons.mp member with rfl | old
        · exact ⟨[c], rfl⟩
        · exact inv.copies copy old
  · intro desc member
    rw [descriptors] at member
    rcases List.mem_cons.mp member with rfl | old
    · exact ⟨c, rfl, plain⟩
    · exact inv.descriptors desc old
  · intro desc member ref written
    rw [descriptors] at member
    rcases List.mem_cons.mp member with rfl | old
    · have here : ref ∈ tree.references (dir ++ [c]) := written
      rcases plain.reference_cases here with first | parent
      · left
        have extent := extentOf_parsed nested normal directory normal' plain first fetched.copies
          (placed outdir dir [c] :: fetched.descriptors)
        rcases copied with ⟨-, missing⟩ | ⟨other, found, -, copies⟩
        · have there := RemoteTree.isThere_of_isFile (plain.below_directory directory here).2.2
          exact absurd ((missing _ extent).symm.trans there) (by decide)
        · rw [extent] at found
          rw [copies, Option.some.inj found]
          exact List.mem_cons_self
      · exact .inr ⟨rfl, parent⟩
    · left
      rcases inv.gathered desc old ref written with already | ⟨current, parent⟩
      · exact kept _ already
      · rw [closes desc old current ref parent]
        exact desc_mem

theorem parent_below {hint : Str} {parent : Path} (plain : Plain tree (dir ++ [c]))
    (given : (tree.info (dir ++ [c])).bind (·.parseParent) = some hint)
    (joined : (scheme outdir).join dir hint = some parent) :
    parent = dir ++ normRelPath hint ∧ (scheme outdir).parentTarget hint parent = outdir ++ normRelPath hint := by
  obtain ⟨names, nonempty, -⟩ := plain.below_directory directory (mem_references_of_parseParent given)
  change safeJoinRemote dir hint = some parent at joined
  rw [safeJoinRemote_below nested normal names nonempty] at joined
  refine ⟨(Option.some.inj joined).symm, ?_⟩
  change (safeJoinLocal outdir hint).getD _ = _
  rw [safeJoinLocal_below normal' names nonempty]
  rfl

end Gathering

/-- The current descriptor of the walk and the parents that have been seen are copied. -/
structure Walking (tree : RemoteTree) (outdir dir top : Path) (seen : List Path) (desc : Copy) (fetched : Fetched) :
    Prop where
  current : ∃ c, desc = placed outdir dir [c] ∧ Chain tree top (dir ++ [c])
  copied : desc ∈ fetched.copies
  gathered : Gathered tree outdir dir desc.source fetched
  seen : ∀ p ∈ seen, ∀ rel, p = dir ++ rel → placed outdir dir rel ∈ fetched.copies

section Walking

variable {tree : RemoteTree} {outdir dir top : Path} {fetched next after : Fetched} {seen : List Path} {desc : Copy}
  (nested : dir ≠ []) (normal : Normal dir) (directory : tree.isFile dir = false) (normal' : Normal outdir)
  (plain : ∀ p, Chain tree top p → Plain tree p)

include nested normal directory normal' plain

theorem walking_step {hint : Str} {parent : Path} (inv : Walking tree outdir dir top seen desc fetched)
    (given : (fetched.infoAt tree desc.target).bind (·.parseParent) = some hint)
    (joined : (scheme outdir).join (dirname desc.source) hint = some parent)
    (streamed : fetchDescriptor tree (scheme outdir) fetched ⟨(scheme outdir).parentTarget hint parent, parent⟩ = .ok next) :
    Walking tree outdir dir top (parent :: seen) ⟨(scheme outdir).parentTarget hint parent, parent⟩ next := by
  obtain ⟨c, rfl, chain⟩ := inv.current
  have known : (tree.info (dir ++ [c])).bind (·.parseParent) = some hint := by
    rw [← inv.gathered.infoAt inv.copied]
    exact given
  have base : dirname (placed outdir dir [c]).source = dir := dirname_append dir c
  rw [base] at joined
  obtain ⟨rfl, target⟩ := parent_below nested normal directory normal' (plain _ chain) known joined
  obtain ⟨d, only⟩ := List.length_eq_one_iff.mp ((plain _ chain).beside hint known)
  rw [target, only] at streamed ⊢
  have chain' : Chain tree top (dir ++ [d]) := by
    have onward := chain.parent known
    rwa [dirname_append, only] at onward
  obtain ⟨gathered, copied, kept⟩ := gathered_fetchDescriptor nested normal directory normal' (plain _ chain') inv.gathered
    (by
      intro old _ _ ref parent
      have same : some ref = some hint := parent.symm.trans known
      rw [Option.some.inj same, only])
    streamed
  refine ⟨⟨d, rfl, chain'⟩, copied, gathered, ?_⟩
  intro p member rel below
  rcases List.mem_cons.mp member with rfl | old
  · rw [← List.append_cancel_left below]
    exact copied
  · exact kept _ (inv.seen p old rel below)

theorem Walking.selfContained (inv : Walking tree outdir dir top seen desc after)
    (stops : ∀ hint parent, (after.infoAt tree desc.target).bind (·.parseParent) = some hint →
      (scheme outdir).join (dirname desc.source) hint = some parent → parent ∈ seen ∨ tree.isThere parent = false) :
    after.SelfContained tree := by
  obtain ⟨c, rfl, chain⟩ := inv.current
  intro other member ref written
  obtain ⟨d, rfl, plain'⟩ := inv.gathered.descriptors other member
  have here : ref ∈ tree.references (dir ++ [d]) := written
  obtain ⟨relative, names, -⟩ := plain'.below ref here
  have copied : placed outdir dir (normRelPath ref) ∈ after.copies := by
    rcases inv.gathered.gathered _ member ref written with already | ⟨-, parent⟩
    · exact already
    · have known : (tree.info (dir ++ [c])).bind (·.parseParent) = some ref := parent
      obtain ⟨-, nonempty, file⟩ := (plain _ chain).below_directory directory (mem_references_of_parseParent known)
      have joined : (scheme outdir).join (dirname (placed outdir dir [c]).source) ref = some (dir ++ normRelPath ref) := by
        change safeJoinRemote (dirname (dir ++ [c])) ref = _
        rw [dirname_append, safeJoinRemote_below nested normal names nonempty]
      have given : (after.infoAt tree (placed outdir dir [c]).target).bind (·.parseParent) = some ref := by
        change (after.infoAt tree (outdir ++ [c])).bind _ = _
        rw [inv.gathered.infoAt inv.copied, known]
      rcases stops ref _ given joined with old | missing
      · exact inv.seen _ old _ rfl
      · rw [RemoteTree.isThere_of_isFile file] at missing
        cases missing
  change after.sourceOf (resolve (dirname (outdir ++ [d])) ref) = some (resolve (dirname (dir ++ [d])) ref)
  rw [dirname_append, dirname_append, resolve_below normal' relative names, resolve_below normal relative names]
  exact inv.gathered.sourceOf copied

end Walking

theorem selfContained_of_plain {tree : RemoteTree} {outdir top : Path} {after : Fetched} (normal' : Normal outdir)
    (nested : dirname top ≠ []) (plain : ∀ p, Chain tree top p → Plain tree p)
    (ok : fetchAll tree (scheme outdir) top = .ok after) : after.SelfContained tree := by
  obtain ⟨first, fetchedTop, rest⟩ := fetchAll_eq_ok ok
  obtain ⟨file, -, -⟩ := fetchDescriptor_cases fetchedTop
  have normal : Normal (dirname top) := (RemoteTree.normal_of_isFile file).2.dirname
  have directory : tree.isFile (dirname top) = false := RemoteTree.not_isFile_dirname file List.prefix_rfl
  have split : top = dirname top ++ [name top] := path_eq_dirname_append (RemoteTree.normal_of_isFile file).1
  have desc : (⟨(scheme outdir).plainTarget top, top⟩ : Copy) = placed outdir (dirname top) [name top] := by
    rw [placed, ← split]
    rfl
  have chain : Chain tree top (dirname top ++ [name top]) := by
    rw [← split]
    exact .top
  rw [desc] at fetchedTop rest
  obtain ⟨gathered, copied, -⟩ := gathered_fetchDescriptor nested normal directory normal' (plain _ chain)
    (gathered_nil tree outdir (dirname top) top) (fun _ member => absurd member List.not_mem_nil) fetchedTop
  obtain ⟨seen, desc', walking, stops⟩ := walk_invariant
    (fun seen desc fetched hint parent next inv given joined streamed =>
      walking_step nested normal directory normal' plain inv given joined streamed)
    (Walking.mk ⟨name top, rfl, chain⟩ copied gathered fun _ member => absurd member List.not_mem_nil) rest
  exact walking.selfContained nested normal directory normal' plain stops

end Flatten

section Snapshots

/-- The digits of the paths below. -/
def sha256 : List (Path × Str) := [
  (["vm".toList, "a.vmdk".toList], "06e1ee77d9".toList),
  (["vm".toList, "a-flat.vmdk".toList], "be98e5ed33".toList),
  (["vm".toList, "b.vmdk".toList], "3549eb5ef3".toList),
  (["vm".toList, "b-flat.vmdk".toList], "43669713d4".toList),
  (["vm".toList, "base".toList, "b.vmdk".toList], "575e1607f4".toList),
  (["vm".toList, "base".toList, "b-flat.vmdk".toList], "7aa9ec7513".toList)]

def sha256Digest : Digest where
  hash8 path := ((sha256.find? (·.1 = path)).map (·.2)).getD []
  hex path c member := by
    have digits : ∀ entry ∈ sha256, ∀ c ∈ entry.2, c.isAlphanum = true := by decide
    cases found : sha256.find? (·.1 = path) with
    | none =>
      rw [found] at member
      cases member
    | some entry =>
      rw [found] at member
      exact digits entry (List.mem_of_find?_eq_some found) c member

/-- A snapshot beside its base. -/
def besideTree : RemoteTree where
  files := [
    (["vm".toList, "a.vmdk".toList], some ⟨["a-flat.vmdk".toList], some "b.vmdk".toList⟩),
    (["vm".toList, "a-flat.vmdk".toList], none),
    (["vm".toList, "b.vmdk".toList], some ⟨["b-flat.vmdk".toList], none⟩),
    (["vm".toList, "b-flat.vmdk".toList], none)]
  named := by decide
  leaves := by decide

/-- A snapshot with its base in a directory below. -/
def nestedTree : RemoteTree where
  files := [
    (["vm".toList, "a.vmdk".toList], some ⟨["a-flat.vmdk".toList], some "base/b.vmdk".toList⟩),
    (["vm".toList, "a-flat.vmdk".toList], none),
    (["vm".toList, "base".toList, "b.vmdk".toList], some ⟨["b-flat.vmdk".toList], none⟩),
    (["vm".toList, "base".toList, "b-flat.vmdk".toList], none)]
  named := by decide
  leaves := by decide

theorem exists_ok {r : Except FetchError Fetched} {P : Fetched → Prop} [DecidablePred P]
    (run : r.toOption.any (fun fetched => decide (P fetched)) = true) : ∃ fetched, r = .ok fetched ∧ P fetched := by
  cases r with
  | error err => cases run
  | ok fetched => exact ⟨fetched, rfl, of_decide_eq_true run⟩

theorem plain_besideTree (p : Path) (chain : Flatten.Chain besideTree ["vm".toList, "a.vmdk".toList] p) :
    Flatten.Plain besideTree p := by
  have place : p = ["vm".toList, "a.vmdk".toList] ∨ p = ["vm".toList, "b.vmdk".toList] := by
    induction chain with
    | top => exact .inl rfl
    | @parent p hint _ given ih =>
      rcases ih with rfl | rfl
      · have only : some "b.vmdk".toList = some hint := given
        rw [← Option.some.inj only]
        exact .inr (by decide)
      · cases given
  rcases place with rfl | rfl
  · refine ⟨?_, by decide, ?_⟩
    · intro info known
      rw [← Option.some.inj known]
      decide
    · intro hint given
      have only : some "b.vmdk".toList = some hint := given
      rw [← Option.some.inj only]
      decide
  · refine ⟨?_, by decide, ?_⟩
    · intro info known
      rw [← Option.some.inj known]
      decide
    · intro hint given
      cases given

end Snapshots

end H2kvm.Converters
