import H2kvm.Converters.Chains

namespace H2kvm.Converters

open Framework Names Paths

variable {tree : RemoteTree} {fetched after : Fetched} {desc : Copy} {outdir top : Path}

/-- An extent is joined to the directory of its descriptor, or guessed in it and admitted. -/
theorem extentOf_cases {scheme : Scheme} {extent : Copy} (found : extentOf tree scheme fetched desc = some extent) :
    (∃ ref, scheme.join (dirname desc.source) ref = some extent.source) ∨
      (scheme.admits extent.source = true ∧
        ∃ base, extent.source = normpath true (dirname desc.source ++ [base ++ "-flat.vmdk".toList])) := by
  unfold extentOf at found
  split at found
  · next ref _ =>
    obtain ⟨remote, joined, rfl⟩ := Option.map_eq_some_iff.mp found
    exact .inl ⟨ref, joined⟩
  · dsimp only at found
    split at found
    · next admitted =>
      rw [← Option.some.inj found]
      exact .inr ⟨admitted, _, rfl⟩
    · cases found

/-- A snapshot that names a file of the host as its extent, beside its base. -/
def escapingTree : RemoteTree where
  files := [
    (["vm".toList, "a.vmdk".toList], some ⟨["../etc/shadow".toList], some "b.vmdk".toList⟩),
    (["vm".toList, "b.vmdk".toList], some ⟨["b-flat.vmdk".toList], some "/etc/shadow".toList⟩),
    (["vm".toList, "b-flat.vmdk".toList], none),
    (["etc".toList, "shadow".toList], none)]
  named := by decide
  leaves := by decide

namespace Fetch

variable {digest : Digest} {remote : Path}

theorem normal_safeParts : Normal (safeParts remote) := by
  intro part member
  have kept := List.mem_of_mem_drop member
  split at kept
  · rw [List.mem_singleton.mp kept]
    exact proper_of_length (by decide)
  · obtain ⟨p, filtered, rfl⟩ := List.mem_map.mp kept
    obtain ⟨-, named⟩ := List.mem_filter.mp filtered
    split
    · exact proper_of_length (by decide)
    · next noup =>
      simp only [ne_eq, decide_eq_true_eq] at named
      exact ⟨named.1, named.2, noup⟩

/-- What stands for a remote file has the names of files only, and at most three of them. -/
theorem normal_safeLocalRelFromRemote : Normal (safeLocalRelFromRemote digest remote) ∧
    0 < (safeLocalRelFromRemote digest remote).length ∧ (safeLocalRelFromRemote digest remote).length ≤ 3 := by
  have few : (safeParts remote).length ≤ 3 := by
    unfold safeParts
    dsimp only
    rw [List.length_drop]
    omega
  refine ⟨?_, by simp [safeLocalRelFromRemote], ?_⟩
  · intro part member
    rcases List.mem_append.mp member with before | last
    · exact normal_safeParts.dropLast part before
    · have underscore : '_' ∈ stem (name (safeParts remote)) ++ "__".toList ++ digest.hash8 remote ++
          suffix (name (safeParts remote)) := by simp
      rw [List.mem_singleton.mp last]
      refine ⟨?_, ?_, ?_⟩
      all_goals
        intro same
        rw [same] at underscore
        revert underscore
        decide
  · simp only [safeLocalRelFromRemote, List.length_append, List.length_dropLast, List.length_singleton]
    omega

theorem isUnderRemoteRoot_iff {root : Path} : isUnderRemoteRoot remote root = true ↔ root <+: remote := by
  simp [isUnderRemoteRoot]

theorem scheme_join {sandbox base : Path} {ref : Str} (joined : (scheme digest outdir sandbox).join base ref = some remote) :
    sandbox <+: remote := by
  simp only [scheme] at joined
  split at joined
  · next under =>
    rw [← Option.some.inj joined]
    exact isUnderRemoteRoot_iff.mp under
  · cases joined

end Fetch

namespace Flatten

theorem safeJoinRemote_under {base parent : Path} {rel : Str} (joined : safeJoinRemote base rel = some parent) :
    base <+: parent := by
  unfold safeJoinRemote at joined
  dsimp only at joined
  split at joined
  · cases joined
  · split at joined
    · next under => rwa [← Option.some.inj joined]
    · cases joined

theorem extentOf_under {extent : Copy} (file : tree.isFile desc.source = true)
    (found : extentOf tree (scheme outdir) fetched desc = some extent) : dirname desc.source <+: extent.source := by
  rcases extentOf_cases found with ⟨ref, joined⟩ | ⟨-, base, beside⟩
  · exact safeJoinRemote_under joined
  · rw [beside, normpath_flat, normpath_normal (RemoteTree.normal_of_isFile file).2.dirname]
    exact List.prefix_append _ _

theorem fetchDescriptor_under (below : dirname top <+: dirname desc.source)
    (before : ∀ copy ∈ fetched.copies, dirname top <+: copy.source)
    (ok : fetchDescriptor tree (scheme outdir) fetched desc = .ok after) :
    ∀ copy ∈ after.copies, dirname top <+: copy.source := by
  obtain ⟨file, -, copied⟩ := fetchDescriptor_cases ok
  have itself : dirname top <+: desc.source := below.trans (List.dropLast_prefix _)
  rcases copied with ⟨copies, -⟩ | ⟨extent, found, -, copies⟩
  · rw [copies, List.forall_mem_cons]
    exact ⟨itself, before⟩
  · rw [copies, List.forall_mem_cons, List.forall_mem_cons]
    exact ⟨below.trans (extentOf_under file found), itself, before⟩

end Flatten

end H2kvm.Converters
