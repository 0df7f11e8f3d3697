import H2kvm.Converters.Contained
import H2kvm.Converters.FlatFastPath
import H2kvm.Converters.VmdkParser
import H2kvm.Framework.Trail

namespace H2kvm.Converters.VMDK

open Extract Framework FileTree Paths Text
open Network (lower)

/-- A `Path`: its root, of no slash or one or two, and its parts. -/
structure PurePath where
  root : List Char
  parts : Path
  deriving DecidableEq

namespace PurePath

/-- `Path(text)` -/
def ofText (text : List Char) : PurePath where
  root := match text.takeWhile (· = '/') with
    | [] => []
    | ['/', '/'] => ['/', '/']
    | _ => ['/']
  parts := (components text).filter (· ≠ ['.'])

def isAbsolute (p : PurePath) : Bool := p.root ≠ []

def parent (p : PurePath) : PurePath := { p with parts := p.parts.dropLast }

def name (p : PurePath) : List Char := p.parts.getLast?.getD []

/-- `base / p` -/
def under (base p : PurePath) : PurePath :=
  if p.isAbsolute then p else { base with parts := base.parts ++ p.parts }

/-- The way from the root of the file system, from a current directory. -/
def within (cwd : Path) (p : PurePath) : Path := if p.isAbsolute then p.parts else cwd ++ p.parts

/-- A path as `resolve` gives it. -/
def real (parts : Path) : PurePath := ⟨['/'], parts⟩

end PurePath

open PurePath

/-- What is raised: a `VMDKError`, or what `resolve` raises. -/
inductive Raised
  | traversal
  | unresolved (failure : Failure)
  deriving DecidableEq

variable (sys : System) (tree : Places Descriptor.Bytes) (cwd : Path)

/-- `p.resolve()` -/
def resolvePath (p : PurePath) : Except Raised PurePath :=
  match realpath sys tree (p.within cwd) with
  | .ok parts => .ok (real parts)
  | .error failure => .error (.unresolved failure)

/-- Where `p` is for a system call. -/
def opened (p : PurePath) : Option Path :=
  if (p.within cwd).any (·.contains '\x00') then none
  else (FileTree.resolve .kernel tree sys.hops [] (p.within cwd)).toOption

/-- `p.exists()` -/
def pathExists (p : PurePath) : Bool := ((opened sys tree cwd p).bind (node tree)).isSome

/-- `VMDK._norm_ref` -/
def normRef (ref : List Char) : List Char := slashes (unquote ref)

/-- `norm.count("../")` -/
def traversalCount (norm : List Char) : Nat := norm.tails.countP fun s => decide ("../".toList <+: s)

def looksLikeVmdk (name : List Char) : Bool :=
  [".vmdk", ".vmx", ".nvram", ".vmsd"].any fun suffix => decide (suffix.toList <:+ lower name)

/-- `VMDK._resolve_ref` -/
def resolveRef (baseDir : PurePath) (ref : List Char) : Except Raised PurePath := do
  let norm := normRef ref
  let baseResolved ← resolvePath sys tree cwd baseDir
  let candidate := ofText norm
  if candidate.isAbsolute then resolvePath sys tree cwd candidate
  else
    let rel ← resolvePath sys tree cwd (baseDir.under candidate)
    if baseResolved.parts <+: rel.parts then .ok rel
    else if 1 < traversalCount norm ∨ looksLikeVmdk candidate.name = false then .error .traversal
    else
      -- directories are flattened: the name beside the descriptor
      let base ← resolvePath sys tree cwd (baseDir.under ⟨[], [candidate.name]⟩)
      if baseResolved.parts <+: base.parts then .ok base else .error .traversal

/-- `bytes.decode("utf-8", "ignore")` -/
def decodeIgnore (bytes : List UInt8) : List Char :=
  (Utf8.pieces bytes).filterMap fun
    | .char c => some c
    | .bad _ => none

/-- `VMDK.parse_descriptor_info`, of the file at a path. -/
def descriptorInfo (p : PurePath) : Option DescriptorInfo :=
  (opened sys tree cwd p).bind fun q => (Flatten.fileAt tree q).bind fun bytes =>
    if isTextDescriptor bytes then some (((splitlines (decodeIgnore bytes)).zipIdx 1).foldl parseLine {}) else none

/-- `VMDK.resolve_parent_path` -/
def resolveParentPath (desc : PurePath) : Except Raised (Option PurePath) :=
  match (descriptorInfo sys tree cwd desc).bind (·.parent) with
  | none | some [] => .ok none
  | some hint => (resolveRef sys tree cwd desc.parent hint).map some

/-- `VMDK.walk_parent_chain`, with the chain so far. -/
def walkFrom : Nat → List PurePath → PurePath → Except Raised (List PurePath)
  | 0, chain, _ => .ok chain
  | depth + 1, chain, cur => do
    let chain := chain ++ [cur]
    match ← resolveParentPath sys tree cwd cur with
    | none => .ok chain
    | some parent =>
      if parent ∈ chain then .ok chain
      else if pathExists sys tree cwd parent then walkFrom depth chain parent
      else .ok chain

/-- `VMDK.walk_parent_chain` -/
def walkParentChain (maxDepth : Nat) (desc : PurePath) : Except Raised (List PurePath) :=
  walkFrom sys tree cwd maxDepth [] desc

/-- The parent of a descriptor, where it is there. -/
def parentThere (desc : PurePath) : Except Raised (Option PurePath) :=
  (resolveParentPath sys tree cwd desc).map (·.filter (pathExists sys tree cwd))

/-- The file a path leads to. -/
def fileOf (p : PurePath) : Except Errno Path := FileTree.resolve .lenient tree sys.depth [] (p.within cwd)

/-- A reference from a descriptor's directory leads to a place at or below it, or is refused. -/
def Safe (baseDir : PurePath) (ref : List Char) : Prop :=
  resolveRef sys tree cwd baseDir ref = .error .traversal ∨
    ∃ base r, resolvePath sys tree cwd baseDir = .ok (real base) ∧ resolveRef sys tree cwd baseDir ref = .ok (real r) ∧
      base <+: r

/-- No loop of links and no NUL is met on the ways a relative reference is tried. -/
def Resolves (baseDir : PurePath) (ref : List Char) : Prop :=
  let candidate := ofText (normRef ref)
  ∃ base r, realpath sys tree (baseDir.within cwd) = .ok base ∧
    realpath sys tree ((baseDir.under candidate).within cwd) = .ok r ∧
    (base <+: r ∨ 1 < traversalCount (normRef ref) ∨ looksLikeVmdk candidate.name = false ∨
      ∃ r', realpath sys tree ((baseDir.under ⟨[], [candidate.name]⟩).within cwd) = .ok r')

variable {sys tree cwd} {p q desc baseDir : PurePath} {r : Path} {ref : List Char} {e : Raised}

theorem resolvePath_eq_ok_iff : resolvePath sys tree cwd p = .ok q ↔
    ∃ r, realpath sys tree (p.within cwd) = .ok r ∧ q = real r := by
  rw [resolvePath]
  cases realpath sys tree (p.within cwd) with
  | ok r => simp [eq_comm]
  | error f => simp

theorem resolvePath_error (failed : resolvePath sys tree cwd p = .error e) :
    ∃ f, realpath sys tree (p.within cwd) = .error f ∧ e = .unresolved f := by
  rw [resolvePath] at failed
  cases found : realpath sys tree (p.within cwd) with
  | ok r =>
    rw [found] at failed
    cases failed
  | error f =>
    rw [found] at failed
    exact ⟨f, rfl, (Except.error.inj failed).symm⟩

theorem realpath_real (found : realpath sys tree (p.within cwd) = .ok r) : fileOf sys tree cwd (real r) = .ok r := by
  have found' : realpath sys (Disk.mk tree []).tree (p.within cwd) = .ok r := found
  obtain ⟨normal, unlinked⟩ := realpath_plain found'
  have plain : Unlinked tree ([] ++ r) := unlinked
  exact resolve_plain normal plain nofun

theorem resolveRef_relative (sys : System) (tree : Places Descriptor.Bytes) (cwd : Path) (baseDir : PurePath)
    (relative : (ofText (normRef ref)).isAbsolute = false) :
    resolveRef sys tree cwd baseDir ref = (do
      let baseResolved ← resolvePath sys tree cwd baseDir
      let rel ← resolvePath sys tree cwd (baseDir.under (ofText (normRef ref)))
      if baseResolved.parts <+: rel.parts then .ok rel
      else if 1 < traversalCount (normRef ref) ∨ looksLikeVmdk (ofText (normRef ref)).name = false then .error .traversal
      else
        let base ← resolvePath sys tree cwd (baseDir.under ⟨[], [(ofText (normRef ref)).name]⟩)
        if baseResolved.parts <+: base.parts then .ok base else .error .traversal) := by
  simp only [resolveRef, relative, Bool.false_eq_true, if_false]

/-- The relative references that do not meet a loop are the safe ones. -/
theorem safe_ref_iff (relative : (ofText (normRef ref)).isAbsolute = false) :
    Safe sys tree cwd baseDir ref ↔ Resolves sys tree cwd baseDir ref := by
  have made := resolveRef_relative sys tree cwd baseDir relative
  cases hb : resolvePath sys tree cwd baseDir with
  | error e =>
    obtain ⟨f, failed, rfl⟩ := resolvePath_error hb
    simp [Safe, Resolves, made, hb, failed, Bind.bind, Except.bind]
  | ok b =>
    obtain ⟨base, foundBase, rfl⟩ := resolvePath_eq_ok_iff.mp hb
    cases hr : resolvePath sys tree cwd (baseDir.under (ofText (normRef ref))) with
    | error e =>
      obtain ⟨f, failed, rfl⟩ := resolvePath_error hr
      simp [Safe, Resolves, made, hb, hr, failed, Bind.bind, Except.bind]
    | ok rel =>
      obtain ⟨r, foundRel, rfl⟩ := resolvePath_eq_ok_iff.mp hr
      simp only [hb, hr, Bind.bind, Except.bind] at made
      by_cases inside : (real base).parts <+: (real r).parts
      · rw [if_pos inside] at made
        exact iff_of_true (.inr ⟨base, r, hb, made, inside⟩) ⟨base, r, foundBase, foundRel, .inl inside⟩
      rw [if_neg inside] at made
      by_cases refused : 1 < traversalCount (normRef ref) ∨ looksLikeVmdk (ofText (normRef ref)).name = false
      · rw [if_pos refused] at made
        exact iff_of_true (.inl made) ⟨base, r, foundBase, foundRel, .inr (refused.imp_right .inl)⟩
      rw [if_neg refused] at made
      cases hf : resolvePath sys tree cwd (baseDir.under ⟨[], [(ofText (normRef ref)).name]⟩) with
      | error e =>
        obtain ⟨f, failed, rfl⟩ := resolvePath_error hf
        rw [hf] at made
        refine iff_of_false ?_ ?_
        · rintro (unsafe' | ⟨base', r', -, found, -⟩)
          · rw [made] at unsafe'
            cases unsafe'
          · rw [made] at found
            cases found
        · rintro ⟨base', r', foundBase', foundRel', inside' | many | plain | ⟨r'', found⟩⟩
          · rw [foundBase] at foundBase'
            rw [foundRel] at foundRel'
            cases foundBase'
            cases foundRel'
            exact inside inside'
          · exact refused (.inl many)
          · exact refused (.inr plain)
          · rw [failed] at found
            cases found
      | ok fallback =>
        obtain ⟨r', found, rfl⟩ := resolvePath_eq_ok_iff.mp hf
        have resolves : Resolves sys tree cwd baseDir ref :=
          ⟨base, r, foundBase, foundRel, .inr (.inr (.inr ⟨r', found⟩))⟩
        rw [hf] at made
        by_cases inside' : (real base).parts <+: (real r').parts
        · exact iff_of_true (.inr ⟨base, r', hb, made.trans (if_pos inside'), inside'⟩) resolves
        · exact iff_of_true (.inl (made.trans (if_neg inside'))) resolves

theorem resolveRef_real (made : resolveRef sys tree cwd baseDir ref = .ok q) :
    ∃ (p : PurePath) (r : Path), realpath sys tree (p.within cwd) = .ok r ∧ q = real r := by
  have each {p : PurePath} (found : resolvePath sys tree cwd p = .ok q) :
      ∃ (p : PurePath) (r : Path), realpath sys tree (p.within cwd) = .ok r ∧ q = real r := ⟨p, resolvePath_eq_ok_iff.mp found⟩
  simp only [resolveRef, Bind.bind, Except.bind] at made
  split at made
  · cases made
  split at made
  · exact each made
  split at made
  · cases made
  next rel found =>
    split at made
    · exact each (made ▸ found)
    split at made
    · cases made
    split at made
    · cases made
    next base found =>
      split at made
      · exact each (made ▸ found)
      · cases made

theorem resolveParentPath_real (made : resolveParentPath sys tree cwd desc = .ok (some q)) :
    ∃ (p : PurePath) (r : Path), realpath sys tree (p.within cwd) = .ok r ∧ q = real r := by
  rw [resolveParentPath] at made
  split at made
  · cases made
  · cases made
  · next hint _ _ =>
    cases found : resolveRef sys tree cwd desc.parent hint with
    | error e =>
      rw [found] at made
      cases made
    | ok p =>
      rw [found] at made
      cases made
      exact resolveRef_real found

theorem parentThere_error_iff : parentThere sys tree cwd desc = .error e ↔ resolveParentPath sys tree cwd desc = .error e := by
  rw [parentThere]
  cases resolveParentPath sys tree cwd desc <;> simp [Except.map]

theorem parentThere_some (made : parentThere sys tree cwd desc = .ok (some q)) :
    resolveParentPath sys tree cwd desc = .ok (some q) := by
  rw [parentThere] at made
  cases found : resolveParentPath sys tree cwd desc with
  | error e =>
    rw [found] at made
    cases made
  | ok parent =>
    rw [found] at made
    rw [(Option.filter_eq_some_iff.mp (Except.ok.inj made)).1]

theorem walkFrom_eq_trail (depth : Nat) (chain : List PurePath) (cur : PurePath) :
    walkFrom sys tree cwd depth chain cur = trail (parentThere sys tree cwd) depth chain cur := by
  induction depth generalizing chain cur with
  | zero => rfl
  | succ depth ih =>
    rw [walkFrom, trail, parentThere]
    cases found : resolveParentPath sys tree cwd cur with
    | error e => rfl
    | ok parent =>
      cases parent with
      | none => rfl
      | some parent =>
        simp only [Bind.bind, Except.bind, Except.map]
        by_cases there : pathExists sys tree cwd parent = true
        · simp only [Option.filter_some, there, if_true, ih]
        · simp [Option.filter_some, there]

theorem spelled {k : Nat} (there : Steps (parentThere sys tree cwd) k desc p) :
    p = desc ∨ ∃ r, p = real r ∧ fileOf sys tree cwd p = .ok r := by
  cases there with
  | refl => exact .inl rfl
  | tail _ last =>
    obtain ⟨q, r, found, rfl⟩ := resolveParentPath_real (parentThere_some last)
    exact .inr ⟨r, rfl, realpath_real found⟩

theorem nodup_files_iff {maxDepth : Nat} {chain : List PurePath}
    (followed : Followed (parentThere sys tree cwd) maxDepth desc chain) :
    (chain.map (fileOf sys tree cwd)).Nodup ↔
      ∀ r, fileOf sys tree cwd desc = .ok r → desc = real r ∨ real r ∉ chain := by
  have spelled' {p : PurePath} (member : p ∈ chain) : p = desc ∨ ∃ r, p = real r ∧ fileOf sys tree cwd p = .ok r := by
    obtain ⟨k, -, there⟩ := followed.mem_iff.mp member
    exact spelled there
  constructor
  · intro distinct r file
    refine or_iff_not_imp_right.mpr fun member => ?_
    have again : real r ∈ chain := not_not.mp member
    have start : desc ∈ chain := by
      obtain ⟨k, inside, -⟩ := followed.mem_iff.mp again
      exact followed.mem_iff.mpr ⟨0, by omega, .refl desc⟩
    rcases spelled' again with same | ⟨r', same, file'⟩
    · exact same.symm
    · obtain rfl : r = r' := congrArg PurePath.parts same
      exact List.inj_on_of_nodup_map distinct start again (file.trans file'.symm)
  · intro apart
    refine List.Nodup.map_on (fun p member q member' same => ?_) followed.distinct
    have first {p : PurePath} (member : p ∈ chain) (same : fileOf sys tree cwd desc = fileOf sys tree cwd p) : desc = p := by
      rcases spelled' member with rfl | ⟨r, rfl, file⟩
      · rfl
      · rcases apart r (same.trans file) with h | absent
        · exact h
        · exact absurd member absent
    rcases spelled' member with rfl | ⟨r, rfl, file⟩
    · exact first member' same
    · rcases spelled' member' with rfl | ⟨r', rfl, file'⟩
      · exact (first member same.symm).symm
      · rw [file, file'] at same
        rw [Except.ok.inj same]

theorem walkParentChain_iff (maxDepth : Nat) :
    (∃ chain, walkParentChain sys tree cwd maxDepth desc = .ok chain ∧
        Followed (parentThere sys tree cwd) maxDepth desc chain ∧ (chain.map (fileOf sys tree cwd)).Nodup) ↔
      (∀ k < maxDepth, ∀ p e, Steps (parentThere sys tree cwd) k desc p → resolveParentPath sys tree cwd p ≠ .error e) ∧
        ∀ r, fileOf sys tree cwd desc = .ok r →
          desc = real r ∨ ∀ k < maxDepth, ¬Steps (parentThere sys tree cwd) k desc (real r) := by
  have heeded : (∃ chain, walkParentChain sys tree cwd maxDepth desc = .ok chain) ↔
      ∀ k < maxDepth, ∀ p e, Steps (parentThere sys tree cwd) k desc p → resolveParentPath sys tree cwd p ≠ .error e := by
    simp only [walkParentChain, walkFrom_eq_trail, trail_ok_iff, ne_eq, parentThere_error_iff]
  rw [← heeded]
  simp only [walkParentChain, walkFrom_eq_trail]
  constructor
  · rintro ⟨chain, made, followed, distinct⟩
    refine ⟨⟨chain, made⟩, fun r file => ((nodup_files_iff followed).mp distinct r file).imp_right ?_⟩
    intro absent k inside there
    exact absent (followed.mem_iff.mpr ⟨k, inside, there⟩)
  · rintro ⟨⟨chain, made⟩, apart⟩
    have followed := trail_followed made
    refine ⟨chain, made, followed, (nodup_files_iff followed).mpr fun r file => (apart r file).imp_right ?_⟩
    intro never member
    obtain ⟨k, inside, there⟩ := followed.mem_iff.mp member
    exact never k inside there

/-- The walk and the references: what they come to, and when. -/
theorem parentChain_iff (sys : System) (tree : Places Descriptor.Bytes) (cwd : Path) (maxDepth : Nat) (desc : PurePath) :
    ((∃ chain, walkParentChain sys tree cwd maxDepth desc = .ok chain ∧
        Followed (parentThere sys tree cwd) maxDepth desc chain ∧ (chain.map (fileOf sys tree cwd)).Nodup) ↔
      (∀ k < maxDepth, ∀ p e, Steps (parentThere sys tree cwd) k desc p → resolveParentPath sys tree cwd p ≠ .error e) ∧
        ∀ r, fileOf sys tree cwd desc = .ok r →
          desc = real r ∨ ∀ k < maxDepth, ¬Steps (parentThere sys tree cwd) k desc (real r)) ∧
    ∀ baseDir ref, (ofText (normRef ref)).isAbsolute = false →
      (Safe sys tree cwd baseDir ref ↔ Resolves sys tree cwd baseDir ref) :=
  ⟨walkParentChain_iff maxDepth, fun _ _ => safe_ref_iff⟩

/-- A directory with a descriptor whose parent is itself. -/
def selfParent : Places Descriptor.Bytes :=
  [⟨["vm".toList], .dir⟩,
    ⟨["vm".toList, "a.vmdk".toList], .file (Utf8.encode "parentFileNameHint=\"a.vmdk\"".toList)⟩].toAList

theorem listed_twice :
    let chain := [ofText "a.vmdk".toList, real ["vm".toList, "a.vmdk".toList]]
    walkParentChain linux selfParent ["vm".toList] 64 (ofText "a.vmdk".toList) = .ok chain ∧
      ¬(chain.map (fileOf linux selfParent ["vm".toList])).Nodup := by
  decide +kernel

end H2kvm.Converters.VMDK
