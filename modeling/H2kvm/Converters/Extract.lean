import Mathlib
import H2kvm.Framework.FileOps
import H2kvm.Framework.Names
import H2kvm.Framework.Run
import H2kvm.Network.Renames

namespace H2kvm.Converters.Extract

open Framework FileTree Names Paths Text
open Network (lower)

/-- `TarInfo.type`. -/
inductive Kind
  | dir
  | file
  | symlink
  | hardlink
  | chardev
  | blockdev
  | fifo
  | other
  deriving DecidableEq

/-- What `extractfile` reads: the bytes that come, and whether all of them do. -/
structure Stream (δ : Type) where
  data : δ
  length : Nat
  whole : Bool

/-- A `TarInfo`. -/
structure Member (δ : Type) where
  name : List Char
  kind : Kind
  size : Nat
  mode : Nat
  stream : Option (Stream δ)

inductive Failure
  | os (errno : Errno)
  | symlinkLoop
  | nullByte
  | emptyName (name : List Char)
  | absolute (name : List Char)
  | traversal (name : List Char)
  | escapes (name : List Char)
  | outside (path : Path)
  | symlinkComponent (path : Path)
  | symlinkTarget (path : Path)
  | unverified (path : Path)
  | tooLarge (name : List Char) (size : Nat)
  | exceeded (written : Nat)
  | unsupported (name : List Char) (kind : Kind)
  | unreadable (name : List Char)
  | readError
  | fileExists (path : Path)
  | notRegular (path : Path)
  | notUnique (path : Path)
  | tooManyMembers (count : Nat)
  | tooManyBytes (total : Nat)
  | tooManyFiles (count : Nat)
  | nothingToExtract
  deriving DecidableEq

/-- Code that changes the disk and may raise; what it changed stays changed. -/
abbrev Act (δ α : Type) := EStateM Failure (Disk δ) α

/-- Where the code runs: how many links a system call follows, and how many `realpath` does before it has met one
twice; whether the file system knows `O_NOFOLLOW`; the first digits of a hash of a path and the process id. -/
structure System where
  hops : Nat
  depth : Nat
  noFollow : Bool
  tag : Path → List Char
  isAlpha : Char → Bool

variable {δ α : Type} (sys : System)

def call (x : Call δ α) : Act δ α := x.adaptExcept .os

def lift (x : Except Failure α) : Act δ α := fun d =>
  match x with
  | .ok a => .ok a d
  | .error e => .error e d

/-- `Path.resolve`. -/
def realpath (t : Places δ) (p : Path) : Except Failure Path :=
  if p.any (·.contains '\x00') then .error .nullByte
  else match resolve .lenient t sys.depth [] p with
    | .ok r => .ok r
    | .error _ => .error .symlinkLoop

def resolved (p : Path) : Act δ Path := fun d => lift (realpath sys d.tree p) d

/-- `Path.exists`, and then `unlink` with its `OSError` passed over. -/
def removeIfPresent (p : Path) : Act δ Unit := do
  let d ← get
  if isPresent sys.hops d.tree p then suppress (unlink sys.hops p) else pure ()

/-- A limit that may not be set. -/
def within (limit : Option Nat) (n : Nat) : Bool := limit.all (n ≤ ·)

/-- What an archive as a whole may hold. -/
structure Limits where
  maxMembers : Option Nat
  maxTotalBytes : Option Nat

/-- The bytes of the regular files, as the archive declares them. -/
def totalBytes (members : List (Member δ)) : Nat := ((members.filter (·.kind = .file)).map (·.size)).sum

/-- The checks before the first member is extracted. -/
def checkLimits (limits : Limits) (members : List (Member δ)) : Act δ Unit := do
  require (within limits.maxMembers members.length) (.tooManyMembers members.length)
  require (within limits.maxTotalBytes (totalBytes members)) (.tooManyBytes (totalBytes members))

def slashes (name : List Char) : List Char := name.map fun c => if c = '\\' then '/' else c

/-- `while n.startswith("./"): n = n[2:]` -/
def dropDots : List Char → List Char
  | '.' :: '/' :: rest => dropDots rest
  | name => name

/-- The parts of a name without the dots, where none leads up. -/
def cleanParts (name : List Char) (parts : Path) : Except Failure Path :=
  if up ∈ parts then .error (.traversal name)
  else
    let clean := parts.filter (· ≠ ['.'])
    if clean = [] then .error (.emptyName name) else .ok clean

/-- The paths between a directory and one below it, the last included. -/
def cursors (base rel : Path) : List Path := rel.inits.tail.map (base ++ ·)

namespace OVF

/-- `OVF._clean_posix_relpath`. -/
def cleanPosixRelpath (name : List Char) : Except Failure Path :=
  cleanParts name (components ((slashes name).dropWhile (· = '/')))

/-- `OVF._assert_no_symlink_parents`. -/
def assertNoSymlinkParents (outdir target : Path) : Act δ Unit := do
  let d ← get
  require (decide (outdir <+: target)) (.outside target)
  let found := (cursors outdir (target.drop outdir.length).dropLast).find? fun cur =>
    isPresent sys.hops d.tree cur && isSymlink sys.hops d.tree cur
  require found.isNone (.symlinkComponent (found.getD []))

/-- `OVF._safe_out_path`. -/
def safeOutPath (outdir : Path) (rel : List Char) : Act δ Path := do
  let outdirR ← resolved sys outdir
  let parts ← lift (cleanPosixRelpath rel)
  let target ← resolved sys (outdirR ++ parts)
  require (decide (outdirR <+: target)) (.escapes rel)
  assertNoSymlinkParents sys outdirR target
  pure target

inductive Status
  | extracted
  | skippedSpecial
  | skippedOther
  deriving DecidableEq

def isSpecial (kind : Kind) : Bool := kind ∈ [.symlink, .hardlink, .chardev, .blockdev, .fifo]

/-- The names `NamedTemporaryFile` tries, of the texts it draws. -/
def temporaryNames (target : Path) (drawn : List (List Char)) : List (List Char) :=
  drawn.map fun text => '.' :: (target.getLast?.getD [] ++ '.' :: text ++ ".tmp".toList)

/-- A file is written beside the target and moved onto it. -/
def store [Inhabited δ] (target : Path) (drawn : List (List Char)) (src : Stream δ) : Act δ Unit := do
  let tmpPath ← call (mkstemp sys.hops target.dropLast (temporaryNames target drawn))
  tryCatch (do
    call (write tmpPath src.data)
    require src.whole .readError
    call (replace sys.hops tmpPath target)
    suppress (chmod sys.hops target 0o644))
    fun e => do
      removeIfPresent sys tmpPath
      throw e
  removeIfPresent sys tmpPath

/-- `OVF._safe_extract_one`. -/
def safeExtractOne [Inhabited δ] (outdir : Path) (skipSpecial : Bool) (maxMemberBytes : Option Nat)
    (drawn : List (List Char)) (member : Member δ) : Act δ (Nat × Status) :=
  if isSpecial member.kind && skipSpecial then pure (0, .skippedSpecial)
  else if member.kind = .dir then do
    let targetDir ← safeOutPath sys outdir member.name
    call (mkdirs sys.hops targetDir)
    pure (0, .extracted)
  else if member.kind ≠ .file then pure (0, .skippedOther)
  else do
    require (within maxMemberBytes member.size) (.tooLarge member.name member.size)
    let target ← safeOutPath sys outdir member.name
    call (mkdirs sys.hops target.dropLast)
    match member.stream with
    | none => pure (0, .skippedOther)
    | some src => do
      store sys target drawn src
      pure (src.length, .extracted)

structure Options where
  skipSpecial : Bool
  limits : Limits
  maxMemberBytes : Option Nat
  maxFiles : Option Nat

/-- One round of the loop of `extract_ova`, which goes on whatever a member raises. -/
def extractNext [Inhabited δ] (outdir : Path) (opts : Options) (regularFileCount : Nat)
    (next : Member δ × List (List Char)) : Act δ Nat := do
  let regularFileCount := if next.1.kind = .file then regularFileCount + 1 else regularFileCount
  require (within opts.maxFiles regularFileCount) (.tooManyFiles regularFileCount)
  suppress do
    let _ : Nat × Status ← safeExtractOne sys outdir opts.skipSpecial opts.maxMemberBytes next.2 next.1
  pure regularFileCount

/-- What `extract_ova` extracts; each member comes with the names its temporary file may get. -/
def extractOva [Inhabited δ] (outdir : Path) (opts : Options) (members : List (Member δ × List (List Char))) :
    Act δ Unit := do
  checkLimits opts.limits (members.map Prod.fst)
  let _ ← members.foldlM (extractNext sys outdir opts) 0

end OVF

namespace AMI

/-- `AMI._normalize_tar_name`. -/
def normalizeTarName (name : List Char) : List Char := dropDots (slashes (strip name))

/-- `AMI._looks_like_tar`, of a name. -/
def looksLikeTar (name : List Char) : Bool :=
  [".tar", ".ova", ".tar.gz", ".tgz", ".tar.xz", ".txz", ".tar.bz2", ".tbz2"].any (·.toList <:+ lower name)

/-- `AMI._is_symlink`: what cannot be looked at counts as a link. -/
def isLink (t : Places δ) (p : Path) : Bool :=
  match lstat sys.hops t p with
  | .ok (.link _ _) => true
  | .ok _ => false
  | .error e => e ≠ .missing

/-- `AMI._has_symlink_in_parents`. -/
def hasSymlinkInParents (baseDir targetDir : Path) : Act δ Bool := do
  let baseR ← resolved sys baseDir
  let targetR ← resolved sys targetDir
  let d ← get
  if baseR <+: targetR then
    pure ((cursors baseR (targetR.drop baseR.length)).any fun cur =>
      isPresent sys.hops d.tree cur && isLink sys d.tree cur)
  else pure true

/-- The `info` of a member. -/
structure Info where
  name : List Char
  normalizedName : List Char
  type : Kind
  size : Nat
  reason : Option Failure := none
  writtenBytes : Option Nat := none

/-- `AMI._copy_limited` into an open file. -/
def copyLimited (limit : Option Nat) (r : Path) (src : Stream δ) : Act δ Nat := do
  call (write r src.data)
  require (within limit src.length) (.exceeded src.length)
  require src.whole .readError
  pure src.length

/-- The file is opened and filled; one that grows too long is taken away. -/
def store [Inhabited δ] (target : Path) (limit : Option Nat) (src : Stream δ) : Act δ Nat :=
  tryCatch (do
    let r ← call (openOver sys.hops (!sys.noFollow) target)
    copyLimited limit r src)
    fun e => do
      match e with
      | .exceeded _ => removeIfPresent sys target
      | _ => pure ()
      throw e

/-- `AMI._safe_extract_one`. -/
def safeExtractOne [Inhabited δ] (outdir : Path) (skipSpecial : Bool) (maxSingleFileBytes : Option Nat)
    (member : Member δ) : Act δ (Bool × Info) := do
  let outdir ← resolved sys outdir
  let name := normalizeTarName member.name
  let info : Info := { name := member.name, normalizedName := name, type := member.kind, size := member.size }
  require (name ≠ []) (.emptyName member.name)
  require (name.head? ≠ some '/') (.absolute member.name)
  let target ← resolved sys (outdir ++ components name)
  require (decide (outdir <+: target)) (.escapes member.name)
  require (member.kind ≠ .file || within maxSingleFileBytes member.size) (.tooLarge member.name member.size)
  if member.kind = .dir then do
    let linked ← hasSymlinkInParents sys outdir target
    require (!linked) (.symlinkComponent target)
    call (mkdirs sys.hops target)
    if member.mode ≠ 0 then suppress (chmod sys.hops target member.mode) else pure ()
    pure (true, info)
  else if member.kind ≠ .file then
    if skipSpecial then pure (false, { info with reason := some (.unsupported member.name member.kind) })
    else throw (.unsupported member.name member.kind)
  else do
    call (mkdirs sys.hops target.dropLast)
    let linked ← hasSymlinkInParents sys outdir target.dropLast
    require (!linked) (.symlinkComponent target)
    let d ← get
    require (!(isPresent sys.hops d.tree target && isLink sys d.tree target)) (.symlinkTarget target)
    match member.stream with
    | none => throw (.unreadable member.name)
    | some src => do
      let written ← store sys target maxSingleFileBytes src
      suppress (chmod sys.hops target ((if member.mode = 0 then 0o644 else member.mode) &&& 0o755))
      pure (true, { info with writtenBytes := some written })

structure Options where
  skipSpecial : Bool
  limits : Limits
  maxSingleFileBytes : Option Nat

/-- One round of the loop of `AMI._extract_tar`. -/
def extractNext [Inhabited δ] (outdir : Path) (opts : Options) (_ : Unit) (member : Member δ) : Act δ Unit := do
  let _ ← safeExtractOne sys outdir opts.skipSpecial opts.maxSingleFileBytes member

/-- `AMI._extract_tar`, of the members of the archive. -/
def extractTar [Inhabited δ] (outdir : Path) (opts : Options) (members : List (Member δ)) : Act δ Unit := do
  let outdir ← resolved sys outdir
  checkLimits opts.limits members
  members.foldlM (extractNext sys outdir opts) ()

/-- The entries `rglob` meets below a directory; it does not go into links. -/
def rglob (t : Places δ) (dir : Path) : List Path :=
  (t.keys.filter fun q => decide (dir <+: q) && q ≠ dir && Normal q &&
    (cursors dir (q.drop dir.length).dropLast).all (isDir t)).map (·.drop dir.length)

/-- The archives `AMI._extract_one_level_nested_tars` goes through. -/
def candidates (t : Places δ) (extractedTo : Path) : List Path :=
  match resolve .kernel t sys.hops [] extractedTo with
  | .error _ => []
  | .ok dir =>
    let entries := (rglob t dir).map (extractedTo ++ ·)
    let archives := entries.filter fun p =>
      (content sys.hops t p).isSome && looksLikeTar (p.getLast?.getD []) &&
        p.all fun part => ! ".extracted".toList.isSuffixOf part
    archives.mergeSort fun a b => decide (a ≤ b)

/-- Where a nested archive is extracted to. -/
def nestedOut (t : Path) : Path := t.dropLast ++ [stem (t.getLast?.getD []) ++ ".extracted".toList]

/-- One round of `AMI._extract_one_level_nested_tars`. `getmembers` reads an archive, if a file is one. -/
def extractNested [Inhabited δ] (getmembers : δ → Option (List (Member δ))) (opts : Options) (_ : Unit) (t : Path) :
    Act δ Unit := do
  let d ← get
  match (content sys.hops d.tree t).bind getmembers with
  | none => pure ()
  | some members => do
    call (mkdirs sys.hops (nestedOut t))
    suppress (extractTar sys (nestedOut t) opts members)

/-- What `AMI._extract_and_find_disks` extracts. -/
def extractAll [Inhabited δ] (getmembers : δ → Option (List (Member δ))) (extractedTo : Path) (opts : Options)
    (extractNestedTar : Bool) (members : List (Member δ)) : Act δ Unit := do
  extractTar sys extractedTo opts members
  let d ← get
  if extractNestedTar then (candidates sys d.tree extractedTo).foldlM (extractNested sys getmembers opts) () else pure ()

end AMI

namespace RAW

/-- `ExtractPolicy`. -/
structure ExtractPolicy where
  skipSpecial : Bool := true
  preservePermissions : Bool := true
  overwrite : Bool := false
  renameOnCollision : Bool := false
  maxTotalBytes : Option Nat := none
  maxManifestBytes : Nat := 5 * 1024 * 1024

inductive Reason
  | extracted
  | skippedSpecial
  | skippedManifestTooLarge
  deriving DecidableEq

/-- `ExtractResult`. -/
structure ExtractResult where
  extractedBytes : Nat
  extractedPath : Option Path
  originKey : List Char
  reason : Reason

/-- A drive letter begins the name. -/
def hasDrive : List Char → Bool
  | c :: ':' :: _ => sys.isAlpha c
  | _ => false

/-- `normalize_tar_name`, by its parts. -/
def normalizeTarName (name : List Char) : Except Failure Path :=
  let nm := strip name
  if nm.contains '\x00' then .error .nullByte
  else
    let nm := dropDots (slashes nm)
    if nm = [] then .error (.emptyName name)
    else if nm.head? = some '/' || hasDrive sys nm then .error (.absolute name)
    else cleanParts name (components nm)

/-- `unique_path`. -/
def uniquePath (t : Places δ) (path : Path) : Except Failure Path :=
  if isPresent sys.hops t path then
    let name := path.getLast?.getD []
    let cand := fun i => path.dropLast ++ [stem name ++ " (".toList ++ Nat.toDigits 10 i ++ ')' :: suffix name]
    match (List.range' 1 9999).find? fun i => !isPresent sys.hops t (cand i) with
    | some i => .ok (cand i)
    | none => .error (.notUnique path)
  else .ok path

/-- `_is_symlink_lstat`. -/
def isSymlinkLstat (t : Places δ) (p : Path) : Except Failure Bool :=
  match lstat sys.hops t p with
  | .ok (.link _ _) => .ok true
  | .ok _ => .ok false
  | .error e => if e = .missing then .ok false else .error (.unverified p)

/-- `ensure_no_symlink_components`. -/
def ensureNoSymlinkComponents (base targetDir : Path) : Act δ Unit := do
  let base ← resolved sys base
  let targetDir ← resolved sys targetDir
  require (decide (base <+: targetDir)) (.outside targetDir)
  let d ← get
  (cursors base (targetDir.drop base.length)).foldlM (fun _ cur => do
    let linked ← lift (isSymlinkLstat sys d.tree cur)
    require (!linked) (.symlinkComponent cur)) ()

/-- `_open_for_write_nofollow`. -/
def openForWriteNofollow [Inhabited δ] (path : Path) (overwrite : Bool) : Act δ Path := do
  let d ← get
  match lstat sys.hops d.tree path with
  | .ok n =>
    require (!isSymlink sys.hops d.tree path) (.symlinkTarget path)
    require overwrite (.fileExists path)
    match n with
    | .file _ => call (openOver sys.hops false path)
    | _ => throw (.notRegular path)
  | .error e => if e = .missing then call (openNew sys.hops path) else throw (.unverified path)

/-- `_atomic_tmp`. -/
def atomicTmp (final : Path) : Except Failure Path :=
  match final.getLast? with
  | none => .error (.emptyName [])
  | some name => .ok (final.dropLast ++ [name ++ ".tmp.".toList ++ sys.tag final])

/-- The temporary path must not be taken. -/
def clear (tmpPath : Path) : Act δ Unit := do
  let d ← get
  if isPresent sys.hops d.tree tmpPath then call (unlink sys.hops tmpPath) else pure ()

/-- The mode of a member, if permissions are preserved. -/
def preserveMode (policy : ExtractPolicy) (p : Path) (mode : Nat) : Act δ Unit :=
  if policy.preservePermissions then suppress (chmod sys.hops p (mode ||| 0o200)) else pure ()

/-- The file is written beside its path and moved onto it, within the budget. -/
def store [Inhabited δ] (policy : ExtractPolicy) (writtenTotal : Nat) (bytesBudget : Option Nat) (mode : Nat)
    (final : Path) (src : Stream δ) : Act δ Unit := do
  let tmpPath ← lift (atomicTmp sys final)
  tryCatch (do
    clear sys tmpPath
    let r ← openForWriteNofollow sys tmpPath false
    call (write r src.data)
    require (within (bytesBudget.or policy.maxTotalBytes) (writtenTotal + src.length)) (.exceeded src.length)
    require src.whole .readError
    preserveMode sys policy tmpPath ((if mode = 0 then 0o644 else mode) &&& 0o666)
    call (replace sys.hops tmpPath final))
    fun e => do
      removeIfPresent sys tmpPath
      throw e

/-- Where a file goes, if something is there before. -/
def finalPath (policy : ExtractPolicy) (target : Path) : Act δ Path := do
  let d ← get
  if isPresent sys.hops d.tree target then do
    let linked ← lift (isSymlinkLstat sys d.tree target)
    require (!linked) (.symlinkTarget target)
    if policy.renameOnCollision && !policy.overwrite then lift (uniquePath sys d.tree target)
    else do
      require policy.overwrite (.fileExists target)
      pure target
  else pure target

/-- `safe_extract_one`. -/
def safeExtractOne [Inhabited δ] (outdir : Path) (policy : ExtractPolicy) (writtenTotal : Nat)
    (bytesBudget : Option Nat) (isManifest : Bool) (member : Member δ) : Act δ ExtractResult := do
  let outdir ← resolved sys outdir
  if member.kind ≠ .dir && member.kind ≠ .file then do
    require policy.skipSpecial (.unsupported member.name member.kind)
    let originKey := ((normalizeTarName sys member.name).toOption.map (join ['/'])).getD member.name
    pure ⟨0, none, originKey, .skippedSpecial⟩
  else do
    let parts ← lift (normalizeTarName sys member.name)
    let originKey := join ['/'] parts
    let target ← resolved sys (outdir ++ parts)
    require (decide (outdir <+: target)) (.escapes member.name)
    if member.kind = .dir then do
      call (mkdirs sys.hops target)
      preserveMode sys policy target ((if member.mode = 0 then 0o755 else member.mode) &&& 0o777)
      pure ⟨0, some target, originKey, .extracted⟩
    else do
      call (mkdirs sys.hops target.dropLast)
      ensureNoSymlinkComponents sys outdir target.dropLast
      let final ← finalPath sys policy target
      if isManifest && member.size > policy.maxManifestBytes then pure ⟨0, none, originKey, .skippedManifestTooLarge⟩
      else match member.stream with
        | none => throw (.unreadable member.name)
        | some src => do
          store sys policy writtenTotal bytesBudget member.mode final src
          pure ⟨src.length, some final, originKey, .extracted⟩

/-- The last part of a name, in small letters. -/
def baseName (name : List Char) : List Char :=
  lower (((components (slashes (strip name))).filter (· ≠ ['.'])).getLast?.getD [])

/-- `is_manifest_name`. -/
def isManifestName (name : List Char) : Bool :=
  suffix (baseName name) ∈ [".txt".toList, ".json".toList, ".yaml".toList, ".yml".toList]

/-- `should_extract_name`. -/
def shouldExtractName (extractAll includeManifests : Bool) (name : List Char) : Bool :=
  extractAll || (strip name ≠ [] && ([".raw".toList, ".img".toList].any (·.isSuffixOf (baseName name)) ||
    (includeManifests && isManifestName name)))

/-- One round of the second pass of `_extract_raw_tar`: the bytes written so far are counted. -/
def extractNext [Inhabited δ] (outdir : Path) (policy : ExtractPolicy) (writtenTotal : Nat) (member : Member δ) :
    Act δ Nat := do
  let res ← safeExtractOne sys outdir policy writtenTotal policy.maxTotalBytes (isManifestName member.name) member
  pure (writtenTotal + res.extractedBytes)

/-- The members that are asked for. -/
def planned (extractAll includeManifests : Bool) (members : List (Member δ)) : List (Member δ) :=
  members.filter fun member => shouldExtractName extractAll includeManifests member.name

/-- What `_extract_raw_tar` extracts, once the first pass has planned it. -/
def extractRawTar [Inhabited δ] (outdir : Path) (policy : ExtractPolicy) (maxMembers : Option Nat)
    (extractAll includeManifests : Bool) (members : List (Member δ)) : Act δ Nat := do
  require (within maxMembers members.length) (.tooManyMembers members.length)
  let plan := planned extractAll includeManifests members
  require (!plan.isEmpty) .nothingToExtract
  require (within policy.maxTotalBytes (totalBytes plan)) (.tooManyBytes (totalBytes plan))
  plan.foldlM (extractNext sys outdir policy) 0

end RAW

end H2kvm.Converters.Extract
