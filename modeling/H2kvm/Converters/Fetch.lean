import H2kvm.Framework.Names
import H2kvm.Framework.Paths
import H2kvm.Recovery.Manager

namespace H2kvm.Converters

open Framework Names Paths

abbrev Str := List Char

/-- `DescriptorInfo`: the files of the extents, and the parent. -/
structure DescriptorInfo where
  extents : List Str := []
  parent : Option Str := none

namespace DescriptorInfo

/-- `VMDK.parse_extent`. -/
def parseExtent (info : DescriptorInfo) : Option Str := info.extents.head?.filter (· ≠ [])

/-- `VMDK.parse_parent`. -/
def parseParent (info : DescriptorInfo) : Option Str := info.parent.filter (· ≠ [])

/-- All that is written in the descriptor, of whatever extent. -/
def references (info : DescriptorInfo) : List Str := (info.extents ++ info.parent.toList).filter (· ≠ [])

end DescriptorInfo

/-- The files of the remote host by their absolute paths, with what `VMDK.parse_descriptor_info` makes of each. No
file is a directory of another. -/
structure RemoteTree where
  files : List (Path × Option DescriptorInfo)
  named : ∀ f ∈ files, f.1 ≠ [] ∧ Normal f.1
  leaves : ∀ f ∈ files, ∀ g ∈ files, f.1 <+: g.1 → f.1 = g.1

namespace RemoteTree

variable (tree : RemoteTree)

def isFile (p : Path) : Bool := tree.files.any (·.1 = p)

/-- `test -e`: a file, or a directory. -/
def isThere (p : Path) : Bool := tree.files.any (p <+: ·.1)

def info (p : Path) : Option DescriptorInfo := (tree.files.find? (·.1 = p)).bind (·.2)

def references (p : Path) : List Str := (tree.info p).elim [] DescriptorInfo.references

end RemoteTree

/-- A remote file and the local one that is made of it. -/
structure Copy where
  target : Path
  source : Path

/-- What has been fetched, the last copy first, and which of it as descriptors. -/
structure Fetched where
  copies : List Copy := []
  descriptors : List Copy := []

namespace Fetched

/-- The remote file that a local one is a copy of. -/
def sourceOf (fetched : Fetched) (target : Path) : Option Path :=
  (fetched.copies.find? (·.target = target)).map (·.source)

/-- What the parser reads from a local file. -/
def infoAt (tree : RemoteTree) (fetched : Fetched) (target : Path) : Option DescriptorInfo :=
  (fetched.sourceOf target).bind tree.info

end Fetched

/-- How remote paths are resolved and local ones are chosen. -/
structure Scheme where
  join : Path → Str → Option Path
  admits : Path → Bool
  parentTarget : Str → Path → Path
  extentTarget : Str → Path → Path
  plainTarget : Path → Path

inductive FetchError where
  | raised
  | outOfFuel
  deriving DecidableEq

def name (path : Path) : Str := path.getLast?.getD []

section Walk

variable (tree : RemoteTree) (scheme : Scheme)

/-- The copy of one file; a directory cannot be read. -/
def stream (fetched : Fetched) (copy : Copy) : Except FetchError Fetched :=
  if tree.isFile copy.source then .ok { fetched with copies := copy :: fetched.copies } else .error .raised

/-- The extent of a descriptor: the first one it has, or one by its own name. -/
def extentOf (fetched : Fetched) (desc : Copy) : Option Copy :=
  match (fetched.infoAt tree desc.target).bind (·.parseExtent) with
  | some ref => (scheme.join (dirname desc.source) ref).map fun remote => ⟨scheme.extentTarget ref remote, remote⟩
  | none =>
    let remote := normpath true (dirname desc.source ++ [stem (name desc.target) ++ "-flat.vmdk".toList])
    if scheme.admits remote then some ⟨scheme.plainTarget remote, remote⟩ else none

/-- `_fetch_extent_for_descriptor`. -/
def fetchExtentForDescriptor (fetched : Fetched) (desc : Copy) : Except FetchError Fetched :=
  match extentOf tree scheme fetched desc with
  | some copy => if tree.isThere copy.source then stream tree fetched copy else .ok fetched
  | none => .ok fetched

/-- A descriptor with its extent. -/
def fetchDescriptor (fetched : Fetched) (desc : Copy) : Except FetchError Fetched :=
  match stream tree { fetched with descriptors := desc :: fetched.descriptors } desc with
  | .ok fetched => fetchExtentForDescriptor tree scheme fetched desc
  | .error err => .error err

/-- The walk along the parents. -/
def walk : Nat → List Path → Copy → Fetched → Except FetchError Fetched
  | 0, _, _, _ => .error .outOfFuel
  | fuel + 1, seen, desc, fetched =>
    match (fetched.infoAt tree desc.target).bind (·.parseParent) with
    | none => .ok fetched
    | some hint =>
      match scheme.join (dirname desc.source) hint with
      | none => .ok fetched
      | some parent =>
        if parent ∈ seen ∨ tree.isThere parent = false then .ok fetched
        else
          match fetchDescriptor tree scheme fetched ⟨scheme.parentTarget hint parent, parent⟩ with
          | .ok fetched => walk fuel (parent :: seen) ⟨scheme.parentTarget hint parent, parent⟩ fetched
          | .error err => .error err

/-- `fetch_descriptor_and_extent` with `fetch_all`. -/
def fetchAll (top : Path) : Except FetchError Fetched :=
  if tree.isThere top = false then .error .raised
  else
    match fetchDescriptor tree scheme {} ⟨scheme.plainTarget top, top⟩ with
    | .ok fetched => walk tree scheme (tree.files.length + 1) [] ⟨scheme.plainTarget top, top⟩ fetched
    | .error err => .error err

end Walk

/-- `strip`, and slashes for backslashes. -/
def slashed (ref : Str) : Str := (Text.strip ref).map fun c => if c = '\\' then '/' else c

namespace Flatten

/-- `_norm_rel_path`. -/
def normRelPath (ref : Str) : Path := normpath false (components (slashed ref))

/-- `_safe_join_remote`. The base of the root is the empty text, which no relative path starts from. -/
def safeJoinRemote (base : Path) (rel : Str) : Option Path :=
  let candidate := normpath true (base ++ normRelPath rel)
  if normRelPath rel = [] ∨ base = [] then none
  else if base <+: candidate then some candidate
  else none

/-- `_safe_join_local`, to a directory that is resolved. -/
def safeJoinLocal (outdir : Path) (rel : Str) : Option Path :=
  let candidate := normpath true (outdir ++ normRelPath rel)
  if normRelPath rel = [] then none
  else if outdir <+: candidate then some candidate
  else none

/-- `Path(hint).name`. -/
def pathName (hint : Str) : Path := ((components hint).filter (· ≠ ['.'])).getLast?.toList

def scheme (outdir : Path) : Scheme where
  join := safeJoinRemote
  admits _ := true
  parentTarget hint _ := (safeJoinLocal outdir hint).getD (outdir ++ pathName hint)
  extentTarget ref remote := (safeJoinLocal outdir ref).getD (outdir ++ [name remote])
  plainTarget remote := outdir ++ [name remote]

/-- `Fetch.fetch_descriptor_and_extent` of `flatten.py`. -/
def fetchDescriptorAndExtent (tree : RemoteTree) (outdir top : Path) : Except FetchError Fetched :=
  fetchAll tree (scheme outdir) top

end Flatten

/-- The first ten digits of `hashlib.sha256(s).hexdigest()`. -/
structure Digest where
  hash8 : Path → Str
  hex : ∀ path, ∀ c ∈ hash8 path, c.isAlphanum = true

namespace Fetch

/-- `_normalize_remote_path`, of a path that is taken as text. -/
def normalizeRemotePath (path : Path) : Path := normpath true (components (slashed ('/' :: Text.join ['/'] path)))

/-- `_posix_join_norm`. -/
def posixJoinNorm (base : Path) (ref : Str) : Path :=
  if (slashed ref).head? = some '/' then normpath true (components (slashed ref))
  else normpath true (normalizeRemotePath base ++ normpath false (components (slashed ref)))

/-- The components `_safe_local_rel_from_remote` keeps. -/
def safeParts (remote : Path) : Path :=
  let parts := ((remote.map (Recovery.subUnsafe false)).filter (fun p => p ≠ [] ∧ p ≠ ['.'])).map fun p =>
    if p = up then "__UP__".toList else p
  let parts := if parts = [] then ["unknown".toList] else parts
  parts.drop (parts.length - 3)

/-- `_safe_local_rel_from_remote`. -/
def safeLocalRelFromRemote (digest : Digest) (remote : Path) : Path :=
  let base := safeParts remote
  base.dropLast ++ [stem (name base) ++ "__".toList ++ digest.hash8 remote ++ suffix (name base)]

/-- `_is_under_remote_root`. -/
def isUnderRemoteRoot (path root : Path) : Bool := root <+: path

def scheme (digest : Digest) (outdir sandbox : Path) : Scheme where
  join base ref :=
    let remote := posixJoinNorm base ref
    if isUnderRemoteRoot remote sandbox then some remote else none
  admits remote := isUnderRemoteRoot remote sandbox
  parentTarget _ remote := outdir ++ safeLocalRelFromRemote digest remote
  extentTarget _ remote := outdir ++ safeLocalRelFromRemote digest remote
  plainTarget remote := outdir ++ safeLocalRelFromRemote digest remote

/-- `Fetch.fetch_descriptor_and_extent` of `fetch.py`. -/
def fetchDescriptorAndExtent (tree : RemoteTree) (digest : Digest) (outdir : Path) (remoteSandboxRoot : Option Path)
    (top : Path) : Except FetchError Fetched :=
  let sandbox := remoteSandboxRoot.getD (dirname top)
  if isUnderRemoteRoot top sandbox then fetchAll tree (scheme digest outdir sandbox) top else .error .raised

end Fetch

/-- The file that a reference written in a file of a directory leads to. -/
def resolve (dir : Path) (ref : Str) : Path :=
  if (slashed ref).head? = some '/' then normpath true (components (slashed ref))
  else normpath true (dir ++ components (slashed ref))

/-- Every reference of a fetched descriptor leads from the local descriptor to a copy of the file it leads to from
the remote one. -/
def Fetched.SelfContained (tree : RemoteTree) (fetched : Fetched) : Prop :=
  ∀ desc ∈ fetched.descriptors, ∀ ref ∈ tree.references desc.source,
    fetched.sourceOf (resolve (dirname desc.target) ref) = some (resolve (dirname desc.source) ref)

instance (tree : RemoteTree) (fetched : Fetched) : Decidable (fetched.SelfContained tree) :=
  inferInstanceAs (Decidable (∀ desc ∈ fetched.descriptors, ∀ ref ∈ tree.references desc.source, _))

end H2kvm.Converters
