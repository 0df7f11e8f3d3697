import Mathlib.Data.Char
import Mathlib.Data.List.Dedup
import Mathlib.Data.List.Lex
import Mathlib.Data.List.Sort
import H2kvm.Framework.Lines

namespace H2kvm.Vmware

open Framework Text

namespace Fnmatch

/-- The chunks of a bracket expression between the hyphens that make ranges; `least` characters stand before one. -/
def chunksFrom (least : Nat) (chunk : List Char) : List Char → List (List Char)
  | [] => [chunk]
  | c :: cs =>
    if c = '-' ∧ least ≤ chunk.length then chunk :: chunksFrom 2 [] cs
    else chunksFrom least (chunk ++ [c]) cs

/-- A hyphen at the end makes no range. -/
def trailingHyphen : List (List Char) → List (List Char)
  | [chunk, []] => [chunk ++ ['-']]
  | chunk :: chunks => chunk :: trailingHyphen chunks
  | [] => []

/-- Empty ranges are removed from the right. -/
def removeEmpty : List (List Char) → List (List Char)
  | [] => []
  | chunk :: chunks =>
    match removeEmpty chunks with
    | next :: rest =>
      if (next.head?.any fun low => chunk.getLast?.any fun high => decide (low < high)) then
        (chunk.dropLast ++ next.tail) :: rest
      else chunk :: next :: rest
    | [] => [chunk]

/-- Whether a character is in the set of these chunks. -/
def inChunks (chunks : List (List Char)) (c : Char) : Bool :=
  chunks.flatten.contains c ||
    (chunks.zip chunks.tail).any fun (left, right) =>
      match left.getLast?, right.head? with
      | some low, some high => decide (low ≤ c) && decide (c ≤ high)
      | _, _ => decide (c = '-')

inductive Token where
  | star
  | one
  | literal (c : Char)
  | set (stuff : List Char)

def Token.takes (c : Char) : Token → Bool
  | star => false
  | one => true
  | literal d => decide (c = d)
  | set stuff =>
    let least := if stuff.head? = some '!' then 2 else 1
    match removeEmpty (trailingHyphen (chunksFrom least [] stuff)) with
    | ('!' :: chunk) :: chunks => !inChunks (chunk :: chunks) c
    | chunks => inChunks chunks c

/-- What stands between brackets, and what follows them. -/
def bracketed (s : List Char) : Option (List Char × List Char) :=
  let lead := match s with
    | '!' :: ']' :: _ => 2
    | '!' :: _ => 1
    | ']' :: _ => 1
    | _ => 0
  let body := (s.drop lead).takeWhile (· ≠ ']')
  match (s.drop lead).dropWhile (· ≠ ']') with
  | _ :: rest => some (s.take lead ++ body, rest)
  | [] => none

def tokensFrom : Nat → List Char → List Token
  | 0, _ | _, [] => []
  | fuel + 1, '*' :: cs => .star :: tokensFrom fuel cs
  | fuel + 1, '?' :: cs => .one :: tokensFrom fuel cs
  | fuel + 1, '[' :: cs =>
    match bracketed cs with
    | some (stuff, rest) => .set stuff :: tokensFrom fuel rest
    | none => .literal '[' :: tokensFrom fuel cs
  | fuel + 1, c :: cs => .literal c :: tokensFrom fuel cs

def matchTokens : List Token → List Char → Bool
  | [], s => s.isEmpty
  | .star :: tokens, [] => matchTokens tokens []
  | .star :: tokens, c :: cs => matchTokens tokens (c :: cs) || matchTokens (.star :: tokens) cs
  | _ :: _, [] => false
  | token :: tokens, c :: cs => token.takes c && matchTokens tokens cs
termination_by tokens s => tokens.length + s.length

end Fnmatch

/-- `fnmatch.fnmatch`, where case matters. -/
def fnmatch (name pattern : List Char) : Bool :=
  Fnmatch.matchTokens (Fnmatch.tokensFrom pattern.length pattern) name

/-- `\[(.+?)\]\s+(.*)` behind the opening bracket, where `ds` has been read. -/
def backingFrom (ds : List Char) : List Char → Option (List Char × List Char)
  | [] => none
  | c :: rest =>
    if c = ']' ∧ ds ≠ [] ∧ rest.head?.any isSpace then
      some (ds, (rest.dropWhile isSpace).takeWhile (· ≠ '\n'))
    else if c = '\n' then none
    else backingFrom (ds ++ [c]) rest

/-- `parse_backing_filename`; `none` is a `VMwareError`. -/
def parseBackingFilename : List Char → Option (List Char × List Char)
  | '[' :: rest => backingFrom [] rest
  | _ => none

/-- The last slash of a path cuts it into its folder and its base. -/
def rsplitSlash (rel : List Char) : List Char × List Char :=
  if '/' ∈ rel then ((rel.rdropWhile (· ≠ '/')).dropLast, rel.rtakeWhile (· ≠ '/')) else ([], rel)

/-- `_split_ds_path`. -/
def splitDsPath (path : List Char) : Option (List Char × List Char × List Char) :=
  (parseBackingFilename path).map fun (ds, rel) =>
    let (folder, base) := rsplitSlash (rel.dropWhile (· = '/'))
    (ds, folder, base)

/-- A file below the folder of the VM. -/
structure DatastoreFile (α : Type*) where
  folder : List (List Char)
  name : List Char
  content : α

/-- The folder of a VM with everything below it. -/
structure VmFolder (α : Type*) where
  files : List (DatastoreFile α)
  distinct : (files.map fun f => (f.folder, f.name)).Nodup
  named : ∀ f ∈ files, f.name ≠ [] ∧ '/' ∉ f.name

structure Vm (α : Type*) where
  /-- What `_vmx_pathname` finds. -/
  vmPathName : List Char
  folder : VmFolder α

namespace Vm

variable {α : Type*} (vm : Vm α)

/-- The folder of the VM on its datastore. -/
def folderRel : Option (List Char) :=
  (splitDsPath vm.vmPathName).map fun (_, folder, _) => (folder.dropWhile (· = '/')).rdropWhile (· = '/')

/-- Where a file below the folder stands on the datastore. -/
def pathOf (folderRel : List Char) (f : DatastoreFile α) : List Char :=
  join ['/'] ((if folderRel = [] then [] else [folderRel]) ++ f.folder ++ [f.name])

/-- The file at a path of the datastore. -/
def read (folderRel dsPath : List Char) : Option α :=
  (vm.folder.files.find? fun f => pathOf folderRel f = dsPath).map (·.content)

end Vm

/-- The client with its connection and the tools it has. -/
structure Client (α : Type*) where
  /-- `client.si`. -/
  si : Bool
  /-- `get_vm_by_name`. -/
  vm : Option (Vm α)
  /-- `resolve_datacenter_for_vm`. -/
  datacenter : Option (List Char)
  /-- The browser of the VM's datastore is there and its task succeeds. -/
  browser : Bool
  /-- `_resolve_datacenter_for_download`. -/
  downloadDc : List Char → Option (List Char)
  /-- `_govc`, and the paths its download succeeds on. -/
  govc : Option (List Char → Bool)

structure ExportOptions where
  includeGlobs : List (List Char) := []
  excludeGlobs : List (List Char) := []
  maxFiles : Int := 0
  failOnMissing : Bool := false

inductive VMwareError where
  | notConnected
  | vmNotFound
  | noDatacenter
  | noListing
  | refusing (selected : Nat)
  | downloadFailed (failures : List (List Char))

/-- The parameters of `HTTPDownloadClient.download_file`, all keywords. -/
def requiredParameters : List String := ["datastore", "ds_path", "local_path", "dc_name"]

def optionalParameters : List String := ["on_bytes", "options"]

/-- The keywords `download_datastore_file` passes on. -/
def passedKeywords : List String := ["datastore", "ds_path", "local_path", "dc_name", "on_bytes", "chunk_size"]

/-- A call binds when nothing required is missing and nothing unknown is passed; else it is a `TypeError`. -/
def binds (required optional passed : List String) : Bool :=
  required.all passed.contains && passed.all (required ++ optional).contains

section downloads

variable {α : Type*} (client : Client α) (opt : ExportOptions) (vm : Vm α)

/-- `download_file` as it is called here, of a faithful server. -/
def httpsDownload (folderRel dsPath : List Char) : Option α :=
  if binds requiredParameters optionalParameters passedKeywords then vm.read folderRel dsPath else none

/-- The download of `govc`, if it is there and succeeds. -/
def govcDownload (folderRel dsPath : List Char) : Option α :=
  match client.govc with
  | some succeeds => if succeeds dsPath then vm.read folderRel dsPath else none
  | none => none

/-- `download_datastore_file`; `none` is an exception. -/
def downloadDatastoreFile (forceHttps : Bool) (dcName folderRel dsPath : List Char) : Option α :=
  match if forceHttps then none else govcDownload client vm folderRel dsPath with
  | some content => some content
  | none =>
    if !client.si then none
    else
      match client.downloadDc dcName with
      | none => none
      | some _ => httpsDownload vm folderRel dsPath

/-- `sorted(set(files))`. -/
def sortedSet (files : List (List Char)) : List (List Char) := files.dedup.insertionSort (· ≤ ·)

/-- `_list_vm_directory_files`: the folder of the VM, and the names of the files below it. -/
def listVmDirectoryFiles : Option (List Char × List (List Char)) :=
  if client.browser then
    vm.folderRel.map fun folderRel => (folderRel, sortedSet ((vm.folder.files.map (·.name)).filter (· ≠ [])))
  else none

/-- `_glob_any`. -/
def globAny (name : List Char) (globs : List (List Char)) : Bool := globs.any (fnmatch name)

/-- Whether the globs let a name pass. -/
def selects (name : List Char) : Bool :=
  !(opt.includeGlobs ≠ [] && !globAny name opt.includeGlobs) && !(opt.excludeGlobs ≠ [] && globAny name opt.excludeGlobs)

/-- `_filter_download_only_files`. -/
def filterDownloadOnlyFiles (files : List (List Char)) : Except VMwareError (List (List Char)) :=
  let out := files.filter (selects opt)
  if opt.maxFiles ≠ 0 ∧ out.length > opt.maxFiles then .error (.refusing out.length) else .ok out

/-- `ds_path`, rebuilt from the VM's folder and a name. -/
def dsPath (folderRel name : List Char) : List Char := if folderRel ≠ [] then folderRel ++ '/' :: name else name

/-- What the loop over the selected names has written and what it could not download. -/
structure Downloaded (α : Type*) where
  written : List (List Char × α) := []
  failures : List (List Char) := []
  raised : Bool := false

/-- `_download_selected_files`, with the download of one name. -/
def downloadSelectedFiles (download : List Char → Option α) (failOnMissing : Bool) (failures : List (List Char)) :
    List (List Char) → Downloaded α
  | [] => { failures := failures, raised := failures ≠ [] && failOnMissing }
  | name :: selected =>
    match download name with
    | some content =>
      let rest := downloadSelectedFiles download failOnMissing failures selected
      { rest with written := (name, content) :: rest.written }
    | none =>
      if failOnMissing then { failures := failures ++ [name], raised := true }
      else downloadSelectedFiles download failOnMissing (failures ++ [name]) selected

/-- The files a call has written into the output directory, and how it ended. -/
structure Outcome (α : Type*) where
  written : List (List Char × α) := []
  result : Except VMwareError Unit

/-- What is to be downloaded. -/
structure Selection (α : Type*) where
  vm : Vm α
  dcName : List Char
  folderRel : List Char
  selected : List (List Char)

/-- What both entry points do before they make the output directory. -/
def selection : Except VMwareError (Selection α) :=
  if !client.si then .error .notConnected
  else
    match client.vm, client.datacenter with
    | none, _ => .error .vmNotFound
    | some _, none => .error .noDatacenter
    | some vm, some dcName =>
      match listVmDirectoryFiles client vm with
      | none => .error .noListing
      | some (folderRel, files) => (filterDownloadOnlyFiles opt files).map fun selected => ⟨vm, dcName, folderRel, selected⟩

/-- What both entry points do. -/
def downloadVmFolder (forceHttps : Bool) : Outcome α :=
  match selection client opt with
  | .error e => { result := .error e }
  | .ok s =>
    let done := downloadSelectedFiles
      (fun name => downloadDatastoreFile client s.vm forceHttps s.dcName s.folderRel (dsPath s.folderRel name))
      opt.failOnMissing [] s.selected
    { written := done.written, result := if done.raised then .error (.downloadFailed done.failures) else .ok () }

/-- `download_only_vm`. -/
def downloadOnlyVm : Outcome α := downloadVmFolder client opt false

/-- `_download_only_vm_force_https`. -/
def downloadOnlyVmForceHttps : Outcome α := downloadVmFolder client opt true

end downloads

end H2kvm.Vmware
