import H2kvm.Framework.Lines

namespace H2kvm.Config

open Framework Text

/-- The text as `int` reads it: digits and spaces of any script become those of ASCII. -/
def toAscii (c : Char) : Char :=
  if c.toNat < 127 then c
  else if isSpace c then ' '
  else
    match digit? c with
    | some d => Char.ofNat ('0'.toNat + d)
    | none => '?'

/-- The white space `int` skips around a number. -/
def isBlank (c : Char) : Bool := (0x09 ≤ c.toNat && c.toNat ≤ 0x0d) || c = ' '

/-- More digits than these are refused. -/
def maxStrDigits : Nat := 4300

/-- `int(text)`; `none` is a `ValueError`. -/
def int? (text : List Char) : Option Int :=
  let body := ((text.map toAscii).dropWhile isBlank).rdropWhile isBlank
  let unsigned := match body with
    | '+' :: rest | '-' :: rest => rest
    | rest => rest
  let groups := unsigned.splitOn '_'
  let digits := groups.flatten
  if groups.all (fun g => g ≠ [] && g.all Char.isDigit) && digits.length ≤ maxStrDigits then
    some (if body.head? = some '-' then -(intOf digits : Int) else intOf digits)
  else none

/-- `re.match` with a pattern that ends in `$`, which also matches before a newline at the end. -/
def pyMatches (pattern : List Char → Bool) (s : List Char) : Bool :=
  pattern s || (s.getLast? = some '\n' && pattern s.dropLast)

/-- `[a-zA-Z][a-zA-Z0-9._-]*`. -/
def isInterfaceName : List Char → Bool
  | c :: rest => c.isAlpha && rest.all fun c => c.isAlphanum || c = '.' || c = '_' || c = '-'
  | [] => false

def isHex (c : Char) : Bool := c.isDigit || ('a' ≤ c && c ≤ 'f') || ('A' ≤ c && c ≤ 'F')

/-- `([0-9A-Fa-f]{2}:){5}[0-9A-Fa-f]{2}`. -/
def isMac (s : List Char) : Bool :=
  let parts := s.splitOn ':'
  parts.length = 6 && parts.all fun p => p.length = 2 && p.all isHex

/-- `\d{1,3}(\.\d{1,3}){3}`. -/
def isDotted (s : List Char) : Bool :=
  let parts := s.splitOn '.'
  parts.length = 4 && parts.all fun p => 1 ≤ p.length && p.length ≤ 3 && p.all isDigit

/-- `validate_ip`, and `_is_valid_ip`. -/
def isValidIp (s : List Char) : Bool :=
  let parts := s.splitOn '.'
  parts.length = 4 && parts.all fun p => (int? p).any fun n => 0 ≤ n && n ≤ 255

/-- Whether a text is there and not empty. -/
def given (value : Option (List Char)) : Bool := value.any fun text => !text.isEmpty

structure FieldError where
  field : String
  message : List Char

/-- A keyword is missing or unknown, or `ConfigValidationError` is raised. -/
inductive Rejection where
  | typeError
  | invalid (errors : List FieldError)

/-- `if errors: raise ConfigValidationError(errors)`. -/
def raiseIf {α : Type*} (errors : List FieldError) (config : α) : Except Rejection α :=
  if errors.isEmpty then .ok config else .error (.invalid errors)

/-- A field with a pattern or a validator; a default is not looked at. -/
def checked (valid : List Char → Bool) : Option (Option (List Char)) → Option (Option (List Char))
  | none | some none => some none
  | some (some s) => if valid s then some (some s) else none

/-- `validate_dns`; `None` is no list. -/
def checkedDns : Option (Option (List (List Char))) → Option (List (List Char))
  | none => some []
  | some none => none
  | some (some servers) => if servers.length > 3 then none else some servers

/-- The keywords of a network configuration; `none` where one is not passed. -/
structure NetworkArgs where
  interfaceName : Option (List Char) := none
  macAddress : Option (Option (List Char)) := none
  ipAddress : Option (Option (List Char)) := none
  gateway : Option (Option (List Char)) := none
  dnsServers : Option (Option (List (List Char))) := none
  unknown : List String := []

structure NetworkConfig where
  interfaceName : List Char
  macAddress : Option (List Char)
  ipAddress : Option (List Char)
  gateway : Option (List Char)
  dnsServers : List (List Char)

namespace NetworkConfig

/-- `if value and not valid(value): errors.append(report(value))`. -/
def unlessValid (valid : List Char → Bool) (report : List Char → FieldError) : Option (List Char) → List FieldError
  | some value => if given (some value) && !valid value then [report value] else []
  | none => []

def ipError (field : String) : Option (List Char) → List FieldError :=
  unlessValid isValidIp fun ip =>
    ⟨field, "Invalid IP address '".toList ++ ip ++ "'. Expected format: A.B.C.D (e.g., 192.168.1.1)".toList⟩

/-- `_validate`. -/
def errors (c : NetworkConfig) : List FieldError :=
  (if pyMatches isInterfaceName c.interfaceName then []
    else [⟨"interface_name", ("Interface name must start with a letter and contain only " ++
      "letters, numbers, dots, hyphens, and underscores").toList⟩]) ++
    unlessValid (pyMatches isMac) (fun mac => ⟨"mac_address",
      "Invalid MAC address format '".toList ++ mac ++ "'. Expected format: 00:11:22:33:44:55".toList⟩) c.macAddress ++
    ipError "ip_address" c.ipAddress ++ ipError "gateway" c.gateway ++
    if c.dnsServers.length > 3 then
      [⟨"dns_servers", "Maximum 3 DNS servers allowed. Remove extra entries from the dns_servers list.".toList⟩]
    else []

end NetworkConfig

namespace NetworkArgs

/-- `NetworkConfigBase` of the standard library. -/
def stdlib (args : NetworkArgs) : Except Rejection NetworkConfig :=
  match args.interfaceName with
  | none => .error .typeError
  | some name =>
    if args.unknown ≠ [] then .error .typeError
    else
      let c : NetworkConfig :=
        ⟨name, args.macAddress.join, args.ipAddress.join, args.gateway.join, args.dnsServers.join.getD []⟩
      raiseIf c.errors c

/-- `NetworkConfigBase` of pydantic. -/
def pydantic (args : NetworkArgs) : Option NetworkConfig :=
  if args.unknown ≠ [] then none
  else do
    let name ← args.interfaceName
    guard (isInterfaceName name)
    let mac ← checked isMac args.macAddress
    let ip ← checked (fun s => isDotted s && isValidIp s) args.ipAddress
    let gateway ← checked isValidIp args.gateway
    let dns ← checkedDns args.dnsServers
    some ⟨name, mac, ip, gateway, dns⟩

end NetworkArgs

/-- The keywords of a VMware source. -/
structure VMwareSourceArgs where
  host : Option (List Char) := none
  username : Option (List Char) := none
  password : Option (List Char) := none
  vmName : Option (Option (List Char)) := none
  vmUuid : Option (Option (List Char)) := none
  datacenter : Option (Option (List Char)) := none
  datastore : Option (Option (List Char)) := none
  port : Option Int := none
  verifySsl : Option Bool := none
  unknown : List String := []

structure VMwareSourceConfig where
  host : List Char
  username : List Char
  password : List Char
  vmName : Option (List Char)
  vmUuid : Option (List Char)
  datacenter : Option (List Char)
  datastore : Option (List Char)
  port : Int
  verifySsl : Bool

namespace VMwareSourceConfig

/-- `_validate`. -/
def errors (c : VMwareSourceConfig) : List FieldError :=
  (if !given c.vmName && !given c.vmUuid then
      [⟨"vm_name/vm_uuid", "Either vm_name or vm_uuid must be provided".toList⟩]
    else []) ++
    if 1 ≤ c.port ∧ c.port ≤ 65535 then []
    else [⟨"port", ("Port must be between 1 and 65535, got " ++ toString c.port).toList⟩]

end VMwareSourceConfig

namespace VMwareSourceArgs

/-- The configuration with its defaults. -/
def config (args : VMwareSourceArgs) (host username password : List Char) : VMwareSourceConfig where
  host := host
  username := username
  password := password
  vmName := args.vmName.join
  vmUuid := args.vmUuid.join
  datacenter := args.datacenter.join
  datastore := args.datastore.join
  port := args.port.getD 443
  verifySsl := args.verifySsl.getD true

/-- `VMwareSourceConfigBase` of the standard library. -/
def stdlib (args : VMwareSourceArgs) : Except Rejection VMwareSourceConfig :=
  match args.host, args.username, args.password with
  | some host, some username, some password =>
    if args.unknown ≠ [] then .error .typeError
    else
      let c := args.config host username password
      raiseIf c.errors c
  | _, _, _ => .error .typeError

/-- `VMwareSourceConfigBase` of pydantic. `require_identifier` runs on a `vm_name` that was passed, and of the fields
before it none is `vm_uuid`. -/
def pydantic (args : VMwareSourceArgs) : Option VMwareSourceConfig :=
  if args.unknown ≠ [] then none
  else do
    let host ← args.host
    let username ← args.username
    let password ← args.password
    guard (args.vmName ≠ some none)
    guard (args.port.all fun port => decide (1 ≤ port) && decide (port ≤ 65535))
    some (args.config host username password)

end VMwareSourceArgs

/-- The file system as `pathlib` sees it. -/
structure FileSystem where
  Path : Type
  ofText : List Char → Path
  isThere : Path → Bool
  isFile : Path → Bool
  str : Path → List Char

/-- The keywords of a disk; the path may be a text. -/
structure DiskArgs (fs : FileSystem) where
  sourcePath : Option (List Char ⊕ fs.Path) := none
  outputFormat : Option (List Char) := none
  compression : Option Bool := none
  sizeGb : Option (Option Int) := none
  unknown : List String := []

structure DiskConfig (fs : FileSystem) where
  sourcePath : fs.Path
  outputFormat : List Char
  compression : Bool
  sizeGb : Option Int

def outputFormats : List (List Char) := ["qcow2".toList, "raw".toList, "vmdk".toList, "vhd".toList]

variable {fs : FileSystem}

def toPath : List Char ⊕ fs.Path → fs.Path
  | .inl text => fs.ofText text
  | .inr path => path

def sizeFits (size : Option Int) : Bool := size.all fun n => decide (1 ≤ n) && decide (n ≤ 16384)

namespace DiskConfig

/-- `_validate`. -/
def errors (c : DiskConfig fs) : List FieldError :=
  (if !fs.isThere c.sourcePath then
      [⟨"source_path", "Disk image not found at '".toList ++ fs.str c.sourcePath ++ "'. Verify the path exists.".toList⟩]
    else if !fs.isFile c.sourcePath then
      [⟨"source_path", '\'' :: (fs.str c.sourcePath ++
        "' is not a regular file. Provide a path to a disk image file.".toList)⟩]
    else []) ++
    (if c.outputFormat ∈ outputFormats then []
      else [⟨"output_format", "Unsupported output format '".toList ++ c.outputFormat ++
        "'. Must be one of: qcow2, raw, vmdk, vhd".toList⟩]) ++
    if sizeFits c.sizeGb then []
    else [⟨"size_gb", ("Size must be between 1 and 16384 GB, got " ++ toString (c.sizeGb.getD 0)).toList⟩]

end DiskConfig

namespace DiskArgs

def config (args : DiskArgs fs) (path : List Char ⊕ fs.Path) : DiskConfig fs where
  sourcePath := toPath path
  outputFormat := args.outputFormat.getD "qcow2".toList
  compression := args.compression.getD true
  sizeGb := args.sizeGb.join

/-- `DiskConfigBase` of the standard library. -/
def stdlib (args : DiskArgs fs) : Except Rejection (DiskConfig fs) :=
  match args.sourcePath with
  | none => .error .typeError
  | some path =>
    if args.unknown ≠ [] then .error .typeError
    else
      let c := args.config path
      raiseIf c.errors c

/-- `DiskConfigBase` of pydantic. -/
def pydantic (args : DiskArgs fs) : Option (DiskConfig fs) :=
  if args.unknown ≠ [] then none
  else do
    let path ← args.sourcePath
    guard (fs.isThere (toPath path) && fs.isFile (toPath path))
    guard (args.outputFormat.all fun format => decide (format ∈ outputFormats))
    guard (sizeFits args.sizeGb.join)
    some (args.config path)

end DiskArgs

end H2kvm.Config
