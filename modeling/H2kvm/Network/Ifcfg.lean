import H2kvm.Network.Scan

namespace H2kvm.Network

open Framework Text

/-- `str.upper()` as far as it gives ASCII letters. -/
def upper (s : List Char) : List Char :=
  s.flatMap fun c =>
    match specials.lookup c with
    | some text => text.toList
    | none => [c.toUpper]
where
  specials : List (Char × String) :=
    [('\u00df', "SS"), ('\u0131', "I"), ('\u0149', "\u02bcN"), ('\u017f', "S"), ('\u01f0', "J\u030c"),
      ('\u1e96', "H\u0331"), ('\u1e97', "T\u0308"), ('\u1e98', "W\u030a"), ('\u1e99', "Y\u030a"), ('\u1e9a', "A\u02be"),
      ('\ufb00', "FF"), ('\ufb01', "FI"), ('\ufb02', "FL"), ('\ufb03', "FFI"), ('\ufb04', "FFL"), ('\ufb05', "ST"),
      ('\ufb06', "ST")]

/-- A key of an ifcfg file, in upper case. -/
abbrev Key := String

def isKeyChar (c : Char) : Bool := c.isAlphanum || c = '_'

/-- The text before a run of spaces and a `#`. -/
def beforeHash : List Char → List Char
  | [] => []
  | c :: s => if isSpace c && (lstrip s).head? = some '#' then [] else c :: beforeHash s

/-- The value of an assignment, without quotes or inline comment. -/
def plainValue (text : List Char) : List Char :=
  let val := strip text
  if (val.head? = some '"' ∧ val.getLast? = some '"') ∨ (val.head? = some '\'' ∧ val.getLast? = some '\'') then
    (val.drop 1).dropLast
  else rstrip (beforeHash val)

/-- An active assignment. -/
def assignment? (line : List Char) : Option (Key × List Char) :=
  if isComment line then none
  else
    let body := lstrip line
    let key := body.takeWhile isKeyChar
    match lstrip (body.dropWhile isKeyChar) with
    | '=' :: value => if key = [] then none else some (String.ofList (key.map Char.toUpper), plainValue value)
    | _ => none

structure IfcfgKV where
  lines : List (List Char)
  kv : Dict Key (List Char) := ∅
  keyLineIdx : Dict Key Nat := ∅
  commentedKeys : List Key := []

namespace IfcfgKV

/-- One line of `parse`. -/
def parseLine (m : IfcfgKV) (i : Nat) (line : List Char) : IfcfgKV :=
  match assignment? line with
  | none => m
  | some (key, value) => { m with kv := m.kv.insert key value, keyLineIdx := m.keyLineIdx.insert key i }

def parseFrom (m : IfcfgKV) (i : Nat) : List (List Char) → IfcfgKV
  | [] => m
  | line :: lines => parseFrom (m.parseLine i line) (i + 1) lines

def parse (text : List Char) : IfcfgKV := parseFrom { lines := splitlines text } 0 (splitlines text)

def get (m : IfcfgKV) (k : Key) : List Char := (m.kv.lookup k).getD []

def has (m : IfcfgKV) (k : Key) : Bool := (m.kv.lookup k).isSome

/-- The line of a key that may be overwritten. -/
def activeLine (m : IfcfgKV) (k : Key) : Option (Nat × List Char) :=
  match m.keyLineIdx.lookup k with
  | none => none
  | some i => (m.lines[i]?).bind fun line => if isComment line then none else some (i, line)

/-- `set`. -/
def set (m : IfcfgKV) (k : Key) (value : List Char) : IfcfgKV :=
  let line := k.toList ++ '=' :: value
  let rest : IfcfgKV := { m with kv := m.kv.insert k value, commentedKeys := m.commentedKeys.filter (· ≠ k) }
  match if k ∈ m.commentedKeys then none else m.activeLine k with
  | some (i, _) => { rest with lines := m.lines.set i line }
  | none => { rest with lines := m.lines ++ [line], keyLineIdx := m.keyLineIdx.insert k m.lines.length }

/-- `comment_out`, and `delete`. -/
def commentOutKey (m : IfcfgKV) (k : Key) (tag : String) : IfcfgKV where
  lines :=
    match m.activeLine k with
    | some (i, line) => m.lines.set i (commentOut line tag)
    | none => m.lines
  kv := m.kv.erase k
  keyLineIdx := m.keyLineIdx.erase k
  commentedKeys := k :: m.commentedKeys

/-- `render`. -/
def render (m : IfcfgKV) : List Char :=
  let out := joinLines m.lines
  if out.getLast? = some '\n' then out else out ++ ['\n']

end IfcfgKV

namespace TopologyGraph

/-- `^lead\d+$`. -/
def isNumbered (lead name : List Char) : Bool :=
  (after lead (upToEnd name)).any fun rest => decide (rest ≠ []) && rest.all isDigit

/-- `^\w+\.\d+$`. -/
def isDotted (alnum : Char → Bool) (name : List Char) : Bool :=
  decide ((upToEnd name).takeWhile (isWord alnum) ≠ []) &&
    match (upToEnd name).dropWhile (isWord alnum) with
    | '.' :: digits => decide (digits ≠ []) && digits.all isDigit
    | _ => false

def isBridgeName (name : List Char) : Bool :=
  isNumbered "br".toList name || isNumbered "bridge".toList name || decide ("br-".toList <+: name)

/-- `infer_kind`. -/
def inferKind (topo : TopologyGraph) (alnum : Char → Bool) (name : List Char) : DeviceKind :=
  match topo.nodes.lookup (String.ofList name) with
  | some kind => kind
  | none =>
    if isNumbered "bond".toList name then .bond
    else if isBridgeName name then .bridge
    else if isDotted alnum name then .vlan
    else .unknown

end TopologyGraph

namespace Ifcfg

open TopologyGraph

def edge (src dst : List Char) (kind : EdgeKind) : TopoEdge := ⟨String.ofList src, String.ofList dst, kind⟩

/-- `ifcfg_kind_and_links`. -/
def kindAndLinks (alnum : Char → Bool) (m : IfcfgKV) : DeviceKind × List TopoEdge :=
  let dev := strip (m.get "DEVICE")
  let typ := lower (strip (m.get "TYPE"))
  let phys := strip (m.get "PHYSDEV")
  let yes := fun k => decide (lower (m.get k) = "yes".toList)
  let kind :=
    if yes "BONDING_MASTER" || decide (typ = "bond".toList) then DeviceKind.bond
    else if decide (typ = "bridge".toList) || isBridgeName dev then .bridge
    else if yes "VLAN" || decide (phys ≠ []) || isDotted alnum dev then .vlan
    else .ethernet
  let master := strip (m.get "MASTER")
  let bridge := strip (m.get "BRIDGE")
  let slaves := if yes "SLAVE" && m.has "MASTER" && decide (dev ≠ []) && decide (master ≠ []) then [edge dev master .slave] else []
  let ports := if m.has "BRIDGE" && decide (dev ≠ []) && decide (bridge ≠ []) then [edge dev bridge .port] else []
  let vlans :=
    if kind ≠ .vlan then []
    else if phys ≠ [] ∧ dev ≠ [] then [edge phys dev .vlan]
    else if isDotted alnum dev then [edge (dev.takeWhile (· ≠ '.')) dev .vlan]
    else []
  (kind, slaves ++ ports ++ vlans)

def isQuote (c : Char) : Bool := c = '"' || c = '\''

/-- `.strip().strip("\"'")`. -/
def unquoted (s : List Char) : List Char := ((strip s).dropWhile isQuote).rdropWhile isQuote

/-- `_ifcfg_has_static_intent`. -/
def hasStaticIntent (m : IfcfgKV) : Bool :=
  ["IPADDR", "IPADDR0", "PREFIX", "NETMASK", "GATEWAY", "DNS1", "DNS2", "IPV6ADDR", "IPV6_DEFAULTGW"].any m.has ||
    decide (lower (strip (m.get "BOOTPROTO")) = "static".toList) ||
    decide (lower (strip (m.get "IPV6INIT")) = "yes".toList)

/-- The file, with the fixes made to it. -/
abbrev Pass := IfcfgKV × List String

/-- The tag of the pattern a VMware name matches. -/
def vmwareTag (name : List Char) : String :=
  if ((upToEnd name).take 3).map foldCase = "ens".toList then "vmware-ens-pattern" else "vmware-vmnic"

/-- The name of a VMware card is taken out, so that the file matches by its type. -/
def dropDevice (dev : List Char) (p : Pass) : Pass :=
  let (m, fixes) := p
  let m := m.commentOutKey "DEVICE" ("VMware NIC name (" ++ vmwareTag dev ++ ") removed by h2kvm")
  let (m, fixes) := if m.has "TYPE" then (m, fixes) else (m.set "TYPE" "Ethernet".toList, fixes ++ ["added-type-ethernet"])
  let m :=
    if strip (m.get "NAME") = [] ∨ unquoted (m.get "NAME") = dev then
      m.set "NAME" ("Migrated (".toList ++ dev ++ ")".toList)
    else m
  (m, fixes ++ ["removed-vmware-nic-device-" ++ String.ofList dev])

/-- `delete` of a key that is there. -/
def deleteKey (k : Key) (tag fix : String) (p : Pass) : Pass :=
  if p.1.has k then (p.1.commentOutKey k tag, p.2 ++ [fix]) else p

def macKeys : List (Key × String) :=
  [("HWADDR", "hwaddr"), ("MACADDR", "macaddr"), ("MACADDRESS", "macaddress"), ("CLONED_MAC", "cloned_mac")]

def dropMacs (p : Pass) : Pass :=
  macKeys.foldl (fun p (k, small) => deleteKey k "MAC pinning removed by h2kvm" ("removed-mac-pinning-" ++ small) p) p

/-- The network comes up at boot. -/
def activate (isVmwareNic : Bool) (p : Pass) : Pass :=
  let (m, fixes) := p
  let onboot := lower (strip (m.get "ONBOOT"))
  let (m, fixes) :=
    if onboot = "no".toList ∨ onboot = [] ∧ isVmwareNic then (m.set "ONBOOT" "yes".toList, fixes ++ ["enabled-onboot"])
    else (m, fixes)
  let (m, fixes) :=
    if lower (strip (m.get "NM_CONTROLLED")) = "no".toList then
      (m.set "NM_CONTROLLED" "yes".toList, fixes ++ ["enabled-nm-controlled"])
    else (m, fixes)
  deleteKey "UUID" "stale UUID removed by h2kvm" "removed-uuid" (m, fixes)

/-- Every line is gone through, and the fixes are added up. -/
def eachLine (fix : List Char → List Char × List String) (p : Pass) : Pass :=
  ({ p.1 with lines := p.1.lines.map fun l => (fix l).1 }, p.2 ++ p.1.lines.flatMap fun l => (fix l).2)

/-- A VMware driver on a line that may name one. -/
def strikeToken (fixer : LineFixer) (line : List Char) : List Char × List String :=
  match fixer.driverToken line with
  | none => (line, [])
  | some name =>
    if ["device", "type", "ethtool_opts", "options", "driver"].any (fun k => (keyed k.toList line).isSome) && !isComment line then
      (commentOut line "VMware token removed by h2kvm", ["removed-vmware-driver-token-" ++ name])
    else (line, [])

def vmwareParams : List (String × String) :=
  [("VMWARE_", "vmware_"), ("VMXNET_", "vmxnet_"), ("SCSIDEVICE", "scsidevice"), ("SUBCHANNELS", "subchannels")]

/-- The VMware parameters a line has in it. -/
def paramsIn (line : List Char) : List (String × String) :=
  vmwareParams.filter fun p => decide (p.1.toList <:+: upper line)

def strikeParams (line : List Char) : List Char × List String :=
  if paramsIn line ≠ [] ∧ !isComment line then
    (commentOut line "VMware-specific parameter removed by h2kvm", (paramsIn line).map fun p => "removed-vmware-param-" ++ p.2)
  else (line, [])

/-- A key whose value is renamed. -/
def renameKey (rm : Dict String String) (k : Key) (fix : String) (name : List Char) (p : Pass) : Pass :=
  match if name = [] then none else rm.lookup (String.ofList name) with
  | none => p
  | some new => (p.1.set k new.toList, p.2 ++ [fix])

def renames (rm : Dict String String) (dev : List Char) (isVmwareNic : Bool) (p : Pass) : Pass :=
  let p := if isVmwareNic then p else renameKey rm "DEVICE" "renamed-device" dev p
  let p := renameKey rm "NAME" "renamed-name" (unquoted (p.1.get "NAME")) p
  let p := renameKey rm "PHYSDEV" "renamed-physdev" (strip (p.1.get "PHYSDEV")) p
  let p := renameKey rm "MASTER" "renamed-master-ref" (strip (p.1.get "MASTER")) p
  renameKey rm "BRIDGE" "renamed-bridge-ref" (strip (p.1.get "BRIDGE")) p

def setDhcp (fix : String) (p : Pass) : Pass := (p.1.set "BOOTPROTO" "dhcp".toList, p.2 ++ [fix])

/-- The value of `BOOTPROTO`. -/
def bootproto (m : IfcfgKV) : List Char := lower (unquoted (m.get "BOOTPROTO"))

/-- The normalization of `BOOTPROTO`. -/
def normalizeBootproto (level : FixLevel) (isLowerMember isEthernet : Bool) (p : Pass) : Pass :=
  let value := bootproto p.1
  let free := !hasStaticIntent p.1 && !isLowerMember
  if value ≠ [] ∧ value ∉ ["dhcp", "static", "none", "bootp"].map String.toList then
    if free then setDhcp "normalized-bootproto->dhcp" p else p
  else if value = [] ∧ free then
    if level.atLeastModerate then setDhcp "added-bootproto-dhcp" p else p
  else if value = "none".toList ∧ free ∧ isEthernet then
    if level.atLeastModerate then setDhcp "normalized-bootproto-none->dhcp" p else p
  else p

/-- The steps before DHCP is looked at. -/
def cleaned (fixer : LineFixer) (dev : List Char) (m : IfcfgKV) : Pass :=
  let moderate := fixer.level.atLeastModerate
  let isVmwareNic := moderate && isVmwareName dev
  let p : Pass := (m, [])
  let p := if isVmwareNic then dropDevice dev p else p
  let p := if moderate then activate isVmwareNic (dropMacs p) else p
  eachLine strikeParams (eachLine (strikeToken fixer) p)

def renamed (fixer : LineFixer) (dev : List Char) (p : Pass) : Pass :=
  if fixer.level = .aggressive then
    renames fixer.renameMap dev (fixer.level.atLeastModerate && isVmwareName dev) p
  else p

/-- The device once it is renamed. -/
def newDevice (fixer : LineFixer) (dev : List Char) : List Char :=
  if fixer.level = .aggressive && !isVmwareName dev then
    ((fixer.renameMap.lookup (String.ofList dev)).map String.toList).getD dev
  else dev

/-- `fix_ifcfg_rh`. -/
def fixIfcfgRh (fixer : LineFixer) (topo : Option TopologyGraph) (path : String) (content : List Char) :
    FixResult (List Char) :=
  let m := IfcfgKV.parse content
  let dev := strip (m.get "DEVICE")
  if dev = [] then ⟨content, [], ["Missing DEVICE="], []⟩
  else
    let p := cleaned fixer dev m
    let q := renamed fixer dev p
    -- the kind and the edges are read again only if something was renamed
    let links := if q.2.length = p.2.length then kindAndLinks fixer.alnum m else kindAndLinks fixer.alnum q.1
    let dev := newDevice fixer dev
    let topoKind := match topo with
      | some topo => topo.inferKind fixer.alnum dev
      | none => links.1
    let edges := topo.elim [] TopologyGraph.edges ++ links.2
    let r := normalizeBootproto fixer.level (isLowerLayerMember (String.ofList dev) edges)
      (decide (topoKind = .ethernet)) q
    let risky := decide (links.1 = .ethernet) && (r.1.has "BRIDGE" || links.2.any fun e => decide (e.kind = .port)) &&
      hasStaticIntent r.1
    let warning := path ++ ": IP/static config appears on a bridge port (" ++ String.ofList dev ++ "). " ++
      "Often the IP should live on the bridge device, not the port. Not auto-moving."
    ⟨r.1.render, r.2, [], if risky then [warning] else []⟩

end Ifcfg

end H2kvm.Network
