import H2kvm.Network.Scan

namespace H2kvm.Network.Interfaces

open Framework Text

/-- `line.strip().startswith("iface ")`. -/
def isIfaceLine (line : List Char) : Bool := decide ("iface ".toList <+: strip line)

/-- `^\s*iface\s+\S+\s+inet\s+static\b`. -/
def looksStatic (alnum : Char → Bool) (line : List Char) : Bool :=
  match split line with
  | first :: _ :: family :: method :: _ =>
    decide (first = "iface".toList) && decide (family = "inet".toList) &&
      (after "static".toList method).any fun rest => boundary alnum (some 'c') rest.head?
  | _ => false

/-- `re.sub(r"\bstatic\b", "dhcp", s)`, where `prev` comes before `s` and `skip` characters of it are replaced already. -/
def subStaticFrom (alnum : Char → Bool) : Nat → Option Char → List Char → List Char
  | _, _, [] => []
  | skip + 1, _, c :: s => subStaticFrom alnum skip (some c) s
  | 0, prev, c :: s =>
    if boundary alnum prev (some c) &&
        (after "static".toList (c :: s)).any (fun rest => boundary alnum (some 'c') rest.head?) then
      "dhcp".toList ++ subStaticFrom alnum 5 (some c) s
    else c :: subStaticFrom alnum 0 (some c) s

def subStatic (alnum : Char → Bool) (s : List Char) : List Char := subStaticFrom alnum 0 none s

/-- `^\s*address\s+\S+`. -/
def isAddressLine (line : List Char) : Bool :=
  match split line with
  | first :: _ :: _ => decide (first = "address".toList)
  | _ => false

/-- `^\s*hwaddress\s+ether\s+.*$`, without case. -/
def isHwaddress (line : List Char) : Bool :=
  (afterWord "hwaddress".toList (lstrip line)).any fun rest =>
    rest.head?.any isSpace && (afterWord "ether".toList (lstrip rest)).any fun rest => rest.head?.any isSpace

/-- The lines read so far, and the block of the interface that is being read. -/
structure Scan where
  out : List (List Char) := []
  fixes : List String := []
  block : Option (List Char × List (List Char)) := none

/-- The first `inet static` of a block becomes `inet dhcp`. -/
def dhcpFirst (alnum : Char → Bool) : List (List Char) → Option (List (List Char))
  | [] => none
  | line :: lines =>
    if looksStatic alnum line then some (subStatic alnum line :: lines) else (dhcpFirst alnum lines).map (line :: ·)

/-- A block that has no address is given DHCP. -/
def normalize (fixer : LineFixer) (iface : List Char) (lines : List (List Char)) : List (List Char) × List String :=
  if fixer.level.atLeastModerate && !lines.any isAddressLine then
    match dhcpFirst fixer.alnum lines with
    | some lines => (lines, ["iface-" ++ String.ofList iface ++ "-static-without-address->dhcp"])
    | none => (lines, [])
  else (lines, [])

/-- `flush_block`. -/
def flushBlock (fixer : LineFixer) (s : Scan) : Scan :=
  match s.block with
  | none => s
  | some (iface, lines) =>
    let (lines, fixes) := normalize fixer iface lines
    { out := s.out ++ lines, fixes := s.fixes ++ fixes, block := none }

/-- A line that names a VMware driver is commented out. -/
def strikeToken (fixer : LineFixer) (line : List Char) : List Char × List String :=
  match fixer.driverToken line with
  | some name => (commentOut line "VMware token removed by h2kvm", ["removed-vmware-token-" ++ name])
  | none => (line, [])

/-- A line of a block. -/
def fixOption (fixer : LineFixer) (line : List Char) : List Char × List String :=
  let (line, fixes) := strikeToken fixer line
  if fixer.level.atLeastModerate && isHwaddress line then
    (commentOut line "MAC pinning removed by h2kvm", fixes ++ ["removed-hwaddress"])
  else (line, fixes)

/-- A block goes on with blank and indented lines. -/
def continues (line : List Char) : Bool :=
  !isIfaceLine line && (decide (strip line = []) || line.head? = some ' ' || line.head? = some '\t')

/-- One line of the file. -/
def fixLine (fixer : LineFixer) (s : Scan) (line : List Char) : Scan :=
  if isIfaceLine line then
    -- a line with fewer words than an interface needs is lost
    { flushBlock fixer s with
      block := if 4 ≤ (split line).length then some ((split line).getD 1 [], [line]) else none }
  else
    let s := if continues line then s else flushBlock fixer s
    match s.block with
    | some (iface, lines) =>
      let (line, fixes) := fixOption fixer line
      { s with block := some (iface, lines ++ [line]), fixes := s.fixes ++ fixes }
    | none =>
      let (line, fixes) := strikeToken fixer line
      { s with out := s.out ++ [line], fixes := s.fixes ++ fixes }

/-- `fix_interfaces`. -/
def fixInterfaces (fixer : LineFixer) (content : List Char) : FixResult (List Char) :=
  let s := flushBlock fixer ((linesOf content).foldl (fixLine fixer) {})
  ⟨joinLines s.out, s.fixes, [], []⟩

end H2kvm.Network.Interfaces
