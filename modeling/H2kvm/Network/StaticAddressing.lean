import H2kvm.Network.IfcfgStatic
import H2kvm.Network.InterfacesStatic
import H2kvm.Network.SystemdNetwork

namespace H2kvm.Network

open Framework Text

/-- The formats that are edited line by line. -/
inductive Backend where
  | systemd
  | interfaces
  | ifcfg
  deriving DecidableEq

namespace Backend

/-- The content after the fix; `none` if the fixer raised an error. -/
def fixed (b : Backend) (fixer : LineFixer) (topo : Option TopologyGraph) (path : String) (content : List Char) :
    Option (List Char) :=
  match b with
  | .systemd => (Systemd.fixSystemdNetwork fixer content).map FixResult.newContent
  | .interfaces => some (Interfaces.fixInterfaces fixer content).newContent
  | .ifcfg => some (Ifcfg.fixIfcfgRh fixer topo path content).newContent

/-- What is configured statically still is, and DHCP is not enabled for it. -/
def StaticKept (b : Backend) (before after : List Char) : Prop :=
  match b with
  | .systemd => Systemd.StaticKept before after
  | .interfaces => Interfaces.StaticKept before after
  | .ifcfg => Ifcfg.StaticKept before after

def KeepsStatic (b : Backend) (fixer : LineFixer) (topo : Option TopologyGraph) (path : String) (content : List Char) : Prop :=
  ∀ after, b.fixed fixer topo path content = some after → b.StaticKept content after

/-- The names the fix writes are taken as they are and stay on their line. -/
def PlainNames (b : Backend) (fixer : LineFixer) (content : List Char) : Prop :=
  match b with
  | .systemd => Systemd.PlainNames fixer (linesOf content)
  | .interfaces => Interfaces.PlainNames fixer (linesOf content)
  | .ifcfg => Ifcfg.PlainNames fixer

/-- What is configured statically stands in lines the fix spares, and nothing of it is taken for a
request for DHCP. -/
def Survives (b : Backend) (fixer : LineFixer) (content : List Char) : Prop :=
  match b with
  | .systemd =>
    Systemd.addresses content ≠ [] → Systemd.usesDhcp content = false → Systemd.Survives fixer content
  | .interfaces =>
    ∀ x, ∀ a ∈ Interfaces.addressesOf x false (linesOf content), x ∉ Interfaces.dhcpNames (linesOf content) →
      Interfaces.Survives fixer (linesOf content) x a
  | .ifcfg =>
    (∃ k ∈ Ifcfg.addressKeys, (Ifcfg.valueIn k (splitlines content)).isSome = true) →
      ¬Ifcfg.usesDhcp (splitlines content) →
      strip ((Ifcfg.valueIn "DEVICE" (splitlines content)).getD []) ≠ [] → Ifcfg.Survives (splitlines content)

def plainFixer (level : FixLevel) : LineFixer := ⟨level, fun _ => false, ∅⟩

def indentedStanza : List Char := "auto eth0\niface eth0 inet static\n    address 10.0.0.5/24\n".toList

/-- An interface whose options are not indented. -/
def flatStanza : List Char := "iface eth0 inet static\naddress 10.0.0.5/24\n".toList

/-- A file that turns DHCP off. -/
def dhcpOff : List Char := "[Match]\nName=eth0\n[Network]\nDHCP=no\nAddress=10.0.0.5/24\n".toList

/-- An address with a remark on the virtual machine. -/
def remarkedAddress : List Char := "DEVICE=eth0\nBOOTPROTO=none\nIPADDR=10.0.0.5 # vmware_net\nPREFIX=24\n".toList

theorem interfaces_loses_address :
    ¬KeepsStatic .interfaces (plainFixer .moderate) none "/etc/network/interfaces" flatStanza := by
  intro keeps
  have kept := keeps _ rfl "eth0".toList "10.0.0.5/24".toList (by decide +kernel) (by decide +kernel)
  exact absurd kept.1 (by decide +kernel)

theorem systemd_loses_dhcpOff :
    ¬KeepsStatic .systemd (plainFixer .conservative) none "/etc/systemd/network/10-eth0.network" dhcpOff := by
  intro keeps
  have result : fixed .systemd (plainFixer .conservative) none "/etc/systemd/network/10-eth0.network" dhcpOff =
      some "[Match]\nName=eth0\n[Network]\nDHCP=yes\nAddress=10.0.0.5/24\n".toList := by decide +kernel
  have kept := keeps _ result (by decide +kernel) (by decide +kernel)
  exact absurd kept.2 (by decide +kernel)

theorem ifcfg_loses_address :
    ¬KeepsStatic .ifcfg (plainFixer .conservative) none "/etc/sysconfig/network-scripts/ifcfg-eth0" remarkedAddress := by
  intro keeps
  have kept := keeps _ rfl ⟨"IPADDR", by decide, by decide +kernel⟩ (by decide +kernel)
  exact absurd (kept.1 "IPADDR" (by decide)) (by decide +kernel)

end Backend

end H2kvm.Network
