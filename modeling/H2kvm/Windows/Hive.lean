import Mathlib
import H2kvm.Framework.Effects
import H2kvm.Framework.Keys
import H2kvm.Framework.Lines

namespace H2kvm.Windows

open Framework Text

abbrev Name := List Char

/-- The names of keys and values, with no regard to case. -/
def fold (name : Name) : Name := name.map Char.toLower

abbrev Path := List Name

structure Value where
  type : Nat
  data : List UInt8
  deriving DecidableEq

/-- The keys of a hive by their paths. -/
abbrev Hive := Keys Name Value

/-- A unit of UTF-16, the low byte first. -/
def unit (n : Nat) : List UInt8 := [UInt8.ofNat n, UInt8.ofNat (n / 256)]

/-- `encode("utf-16le")`. -/
def utf16le (s : List Char) : List UInt8 :=
  s.flatMap fun c =>
    let n := c.toNat
    if n < 0x10000 then unit n
    else unit (0xd800 + (n - 0x10000) / 0x400) ++ unit (0xdc00 + (n - 0x10000) % 0x400)

/-- `_reg_sz`, as a value of the type REG_SZ. -/
def regSz (s : List Char) : Value := ⟨1, utf16le (s ++ ['\x00'])⟩

/-- An integer in four bytes, the low byte first, as a REG_DWORD; `none` is an `OverflowError`. -/
def regDword (v : Int) : Option Value :=
  if 0 ≤ v ∧ v < 2 ^ 32 then
    let n := v.toNat
    some ⟨4, [UInt8.ofNat n, UInt8.ofNat (n / 2 ^ 8), UInt8.ofNat (n / 2 ^ 16), UInt8.ofNat (n / 2 ^ 24)]⟩
  else none

/-- `int.from_bytes(data, "little")`. -/
def fromBytes (data : List UInt8) : Nat := data.foldr (fun b n => b.toNat + 256 * n) 0

/-- What `node_get_value` returns for a value that is there: a handle, or a dictionary with this under `value`. -/
inductive Reply where
  | handle
  | bytes (data : List UInt8)
  | int (n : Int)
  | other

/-- What is no dictionary counts as a missing value. -/
def Reply.dict : Reply → Option Reply
  | handle => none
  | reply => some reply

/-- What registers drivers, as far as it is recorded. -/
inductive Failure where
  | windowsRoot
  | notFound
  | stat
  | service (name : Name)
  | device (pciId : Name)
  | editing
  deriving DecidableEq

inductive Action where
  | created
  | updated
  deriving DecidableEq

structure Results where
  errors : List Failure := []
  services : List (Name × Int × Action) := []
  cdd : List (Name × Name × Action) := []
  startoverrideRemoved : List Name := []
  vmwareServicesRemoved : List Name := []
  verifiedServices : List Name := []
  verificationErrors : List Name := []
  success : Bool := false

/-- The hive that is open, the one in the guest, and the results. -/
structure Session where
  hive : Hive
  guest : Hive
  results : Results := {}

/-- What may raise, with no regard to the text of the exception. -/
abbrev Edit := EStateM Unit Session

namespace Edit

/-- `node_set_value`, which replaces the value of this name only. -/
def nodeSetValue (failed : Bool) (node : Path) (key : Name) (value : Value) : Edit Unit := fun s =>
  if failed || (s.hive node).isNone then .error () s
  else .ok () { s with hive := s.hive.write node fun n => if n = fold key then some value else none }

/-- `_set_sz` and `_set_dword`, where there may be no value to set. -/
def setValue (failed : Bool) (node : Path) (key : Name) : Option Value → Edit Unit
  | some value => nodeSetValue failed node key value
  | none => throw ()

/-- The values of a key, set one after the other. -/
def setValues (fails : Nat → Bool) (node : Path) : Nat → List (Name × Option Value) → Edit Unit
  | _, [] => pure ()
  | k, (key, value) :: rest => do
    setValue (fails k) node key value
    setValues fails node (k + 1) rest

/-- `_hivex_read_value_dict`: any failure counts as a missing value. -/
def readValueDict (failed : Bool) (present : Value → Reply) (node : Path) (key : Name) : Edit (Option Reply) := fun s =>
  .ok (if failed then none else (s.hive.value node (fold key)).bind fun value => (present value).dict) s

/-- `_hivex_read_dword`. -/
def readDword (failed : Bool) (present : Value → Reply) (node : Path) (key : Name) : Edit (Option Int) := do
  match ← readValueDict failed present node key with
  | some (.bytes data) => pure (if 4 ≤ data.length then some (fromBytes (data.take 4)) else none)
  | some (.int n) => pure (some n)
  | _ => pure none

end Edit

/-- What a list of values to be set says about each name; the last one of a name counts. -/
def valuesOf : List (Name × Option Value) → Name → Option Value
  | [] => fun _ => none
  | (key, value) :: rest => fun n => (valuesOf rest n).or (if n = fold key then value else none)

theorem valuesOf_cons (x : Name × Option Value) (values : List (Name × Option Value)) (n : Name) :
    valuesOf (x :: values) n = (valuesOf values n).or (if n = fold x.1 then x.2 else none) := rfl

end H2kvm.Windows
