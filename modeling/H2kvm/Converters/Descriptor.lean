import H2kvm.Framework.Scanning

namespace H2kvm.Converters.Descriptor

open Framework Text

inductive Access
  | rw
  | rdonly
  | noaccess
  deriving DecidableEq

def Access.name : Access → List Char
  | .rw => "RW".toList
  | .rdonly => "RDONLY".toList
  | .noaccess => "NOACCESS".toList

inductive ExtentType
  | sparse
  | flat
  | zero
  | vmfs
  | vmfssparse
  | vmfsrdm
  | vmfsraw
  | sesparse
  deriving DecidableEq

def ExtentType.name : ExtentType → List Char
  | .sparse => "SPARSE".toList
  | .flat => "FLAT".toList
  | .zero => "ZERO".toList
  | .vmfs => "VMFS".toList
  | .vmfssparse => "VMFSSPARSE".toList
  | .vmfsrdm => "VMFSRDM".toList
  | .vmfsraw => "VMFSRAW".toList
  | .sesparse => "SESPARSE".toList

/-- An extent of a disk: so many sectors, of a file from some sector on. -/
structure ExtentLine where
  access : Access
  size : Nat
  type : ExtentType
  file : Option (List Char)
  offset : Option Nat

/-- A line of a descriptor. -/
inductive Line
  | blank
  | comment
  | keyValue (key value : List Char) (quoted : Bool)
  | extent (line : ExtentLine)

/-- A character of a key. -/
def isKeyChar (c : Char) : Bool := c.toNat < 128 && !isSpace c && c ∉ ['=', ':', '#', '"']

def valueText (quoted : Bool) (value : List Char) : List Char := if quoted then '"' :: (value ++ ['"']) else value

/-- The file of an extent after its type. -/
inductive FileText : Option (List Char) → List Char → Prop
  | none : FileText none []
  | some {gap file : List Char} (spaces : Gap gap) (named : file ≠ []) (free : '"' ∉ file) :
      FileText (some file) (gap ++ '"' :: (file ++ ['"']))

inductive OffsetText : Option Nat → List Char → Prop
  | none : OffsetText none []
  | some {gap digits : List Char} {offset : Nat} (spaces : Gap gap) (numeral : Numeral digits offset) :
      OffsetText (some offset) (gap ++ digits)

/-- A line as it is written, without the spaces around it. -/
inductive Written : Line → List Char → Prop
  | blank : Written .blank []
  | comment (text : List Char) : Written .comment ('#' :: text)
  | keyValue {key value gap gap' : List Char} {quoted : Bool} (named : key ≠ []) (plain : ∀ c ∈ key, isKeyChar c = true)
      (spaces : Blank gap) (spaces' : Blank gap') (free : '"' ∉ value) (stripped : quoted = false → strip value = value) :
      Written (.keyValue key value quoted) (key ++ (gap ++ '=' :: (gap' ++ valueText quoted value)))
  | extent {line : ExtentLine} {gap gap' digits file offset : List Char} (spaces : Gap gap)
      (numeral : Numeral digits line.size) (spaces' : Gap gap') (named : FileText line.file file)
      (placed : OffsetText line.offset offset) :
      Written (.extent line) (line.access.name ++ (gap ++ (digits ++ (gap' ++ (line.type.name ++ (file ++ offset))))))

/-- The extents of a descriptor, in order. -/
def extents (lines : List Line) : List ExtentLine := lines.filterMap fun
  | .extent line => some line
  | _ => none

variable {named? : Option (List Char)} {offset? : Option Nat} {file offset : List Char}

theorem access_visible (access : Access) : ∀ c ∈ access.name, isSpace c = false := by
  cases access <;> decide

theorem type_visible (type : ExtentType) : ∀ c ∈ type.name, isSpace c = false := by
  cases type <;> decide

theorem ended_tail (named : FileText named? file) (placed : OffsetText offset? offset) : Ended (file ++ offset) := by
  cases named with
  | none =>
    cases placed with
    | none => nofun
    | some spaces _ => exact spaces.ended _
  | some spaces _ _ =>
    rw [List.append_assoc]
    exact spaces.ended _

end H2kvm.Converters.Descriptor
