/-
Intrinsics.

An intrinsic is a service of the host that a program calls like a routine: four print a value,
four read one. Each has an identifier in images, a name in messages, and the capabilities without
which it is refused.

* `Intrinsic.ofId?` finds the intrinsic of an identifier.
* `Intrinsic.needs` lists the capabilities that an intrinsic asks for.
-/
import WordMachine.Capability

namespace WordMachine

/-- A service of the host. -/
inductive Intrinsic where
  | printInteger
  | printBoolean
  | printString
  | printFloat
  | readInteger
  | readFloat
  | readString
  | readBoolean
  deriving DecidableEq, Repr

namespace Intrinsic

def all : List Intrinsic :=
  [printInteger, printBoolean, printString, printFloat,
    readInteger, readFloat, readString, readBoolean]

/-- The byte that names an intrinsic in an image. -/
def id : Intrinsic → UInt8
  | printInteger => 0x01
  | printBoolean => 0x02
  | printString => 0x03
  | printFloat => 0x04
  | readInteger => 0x10
  | readFloat => 0x11
  | readString => 0x12
  | readBoolean => 0x13

/-- The intrinsic that a byte names. -/
def ofId? (byte : UInt8) : Option Intrinsic := all.find? (·.id == byte)

def name : Intrinsic → String
  | printInteger => "print-integer"
  | printBoolean => "print-boolean"
  | printString => "print-string"
  | printFloat => "print-float"
  | readInteger => "read-integer"
  | readFloat => "read-float"
  | readString => "read-string"
  | readBoolean => "read-boolean"

/-- The capabilities that an intrinsic asks for, in the order in which it declares them. -/
def needs : Intrinsic → List Capability
  | printInteger => []
  | printBoolean => []
  | printString => [.strings]
  | printFloat => [.floats]
  | readInteger => [.input]
  | readFloat => [.input, .floats]
  | readString => [.input, .strings]
  | readBoolean => [.input]

@[simp]
theorem ofId?_id (i : Intrinsic) : ofId? i.id = some i := by
  cases i <;> rfl

theorem id_eq_of_ofId? {byte : UInt8} {i : Intrinsic} (h : ofId? byte = some i) :
    i.id = byte := by
  simpa using List.find?_some h

end Intrinsic

/-- Whether a set holds every capability that an intrinsic asks for. -/
def CapabilitySet.allows (s : CapabilitySet) (i : Intrinsic) : Bool := i.needs.all s.contains

end WordMachine
