/-
Faults.

A fault is what ends an operation of the machine without a result: a malformed image, an index
outside its space, a violated frame discipline, a refused capability, a stream that failed.
Conditions that a program can handle itself, such as input that is not a number, are not faults.

* `Fault` lists the causes.
* `Fault.message` is the one place where they are put into words.
-/
import WordMachine.Intrinsic.Basic
import WordMachine.Frame.Phase
import WordMachine.Numeral
import WordMachine.Text.Hex

namespace WordMachine

/-- A space of cells that an index can miss. -/
inductive Space where
  | register
  | memory
  | stack
  deriving DecidableEq, Repr

def Space.name : Space → String
  | register => "register"
  | memory => "memory"
  | stack => "stack"

/-- What a tag byte of an image stands for. -/
inductive TagKind where
  | instruction
  | transfer
  | binaryOp
  | unaryOp
  | operand
  | callee
  | intrinsic
  | returnValue
  deriving DecidableEq, Repr

def TagKind.name : TagKind → String
  | instruction => "op"
  | transfer => "transfer"
  | binaryOp => "binary op"
  | unaryOp => "unary op"
  | operand => "address"
  | callee => "callee"
  | intrinsic => "intrinsic"
  | returnValue => "return value"

/-- Why an operation ended without a result. -/
inductive Fault where
  /-- The image does not start with the magic number. -/
  | badMagic
  /-- The image has a version that is not understood. -/
  | unknownVersion (version : UInt8)
  /-- A byte of the image is no tag of the kind expected at its place. -/
  | badTag (kind : TagKind) (tag : UInt8)
  /-- The image ends before it is complete. -/
  | imageTooShort
  /-- A label is not the index of a block. -/
  | unknownLabel (label : UInt32)
  /-- An index lies outside its space. It is shown as a signed 64-bit number. -/
  | outOfBounds (space : Space) (index : Int64)
  /-- A configured space has more cells than words can address. -/
  | capacityTooLarge (space : Space) (capacity : Nat)
  /-- No zero cell ends the string that starts at an address. -/
  | unterminatedString (address : Word)
  /-- A word that control should move to is not the index of a block. -/
  | invalidTarget (target : Word)
  | divisionByZero
  /-- A call record was asked to move to a phase that does not follow its own. -/
  | phaseOrder (current wanted : Phase)
  /-- A body left the stack pointer away from the top of its frame. -/
  | unbalancedFrame (fp sp : Word)
  /-- The machine halted while a host call was in flight. -/
  | halted
  | stepLimit (limit : UInt64)
  | capabilityDenied (intrinsic : Intrinsic)
  /-- A stream failed, with a text of its own. -/
  | stream (text : String)
  deriving DecidableEq, Repr

/-- A fault in words. -/
def Fault.message : Fault → String
  | badMagic => "invalid program image magic number"
  | unknownVersion v => "incompatible program image version " ++ toString v.toNat
  | badTag kind tag => "invalid " ++ kind.name ++ " tag: 0x" ++ Text.hexByte tag
  | imageTooShort => "program image is too short"
  | unknownLabel l => "reference to unknown label " ++ toString l.toNat
  | outOfBounds space i => space.name ++ " index out of bounds: " ++ toString i.toInt
  | capacityTooLarge space n =>
    space.name ++ " capacity " ++ toString n ++ " exceeds the addressable word range"
  | unterminatedString a =>
    "string at address " ++ a.text ++ " has no terminator before the end of memory"
  | invalidTarget w => "invalid jump target: " ++ w.text
  | divisionByZero => "division by zero"
  | phaseOrder current wanted =>
    "frame protocol violation: " ++ current.name ++ " cannot move to " ++ wanted.name
  | unbalancedFrame fp sp =>
    "unbalanced frame at fp " ++ fp.text ++ ": routine left sp at " ++ sp.text
  | halted => "machine halted before the call returned"
  | stepLimit n => "step limit of " ++ toString n.toNat ++ " exceeded"
  | capabilityDenied i => "capability denied for intrinsic " ++ i.name
  | stream text => "io error: " ++ text

/-- Refuses an intrinsic that asks for a capability outside the set. -/
def CapabilitySet.check (s : CapabilitySet) (i : Intrinsic) : Except Fault Unit :=
  if s.allows i then .ok () else .error (.capabilityDenied i)

end WordMachine
