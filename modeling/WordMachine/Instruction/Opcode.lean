/-
Opcodes and tags.

In an image every instruction and every transfer starts with a byte that says which one it is,
its opcode; operators have tag bytes of their own.

* `Opcode.tag` and `Opcode.ofTag?` go between opcodes and bytes, and likewise for operators.
* `Opcode.isTransfer` says whether an opcode ends a block: those from `0x40` on do.
* `ofTag?_tag` and `tag_eq_of_ofTag?` say that the two directions undo each other.
-/
import WordMachine.Instruction.Basic

namespace WordMachine

/-- The kind of an instruction or of a transfer. -/
inductive Opcode where
  | constant | copy | label
  | load | store | loadFrame | storeFrame | push | pop
  | binary | unary
  | status
  | jump | branch | jumpRegister | call | ret
  | halt
  deriving DecidableEq, Repr

namespace Opcode

def all : List Opcode :=
  [constant, copy, label, load, store, loadFrame, storeFrame, push, pop, binary, unary, status,
    jump, branch, jumpRegister, call, ret, halt]

def tag : Opcode → UInt8
  | constant => 0x01
  | copy => 0x02
  | label => 0x03
  | load => 0x10
  | store => 0x11
  | loadFrame => 0x12
  | storeFrame => 0x13
  | push => 0x14
  | pop => 0x15
  | binary => 0x20
  | unary => 0x21
  | status => 0x30
  | jump => 0x40
  | branch => 0x41
  | jumpRegister => 0x42
  | call => 0x43
  | ret => 0x44
  | halt => 0xFF

def ofTag? (byte : UInt8) : Option Opcode := all.find? (·.tag == byte)

/-- Whether an opcode ends a block. -/
def isTransfer (o : Opcode) : Bool := 0x40 ≤ o.tag

@[simp]
theorem ofTag?_tag (o : Opcode) : ofTag? o.tag = some o := by
  cases o <;> rfl

theorem tag_eq_of_ofTag? {byte : UInt8} {o : Opcode} (h : ofTag? byte = some o) :
    o.tag = byte := by
  simpa using List.find?_some h

end Opcode

def Instruction.opcode : Instruction → Opcode
  | constant .. => .constant
  | copy .. => .copy
  | label .. => .label
  | load .. => .load
  | store .. => .store
  | loadFrame .. => .loadFrame
  | storeFrame .. => .storeFrame
  | binary .. => .binary
  | unary .. => .unary
  | push .. => .push
  | pop .. => .pop
  | status .. => .status

def Transfer.opcode : Transfer → Opcode
  | jump .. => .jump
  | branch .. => .branch
  | jumpRegister .. => .jumpRegister
  | call .. => .call
  | ret .. => .ret
  | halt => .halt

namespace BinaryOp

def tag : BinaryOp → UInt8
  | add => 0x00
  | sub => 0x01
  | mul => 0x02
  | div => 0x03
  | rem => 0x04
  | and => 0x05
  | or => 0x06
  | eq => 0x10
  | ne => 0x11
  | lt => 0x12
  | le => 0x13
  | gt => 0x14
  | ge => 0x15

def ofTag? (byte : UInt8) : Option BinaryOp := all.find? (·.tag == byte)

@[simp]
theorem ofTag?_tag (o : BinaryOp) : ofTag? o.tag = some o := by
  cases o <;> rfl

theorem tag_eq_of_ofTag? {byte : UInt8} {o : BinaryOp} (h : ofTag? byte = some o) :
    o.tag = byte := by
  simpa using List.find?_some h

end BinaryOp

namespace UnaryOp

def tag : UnaryOp → UInt8
  | neg => 0x00
  | not => 0x01

def ofTag? (byte : UInt8) : Option UnaryOp := all.find? (·.tag == byte)

@[simp]
theorem ofTag?_tag (o : UnaryOp) : ofTag? o.tag = some o := by
  cases o <;> rfl

theorem tag_eq_of_ofTag? {byte : UInt8} {o : UnaryOp} (h : ofTag? byte = some o) :
    o.tag = byte := by
  simpa using List.find?_some h

end UnaryOp

end WordMachine
