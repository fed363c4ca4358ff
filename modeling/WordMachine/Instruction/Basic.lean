/-
Instructions.

A block of a program is a list of instructions that run in order, followed by one transfer of
control. Instructions move words between registers, memory and the stack and do arithmetic;
a transfer names the block that comes next, calls a routine or an intrinsic, returns, or halts.

* `BinaryOp.apply` and `UnaryOp.apply` are the arithmetic: 32-bit, wrapping, with division toward
  zero and comparisons that give one or zero.
* `Transfer.targets` lists the labels that a transfer names.
-/
import WordMachine.Fault

namespace WordMachine

/-- A register, by its index. -/
structure Register where
  index : UInt16
  deriving DecidableEq, Repr, Inhabited

/-- A register in display form. -/
def Register.text (r : Register) : String := "R[" ++ toString r.index.toNat ++ "]"

/-- A block of a program, by its index. -/
structure Label where
  index : UInt32
  deriving DecidableEq, Repr, Inhabited

/-- A label in display form. -/
def Label.text (l : Label) : String := "L" ++ toString l.index.toNat

/-- The word that stands for a label in registers and memory: the same 32 bits. -/
def Label.toWord (l : Label) : Word := l.index.toInt32

/-- Where a memory instruction finds its address. -/
inductive Operand where
  | absolute (address : Word)
  /-- The address is the word in a register. -/
  | indirect (register : Register)
  deriving DecidableEq, Repr

/-- An operation on two words. -/
inductive BinaryOp where
  | add | sub | mul | div | rem | and | or
  | eq | ne | lt | le | gt | ge
  deriving DecidableEq, Repr

namespace BinaryOp

def all : List BinaryOp :=
  [add, sub, mul, div, rem, and, or, eq, ne, lt, le, gt, ge]

/-- Wrapping arithmetic. Quotients are rounded toward zero and a remainder has the sign of the
dividend; a zero divisor is the only fault. -/
def apply : BinaryOp → Word → Word → Except Fault Word
  | add, a, b => .ok (a + b)
  | sub, a, b => .ok (a - b)
  | mul, a, b => .ok (a * b)
  | div, a, b => if b = 0 then .error .divisionByZero else .ok (a / b)
  | rem, a, b => if b = 0 then .error .divisionByZero else .ok (a % b)
  | and, a, b => .ok (a &&& b)
  | or, a, b => .ok (a ||| b)
  | eq, a, b => .ok (Word.ofBool (a = b))
  | ne, a, b => .ok (Word.ofBool (a ≠ b))
  | lt, a, b => .ok (Word.ofBool (a < b))
  | le, a, b => .ok (Word.ofBool (a ≤ b))
  | gt, a, b => .ok (Word.ofBool (b < a))
  | ge, a, b => .ok (Word.ofBool (b ≤ a))

end BinaryOp

/-- An operation on one word. -/
inductive UnaryOp where
  | neg
  /-- The bitwise complement. -/
  | not
  deriving DecidableEq, Repr

namespace UnaryOp

def all : List UnaryOp := [neg, not]

def apply : UnaryOp → Word → Word
  | neg, a => -a
  | not, a => ~~~a

end UnaryOp

/-- One step of a block. -/
inductive Instruction where
  | constant (dst : Register) (value : Word)
  | copy (dst src : Register)
  /-- Puts the word of a label into a register, for an indirect jump. -/
  | label (dst : Register) (label : Label)
  | load (dst : Register) (address : Operand)
  | store (address : Operand) (src : Register)
  /-- Loads from an offset to the frame pointer. -/
  | loadFrame (dst : Register) (offset : Word)
  /-- Stores at an offset to the frame pointer. -/
  | storeFrame (offset : Word) (src : Register)
  | binary (op : BinaryOp) (dst lhs rhs : Register)
  | unary (op : UnaryOp) (dst src : Register)
  | push (src : Register)
  | pop (dst : Register)
  /-- Puts the status code of the call that completed last into a register. -/
  | status (dst : Register)
  deriving DecidableEq, Repr

/-- The label that an instruction names. -/
def Instruction.label? : Instruction → Option Label
  | .label _ l => some l
  | _ => none

/-- What a call calls. -/
inductive Callee where
  | routine (label : Label)
  | intrinsic (intrinsic : Intrinsic)
  deriving DecidableEq, Repr

/-- How a block ends. -/
inductive Transfer where
  | jump (target : Label)
  | branch (condition : Register) (ifZero otherwise : Label)
  /-- Jumps to the label whose word is in a register. -/
  | jumpRegister (register : Register)
  /-- Enters a frame for the callee, which returns to `resume`. -/
  | call (callee : Callee) (argument : Register) (resume : Label)
  /-- Leaves the active frame with the word in a register, or with zero. -/
  | ret (value : Option Register)
  | halt
  deriving DecidableEq, Repr

namespace Transfer

/-- The labels that a transfer names, a called routine before the label to resume at. -/
def targets : Transfer → List Label
  | jump target => [target]
  | branch _ ifZero otherwise => [ifZero, otherwise]
  | jumpRegister _ => []
  | call (.routine routine) _ resume => [routine, resume]
  | call (.intrinsic _) _ resume => [resume]
  | ret _ => []
  | halt => []

/-- The intrinsic that a transfer calls. -/
def intrinsic? : Transfer → Option Intrinsic
  | call (.intrinsic i) _ _ => some i
  | _ => none

end Transfer

end WordMachine
