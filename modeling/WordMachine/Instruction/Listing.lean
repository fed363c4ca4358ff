/-
Listings.

The written form of instructions and transfers: a mnemonic, then the named fields in braces, or a
single unnamed field in parentheses.
-/
import WordMachine.Instruction.Opcode

namespace WordMachine

namespace Listing

/-- A mnemonic with named fields, in braces. -/
def fields (mnemonic : String) (entries : List (String × String)) : String :=
  mnemonic ++ " \x7b " ++ ", ".intercalate (entries.map fun e => e.1 ++ ": " ++ e.2) ++ " \x7d"

/-- A mnemonic with one unnamed field, in parentheses. -/
def wrap (mnemonic field : String) : String := mnemonic ++ "(" ++ field ++ ")"

end Listing

open Listing (fields wrap)

def Opcode.mnemonic : Opcode → String
  | constant => "LoadImm"
  | copy => "Move"
  | label => "LoadLabel"
  | load => "Load"
  | store => "Store"
  | loadFrame => "LoadFrame"
  | storeFrame => "StoreFrame"
  | push => "Push"
  | pop => "Pop"
  | binary => "Binary"
  | unary => "Unary"
  | status => "LoadStatus"
  | jump => "Jump"
  | branch => "Branch"
  | jumpRegister => "JumpRegister"
  | call => "Call"
  | ret => "Return"
  | halt => "Halt"

def BinaryOp.mnemonic : BinaryOp → String
  | add => "Add"
  | sub => "Sub"
  | mul => "Mul"
  | div => "Div"
  | rem => "Rem"
  | and => "And"
  | or => "Or"
  | eq => "Eq"
  | ne => "Ne"
  | lt => "Lt"
  | le => "Le"
  | gt => "Gt"
  | ge => "Ge"

def UnaryOp.mnemonic : UnaryOp → String
  | neg => "Neg"
  | not => "Not"

def Intrinsic.mnemonic : Intrinsic → String
  | printInteger => "PrintInteger"
  | printBoolean => "PrintBool"
  | printString => "PrintString"
  | printFloat => "PrintFloat"
  | readInteger => "ReadInteger"
  | readFloat => "ReadFloat"
  | readString => "ReadString"
  | readBoolean => "ReadBool"

def Register.listing (r : Register) : String := wrap "Reg" (toString r.index.toNat)

def Label.listing (l : Label) : String := wrap "Label" (toString l.index.toNat)

def Operand.listing : Operand → String
  | absolute a => wrap "Absolute" a.text
  | indirect r => wrap "Register" r.listing

def Callee.listing : Callee → String
  | routine l => wrap "Routine" l.listing
  | intrinsic i => wrap "Intrinsic" i.mnemonic

def Instruction.listing (i : Instruction) : String :=
  fields i.opcode.mnemonic <|
    match i with
    | constant dst value => [("dst", dst.listing), ("value", value.text)]
    | copy dst src => [("dst", dst.listing), ("src", src.listing)]
    | label dst l => [("dst", dst.listing), ("label", l.listing)]
    | load dst address => [("dst", dst.listing), ("addr", address.listing)]
    | store address src => [("addr", address.listing), ("src", src.listing)]
    | loadFrame dst offset => [("dst", dst.listing), ("offset", offset.text)]
    | storeFrame offset src => [("offset", offset.text), ("src", src.listing)]
    | binary op dst lhs rhs =>
      [("op", op.mnemonic), ("dst", dst.listing), ("lhs", lhs.listing), ("rhs", rhs.listing)]
    | unary op dst src => [("op", op.mnemonic), ("dst", dst.listing), ("src", src.listing)]
    | push src => [("src", src.listing)]
    | pop dst => [("dst", dst.listing)]
    | status dst => [("dst", dst.listing)]

def Transfer.listing (t : Transfer) : String :=
  match t with
  | jump target => wrap t.opcode.mnemonic target.listing
  | branch condition ifZero otherwise =>
    fields t.opcode.mnemonic
      [("cond", condition.listing), ("if_zero", ifZero.listing), ("otherwise", otherwise.listing)]
  | jumpRegister r => wrap t.opcode.mnemonic r.listing
  | call callee argument resume =>
    fields t.opcode.mnemonic
      [("callee", callee.listing), ("arg", argument.listing), ("resume", resume.listing)]
  | ret none => fields t.opcode.mnemonic [("value", "None")]
  | ret (some r) => fields t.opcode.mnemonic [("value", wrap "Some" r.listing)]
  | halt => t.opcode.mnemonic

end WordMachine
