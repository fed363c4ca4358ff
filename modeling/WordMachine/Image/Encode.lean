/-
Writing images.

An image is a program as bytes. Numbers are big-endian. In order: four bytes of magic number, a
version byte, the mask of the capabilities that the program needs, two reserved bytes, the entry
label, the data cells and the blocks, each list preceded by its length.

`Image.encode` writes the image of a program.
-/
import WordMachine.Program

namespace WordMachine.Image

/-- The four bytes that every image starts with. -/
def magic : Bytes := [0x57, 0x52, 0x45, 0x31]

/-- The version of the format. -/
def version : UInt8 := 1

/-- The length of the fixed part of an image, below which nothing in it is looked at. -/
def headerLength : Nat := 20

/-- A 16-bit number, high byte first. -/
def bytes16 (n : UInt16) : Bytes := [UInt8.ofNat (n.toNat / 256), UInt8.ofNat n.toNat]

/-- A 32-bit number, high byte first. -/
def bytes32 (n : UInt32) : Bytes :=
  [UInt8.ofNat (n.toNat / 16777216), UInt8.ofNat (n.toNat / 65536), UInt8.ofNat (n.toNat / 256),
    UInt8.ofNat n.toNat]

def wordBytes (w : Word) : Bytes := bytes32 w.toUInt32

/-- The length of a list, as a 32-bit number. -/
def countBytes (n : Nat) : Bytes := bytes32 (UInt32.ofNat n)

def registerBytes (r : Register) : Bytes := bytes16 r.index

def labelBytes (l : Label) : Bytes := bytes32 l.index

def operandBytes : Operand → Bytes
  | .absolute a => 0x00 :: wordBytes a
  | .indirect r => 0x01 :: registerBytes r

def calleeBytes : Callee → Bytes
  | .routine l => 0x00 :: labelBytes l
  | .intrinsic i => [0x01, i.id]

def returnBytes : Option Register → Bytes
  | none => [0x00]
  | some r => 0x01 :: registerBytes r

/-- The fields of an instruction, after its opcode. -/
def instructionFields : Instruction → Bytes
  | .constant dst value => registerBytes dst ++ wordBytes value
  | .copy dst src => registerBytes dst ++ registerBytes src
  | .label dst l => registerBytes dst ++ labelBytes l
  | .load dst address => registerBytes dst ++ operandBytes address
  | .store address src => operandBytes address ++ registerBytes src
  | .loadFrame dst offset => registerBytes dst ++ wordBytes offset
  | .storeFrame offset src => wordBytes offset ++ registerBytes src
  | .binary op dst lhs rhs =>
    op.tag :: (registerBytes dst ++ registerBytes lhs ++ registerBytes rhs)
  | .unary op dst src => op.tag :: (registerBytes dst ++ registerBytes src)
  | .push src => registerBytes src
  | .pop dst => registerBytes dst
  | .status dst => registerBytes dst

def instructionBytes (i : Instruction) : Bytes := i.opcode.tag :: instructionFields i

/-- The fields of a transfer, after its opcode. -/
def transferFields : Transfer → Bytes
  | .jump target => labelBytes target
  | .branch condition ifZero otherwise =>
    registerBytes condition ++ labelBytes ifZero ++ labelBytes otherwise
  | .jumpRegister r => registerBytes r
  | .call callee argument resume =>
    calleeBytes callee ++ registerBytes argument ++ labelBytes resume
  | .ret value => returnBytes value
  | .halt => []

def transferBytes (t : Transfer) : Bytes := t.opcode.tag :: transferFields t

def dataBytes (c : DataCell) : Bytes := wordBytes c.address ++ wordBytes c.value

def blockBytes (b : Block) : Bytes :=
  countBytes b.instructions.length ++ b.instructions.flatMap instructionBytes ++
    transferBytes b.transfer

/-- The image of a program. -/
def encode (p : Program) : Bytes :=
  magic ++ [version, p.required.mask, 0, 0] ++ labelBytes p.entry ++
    countBytes p.data.length ++ p.data.flatMap dataBytes ++
    countBytes p.blocks.size ++ p.blocks.toList.flatMap blockBytes

end WordMachine.Image
