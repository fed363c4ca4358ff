/-
Programs.

A program is an entry label, a list of blocks and a list of data cells with which memory is filled
before the program starts. Every label that a program names must be the index of one of its blocks.

* `Program.ofBlocks` accepts blocks whose labels all exist and otherwise names the first that does
  not; data is added afterwards with `Program.withData` and `Program.withString`.
* `Program.block` and `Program.resolve` find a block by label and a label by word.
* `Program.required` is the set of capabilities that the program's calls ask for.
-/
import WordMachine.Instruction.Opcode

namespace WordMachine

/-- Instructions that run in order, then one transfer of control. -/
structure Block where
  instructions : List Instruction
  transfer : Transfer
  deriving DecidableEq, Repr

/-- The labels that a block names, in the order in which they stand in it. -/
def Block.references (b : Block) : List Label :=
  b.instructions.filterMap Instruction.label? ++ b.transfer.targets

/-- A value that a memory cell holds before the program starts. -/
structure DataCell where
  address : Word
  value : Word
  deriving DecidableEq, Repr

namespace DataCell

/-- The cells of a string: its bytes from an address on, and a zero. -/
def ofString : Word → Bytes → List DataCell
  | address, [] => [⟨address, 0⟩]
  | address, b :: bytes => ⟨address, Word.ofByte b⟩ :: ofString (address + 1) bytes

end DataCell

/-- Blocks, the label of the one that runs first, and data. -/
structure Program where
  entry : Label
  blocks : Array Block
  data : List DataCell
  deriving DecidableEq, Repr

namespace Program

/-- Whether a label is the index of a block. -/
def names (p : Program) (l : Label) : Bool := l.index.toNat < p.blocks.size

/-- The labels that a program names: its entry, then those of its blocks. -/
def references (p : Program) : List Label :=
  p.entry :: p.blocks.toList.flatMap Block.references

/-- The program of some blocks, without data. The first label that is not the index of a block
is a fault. -/
def ofBlocks (entry : Label) (blocks : Array Block) : Except Fault Program :=
  let p : Program := ⟨entry, blocks, []⟩
  match p.references.find? (!p.names ·) with
  | some l => .error (.unknownLabel l.index)
  | none => .ok p

/-- Appends data cells. -/
def withData (p : Program) (cells : List DataCell) : Program :=
  { p with data := p.data ++ cells }

/-- Appends the cells of a string. -/
def withString (p : Program) (address : Word) (bytes : Bytes) : Program :=
  p.withData (DataCell.ofString address bytes)

/-- The block of a label. -/
def block (p : Program) (l : Label) : Except Fault Block :=
  match p.blocks[l.index.toNat]? with
  | some b => .ok b
  | none => .error (.unknownLabel l.index)

/-- The label that a word stands for. -/
def resolve (p : Program) (w : Word) : Except Fault Label :=
  if 0 ≤ w.toInt ∧ w.toInt < p.blocks.size then .ok ⟨w.toUInt32⟩ else .error (.invalidTarget w)

/-- The intrinsics that the blocks of a program call. -/
def intrinsics (p : Program) : List Intrinsic :=
  p.blocks.toList.filterMap (·.transfer.intrinsic?)

/-- The capabilities that the calls of a program ask for. -/
def required (p : Program) : CapabilitySet :=
  CapabilitySet.ofList (p.intrinsics.flatMap Intrinsic.needs)

end Program

end WordMachine
