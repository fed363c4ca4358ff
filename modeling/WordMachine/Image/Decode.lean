/-
Reading images.

A decoder is an action on the bytes that are still to be read. It takes what it needs from their
front; if they run out, the image is too short. Whatever follows the last block is ignored.

`Image.decode` reads a program and the capability mask of its header. The magic number is looked at
before the version, both before anything else, and labels are checked once all blocks are read.
-/
import WordMachine.Action
import WordMachine.Image.Encode

namespace WordMachine

/-- What an image holds: a program and the capabilities that its header declares. -/
structure Image where
  program : Program
  declared : CapabilitySet
  deriving DecidableEq, Repr

namespace Image

/-- An action that takes bytes from the front of those still to be read. -/
abbrev Decoder (α : Type) := Action Bytes α

namespace Decoder

def byte : Decoder UInt8
  | [] => .error .imageTooShort []
  | b :: rest => .ok b rest

/-- A 16-bit number, high byte first. -/
def number16 : Decoder UInt16 := do
  let a ← byte
  let b ← byte
  return UInt16.ofNat (a.toNat * 256 + b.toNat)

/-- A 32-bit number, high byte first. -/
def number32 : Decoder UInt32 := do
  let a ← byte
  let b ← byte
  let c ← byte
  let d ← byte
  return UInt32.ofNat (a.toNat * 16777216 + b.toNat * 65536 + c.toNat * 256 + d.toNat)

def word : Decoder Word := return (← number32).toInt32

def register : Decoder Register := return ⟨← number16⟩

def label : Decoder Label := return ⟨← number32⟩

/-- What a tag byte stands for, or a fault that names the kind of tag expected. -/
def tagged {α : Type} (kind : TagKind) (ofTag? : UInt8 → Option α) : Decoder α := do
  let tag ← byte
  match ofTag? tag with
  | some a => return a
  | none => Action.fail (.badTag kind tag)

def operand : Decoder Operand := do
  let tag ← byte
  if tag = 0x00 then return .absolute (← word)
  else if tag = 0x01 then return .indirect (← register)
  else Action.fail (.badTag .operand tag)

def callee : Decoder Callee := do
  let tag ← byte
  if tag = 0x00 then return .routine (← label)
  else if tag = 0x01 then return .intrinsic (← tagged .intrinsic Intrinsic.ofId?)
  else Action.fail (.badTag .callee tag)

def returnValue : Decoder (Option Register) := do
  let tag ← byte
  if tag = 0x00 then return none
  else if tag = 0x01 then return some (← register)
  else Action.fail (.badTag .returnValue tag)

/-- An instruction; the opcode of a transfer is no opcode of an instruction. -/
def instruction : Decoder Instruction := do
  let tag ← byte
  match Opcode.ofTag? tag with
  | some .constant => return .constant (← register) (← word)
  | some .copy => return .copy (← register) (← register)
  | some .label => return .label (← register) (← label)
  | some .load => return .load (← register) (← operand)
  | some .store => return .store (← operand) (← register)
  | some .loadFrame => return .loadFrame (← register) (← word)
  | some .storeFrame => return .storeFrame (← word) (← register)
  | some .push => return .push (← register)
  | some .pop => return .pop (← register)
  | some .binary =>
    return .binary (← tagged .binaryOp BinaryOp.ofTag?) (← register) (← register) (← register)
  | some .unary => return .unary (← tagged .unaryOp UnaryOp.ofTag?) (← register) (← register)
  | some .status => return .status (← register)
  | _ => Action.fail (.badTag .instruction tag)

/-- A transfer; the opcode of an instruction is no opcode of a transfer. -/
def transfer : Decoder Transfer := do
  let tag ← byte
  match Opcode.ofTag? tag with
  | some .jump => return .jump (← label)
  | some .branch => return .branch (← register) (← label) (← label)
  | some .jumpRegister => return .jumpRegister (← register)
  | some .call => return .call (← callee) (← register) (← label)
  | some .ret => return .ret (← returnValue)
  | some .halt => return .halt
  | _ => Action.fail (.badTag .transfer tag)

/-- As many items as a number says. -/
def items {α : Type} (item : Decoder α) : Nat → Decoder (List α)
  | 0 => return []
  | n + 1 => do
    let a ← item
    let rest ← items item n
    return a :: rest

/-- A list preceded by its length. -/
def counted {α : Type} (item : Decoder α) : Decoder (List α) := do
  items item (← number32).toNat

def dataCell : Decoder DataCell := return ⟨← word, ← word⟩

def block : Decoder Block := return ⟨← counted instruction, ← transfer⟩

/-- The magic number and the version. -/
def signature : Decoder Unit := do
  let a ← byte
  let b ← byte
  let c ← byte
  let d ← byte
  if [a, b, c, d] = magic then
    let v ← byte
    if v = version then return () else Action.fail (.unknownVersion v)
  else Action.fail .badMagic

/-- A whole image. -/
def image : Decoder Image := do
  signature
  let mask ← byte
  let _reserved ← number16
  let entry ← label
  let data ← counted dataCell
  let blocks ← counted block
  let program ← Action.ofExcept (Program.ofBlocks entry blocks.toArray)
  return ⟨program.withData data, CapabilitySet.ofMask mask⟩

/-! ### Numbers are read back -/

theorem number16_bytes16 (n : UInt16) (rest : Bytes) :
    number16 (bytes16 n ++ rest) = .ok n rest := by
  have hn := n.toNat_lt
  have h : UInt16.ofNat
      ((UInt8.ofNat (n.toNat / 256)).toNat * 256 + (UInt8.ofNat n.toNat).toNat) = n := by
    apply UInt16.toNat_inj.mp
    simp
    omega
  exact congrArg (EStateM.Result.ok · rest) h

theorem number32_bytes32 (n : UInt32) (rest : Bytes) :
    number32 (bytes32 n ++ rest) = .ok n rest := by
  have hn := n.toNat_lt
  have h : UInt32.ofNat
      ((UInt8.ofNat (n.toNat / 16777216)).toNat * 16777216 +
        (UInt8.ofNat (n.toNat / 65536)).toNat * 65536 +
        (UInt8.ofNat (n.toNat / 256)).toNat * 256 + (UInt8.ofNat n.toNat).toNat) = n := by
    apply UInt32.toNat_inj.mp
    simp
    omega
  exact congrArg (EStateM.Result.ok · rest) h

end Decoder

/-- Reads an image. Fewer bytes than the fixed part has are too short, whatever they are. -/
def decode (bytes : Bytes) : Except Fault Image :=
  if bytes.length < headerLength then .error .imageTooShort
  else
    match Decoder.image bytes with
    | .ok image _ => .ok image
    | .error f _ => .error f

end Image

end WordMachine
