/-
Stores.

The store is all that a program computes with: the register file, memory, the stack pointer, the
frame pointer, and one scratch cell for a single-precision number. The stack lies in memory, so a
store into memory can overwrite it; that is allowed.

* `Store.push` and `Store.pop` move the stack pointer and then access the cell.
* `Store.frameAddress` adds an offset to the frame pointer and fails where the sum is no word.
* `Store.reset` brings back the store that `Store.ofConfig` built.
-/
import WordMachine.Memory
import WordMachine.Registers
import WordMachine.Single.Basic
import WordMachine.Stack

namespace WordMachine

/-- Registers, memory, stack pointer, frame pointer and scratch cell. -/
structure Store where
  registers : Registers
  memory : Memory
  stack : Stack
  fp : Word
  scratch : Single
  deriving DecidableEq, Repr, Inhabited

namespace Store

/-- The store of a configuration, all zero, with an empty stack. -/
def ofConfig (c : Config) : Except Fault Store :=
  match c.check with
  | .error f => .error f
  | .ok () =>
    let stack := Stack.ofCapacity c.growth (UInt64.ofNat c.memory)
    .ok ⟨.ofSize c.registers, .ofSize c.memory, stack, stack.initial, .zero⟩

/-! ### Parts of the store -/

variable {α : Type}

/-- Runs an action on the registers. -/
def onRegisters (x : Action Registers α) : Action Store α :=
  x.focus Store.registers fun r s => { s with registers := r }

/-- Runs an action on memory. -/
def onMemory (x : Action Memory α) : Action Store α :=
  x.focus Store.memory fun m s => { s with memory := m }

/-- Runs an action on the stack pointer. -/
def onStack (x : Action Stack α) : Action Store α :=
  x.focus Store.stack fun k s => { s with stack := k }

@[simp]
theorem onRegisters_apply (x : Action Registers α) (s : Store) :
    onRegisters x s = Outcome.within (fun r => { s with registers := r }) (x s.registers) := rfl

@[simp]
theorem onMemory_apply (x : Action Memory α) (s : Store) :
    onMemory x s = Outcome.within (fun m => { s with memory := m }) (x s.memory) := rfl

@[simp]
theorem onStack_apply (x : Action Stack α) (s : Store) :
    onStack x s = Outcome.within (fun k => { s with stack := k }) (x s.stack) := rfl

/-! ### Registers and memory -/

def register (index : Nat) : Action Store Word := onRegisters (Registers.get index)

def setRegister (index : Nat) (value : Word) : Action Store Unit :=
  onRegisters (Registers.set index value)

def load (address : Word) : Action Store Word := onMemory (Memory.load address)

def store (address value : Word) : Action Store Unit := onMemory (Memory.store address value)

def readString (address : Word) : Action Store Bytes := onMemory (Memory.readString address)

def writeString (address : Word) (bytes : Bytes) : Action Store Nat :=
  onMemory (Memory.writeString address bytes)

/-! ### The frame pointer -/

def setFp (fp : Word) : Action Store Unit := fun s => .ok () { s with fp }

/-- The address at an offset to the frame pointer. -/
def frameAddress (offset : Word) : Action Store Word := fun s =>
  match Word.addExact? s.fp offset with
  | some a => .ok a s
  | none => .error (Memory.missing (s.fp.toInt + offset.toInt)) s

def frameLoad (offset : Word) : Action Store Word := do
  let address ← frameAddress offset
  load address

def frameStore (offset value : Word) : Action Store Unit := do
  let address ← frameAddress offset
  store address value

/-! ### The stack -/

def sp (s : Store) : Word := s.stack.sp

def depth (s : Store) : Nat := s.stack.depth

def growth (s : Store) : Growth := s.stack.growth

def reserve (count : UInt64) : Action Store Word := onStack (Stack.reserve count)

def release (count : UInt64) : Action Store Unit := do
  let _ ← onStack (Stack.release count)

def push (value : Word) : Action Store Unit := do
  let slot ← onStack (Stack.reserve 1)
  store slot value

def pop : Action Store Word := do
  let slot ← onStack (Stack.release 1)
  load slot

/-! ### The scratch cell -/

/-- Puts a number into the scratch cell. -/
def stageFloat (x : Single) : Action Store Unit := fun s => .ok () { s with scratch := x }

/-- The store as it was built: all zero, with an empty stack. -/
def reset (s : Store) : Store where
  registers := s.registers.clear
  memory := s.memory.clear
  stack := s.stack.clear
  fp := s.stack.initial
  scratch := .zero

end Store

end WordMachine
