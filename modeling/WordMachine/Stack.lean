/-
The stack pointer.

The stack lives in memory. This module holds only its pointer: the stack pointer names the next
free slot, and the stack grows from its initial value up or down. Slots are taken with
`Stack.reserve` and given back with `Stack.release`; neither looks at what the slots hold.

Counts are 64-bit sizes. A reservation compares them with addresses as signed numbers, and a
reservation of a count that is not positive in that reading is not checked at all.
-/
import WordMachine.Action
import WordMachine.Config

namespace WordMachine

/-- A stack pointer with the range that it moves in. -/
structure Stack where
  sp : Word
  /-- The stack pointer of the empty stack. -/
  initial : Word
  growth : Growth
  /-- The number of memory cells. -/
  capacity : UInt64
  deriving DecidableEq, Repr, Inhabited

namespace Stack

/-- The stack pointer of the empty stack in a memory of some capacity. -/
def start : Growth → UInt64 → Word
  | .upward, _ => 0
  | .downward, capacity => capacity.toUInt32.toInt32 - 1

/-- The empty stack. -/
def ofCapacity (growth : Growth) (capacity : UInt64) : Stack where
  sp := start growth capacity
  initial := start growth capacity
  growth := growth
  capacity := capacity

/-- The number of slots in use. -/
def depth (s : Stack) : Nat := (s.sp - s.initial).toInt.natAbs

/-- Whether a slot is a memory cell. -/
def Inside (s : Stack) (slot : Int) : Prop := 0 ≤ slot ∧ slot < signedSize s.capacity

instance (s : Stack) (slot : Int) : Decidable (s.Inside slot) :=
  inferInstanceAs (Decidable (_ ∧ _))

/-- The lowest slot of a reservation of `n` slots. -/
def lowest (s : Stack) (n : Int) : Int :=
  match s.growth with
  | .upward => s.sp.toInt
  | .downward => s.sp.toInt - n + 1

/-- The highest slot of a reservation of `n` slots. -/
def highest (s : Stack) (n : Int) : Int :=
  match s.growth with
  | .upward => s.sp.toInt + n - 1
  | .downward => s.sp.toInt

/-- The stack pointer after a reservation of `n` slots. -/
def beyond (s : Stack) (n : Int) : Int :=
  match s.growth with
  | .upward => s.sp.toInt + n
  | .downward => s.sp.toInt - n

/-- The slot that a reservation of `n` slots reaches last. -/
def farthest (s : Stack) (n : Int) : Int :=
  match s.growth with
  | .upward => s.highest n
  | .downward => s.lowest n

/-- Whether a reservation may be made: a positive one needs memory cells for all its slots. -/
def Fits (s : Stack) (n : Int) : Prop := 0 < n → s.Inside (s.lowest n) ∧ s.Inside (s.highest n)

instance (s : Stack) (n : Int) : Decidable (s.Fits n) :=
  inferInstanceAs (Decidable (_ → _))

/-- Takes slots and gives the lowest of them. -/
def reserve (count : UInt64) : Action Stack Word := fun s =>
  let n := signedSize count
  if s.Fits n then .ok (Int32.ofInt (s.lowest n)) { s with sp := Int32.ofInt (s.beyond n) }
  else .error (.outOfBounds .stack (Int64.ofInt (s.farthest n))) s

/-- The slot just below the bottom of the stack. -/
def underground (s : Stack) : Int :=
  match s.growth with
  | .upward => s.initial.toInt - 1
  | .downward => s.initial.toInt + 1

/-- The stack pointer after giving back `n` slots. -/
def lowered (s : Stack) (n : Word) : Word :=
  match s.growth with
  | .upward => s.sp - n
  | .downward => s.sp + n

/-- Gives slots back and gives the new stack pointer, the slot given back last. -/
def release (count : UInt64) : Action Stack Word := fun s =>
  if s.depth < count.toNat then .error (.outOfBounds .stack (Int64.ofInt s.underground)) s
  else
    let sp := s.lowered count.toUInt32.toInt32
    .ok sp { s with sp }

/-- Empties the stack. -/
def clear (s : Stack) : Stack := { s with sp := s.initial }

end Stack

end WordMachine
