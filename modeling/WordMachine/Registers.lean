/-
The register file: a fixed number of words, indexed from zero.

`Registers.get` and `Registers.set` fail on an index outside the file and then leave it as it is.
-/
import WordMachine.Action

namespace WordMachine

/-- The register file. -/
structure Registers where
  cells : Array Word
  deriving DecidableEq, Repr, Inhabited

namespace Registers

/-- A file of zero registers. -/
def ofSize (size : Nat) : Registers := ⟨Array.replicate size 0⟩

def size (r : Registers) : Nat := r.cells.size

def get (index : Nat) : Action Registers Word := fun r =>
  match r.cells[index]? with
  | some w => .ok w r
  | none => .error (.outOfBounds .register (Int64.ofNat index)) r

def set (index : Nat) (value : Word) : Action Registers Unit := fun r =>
  if index < r.cells.size then .ok () ⟨r.cells.setIfInBounds index value⟩
  else .error (.outOfBounds .register (Int64.ofNat index)) r

/-- Sets every register to zero. -/
def clear (r : Registers) : Registers := ofSize r.size

@[simp]
theorem size_ofSize (n : Nat) : (ofSize n).size = n := by
  simp [ofSize, size]

end Registers

end WordMachine
