/-
Memory: a fixed number of words, addressed from zero.

An address is a word, so it can be negative; every access checks it. A string in memory is one
character per cell, ended by a zero cell.

* `Memory.load` and `Memory.store` access one cell.
* `Memory.readString` takes the low bytes of the cells up to the first zero.
* `Memory.writeString` checks both ends of the range before it writes anything.
-/
import WordMachine.Action

namespace WordMachine

/-- The memory of a machine. -/
structure Memory where
  cells : Array Word
  deriving DecidableEq, Repr, Inhabited

namespace Memory

/-- A memory of zero cells. -/
def ofSize (size : Nat) : Memory := ⟨Array.replicate size 0⟩

def size (m : Memory) : Nat := m.cells.size

/-- Whether an address names a cell. -/
def Inside (m : Memory) (address : Int) : Prop := 0 ≤ address ∧ address < m.size

instance (m : Memory) (address : Int) : Decidable (m.Inside address) :=
  inferInstanceAs (Decidable (_ ∧ _))

/-- The fault of an address that names no cell. -/
def missing (address : Int) : Fault := .outOfBounds .memory (Int64.ofInt address)

def load (address : Word) : Action Memory Word := fun m =>
  if m.Inside address.toInt then .ok (m.cells.getD address.toInt.toNat 0) m
  else .error (missing address.toInt) m

/-- The memory with a value put at an index. -/
def put (m : Memory) (index : Nat) (value : Word) : Memory :=
  ⟨m.cells.setIfInBounds index value⟩

def store (address value : Word) : Action Memory Unit := fun m =>
  if m.Inside address.toInt then .ok () (m.put address.toInt.toNat value)
  else .error (missing address.toInt) m

/-- The characters of a list of cells up to the first zero, if there is a zero. -/
def charactersOf : List Word → Option Bytes
  | [] => none
  | w :: cells => if w = 0 then some [] else (charactersOf cells).map (Word.lowByte w :: ·)

/-- The string that starts at an address. -/
def readString (address : Word) : Action Memory Bytes := fun m =>
  if m.Inside address.toInt then
    match charactersOf (m.cells.toList.drop address.toInt.toNat) with
    | some bytes => .ok bytes m
    | none => .error (.unterminatedString address) m
  else .error (missing address.toInt) m

/-- The memory with the bytes of a string, and a zero after them, put from an index on. -/
def putString (m : Memory) (index : Nat) : Bytes → Memory
  | [] => m.put index 0
  | b :: bytes => (m.put index (Word.ofByte b)).putString (index + 1) bytes

/-- Writes a string and gives the number of cells written. Both the first and the last cell must
exist; otherwise nothing is written. -/
def writeString (address : Word) (bytes : Bytes) : Action Memory Nat := fun m =>
  let last := address.toInt + bytes.length
  if ¬ m.Inside address.toInt then .error (missing address.toInt) m
  else if ¬ m.Inside last then .error (missing last) m
  else .ok (bytes.length + 1) (m.putString address.toInt.toNat bytes)

/-- Sets every cell to zero. -/
def clear (m : Memory) : Memory := ofSize m.size

/-! ### Writing keeps the size and the other cells -/

@[simp]
theorem size_ofSize (n : Nat) : (ofSize n).size = n := by
  simp [ofSize, size]

@[simp]
theorem size_put (m : Memory) (index : Nat) (value : Word) : (m.put index value).size = m.size := by
  simp [put, size]

@[simp]
theorem size_putString (m : Memory) (index : Nat) (bytes : Bytes) :
    (m.putString index bytes).size = m.size := by
  induction bytes generalizing m index with
  | nil => simp [putString]
  | cons b bytes ih => simp [putString, ih]

theorem getElem?_put_self {m : Memory} {index : Nat} (value : Word) (h : index < m.size) :
    (m.put index value).cells[index]? = some value := by
  simp only [size] at h
  simp [put, h]

theorem getElem?_put_of_ne {m : Memory} {index other : Nat} (value : Word) (h : index ≠ other) :
    (m.put index value).cells[other]? = m.cells[other]? := by
  simp [put, h]

/-- A string leaves the cells before it and after its terminator as they are. -/
theorem getElem?_putString_of_outside {m : Memory} {index other : Nat} {bytes : Bytes}
    (h : other < index ∨ index + bytes.length < other) :
    (m.putString index bytes).cells[other]? = m.cells[other]? := by
  induction bytes generalizing m index with
  | nil => exact getElem?_put_of_ne 0 (by simp at h; omega)
  | cons b bytes ih =>
    simp only [List.length_cons] at h
    rw [putString, ih (by omega), getElem?_put_of_ne _ (by omega)]

end Memory

end WordMachine
