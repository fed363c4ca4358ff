/-
Single-precision numbers.

A single-precision number is its 32-bit pattern: a sign bit, eight bits of exponent, 23 bits of
fraction. A word holds such a number by having the same 32 bits. Finite patterns stand for exact
rational numbers `± m * 2 ^ q` with natural `m` and integer `q`; no operation here rounds.
-/
import WordMachine.Word

namespace WordMachine

/-- A single-precision number, by its pattern. -/
structure Single where
  bits : UInt32
  deriving DecidableEq, Repr, Inhabited

namespace Single

/-- The number whose pattern a word holds. -/
def ofWord (w : Word) : Single := ⟨w.toUInt32⟩

/-- The word that holds a number's pattern. -/
def toWord (x : Single) : Word := x.bits.toInt32

/-- The number zero. -/
def zero : Single := ⟨0⟩

/-- Whether the sign bit is set. -/
def isNegative (x : Single) : Bool := 2147483648 ≤ x.bits.toNat

/-- The pattern without its sign bit. -/
def magnitude (x : Single) : Nat := x.bits.toNat % 2147483648

/-- The eight exponent bits. -/
def exponent (x : Single) : Nat := x.magnitude / 8388608

/-- The 23 fraction bits. -/
def fraction (x : Single) : Nat := x.magnitude % 8388608

/-- The magnitude of the infinities; larger magnitudes stand for no number. -/
def infinity : Nat := 2139095040

def isNaN (x : Single) : Bool := infinity < x.magnitude

def isInfinite (x : Single) : Bool := x.magnitude = infinity

def isFinite (x : Single) : Bool := x.magnitude < infinity

/-- The natural number `m` of a finite number `± m * 2 ^ (scale - 149)`. -/
def significand (x : Single) : Nat :=
  if x.exponent = 0 then x.fraction else x.fraction + 8388608

/-- The exponent of a finite number, counted from that of the least positive number. -/
def scale (x : Single) : Nat := x.exponent - 1

/-- The number with a magnitude and a sign. -/
def ofMagnitude (negative : Bool) (magnitude : Nat) : Single :=
  ⟨UInt32.ofNat (if negative then magnitude + 2147483648 else magnitude)⟩

@[simp]
theorem ofWord_toWord (x : Single) : ofWord x.toWord = x := by
  simp [ofWord, toWord]

@[simp]
theorem toWord_ofWord (w : Word) : (ofWord w).toWord = w := by
  simp [ofWord, toWord]

end Single

end WordMachine
