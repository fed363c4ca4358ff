/-
Machine words.

A word is a 32-bit integer in two's complement whose arithmetic wraps. It is the only value that
registers and memory hold: addresses, block labels, truth values, characters of a string and the
patterns of single-precision numbers are all kept as words.

* `Word.ofBool` gives the word of a truth value, `Word.lowByte` the byte that a word holds when it
  is a character.
* `signedSize` reads a 64-bit size as a signed number, which is how the stack compares sizes with
  addresses.
-/

namespace WordMachine

/-- The unit of storage and arithmetic: a 32-bit integer in two's complement. -/
abbrev Word := Int32

/-- Bytes, as images, strings and streams carry them. -/
abbrev Bytes := List UInt8

namespace Word

/-- The word of a truth value: one for true, zero for false. -/
def ofBool (b : Bool) : Word := if b then 1 else 0

/-- The character that a word holds: its low eight bits. -/
def lowByte (w : Word) : UInt8 := w.toUInt32.toUInt8

/-- The word of a character. -/
def ofByte (b : UInt8) : Word := b.toUInt32.toInt32

/-- The word of an integer, if the integer is in the range of words. -/
def ofInt? (n : Int) : Option Word :=
  if Int32.minValue.toInt ≤ n ∧ n ≤ Int32.maxValue.toInt then some (Int32.ofInt n) else none

/-- The sum of two words, if it is in the range of words. -/
def addExact? (a b : Word) : Option Word := ofInt? (a.toInt + b.toInt)

end Word

/-- A 64-bit size read as a signed number, so that sizes from `2 ^ 63` on count as negative. -/
def signedSize (n : UInt64) : Int := n.toInt64.toInt

end WordMachine
