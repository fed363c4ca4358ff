/-
Reading single-precision numbers.

A numeral is an optional sign, digits with an optional point among, before or after them, and an
optional exponent. It stands for a rational number, and what is read is the single-precision number
nearest to it, with ties to the even pattern and with infinity beyond the largest finite one. The
words for infinity and for "not a number" are read too, in any mixture of cases.

* `Single.Numeral.parse?` is the grammar, `Single.nearest` the rounding.
* `Single.read?` puts them together.
-/
import WordMachine.Numeral
import WordMachine.Single.Basic
import WordMachine.Single.Rounding

namespace WordMachine.Single

/-- An unsigned decimal numeral: it stands for `mantissa * 10 ^ exponent`. -/
structure Numeral where
  mantissa : Nat
  exponent : Int
  deriving DecidableEq, Repr

namespace Numeral

open WordMachine.Numeral (isDigit digitValue value splitSign)

/-- The number of an exponent's digits. It stops growing at the first value that is not below
`65536`, since no further digit can change what is read. -/
def exponentValue (ds : Bytes) : Nat :=
  ds.foldl (fun n b => if n < 65536 then 10 * n + digitValue b else n) 0

/-- The exponent part of a numeral, which may be missing. -/
def exponent? : Bytes → Option Int
  | [] => some 0
  | b :: rest =>
    let (negative, ds) := splitSign rest
    if (b = 101 ∨ b = 69) ∧ ds ≠ [] ∧ ds.all isDigit then
      some (if negative then -(exponentValue ds : Int) else exponentValue ds)
    else none

/-- The digits after the point, which may be missing, and what follows them. -/
def splitFraction : Bytes → Bytes × Bytes
  | [] => ([], [])
  | b :: rest =>
    if b = 46 then (rest.takeWhile isDigit, rest.dropWhile isDigit) else ([], b :: rest)

/-- Reads a numeral: at least one digit before or after the point, and nothing left over. -/
def parse? (text : Bytes) : Option Numeral :=
  let whole := text.takeWhile isDigit
  let (fraction, rest) := splitFraction (text.dropWhile isDigit)
  if whole ++ fraction = [] then none
  else (exponent? rest).map fun e => ⟨value (whole ++ fraction), e - fraction.length⟩

/-- The numerator of the number that a numeral stands for. -/
def numerator (n : Numeral) : Nat := n.mantissa * Nat.pow 10 n.exponent.toNat

/-- The denominator of the number that a numeral stands for. -/
def denominator (n : Numeral) : Nat := Nat.pow 10 (-n.exponent).toNat

end Numeral

/-- The magnitude of the number nearest to `num / den`. In units of the least positive number the
quotient has `k + 24` binary digits, or fewer if `k` is zero, and is rounded to a multiple of
`2 ^ k`; a carry into a further digit gives the next exponent. -/
def nearest (num den : Nat) : Nat :=
  let n := num * Nat.pow 2 149
  let k := Nat.log2 (n / den) - 23
  min infinity (k * 8388608 + Rounding.nearestEven n (den * Nat.pow 2 k))

/-- The magnitude that stands for no number. -/
def nanMagnitude : Nat := 2143289344

/-- A byte with an ASCII capital letter made small. -/
def lowerCase (b : UInt8) : UInt8 := if 65 ≤ b ∧ b ≤ 90 then b + 32 else b

/-- The words for infinity and for "not a number". -/
def namedMagnitude? (text : Bytes) : Option Nat :=
  let word := text.map lowerCase
  if word = [110, 97, 110] then some nanMagnitude
  else if word = [105, 110, 102] then some infinity
  else if word = [105, 110, 102, 105, 110, 105, 116, 121] then some infinity
  else none

/-- The magnitude of an unsigned text. -/
def magnitude? (text : Bytes) : Option Nat :=
  match Numeral.parse? text with
  | some n => some (nearest n.numerator n.denominator)
  | none => namedMagnitude? text

/-- The number that a text stands for. -/
def read? (text : Bytes) : Option Single :=
  let (negative, rest) := WordMachine.Numeral.splitSign text
  (magnitude? rest).map (ofMagnitude negative)

end WordMachine.Single
