/-
Printing single-precision numbers.

A finite number is printed with six decimals: its exact value, rounded to a multiple of a millionth
with ties to the even one. The sign bit alone decides about the minus sign, so negative zero and
negative numbers that round to zero have one too.
-/
import WordMachine.Numeral
import WordMachine.Single.Basic
import WordMachine.Single.Rounding

namespace WordMachine.Single

/-- The size of a finite number in millionths, rounded. -/
def millionths (x : Single) : Nat :=
  Rounding.nearestEven (x.significand * Nat.pow 2 x.scale * 1000000) (Nat.pow 2 149)

/-- A number of millionths in decimal: the whole part, a point and six digits. -/
def decimal (n : Nat) : Bytes :=
  Numeral.digits (n / 1000000) ++ 46 :: Numeral.paddedDigits 6 n

/-- The text of a number without its sign. -/
def unsignedText (x : Single) : Bytes :=
  if x.isNaN then [110, 97, 110]
  else if x.isInfinite then [105, 110, 102]
  else decimal x.millionths

/-- The text of a number. -/
def text (x : Single) : Bytes :=
  if x.isNegative then 45 :: x.unsignedText else x.unsignedText

end WordMachine.Single
