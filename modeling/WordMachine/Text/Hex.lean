/-
Hexadecimal text.

* `Text.hexByte` writes a byte as two upper-case digits, as tags and masks are shown.
* `Text.hexLower` writes a number in lower-case digits without leading zeros, as the escapes of a
  quoted text show a code point.
-/

namespace WordMachine.Text

/-- The upper-case hexadecimal digit of a number below sixteen. -/
def hexDigit (n : Nat) : Char := (Nat.digitChar n).toUpper

/-- A byte as two upper-case hexadecimal digits. -/
def hexByte (b : UInt8) : String :=
  String.ofList [hexDigit (b.toNat / 16), hexDigit (b.toNat % 16)]

/-- A number in lower-case hexadecimal digits, without leading zeros. -/
def hexLower (n : Nat) : String := String.ofList (Nat.toDigits 16 n)

end WordMachine.Text
