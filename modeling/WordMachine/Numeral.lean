/-
Decimal numerals.

Numbers are printed and read as bytes of ASCII text.

* `Numeral.digits` writes a natural number without leading zeros, `Numeral.paddedDigits` with a
  fixed number of digits, `Numeral.integer` an integer with a minus sign if it is negative.
* `Numeral.value` is the number that a run of digits stands for.
* `Numeral.readInteger?` reads an optional sign and at least one digit, nothing else, and refuses
  what is outside the range of words; `Numeral.readSize?` reads 64-bit sizes likewise.
-/
import WordMachine.Word

namespace WordMachine

namespace Numeral

/-- The ASCII digit of a number below ten. -/
def digit (n : Nat) : UInt8 := UInt8.ofNat (48 + n)

def isDigit (b : UInt8) : Bool := 48 ≤ b && b ≤ 57

/-- The number that an ASCII digit stands for. -/
def digitValue (b : UInt8) : Nat := b.toNat - 48

/-- A natural number in decimal, without leading zeros. -/
def digits (n : Nat) : Bytes :=
  if n < 10 then [digit n] else digits (n / 10) ++ [digit (n % 10)]
termination_by n
decreasing_by omega

/-- The last `width` decimal digits of a number, with leading zeros. -/
def paddedDigits : Nat → Nat → Bytes
  | 0, _ => []
  | width + 1, n => paddedDigits width (n / 10) ++ [digit (n % 10)]

/-- An integer in decimal: a minus sign if it is negative, then its digits. -/
def integer (n : Int) : Bytes :=
  if n < 0 then 45 :: digits n.natAbs else digits n.natAbs

/-- The number that a run of digits stands for. -/
def value (ds : Bytes) : Nat := ds.foldl (fun n b => 10 * n + digitValue b) 0

/-- Takes an optional sign off the front, and says whether it is a minus sign. -/
def splitSign : Bytes → Bool × Bytes
  | [] => (false, [])
  | b :: rest =>
    if b = 45 then (true, rest) else if b = 43 then (false, rest) else (false, b :: rest)

/-- The word that a text stands for: an optional sign and one or more digits, in range. -/
def readInteger? (text : Bytes) : Option Word :=
  let (negative, ds) := splitSign text
  if ds ≠ [] ∧ ds.all isDigit then
    Word.ofInt? (if negative then -(value ds : Int) else value ds)
  else none

/-- The 64-bit size that a text stands for: an optional plus sign and one or more digits. -/
def readSize? (text : Bytes) : Option Nat :=
  let (negative, ds) := splitSign text
  if negative = false ∧ ds ≠ [] ∧ ds.all isDigit ∧ value ds < UInt64.size then some (value ds)
  else none

/-! ### Digits and their value -/

theorem isDigit_digit {n : Nat} (h : n < 10) : isDigit (digit n) = true := by
  have hb : (digit n).toNat = 48 + n := by
    simp [digit]
    omega
  simp [isDigit, UInt8.le_iff_toNat_le, hb]
  omega

theorem digitValue_digit {n : Nat} (h : n < 10) : digitValue (digit n) = n := by
  simp [digitValue, digit]
  omega

theorem value_append_digit (ds : Bytes) (b : UInt8) :
    value (ds ++ [b]) = 10 * value ds + digitValue b := by
  simp [value, List.foldl_append]

theorem digits_ne_nil (n : Nat) : digits n ≠ [] := by
  rw [digits]
  split <;> simp

theorem all_isDigit_digits (n : Nat) : (digits n).all isDigit = true := by
  induction n using digits.induct with
  | case1 n h => simp [digits, h, isDigit_digit h]
  | case2 n h ih =>
    rw [digits, if_neg h]
    simp [isDigit_digit (Nat.mod_lt n (by omega : 0 < 10)), ih]

/-- The digits of a number stand for it. -/
theorem value_digits (n : Nat) : value (digits n) = n := by
  induction n using digits.induct with
  | case1 n h => simp [digits, h, value, digitValue_digit h]
  | case2 n h ih =>
    rw [digits, if_neg h, value_append_digit, ih,
      digitValue_digit (Nat.mod_lt n (by omega : 0 < 10))]
    omega

end Numeral

/-- The text of ASCII bytes. -/
def Text.ofAscii (bytes : Bytes) : String := String.ofList (bytes.map fun b => Char.ofNat b.toNat)

/-- A word in decimal. -/
def Word.text (w : Word) : String := Text.ofAscii (Numeral.integer w.toInt)

end WordMachine
