/-
Reading bytes as text.

`Text.decodeLossy` reads UTF-8. Where the bytes are not well formed, each longest part that could
still have become a character, or else the one byte that starts none, is replaced by the
replacement character, and reading goes on after it.
-/
import WordMachine.Word

namespace WordMachine.Text

/-- What the first byte of a character promises: how many bytes follow, the range of the first of
them, and the bits that it contributes. -/
structure Lead where
  tails : Nat
  low : UInt8 := 0x80
  high : UInt8 := 0xBF
  bits : Nat

/-- The promise of a byte, if a character can start with it. -/
def Lead.of? (b : UInt8) : Option Lead :=
  if b < 0x80 then some { tails := 0, bits := b.toNat }
  else if b < 0xC2 then none
  else if b < 0xE0 then some { tails := 1, bits := b.toNat - 0xC0 }
  else if b < 0xF0 then
    some { tails := 2, low := if b = 0xE0 then 0xA0 else 0x80,
           high := if b = 0xED then 0x9F else 0xBF, bits := b.toNat - 0xE0 }
  else if b < 0xF5 then
    some { tails := 3, low := if b = 0xF0 then 0x90 else 0x80,
           high := if b = 0xF4 then 0x8F else 0xBF, bits := b.toNat - 0xF0 }
  else none

/-- The bytes at the front that continue a character which still lacks some, the first of them
in a given range. -/
def takeTails : Nat → UInt8 → UInt8 → Bytes → Bytes
  | 0, _, _, _ => []
  | _, _, _, [] => []
  | n + 1, low, high, b :: rest =>
    if low ≤ b ∧ b ≤ high then b :: takeTails n 0x80 0xBF rest else []

/-- The character that stands for bytes that are not well formed. -/
def replacement : Char := '\uFFFD'

/-- The character of a complete byte sequence. -/
def characterOf (lead : Lead) (tails : Bytes) : Char :=
  Char.ofNat (tails.foldl (fun n b => n * 64 + (b.toNat - 0x80)) lead.bits)

/-- The characters of a byte string, with replacement characters where it is not well formed. -/
def decodeLossy : Bytes → List Char
  | [] => []
  | b :: rest =>
    match Lead.of? b with
    | none => replacement :: decodeLossy rest
    | some lead =>
      let tails := takeTails lead.tails lead.low lead.high rest
      let c := if tails.length = lead.tails then characterOf lead tails else replacement
      c :: decodeLossy (rest.drop tails.length)
termination_by bytes => bytes.length
decreasing_by
  all_goals simp only [List.length_cons, List.length_drop]; omega

end WordMachine.Text
