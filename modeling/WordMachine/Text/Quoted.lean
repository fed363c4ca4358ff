/-
Quoted text.

`Text.quoted` puts a text between double quotes. Quotes and backslashes get a backslash, the common
control characters their letter, and other control characters their code point in hexadecimal.
-/
import WordMachine.Text.Hex

namespace WordMachine.Text

/-- Whether a character is a control character without a letter of its own. -/
def isControl (c : Char) : Bool := c.toNat < 0x20 || (0x7F ≤ c.toNat && c.toNat < 0xA0)

/-- A character as it stands between quotes. -/
def escape (c : Char) : String :=
  if c = '"' then "\\\""
  else if c = '\\' then "\\\\"
  else if c = '\t' then "\\t"
  else if c = '\n' then "\\n"
  else if c = '\r' then "\\r"
  else if c.toNat = 0 then "\\0"
  else if isControl c then "\\u\x7b" ++ hexLower c.toNat ++ "\x7d"
  else c.toString

/-- A text between double quotes. -/
def quoted (cs : List Char) : String := "\"" ++ String.join (cs.map escape) ++ "\""

end WordMachine.Text
