/-
Reading values from tokens.

A read intrinsic turns the next token of the console into a word. What can go wrong without being a
fault of the machine is an `InputFailure`: there is no further token, or the token is not of the
kind asked for. A program sees it as the status of the call.
-/
import WordMachine.Frame.Record
import WordMachine.Single.Reader
import WordMachine.Text.Quoted
import WordMachine.Text.Utf8

namespace WordMachine

/-- The kind of value that a read asks for. -/
inductive InputKind where
  | integer
  | float
  | string
  | boolean
  deriving DecidableEq, Repr

def InputKind.name : InputKind → String
  | integer => "integer"
  | float => "float"
  | string => "string"
  | boolean => "boolean"

/-- Why a read gave no value. -/
inductive InputFailure where
  | format (token : Bytes) (expected : InputKind)
  | endOfInput
  deriving DecidableEq, Repr

namespace InputFailure

/-- The status of a call that failed in this way. -/
def status : InputFailure → Status
  | format .. => .inputFormat
  | endOfInput => .endOfInput

/-- A failure in words; the token is quoted. -/
def message : InputFailure → String
  | format token expected =>
    "cannot parse " ++ Text.quoted (Text.decodeLossy token) ++ " as " ++ expected.name
  | endOfInput => "end of input"

end InputFailure

namespace Input

/-- The bytes of the word for true. -/
def trueText : Bytes := [116, 114, 117, 101]

/-- The bytes of the word for false. -/
def falseText : Bytes := [102, 97, 108, 115, 101]

/-- A token as an integer. -/
def integer (token : Bytes) : Except InputFailure Word :=
  match Numeral.readInteger? token with
  | some w => .ok w
  | none => .error (.format token .integer)

/-- A token as a single-precision number. -/
def float (token : Bytes) : Except InputFailure Single :=
  match Single.read? token with
  | some x => .ok x
  | none => .error (.format token .float)

/-- A token as a truth value: one of the two words, or an integer that is or is not zero. -/
def boolean (token : Bytes) : Except InputFailure Word :=
  if token = trueText then .ok 1
  else if token = falseText then .ok 0
  else
    match Numeral.readInteger? token with
    | some w => .ok (Word.ofBool (w ≠ 0))
    | none => .error (.format token .boolean)

/-- A token as a string that memory can hold: it must not contain the terminator. -/
def string (token : Bytes) : Except InputFailure Bytes :=
  if token.contains 0 then .error (.format token .string) else .ok token

end Input

end WordMachine
