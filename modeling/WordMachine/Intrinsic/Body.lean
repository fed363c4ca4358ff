/-
The bodies of the intrinsics.

A body runs in its frame: it takes its argument from there, prints it or reads a token, and hands
back a completion. Printing can only end in a fault. A read whose token is missing or malformed
completes with a status that says so and with the value zero, and notes the failure.
-/
import WordMachine.Intrinsic.Input
import WordMachine.Single.Text
import WordMachine.World

namespace WordMachine

open World (onStore onConsole note)

/-- The text of a truth value. -/
def Word.booleanText (w : Word) : Bytes := if w ≠ 0 then Input.trueText else Input.falseText

namespace Intrinsic

/-- The next token. The console is flushed first, so that a prompt is visible. -/
def readToken : Action World (Except InputFailure Bytes) := do
  onConsole Console.flush
  let token ← onConsole Console.nextToken
  match token with
  | some token => return .ok token
  | none => return .error .endOfInput

/-- Stages a number that was read and gives the word that holds it. -/
def acceptFloat (token : Bytes) : Action World (Except InputFailure Word) :=
  match Input.float token with
  | .ok x => do
    onStore (Store.stageFloat x)
    return .ok x.toWord
  | .error e => return .error e

/-- Writes a string that was read to an address and gives the number of cells written. -/
def acceptString (address : Word) (token : Bytes) : Action World (Except InputFailure Word) :=
  match Input.string token with
  | .ok bytes => do
    let cells ← onStore (Store.writeString address bytes)
    return .ok (Int32.ofNat cells)
  | .error e => return .error e

/-- The completion of a read; a failure is noted. -/
def complete (i : Intrinsic) : Except InputFailure Word → Action World Completion
  | .ok value => return .ofValue value
  | .error e => do
    note fun _ => .readFailed i e
    return .failed e.status

/-- Reads a token and completes with what is made of it. -/
def read (i : Intrinsic) (accept : Bytes → Action World (Except InputFailure Word)) :
    Action World Completion := do
  match ← readToken with
  | .ok token =>
    let result ← accept token
    complete i result
  | .error e => complete i (.error e)

/-- Prints bytes. -/
def print (bytes : Bytes) : Action World Completion := do
  onConsole (Console.write bytes)
  return .unit

/-- Runs the body of an intrinsic in the active frame. -/
def body (i : Intrinsic) : Action World Completion := do
  let argument ← onStore (Store.frameLoad Frame.argumentOffset)
  match i with
  | printInteger => print (Numeral.integer argument.toInt)
  | printBoolean => print (Word.booleanText argument)
  | printString => do
    let bytes ← onStore (Store.readString argument)
    print bytes
  | printFloat => do
    onStore (Store.stageFloat (Single.ofWord argument))
    print (Single.ofWord argument).text
  | readInteger => read i fun token => return Input.integer token
  | readFloat => read i acceptFloat
  | readString => read i (acceptString argument)
  | readBoolean => read i fun token => return Input.boolean token

end Intrinsic

end WordMachine
