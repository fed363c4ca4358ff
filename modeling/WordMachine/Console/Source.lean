/-
Reading tokens.

A source is a stream of bytes that arrives in segments; a segment can also be a failure. Tokens are
longest runs of bytes that are not blank. A token goes on across segments. An empty segment stands
for an end of the stream that holds until the next attempt to read: it ends a token, and where no
token has started there is none this time. After the last segment the stream has ended for good, so
every attempt to read comes to an end.

* `Source.nextToken` reads a token, or nothing at the end.
* A failure in the middle of a token loses what was read of it.
-/
import WordMachine.Action

namespace WordMachine

/-- A piece of a stream as it arrives. -/
inductive Segment where
  | bytes (bytes : Bytes)
  | failure (text : String)
  deriving DecidableEq, Repr

/-- A stream that is being read: the rest of the segment at hand and the segments to come. -/
structure Source where
  pending : Bytes := []
  coming : List Segment := []
  deriving DecidableEq, Repr, Inhabited

/-- Whether a byte separates tokens: blanks, tabs, line and page ends. -/
def isBlank (b : UInt8) : Bool := (9 ≤ b && b ≤ 13) || b = 32

namespace Source

/-- A stream of which nothing has been read. -/
def ofSegments (segments : List Segment) : Source := { coming := segments }

/-- Skips blank bytes, from the rest of the segment at hand on. It says whether a token starts;
if not, the stream has ended. -/
def skipBlanks (pending : Bytes) (coming : List Segment) : EStateM.Result Fault Source Bool :=
  match pending.dropWhile isBlank with
  | b :: rest => .ok true ⟨b :: rest, coming⟩
  | [] =>
    match coming with
    | [] => .ok false ⟨[], []⟩
    | .failure text :: coming => .error (.stream text) ⟨[], coming⟩
    | .bytes [] :: coming => .ok false ⟨[], coming⟩
    | .bytes (b :: rest) :: coming => skipBlanks (b :: rest) coming

/-- Takes the bytes up to the next blank one, from the rest of the segment at hand on, after those
of the token that were taken before. -/
def takeToken (taken pending : Bytes) (coming : List Segment) :
    EStateM.Result Fault Source Bytes :=
  let taken := taken ++ pending.takeWhile (!isBlank ·)
  match pending.dropWhile (!isBlank ·) with
  | b :: rest => .ok taken ⟨b :: rest, coming⟩
  | [] =>
    match coming with
    | [] => .ok taken ⟨[], []⟩
    | .failure text :: coming => .error (.stream text) ⟨[], coming⟩
    | .bytes [] :: coming => .ok taken ⟨[], coming⟩
    | .bytes (b :: rest) :: coming => takeToken taken (b :: rest) coming

/-- The next token, or nothing at the end of the stream. -/
def nextToken : Action Source (Option Bytes) := do
  let found ← fun s => skipBlanks s.pending s.coming
  if found then
    let token ← fun s => takeToken [] s.pending s.coming
    return some token
  else return none

end Source

end WordMachine
