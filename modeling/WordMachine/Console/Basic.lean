/-
The console: a source that tokens are read from and a sink that bytes are written to.
-/
import WordMachine.Console.Sink
import WordMachine.Console.Source

namespace WordMachine

/-- The streams of a machine. -/
structure Console where
  source : Source := {}
  sink : Sink := {}
  deriving DecidableEq, Repr, Inhabited

namespace Console

variable {α : Type}

/-- Runs an action on the source. -/
def onSource (x : Action Source α) : Action Console α :=
  x.focus Console.source fun s c => { c with source := s }

/-- Runs an action on the sink. -/
def onSink (x : Action Sink α) : Action Console α :=
  x.focus Console.sink fun s c => { c with sink := s }

@[simp]
theorem onSource_apply (x : Action Source α) (c : Console) :
    onSource x c = Outcome.within (fun s => { c with source := s }) (x c.source) := rfl

@[simp]
theorem onSink_apply (x : Action Sink α) (c : Console) :
    onSink x c = Outcome.within (fun s => { c with sink := s }) (x c.sink) := rfl

def nextToken : Action Console (Option Bytes) := onSource Source.nextToken

def write (bytes : Bytes) : Action Console Unit := onSink (Sink.write bytes)

def flush : Action Console Unit := onSink Sink.flush

end Console

end WordMachine
