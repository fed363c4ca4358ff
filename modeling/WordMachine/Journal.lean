/-
The journal.

While it works the machine notes events: a block is dispatched, a frame is entered or left, an
intrinsic is called, a read fails. Each event has a severity, a subsystem that reports it, a message
and named fields.

* `Event.severity` orders events; `Severity.includes` says which ones a reader at some level sees.
* `Event.line` is the written form.
-/
import WordMachine.Instruction.Basic
import WordMachine.Intrinsic.Input

namespace WordMachine

/-- How much an event matters. -/
inductive Severity where
  | warn
  | debug
  | trace
  deriving DecidableEq, Repr

namespace Severity

def name : Severity → String
  | warn => "WARN"
  | debug => "DEBUG"
  | trace => "TRACE"

def rank : Severity → Nat
  | warn => 0
  | debug => 1
  | trace => 2

/-- Whether a reader at level `s` sees events of severity `t`: those at least as severe. -/
def includes (s t : Severity) : Bool := t.rank ≤ s.rank

end Severity

/-- The value of a field of an event. -/
inductive Field where
  | word (w : Word)
  | text (s : String)
  deriving DecidableEq, Repr

def Field.render : Field → String
  | word w => w.text
  | text s => s

/-- Something that happened. -/
inductive Event where
  /-- A block is about to run. -/
  | dispatch (label : Label) (sp fp : Word)
  | frameEntered (fp sp argument returnAddress : Word)
  /-- A frame was left; `fp` is the caller's frame pointer. -/
  | frameExited (fp sp value : Word)
  | intrinsicCalled (intrinsic : Intrinsic) (argument : Word)
  | readFailed (intrinsic : Intrinsic) (failure : InputFailure)
  /-- An image declares a capability that the host does not grant. -/
  | capabilityWithheld (capability : Capability)
  deriving DecidableEq, Repr

namespace Event

def severity : Event → Severity
  | dispatch .. => .trace
  | frameEntered .. => .debug
  | frameExited .. => .debug
  | intrinsicCalled .. => .debug
  | readFailed .. => .warn
  | capabilityWithheld .. => .warn

/-- The subsystem that reports an event. -/
def reporter : Event → String
  | dispatch .. => "wre::dispatch"
  | frameEntered .. => "wre::frame"
  | frameExited .. => "wre::frame"
  | intrinsicCalled .. => "wre::dispatch"
  | readFailed .. => "wre::intrinsic"
  | capabilityWithheld .. => "wre::commands::run"

def message : Event → String
  | dispatch .. => "dispatch"
  | frameEntered .. => "frame entered"
  | frameExited .. => "frame exited"
  | intrinsicCalled .. => "intrinsic call"
  | readFailed .. => "read failed"
  | capabilityWithheld .. => "image needs a capability that is withheld"

/-- The named fields of an event, in the order in which they are written. -/
def fields : Event → List (String × Field)
  | dispatch label sp fp => [("label", .text label.text), ("sp", .word sp), ("fp", .word fp)]
  | frameEntered fp sp argument returnAddress =>
    [("fp", .word fp), ("sp", .word sp), ("argument", .word argument),
      ("return_address", .word returnAddress)]
  | frameExited fp sp value => [("fp", .word fp), ("sp", .word sp), ("value", .word value)]
  | intrinsicCalled intrinsic argument =>
    [("intrinsic", .text intrinsic.name), ("argument", .word argument)]
  | readFailed intrinsic failure =>
    [("intrinsic", .text intrinsic.name), ("error", .text failure.message)]
  | capabilityWithheld capability => [("capability", .text capability.name)]

/-- An event in one line: severity, reporter, message, then the fields. -/
def line (e : Event) : String :=
  e.severity.name ++ " " ++ e.reporter ++ ": " ++
    " ".intercalate (e.message :: e.fields.map fun f => f.1 ++ "=" ++ f.2.render)

end Event

end WordMachine
