/-
Call records.

A call record follows one call through its life: the argument and return address with which it was
entered, the value and status that its body staged, and the phase that it is in.

* `CallRecord.advance` is the one way on: to the next phase, and to no other.
* `CallRecord.stage` hands over the result of a body; it is allowed in the body's phase only.
-/
import WordMachine.Action

namespace WordMachine

/-- How a call ended, apart from its value. -/
inductive Status where
  | ok
  /-- A token could not be read as the kind of value asked for. -/
  | inputFormat
  /-- There was no further token. -/
  | endOfInput
  deriving DecidableEq, Repr, Inhabited

/-- The word that a program sees for a status. -/
def Status.code : Status → Word
  | ok => 0
  | inputFormat => 1
  | endOfInput => 2

/-- What a body hands back. -/
structure Completion where
  value : Word := 0
  status : Status := .ok
  deriving DecidableEq, Repr

namespace Completion

/-- No result: the value is zero. -/
def unit : Completion := {}

def ofValue (value : Word) : Completion := { value }

/-- A failed read: the value is zero. -/
def failed (status : Status) : Completion := { status }

end Completion

/-- One call, with what is known of it so far. -/
structure CallRecord where
  argument : Word
  returnAddress : Word
  value : Word := 0
  status : Status := .ok
  phase : Phase := .inBody
  deriving DecidableEq, Repr, Inhabited

namespace CallRecord

/-- The record of a call whose frame is still to be laid down. -/
def fresh (argument returnAddress : Word) : CallRecord :=
  { argument, returnAddress, phase := .idle }

/-- The record in a phase, which must be the next one. -/
def advanced {σ : Type} (r : CallRecord) (phase : Phase) : Action σ CallRecord :=
  if r.phase.next? = some phase then pure { r with phase }
  else Action.fail (.phaseOrder r.phase phase)

/-- Moves on to a phase. -/
def advance (phase : Phase) : Action CallRecord Unit := do
  set (← (← get).advanced phase)

/-- Stages the result of a body. -/
def stage (completion : Completion) : Action CallRecord Unit := do
  advance .valueStaged
  modify fun r => { r with value := completion.value, status := completion.status }

variable {r : CallRecord} {phase : Phase}

theorem advanced_of_next {σ : Type} (h : r.phase.next? = some phase) :
    (r.advanced phase : Action σ CallRecord) = pure { r with phase } := if_pos h

theorem advance_of_next (h : r.phase.next? = some phase) :
    advance phase r = .ok () { r with phase } := by
  have hget : (get : Action CallRecord CallRecord) r = .ok r r := rfl
  rw [advance, Action.bind_of_ok hget, advanced_of_next h, pure_bind]
  rfl

theorem advance_of_not_next (h : r.phase.next? ≠ some phase) :
    advance phase r = .error (.phaseOrder r.phase phase) r := by
  have hrefused : r.advanced phase r = .error (.phaseOrder r.phase phase) r := by
    rw [advanced, if_neg h, Action.fail_apply]
  have hget : (get : Action CallRecord CallRecord) r = .ok r r := rfl
  rw [advance, Action.bind_of_ok hget, Action.bind_of_error hrefused]

/-- A result is staged where its phase comes next, and is refused elsewhere. -/
theorem stage_apply (completion : Completion) (r : CallRecord) :
    stage completion r =
      if r.phase.next? = some .valueStaged then
        .ok ()
          { r with value := completion.value, status := completion.status, phase := .valueStaged }
      else .error (.phaseOrder r.phase .valueStaged) r := by
  split
  · next h =>
    rw [stage, Action.bind_of_ok (advance_of_next h)]
    rfl
  · next h => rw [stage, Action.bind_of_error (advance_of_not_next h)]

end CallRecord

end WordMachine
