/-
A host at work on a machine.

A session is a machine and the call records that the host has obtained from its store.
`Session.serve` answers a request: to run the program, to make a call, to reset the machine, or to
work on the store directly. Running takes fuel, as `Machine.run` does.
-/
import WordMachine.Machine.Run
import WordMachine.Session.Bench

namespace WordMachine

/-- A request to a machine. -/
inductive HostRequest where
  | run
  | call (callee : Callee) (argument : Word)
  | reset
  | direct (request : Request)
  deriving DecidableEq, Repr

/-- A machine and the call records obtained from its store. -/
structure Session where
  machine : Machine
  records : Array CallRecord := #[]
  deriving DecidableEq, Repr

namespace Session

/-- Runs an action on the world of the machine and the records. -/
def onBench {α : Type} (x : Action Bench α) : Action Session α :=
  x.focus (fun s => ⟨s.machine.toWorld, s.records⟩) fun b s =>
    { machine := { s.machine with toWorld := b.world }, records := b.records }

@[simp]
theorem onBench_apply {α : Type} (x : Action Bench α) (s : Session) :
    onBench x s =
      Outcome.within
        (fun b => { machine := { s.machine with toWorld := b.world }, records := b.records })
        (x ⟨s.machine.toWorld, s.records⟩) := rfl

/-- An outcome of the machine as an outcome of the session. -/
def ofMachine {α : Type} (records : Array CallRecord) (answer : α → Answer) :
    Outcome Machine α → Outcome Session Answer
  | .ok a m => .ok (answer a) { machine := m, records }
  | .error f m => .error f { machine := m, records }

/-- Answers a request. Without an answer the fuel did not last. -/
def serve (fuel : Nat) (request : HostRequest) (s : Session) :
    Option (Outcome Session Answer) :=
  match request with
  | .run => (s.machine.run fuel).map (ofMachine s.records fun _ => .done)
  | .call callee argument =>
    (s.machine.call fuel callee argument).map (ofMachine s.records .record)
  | .reset => some (ofMachine s.records (fun _ => .done) (Machine.reset s.machine))
  | .direct request => some (onBench (Bench.serve request) s)

end Session

end WordMachine
