/-
Running programs.

`Machine.drive` dispatches blocks until control leaves the program. A program need not end, so it
takes fuel, one unit a block, and says `none` when the fuel does not last; `drive_mono` says that an
answer that it does give is the answer for every larger amount of fuel.

* `Machine.resume` dispatches one block. `drive_eq` says that an execution is a repetition of it, so
  that it can also be made block by block, with other things done in between.
* `Machine.run` drives from the entry label, `Machine.call` makes a call on behalf of the host.
* Both flush the console at the end, whatever the end was, and a failing flush is then the outcome.
-/
import WordMachine.Machine.Step

namespace WordMachine

/-- How control left the program. -/
inductive Departure where
  | returned
  | halted
  deriving DecidableEq, Repr

namespace Machine

/-- Goes on from an outcome, block after block, at most as many as there is fuel. -/
def drive : Nat → Outcome Machine Flow → Option (Outcome Machine Departure)
  | 0, .ok (.next _) _ => none
  | fuel + 1, .ok (.next l) m => drive fuel (step l m)
  | _, .ok .returnToHost m => some (.ok .returned m)
  | _, .ok .halt m => some (.ok .halted m)
  | _, .error f m => some (.error f m)

@[simp]
theorem drive_succ_next (fuel : Nat) (l : Label) (m : Machine) :
    drive (fuel + 1) (.ok (.next l) m) = drive fuel (step l m) := rfl

@[simp]
theorem drive_returnToHost (fuel : Nat) (m : Machine) :
    drive fuel (.ok .returnToHost m) = some (.ok .returned m) := by
  cases fuel <;> rfl

@[simp]
theorem drive_halt (fuel : Nat) (m : Machine) :
    drive fuel (.ok .halt m) = some (.ok .halted m) := by
  cases fuel <;> rfl

@[simp]
theorem drive_error (fuel : Nat) (f : Fault) (m : Machine) :
    drive fuel (.error f m) = some (.error f m) := by
  cases fuel <;> rfl

/-- More fuel does not change an answer. -/
theorem drive_mono {fuel more : Nat} (h : fuel ≤ more) {o : Outcome Machine Flow}
    {r : Outcome Machine Departure} (hr : drive fuel o = some r) : drive more o = some r := by
  induction fuel generalizing more o with
  | zero =>
    rcases o with ⟨_ | _ | _, m⟩ | ⟨f, m⟩
    · cases hr
    · rw [drive_returnToHost] at hr ⊢
      exact hr
    · rw [drive_halt] at hr ⊢
      exact hr
    · rw [drive_error] at hr ⊢
      exact hr
  | succ fuel ih =>
    rcases o with ⟨l | _ | _, m⟩ | ⟨f, m⟩
    · obtain ⟨more, rfl⟩ : ∃ n, more = n + 1 := ⟨more - 1, by omega⟩
      rw [drive_succ_next] at hr ⊢
      exact ih (by omega) hr
    · rw [drive_returnToHost] at hr ⊢
      exact hr
    · rw [drive_halt] at hr ⊢
      exact hr
    · rw [drive_error] at hr ⊢
      exact hr

/-- Dispatches one block, if control has not left the program. -/
def resume : Outcome Machine Flow → Outcome Machine Flow
  | .ok (.next l) m => step l m
  | .ok .returnToHost m => .ok .returnToHost m
  | .ok .halt m => .ok .halt m
  | .error f m => .error f m

/-- Dispatches a number of blocks, or fewer if control leaves the program before. -/
def resumed : Nat → Outcome Machine Flow → Outcome Machine Flow
  | 0, o => o
  | n + 1, o => resumed n (resume o)

theorem drive_resume (fuel : Nat) (o : Outcome Machine Flow) :
    drive fuel (resume o) = drive (fuel + 1) o := by
  rcases o with ⟨_ | _ | _, m⟩ | ⟨f, m⟩ <;> simp [resume]

/-- **An execution goes on block by block**, and it is over when no more fuel is needed. -/
theorem drive_eq (fuel : Nat) (o : Outcome Machine Flow) :
    drive fuel o = drive 0 (resumed fuel o) := by
  induction fuel generalizing o with
  | zero => rfl
  | succ fuel ih => rw [resumed, ← ih, drive_resume]

/-- Flushes the console; if that succeeds, the outcome is the one so far. -/
def flushed {α : Type} : Outcome Machine α → Outcome Machine α
  | .ok a m =>
    match onConsole Console.flush m with
    | .ok () m => .ok a m
    | .error f m => .error f m
  | .error e m =>
    match onConsole Console.flush m with
    | .ok () m => .error e m
    | .error f m => .error f m

/-- The outcome of a run: it succeeds if the machine halted. -/
def runOutcome : Outcome Machine Departure → Outcome Machine Unit
  | .ok .halted m => .ok () m
  | .ok .returned m => .error (.invalidTarget hostReturn) m
  | .error f m => .error f m

/-- Runs the program from its entry until it halts. A machine that has halted stays so. -/
def run (fuel : Nat) (m : Machine) : Option (Outcome Machine Unit) :=
  if m.halted then some (.ok () m)
  else (drive fuel (.ok (.next m.program.entry) m)).map fun o => runOutcome (flushed o)

/-- **A run is the repetition of `resume` from the entry**, with a flush at its end. -/
theorem run_eq {m : Machine} (h : m.halted = false) (fuel : Nat) :
    m.run fuel =
      (drive 0 (resumed fuel (.ok (.next m.program.entry) m))).map fun o =>
        runOutcome (flushed o) := by
  rw [run, h, if_neg Bool.false_ne_true, drive_eq]

/-- The outcome of a host call: the record of the call, if it came back. -/
def callOutcome : Outcome Machine Departure → Outcome Machine CallRecord
  | .ok .returned m =>
    match m.lastCall with
    | some record => .ok record m
    | none => .error .halted m
  | .ok .halted m => .error .halted m
  | .error f m => .error f m

/-- The machine with one more host call in flight. -/
def beginCall (m : Machine) : Machine := { m with hostCalls := m.hostCalls + 1 }

/-- The machine with one host call fewer in flight. -/
def endCall (m : Machine) : Machine := { m with hostCalls := m.hostCalls - 1 }

/-- Calls a routine or an intrinsic from the host and runs until it returns. -/
def call (fuel : Nat) (callee : Callee) (argument : Word) (m : Machine) :
    Option (Outcome Machine CallRecord) :=
  (drive fuel (invoke callee argument hostReturn m.beginCall)).map fun o =>
    callOutcome (flushed (Outcome.within endCall o))

end Machine

end WordMachine
