/-
One block.

Control is at a label. `Machine.step` dispatches the block of that label: it counts the step, checks
the limit, runs the instructions in order and then the transfer, which says where control goes.

* `Machine.execute` runs an instruction. It takes its operands before it changes anything, except
  that a pop has moved the stack pointer before the destination register is looked at.
* `Machine.invoke` enters a frame for a callee. The body of an intrinsic runs at once and leaves its
  frame again; a routine goes on at its label.
* `Machine.finish` leaves a frame. The return address of a frame that the host entered is
  `hostReturn`, which names no block.
-/
import WordMachine.Intrinsic.Body
import WordMachine.Machine.Basic

namespace WordMachine

/-- Where control goes after a block. -/
inductive Flow where
  | next (label : Label)
  /-- Back to the host, from a call that it made. -/
  | returnToHost
  | halt
  deriving DecidableEq, Repr

namespace Machine

/-- The return address of a frame that the host entered. -/
def hostReturn : Word := -1

/-- The word in a register. -/
def fetch (r : Register) : Action Machine Word := onStore (Store.register r.index.toNat)

/-- Puts a word into a register. -/
def assign (r : Register) (value : Word) : Action Machine Unit :=
  onStore (Store.setRegister r.index.toNat value)

/-- The address of an operand. -/
def address : Operand → Action Machine Word
  | .absolute a => return a
  | .indirect r => fetch r

/-- The status code of the call that completed last, or zero. -/
def statusCode (m : Machine) : Word :=
  match m.lastCall with
  | some call => call.status.code
  | none => 0

/-- Runs an instruction. -/
def execute : Instruction → Action Machine Unit
  | .constant dst value => assign dst value
  | .copy dst src => do
    let value ← fetch src
    assign dst value
  | .label dst l => assign dst l.toWord
  | .load dst operand => do
    let a ← address operand
    let value ← onStore (Store.load a)
    assign dst value
  | .store operand src => do
    let a ← address operand
    let value ← fetch src
    onStore (Store.store a value)
  | .loadFrame dst offset => do
    let value ← onStore (Store.frameLoad offset)
    assign dst value
  | .storeFrame offset src => do
    let value ← fetch src
    onStore (Store.frameStore offset value)
  | .binary op dst lhs rhs => do
    let a ← fetch lhs
    let b ← fetch rhs
    let value ← Action.ofExcept (op.apply a b)
    assign dst value
  | .unary op dst src => do
    let a ← fetch src
    assign dst (op.apply a)
  | .push src => do
    let value ← fetch src
    onStore (Store.push value)
  | .pop dst => do
    let value ← onStore Store.pop
    assign dst value
  | .status dst => fun m => assign dst m.statusCode m

/-- Runs instructions in order, up to the first fault. -/
def executeAll : List Instruction → Action Machine Unit
  | [] => return ()
  | i :: rest => do
    execute i
    executeAll rest

/-- Control goes to the label that a word stands for. -/
def goTo (target : Word) : Action Machine Flow := fun m =>
  match m.program.resolve target with
  | .ok l => .ok (.next l) m
  | .error f => .error f m

/-- Leaves the frame of a call and remembers the call as the last one. -/
def leave (record : CallRecord) : Action Machine Word := do
  let (returnAddress, record) ← onWorld (World.leaveFrame record)
  modify fun m => { m with lastCall := some record }
  return returnAddress

/-- Leaves the frame of a call and goes to its return address. -/
def finish (record : CallRecord) : Action Machine Flow := do
  let returnAddress ← leave record
  let m ← get
  if returnAddress = hostReturn ∧ 0 < m.hostCalls then return .returnToHost
  else goTo returnAddress

/-- Stages a completion on a record and leaves the frame. -/
def completeCall (record : CallRecord) (completion : Completion) : Action Machine Flow :=
  match CallRecord.stage completion record with
  | .ok () record => finish record
  | .error f _ => Action.fail f

/-- Refuses a routine that does not exist and an intrinsic that the host does not allow. -/
def permit (callee : Callee) : Action Machine Unit := fun m =>
  match callee with
  | .routine l => Action.ofExcept ((m.program.block l).map fun _ => ()) m
  | .intrinsic i => Action.ofExcept (m.config.capabilities.check i) m

/-- Calls a callee. -/
def invoke (callee : Callee) (argument returnAddress : Word) : Action Machine Flow := do
  permit callee
  let record ← onWorld (World.enterFrame argument returnAddress)
  match callee with
  | .routine l => return .next l
  | .intrinsic i => do
    onWorld (World.note fun _ => .intrinsicCalled i argument)
    let completion ← onWorld i.body
    completeCall record completion

/-- The completion of a return: the word in a register, or no result. -/
def returned : Option Register → Action Machine Completion
  | some r => do
    let value ← fetch r
    return .ofValue value
  | none => return .unit

/-- Runs a transfer. -/
def follow : Transfer → Action Machine Flow
  | .jump target => return .next target
  | .branch condition ifZero otherwise => do
    let value ← fetch condition
    return .next (if value = 0 then ifZero else otherwise)
  | .jumpRegister r => do
    let target ← fetch r
    goTo target
  | .call callee argument resume => do
    let value ← fetch argument
    invoke callee value resume.toWord
  | .ret value => do
    let record ← onStore Frame.active
    let completion ← returned value
    completeCall record completion
  | .halt => fun m => .ok .halt { m with halted := true }

/-- Counts a step and refuses it if the count is then beyond the limit. -/
def count : Action Machine Unit := fun m =>
  let m := { m with steps := m.steps + 1 }
  match m.config.stepLimit with
  | some limit => if limit < m.steps then .error (.stepLimit limit) m else .ok () m
  | none => .ok () m

/-- Dispatches the block of a label. -/
def step (label : Label) : Action Machine Flow := do
  count
  onWorld (World.note fun s => .dispatch label s.sp s.fp)
  let m ← get
  let block ← Action.ofExcept (m.program.block label)
  executeAll block.instructions
  follow block.transfer

end Machine

end WordMachine
