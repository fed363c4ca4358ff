/-
Control, one move at a time.

`Machine.step` runs a whole block.  Here a block is cut into moves: an instruction is run, a frame
is entered, the body of an intrinsic runs, a frame is left, control goes to a return address.
`Control` is what is left to do of a block.

* `Machine.advance` makes one move;
* `Control.flow` says in the words of `Machine.step` what the rest of a block does, and
  `flow_eq_advance` that a move keeps it;
* `Machine.pursue` makes moves until control leaves the program, and `drive_iff_pursue` says that
  it ends as `Machine.drive` does.

Properties of what happens inside a block are stated about moves, and come back to `Machine.run` and
`Machine.call` through `run_iff_pursue` and `call_iff_pursue`.
-/
import WordMachine.Machine.Run
import WordMachine.Proofs.Effects

namespace WordMachine

/-- Who enters a frame. -/
inductive Caller where
  | host
  /-- A call transfer that goes on at `resume`. -/
  | block (resume : Label)
  deriving DecidableEq, Repr

/-- The word that a caller leaves in the frame as the address to return to. -/
def Caller.returnAddress : Caller → Word
  | host => Machine.hostReturn
  | block resume => resume.toWord

/-- What is left to do before the next block is dispatched. -/
inductive Control where
  /-- The block of a label is to be dispatched. -/
  | dispatch (label : Label)
  /-- Instructions are to be run, then a transfer. -/
  | inside (rest : List Instruction) (transfer : Transfer)
  | entering (callee : Callee) (argument : Word) (caller : Caller)
  /-- The body of an intrinsic is to be run in the frame that was entered for it. -/
  | serving (intrinsic : Intrinsic) (argument : Word) (record : CallRecord)
  | leaving (record : CallRecord) (completion : Completion)
  /-- A frame was left, and control goes to the address that it held. -/
  | landing (address : Word)
  | gone (departure : Departure)
  deriving DecidableEq, Repr

/-- Where control is after a block. -/
def Flow.control : Flow → Control
  | next l => .dispatch l
  | returnToHost => .gone .returned
  | halt => .gone .halted

namespace Machine

/-- Stages a completion on a record and leaves the frame. -/
def vacate (record : CallRecord) (completion : Completion) : Action Machine Word :=
  match CallRecord.stage completion record with
  | .ok () record => leave record
  | .error f _ => Action.fail f

/-- Goes to a return address. -/
def land (address : Word) : Action Machine Flow := do
  let m ← get
  if address = hostReturn ∧ 0 < m.hostCalls then return .returnToHost
  else goTo address

/-- Makes one move. -/
def advance : Control → Action Machine Control
  | .dispatch l => do
    count
    onWorld (World.note fun s => .dispatch l s.sp s.fp)
    let m ← get
    let block ← Action.ofExcept (m.program.block l)
    return .inside block.instructions block.transfer
  | .inside (i :: rest) t => do
    execute i
    return .inside rest t
  | .inside [] (.jump target) => return .dispatch target
  | .inside [] (.branch condition ifZero otherwise) => do
    let value ← fetch condition
    return .dispatch (if value = 0 then ifZero else otherwise)
  | .inside [] (.jumpRegister r) => do
    let target ← fetch r
    let flow ← goTo target
    return flow.control
  | .inside [] (.call callee argument resume) => do
    let value ← fetch argument
    return .entering callee value (.block resume)
  | .inside [] (.ret value) => do
    let record ← onStore Frame.active
    let completion ← returned value
    return .leaving record completion
  | .inside [] .halt => fun m => .ok (.gone .halted) { m with halted := true }
  | .entering callee argument caller => do
    permit callee
    let record ← onWorld (World.enterFrame argument caller.returnAddress)
    match callee with
    | .routine l => return .dispatch l
    | .intrinsic i => return .serving i argument record
  | .serving i argument record => do
    onWorld (World.note fun _ => .intrinsicCalled i argument)
    let completion ← onWorld i.body
    return .leaving record completion
  | .leaving record completion => do
    let address ← vacate record completion
    return .landing address
  | .landing address => do
    let flow ← land address
    return flow.control
  | .gone d => return .gone d

end Machine

namespace Control

open Machine

/-- What the rest of a block does. -/
def flow : Control → Action Machine Flow
  | dispatch l => return .next l
  | inside rest t => do
    executeAll rest
    follow t
  | entering callee argument caller => invoke callee argument caller.returnAddress
  | serving i argument record => do
    onWorld (World.note fun _ => .intrinsicCalled i argument)
    let completion ← onWorld i.body
    completeCall record completion
  | leaving record completion => completeCall record completion
  | landing address => land address
  | gone .returned => return .returnToHost
  | gone .halted => return .halt

/-- Whether a block is under way. -/
def Running : Control → Prop
  | dispatch _ => False
  | gone _ => False
  | _ => True

/-- A bound on the moves that are left of a block. -/
def rank : Control → Nat
  | dispatch _ => 0
  | inside rest _ => rest.length + 5
  | entering .. => 4
  | serving .. => 3
  | leaving .. => 2
  | landing _ => 1
  | gone _ => 0

@[simp]
theorem flow_dispatch (l : Label) : (dispatch l).flow = pure (.next l) := rfl

@[simp]
theorem flow_inside (rest : List Instruction) (t : Transfer) :
    (inside rest t).flow = executeAll rest >>= fun _ => follow t := rfl

@[simp]
theorem flow_entering (callee : Callee) (argument : Word) (caller : Caller) :
    (entering callee argument caller).flow = invoke callee argument caller.returnAddress := rfl

@[simp]
theorem flow_leaving (record : CallRecord) (completion : Completion) :
    (leaving record completion).flow = completeCall record completion := rfl

@[simp]
theorem flow_landing (address : Word) : (landing address).flow = land address := rfl

@[simp]
theorem flow_control (f : Flow) : f.control.flow = pure f := by
  cases f <;> rfl

end Control

namespace Machine

open Control (flow)

/-! ### Moves make up blocks -/

theorem completeCall_eq (record : CallRecord) (completion : Completion) :
    completeCall record completion = vacate record completion >>= land := by
  rw [completeCall, vacate]
  cases CallRecord.stage completion record with
  | ok u r => rfl
  | error f r => rfl

/-- A move does not change what the rest of a block does. -/
theorem flow_eq_advance {c : Control} (hc : c.Running) : c.flow = advance c >>= flow := by
  cases c with
  | dispatch l => exact hc.elim
  | inside rest t =>
    cases rest with
    | cons i rest => simp [advance, executeAll]
    | nil =>
      cases t with
      | call callee argument resume => simp [advance, executeAll, follow, Caller.returnAddress]
      | halt => rfl
      | _ => simp [advance, executeAll, follow]
  | entering callee argument caller =>
    cases callee with
    | routine l => simp [advance, invoke]
    | intrinsic i => simp [advance, invoke, flow]
  | serving i argument record => simp [advance, flow]
  | leaving record completion => simp [advance, completeCall_eq]
  | landing address => simp [advance]
  | gone d => exact hc.elim

theorem step_eq_advance (l : Label) : step l = advance (.dispatch l) >>= flow := by
  simp [step, advance]

/-! ### What a move can be -/

theorem onWorld_eq_ok {α : Type} {x : Action World α} {a : α} {m m' : Machine} :
    onWorld x m = .ok a m' ↔ ∃ w, x m.toWorld = .ok a w ∧ m' = { m with toWorld := w } := by
  rw [onWorld_apply, Outcome.within_eq_ok]
  simp only [eq_comm]

theorem onStore_eq_ok {α : Type} {x : Action Store α} {a : α} {m m' : Machine} :
    onStore x m = .ok a m' ↔ ∃ s, x m.store = .ok a s ∧ m' = { m with store := s } := by
  rw [onStore, onWorld_eq_ok]
  constructor
  · rintro ⟨w, hw, rfl⟩
    obtain ⟨s, hs, rfl⟩ := Outcome.within_eq_ok.mp hw
    exact ⟨s, hs, rfl⟩
  · rintro ⟨s, hs, rfl⟩
    exact ⟨_, Outcome.within_eq_ok.mpr ⟨s, hs, rfl⟩, rfl⟩

theorem fetch_eq_ok {r : Register} {v : Word} {m m' : Machine} :
    fetch r m = .ok v m' ↔ m.store.registers.cells[r.index.toNat]? = some v ∧ m = m' := by
  rw [fetch, onStore_eq_ok]
  constructor
  · rintro ⟨s, hs, rfl⟩
    obtain ⟨hv, rfl⟩ := Store.register_eq_ok.mp hs
    exact ⟨hv, rfl⟩
  · rintro ⟨hv, rfl⟩
    exact ⟨m.store, Store.register_eq_ok.mpr ⟨hv, rfl⟩, rfl⟩

theorem goTo_eq_ok {target : Word} {f : Flow} {m m' : Machine} :
    goTo target m = .ok f m' ↔ ∃ l, m.program.resolve target = .ok l ∧ .next l = f ∧ m = m' := by
  rw [goTo]
  cases m.program.resolve target with
  | ok l => simp
  | error f => simp

/-- Reading the record of the running body changes nothing. -/
theorem active_eq_ok {record : CallRecord} {m m' : Machine}
    (h : onStore Frame.active m = .ok record m') : m = m' := by
  obtain ⟨s, hs, rfl⟩ := onStore_eq_ok.mp h
  obtain ⟨_, t, harg, hs⟩ := Action.bind_eq_ok.mp hs
  obtain ⟨_, u, hret, hs⟩ := Action.bind_eq_ok.mp hs
  obtain ⟨-, rfl⟩ := Store.read?_of_frameLoad harg
  obtain ⟨-, rfl⟩ := Store.read?_of_frameLoad hret
  cases hs
  rfl

theorem returned_eq_ok {value : Option Register} {completion : Completion} {m m' : Machine}
    (h : returned value m = .ok completion m') : m = m' := by
  cases value with
  | none =>
    cases h
    rfl
  | some r =>
    obtain ⟨v, _, hfetch, h⟩ := Action.bind_eq_ok.mp h
    obtain ⟨-, rfl⟩ := fetch_eq_ok.mp hfetch
    exact (Action.pure_eq_ok.mp h).2

/-- The machine after the block of a label was dispatched. -/
def dispatched (m : Machine) (l : Label) : Machine :=
  { m with
    steps := m.steps + 1
    journal := m.journal.push (.dispatch l m.store.sp m.store.fp) }

/-- The rules of control: the moves that succeed. -/
inductive Move : Control → Machine → Control → Machine → Prop
  | dispatch {l : Label} {b : Block} {m : Machine}
      (hlimit : ∀ limit, m.config.stepLimit = some limit → m.steps + 1 ≤ limit)
      (hblock : m.program.block l = .ok b) :
      Move (.dispatch l) m (.inside b.instructions b.transfer) (m.dispatched l)
  | execute {i : Instruction} {rest : List Instruction} {t : Transfer} {m m' : Machine}
      (h : execute i m = .ok () m') : Move (.inside (i :: rest) t) m (.inside rest t) m'
  | jump {target : Label} {m : Machine} : Move (.inside [] (.jump target)) m (.dispatch target) m
  | branch {r : Register} {ifZero otherwise : Label} {v : Word} {m : Machine}
      (hv : m.store.registers.cells[r.index.toNat]? = some v) :
      Move (.inside [] (.branch r ifZero otherwise)) m
        (.dispatch (if v = 0 then ifZero else otherwise)) m
  | jumpRegister {r : Register} {v : Word} {l : Label} {m : Machine}
      (hv : m.store.registers.cells[r.index.toNat]? = some v)
      (hl : m.program.resolve v = .ok l) : Move (.inside [] (.jumpRegister r)) m (.dispatch l) m
  | call {callee : Callee} {r : Register} {resume : Label} {v : Word} {m : Machine}
      (hv : m.store.registers.cells[r.index.toNat]? = some v) :
      Move (.inside [] (.call callee r resume)) m (.entering callee v (.block resume)) m
  | ret {value : Option Register} {record : CallRecord} {completion : Completion} {m : Machine}
      (hrecord : onStore Frame.active m = .ok record m)
      (hvalue : returned value m = .ok completion m) :
      Move (.inside [] (.ret value)) m (.leaving record completion) m
  | halt {m : Machine} : Move (.inside [] .halt) m (.gone .halted) { m with halted := true }
  | enterRoutine {l : Label} {b : Block} {argument : Word} {caller : Caller} {record : CallRecord}
      {m m' : Machine} (hblock : m.program.block l = .ok b)
      (henter : onWorld (World.enterFrame argument caller.returnAddress) m = .ok record m') :
      Move (.entering (.routine l) argument caller) m (.dispatch l) m'
  | enterIntrinsic {i : Intrinsic} {argument : Word} {caller : Caller} {record : CallRecord}
      {m m' : Machine} (hallowed : m.config.capabilities.allows i = true)
      (henter : onWorld (World.enterFrame argument caller.returnAddress) m = .ok record m') :
      Move (.entering (.intrinsic i) argument caller) m (.serving i argument record) m'
  | serve {i : Intrinsic} {argument : Word} {record : CallRecord} {completion : Completion}
      {m m' : Machine}
      (hbody : onWorld i.body { m with journal := m.journal.push (.intrinsicCalled i argument) } =
        .ok completion m') :
      Move (.serving i argument record) m (.leaving record completion) m'
  | leave {record : CallRecord} {completion : Completion} {address : Word} {m m' : Machine}
      (h : vacate record completion m = .ok address m') :
      Move (.leaving record completion) m (.landing address) m'
  | landHost {address : Word} {m : Machine} (haddress : address = hostReturn)
      (hhost : 0 < m.hostCalls) : Move (.landing address) m (.gone .returned) m
  | landBlock {address : Word} {l : Label} {m : Machine}
      (haddress : ¬ (address = hostReturn ∧ 0 < m.hostCalls))
      (hl : m.program.resolve address = .ok l) : Move (.landing address) m (.dispatch l) m
  | stay {d : Departure} {m : Machine} : Move (.gone d) m (.gone d) m

theorem count_eq_ok {m m' : Machine} :
    count m = .ok () m' ↔
      (∀ limit, m.config.stepLimit = some limit → m.steps + 1 ≤ limit) ∧
        m' = { m with steps := m.steps + 1 } := by
  rw [count]
  cases m.config.stepLimit with
  | none => simp [eq_comm]
  | some limit =>
    by_cases hl : limit < m.steps + 1
    · simp [hl, UInt64.not_le.mpr hl]
    · simp [hl, UInt64.not_lt.mp hl, eq_comm]

theorem permit_routine_eq_ok {l : Label} {m m' : Machine} :
    permit (.routine l) m = .ok () m' ↔ (∃ b, m.program.block l = .ok b) ∧ m = m' := by
  rw [permit, Action.ofExcept_eq_ok]
  cases m.program.block l with
  | ok b => simp [Except.map]
  | error f => simp [Except.map]

theorem permit_intrinsic_eq_ok {i : Intrinsic} {m m' : Machine} :
    permit (.intrinsic i) m = .ok () m' ↔ m.config.capabilities.allows i = true ∧ m = m' := by
  rw [permit, Action.ofExcept_eq_ok, CapabilitySet.check]
  split <;> simp [*]

theorem land_eq_ok {address : Word} {f : Flow} {m m' : Machine} :
    land address m = .ok f m' ↔
      (if address = hostReturn ∧ 0 < m.hostCalls then .returnToHost = f ∧ m = m'
        else ∃ l, m.program.resolve address = .ok l ∧ .next l = f ∧ m = m') := by
  show (if address = hostReturn ∧ 0 < m.hostCalls then _ else goTo address : Action Machine Flow) m
    = .ok f m' ↔ _
  split
  · exact Action.pure_eq_ok
  · exact goTo_eq_ok

/-- Going to a return address changes nothing. -/
theorem eq_of_land {address : Word} {f : Flow} {m m' : Machine} (h : land address m = .ok f m') :
    m = m' := by
  rw [land_eq_ok] at h
  split at h
  · exact h.2
  · obtain ⟨l, -, -, hm⟩ := h
    exact hm

/-- Every move that succeeds is one of the rules. -/
theorem move_of_advance {c c' : Control} {m m' : Machine} (h : advance c m = .ok c' m') :
    Move c m c' m' := by
  cases c with
  | dispatch l =>
    obtain ⟨_, _, hcount, h⟩ := Action.bind_eq_ok.mp h
    obtain ⟨hlimit, rfl⟩ := count_eq_ok.mp hcount
    obtain ⟨_, _, hnote, h⟩ := Action.bind_eq_ok.mp h
    cases hnote
    obtain ⟨_, _, hget, h⟩ := Action.bind_eq_ok.mp h
    cases hget
    obtain ⟨b, _, hfind, h⟩ := Action.bind_eq_ok.mp h
    obtain ⟨hblock, rfl⟩ := Action.ofExcept_eq_ok.mp hfind
    cases h
    exact .dispatch hlimit hblock
  | inside rest t =>
    cases rest with
    | cons i rest =>
      obtain ⟨_, _, hi, h⟩ := Action.bind_eq_ok.mp h
      cases h
      exact .execute hi
    | nil =>
      cases t with
      | jump target =>
        cases h
        exact .jump
      | branch r ifZero otherwise =>
        obtain ⟨v, _, hfetch, h⟩ := Action.bind_eq_ok.mp h
        obtain ⟨hv, rfl⟩ := fetch_eq_ok.mp hfetch
        cases h
        exact .branch hv
      | jumpRegister r =>
        obtain ⟨v, _, hfetch, h⟩ := Action.bind_eq_ok.mp h
        obtain ⟨hv, rfl⟩ := fetch_eq_ok.mp hfetch
        obtain ⟨f, _, hf, h⟩ := Action.bind_eq_ok.mp h
        obtain ⟨l, hl, rfl, rfl⟩ := goTo_eq_ok.mp hf
        cases h
        exact .jumpRegister hv hl
      | call callee r resume =>
        obtain ⟨v, _, hfetch, h⟩ := Action.bind_eq_ok.mp h
        obtain ⟨hv, rfl⟩ := fetch_eq_ok.mp hfetch
        cases h
        exact .call hv
      | ret value =>
        obtain ⟨record, _, hrecord, h⟩ := Action.bind_eq_ok.mp h
        obtain ⟨completion, _, hvalue, h⟩ := Action.bind_eq_ok.mp h
        obtain rfl := active_eq_ok hrecord
        obtain rfl := returned_eq_ok hvalue
        cases h
        exact .ret hrecord hvalue
      | halt =>
        cases h
        exact .halt
  | entering callee argument caller =>
    obtain ⟨_, _, hpermit, h⟩ := Action.bind_eq_ok.mp h
    cases callee with
    | routine l =>
      obtain ⟨⟨b, hblock⟩, rfl⟩ := permit_routine_eq_ok.mp hpermit
      obtain ⟨record, _, henter, h⟩ := Action.bind_eq_ok.mp h
      cases h
      exact .enterRoutine hblock henter
    | intrinsic i =>
      obtain ⟨hallowed, rfl⟩ := permit_intrinsic_eq_ok.mp hpermit
      obtain ⟨record, _, henter, h⟩ := Action.bind_eq_ok.mp h
      cases h
      exact .enterIntrinsic hallowed henter
  | serving i argument record =>
    obtain ⟨_, _, hnote, h⟩ := Action.bind_eq_ok.mp h
    cases hnote
    obtain ⟨completion, _, hbody, h⟩ := Action.bind_eq_ok.mp h
    cases h
    exact .serve hbody
  | leaving record completion =>
    obtain ⟨address, _, hleave, h⟩ := Action.bind_eq_ok.mp h
    cases h
    exact .leave hleave
  | landing address =>
    obtain ⟨f, _, hland, h⟩ := Action.bind_eq_ok.mp h
    -- The return address of the host counts only while one of its calls is in flight.
    rw [land_eq_ok] at hland
    split at hland
    · obtain ⟨rfl, rfl⟩ := hland
      cases h
      exact .landHost (by simp [*]) (by simp [*])
    · obtain ⟨l, hl, rfl, rfl⟩ := hland
      cases h
      exact .landBlock (by assumption) hl
  | gone d =>
    cases h
    exact .stay

/-- Every rule is a move. -/
theorem advance_of_move {c c' : Control} {m m' : Machine} (h : Move c m c' m') :
    advance c m = .ok c' m' := by
  cases h with
  | dispatch hlimit hblock =>
    refine Action.bind_eq_ok.mpr ⟨(), _, count_eq_ok.mpr ⟨hlimit, rfl⟩, ?_⟩
    refine Action.bind_eq_ok.mpr ⟨(), _, rfl, ?_⟩
    refine Action.bind_eq_ok.mpr ⟨_, _, rfl, ?_⟩
    exact Action.bind_eq_ok.mpr ⟨_, _, Action.ofExcept_eq_ok.mpr ⟨hblock, rfl⟩, rfl⟩
  | execute h => exact Action.bind_eq_ok.mpr ⟨(), _, h, rfl⟩
  | jump => rfl
  | branch hv => exact Action.bind_eq_ok.mpr ⟨_, _, fetch_eq_ok.mpr ⟨hv, rfl⟩, rfl⟩
  | jumpRegister hv hl =>
    refine Action.bind_eq_ok.mpr ⟨_, _, fetch_eq_ok.mpr ⟨hv, rfl⟩, ?_⟩
    exact Action.bind_eq_ok.mpr ⟨_, _, goTo_eq_ok.mpr ⟨_, hl, rfl, rfl⟩, rfl⟩
  | call hv => exact Action.bind_eq_ok.mpr ⟨_, _, fetch_eq_ok.mpr ⟨hv, rfl⟩, rfl⟩
  | ret hrecord hvalue =>
    refine Action.bind_eq_ok.mpr ⟨_, _, hrecord, ?_⟩
    exact Action.bind_eq_ok.mpr ⟨_, _, hvalue, rfl⟩
  | halt => rfl
  | enterRoutine hblock henter =>
    refine Action.bind_eq_ok.mpr ⟨(), _, permit_routine_eq_ok.mpr ⟨⟨_, hblock⟩, rfl⟩, ?_⟩
    exact Action.bind_eq_ok.mpr ⟨_, _, henter, rfl⟩
  | enterIntrinsic hallowed henter =>
    refine Action.bind_eq_ok.mpr ⟨(), _, permit_intrinsic_eq_ok.mpr ⟨hallowed, rfl⟩, ?_⟩
    exact Action.bind_eq_ok.mpr ⟨_, _, henter, rfl⟩
  | serve hbody =>
    refine Action.bind_eq_ok.mpr ⟨(), _, rfl, ?_⟩
    exact Action.bind_eq_ok.mpr ⟨_, _, hbody, rfl⟩
  | leave h => exact Action.bind_eq_ok.mpr ⟨_, _, h, rfl⟩
  | landHost haddress hhost =>
    refine Action.bind_eq_ok.mpr ⟨.returnToHost, _, land_eq_ok.mpr ?_, rfl⟩
    rw [if_pos ⟨haddress, hhost⟩]
    exact ⟨rfl, rfl⟩
  | landBlock haddress hl =>
    refine Action.bind_eq_ok.mpr ⟨.next _, _, land_eq_ok.mpr ?_, rfl⟩
    rw [if_neg haddress]
    exact ⟨_, hl, rfl, rfl⟩
  | stay => rfl

/-! ### Moves make up runs -/

/-- Within a block every move leaves fewer moves to make. -/
theorem rank_of_advance {c c' : Control} {m m' : Machine} (hc : c.Running)
    (h : advance c m = .ok c' m') : c'.rank < c.rank := by
  cases move_of_advance h with
  | dispatch _ _ => exact hc.elim
  | stay => exact hc.elim
  | _ => simp [Control.rank]

/-- Makes moves until control leaves the program, at most as many as a number says. -/
def pursue : Nat → Control → Machine → Option (Outcome Machine Departure)
  | 0, .gone d, m => some (.ok d m)
  | 0, _, _ => none
  | n + 1, c, m =>
    match advance c m with
    | .ok c' m' => pursue n c' m'
    | .error f m' => some (.error f m')

theorem pursue_of_ok {n : Nat} {c c' : Control} {m m' : Machine} (h : advance c m = .ok c' m') :
    pursue (n + 1) c m = pursue n c' m' := by
  rw [pursue, h]

theorem pursue_of_error {n : Nat} {c : Control} {m m' : Machine} {f : Fault}
    (h : advance c m = .error f m') : pursue (n + 1) c m = some (.error f m') := by
  rw [pursue, h]

theorem flow_of_ok {c c' : Control} {m m' : Machine} (hc : c.Running)
    (h : advance c m = .ok c' m') : c.flow m = c'.flow m' := by
  rw [flow_eq_advance hc, Action.bind_of_ok h]

theorem flow_of_error {c : Control} {m m' : Machine} {f : Fault} (hc : c.Running)
    (h : advance c m = .error f m') : c.flow m = .error f m' := by
  rw [flow_eq_advance hc, Action.bind_of_error h]

theorem drive_of_pursue {n : Nat} {c : Control} {m : Machine} {o : Outcome Machine Departure}
    (h : pursue n c m = some o) : ∃ fuel, drive fuel (c.flow m) = some o := by
  -- Moves within a block take no fuel, a dispatch takes one unit.
  induction n generalizing c m with
  | zero =>
    cases c with
    | gone d =>
      cases h
      refine ⟨0, ?_⟩
      cases d <;> rfl
    | _ => cases h
  | succ n ih =>
    cases ha : advance c m with
    | ok c' m' =>
      rw [pursue_of_ok ha] at h
      obtain ⟨fuel, hfuel⟩ := ih h
      by_cases hc : c.Running
      · exact ⟨fuel, by rw [flow_of_ok hc ha, hfuel]⟩
      · cases c with
        | dispatch l =>
          refine ⟨fuel + 1, ?_⟩
          show drive fuel (step l m) = some o
          rw [step_eq_advance, Action.bind_of_ok ha, hfuel]
        | gone d =>
          cases ha
          exact ⟨fuel, hfuel⟩
        | _ => exact absurd trivial hc
    | error f m' =>
      rw [pursue_of_error ha] at h
      cases h
      by_cases hc : c.Running
      · exact ⟨0, by rw [flow_of_error hc ha, drive_error]⟩
      · cases c with
        | dispatch l =>
          refine ⟨1, ?_⟩
          show drive 0 (step l m) = some (.error f m')
          rw [step_eq_advance, Action.bind_of_error ha, drive_error]
        | gone d => cases ha
        | _ => exact absurd trivial hc

/-- A block that is under way comes to its end: after some moves either control is at a dispatch or
gone, or a move has failed. -/
theorem block_ends (c : Control) (m : Machine) :
    (∃ n c' m', ¬ c'.Running ∧ c.flow m = c'.flow m' ∧
      ∀ k, pursue (k + n) c m = pursue k c' m') ∨
    ∃ n f m', c.flow m = .error f m' ∧ pursue n c m = some (.error f m') := by
  -- Induction on the rank, which falls with every move of a block.
  induction hk : c.rank using Nat.strongRecOn generalizing c m with
  | ind k ih =>
    by_cases hc : c.Running
    · cases ha : advance c m with
      | ok c' m' =>
        have hrank : c'.rank < k := hk ▸ rank_of_advance hc ha
        rw [flow_of_ok hc ha]
        rcases ih c'.rank hrank c' m' rfl with ⟨n, c₁, m₁, hc₁, hflow, hn⟩ | ⟨n, f, m₁, hflow, hn⟩
        · refine .inl ⟨n + 1, c₁, m₁, hc₁, hflow, fun k => ?_⟩
          rw [← Nat.add_assoc, pursue_of_ok ha, hn]
        · exact .inr ⟨n + 1, f, m₁, hflow, by rw [pursue_of_ok ha, hn]⟩
      | error f m' => exact .inr ⟨1, f, m', flow_of_error hc ha, pursue_of_error ha⟩
    · exact .inl ⟨0, c, m, hc, rfl, fun _ => rfl⟩

theorem pursue_of_drive {fuel : Nat} {c : Control} {m : Machine} {o : Outcome Machine Departure}
    (h : drive fuel (c.flow m) = some o) : ∃ n, pursue n c m = some o := by
  induction fuel using Nat.strongRecOn generalizing c m with
  | ind fuel ih =>
    -- Moves are made to the end of the block; after that either there is nothing left to do or a
    -- dispatch takes some of the fuel.
    rcases block_ends c m with ⟨n, c', m', hc', hflow, hn⟩ | ⟨n, f, m', hflow, hn⟩
    · rw [hflow] at h
      cases c' with
      | dispatch l =>
        rcases fuel with _ | fuel
        · cases h
        · replace h : drive fuel (step l m') = some o := h
          rw [step_eq_advance] at h
          cases ha : advance (.dispatch l) m' with
          | ok c₁ m₁ =>
            rw [Action.bind_of_ok ha] at h
            obtain ⟨k, hk⟩ := ih fuel (Nat.lt_succ_self fuel) h
            exact ⟨k + 1 + n, by rw [hn, pursue_of_ok ha, hk]⟩
          | error f m₁ =>
            rw [Action.bind_of_error ha, drive_error] at h
            exact ⟨0 + 1 + n, by rw [hn, pursue_of_error ha, h]⟩
      | gone d =>
        refine ⟨0 + n, ?_⟩
        rw [hn, ← h]
        cases d with
        | returned => exact (drive_returnToHost fuel m').symm
        | halted => exact (drive_halt fuel m').symm
      | _ => exact absurd trivial hc'
    · rw [hflow, drive_error] at h
      exact ⟨n, hn.trans h⟩

/-- **Moves make up runs**: driving from control ends as making moves does. -/
theorem drive_iff_pursue {c : Control} {m : Machine} {o : Outcome Machine Departure} :
    (∃ fuel, drive fuel (c.flow m) = some o) ↔ ∃ n, pursue n c m = some o :=
  ⟨fun ⟨_, h⟩ => pursue_of_drive h, fun ⟨_, h⟩ => drive_of_pursue h⟩

theorem run_iff_pursue {m : Machine} {r : Outcome Machine Unit} (hm : m.halted = false) :
    (∃ fuel, run fuel m = some r) ↔
      ∃ n o, pursue n (.dispatch m.program.entry) m = some o ∧ runOutcome (flushed o) = r := by
  constructor
  · rintro ⟨fuel, h⟩
    rw [run, hm, if_neg Bool.false_ne_true, Option.map_eq_some_iff] at h
    obtain ⟨o, ho, hr⟩ := h
    obtain ⟨n, hn⟩ := (drive_iff_pursue (c := .dispatch m.program.entry)).mp ⟨fuel, ho⟩
    exact ⟨n, o, hn, hr⟩
  · rintro ⟨n, o, hn, hr⟩
    obtain ⟨fuel, ho⟩ := drive_iff_pursue.mpr ⟨n, hn⟩
    refine ⟨fuel, ?_⟩
    rw [run, hm, if_neg Bool.false_ne_true, Option.map_eq_some_iff]
    exact ⟨o, ho, hr⟩

theorem call_iff_pursue {callee : Callee} {argument : Word} {m : Machine}
    {r : Outcome Machine CallRecord} :
    (∃ fuel, call fuel callee argument m = some r) ↔
      ∃ n o, pursue n (.entering callee argument .host) m.beginCall = some o ∧
        callOutcome (flushed (Outcome.within endCall o)) = r := by
  constructor
  · rintro ⟨fuel, h⟩
    obtain ⟨o, ho, hr⟩ := Option.map_eq_some_iff.mp h
    obtain ⟨n, hn⟩ := (drive_iff_pursue (c := .entering callee argument .host)).mp ⟨fuel, ho⟩
    exact ⟨n, o, hn, hr⟩
  · rintro ⟨n, o, hn, hr⟩
    obtain ⟨fuel, ho⟩ := drive_iff_pursue.mpr ⟨n, hn⟩
    exact ⟨fuel, Option.map_eq_some_iff.mpr ⟨o, ho, hr⟩⟩

end Machine

end WordMachine
