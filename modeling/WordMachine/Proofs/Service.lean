/-
Calls of intrinsics.

A host that calls an intrinsic has a frame entered for it, its body run and the frame left again,
with no block dispatched in between.  So the answer can be read off what these three do.

* `Machine.call_of_body`: the answer to a call, from the entry, the body and the exit;
* `Machine.Poised` is what a machine needs so that entry and exit succeed, and
  `Machine.Poised.call_of_frame` puts the three together, if the body leaves its frame alone;
* `Machine.Answered` says what a call leaves of the machine, if the body changes nothing in the
  store but the scratch cell, and `Machine.Poised.call_of_scratch` that it does;
* `Intrinsic.print_of_hasRoom`, `Intrinsic.read_of_some` and `Intrinsic.read_of_none`: what bodies
  that print or read do to the console.
-/
import WordMachine.Proofs.History
import WordMachine.Proofs.Script

namespace WordMachine

namespace Machine

variable {m : Machine} {i : Intrinsic} {argument : Word} {completion : Completion}

/-- The record of a call of the host that has come back. -/
def answer (argument : Word) (completion : Completion) : CallRecord where
  argument := argument
  returnAddress := hostReturn
  value := completion.value
  status := completion.status
  phase := .dispatched

/-- **A call of an intrinsic is an entry, a body and an exit.** -/
theorem call_of_body {u : Store} {w : World} {a : Frame.Activation}
    (hallowed : m.config.capabilities.allows i = true)
    (henter : Frame.enter argument hostReturn m.store =
      .ok { argument, returnAddress := hostReturn } u)
    (hbody : i.body
      { store := u
        console := m.console
        journal := (m.journal.push (.frameEntered u.fp u.sp argument hostReturn)).push
          (.intrinsicCalled i argument) } = .ok completion w)
    (hexit : Frame.exit ⟨w.store, staged { argument, returnAddress := hostReturn } completion⟩ =
      .ok hostReturn a)
    (hflush : w.console.sink.flushFailure = none) (fuel : Nat) :
    m.call fuel (.intrinsic i) argument =
      some (.ok a.record
        { m with
          store := a.store
          console := w.console
          journal := w.journal.push (.frameExited a.store.fp a.store.sp a.record.value)
          lastCall := some a.record }) := by
  let record : CallRecord := { argument, returnAddress := hostReturn }
  let entered : Machine :=
    { m.beginCall with
      store := u
      journal := m.journal.push (.frameEntered u.fp u.sp argument hostReturn) }
  let served : Machine := { m.beginCall with toWorld := w }
  let left : Machine :=
    { served with
      store := a.store
      journal := w.journal.push (.frameExited a.store.fp a.store.sp a.record.value)
      lastCall := some a.record }
  have hentering : Move (.entering (.intrinsic i) argument .host) m.beginCall
      (.serving i argument record) entered :=
    .enterIntrinsic hallowed (enterFrame_eq_ok.mpr ⟨u, henter, rfl⟩)
  have hserving : Move (.serving i argument record) entered (.leaving record completion) served :=
    .serve (onWorld_eq_ok.mpr ⟨w, hbody, rfl⟩)
  have hleaving : Move (.leaving record completion) served (.landing hostReturn) left :=
    .leave (vacate_eq_ok.mpr ⟨rfl, leave_eq_ok.mpr ⟨a, hexit, rfl⟩⟩)
  have hlanding : Move (.landing hostReturn) left (.gone .returned) left :=
    .landHost rfl (Nat.succ_pos _)
  have hinvoke : invoke (.intrinsic i) argument hostReturn m.beginCall = .ok .returnToHost left :=
    calc Control.flow (.entering (.intrinsic i) argument .host) m.beginCall
      _ = Control.flow (.serving i argument record) entered :=
        flow_of_ok trivial (advance_of_move hentering)
      _ = Control.flow (.leaving record completion) served :=
        flow_of_ok trivial (advance_of_move hserving)
      _ = Control.flow (.landing hostReturn) left := flow_of_ok trivial (advance_of_move hleaving)
      _ = Control.flow (.gone .returned) left := flow_of_ok trivial (advance_of_move hlanding)
  have hend : flushed (Outcome.within endCall (.ok Departure.returned left)) =
      .ok .returned left.endCall := flushed_of_none hflush
  rw [call, hinvoke, drive_returnToHost, Option.map_some, hend]
  exact congrArg some (callOutcome_eq_ok.mpr ⟨rfl, rfl⟩)

/-! ### Machines that can be called -/

/-- A machine on which the host can call intrinsics: there is room for a frame, a register for the
value, and flushing does not fail. -/
structure Poised (g : Growth) (size k : Nat) (m : Machine) : Prop where
  level : m.store.Level g size k
  room : k + 3 ≤ size
  register : 0 < m.store.registers.size
  flush : m.console.sink.flushFailure = none

/-- The host may call where a store has been built from a configuration, and since then only its
contents have changed. -/
theorem poised_of_inBounds {c : Config} {built : Store} (hbuilt : Store.ofConfig c = .ok built)
    (hshape : m.store.shape = built.shape) (hsp : m.store.InBounds)
    (hregister : 0 < m.store.registers.size)
    (hroom : m.store.depth + 3 ≤ m.store.memory.size)
    (hflush : m.console.sink.flushFailure = none) :
    m.Poised c.growth c.memory m.store.depth := by
  have hlevel := Store.level_of_inBounds hbuilt hshape hsp
  exact ⟨hlevel, hlevel.memory ▸ hroom, hregister, hflush⟩

variable {g : Growth} {size k : Nat} {console : Console} {m' : Machine}

/-- **A call of an intrinsic whose body leaves its frame alone** is answered with what the body
hands back.  All that the exit adds to the store of the body is the value in its register and the
two pointers as they were. -/
theorem Poised.call_of_frame {u store : Store} (h : m.Poised g size k)
    (hallowed : m.config.capabilities.allows i = true)
    (henter : Frame.enter argument hostReturn m.store =
      .ok { argument, returnAddress := hostReturn } u)
    (hbody : ∀ journal, ∃ journal',
      i.body ⟨u, m.console, journal⟩ = .ok completion ⟨store, console, journal'⟩)
    (hregisters : store.registers = u.registers) (hstack : store.stack = u.stack)
    (hfp : store.fp = u.fp) (hsize : store.memory.size = u.memory.size)
    (hcells : ∀ j, k ≤ j → j < k + 3 →
      store.memory.read? (cell g size j) = u.memory.read? (cell g size j))
    (hflush : console.sink.flushFailure = none) (fuel : Nat) :
    ∃ m', m.call fuel (.intrinsic i) argument = some (.ok (answer argument completion) m') ∧
      m'.console = console ∧ m'.config = m.config ∧
      m'.store = { store with
        registers := ⟨m.store.registers.cells.setIfInBounds Frame.valueRegister completion.value⟩
        stack := m.store.stack
        fp := m.store.fp } := by
  obtain ⟨u', henter', hu, hopen, hregisters', hstack', -⟩ :=
    Script.enter_of_le h.level h.room argument hostReturn
  cases henter'.symm.trans henter
  obtain ⟨journal, hjournal⟩ := hbody
    ((m.journal.push (.frameEntered u.fp u.sp argument hostReturn)).push
      (.intrinsicCalled i argument))
  have hret := (hcells _ (returnCell_mem k g).1 (returnCell_mem k g).2).trans hopen.returnAddress
  have hsaved := (hcells (k + 1) (by omega) (by omega)).trans hopen.callerFp
  have hregister : Frame.valueRegister < store.registers.cells.size := by
    rw [hregisters, hregisters']
    exact h.register
  have hphase : (staged { argument, returnAddress := hostReturn } completion).phase =
      .valueStaged := rfl
  have hexit := (hu.congr hstack hsize).exit_of_frame (hfp.trans hopen.fp) hret hsaved hphase
    hregister
  refine ⟨_, Machine.call_of_body hallowed henter hjournal hexit hflush fuel, rfl, rfl, ?_⟩
  show ({ store with
    registers := ⟨store.registers.cells.setIfInBounds _ _⟩
    stack := { store.stack with sp := cell g size k }
    fp := m.store.fp } : Store) = _
  rw [hregisters, hregisters', hstack, hstack', ← h.level.sp]
  rfl

/-! ### Bodies that leave all but the scratch cell alone -/

/-- What a call leaves of a machine, if the body does no more than to leave a console. -/
structure Answered (completion : Completion) (console : Console) (m m' : Machine) : Prop where
  console : m'.console = console
  config : m'.config = m.config
  stack : m'.store.stack = m.store.stack
  fp : m'.store.fp = m.store.fp
  memory : m'.store.memory.size = m.store.memory.size
  registers : m'.store.registers.cells =
    m.store.registers.cells.setIfInBounds Frame.valueRegister completion.value

theorem Poised.answered (h : m.Poised g size k) (ha : Answered completion console m m')
    (hflush : console.sink.flushFailure = none) : m'.Poised g size k where
  level := h.level.congr ha.stack ha.memory
  room := h.room
  register := by
    rw [Registers.size, ha.registers, Array.size_setIfInBounds]
    exact h.register
  flush := by rw [ha.console, hflush]

/-- The value is in the register for values. -/
theorem Answered.value (ha : Answered completion console m m') (h : 0 < m.store.registers.size) :
    m'.store.registers.cells[0]? = some completion.value := by
  rw [ha.registers]
  exact Array.getElem?_setIfInBounds_self_of_lt h

/-- **A call of an intrinsic whose body changes nothing in the store but the scratch cell** is
answered with what the body hands back, and leaves the stack and the frame pointer as they were. -/
theorem Poised.call_of_scratch (h : m.Poised g size k)
    (hallowed : m.config.capabilities.allows i = true) (scratch : Single → Single)
    (hbody : ∀ w : World, w.console = m.console →
      Store.frameLoad Frame.argumentOffset w.store = .ok argument w.store →
      ∃ journal, i.body w = .ok completion
        { store := { w.store with scratch := scratch w.store.scratch }, console, journal })
    (hflush : console.sink.flushFailure = none) (fuel : Nat) :
    ∃ m', m.call fuel (.intrinsic i) argument = some (.ok (answer argument completion) m') ∧
      Answered completion console m m' := by
  obtain ⟨u, henter, hu, hopen, -⟩ := Script.enter_of_le h.level h.room argument hostReturn
  have hargument : Store.frameLoad Frame.argumentOffset u = .ok argument u := by
    refine hu.frameLoad (Nat.le_refl _) hopen.fp (by decide) (by decide) ?_
    rw [framePointer_add_argumentOffset]
    exact hopen.argument
  have hserve : ∀ journal, ∃ journal', i.body ⟨u, m.console, journal⟩ =
      .ok completion ⟨{ u with scratch := scratch u.scratch }, console, journal'⟩ :=
    fun journal => hbody ⟨u, m.console, journal⟩ rfl hargument
  obtain ⟨m', hcall, hconsole, hconfig, hstore⟩ := h.call_of_frame hallowed henter hserve
    rfl rfl rfl rfl (fun j _ _ => rfl) hflush fuel
  refine ⟨m', hcall, ?_⟩
  constructor
  case console => exact hconsole
  case config => exact hconfig
  case stack => rw [hstore]
  case fp => rw [hstore]
  case memory =>
    rw [hstore]
    exact hu.memory.trans h.level.memory.symm
  case registers => rw [hstore]

/-- The same if the body leaves all of the store alone. -/
theorem Poised.call_of_body (h : m.Poised g size k)
    (hallowed : m.config.capabilities.allows i = true)
    (hbody : ∀ w : World, w.console = m.console →
      Store.frameLoad Frame.argumentOffset w.store = .ok argument w.store →
      ∃ journal, i.body w = .ok completion { w with console, journal })
    (hflush : console.sink.flushFailure = none) (fuel : Nat) :
    ∃ m', m.call fuel (.intrinsic i) argument = some (.ok (answer argument completion) m') ∧
      Answered completion console m m' :=
  h.call_of_scratch hallowed id hbody hflush fuel

end Machine

/-! ### Bodies -/

namespace Intrinsic

variable {i : Intrinsic} {w : World} {argument : Word}

/-- A body starts with its argument. -/
theorem onStore_argument (h : Store.frameLoad Frame.argumentOffset w.store = .ok argument w.store) :
    World.onStore (Store.frameLoad Frame.argumentOffset) w = .ok argument w := by
  rw [World.onStore_apply, h]
  rfl

/-- Bytes are printed if there is room for them. -/
theorem print_of_hasRoom {bytes : Bytes} (h : w.console.sink.hasRoom bytes.length = true) :
    print bytes w = .ok .unit
      { w with console.sink.written := w.console.sink.written ++ bytes } := by
  have hwrite : World.onConsole (Console.write bytes) w = .ok ()
      { w with console.sink.written := w.console.sink.written ++ bytes } := by
    rw [World.onConsole_apply, Console.write, Console.onSink_apply, Sink.write, if_pos h]
    rfl
  exact Action.bind_of_ok hwrite

/-- There is room if there is no limit to what can be written. -/
theorem print_of_unlimited (h : w.console.sink.limit = none) (bytes : Bytes) :
    print bytes w = .ok .unit
      { w with console.sink.written := w.console.sink.written ++ bytes } :=
  print_of_hasRoom (by rw [Sink.hasRoom, h])

section

variable {source : Source} (hflush : w.console.sink.flushFailure = none)

include hflush

theorem readToken_of_next {token : Option Bytes}
    (hnext : w.console.source.nextToken = .ok token source) :
    readToken w =
      .ok (token.elim (.error .endOfInput) .ok) { w with console.source := source } := by
  have hconsole : World.onConsole Console.flush w = .ok () w := by
    rw [World.onConsole_apply, Console.flush, Console.onSink_apply, Sink.flush, hflush]
    rfl
  have htoken : World.onConsole Console.nextToken w =
      .ok token { w with console.source := source } := by
    rw [World.onConsole_apply, Console.nextToken, Console.onSource_apply, hnext]
    rfl
  rw [readToken, Action.bind_of_ok hconsole, Action.bind_of_ok htoken]
  cases token <;> rfl

/-- A read accepts the next token. -/
theorem read_of_some {accept : Bytes → Action World (Except InputFailure Word)} {token : Bytes}
    (hnext : w.console.source.nextToken = .ok (some token) source) :
    read i accept w = (accept token >>= complete i) { w with console.source := source } :=
  Action.bind_of_ok (readToken_of_next hflush hnext)

/-- A read at the end of the stream fails, and this is noted. -/
theorem read_of_none {accept : Bytes → Action World (Except InputFailure Word)}
    (hnext : w.console.source.nextToken = .ok none source) :
    read i accept w = .ok (.failed .endOfInput)
      { w with
        console.source := source
        journal := w.journal.push (.readFailed i .endOfInput) } :=
  Action.bind_of_ok (readToken_of_next hflush hnext)

end

end Intrinsic

end WordMachine
