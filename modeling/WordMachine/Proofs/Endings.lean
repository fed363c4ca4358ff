/-
How runs and calls end.

A run succeeds by halting and in no other way: control cannot come back to a host that has made no
call, also where a frame holds the return address of the host.  A call succeeds by coming back, and
then the record that the host is given is that of the frame that was left last.

* `Moment.Halts`: an execution carries out a halt, and `Moment.outcome_eq_halted_iff`: those that do
  and end are the ones that end by halting;
* `Machine.keeps_halted_advance`, `Moment.halted_iff_gone`: a machine remembers that it has halted,
  and nothing else makes it say so;
* `Machine.drive_ne_returned`: a run does not end by returning to the host;
* `Machine.Left` says that the last call is that of the frame that was left, and `Moment.Accounted`
  that this is so from then on until control goes elsewhere; `Machine.left_of_drive`: it is so where
  a call has come back;
* `runs_halt_and_calls_return` puts these together for all that a host can get to.
-/
import WordMachine.Proofs.Dispatch

namespace WordMachine

open WordMachine.Action (Keeps Same keeps_pure)

namespace Machine

/-! ### Halting is remembered -/

theorem keeps_halted_onWorld {α : Type} (x : Action World α) : Keeps halted (onWorld x) := by
  intro m
  rw [onWorld_apply, Outcome.state_within]

theorem StoreAlone.keeps_halted {α : Type} {Q : Store.Property} {x : Action Machine α}
    (h : StoreAlone Q x) : Keeps halted x := by
  obtain ⟨y, -, hy⟩ := h
  intro m
  rw [hy]
  exact keeps_halted_onWorld _ m

theorem sustained_halted : Sustained (Same halted) where
  execute i := (storeAlone_execute Store.inherited_true i).keeps_halted
  fetch r := (storeAlone_fetch Store.inherited_true r).keeps_halted
  active := (storeAlone_active Store.inherited_true).keeps_halted
  enter _ _ := keeps_halted_onWorld _
  leave _ :=
    (keeps_halted_onWorld _).bind fun _ => Keeps.bind (fun _ => rfl) fun _ => keeps_pure _

/-- **Only a halt makes a machine one that has halted.** -/
theorem keeps_halted_advance {c : Control} (hc : c ≠ .inside [] .halt) :
    Keeps halted (advance c) := by
  refine sustained_halted.advance (fun l _ => ⟨fun m => ?_, keeps_halted_onWorld _⟩)
    (fun i _ _ _ => ⟨keeps_halted_onWorld _, keeps_halted_onWorld _⟩) fun h => absurd h hc
  rw [state_count]
  rfl

/-! ### The frame that was left -/

/-- The call that completed last is that of a frame which was left to an address, and its value is
still in the register for values. -/
def Left (address : Word) (m : Machine) : Prop :=
  ∃ record, m.lastCall = some record ∧ record.phase = .dispatched ∧
    record.returnAddress = address ∧
    m.store.registers.cells[Frame.valueRegister]? = some record.value

theorem left_of_vacate {record : CallRecord} {completion : Completion} {address : Word}
    {m m' : Machine} (h : vacate record completion m = .ok address m') : m'.Left address := by
  obtain ⟨a, hexit, rfl⟩ := leave_eq_ok.mp (vacate_eq_ok.mp h).2
  obtain ⟨callerFp, -, -, -, -, hregister, -, -, rfl⟩ := Frame.exit_eq_ok.mp hexit
  exact ⟨_, rfl, rfl, rfl, Array.getElem?_setIfInBounds_self_of_lt hregister⟩

theorem pursue_gone (n : Nat) (d : Departure) (m : Machine) :
    pursue n (.gone d) m = some (.ok d m) := by
  have hstay : advance (.gone d) m = .ok (.gone d) m := rfl
  induction n with
  | zero => rfl
  | succ n ih => rw [pursue_of_ok hstay, ih]

end Machine

/-! ### Executions -/

namespace Moment

variable {m : Machine} {start a : Moment}

/-- An execution carries out a halt. -/
def Halts (start : Moment) : Prop := ∃ a, Reaches start a ∧ a.control = .inside [] .halt

theorem Starts.not_gone (h : Starts m start) (d : Departure) : start.control ≠ .gone d := by
  cases h with
  | run => simp [ofRun]
  | call callee argument => simp [ofCall]

/-- **An execution that ends does so by halting if and only if it carries out a halt.** -/
theorem outcome_eq_halted_iff (hstart : Starts m start) {n : Nat} {o : Outcome Machine Departure}
    (hn : Machine.pursue n start.control start.machine = some o) :
    (∃ m', o = .ok .halted m') ↔ start.Halts := by
  constructor
  · rintro ⟨m', rfl⟩
    obtain ⟨live, hreach⟩ := reaches_of_pursue hn
    refine hreach.invariant (P := fun b => b.control = .gone .halted → start.Halts) ?_ ?_ rfl
    · intro hgone
      exact absurd hgone (hstart.not_gone _)
    · intro b c hb ih hmove hgone
      obtain ⟨x, mb, live⟩ := b
      obtain ⟨y, mc, live'⟩ := c
      cases hgone
      cases hmove.move with
      | halt => exact ⟨_, hb, rfl⟩
      | stay => exact ih rfl
  · rintro ⟨b, hb, hhalt⟩
    obtain ⟨k, hk⟩ := pursue_after_reaches hb hn
    rw [hhalt] at hk
    cases k with
    | zero => cases hk
    | succ k =>
      rw [Machine.pursue_of_ok (Machine.advance_of_move .halt), Machine.pursue_gone] at hk
      exact ⟨_, (Option.some.inj hk).symm⟩

/-- A machine that has not halted when an execution starts has halted at the end of one that halts,
and at no other time. -/
theorem halted_iff_gone (hstart : Starts m start) (hm : start.machine.halted = false)
    (ha : Reaches start a) : a.machine.halted = true ↔ a.control = .gone .halted := by
  refine ha.invariant (P := fun b => b.machine.halted = true ↔ b.control = .gone .halted) ?_ ?_
  · simp [hm, hstart.not_gone]
  · intro b c _ ih hmove
    obtain ⟨x, mb, live⟩ := b
    obtain ⟨y, mc, live'⟩ := c
    have hkeeps : x ≠ .inside [] .halt → mc.halted = mb.halted :=
      fun hx => (Machine.keeps_halted_advance hx).of_ok hmove.1
    cases hmove.move with
    | halt => simp
    | stay => exact ih
    | _ => simpa [hkeeps (by simp)] using ih

/-- A frame that was left is accounted for until control goes elsewhere: by the last call, which
comes back to the host only if the host has made a call. -/
def Accounted (a : Moment) : Prop :=
  match a.control with
  | .landing address => a.machine.Left address
  | .gone .returned => a.machine.Left Machine.hostReturn ∧ 0 < a.machine.hostCalls
  | _ => True

theorem accounted_of_reaches (hstart : Starts m start) (ha : Reaches start a) : a.Accounted := by
  refine ha.invariant (P := Accounted) ?_ ?_
  · cases hstart <;> trivial
  · intro b c _ hb hmove
    obtain ⟨x, mb, live⟩ := b
    obtain ⟨y, mc, live'⟩ := c
    cases hmove.move with
    | leave h => exact Machine.left_of_vacate h
    | landHost haddress hhost =>
      subst haddress
      exact ⟨hb, hhost⟩
    | stay => exact hb
    | _ => trivial

/-- Control does not come back to a host that has made no call. -/
theorem ne_returned_of_reaches (hhost : m.hostCalls = 0) (ha : Reaches (.ofRun m) a) :
    a.control ≠ .gone .returned := by
  intro hgone
  have hcalls : a.machine.hostCalls = m.hostCalls := ha.later.hostCalls
  obtain ⟨c, m', live⟩ := a
  cases hgone
  have hpos : 0 < m'.hostCalls := (accounted_of_reaches .run ha).2
  exact Nat.ne_of_gt hpos (hcalls.trans hhost)

end Moment

namespace Machine

variable {m m' : Machine} {fuel : Nat}

theorem flushed_of_drive {c : Control} {o : Outcome Machine Departure}
    (h : drive fuel (c.flow m) = some o) (hflush : m.console.sink.flushFailure = none) :
    (Outcome.state o).console.sink.flushFailure = none :=
  (leads_drive_flow leads_later_advance h).sink.flushFailure.trans hflush

theorem exists_drive_of_run (hm : m.halted = false)
    (hflush : m.console.sink.flushFailure = none) {r : Outcome Machine Unit}
    (h : m.run fuel = some r) :
    ∃ o, drive fuel (.ok (.next m.program.entry) m) = some o ∧ r = runOutcome o := by
  rw [run, hm, if_neg Bool.false_ne_true] at h
  obtain ⟨o, ho, rfl⟩ := Option.map_eq_some_iff.mp h
  exact ⟨o, ho, by rw [flushed_of_none (flushed_of_drive (c := .dispatch _) ho hflush)]⟩

theorem exists_drive_of_call (hflush : m.console.sink.flushFailure = none) {callee : Callee}
    {argument : Word} {r : Outcome Machine CallRecord}
    (h : m.call fuel callee argument = some r) :
    ∃ o, drive fuel (invoke callee argument hostReturn m.beginCall) = some o ∧
      r = callOutcome (Outcome.within endCall o) := by
  obtain ⟨o, ho, rfl⟩ := Option.map_eq_some_iff.mp h
  have hsink := flushed_of_drive (c := .entering callee argument .host) ho hflush
  refine ⟨o, ho, ?_⟩
  rw [flushed_of_none]
  rw [Outcome.state_within]
  exact hsink

/-- No move fails with the fault that says that the machine has halted. -/
theorem ne_halted_of_advance {c : Control} {f : Fault} (h : advance c m = .error f m') :
    f ≠ .halted := by
  rintro rfl
  cases failure_of_advance h with
  | plain hf _ => cases hf

/-- **A run does not end by coming back**, since no call of the host is in flight. -/
theorem drive_ne_returned (hhost : m.hostCalls = 0) :
    drive fuel (.ok (.next m.program.entry) m) ≠ some (.ok .returned m') := by
  intro h
  obtain ⟨n, hn⟩ := pursue_of_drive (c := .dispatch m.program.entry) h
  obtain ⟨live, hreach⟩ := Moment.reaches_of_pursue (a := .ofRun m) hn
  exact Moment.ne_returned_of_reaches hhost hreach rfl

/-- **Where a call has come back there is a last call**, whose frame was left to the host. -/
theorem left_of_drive {callee : Callee} {argument : Word}
    (h : drive fuel (invoke callee argument hostReturn m.beginCall) = some (.ok .returned m')) :
    m'.Left hostReturn := by
  obtain ⟨n, hn⟩ := pursue_of_drive (c := .entering callee argument .host) h
  obtain ⟨live, hreach⟩ := Moment.reaches_of_pursue (a := .ofCall callee argument m) hn
  exact (Moment.accounted_of_reaches (.call callee argument) hreach).1

/-- **A run succeeds if and only if it carries out a halt**, and this is what the machine
remembers. -/
theorem run_eq_ok_iff (hm : m.halted = false) (hflush : m.console.sink.flushFailure = none)
    (hhost : m.hostCalls = 0) {r : Outcome Machine Unit} (h : m.run fuel = some r) :
    ((∃ m', r = .ok () m') ↔ (Moment.ofRun m).Halts) ∧
      ((Outcome.state r).halted = true ↔ ∃ m', r = .ok () m') := by
  obtain ⟨o, ho, rfl⟩ := exists_drive_of_run hm hflush h
  obtain ⟨n, hn⟩ := pursue_of_drive (c := .dispatch m.program.entry) ho
  have hstart : Moment.Starts m (.ofRun m) := .run
  rw [← Moment.outcome_eq_halted_iff hstart hn]
  rcases o with ⟨_ | _, m₁⟩ | ⟨f, m₁⟩
  · exact absurd ho (drive_ne_returned hhost)
  · obtain ⟨live, hreach⟩ := Moment.reaches_of_pursue (a := .ofRun m) hn
    have hhalted : m₁.halted = true := (Moment.halted_iff_gone hstart hm hreach).mpr rfl
    simp [runOutcome, Outcome.state, hhalted]
  · obtain ⟨b, hb, hfail⟩ := Moment.reaches_of_pursue_error (a := .ofRun m) hn
    have hcontrol : b.control ≠ .inside [] .halt ∧ b.control ≠ .gone .halted := by
      constructor <;> (intro hc; rw [hc] at hfail; cases hfail)
    have hkeeps := keeps_halted_advance hcontrol.1 b.machine
    rw [hfail] at hkeeps
    have hhalted : m₁.halted ≠ true := by
      intro htrue
      exact hcontrol.2 ((Moment.halted_iff_gone hstart hm hb).mp (hkeeps.symm.trans htrue))
    simp [runOutcome, Outcome.state, hhalted]

/-- A frame that holds the return address of the host is not left to the host in a run: there the
run ends. -/
theorem run_of_hostReturn (hm : m.halted = false) (hflush : m.console.sink.flushFailure = none)
    (hhost : m.hostCalls = 0) {a b : Moment} (ha : Moment.Reaches (.ofRun m) a)
    {record : CallRecord} {completion : Completion} (hc : a.control = .leaving record completion)
    (hmove : Moment.Next a b)
    (hcell : a.machine.store.memory.read? (a.machine.store.fp + Frame.returnAddressOffset) =
      some hostReturn) :
    ∃ n, ∀ fuel, n ≤ fuel →
      m.run fuel = some (.error (.invalidTarget hostReturn) b.machine) := by
  have hb : Moment.Reaches (.ofRun m) b := ha.tail hmove
  obtain ⟨x, ma, live⟩ := a
  obtain ⟨y, mb, live'⟩ := b
  cases hc
  have hfail : advance y mb = .error (.invalidTarget hostReturn) mb := by
    cases hmove.move with
    | @leave _ _ address _ _ h =>
      obtain ⟨x, hexit, -⟩ := leave_eq_ok.mp (vacate_eq_ok.mp h).2
      obtain ⟨_, -, -, hload, -⟩ := Frame.exit_eq_ok.mp hexit
      have hread := (Store.read?_of_frameLoad hload).1
      obtain rfl : hostReturn = address := Option.some.inj (hcell.symm.trans hread)
      have hcalls : mb.hostCalls = m.hostCalls := hb.later.hostCalls
      refine advance_of_failure (.land ?_ ?_)
      · rintro ⟨-, hpos⟩
        omega
      · rintro ⟨hle, -⟩
        exact absurd hle (by decide)
  obtain ⟨k, hk⟩ := Moment.pursue_of_reaches hb (pursue_of_error (n := 0) hfail)
  obtain ⟨n, hn⟩ := drive_of_pursue hk
  refine ⟨n, fun fuel hle => ?_⟩
  have hdrive : drive fuel (.ok (.next m.program.entry) m) = some (.error _ mb) := drive_mono hle hn
  rw [run, hm, if_neg Bool.false_ne_true, hdrive, Option.map_some,
    flushed_of_none (flushed_of_drive (c := .dispatch _) hdrive hflush)]
  rfl

/-- **A call fails as halted if and only if it carries out a halt**, and one that succeeds gives the
record of the frame that was left last. -/
theorem call_eq_halted_iff (hflush : m.console.sink.flushFailure = none) {callee : Callee}
    {argument : Word} {r : Outcome Machine CallRecord}
    (h : m.call fuel callee argument = some r) :
    ((∃ m', r = .error .halted m') ↔ (Moment.ofCall callee argument m).Halts) ∧
      ∀ record m', r = .ok record m' →
        m'.lastCall = some record ∧ record.phase = .dispatched ∧
          record.returnAddress = hostReturn ∧
          m'.store.registers.cells[Frame.valueRegister]? = some record.value := by
  obtain ⟨o, ho, rfl⟩ := exists_drive_of_call hflush h
  obtain ⟨n, hn⟩ := pursue_of_drive (c := .entering callee argument .host) ho
  have hstart : Moment.Starts m (.ofCall callee argument m) := .call callee argument
  rw [← Moment.outcome_eq_halted_iff hstart hn]
  rcases o with ⟨_ | _, m₁⟩ | ⟨f, m₁⟩
  · obtain ⟨record, hlast, hphase, haddress, hvalue⟩ := left_of_drive ho
    have hcall : callOutcome (Outcome.within endCall (.ok .returned m₁)) = .ok record m₁.endCall :=
      callOutcome_eq_ok.mpr ⟨rfl, hlast⟩
    rw [hcall]
    refine ⟨by simp, ?_⟩
    rintro _ _ ⟨⟩
    exact ⟨hlast, hphase, haddress, hvalue⟩
  · simp [callOutcome]
  · obtain ⟨b, -, hfail⟩ := Moment.reaches_of_pursue_error (a := .ofCall callee argument m) hn
    simp [callOutcome, ne_halted_of_advance hfail]

end Machine

/-- **Runs halt and calls return.**  Take a machine that a host gets to by any requests, failed ones
among them, with a sink that can be flushed.

* No call of the host is in flight, and so no execution from the entry ends by coming back.
* If the machine has not halted, a run that ends succeeds exactly if it carries out a halt, and
  exactly then the machine has halted.  A frame that is left in the run and holds the return address
  of the host makes it fail, since that address names no block.
* A call that ends fails as halted exactly if it carries out a halt.  If control comes back from it,
  there is a last call.  If it succeeds, its record is that of the last call: control was dispatched
  to the host, and the value is in register zero. -/
theorem runs_halt_and_calls_return {config : Config} {program : Program} {console : Console}
    {s : Session} (hs : Session.Arises config program console s)
    (hflush : console.sink.flushFailure = none) :
    s.machine.hostCalls = 0 ∧
    (∀ fuel m', Machine.drive fuel (.ok (.next s.machine.program.entry) s.machine) ≠
      some (.ok .returned m')) ∧
    (s.machine.halted = false →
      (∀ fuel r, s.machine.run fuel = some r →
        ((∃ m', r = .ok () m') ↔ (Moment.ofRun s.machine).Halts) ∧
        ((Outcome.state r).halted = true ↔ ∃ m', r = .ok () m')) ∧
      ∀ a b record completion, Moment.Reaches (.ofRun s.machine) a →
        a.control = .leaving record completion → Moment.Next a b →
        a.machine.store.memory.read? (a.machine.store.fp + Frame.returnAddressOffset) =
          some Machine.hostReturn →
        ∃ n, ∀ fuel, n ≤ fuel →
          s.machine.run fuel = some (.error (.invalidTarget Machine.hostReturn) b.machine)) ∧
    ∀ callee argument fuel,
      (∀ m', Machine.drive fuel
          (Machine.invoke callee argument Machine.hostReturn s.machine.beginCall) =
            some (.ok .returned m') → m'.lastCall ≠ none) ∧
      ∀ r, s.machine.call fuel callee argument = some r →
        ((∃ m', r = .error .halted m') ↔ (Moment.ofCall callee argument s.machine).Halts) ∧
        ∀ record m', r = .ok record m' →
          m'.lastCall = some record ∧ record.phase = .dispatched ∧
            record.returnAddress = Machine.hostReturn ∧
            m'.store.registers.cells[0]? = some record.value := by
  obtain ⟨store, hsettled⟩ := hs.settled
  have hsink : s.machine.console.sink.flushFailure = none :=
    hsettled.since.sink.flushFailure.trans hflush
  refine ⟨hsettled.hostCalls, fun fuel m' => Machine.drive_ne_returned hsettled.hostCalls,
    fun hm => ⟨?_, ?_⟩, fun callee argument fuel => ⟨?_, ?_⟩⟩
  · intro fuel r h
    exact Machine.run_eq_ok_iff hm hsink hsettled.hostCalls h
  · intro a b record completion ha hc hmove hcell
    exact Machine.run_of_hostReturn hm hsink hsettled.hostCalls ha hc hmove hcell
  · intro m' h
    obtain ⟨record, hlast, -⟩ := Machine.left_of_drive h
    rw [hlast]
    exact Option.some_ne_none record
  · intro r h
    exact Machine.call_eq_halted_iff hsink h

/-- A block that calls a routine which puts the return address of the host in the place of its own,
a block that halts, and one that returns. -/
def forgedReturn : Program :=
  ⟨⟨0⟩, #[⟨[.constant ⟨1⟩ (-1)], .call (.routine ⟨1⟩) ⟨1⟩ ⟨2⟩⟩,
    ⟨[.storeFrame Frame.returnAddressOffset ⟨1⟩], .ret (some ⟨1⟩)⟩, ⟨[], .halt⟩,
    ⟨[.loadFrame ⟨1⟩ 0], .ret (some ⟨1⟩)⟩], []⟩

/-- The program before anything was asked of it. -/
def forgedSession : Session where
  machine := {
    store := ⟨.ofSize 2, .ofSize 4, .ofCapacity .upward 4, 0, .zero⟩
    console := {}
    config := { registers := 2, memory := 4 }
    program := forgedReturn }

/-- The program after a call that halted and a reset. -/
def forgedReset : Session :=
  match forgedSession.serveAll 1 [.call (.routine ⟨2⟩) 0, .reset] with
  | some (_, s) => s
  | none => forgedSession

theorem forged_host_return_fails_the_run :
    Session.Arises { registers := 2, memory := 4 } forgedReturn {} forgedReset ∧
    (∃ m', forgedSession.machine.call 1 (.routine ⟨2⟩) 0 = some (.error .halted m') ∧
      (Moment.ofCall (.routine ⟨2⟩) 0 forgedSession.machine).Halts) ∧
    (∃ n m', ∀ fuel, n ≤ fuel →
      forgedReset.machine.run fuel = some (.error (.invalidTarget (-1)) m')) ∧
    ∃ record m', forgedReset.machine.call 1 (.routine ⟨3⟩) 7 = some (.ok record m') ∧
      m'.lastCall = some record ∧ record.returnAddress = -1 ∧
      m'.store.registers.cells[0]? = some record.value := by
  have hfresh : Session.Arises { registers := 2, memory := 4 } forgedReturn {} forgedSession :=
    ⟨forgedSession.machine, 0, [], [], rfl, rfl⟩
  have hreset : Session.Arises { registers := 2, memory := 4 } forgedReturn {} forgedReset := by
    have hsome : (forgedSession.serveAll 1 [.call (.routine ⟨2⟩) 0, .reset]).isSome := by
      decide +kernel
    obtain ⟨⟨answers, s⟩, hserve⟩ := Option.isSome_iff_exists.mp hsome
    refine ⟨forgedSession.machine, 1, _, answers, rfl, hserve.trans ?_⟩
    rw [forgedReset, hserve]
  refine ⟨hreset, ?_, ?_, ?_⟩
  · have hhalts : (Moment.ofCall (.routine ⟨2⟩) 0 forgedSession.machine).Halts :=
      ⟨_, Moment.reaches_after _ 2, by decide +kernel⟩
    have hsome : (forgedSession.machine.call 1 (.routine ⟨2⟩) 0).isSome := by decide +kernel
    obtain ⟨r, hr⟩ := Option.isSome_iff_exists.mp hsome
    obtain ⟨-, -, -, hcalls⟩ := runs_halt_and_calls_return hfresh rfl
    obtain ⟨m', rfl⟩ := ((hcalls _ _ _).2 _ hr).1.mpr hhalts
    exact ⟨m', hr, hhalts⟩
  · have hmoment : ((Moment.ofRun forgedReset.machine).after 7).control =
        .leaving ⟨-1, -1, 0, .ok, .inBody⟩ ⟨-1, .ok⟩ := by decide +kernel
    have hcell : ((Moment.ofRun forgedReset.machine).after 7).machine.store.memory.read?
        (((Moment.ofRun forgedReset.machine).after 7).machine.store.fp +
          Frame.returnAddressOffset) = some Machine.hostReturn := by decide +kernel
    have hmove : Moment.Next ((Moment.ofRun forgedReset.machine).after 7)
        ((Moment.ofRun forgedReset.machine).after 8) := Moment.next_of_ne (by decide +kernel)
    obtain ⟨-, -, hrun, -⟩ := runs_halt_and_calls_return hreset rfl
    obtain ⟨n, hn⟩ := (hrun (by decide +kernel)).2 _ _ _ _ (Moment.reaches_after _ 7) hmoment hmove
      hcell
    exact ⟨n, _, hn⟩
  · have hcall : ((forgedReset.machine.call 1 (.routine ⟨3⟩) 7).bind fun r =>
        (Outcome.toExcept r).toOption) = some ⟨7, -1, 7, .ok, .dispatched⟩ := by decide +kernel
    obtain ⟨m', hm'⟩ := Outcome.exists_of_toOption hcall
    obtain ⟨-, -, -, hcalls⟩ := runs_halt_and_calls_return hreset rfl
    obtain ⟨hlast, -, haddress, hvalue⟩ := ((hcalls _ _ _).2 _ hm').2 _ _ rfl
    exact ⟨_, m', hm', hlast, haddress, hvalue⟩

end WordMachine
