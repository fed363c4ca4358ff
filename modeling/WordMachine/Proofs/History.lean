/-
Histories of sessions.

A host makes one request after another, and goes on after a request that failed.
`Session.serveAll` gives the answers to a list of requests and the session that they leave, so that
a session that a host can get to is one that `serveAll` leaves.

* `HostRequest.start?` is the moment from which a request sets the machine going, and
  `HostRequest.conclude` makes the outcome of the request from the way in which control left the
  program: `serve_eq_drive` puts the two together;
* `serve_of_failure`: an execution in which a move fails ends with the fault of that move;
* `Session.leads_serve_of`: what holds along moves holds along requests, and `serveAll_invariant`:
  what every request preserves holds in all of a history;
* `Session.Arises` are the sessions that a host gets to, and `Session.Settled` is what they keep of
  the machine that was loaded.
-/
import WordMachine.Proofs.CallReturn
import WordMachine.Proofs.Course
import WordMachine.Session.Host

namespace WordMachine

open WordMachine.Action (Leads Through leads_pure)

/-! ### Executions that requests start -/

namespace HostRequest

/-- The moment from which a request sets the machine going, if it does. -/
def start? (m : Machine) : HostRequest → Option Moment
  | run => if m.halted then none else some (.ofRun m)
  | call callee argument => some (.ofCall callee argument m)
  | reset => none
  | direct _ => none

/-- What becomes of the machine when control has left the program: a call of the host is no longer
in flight. -/
def close : HostRequest → Machine → Machine
  | call _ _, m => m.endCall
  | run, m | reset, m | direct _, m => m

/-- The outcome of a request, from the way in which control left the program. -/
def conclude (records : Array CallRecord) (o : Outcome Machine Departure) :
    HostRequest → Outcome Session Answer
  | call _ _ =>
    Session.ofMachine records .record
      (Machine.callOutcome (Machine.flushed (Outcome.within Machine.endCall o)))
  | run | reset | direct _ =>
    Session.ofMachine records (fun _ => .done) (Machine.runOutcome (Machine.flushed o))

/-- A request starts an execution if it is a call, or a run of a machine that has not halted. -/
theorem start?_eq_some {m : Machine} {request : HostRequest} {start : Moment} :
    request.start? m = some start ↔
      (request = run ∧ m.halted = false ∧ start = .ofRun m) ∨
        ∃ callee argument, request = call callee argument ∧ start = .ofCall callee argument m := by
  cases request with
  | run => cases h : m.halted <;> simp [start?, h, eq_comm (b := start)]
  | call callee argument => simp [start?, and_assoc, eq_comm (b := start)]
  | reset => simp [start?]
  | direct request => simp [start?]

theorem start?_run_eq_none {m : Machine} : run.start? m = none ↔ m.halted = true := by
  simp [start?]

theorem state_ofMachine {α : Type} (records : Array CallRecord) (answer : α → Answer)
    (o : Outcome Machine α) :
    Outcome.state (Session.ofMachine records answer o) = ⟨Outcome.state o, records⟩ := by
  cases o <;> rfl

theorem state_conclude (records : Array CallRecord) (o : Outcome Machine Departure)
    (request : HostRequest) :
    Outcome.state (request.conclude records o) = ⟨request.close (Outcome.state o), records⟩ := by
  have hrun : ∀ o, Outcome.state (Machine.runOutcome o) = Outcome.state o := by
    rintro (⟨_ | _, m⟩ | ⟨f, m⟩) <;> rfl
  have hcall : ∀ o, Outcome.state (Machine.callOutcome o) = Outcome.state o := by
    rintro (⟨_ | _, m⟩ | ⟨f, m⟩)
    · rw [Machine.callOutcome]
      cases m.lastCall <;> rfl
    · rfl
    · rfl
  cases request with
  | call callee argument =>
    rw [conclude, state_ofMachine, hcall, Machine.state_flushed, Outcome.state_within]
    rfl
  | _ =>
    rw [conclude, state_ofMachine, hrun, Machine.state_flushed]
    rfl

/-- A fault is the outcome of the request, if flushing does not fail. -/
theorem conclude_error (records : Array CallRecord) {f : Fault} {m : Machine}
    (h : m.console.sink.flushFailure = none) (request : HostRequest) :
    request.conclude records (.error f m) = .error f ⟨request.close m, records⟩ := by
  cases request with
  | call callee argument =>
    rw [conclude, Machine.flushed_of_none (o := Outcome.within Machine.endCall (.error f m)) h]
    rfl
  | _ =>
    rw [conclude, Machine.flushed_of_none (o := .error f m) h]
    rfl

/-- A fault of a request is the one with which its execution ended, or else control came back when
it should have halted, or halted when it should have come back. -/
theorem error_of_conclude {records : Array CallRecord} {r : Outcome Machine Departure}
    (h : (Outcome.state r).console.sink.flushFailure = none) {request : HostRequest} {f : Fault}
    {t : Session} (hr : request.conclude records r = .error f t) :
    (∃ m, r = .error f m ∧ t = ⟨request.close m, records⟩) ∨
      f = .halted ∨ f = .invalidTarget Machine.hostReturn := by
  cases r with
  | error e m =>
    rw [conclude_error (m := m) records h] at hr
    cases hr
    exact .inl ⟨m, rfl, rfl⟩
  | ok d m =>
    refine .inr ?_
    cases request with
    | call callee argument =>
      have hflush : Machine.flushed (Outcome.within Machine.endCall (.ok d m)) = .ok d m.endCall :=
        Machine.flushed_of_none h
      rw [conclude, hflush] at hr
      cases d with
      | returned =>
        rw [Machine.callOutcome] at hr
        cases hlast : m.endCall.lastCall <;> rw [hlast] at hr <;> cases hr
        exact .inl rfl
      | halted =>
        cases hr
        exact .inl rfl
    | _ =>
      rw [conclude, Machine.flushed_of_none h] at hr
      cases d <;> cases hr
      exact .inr rfl

/-- A call that comes back is answered with its record, if flushing does not fail. -/
theorem conclude_returned (records : Array CallRecord) {callee : Callee} {argument : Word}
    {m : Machine} (h : m.console.sink.flushFailure = none) {record : CallRecord}
    (hrecord : m.lastCall = some record) :
    (call callee argument).conclude records (.ok .returned m) =
      .ok (.record record) ⟨m.endCall, records⟩ := by
  have hflush : Machine.flushed (Outcome.within Machine.endCall (.ok Departure.returned m)) =
      .ok .returned m.endCall := Machine.flushed_of_none h
  have hcall : Machine.callOutcome (.ok .returned m.endCall) = .ok record m.endCall :=
    Machine.callOutcome_eq_ok.mpr ⟨rfl, hrecord⟩
  rw [conclude, hflush, hcall]
  rfl

end HostRequest

namespace Session

/-- A request that sets the machine going is answered as soon as control leaves the program. -/
theorem serve_eq_drive {request : HostRequest} {s : Session} {start : Moment}
    (h : request.start? s.machine = some start) (fuel : Nat) :
    s.serve fuel request =
      (Machine.drive fuel (start.control.flow start.machine)).map
        fun o => request.conclude s.records o := by
  rcases HostRequest.start?_eq_some.mp h with ⟨rfl, hm, rfl⟩ | ⟨callee, argument, rfl, rfl⟩
  · rw [serve, Machine.run, hm, if_neg Bool.false_ne_true, Option.map_map]
    rfl
  · rw [serve, Machine.call, Option.map_map]
    rfl

/-- A machine that has halted stays so. -/
theorem serve_idle {s : Session} (h : s.machine.halted = true) (fuel : Nat) :
    s.serve fuel .run = some (.ok .done s) := by
  rw [serve, Machine.run, if_pos h]
  rfl

/-- How a request can be answered. -/
inductive Served (fuel : Nat) (s : Session) : HostRequest → Outcome Session Answer → Prop
  /-- Control left the program. -/
  | driven {request : HostRequest} {start : Moment} {r : Outcome Machine Departure}
      (hstart : request.start? s.machine = some start)
      (hdrive : Machine.drive fuel (start.control.flow start.machine) = some r) :
      Served fuel s request (request.conclude s.records r)
  | idle (hhalted : s.machine.halted = true) : Served fuel s .run (.ok .done s)
  | reset : Served fuel s .reset (ofMachine s.records (fun _ => .done) (Machine.reset s.machine))
  | direct (request : Request) : Served fuel s (.direct request) (onBench (Bench.serve request) s)

theorem served_of_serve {fuel : Nat} {s : Session} {request : HostRequest}
    {o : Outcome Session Answer} (h : s.serve fuel request = some o) : Served fuel s request o := by
  cases hstart : request.start? s.machine with
  | some start =>
    rw [serve_eq_drive hstart] at h
    obtain ⟨r, hr, rfl⟩ := Option.map_eq_some_iff.mp h
    exact .driven hstart hr
  | none =>
    cases request with
    | run =>
      have hm := HostRequest.start?_run_eq_none.mp hstart
      rw [serve_idle hm] at h
      cases h
      exact .idle hm
    | call callee argument => cases hstart
    | reset =>
      cases h
      exact .reset
    | direct request =>
      cases h
      exact .direct request

end Session

/-- An execution ends as it does from any moment that it reaches. -/
theorem Moment.pursue_of_reaches {a b : Moment} (h : Reaches a b) {n : Nat}
    {o : Outcome Machine Departure} (hn : Machine.pursue n b.control b.machine = some o) :
    ∃ k, Machine.pursue k a.control a.machine = some o := by
  induction h using Relation.ReflTransGen.head_induction_on with
  | refl => exact ⟨n, hn⟩
  | head hmove _ ih =>
    obtain ⟨k, hk⟩ := ih
    exact ⟨k + 1, (Machine.pursue_of_ok hmove.1).trans hk⟩

/-- An execution that ends goes on to that end from any moment that it reaches. -/
theorem Moment.pursue_after_reaches {a b : Moment} (h : Reaches a b) {n : Nat}
    {o : Outcome Machine Departure} (hn : Machine.pursue n a.control a.machine = some o) :
    ∃ k, Machine.pursue k b.control b.machine = some o := by
  induction h using Relation.ReflTransGen.head_induction_on generalizing n with
  | refl => exact ⟨n, hn⟩
  | @head a c hmove _ ih =>
    cases n with
    | succ n => exact ih ((Machine.pursue_of_ok hmove.1).symm.trans hn)
    | zero =>
      obtain ⟨x, m, live⟩ := a
      cases x with
      | gone d =>
        refine ih (n := 0) ?_
        rw [hmove.eq_next, next_of_gone rfl]
        exact hn
      | _ => cases hn

/-- What an execution ends with is later than any moment that it reaches. -/
theorem Moment.Reaches.later_of_drive {start a : Moment} (h : Reaches start a) {fuel : Nat}
    {r : Outcome Machine Departure}
    (hr : Machine.drive fuel (start.control.flow start.machine) = some r) :
    a.machine.Later (Outcome.state r) := by
  obtain ⟨n, hn⟩ := Machine.pursue_of_drive hr
  obtain ⟨k, hk⟩ := pursue_after_reaches h hn
  obtain ⟨fuel', hfuel'⟩ := Machine.drive_of_pursue hk
  exact Machine.leads_drive_flow Machine.leads_later_advance hfuel'

/-- What is left of a block is done by moves, up to where control goes next or to a move that
fails. -/
theorem Moment.flow_cases (a : Moment) :
    (∃ f m live, a.control.flow a.machine = .ok f m ∧ Reaches a ⟨f.control, m, live⟩) ∨
      ∃ b f m, a.control.flow a.machine = .error f m ∧ Reaches a b ∧ b.control.Running ∧
        Machine.advance b.control b.machine = .error f m := by
  -- Induction on the rank, which falls with every move of a block.
  induction hk : a.control.rank using Nat.strongRecOn generalizing a with
  | ind k ih =>
    by_cases hc : a.control.Running
    · cases hmove : Machine.advance a.control a.machine with
      | ok c m =>
        have hrank : c.rank < k := hk ▸ Machine.rank_of_advance hc hmove
        have hnext : Next a ⟨c, m, a.liveAfter m⟩ := next_of_advance hmove
        rw [Machine.flow_of_ok hc hmove]
        rcases ih c.rank hrank ⟨c, m, a.liveAfter m⟩ rfl with
          ⟨f, m', live, hflow, hreach⟩ | ⟨b, f, m', hflow, hreach, hb⟩
        · exact .inl ⟨f, m', live, hflow, hreach.head hnext⟩
        · exact .inr ⟨b, f, m', hflow, hreach.head hnext, hb⟩
      | error f m => exact .inr ⟨a, f, m, Machine.flow_of_error hc hmove, .refl, hc, hmove⟩
    · obtain ⟨c, m, live⟩ := a
      cases c with
      | dispatch l => exact .inl ⟨.next l, m, live, rfl, .refl⟩
      | gone d =>
        cases d with
        | returned => exact .inl ⟨.returnToHost, m, live, rfl, .refl⟩
        | halted => exact .inl ⟨.halt, m, live, rfl, .refl⟩
      | _ => exact absurd trivial hc

theorem Moment.reaches_of_flow {a : Moment} {f : Flow} {m : Machine}
    (h : a.control.flow a.machine = .ok f m) : ∃ live, Reaches a ⟨f.control, m, live⟩ := by
  rcases a.flow_cases with ⟨f', m', live, hflow, hreach⟩ | ⟨_, _, _, hflow, -⟩
  · cases hflow.symm.trans h
    exact ⟨live, hreach⟩
  · cases hflow.symm.trans h

/-- A block that is run is run by moves. -/
theorem Moment.reaches_of_step {l : Label} {f : Flow} {m m' : Machine}
    (h : Machine.step l m = .ok f m') (live : List LiveFrame) :
    ∃ live', Reaches ⟨.dispatch l, m, live⟩ ⟨f.control, m', live'⟩ := by
  rw [Machine.step_eq_advance] at h
  obtain ⟨c, m₁, hmove, hflow⟩ := Action.bind_eq_ok.mp h
  obtain ⟨live', hreach⟩ := reaches_of_flow (a := ⟨c, m₁, live⟩) hflow
  exact ⟨live', hreach.head (next_of_advance (a := ⟨.dispatch l, m, live⟩) hmove)⟩

/-- An execution that fails is at that time in a moment from which a move fails. -/
theorem Moment.reaches_of_pursue_error {n : Nat} {a : Moment} {f : Fault} {m : Machine}
    (h : Machine.pursue n a.control a.machine = some (.error f m)) :
    ∃ b, Reaches a b ∧ Machine.advance b.control b.machine = .error f m := by
  induction n generalizing a with
  | zero =>
    obtain ⟨c, m', live⟩ := a
    cases c <;> cases h
  | succ n ih =>
    cases ha : Machine.advance a.control a.machine with
    | ok c' m' =>
      rw [Machine.pursue_of_ok ha] at h
      obtain ⟨b, hb, hfail⟩ := ih (a := ⟨c', m', a.liveAfter m'⟩) h
      exact ⟨b, hb.head (next_of_advance ha), hfail⟩
    | error e m' =>
      rw [Machine.pursue_of_error ha] at h
      cases h
      exact ⟨a, .refl, ha⟩

namespace HostRequest

variable {request : HostRequest} {m : Machine} {start : Moment}

/-- What an execution starts with is the machine, up to the number of calls in flight. -/
theorem exists_of_start? (h : request.start? m = some start) :
    ∃ n, start.machine = { m with hostCalls := n } := by
  rcases start?_eq_some.mp h with ⟨-, -, rfl⟩ | ⟨callee, argument, -, rfl⟩
  · exact ⟨m.hostCalls, rfl⟩
  · exact ⟨m.hostCalls + 1, rfl⟩

theorem program_of_reaches (h : request.start? m = some start) {a : Moment}
    (ha : Moment.Reaches start a) : a.machine.program = m.program := by
  obtain ⟨n, hn⟩ := exists_of_start? h
  rw [ha.later.program, hn]

/-- The sink fails to be flushed in an execution only if it did so before. -/
theorem flushFailure_of_reaches (h : request.start? m = some start) {a : Moment}
    (ha : Moment.Reaches start a) :
    a.machine.console.sink.flushFailure = m.console.sink.flushFailure := by
  obtain ⟨n, hn⟩ := exists_of_start? h
  rw [ha.later.sink.flushFailure, hn]

theorem flushFailure_of_drive (h : request.start? m = some start) {fuel : Nat}
    {r : Outcome Machine Departure}
    (hr : Machine.drive fuel (start.control.flow start.machine) = some r) :
    (Outcome.state r).console.sink.flushFailure = m.console.sink.flushFailure := by
  obtain ⟨n, hn⟩ := exists_of_start? h
  rw [(Machine.leads_drive_flow Machine.leads_later_advance hr).sink.flushFailure, hn]

end HostRequest

namespace Session

open HostRequest (flushFailure_of_reaches)

variable {s : Session} {request : HostRequest} {start a : Moment}

theorem serve_of_pursue (hstart : request.start? s.machine = some start)
    (ha : Moment.Reaches start a) {n : Nat} {o : Outcome Machine Departure}
    (hn : Machine.pursue n a.control a.machine = some o) :
    ∃ fuel, s.serve fuel request = some (request.conclude s.records o) := by
  obtain ⟨k, hk⟩ := Moment.pursue_of_reaches ha hn
  obtain ⟨fuel, hfuel⟩ := Machine.drive_of_pursue hk
  exact ⟨fuel, by rw [serve_eq_drive hstart, hfuel]; rfl⟩

/-- **An execution in which a move fails ends with the fault of that move**, if flushing does not
fail. -/
theorem serve_of_failure (hflush : s.machine.console.sink.flushFailure = none)
    (hstart : request.start? s.machine = some start) (ha : Moment.Reaches start a) {f : Fault}
    {m : Machine} (hfail : Machine.advance a.control a.machine = .error f m) :
    ∃ fuel, s.serve fuel request = some (.error f ⟨request.close m, s.records⟩) := by
  obtain ⟨fuel, hfuel⟩ := serve_of_pursue hstart ha (Machine.pursue_of_error (n := 0) hfail)
  have hlater := (Machine.leads_later_advance a.control).of_error hfail
  have hm : m.console.sink.flushFailure = none := by
    rw [hlater.sink.flushFailure, flushFailure_of_reaches hstart ha, hflush]
  exact ⟨fuel, by rw [hfuel, HostRequest.conclude_error _ hm]⟩

/-- A call whose callee is refused does nothing. -/
theorem serve_refused (hflush : s.machine.console.sink.flushFailure = none) {callee : Callee}
    {argument : Word} {f : Fault}
    (hfail : Machine.advance (.entering callee argument .host) s.machine.beginCall =
      .error f s.machine.beginCall) (fuel : Nat) :
    s.serve fuel (.call callee argument) = some (.error f s) := by
  let start : Moment := .ofCall callee argument s.machine
  have hflow : start.control.flow start.machine = .error f s.machine.beginCall :=
    Machine.flow_of_error trivial hfail
  have hstart : (HostRequest.call callee argument).start? s.machine = some start := rfl
  rw [serve_eq_drive hstart, hflow, Machine.drive_error, Option.map_some,
    HostRequest.conclude_error (m := s.machine.beginCall) _ hflush]
  rfl

end Session

/-! ### From moves to requests -/

namespace Bench

/-- Nothing was done to the world of a bench but quietly. -/
def Quiet (b b' : Bench) : Prop := b.world.Quiet b'.world

section

variable {R : World → World → Prop}

theorem leads_onWorld {α : Type} {x : Action World α} (h : Leads R x) :
    Leads (Through world R) (onWorld x) := h.focus fun _ _ => rfl

variable [Std.Refl R]

theorem leads_append (record : CallRecord) : Leads (Through world R) (append record) :=
  fun b => Std.Refl.refl b.world

theorem leads_onCall (index : Nat) {x : Action World.Call Answer}
    (h : Leads (Through World.Call.world R) x) : Leads (Through world R) (onCall index x) := by
  intro b
  rw [onCall]
  cases b.records[index]? with
  | none => exact Std.Refl.refl b.world
  | some record =>
    rw [Outcome.state_within]
    exact h ⟨b.world, record⟩

/-- A relation between worlds holds along a request if it holds along what the request may do to the
world. -/
theorem leads_serve_of [IsTrans World R] {request : Request}
    (hstore : ∀ r, request = .store r → Leads R (World.onStore r.serve))
    (henter : ∀ argument returnAddress, Leads R (World.enterFrame argument returnAddress))
    (hactive : Leads R (World.onStore Frame.active))
    (hexit : Leads (Through World.Call.world R) World.exitFrame) :
    Leads (Through world R) (serve request) := by
  cases request with
  | store request => exact leads_onWorld (hstore request rfl)
  | frame request =>
    cases request with
    | enter argument returnAddress =>
      exact (leads_onWorld (henter argument returnAddress)).bind leads_append
    | active => exact (leads_onWorld hactive).bind leads_append
    | stage index completion =>
      refine leads_onCall index fun c => ?_
      rw [stage]
      cases CallRecord.stage completion c.record <;> exact Std.Refl.refl c.world
    | exit index => exact leads_onCall index (hexit.bind fun _ => leads_pure _)
    | record index =>
      show Leads (Through world R) (onCall index fun c => .ok (.record c.record) c)
      exact leads_onCall index fun c => Std.Refl.refl c.world

end

/-- A frame is left on a bench as it is left by a machine. -/
theorem leads_exitFrame : Leads (Through World.Call.world World.Quiet) World.exitFrame := by
  intro c
  have h := World.leads_leaveFrame c.record c.world
  rw [World.leaveFrame] at h
  cases hexit : World.exitFrame c with
  | ok address c' => rwa [hexit] at h
  | error f c' => rwa [hexit] at h

/-- Work on a bench writes nothing and notes no dispatch. -/
theorem leads_serve (request : Request) : Leads Quiet (serve request) :=
  leads_serve_of (fun _ _ => World.leads_onStore _) World.leads_enterFrame (World.leads_onStore _)
    leads_exitFrame

end Bench

/-- The machine when a reset has cleared it and has not yet put the data into memory. -/
def Machine.cleared (m : Machine) : Machine :=
  { m with store := m.store.reset, lastCall := none, hostCalls := 0, steps := 0, halted := false }

theorem Machine.reset_eq (m : Machine) : reset m = onStore (seed m.program.data) m.cleared := rfl

/-- What a reset leaves differs from the machine in its store and in what is remembered between
blocks. -/
theorem Machine.exists_state_reset (m : Machine) :
    ∃ s, Outcome.state (reset m) =
      { m with store := s, lastCall := none, hostCalls := 0, steps := 0, halted := false } := by
  refine ⟨Outcome.state (seed m.program.data m.store.reset), ?_⟩
  rw [reset_eq, onStore, onWorld_apply, World.onStore_apply, Outcome.state_within,
    Outcome.state_within]
  rfl

namespace Session

open HostRequest (exists_of_start? state_ofMachine state_conclude)

variable {s : Session} {request : HostRequest} {fuel : Nat} {o : Outcome Session Answer}

/-- **What holds along moves holds along requests**, if it holds along direct work and a reset, and
beginning and ending a call do not disturb it. -/
theorem leads_serve_of {R : Machine → Machine → Prop} [Std.Refl R] [IsTrans Machine R]
    (hadvance : ∀ c, Leads R (Machine.advance c))
    (hcalls : ∀ m n, R m { m with hostCalls := n })
    (hdirect : ∀ r (m : Machine) records, request = .direct r →
      R m { m with toWorld := (Outcome.state (Bench.serve r ⟨m.toWorld, records⟩)).world })
    (hreset : request = .reset → ∀ m, R m (Outcome.state (Machine.reset m)))
    (h : s.serve fuel request = some o) : R s.machine (Outcome.state o).machine := by
  cases served_of_serve h with
  | @driven _ start r hstart hr =>
    obtain ⟨n, hn⟩ := exists_of_start? hstart
    have hbegin : R s.machine start.machine := hn ▸ hcalls s.machine n
    have hdrive := Machine.leads_drive_flow hadvance hr
    have hend : R (Outcome.state r) (request.close (Outcome.state r)) := by
      cases request with
      | call callee argument => exact hcalls _ _
      | _ => exact Std.Refl.refl _
    rw [state_conclude]
    exact IsTrans.trans _ _ _ hbegin (IsTrans.trans _ _ _ hdrive hend)
  | idle _ => exact Std.Refl.refl s.machine
  | reset =>
    rw [state_ofMachine]
    exact hreset rfl s.machine
  | direct request =>
    rw [onBench_apply, Outcome.state_within]
    exact hdirect request s.machine s.records rfl

/-- The same for what does not depend on the store: direct work is quiet. -/
theorem leads_serve {R : Machine → Machine → Prop} [Std.Refl R] [IsTrans Machine R]
    (hadvance : ∀ c, Leads R (Machine.advance c))
    (hcalls : ∀ m n, R m { m with hostCalls := n })
    (hworld : ∀ (m : Machine) w, m.toWorld.Quiet w → R m { m with toWorld := w })
    (hreset : request = .reset → ∀ m, R m (Outcome.state (Machine.reset m)))
    (h : s.serve fuel request = some o) : R s.machine (Outcome.state o).machine :=
  leads_serve_of hadvance hcalls
    (fun r m records _ => hworld m _ (Bench.leads_serve r ⟨m.toWorld, records⟩)) hreset h

end Session

/-! ### What a session keeps -/

namespace Machine

/-- A machine is loaded as a fresh one: all that depends on the program is its store. -/
theorem exists_of_load {config : Config} {program : Program}
    {console : Console} {m : Machine} (h : load config program console = .ok m) :
    ∃ store, m = { store, console, config, program } := by
  rw [load] at h
  split at h
  · cases h
  · split at h
    · cases h
    · cases h
      exact ⟨_, rfl⟩

/-- What holds from a machine to the same machine after requests. -/
structure Since (m m' : Machine) : Prop where
  program : m'.program = m.program
  config : m'.config = m.config
  sink : m.console.sink.Extends m'.console.sink

theorem Later.since {m m' : Machine} (h : Later m m') : Since m m' :=
  ⟨h.program, h.config, h.sink⟩

instance : Std.Refl Since := ⟨fun m => Later.since (Std.Refl.refl m)⟩

instance : IsTrans Machine Since where
  trans _ _ _ h h' :=
    ⟨h'.program.trans h.program, h'.config.trans h.config, h.sink.trans h'.sink⟩

end Machine

namespace Session

open HostRequest (state_ofMachine state_conclude)

variable {s t : Session} {request : HostRequest} {fuel : Nat} {o : Outcome Session Answer}

theorem since_of_serve (h : s.serve fuel request = some o) :
    s.machine.Since (Outcome.state o).machine := by
  refine leads_serve (fun c m => (Machine.leads_later_advance c m).since) (fun m n => ?_)
    (fun m w hw => ⟨rfl, rfl, hw.sink⟩) (fun _ m => ?_) h
  · exact ⟨rfl, rfl, .rfl⟩
  · obtain ⟨store, hstore⟩ := m.exists_state_reset
    rw [hstore]
    exact ⟨rfl, rfl, .rfl⟩

/-- Between requests no call of the host is in flight. -/
theorem hostCalls_of_serve (hs : s.machine.hostCalls = 0) (h : s.serve fuel request = some o) :
    (Outcome.state o).machine.hostCalls = 0 := by
  cases served_of_serve h with
  | @driven _ start r hstart hr =>
    have hcalls := (Machine.leads_drive_flow Machine.leads_later_advance hr).hostCalls
    rw [state_conclude]
    rcases HostRequest.start?_eq_some.mp hstart with ⟨rfl, -, rfl⟩ | ⟨callee, argument, rfl, rfl⟩
    · exact hcalls.trans hs
    · show (Outcome.state r).hostCalls - 1 = 0
      rw [hcalls]
      show s.machine.hostCalls + 1 - 1 = 0
      rw [hs]
  | idle _ => exact hs
  | reset =>
    obtain ⟨store, hstore⟩ := s.machine.exists_state_reset
    rw [state_ofMachine, hstore]
  | direct request =>
    rw [onBench_apply, Outcome.state_within]
    exact hs

/-- Answers requests one after another, whether the earlier ones succeeded or failed. -/
def serveAll (fuel : Nat) :
    List HostRequest → Session → Option (List (Except Fault Answer) × Session)
  | [], s => some ([], s)
  | request :: requests, s => do
    let o ← s.serve fuel request
    let (answers, t) ← serveAll fuel requests (Outcome.state o)
    return (Outcome.toExcept o :: answers, t)

theorem serveAll_cons {requests : List HostRequest} {answers : List (Except Fault Answer)}
    (h : s.serve fuel request = some o)
    (hrest : serveAll fuel requests (Outcome.state o) = some (answers, t)) :
    serveAll fuel (request :: requests) s = some (Outcome.toExcept o :: answers, t) := by
  rw [serveAll, h, Option.bind_eq_bind, Option.bind_some, hrest]
  rfl

/-- What every request preserves holds after all of them. -/
theorem serveAll_invariant {P : Session → Prop} {requests : List HostRequest}
    (h : ∀ request ∈ requests, ∀ s o, P s → s.serve fuel request = some o → P (Outcome.state o))
    (hs : P s) {answers : List (Except Fault Answer)}
    (hserve : serveAll fuel requests s = some (answers, t)) : P t := by
  induction requests generalizing s answers with
  | nil =>
    cases hserve
    exact hs
  | cons request requests ih =>
    obtain ⟨o, ho, hserve⟩ := Option.bind_eq_some_iff.mp hserve
    obtain ⟨⟨rest, u⟩, hrest, hserve⟩ := Option.bind_eq_some_iff.mp hserve
    cases hserve
    refine ih (fun request hmem => h request (List.mem_cons_of_mem _ hmem)) ?_ hrest
    exact h request (List.mem_cons_self) s o hs ho

/-- What a session keeps of the machine that it was opened with. -/
structure Settled (m : Machine) (s : Session) : Prop where
  since : m.Since s.machine
  hostCalls : s.machine.hostCalls = 0

theorem Settled.serve {m : Machine} (hs : Settled m s) (h : s.serve fuel request = some o) :
    Settled m (Outcome.state o) :=
  ⟨IsTrans.trans _ _ _ hs.since (since_of_serve h), hostCalls_of_serve hs.hostCalls h⟩

theorem Settled.serveAll {m : Machine} (hs : Settled m s) {requests : List HostRequest}
    {answers : List (Except Fault Answer)}
    (h : s.serveAll fuel requests = some (answers, t)) : Settled m t :=
  serveAll_invariant (fun _ _ _ _ hs h => Settled.serve hs h) hs h

/-- A session that a host gets to: a machine is loaded and requests are made of it. -/
def Arises (config : Config) (program : Program) (console : Console) (s : Session) : Prop :=
  ∃ m fuel requests answers, Machine.load config program console = .ok m ∧
    serveAll fuel requests ⟨m, #[]⟩ = some (answers, s)

theorem Arises.settled {config : Config} {program : Program} {console : Console}
    (h : Arises config program console s) :
    ∃ store, Settled { store, console, config, program } s := by
  obtain ⟨m, fuel, requests, answers, hload, hserve⟩ := h
  obtain ⟨store, rfl⟩ := Machine.exists_of_load hload
  have hopen : Settled { store, console, config, program }
      ⟨{ store, console, config, program }, #[]⟩ := ⟨Std.Refl.refl _, rfl⟩
  exact ⟨store, hopen.serveAll hserve⟩

end Session

end WordMachine
