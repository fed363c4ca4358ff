/-
Sinks that cannot be flushed.

A read flushes the sink before it takes anything from the source, so that a prompt is seen before
the answer is waited for.  A run and a call flush it once more when they end, however they end.  So
a sink that cannot be flushed stands before the source: nothing is ever read, and every run and
every call ends with its failure.

* `Console.Withheld`: the sink is flushed as before, and if that fails, the source was left alone;
* `Intrinsic.leads_withheld_body`, `Machine.leads_withheld_advance`: this holds along the bodies of
  intrinsics and along every move;
* `Session.withheld_of_serve`, `Moment.Reaches.withheld`: hence along requests, and up to any moment
  of an execution, whether it ends or not;
* `HostRequest.conclude_of_flushFailure`: the failure takes the place of the outcome;
* `nothing_passes_a_failing_flush`.
-/
import WordMachine.Proofs.Confinement
import WordMachine.Proofs.Renewal

namespace WordMachine

open WordMachine.Action (Leads Through leads_pure)

/-- If the sink could not be flushed, then it still fails in the same way, and nothing was read from
the source. -/
def Console.Withheld (c c' : Console) : Prop :=
  ∀ text, c.sink.flushFailure = some text →
    c'.sink.flushFailure = some text ∧ c'.source = c.source

instance : Std.Refl Console.Withheld := ⟨fun _ _ h => ⟨h, rfl⟩⟩

instance : IsTrans Console Console.Withheld where
  trans _ _ _ h h' text ht := by
    obtain ⟨hflush, hsource⟩ := h text ht
    obtain ⟨hflush', hsource'⟩ := h' text hflush
    exact ⟨hflush', hsource'.trans hsource⟩

/-- The same between the consoles of two worlds. -/
abbrev World.Withheld : World → World → Prop := Through World.console Console.Withheld

/-! ### Bodies of intrinsics -/

namespace Intrinsic

theorem leads_withheld_onStore {α : Type} (x : Action Store α) :
    Leads World.Withheld (World.onStore x) := by
  intro w
  rw [World.onStore_apply, Outcome.state_within]
  exact Std.Refl.refl w.console

theorem leads_withheld_print (bytes : Bytes) : Leads World.Withheld (print bytes) := by
  intro w text h
  exact ⟨(leads_print bytes w).sink.flushFailure.trans h, keeps_source_print bytes w⟩

/-- **A read fails before it takes anything from the source**, if the sink cannot be flushed. -/
theorem leads_withheld_read (i : Intrinsic)
    (accept : Bytes → Action World (Except InputFailure Word)) :
    Leads World.Withheld (read i accept) := by
  intro w text h
  have hflush : World.onConsole Console.flush w = .error (.stream text) w := by
    rw [World.onConsole_apply, Console.flush, Console.onSink_apply, Sink.flush, h]
    rfl
  have hread : read i accept w = .error (.stream text) w :=
    Action.bind_of_error (Action.bind_of_error hflush)
  rw [hread]
  exact ⟨h, rfl⟩

theorem leads_withheld_body (i : Intrinsic) : Leads World.Withheld i.body := by
  refine (leads_withheld_onStore _).bind fun argument => ?_
  cases i with
  | printInteger | printBoolean => exact leads_withheld_print _
  | printString | printFloat =>
    exact (leads_withheld_onStore _).bind fun _ => leads_withheld_print _
  | readInteger | readFloat | readString | readBoolean => exact leads_withheld_read _ _

end Intrinsic

/-! ### From moves to requests -/

namespace Machine

/-- The same between the consoles of two machines. -/
abbrev Withheld : Machine → Machine → Prop := Through (fun m => m.console) Console.Withheld

/-- **No move reads anything behind a sink that cannot be flushed**, whether it succeeds or
fails. -/
theorem leads_withheld_advance (c : Control) : Leads Withheld (advance c) := by
  by_cases hc : ∃ i argument record, c = .serving i argument record
  · obtain ⟨i, argument, record, rfl⟩ := hc
    have hbody : Leads Withheld (onWorld i.body) := by
      intro m
      rw [onWorld_apply, Outcome.state_within]
      exact Intrinsic.leads_withheld_body i m.toWorld
    refine Leads.bind (fun m => ?_) fun _ => hbody.bind fun _ => leads_pure _
    exact Std.Refl.refl m.console
  · intro m text h
    refine ⟨(leads_later_advance c m).sink.flushFailure.trans h, ?_⟩
    -- Nothing but the body of an intrinsic touches the source at all.
    refine secluded_source.advance (c := c) ?_ m
    intro i argument record hserving
    exact absurd ⟨i, argument, record, hserving⟩ hc

end Machine

theorem Moment.Reaches.withheld {a b : Moment} (h : Reaches a b) :
    a.machine.console.Withheld b.machine.console := by
  induction h with
  | refl => exact Std.Refl.refl a.machine.console
  | tail _ hmove ih =>
    exact IsTrans.trans _ _ _ ih ((Machine.leads_withheld_advance _).of_ok hmove.1)

/-- Direct work on a store leaves the console alone. -/
theorem Bench.console_of_serve (request : Request) (b : Bench) :
    b.world.console = (Outcome.state (serve request b)).world.console := by
  have honStore : ∀ {α : Type} (x : Action Store α),
      Leads (Through World.console Eq) (World.onStore x) := by
    intro α x w
    rw [World.onStore_apply, Outcome.state_within]
    rfl
  have hnote : ∀ event, Leads (Through World.console Eq) (World.note event) := fun _ _ => rfl
  refine leads_serve_of (R := Through World.console Eq) (fun r _ => honStore _) ?_ (honStore _) ?_ b
  · exact fun _ _ => (honStore _).bind fun _ => (hnote _).bind fun _ => leads_pure _
  · have hexit : Leads (Through World.Call.world (Through World.console Eq))
        (World.Call.onActivation Frame.exit) := by
      intro c
      rw [World.Call.onActivation_apply, Outcome.state_within]
      rfl
    refine hexit.bind fun _ => Action.leads_get.bind fun _ => ?_
    exact Leads.bind (fun _ => rfl) fun _ => leads_pure _

namespace HostRequest

/-- **A failing flush takes the place of the outcome**, whatever that was. -/
theorem conclude_of_flushFailure (records : Array CallRecord) {r : Outcome Machine Departure}
    {text : String} (h : (Outcome.state r).console.sink.flushFailure = some text)
    (request : HostRequest) :
    request.conclude records r =
      .error (.stream text) ⟨request.close (Outcome.state r), records⟩ := by
  cases request with
  | call callee argument =>
    have hstate : Outcome.state (Outcome.within Machine.endCall r) = (Outcome.state r).endCall :=
      Outcome.state_within _ r
    have hend : (Outcome.state (Outcome.within Machine.endCall r)).console.sink.flushFailure =
        some text := by
      rw [hstate]
      exact h
    rw [conclude, Machine.flushed_of_some hend, hstate]
    rfl
  | run | reset | direct _ =>
    rw [conclude, Machine.flushed_of_some h]
    rfl

end HostRequest

namespace Session

variable {s : Session} {request : HostRequest} {fuel : Nat} {o : Outcome Session Answer}

theorem withheld_of_serve (h : s.serve fuel request = some o) :
    s.machine.console.Withheld (Outcome.state o).machine.console := by
  refine leads_serve_of (R := Machine.Withheld)
    Machine.leads_withheld_advance (fun m n => ?_) (fun r m records _ => ?_) (fun _ m => ?_) h
  · exact Std.Refl.refl m.console
  · show m.console.Withheld (Outcome.state (Bench.serve r ⟨m.toWorld, records⟩)).world.console
    rw [← Bench.console_of_serve]
    exact Std.Refl.refl m.console
  · obtain ⟨store, hstore⟩ := m.exists_state_reset
    show m.console.Withheld (Outcome.state (Machine.reset m)).console
    rw [hstore]
    exact Std.Refl.refl m.console

/-- A request that sets the machine going is answered with the failure of the flush. -/
theorem serve_of_flushFailure {text : String}
    (hflush : s.machine.console.sink.flushFailure = some text) {start : Moment}
    (hstart : request.start? s.machine = some start) (h : s.serve fuel request = some o) :
    Outcome.toExcept o = .error (.stream text) := by
  rw [serve_eq_drive hstart] at h
  obtain ⟨r, hr, rfl⟩ := Option.map_eq_some_iff.mp h
  have hlast := (HostRequest.flushFailure_of_drive hstart hr).trans hflush
  rw [HostRequest.conclude_of_flushFailure _ hlast]
  rfl

theorem Arises.withheld {config : Config} {program : Program} {console : Console}
    (h : Arises config program console s) : console.Withheld s.machine.console := by
  obtain ⟨m, fuel, requests, answers, hload, hserve⟩ := h
  obtain ⟨store, rfl⟩ := Machine.exists_of_load hload
  refine serveAll_invariant (P := fun t => console.Withheld t.machine.console) ?_ ?_ hserve
  · intro request _ t o ht ho
    exact IsTrans.trans _ _ _ ht (withheld_of_serve ho)
  · exact Std.Refl.refl console

end Session

/-- **Nothing passes a failing flush.**  Take any session with a sink whose flush fails.  Nothing
has been read from the source, and nothing is read in any moment of a run or a call, nor by any
request that is answered.  And every call, and every run of a machine that has not halted, is
answered with the failure of the flush if it is answered at all, whatever else has come of it. -/
theorem nothing_passes_a_failing_flush {config : Config} {program : Program} {console : Console}
    {text : String} (hflush : console.sink.flushFailure = some text) {s : Session}
    (hs : Session.Arises config program console s) :
    s.machine.console.source = console.source ∧
    ∀ request : HostRequest,
      (∀ start a, request.start? s.machine = some start → Moment.Reaches start a →
        a.machine.console.source = console.source) ∧
      ∀ fuel o, s.serve fuel request = some o →
        (Outcome.state o).machine.console.source = console.source ∧
        (request.isCall = true ∨ request = .run ∧ s.machine.halted = false →
          Outcome.toExcept o = .error (.stream text)) := by
  obtain ⟨hflush', hsource⟩ := hs.withheld text hflush
  refine ⟨hsource, fun request => ⟨fun start a hstart ha => ?_, fun fuel o ho => ⟨?_, ?_⟩⟩⟩
  · obtain ⟨n, hn⟩ := HostRequest.exists_of_start? hstart
    have hconsole : start.machine.console = s.machine.console := by rw [hn]
    obtain ⟨-, ha'⟩ := ha.withheld text (by rw [hconsole, hflush'])
    rw [ha', hconsole, hsource]
  · exact (Session.withheld_of_serve ho text hflush').2.trans hsource
  · intro hrequest
    have hstart : ∃ start, request.start? s.machine = some start := by
      rcases hrequest with hcall | ⟨rfl, hrun⟩
      · cases request with
        | call callee argument => exact ⟨_, rfl⟩
        | run | reset | direct _ => cases hcall
      · exact ⟨_, HostRequest.start?_eq_some.mpr (.inl ⟨rfl, hrun, rfl⟩)⟩
    obtain ⟨start, hstart⟩ := hstart
    exact Session.serve_of_flushFailure hflush' hstart ho

/-- A seven to read, and a sink that cannot be flushed. -/
def unflushable : Console := ⟨seven, { flushFailure := some "disk full" }⟩

/-- A program that halts at once. -/
def halting : Program := ⟨⟨0⟩, #[⟨[], .halt⟩], []⟩

theorem unflushable_console_reads_nothing :
    ∃ m answers s o, Machine.load { registers := 2, memory := 8 } halting unflushable = .ok m ∧
      Session.serveAll 1 [.call (.intrinsic .readInteger) 9] ⟨m, #[]⟩ = some (answers, s) ∧
      s.machine.console.source = seven ∧ s.serve 1 .run = some o ∧
      (Outcome.state o).machine.halted = true ∧
      Outcome.toExcept o = .error (.stream "disk full") ∧
      (Outcome.state o).machine.console.source = seven := by
  have hrun : ((Machine.load { registers := 2, memory := 8 } halting unflushable).toOption.bind
      fun m => (Session.serveAll 1 [.call (.intrinsic .readInteger) 9] ⟨m, #[]⟩).bind fun r =>
        (r.2.serve 1 .run).map fun o =>
          (r.2.machine.halted, (Outcome.state o).machine.halted)) = some (false, true) := by
    decide +kernel
  obtain ⟨m, hm, hserved⟩ := Option.bind_eq_some_iff.mp hrun
  obtain ⟨⟨answers, s⟩, hserve, hran⟩ := Option.bind_eq_some_iff.mp hserved
  obtain ⟨o, ho, hend⟩ := Option.map_eq_some_iff.mp hran
  obtain ⟨hbefore, hafter⟩ := Prod.mk.inj hend
  have hload := Machine.load_of_toOption hm
  have hs : Session.Arises { registers := 2, memory := 8 } halting unflushable s :=
    ⟨m, 1, _, answers, hload, hserve⟩
  obtain ⟨hsource, hrequest⟩ := nothing_passes_a_failing_flush rfl hs
  obtain ⟨hsource', hfault⟩ := (hrequest .run).2 1 o ho
  exact ⟨m, answers, s, o, hload, hserve, hsource, ho, hafter, hfault (.inr ⟨rfl, hbefore⟩),
    hsource'⟩

end WordMachine
