/-
Dispatch never leaves the program.

Labels come to the dispatcher from the entry, from jumps and branches, from callees, from words in
registers and from return addresses that were read back out of memory.  The first four are labels
that the program names, and a program is built only if they exist; words are looked up before they
are followed.  So control is always inside the program, whatever a program does to its own frames.

* `Control.Inside` is the invariant, `inside_of_reaches` says that executions keep it;
* `dispatch_stays_inside`: in every session that a host gets to, every label that is dispatched
  names a block, and a word that names none is a fault where control was to go to it.
-/
import WordMachine.Proofs.Failures
import WordMachine.Proofs.History

namespace WordMachine

/-- What is left to do leads only to blocks that exist, as far as labels say. -/
def Control.Inside (p : Program) : Control → Prop
  | dispatch l => l.index.toNat < p.blocks.size
  | inside _ t => ∀ l ∈ t.targets, l.index.toNat < p.blocks.size
  | entering (.routine l) _ _ => l.index.toNat < p.blocks.size
  | _ => True

/-- A move of control that is inside the program does not fail for want of a block. -/
theorem Control.Inside.ne_unknownLabel {p : Program} {c : Control} (hc : c.Inside p)
    {m m' : Machine} (hprogram : m.program = p) {f : Fault}
    (h : Machine.advance c m = .error f m') {k : UInt32} : f ≠ .unknownLabel k := by
  rintro rfl
  subst hprogram
  cases Machine.failure_of_advance h with
  | dispatch hlimit hl => exact absurd hc (Nat.not_lt.mpr hl)
  | routine hl => exact absurd hc (Nat.not_lt.mpr hl)
  | plain hf h => cases hf

namespace Moment

variable {p : Program}

/-- **A move does not lead out of the program.** -/
theorem inside_next (hp : p.Built) {a b : Moment} (hprogram : a.machine.program = p)
    (ha : a.control.Inside p) (h : Next a b) : b.control.Inside p := by
  obtain ⟨c, m, live⟩ := a
  obtain ⟨c', m', live'⟩ := b
  subst hprogram
  cases h.move with
  | dispatch hlimit hblock =>
    intro l hl
    have hmem := Array.mem_toList_iff.mpr (Array.mem_of_getElem? (Program.block_eq_ok.mp hblock))
    exact hp.names l (Program.targets_subset hmem hl)
  | execute _ => exact ha
  | jump => exact ha _ List.mem_cons_self
  | @branch r ifZero otherwise v _ hv =>
    refine ha _ ?_
    by_cases hzero : v = 0
    · simp [hzero, Transfer.targets]
    · simp [hzero, Transfer.targets]
  | jumpRegister hv hl => exact Program.lt_of_resolve hl
  | @call callee r resume v _ hv =>
    cases callee with
    | routine l => exact ha l List.mem_cons_self
    | intrinsic i => trivial
  | enterRoutine hblock henter => exact ha
  | landBlock haddress hl => exact Program.lt_of_resolve hl
  | ret _ _ | halt | enterIntrinsic _ _ | serve _ | leave _ | landHost _ _ | stay => trivial

/-- Control stays inside the program, if it is so at the start. -/
theorem inside_of_reaches (hp : p.Built) {start a : Moment} (hprogram : start.machine.program = p)
    (hstart : start.control.Inside p) (ha : Reaches start a) : a.control.Inside p := by
  refine ha.invariant (P := fun b => b.control.Inside p) hstart fun b c hb hinside hmove => ?_
  exact inside_next hp (hb.later.program.trans hprogram) hinside hmove

end Moment

/-! ### Sessions -/

/-- Whether a request is a call. -/
def HostRequest.isCall : HostRequest → Bool
  | call _ _ => true
  | run | reset | direct _ => false

namespace Session

variable {p : Program} {s : Session} {request : HostRequest} {start a : Moment}

/-- Executions start inside the program, except that a host can ask for a routine that does not
exist. -/
theorem inside_of_start? (hp : p.Built) (hprogram : s.machine.program = p)
    (hstart : request.start? s.machine = some start) :
    start.control.Inside p ∨
      ∃ l argument, request = .call (.routine l) argument ∧ p.blocks.size ≤ l.index.toNat := by
  rcases HostRequest.start?_eq_some.mp hstart with ⟨rfl, -, rfl⟩ | ⟨callee, argument, rfl, rfl⟩
  · exact .inl (hprogram ▸ hp.names _ (hprogram ▸ List.mem_cons_self))
  · cases callee with
    | intrinsic i => exact .inl trivial
    | routine l =>
      by_cases hl : l.index.toNat < p.blocks.size
      · exact .inl hl
      · exact .inr ⟨l, argument, rfl, by omega⟩

/-- A frame was left before control lands, so that there is a last call. -/
theorem exists_lastCall (hstart : request.start? s.machine = some start)
    (ha : Moment.Reaches start a) {w : Word} (hc : a.control = .landing w) :
    ∃ record, a.machine.lastCall = some record := by
  rcases Relation.ReflTransGen.cases_tail ha with rfl | ⟨b, -, hmove⟩
  · rcases HostRequest.start?_eq_some.mp hstart with ⟨-, -, rfl⟩ | ⟨_, _, -, rfl⟩ <;> cases hc
  · obtain ⟨c, m, live⟩ := a
    obtain ⟨c', m', live'⟩ := b
    cases hc
    cases hmove.move with
    | leave h =>
      obtain ⟨x, -, rfl⟩ := Machine.leave_eq_ok.mp (Machine.vacate_eq_ok.mp h).2
      exact ⟨x.record, rfl⟩

/-- **Every label that is dispatched names a block.** -/
theorem lt_of_dispatch (hp : p.Built) (hprogram : s.machine.program = p)
    (hstart : request.start? s.machine = some start) (ha : Moment.Reaches start a) {l : Label}
    (hc : a.control = .dispatch l) : l.index.toNat < p.blocks.size := by
  obtain ⟨n, hn⟩ := HostRequest.exists_of_start? hstart
  rcases inside_of_start? hp hprogram hstart with hinside | ⟨k, argument, rfl, hk⟩
  · have hprogram' : start.machine.program = p := by rw [hn, hprogram]
    have hlast := Moment.inside_of_reaches hp hprogram' hinside ha
    rwa [hc] at hlast
  · cases hstart
    -- No move is made when the host asks for a routine that does not exist.
    rcases Relation.ReflTransGen.cases_head ha with rfl | ⟨b, hmove, -⟩
    · cases hc
    · have hfail : Machine.advance (.entering (.routine k) argument .host) s.machine.beginCall =
          .error (.unknownLabel k.index) s.machine.beginCall :=
        Machine.advance_of_failure (.routine (hprogram ▸ hk))
      cases hfail.symm.trans hmove.1

/-- An execution that starts inside the program does not fail for want of a block. -/
theorem serve_ne_unknownLabel (hp : p.Built) (hprogram : s.machine.program = p)
    (hflush : s.machine.console.sink.flushFailure = none)
    (hstart : request.start? s.machine = some start) (hinside : start.control.Inside p)
    (fuel : Nat) (k : UInt32) (t : Session) :
    s.serve fuel request ≠ some (.error (.unknownLabel k) t) := by
  intro h
  rw [serve_eq_drive hstart] at h
  obtain ⟨r, hr, hconclude⟩ := Option.map_eq_some_iff.mp h
  obtain ⟨n, hn⟩ := HostRequest.exists_of_start? hstart
  have hflush' := (HostRequest.flushFailure_of_drive hstart hr).trans hflush
  rcases HostRequest.error_of_conclude hflush' hconclude with ⟨m, rfl, -⟩ | hf | hf
  · obtain ⟨n, hpursue⟩ := Machine.pursue_of_drive hr
    obtain ⟨b, hb, hfail⟩ := Moment.reaches_of_pursue_error hpursue
    have hprogram' : start.machine.program = p := by rw [hn, hprogram]
    have hlast := Moment.inside_of_reaches hp hprogram' hinside hb
    exact hlast.ne_unknownLabel (hb.later.program.trans hprogram') hfail rfl
  · cases hf
  · cases hf

theorem serve_run_ne_unknownLabel (hp : p.Built) (hprogram : s.machine.program = p)
    (hflush : s.machine.console.sink.flushFailure = none) (fuel : Nat) (k : UInt32) (t : Session) :
    s.serve fuel .run ≠ some (.error (.unknownLabel k) t) := by
  cases hm : s.machine.halted with
  | true =>
    rw [serve_idle hm]
    intro h
    cases h
  | false =>
    have hstart : HostRequest.run.start? s.machine = some (.ofRun s.machine) :=
      HostRequest.start?_eq_some.mpr (.inl ⟨rfl, hm, rfl⟩)
    rcases inside_of_start? hp hprogram hstart with hinside | ⟨_, _, hcall, -⟩
    · exact serve_ne_unknownLabel hp hprogram hflush hstart hinside fuel k t
    · cases hcall

/-- **A call ends for want of a block if and only if its routine does not exist**, and then it does
nothing. -/
theorem serve_call_eq_unknownLabel (hp : p.Built) (hprogram : s.machine.program = p)
    (hflush : s.machine.console.sink.flushFailure = none) (fuel : Nat) (callee : Callee)
    (argument : Word) (k : UInt32) (t : Session) :
    s.serve fuel (.call callee argument) = some (.error (.unknownLabel k) t) ↔
      callee = .routine ⟨k⟩ ∧ p.blocks.size ≤ k.toNat ∧ t = s := by
  have hrefused : ∀ l : Label, p.blocks.size ≤ l.index.toNat →
      s.serve fuel (.call (.routine l) argument) = some (.error (.unknownLabel l.index) s) :=
    fun l hl => serve_refused hflush (Machine.advance_of_failure (.routine (hprogram ▸ hl))) fuel
  have hstart : (HostRequest.call callee argument).start? s.machine =
      some (.ofCall callee argument s.machine) := rfl
  constructor
  · intro h
    rcases inside_of_start? hp hprogram hstart with hinside | ⟨l, _, hcall, hl⟩
    · exact absurd h (serve_ne_unknownLabel hp hprogram hflush hstart hinside fuel k t)
    · cases hcall
      rw [hrefused l hl] at h
      cases h
      exact ⟨rfl, hl, rfl⟩
  · rintro ⟨rfl, hl, rfl⟩
    exact hrefused ⟨k⟩ hl

/-- A call of the host is in flight in the executions that calls start, and in no others. -/
theorem hostCalls_pos_iff (hs : s.machine.hostCalls = 0)
    (hstart : request.start? s.machine = some start) (ha : Moment.Reaches start a) :
    0 < a.machine.hostCalls ↔ request.isCall = true := by
  rw [ha.later.hostCalls]
  rcases HostRequest.start?_eq_some.mp hstart with ⟨rfl, -, rfl⟩ | ⟨callee, argument, rfl, rfl⟩
  · show 0 < s.machine.hostCalls ↔ _
    simp [hs, HostRequest.isCall]
  · simp [Moment.ofCall, Machine.beginCall, HostRequest.isCall]

/-- A frame that holds the return address of the host is left to the host, if it made a call. -/
theorem serve_of_return (hflush : s.machine.console.sink.flushFailure = none)
    (hs : s.machine.hostCalls = 0) (hstart : request.start? s.machine = some start)
    (ha : Moment.Reaches start a) (hc : a.control = .landing Machine.hostReturn)
    (hcall : request.isCall = true) :
    ∃ record, a.machine.lastCall = some record ∧
      ∃ fuel t, s.serve fuel request = some (.ok (.record record) t) := by
  obtain ⟨record, hrecord⟩ := exists_lastCall hstart ha hc
  have hmove : Machine.advance a.control a.machine = .ok (.gone .returned) a.machine := by
    rw [hc]
    exact Machine.advance_of_move (.landHost rfl ((hostCalls_pos_iff hs hstart ha).mpr hcall))
  have hpursue : Machine.pursue 1 a.control a.machine = some (.ok .returned a.machine) :=
    Machine.pursue_of_ok hmove
  obtain ⟨fuel, hfuel⟩ := serve_of_pursue hstart ha hpursue
  have hflush' := (HostRequest.flushFailure_of_reaches hstart ha).trans hflush
  cases request with
  | call callee argument =>
    exact ⟨record, hrecord, fuel, _,
      hfuel.trans (congrArg some (HostRequest.conclude_returned _ hflush' hrecord))⟩
  | run | reset | direct _ => cases hcall

end Session

/-- **Dispatch never leaves the program.**  In a session that a host gets to with a program that was
built, every label that is dispatched names a block.  A word that names none is a fault when control
is to go to it, from a register or from a frame that was left; the one exception is the return
address of the host in a frame that is left during a call of the host, and there the call comes
back.  So a run never ends for want of a block, and a call does so only if the routine that it asks
for does not exist, and then it does nothing. -/
theorem dispatch_stays_inside {p : Program} (hp : p.Built) {config : Config} {console : Console}
    (hflush : console.sink.flushFailure = none) {s : Session}
    (hs : Session.Arises config p console s) :
    (∀ request start a, request.start? s.machine = some start → Moment.Reaches start a →
      (∀ l, a.control = .dispatch l → l.index.toNat < p.blocks.size) ∧
      (∀ r w, a.control = .inside [] (.jumpRegister r) →
        a.machine.store.registers.cells[r.index.toNat]? = some w → ¬ p.Indexes w →
        ∃ fuel t, s.serve fuel request = some (.error (.invalidTarget w) t)) ∧
      (∀ w, a.control = .landing w → ¬ p.Indexes w →
        if w = Machine.hostReturn ∧ request.isCall = true then
          ∃ record, a.machine.lastCall = some record ∧
            ∃ fuel t, s.serve fuel request = some (.ok (.record record) t)
        else ∃ fuel t, s.serve fuel request = some (.error (.invalidTarget w) t))) ∧
    (∀ fuel l t, s.serve fuel .run ≠ some (.error (.unknownLabel l) t)) ∧
    ∀ fuel callee argument l t,
      s.serve fuel (.call callee argument) = some (.error (.unknownLabel l) t) ↔
        callee = .routine ⟨l⟩ ∧ p.blocks.size ≤ l.toNat ∧ t = s := by
  obtain ⟨store, hsettled⟩ := hs.settled
  have hprogram : s.machine.program = p := hsettled.since.program
  have hflush' : s.machine.console.sink.flushFailure = none :=
    hsettled.since.sink.flushFailure.trans hflush
  refine ⟨fun request start a hstart ha => ⟨?_, ?_, ?_⟩, ?_, ?_⟩
  · exact fun l hc => Session.lt_of_dispatch hp hprogram hstart ha hc
  · intro r w hc hw hindex
    have hprogram' := (HostRequest.program_of_reaches hstart ha).trans hprogram
    have hfail := Machine.advance_of_failure (.jumpRegister hw (hprogram' ▸ hindex))
    obtain ⟨fuel, hfuel⟩ := Session.serve_of_failure hflush' hstart ha (hc ▸ hfail)
    exact ⟨fuel, _, hfuel⟩
  · intro w hc hindex
    have hprogram' := (HostRequest.program_of_reaches hstart ha).trans hprogram
    split
    · next h => exact Session.serve_of_return hflush' hsettled.hostCalls hstart ha (h.1 ▸ hc) h.2
    · next h =>
      have hcalls := Session.hostCalls_pos_iff hsettled.hostCalls hstart ha
      have hfail := Machine.advance_of_failure (.land (by rwa [hcalls]) (hprogram' ▸ hindex))
      obtain ⟨fuel, hfuel⟩ := Session.serve_of_failure hflush' hstart ha (hc ▸ hfail)
      exact ⟨fuel, _, hfuel⟩
  · exact Session.serve_run_ne_unknownLabel hp hprogram hflush'
  · exact Session.serve_call_eq_unknownLabel hp hprogram hflush'

/-- A routine that puts a word of its own in the place of its return address, and a jump to the
return address of the host. -/
def overwriter : Program :=
  ⟨⟨1⟩, #[⟨[.constant ⟨1⟩ 77, .storeFrame Frame.returnAddressOffset ⟨1⟩], .ret none⟩,
    ⟨[.constant ⟨1⟩ (-1)], .jumpRegister ⟨1⟩⟩], []⟩

/-- The program before anything was asked of it. -/
def freshOverwriter : Session where
  machine := {
    store := ⟨.ofSize 2, .ofSize 8, .ofCapacity .upward 8, 0, .zero⟩
    console := {}
    config := { registers := 2, memory := 8 }
    program := overwriter }

/-- The program after it was run. -/
def usedOverwriter : Session :=
  match freshOverwriter.serveAll 1 [.run] with
  | some (_, s) => s
  | none => freshOverwriter

theorem overwritten_return_stays_inside :
    Session.Arises { registers := 2, memory := 8 } overwriter {} usedOverwriter ∧
    (∃ fuel t, usedOverwriter.serve fuel .run = some (.error (.invalidTarget (-1)) t)) ∧
    (∃ fuel t, usedOverwriter.serve fuel (.call (.routine ⟨0⟩) 5) =
      some (.error (.invalidTarget 77) t)) ∧
    ∀ fuel, usedOverwriter.serve fuel (.call (.routine ⟨2⟩) 5) =
      some (.error (.unknownLabel 2) usedOverwriter) := by
  have hp : overwriter.Built := .ofBlocks (Program.ofBlocks_eq_ok.mpr ⟨rfl, by decide +kernel⟩)
  have hs : Session.Arises { registers := 2, memory := 8 } overwriter {} usedOverwriter := by
    have hsome : (freshOverwriter.serveAll 1 [.run]).isSome := by decide +kernel
    obtain ⟨⟨answers, s⟩, hserve⟩ := Option.isSome_iff_exists.mp hsome
    refine ⟨freshOverwriter.machine, 1, [.run], answers, rfl, hserve.trans ?_⟩
    rw [usedOverwriter, hserve]
  have hlabel : ¬ overwriter.Indexes (-1) ∧ ¬ overwriter.Indexes 77 := by decide +kernel
  obtain ⟨hmoments, -, hcall⟩ := dispatch_stays_inside hp rfl hs
  obtain ⟨-, hjump, -⟩ := hmoments .run _ _ rfl
    (Moment.reaches_after (.ofRun usedOverwriter.machine) 2)
  obtain ⟨-, -, hland⟩ := hmoments (.call (.routine ⟨0⟩) 5) _ _ rfl
    (Moment.reaches_after (.ofCall (.routine ⟨0⟩) 5 usedOverwriter.machine) 6)
  refine ⟨hs, hjump ⟨1⟩ (-1) ?_ ?_ hlabel.1, hland 77 ?_ hlabel.2, fun fuel => ?_⟩
  · decide +kernel
  · decide +kernel
  · decide +kernel
  · exact (hcall fuel _ _ _ _).mpr ⟨rfl, by decide +kernel, rfl⟩

end WordMachine
