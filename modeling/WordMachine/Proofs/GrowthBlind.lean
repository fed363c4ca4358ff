/-
Programs that do not look at addresses do not see which way the stack grows.

A program without memory instructions and without the intrinsics that take addresses, in whose run
the stack is used in an orderly way, gives the same results on a machine whose stack grows up and on
one whose stack grows down.

* `Program.addressFree`: the programs in question; `Moment.Orderly` (for a run on the machine whose
  stack grows up) is the discipline that they must keep to;
* `Machine.agree_advance`: a move treats two machines that mirror each other alike;
* `Machine.agree_pursue`: so does a whole run;
* `growth_not_observable`: the two runs end together and in the same way.
-/
import WordMachine.Proofs.Mirror

namespace WordMachine

open Outcome (Agree)
open WordMachine.Action (Respects respects_pure respects_ofExcept agree_bind)

/-! ### Programs without addresses -/

def Callee.addressFree : Callee → Bool
  | .routine _ => true
  | .intrinsic i => !i.takesAddress

def Transfer.addressFree : Transfer → Bool
  | .call callee _ _ => callee.addressFree
  | _ => true

def Block.addressFree (b : Block) : Bool :=
  b.instructions.all Instruction.addressFree && b.transfer.addressFree

/-- Whether a program has no instruction that looks at addresses and calls no intrinsic that takes
one. -/
def Program.addressFree (p : Program) : Bool := p.blocks.toList.all Block.addressFree

/-- Whether what is left to do of a block looks at no address. -/
def Control.addressFree : Control → Bool
  | .inside rest t => rest.all Instruction.addressFree && t.addressFree
  | .entering callee _ _ => callee.addressFree
  | .serving i _ _ => !i.takesAddress
  | _ => true

/-- Whether control is in a frame. -/
def Control.framed : Control → Bool
  | .serving _ _ _ => true
  | .leaving _ _ => true
  | _ => false

/-- A moment of a run without addresses. -/
structure Moment.Blind (a : Moment) : Prop where
  program : a.machine.program.addressFree = true
  control : a.control.addressFree = true
  framed : a.control.framed = true → a.live ≠ []

theorem Moment.Blind.next {a b : Moment} (ha : a.Blind) (ho : a.Orderly) (h : Next a b) :
    b.Blind := by
  obtain ⟨c, m, live⟩ := a
  obtain ⟨c', m', live'⟩ := b
  have hprogram : m'.program = m.program := congrArg Prod.fst h.setting_eq
  have hlive : live' = liveAfter _ m' := h.2
  refine ⟨hprogram ▸ ha.program, ?_, ?_⟩
  · have hc := ha.control
    cases h.move with
    | @dispatch l b _ _ hblock =>
      have hmem := Array.mem_toList_iff.mpr (Array.mem_of_getElem? (Program.block_eq_ok.mp hblock))
      exact List.all_eq_true.mp ha.program b hmem
    | execute _ =>
      simp only [Control.addressFree, List.all_cons, Bool.and_eq_true] at hc ⊢
      exact ⟨hc.1.2, hc.2⟩
    | call _ =>
      simp only [Control.addressFree, Bool.and_eq_true] at hc
      exact hc.2
    | enterIntrinsic _ _ => exact hc
    | _ => rfl
  · intro hf
    subst hlive
    cases h.move with
    -- A return needs a live frame, and an intrinsic is served in its own.
    | ret _ _ => exact ho.1 rfl
    | enterIntrinsic _ _ => exact List.cons_ne_nil _ _
    | serve _ => exact ha.framed rfl
    | _ => cases hf

namespace Machine

variable {α : Type} {size : Nat} {live : List LiveFrame} {u d : Machine}

/-! ### One move -/

theorem respects_count : Respects Similar (Mirrored size live) count := by
  intro u d h
  have hlimit : u.config.stepLimit = d.config.stepLimit := congrArg Context.stepLimit h.2
  have hsteps : u.steps = d.steps := congrArg Context.steps h.2
  have hcontext : context { u with steps := u.steps + 1 } =
      context { d with steps := d.steps + 1 } :=
    congrArg (fun c => { c with steps := c.steps + 1 }) h.2
  rw [count, count, ← hlimit]
  cases u.config.stepLimit with
  | none => exact ⟨rfl, h.1, hcontext⟩
  | some limit =>
    dsimp only
    rw [← hsteps]
    split
    · exact ⟨rfl, h.1.similar, hsteps ▸ hcontext⟩
    · exact ⟨rfl, h.1, hsteps ▸ hcontext⟩

theorem respects_goTo (target : Word) : Respects Similar (Mirrored size live) (goTo target) := by
  intro u d h
  have hprogram : u.program = d.program := congrArg Context.program h.2
  rw [goTo, goTo, ← hprogram]
  cases u.program.resolve target with
  | ok l => exact ⟨rfl, h⟩
  | error f => exact ⟨rfl, h.similar⟩

theorem respects_land (address : Word) : Respects Similar (Mirrored size live) (land address) := by
  intro u d h
  have hcalls : u.hostCalls = d.hostCalls := congrArg Context.hostCalls h.2
  show Agree _ _ ((if _ ∧ 0 < u.hostCalls then _ else _ : Action Machine Flow) u)
    ((if _ ∧ 0 < d.hostCalls then _ else _ : Action Machine Flow) d)
  rw [← hcalls]
  split
  · exact ⟨rfl, h⟩
  · exact respects_goTo address u d h

theorem respects_permit (callee : Callee) :
    Respects Similar (Mirrored size live) (permit callee) := by
  intro u d h
  cases callee with
  | routine l =>
    have hprogram : u.program = d.program := congrArg Context.program h.2
    rw [permit, permit, ← hprogram]
    exact respects_ofExcept (fun _ _ hm => hm.similar) _ u d h
  | intrinsic i =>
    have hallowed : u.config.capabilities = d.config.capabilities :=
      congrArg Context.capabilities h.2
    rw [permit, permit, ← hallowed]
    exact respects_ofExcept (fun _ _ hm => hm.similar) _ u d h

theorem respects_returned (value : Option Register) :
    Respects Similar (Mirrored size live) (returned value) := by
  cases value with
  | none => exact respects_pure _
  | some r => exact (respects_fetch r).bind fun v => respects_pure _

/-- Entering a frame makes it live on both machines. -/
theorem agree_enterFrame (h : Mirrored size live u d) (argument returnAddress : Word) :
    Agree Similar
      (fun u' d' => ∀ f : LiveFrame, f.fp = u'.store.fp → Mirrored size (f :: live) u' d')
      (onWorld (World.enterFrame argument returnAddress) u)
      (onWorld (World.enterFrame argument returnAddress) d) := by
  refine (agree_onWorld (World.agree_enterFrame h.1 argument returnAddress) h.2).mono ?_
  intro u' d' hm f hf
  exact ⟨hm.1 f hf, hm.2⟩

/-- The frame that was entered last is left on both machines or on neither. -/
theorem agree_vacate (h : Mirrored size live u d) (hlive : live ≠ []) (record : CallRecord)
    (completion : Completion) :
    Agree Similar (Mirrored size live.tail) (vacate record completion u)
      (vacate record completion d) := by
  rw [vacate, CallRecord.stage_apply]
  by_cases hphase : record.phase.next? = some .valueStaged
  · rw [if_pos hphase]
    refine agree_bind (agree_onWorld (World.agree_leaveFrame h.1 hlive rfl) h.2) ?_
    rintro ⟨address, left⟩ u' d' hm
    exact ⟨rfl, hm.1, congrArg (fun c => { c with lastCall := some left }) hm.2⟩
  · rw [if_neg hphase]
    exact ⟨rfl, h.similar⟩

/-- **A move without addresses treats mirrored machines alike.** -/
theorem agree_advance {c : Control} (h : Mirrored size live u d)
    (hb : Moment.Blind ⟨c, u, live⟩) (ho : Moment.Orderly ⟨c, u, live⟩) :
    Agree Similar (fun u' d' => Mirrored size (Moment.liveAfter ⟨c, u, live⟩ u') u' d')
      (advance c u) (advance c d) := by
  cases c with
  | dispatch l =>
    refine respects_count.bind (fun _ => (respects_onWorld (World.respects_note _)).bind
      fun _ => ?_) u d h
    intro u d h
    have hprogram : u.program = d.program := congrArg Context.program h.2
    show Agree _ _ ((Action.ofExcept (u.program.block l) >>= _ : Action Machine Control) u)
      ((Action.ofExcept (d.program.block l) >>= _ : Action Machine Control) d)
    rw [← hprogram]
    exact (respects_ofExcept (fun _ _ hm => hm.similar) _).bind (fun _ => respects_pure _) u d h
  | inside rest t =>
    cases rest with
    | cons i rest =>
      have hi : i.addressFree = true := by
        have hc := hb.control
        simp only [Control.addressFree, List.all_cons, Bool.and_eq_true] at hc
        exact hc.1.1
      exact agree_bind (agree_execute h hi ho) fun _ => respects_pure _
    | nil =>
      cases t with
      | jump target => exact ⟨rfl, h⟩
      | branch r ifZero otherwise =>
        exact (respects_fetch r).bind (fun _ => respects_pure _) u d h
      | jumpRegister r =>
        exact (respects_fetch r).bind
          (fun v => (respects_goTo v).bind fun _ => respects_pure _) u d h
      | call callee r resume => exact (respects_fetch r).bind (fun _ => respects_pure _) u d h
      | ret value =>
        refine agree_bind (agree_onStore h (Store.agree_active h.1.1 (ho.1 rfl))) fun record => ?_
        exact (respects_returned value).bind fun _ => respects_pure _
      | halt => exact ⟨rfl, h.1, congrArg (fun c => { c with halted := true }) h.2⟩
  | entering callee argument caller =>
    refine agree_bind (respects_permit callee u d h) fun _ u₁ d₁ h₁ => ?_
    refine agree_bind (agree_enterFrame h₁ argument caller.returnAddress) fun record u' d' hm => ?_
    cases callee with
    | routine l => exact ⟨rfl, hm _ rfl⟩
    | intrinsic i => exact ⟨rfl, hm _ rfl⟩
  | serving i argument record =>
    have hi : i.takesAddress = false := by simpa [Control.addressFree] using hb.control
    have hlive : live ≠ [] := hb.framed rfl
    refine agree_bind (respects_onWorld (World.respects_note _) u d h) fun _ u₁ d₁ h₁ => ?_
    refine agree_bind (R := Mirrored size live) ?_ fun completion => respects_pure _
    exact agree_onWorld (Intrinsic.agree_body h₁.1 hlive hi) h₁.2
  | leaving record completion =>
    refine agree_bind (agree_vacate h (hb.framed rfl) record completion) fun address => ?_
    exact respects_pure _
  | landing address => exact (respects_land address).bind (fun _ => respects_pure _) u d h
  | gone departure => exact ⟨rfl, h⟩

/-! ### Whole runs -/

/-- **A run without addresses goes alike on mirrored machines**, move by move. -/
theorem agree_pursue {n : Nat} {c : Control} (h : Mirrored size live u d)
    (hb : Moment.Blind ⟨c, u, live⟩) (ho : ∀ a, Moment.Reaches ⟨c, u, live⟩ a → a.Orderly) :
    Option.Rel (Agree Similar Similar) (pursue n c u) (pursue n c d) := by
  induction n generalizing c u d live with
  | zero =>
    cases c with
    | gone departure => exact .some ⟨rfl, h.similar⟩
    | _ => exact .none
  | succ n ih =>
    -- The live frames are those of the machine that grows up; both machines move or both fail.
    obtain ⟨c₁, u₁, d₁, hu, hd, hm⟩ | ⟨e, f, u₁, d₁, hu, hd, hfail⟩ :=
      (agree_advance h hb (ho _ .refl)).cases
    · have hnext : Moment.Next ⟨c, u, live⟩ ⟨c₁, u₁, Moment.liveAfter ⟨c, u, live⟩ u₁⟩ :=
        Moment.next_of_advance hu
      rw [pursue_of_ok hu, pursue_of_ok hd]
      exact ih hm (hb.next (ho _ .refl) hnext) fun a ha => ho a (.head hnext ha)
    · rw [pursue_of_error hu, pursue_of_error hd]
      exact .some hfail

theorem respects_flush : Respects Similar Similar (onConsole Console.flush) := by
  rintro u d ⟨⟨hstore, hconsole⟩, hcontext⟩
  rw [onConsole, onWorld_apply, onWorld_apply, World.onConsole_apply, World.onConsole_apply,
    ← hconsole]
  cases Console.flush u.console with
  | ok a c => exact ⟨rfl, ⟨hstore, rfl⟩, hcontext⟩
  | error f c => exact ⟨rfl, ⟨hstore, rfl⟩, hcontext⟩

theorem agree_flushed {o o' : Outcome Machine α} (h : Agree Similar Similar o o') :
    Agree Similar Similar (flushed o) (flushed o') := by
  obtain ⟨a, s, t, rfl, rfl, hm⟩ | ⟨e, f, s, t, rfl, rfl, hkind, hm⟩ := h.cases
  · obtain ⟨_, s', t', hs, ht, hm'⟩ | ⟨e, f, s', t', hs, ht, hfail⟩ := (respects_flush s t hm).cases
    · rw [flushed, flushed, hs, ht]
      exact ⟨rfl, hm'⟩
    · rw [flushed, flushed, hs, ht]
      exact hfail
  · obtain ⟨_, s', t', hs, ht, hm'⟩ | ⟨e, f, s', t', hs, ht, hfail⟩ := (respects_flush s t hm).cases
    · rw [flushed, flushed, hs, ht]
      exact ⟨hkind, hm'⟩
    · rw [flushed, flushed, hs, ht]
      exact hfail

theorem agree_runOutcome {o o' : Outcome Machine Departure} (h : Agree Similar Similar o o') :
    Agree Similar Similar (runOutcome o) (runOutcome o') := by
  obtain ⟨a, s, t, rfl, rfl, hm⟩ | ⟨e, f, s, t, rfl, rfl, hfail⟩ := h.cases
  · cases a with
    | returned => exact ⟨rfl, hm⟩
    | halted => exact ⟨rfl, hm⟩
  · exact hfail

/-- A run has one outcome. -/
theorem run_unique {fuel fuel' : Nat} {m : Machine} {r r' : Outcome Machine Unit}
    (h : run fuel m = some r) (h' : run fuel' m = some r') : r = r' := by
  rw [run] at h h'
  split at h
  · rw [if_pos (by assumption)] at h'
    exact Option.some.inj (h.symm.trans h')
  · rw [if_neg (by assumption)] at h'
    obtain ⟨o, ho, rfl⟩ := Option.map_eq_some_iff.mp h
    obtain ⟨o', ho', rfl⟩ := Option.map_eq_some_iff.mp h'
    -- Both answers are the answer for the larger of the two amounts of fuel.
    have hmax := drive_mono (Nat.le_max_left fuel fuel') ho
    have hmax' := drive_mono (Nat.le_max_right fuel fuel') ho'
    rw [hmax] at hmax'
    cases hmax'
    rfl

theorem rel_swap {β : Type} {R : α → β → Prop} {x : Option α} {y : Option β}
    (h : Option.Rel R x y) : Option.Rel (fun b a => R a b) y x := by
  cases h with
  | some h => exact .some h
  | none => exact .none

/-! ### Fresh machines -/

theorem load_eq_ok {config : Config} {p : Program} {console : Console} {m : Machine}
    (hdata : p.data = []) (h : load config p console = .ok m) :
    ∃ store, Store.ofConfig config = .ok store ∧ m = { store, console, config, program := p } := by
  rw [load, hdata] at h
  cases hstore : Store.ofConfig config with
  | error f =>
    rw [hstore] at h
    cases h
  | ok store =>
    rw [hstore] at h
    cases h
    exact ⟨store, rfl, rfl⟩

theorem of_load {config : Config} {p : Program} {console : Console} {m : Machine}
    (hdata : p.data = []) (h : load config p console = .ok m) :
    m.program = p ∧ m.halted = false := by
  obtain ⟨store, -, rfl⟩ := load_eq_ok hdata h
  exact ⟨rfl, rfl⟩

/-- Fresh machines that differ in the direction of their stacks mirror each other. -/
theorem mirrored_load {config : Config} {p : Program} {console : Console} {u d : Machine}
    (hdata : p.data = []) (hu : load { config with growth := .upward } p console = .ok u)
    (hd : load { config with growth := .downward } p console = .ok d) :
    Mirrored config.memory [] u d := by
  obtain ⟨s, hs, rfl⟩ := load_eq_ok hdata hu
  obtain ⟨t, ht, rfl⟩ := load_eq_ok hdata hd
  refine ⟨⟨⟨⟨[], Store.holds_ofConfig hs, Store.holds_ofConfig ht, rfl⟩, ?_⟩, rfl⟩, rfl⟩
  rw [Store.aside_ofConfig hs, Store.aside_ofConfig ht]

/-- What a host sees of a machine other than addresses and the contents of memory. -/
def visible (m : Machine) :
    Console × Registers × Single × Option CallRecord × UInt64 × Bool × Nat :=
  (m.console, m.store.registers, m.store.scratch, m.lastCall, m.steps, m.halted, m.store.depth)

theorem Similar.visible_eq (h : Similar u d) : u.visible = d.visible := by
  obtain ⟨⟨⟨haside, hdepth⟩, hconsole⟩, hcontext⟩ := h
  have hregisters : u.store.registers = d.store.registers := congrArg Prod.fst haside
  have hscratch : u.store.scratch = d.store.scratch := congrArg Prod.snd haside
  have hlast : u.lastCall = d.lastCall := congrArg Context.lastCall hcontext
  have hsteps : u.steps = d.steps := congrArg Context.steps hcontext
  have hhalted : u.halted = d.halted := congrArg Context.halted hcontext
  rw [visible, visible, hconsole, hregisters, hscratch, hlast, hsteps, hhalted, hdepth]

/-- Outcomes that agree look alike, whether they are results or faults. -/
theorem agree_visible {o o' : Outcome Machine α} (h : Agree Similar Similar o o') :
    (Outcome.toExcept o).mapError Fault.kind = (Outcome.toExcept o').mapError Fault.kind ∧
      (Outcome.state o).visible = (Outcome.state o').visible := by
  obtain ⟨a, s, t, rfl, rfl, hm⟩ | ⟨e, f, s, t, rfl, rfl, hkind, hm⟩ := h.cases
  · exact ⟨rfl, hm.visible_eq⟩
  · exact ⟨congrArg Except.error hkind, hm.visible_eq⟩

/-- If two machines make their moves alike, a run of the one has a run of the other. -/
theorem exists_run {u d : Machine} (hu : u.halted = false) (hd : d.halted = false)
    {R : Outcome Machine Departure → Outcome Machine Departure → Prop}
    (h : ∀ n, Option.Rel R (pursue n (.dispatch u.program.entry) u)
      (pursue n (.dispatch d.program.entry) d)) {fuel : Nat} {r : Outcome Machine Unit}
    (hr : run fuel u = some r) :
    ∃ fuel' o o', run fuel' d = some (runOutcome (flushed o')) ∧ r = runOutcome (flushed o) ∧
      R o o' := by
  obtain ⟨n, o, hn, rfl⟩ := (run_iff_pursue hu).mp ⟨fuel, hr⟩
  have hrel := h n
  rw [hn] at hrel
  generalize hn' : pursue n (.dispatch d.program.entry) d = x at hrel
  cases hrel with
  | @some _ o' hR =>
    obtain ⟨fuel', hrun⟩ := (run_iff_pursue hd).mpr ⟨n, o', hn', rfl⟩
    exact ⟨fuel', o, o', hrun, rfl, hR⟩

end Machine

/-- **The direction of the stack does not show** to a program that does not look at addresses and
whose run on the machine that grows up is orderly: the run on the machine that grows down ends if
and only if that one does, with the same result or a fault of the same kind, and leaves all that is
visible the same. -/
theorem growth_not_observable {config : Config} {p : Program} {console : Console} {u d : Machine}
    (hu : Machine.load { config with growth := .upward } p console = .ok u)
    (hd : Machine.load { config with growth := .downward } p console = .ok d)
    (hdata : p.data = []) (hfree : p.addressFree = true)
    (horderly : ∀ a, Moment.Reaches (.ofRun u) a → a.Orderly) :
    ((∃ fuel r, Machine.run fuel u = some r) ↔ ∃ fuel r, Machine.run fuel d = some r) ∧
    ∀ fuel fuel' r r', Machine.run fuel u = some r → Machine.run fuel' d = some r' →
      (Outcome.toExcept r).mapError Fault.kind = (Outcome.toExcept r').mapError Fault.kind ∧
      (Outcome.state r).visible = (Outcome.state r').visible := by
  have hm := Machine.mirrored_load hdata hu hd
  obtain ⟨hpu, hhu⟩ := Machine.of_load hdata hu
  obtain ⟨hpd, hhd⟩ := Machine.of_load hdata hd
  have hblind : (Moment.ofRun u).Blind := ⟨hpu ▸ hfree, rfl, fun hf => by cases hf⟩
  have hrel : ∀ n, Option.Rel (Agree Machine.Similar Machine.Similar)
      (Machine.pursue n (.dispatch u.program.entry) u)
      (Machine.pursue n (.dispatch d.program.entry) d) := by
    intro n
    rw [hpd.trans hpu.symm]
    exact Machine.agree_pursue hm hblind horderly
  refine ⟨⟨?_, ?_⟩, ?_⟩
  · rintro ⟨fuel, r, hr⟩
    obtain ⟨fuel', o, o', hrun, -⟩ := Machine.exists_run hhu hhd hrel hr
    exact ⟨fuel', _, hrun⟩
  · rintro ⟨fuel, r, hr⟩
    obtain ⟨fuel', o, o', hrun, -⟩ := Machine.exists_run hhd hhu
      (fun n => Machine.rel_swap (hrel n)) hr
    exact ⟨fuel', _, hrun⟩
  · intro fuel fuel' r r' hr hr'
    obtain ⟨fuel'', o, o', hrun, rfl, hR⟩ := Machine.exists_run hhu hhd hrel hr
    rw [Machine.run_unique hr' hrun]
    exact Machine.agree_visible (Machine.agree_runOutcome (Machine.agree_flushed hR))

/-- A routine that doubles its argument and prints it, and a caller that gives it seven. -/
def doublingProgram : Program :=
  ⟨⟨0⟩, #[⟨[.constant ⟨1⟩ 7, .push ⟨1⟩], .call (.routine ⟨1⟩) ⟨1⟩ ⟨3⟩⟩,
    ⟨[.loadFrame ⟨2⟩ 0, .push ⟨2⟩, .pop ⟨3⟩, .binary .add ⟨2⟩ ⟨2⟩ ⟨3⟩],
      .call (.intrinsic .printInteger) ⟨2⟩ ⟨2⟩⟩,
    ⟨[], .ret (some ⟨2⟩)⟩, ⟨[.pop ⟨1⟩], .halt⟩], []⟩

/-- Four registers and ten cells. -/
def doublingConfig : Config := { registers := 4, memory := 10, growth := .upward }

/-- The machine for the program, whose stack starts at the given cell. -/
def doublingMachine (growth : Growth) (start : Word) : Machine where
  store := ⟨.ofSize 4, .ofSize 10, .ofCapacity growth 10, start, .zero⟩
  console := {}
  config := { doublingConfig with growth }
  program := doublingProgram

theorem doublingProgram_prints_fourteen :
    Machine.load { doublingConfig with growth := .upward } doublingProgram {} =
      .ok (doublingMachine .upward 0) ∧
    Machine.load { doublingConfig with growth := .downward } doublingProgram {} =
      .ok (doublingMachine .downward 9) ∧
    ∃ fuel r, Machine.run fuel (doublingMachine .downward 9) = some r ∧
      (Outcome.state r).console.sink.written = #[49, 52] := by
  refine ⟨rfl, rfl, ?_⟩
  have hprint : (Machine.run 10 (doublingMachine .upward 0)).map
      (fun r => (Outcome.state r).console.sink.written) = some #[49, 52] := by decide +kernel
  have horderly : ∀ a, Moment.Reaches (.ofRun (doublingMachine .upward 0)) a → a.Orderly := by
    intro a
    refine Moment.forall_reaches (n := 22) (d := .halted) ?_ ?_
    · decide +kernel
    · decide +kernel
  -- Only the machine that grows up is run here; what the other prints follows.
  obtain ⟨hends, halike⟩ := @growth_not_observable doublingConfig doublingProgram {} _
    (doublingMachine .downward 9) rfl rfl rfl (by decide +kernel) horderly
  obtain ⟨r, hr, hwritten⟩ := Option.map_eq_some_iff.mp hprint
  obtain ⟨fuel, r', hr'⟩ := hends.mp ⟨10, r, hr⟩
  have hconsole : (Outcome.state r).console = (Outcome.state r').console :=
    congrArg Prod.fst (halike _ _ _ _ hr hr').2
  exact ⟨fuel, r', hr', hconsole ▸ hwritten⟩

end WordMachine
