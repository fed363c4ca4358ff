/-
Returns without a frame.

The machine does not record whether a frame is live: a return takes the three cells at the frame
pointer for one.  In a program without calls the frame pointer stays where the stack starts, and no
frame is there.  If the stack grows up, two of the three cells are below the first one of memory and
the return fails.  If it grows down, they are the first three cells of the stack, and the return
succeeds if the program itself has put three words there of which the last stands for a label.

* `Program.CallFree` are the programs without calls;
* `Machine.Counterfeit`: what is on the stack passes for a frame, and `Machine.follow_ret_iff`: a
  return from the frame pointer that the machine started with succeeds exactly then;
* `Moment.Frameless` is what an execution of a program without calls keeps until such a return is
  made (`Frameless.next`, `Moment.frameless_or_escaped`);
* `return_without_frame_is_fatal`: so a return that an execution comes to is its end, unless it or
  one before it is such a return.
-/
import WordMachine.Proofs.Bounds

namespace WordMachine

/-- No block of a program ends with a call. -/
def Program.CallFree (p : Program) : Prop := ∀ b ∈ p.blocks, b.transfer.caller? = none

instance (p : Program) : Decidable p.CallFree :=
  inferInstanceAs (Decidable (∀ b ∈ p.blocks, b.transfer.caller? = none))

theorem Program.CallFree.of_block {p : Program} (h : p.CallFree) {l : Label} {b : Block}
    (hb : p.block l = .ok b) : b.transfer.caller? = none :=
  h b (Array.mem_of_getElem? (block_eq_ok.mp hb))

/-- A stack of three words, read off memory. -/
theorem Store.Level.words_eq_three {g : Growth} {size : Nat} {s : Store} (h : Level g size 3 s)
    {u v w : Word} :
    s.words = [u, v, w] ↔
      s.memory.read? (cell g size 0) = some u ∧ s.memory.read? (cell g size 1) = some v ∧
        s.memory.read? (cell g size 2) = some w := by
  have hfits := h.fits
  obtain ⟨u', hu⟩ := h.exists_read? (j := 0) (by omega)
  obtain ⟨v', hv⟩ := h.exists_read? (j := 1) (by omega)
  obtain ⟨w', hw⟩ := h.exists_read? (j := 2) (by omega)
  rw [h.words_eq]
  simp [List.range_succ, hu, hv, hw]

namespace Machine

/-! ### One return -/

/-- What is on the stack passes for a frame to return from, to a label: the frame pointer is where
the stack starts, the stack grows down and has three words, the last one pushed stands for the
label, and there are the registers that the return uses. -/
structure Counterfeit (m : Machine) (value : Option Register) (l : Label) : Prop where
  fp : m.store.fp = m.store.stack.initial
  growth : m.store.growth = .downward
  words : ∃ argument callerFp address, m.store.words = [argument, callerFp, address] ∧
    m.program.resolve address = .ok l
  result : Frame.valueRegister < m.store.registers.cells.size
  value : ∀ r ∈ value, r.index.toNat < m.store.registers.cells.size

theorem returned_eq_ok_iff {value : Option Register} {m m' : Machine} :
    (∃ completion, returned value m = .ok completion m') ↔
      (∀ r ∈ value, r.index.toNat < m.store.registers.cells.size) ∧ m = m' := by
  constructor
  · rintro ⟨completion, h⟩
    refine ⟨?_, returned_eq_ok h⟩
    rintro r rfl
    obtain ⟨v, _, hfetch, -⟩ := Action.bind_eq_ok.mp h
    exact (Array.getElem?_eq_some_iff.mp (fetch_eq_ok.mp hfetch).1).1
  · rintro ⟨h, rfl⟩
    cases value with
    | none => exact ⟨.unit, rfl⟩
    | some r =>
      have hr := Array.getElem?_eq_getElem (h r rfl)
      exact ⟨_, Action.bind_eq_ok.mpr ⟨_, m, fetch_eq_ok.mpr ⟨hr, rfl⟩, rfl⟩⟩

/-- A return reads the record of its frame and its value, leaves the frame and goes to the address
that the frame held. -/
theorem follow_ret_eq_ok {value : Option Register} {f : Flow} {m m' : Machine} :
    follow (.ret value) m = .ok f m' ↔
      ∃ record completion address, onStore Frame.active m = .ok record m ∧
        returned value m = .ok completion m ∧ vacate record completion m = .ok address m' ∧
        land address m' = .ok f m' := by
  constructor
  · intro h
    obtain ⟨record, _, hrecord, h⟩ := Action.bind_eq_ok.mp h
    obtain rfl := active_eq_ok hrecord
    obtain ⟨completion, _, hvalue, h⟩ := Action.bind_eq_ok.mp h
    obtain rfl := returned_eq_ok hvalue
    rw [completeCall_eq] at h
    obtain ⟨address, m₁, hvacate, hland⟩ := Action.bind_eq_ok.mp h
    obtain rfl := eq_of_land hland
    exact ⟨record, completion, address, hrecord, hvalue, hvacate, hland⟩
  · rintro ⟨record, completion, address, hrecord, hvalue, hvacate, hland⟩
    refine Action.bind_eq_ok.mpr ⟨record, m, hrecord, ?_⟩
    refine Action.bind_eq_ok.mpr ⟨completion, m, hvalue, ?_⟩
    rw [completeCall_eq]
    exact Action.bind_eq_ok.mpr ⟨address, m', hvacate, hland⟩

/-- Where no call of the host is in flight, every return address has to stand for a label. -/
theorem land_eq_ok_of_hostCalls {address : Word} {f : Flow} {m m' : Machine}
    (h : m.hostCalls = 0) :
    land address m = .ok f m' ↔ ∃ l, m.program.resolve address = .ok l ∧ .next l = f ∧ m = m' := by
  rw [land_eq_ok, if_neg]
  rintro ⟨-, hpos⟩
  omega

section

variable {g : Growth} {size k : Nat} {m : Machine}

/-- The stack has three words if the frame pointer is where the stack starts and a frame can be
left, and it grows down. -/
theorem depth_of_exit (h : m.store.Level g size k) (hfp : m.store.fp = m.store.stack.initial)
    {record : CallRecord} {address : Word} {a : Frame.Activation}
    (hexit : Frame.exit ⟨m.store, record⟩ = .ok address a) : g = .downward ∧ k = 3 := by
  obtain ⟨callerFp, -, hsp, hret, -, -, hone, htwo, -⟩ := Frame.exit_eq_ok.mp hexit
  rw [h.initial] at hfp
  cases g with
  | upward =>
    -- The return address would be two cells below the first one.
    obtain ⟨hread, -⟩ := Store.read?_of_frameLoad hret
    have hzero : cell .upward size 0 = 0 := rfl
    rw [hfp, hzero] at hread
    have hinside := (Memory.read?_eq_some_iff.mp hread).1.1
    exact absurd hinside (by decide)
  | downward =>
    refine ⟨rfl, ?_⟩
    have hfits := h.fits
    rw [h.depth] at hone
    rw [h.depth_lowered hone] at htwo
    have hgrowth : m.store.growth = .downward := h.growth
    have hbalanced : m.store.sp = cell .downward size (0 + 3) := by
      rw [hsp, hgrowth, hfp]
      exact balancedSp_framePointer
    have hcell : cell .downward size k = cell .downward size 3 := h.sp.symm.trans hbalanced
    by_contra hk
    exact cell_ne h.bound hfits (by omega) hk hcell

theorem counterfeit_of_follow (h : m.store.Level g size k)
    (hfp : m.store.fp = m.store.stack.initial) (hhost : m.hostCalls = 0) {value : Option Register}
    {f : Flow} {m' : Machine} (hret : follow (.ret value) m = .ok f m') :
    ∃ l, f = .next l ∧ m.Counterfeit value l := by
  obtain ⟨record, completion, address, -, hvalue, hvacate, hland⟩ := follow_ret_eq_ok.mp hret
  obtain ⟨a, hexit, rfl⟩ := leave_eq_ok.mp (vacate_eq_ok.mp hvacate).2
  obtain ⟨rfl, rfl⟩ := depth_of_exit h hfp hexit
  obtain ⟨callerFp, -, -, hreturn, -, hresult, -, -, -⟩ := Frame.exit_eq_ok.mp hexit
  obtain ⟨hread, -⟩ := Store.read?_of_frameLoad hreturn
  rw [hfp, h.initial] at hread
  have haddress : m.store.memory.read? (cell .downward size 2) = some address := by
    rw [← hread]
    exact congrArg _ (framePointer_add_returnAddressOffset (g := .downward) (k := 0)).symm
  have hfits := h.fits
  obtain ⟨u, hu⟩ := h.exists_read? (j := 0) (by omega)
  obtain ⟨v, hv⟩ := h.exists_read? (j := 1) (by omega)
  obtain ⟨l, hl, rfl, -⟩ := (land_eq_ok_of_hostCalls (by exact hhost)).mp hland
  have hwords : m.store.words = [u, v, address] := h.words_eq_three.mpr ⟨hu, hv, haddress⟩
  exact ⟨l, rfl, hfp, h.growth, ⟨u, v, address, hwords, hl⟩, hresult,
    (returned_eq_ok_iff.mp ⟨completion, hvalue⟩).1⟩

theorem follow_of_counterfeit (h : m.store.Level g size k) (hhost : m.hostCalls = 0)
    {value : Option Register} {l : Label} (hm : m.Counterfeit value l) :
    ∃ m', follow (.ret value) m = .ok (.next l) m' := by
  obtain ⟨hfp, hgrowth, ⟨argument, callerFp, address, hwords, hl⟩, hresult, hvalue⟩ := hm
  obtain rfl : g = .downward := h.growth.symm.trans hgrowth
  obtain rfl : k = 3 := by rw [← h.length_words, hwords]; rfl
  obtain ⟨hu, hv, hw⟩ := h.words_eq_three.mp hwords
  have hframe : m.store.fp = framePointer .downward size 0 := hfp.trans h.initial
  have hload : ∀ {offset v : Word}, -2 ≤ offset.toInt → offset.toInt ≤ 0 →
      m.store.memory.read? (framePointer .downward size 0 + offset) = some v →
      Store.frameLoad offset m.store = .ok v m.store := h.frameLoad (Nat.le_refl 3) hframe
  have hargument : Store.frameLoad Frame.argumentOffset m.store = .ok argument m.store :=
    hload (by decide) (by decide) (by rw [framePointer_add_argumentOffset]; exact hu)
  have hreturn : Store.frameLoad Frame.returnAddressOffset m.store = .ok address m.store :=
    hload (by decide) (by decide) (by rw [framePointer_add_returnAddressOffset]; exact hw)
  have hactive : Frame.active m.store = .ok { argument, returnAddress := address } m.store :=
    Action.bind_eq_ok.mpr ⟨_, _, hargument, Action.bind_eq_ok.mpr ⟨_, _, hreturn, rfl⟩⟩
  obtain ⟨completion, hcompletion⟩ := returned_eq_ok_iff.mpr ⟨hvalue, rfl⟩
  have hphase : (staged { argument, returnAddress := address } completion).phase = .valueStaged :=
    rfl
  have hexit := h.exit_of_frame (k := 0) hframe hw hv hphase hresult
  refine ⟨_, follow_ret_eq_ok.mpr ⟨_, completion, address, onStore_of_ok hactive, hcompletion,
    vacate_eq_ok.mpr ⟨rfl, leave_eq_ok.mpr ⟨_, hexit, rfl⟩⟩, ?_⟩⟩
  exact (land_eq_ok_of_hostCalls (by exact hhost)).mpr ⟨l, hl, rfl, rfl⟩

/-- **A return from the frame pointer that the machine started with** succeeds if what is on the
stack passes for a frame, and only then. -/
theorem follow_ret_iff (h : m.store.Level g size k) (hfp : m.store.fp = m.store.stack.initial)
    (hhost : m.hostCalls = 0) {value : Option Register} {f : Flow} :
    (∃ m', follow (.ret value) m = .ok f m') ↔ ∃ l, f = .next l ∧ m.Counterfeit value l := by
  constructor
  · rintro ⟨m', hret⟩
    exact counterfeit_of_follow h hfp hhost hret
  · rintro ⟨l, rfl, hm⟩
    exact follow_of_counterfeit h hhost hm

end

/-- An execution in which the rest of a block fails ends there, with that fault if flushing does not
fail. -/
theorem run_of_failure {m m' : Machine} (hm : m.halted = false) {a : Moment}
    (ha : Moment.Reaches (.ofRun m) a) {f : Fault}
    (hfail : a.control.flow a.machine = .error f m') :
    ∃ fuel f', run fuel m = some (.error f' m') ∧
      (m.console.sink.flushFailure = none → f' = f) := by
  have hdrive : drive 0 (a.control.flow a.machine) = some (.error f m') := by
    rw [hfail, drive_error]
  obtain ⟨n, hn⟩ := pursue_of_drive hdrive
  obtain ⟨k, hk⟩ := Moment.pursue_of_reaches ha hn
  obtain ⟨fuel, hfuel⟩ := (run_iff_pursue hm).mpr ⟨k, _, hk, rfl⟩
  have hflush : m'.console.sink.flushFailure = m.console.sink.flushFailure := by
    have hlater : a.machine.Later m' := leads_drive_flow leads_later_advance hdrive
    rw [hlater.sink.flushFailure, ha.later.sink.flushFailure]
    rfl
  cases hsink : m.console.sink.flushFailure with
  | none =>
    rw [flushed_of_none (o := .error f m') (hflush.trans hsink)] at hfuel
    exact ⟨fuel, f, hfuel, fun _ => rfl⟩
  | some text =>
    rw [flushed_of_some (o := .error f m') (hflush.trans hsink)] at hfuel
    exact ⟨fuel, _, hfuel, fun h => nomatch h⟩

end Machine

/-! ### Executions of programs without calls -/

namespace Moment

/-- A return is about to be made from what only passes for a frame. -/
def Escapes (a : Moment) : Prop :=
  ∃ value l, a.control = .inside [] (.ret value) ∧ a.machine.Counterfeit value l

/-- How far an execution has come in which no frame was entered: the frame pointer is where the
stack starts, and if a return is under way, it fails. -/
def Frameless (a : Moment) : Prop :=
  match a.control with
  | .dispatch _ => a.machine.store.fp = a.machine.store.stack.initial
  | .inside _ t => a.machine.store.fp = a.machine.store.stack.initial ∧ t.caller? = none
  | .entering _ _ _ => False
  | .serving _ _ _ => False
  | .leaving _ _ => ∀ f m, a.control.flow a.machine ≠ .ok f m
  | .landing _ => ∀ f m, a.control.flow a.machine ≠ .ok f m
  | .gone _ => True

theorem Frameless.next {a b : Moment} (ha : a.Frameless) (h : Next a b)
    (hcalls : a.machine.program.CallFree)
    (hret : ∀ value, a.control = .inside [] (.ret value) →
      ∀ f m, Machine.follow (.ret value) a.machine ≠ .ok f m) : b.Frameless := by
  have hinitial : b.machine.store.stack.initial = a.machine.store.stack.initial :=
    congrArg (fun v => v.2.2.2.initial) h.setting_eq
  obtain ⟨c, m, live⟩ := a
  obtain ⟨c', m', live'⟩ := b
  have hflow : c.Running → c.flow m = c'.flow m' := fun hc => Machine.flow_of_ok hc h.1
  cases h.move with
  | dispatch _ hblock => exact ⟨ha, hcalls.of_block hblock⟩
  | execute _ => exact ⟨(h.fp_eq Bool.false_ne_true).trans (ha.1.trans hinitial.symm), ha.2⟩
  | jump => exact ha.1
  | branch _ => exact ha.1
  | jumpRegister _ _ => exact ha.1
  | call _ => cases ha.2
  | ret _ _ =>
    intro f m₁ hok
    exact hret _ rfl f m₁ ((hflow trivial).trans hok)
  | halt => trivial
  | enterRoutine _ _ => exact ha.elim
  | enterIntrinsic _ _ => exact ha.elim
  | serve _ => exact ha.elim
  | leave _ =>
    intro f m₁ hok
    exact ha f m₁ ((hflow trivial).trans hok)
  -- A return that is under way has nowhere to go.
  | landHost _ _ => exact absurd (hflow trivial) (ha .returnToHost _)
  | @landBlock _ l _ _ _ => exact absurd (hflow trivial) (ha (.next l) _)
  | stay => trivial

section

variable {config : Config} {program : Program} {console : Console} {m : Machine} {a : Moment}

/-- What is known of a machine that runs for the first time. -/
theorem level_of_fresh (hload : Machine.load config program console = .ok m)
    (ha : Reaches (.ofRun m) a) :
    (∃ k, a.machine.store.Level config.growth config.memory k) ∧ a.machine.hostCalls = 0 := by
  obtain ⟨store, rfl⟩ := Machine.exists_of_load hload
  have hstart : HostRequest.run.start? { store, console, config, program } =
      some (.ofRun { store, console, config, program }) := rfl
  have hserve : Session.serveAll 0 [] ⟨{ store, console, config, program }, #[]⟩ =
      some ([], ⟨{ store, console, config, program }, #[]⟩) := rfl
  refine ⟨?_, ha.later.hostCalls⟩
  exact Session.exists_level_of_serveAll hload hserve (fun _ hmem => nomatch hmem)
    (.during hstart ha)

/-- Such a return goes on at a label, which takes a stack that grows down. -/
theorem Escapes.goes_on (h : a.Escapes) (hload : Machine.load config program console = .ok m)
    (ha : Reaches (.ofRun m) a) :
    config.growth = .downward ∧
      ∃ value l m', a.control = .inside [] (.ret value) ∧ a.machine.Counterfeit value l ∧
        Machine.follow (.ret value) a.machine = .ok (.next l) m' := by
  obtain ⟨⟨k, hlevel⟩, hhost⟩ := level_of_fresh hload ha
  obtain ⟨value, l, hret, hm⟩ := h
  obtain ⟨m', hm'⟩ := (Machine.follow_ret_iff hlevel hm.fp hhost).mpr ⟨l, rfl, hm⟩
  exact ⟨hlevel.growth.symm.trans hm.growth, value, l, m', hret, hm, hm'⟩

theorem frameless_ofRun (hload : Machine.load config program console = .ok m) :
    (ofRun m).Frameless := by
  obtain ⟨built, store, hbuilt, hseed, rfl⟩ := Machine.load_iff.mp hload
  have hfooting := (Store.keeps_footing_seed program.data).of_ok hseed
  have hfp : store.fp = built.fp := congrArg Prod.snd hfooting
  have hinitial : store.stack.initial = built.stack.initial :=
    congrArg (fun v => v.1.initial) hfooting
  obtain ⟨-, -, rfl⟩ := Store.ofConfig_eq_ok.mp hbuilt
  exact hfp.trans hinitial.symm

/-- **An execution of a program without calls enters no frame**, and leaves none unless it makes a
return from what only passes for one. -/
theorem frameless_or_escaped (hload : Machine.load config program console = .ok m)
    (hcalls : program.CallFree) (ha : Reaches (.ofRun m) a) :
    (∃ b, Reaches (.ofRun m) b ∧ Reaches b a ∧ b.Escapes) ∨ a.Frameless := by
  refine ha.invariant (P := fun a => (∃ b, Reaches (.ofRun m) b ∧ Reaches b a ∧ b.Escapes) ∨
    a.Frameless) (.inr (frameless_ofRun hload)) fun b c hb hor hmove => ?_
  rcases hor with ⟨x, hx, hxb, hescapes⟩ | hframeless
  · exact .inl ⟨x, hx, hxb.tail hmove, hescapes⟩
  · by_cases hescapes : b.Escapes
    · exact .inl ⟨b, hb, .single hmove, hescapes⟩
    · have hprogram : b.machine.program = program := by
        obtain ⟨store, rfl⟩ := Machine.exists_of_load hload
        exact hb.program_eq
      refine .inr (hframeless.next hmove (hprogram ▸ hcalls) fun value hvalue f m' hf => ?_)
      obtain ⟨⟨k, hlevel⟩, hhost⟩ := level_of_fresh hload hb
      rw [Frameless, hvalue] at hframeless
      obtain ⟨l, rfl, hm⟩ := (Machine.follow_ret_iff hlevel hframeless.1 hhost).mp ⟨m', hf⟩
      exact hescapes ⟨value, l, hvalue, hm⟩

end

end Moment

/-- **A return without a frame is fatal, unless the program has laid out what passes for a frame.**
Take a program without calls, loaded with any configuration and console, and a return that its run
comes to.  Either the stack grows down and a return, this one or one before it, is made from three
words that the program has put on the stack itself, and goes on at the label that the last of them
stands for; or this return fails, and the run ends there with an error. -/
theorem return_without_frame_is_fatal {config : Config} {program : Program} {console : Console}
    {m : Machine} (hload : Machine.load config program console = .ok m)
    (hcalls : program.CallFree) {a : Moment} (ha : Moment.Reaches (.ofRun m) a)
    {value : Option Register} (hret : a.control = .inside [] (.ret value)) :
    (config.growth = .downward ∧
      ∃ b value' l m', Moment.Reaches (.ofRun m) b ∧ Moment.Reaches b a ∧
        b.control = .inside [] (.ret value') ∧ b.machine.Counterfeit value' l ∧
        Machine.follow (.ret value') b.machine = .ok (.next l) m') ∨
    ∃ f m', Machine.follow (.ret value) a.machine = .error f m' ∧
      ∃ fuel f', m.run fuel = some (.error f' m') ∧
        (console.sink.flushFailure = none → f' = f) := by
  by_cases hescaped : ∃ b, Moment.Reaches (.ofRun m) b ∧ Moment.Reaches b a ∧ b.Escapes
  · obtain ⟨b, hb, hba, hescapes⟩ := hescaped
    obtain ⟨hgrowth, value', l, m', hb'⟩ := hescapes.goes_on hload hb
    exact .inl ⟨hgrowth, b, value', l, m', hb, hba, hb'⟩
  · have hframeless := (Moment.frameless_or_escaped hload hcalls ha).resolve_left hescaped
    rw [Moment.Frameless, hret] at hframeless
    cases hfollow : Machine.follow (.ret value) a.machine with
    | ok f m' =>
      obtain ⟨⟨k, hlevel⟩, hhost⟩ := Moment.level_of_fresh hload ha
      obtain ⟨l, rfl, hm⟩ := (Machine.follow_ret_iff hlevel hframeless.1 hhost).mp ⟨m', hfollow⟩
      exact absurd ⟨a, ha, .refl, value, l, hret, hm⟩ hescaped
    | error f m' =>
      obtain ⟨store, rfl⟩ := Machine.exists_of_load hload
      have hflow : a.control.flow a.machine = .error f m' := by
        rw [hret]
        exact hfollow
      exact .inr ⟨f, m', rfl, Machine.run_of_failure rfl ha hflow⟩

/-- Pushes the label of its second block three times and returns. -/
def pushThenReturn : Program :=
  ⟨⟨0⟩, #[⟨[.constant ⟨0⟩ 1, .push ⟨0⟩, .push ⟨0⟩, .push ⟨0⟩], .ret none⟩, ⟨[], .halt⟩], []⟩

/-- The return of `pushThenReturn` ends a run on a stack that grows up, and goes on at the second
block on one that grows down. -/
theorem pushThenReturn_depends_on_growth :
    (∃ m fuel f m', Machine.load { registers := 1, memory := 3 } pushThenReturn {} = .ok m ∧
      m.run fuel = some (.error f m')) ∧
    ∃ m m', Machine.load { registers := 1, memory := 3, growth := .downward } pushThenReturn {} =
        .ok m ∧
      m.run 2 = some (.ok () m') := by
  constructor
  · have hrun : ((Machine.load { registers := 1, memory := 3 } pushThenReturn {}).toOption.map
        fun m => ((Moment.ofRun m).after 5).control) = some (.inside [] (.ret none)) := by
      decide +kernel
    obtain ⟨m, hm, hret⟩ := Option.map_eq_some_iff.mp hrun
    have hload := Machine.load_of_toOption hm
    rcases return_without_frame_is_fatal hload (by decide) (Moment.reaches_after (.ofRun m) 5) hret
      with ⟨hgrowth, -⟩ | ⟨f, m', -, fuel, f', hend, -⟩
    · cases hgrowth
    · exact ⟨m, fuel, f', m', hload, hend⟩
  · have hrun : ((Machine.load { registers := 1, memory := 3, growth := .downward } pushThenReturn
        {}).toOption.bind fun m => (m.run 2).bind fun r => (Outcome.toExcept r).toOption) =
          some () := by decide +kernel
    obtain ⟨m, hm, hend⟩ := Option.bind_eq_some_iff.mp hrun
    obtain ⟨m', hm'⟩ := Outcome.exists_of_toOption hend
    exact ⟨m, m', Machine.load_of_toOption hm, hm'⟩

end WordMachine
