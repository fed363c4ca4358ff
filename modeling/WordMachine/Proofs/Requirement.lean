/-
What a program declares is what it needs.

The capabilities that a program requires are collected by looking through its blocks, and an image
carries them in its header.  A run calls no intrinsic that does not stand in a block, however it
gets to that block, by a jump to a word or by a return address that the program has overwritten.  So
a host that grants what is required need not grant more.

* `Program.contains_required`: a capability is required if and only if some block calls an intrinsic
  that asks for it;
* `Image.declared_of_decode_encode`: the image of a program declares what the program requires;
* `Machine.run_withCapabilities`: a run with what is required is a run with every capability;
* `required_suffices_and_is_minimal` puts this together.
-/
import WordMachine.Proofs.Failures
import WordMachine.Proofs.ImageFormat
import WordMachine.Proofs.Variation

namespace WordMachine

/-! ### The required capabilities -/

namespace CapabilitySet

/-- Every capability of the first set is one of the second. -/
instance : HasSubset CapabilitySet :=
  ⟨fun s t => ∀ c, s.contains c = true → t.contains c = true⟩

theorem contains_insert {s : CapabilitySet} {c d : Capability} :
    (s.insert c).contains d = true ↔ d = c ∨ s.contains d = true := by
  by_cases h : c = d
  · subst h
    simp [insert]
  · simp [insert, contains_put_of_ne s true h, Ne.symm h]

theorem contains_foldl_insert {cs : List Capability} {s : CapabilitySet} {c : Capability} :
    (cs.foldl insert s).contains c = true ↔ s.contains c = true ∨ c ∈ cs := by
  induction cs generalizing s with
  | nil => simp
  | cons d cs ih =>
    rw [List.foldl_cons, ih, contains_insert, List.mem_cons, or_assoc, or_left_comm]

theorem contains_ofList {cs : List Capability} {c : Capability} :
    (ofList cs).contains c = true ↔ c ∈ cs := by
  have hempty : empty.contains c = false := by cases c <;> rfl
  rw [ofList, contains_foldl_insert, hempty]
  simp

theorem allows_all (i : Intrinsic) : all.allows i = true := by
  cases i <;> rfl

end CapabilitySet

theorem Transfer.intrinsic?_eq_some {t : Transfer} {i : Intrinsic} :
    t.intrinsic? = some i ↔ ∃ argument resume, t = .call (.intrinsic i) argument resume := by
  constructor
  · intro h
    match t, h with
    | .call (.intrinsic _) argument resume, h =>
      obtain rfl := Option.some.inj h
      exact ⟨argument, resume, rfl⟩
  · rintro ⟨argument, resume, rfl⟩
    rfl

namespace Program

variable {p : Program}

/-- **A capability is required if and only if a block calls an intrinsic that asks for it.** -/
theorem contains_required {c : Capability} :
    p.required.contains c = true ↔
      ∃ b ∈ p.blocks, ∃ i argument resume,
        b.transfer = .call (.intrinsic i) argument resume ∧ c ∈ i.needs := by
  rw [required, CapabilitySet.contains_ofList, List.mem_flatMap]
  simp only [intrinsics, List.mem_filterMap, Array.mem_toList_iff, Transfer.intrinsic?_eq_some]
  constructor
  · rintro ⟨i, ⟨b, hb, argument, resume, ht⟩, hc⟩
    exact ⟨b, hb, i, argument, resume, ht, hc⟩
  · rintro ⟨b, hb, i, argument, resume, ht, hc⟩
    exact ⟨i, ⟨b, hb, argument, resume, ht⟩, hc⟩

/-- A set that holds what is required allows every intrinsic that the program calls. -/
theorem allows_of_required {granted : CapabilitySet} (h : p.required ⊆ granted) {i : Intrinsic}
    (hi : i ∈ p.intrinsics) : granted.allows i = true := by
  rw [CapabilitySet.allows, List.all_eq_true]
  intro c hc
  refine h c ?_
  rw [required, CapabilitySet.contains_ofList]
  exact List.mem_flatMap.mpr ⟨i, hi, hc⟩

end Program

/-- The image of a program declares what the program requires, even if the lists of the program are
too long for the image to be read as this program. -/
theorem Image.declared_of_decode_encode {p : Program} {image : Image}
    (h : decode (encode p) = .ok image) : image.declared = p.required := by
  obtain ⟨q, declared⟩ := image
  obtain ⟨-, -, mask, reserved, rest, rfl, hbytes⟩ := decode_eq_ok.mp h
  -- The mask is the sixth byte of every image.
  obtain ⟨-, hmask, -⟩ := of_wire_append hbytes
  rw [encode_eq] at hmask
  obtain rfl : p.required.mask = mask := Option.some.inj hmask
  exact CapabilitySet.ofMask_mask p.required

/-! ### Two sets of capabilities -/

/-- The change of the capabilities that the host grants. -/
def Variation.ofCapabilities (granted : CapabilitySet) : Variation where
  config c := { c with capabilities := granted }
  console c := c
  sink_eq := Variation.same.sink_eq
  journal_push := Variation.same.journal_push

namespace Machine

variable {m : Machine} {fuel : Nat}

/-- The machine with other capabilities granted. -/
def withCapabilities (granted : CapabilitySet) (m : Machine) : Machine :=
  { m with config := { m.config with capabilities := granted } }

theorem runOutcome_vary (v : Variation) (o : Outcome Machine Departure) :
    runOutcome (Outcome.within v.machine o) = Outcome.within v.machine (runOutcome o) := by
  rcases o with ⟨_ | _, m⟩ | ⟨f, m⟩ <;> rfl

/-- **A run with the capabilities that the program requires is a run with every capability.** -/
theorem run_withCapabilities {granted : CapabilitySet} (h : m.program.required ⊆ granted)
    (fuel : Nat) :
    (m.withCapabilities granted).run fuel =
      ((m.withCapabilities .all).run fuel).map (Outcome.within (withCapabilities granted)) := by
  let v := Variation.ofCapabilities granted
  let whole := m.withCapabilities .all
  have hspares : ∀ i ∈ m.program.intrinsics, v.Spares whole.config i := by
    intro i hi
    refine Variation.spares_of_console (fun _ => rfl) ?_
    show granted.allows i = CapabilitySet.all.allows i
    rw [Program.allows_of_required h hi, CapabilitySet.allows_all]
  have hcount : ∀ m' : Machine, m'.config = whole.config → Action.CommutesAt v.machine count m' :=
    fun m' _ => commutesAt_count_of_limit rfl
  have hdrive := drive_vary hcount hspares fuel (o := .ok (.next m.program.entry) whole) rfl rfl
  cases hm : m.halted with
  | true =>
    have hrun : ∀ c : CapabilitySet, (m.withCapabilities c).run fuel =
        some (.ok () (m.withCapabilities c)) := fun c => if_pos hm
    rw [hrun, hrun]
    rfl
  | false =>
    have hrun : ∀ c : CapabilitySet, (m.withCapabilities c).run fuel =
        (drive fuel (.ok (.next m.program.entry) (m.withCapabilities c))).map
          fun o => runOutcome (flushed o) := fun c => if_neg (by simp [withCapabilities, hm])
    rw [hrun, hrun, Option.map_map]
    show (drive fuel (Outcome.within v.machine (.ok (.next m.program.entry) whole))).map _ = _
    rw [hdrive, Option.map_map]
    refine congrArg (Option.map · _) (funext fun o => ?_)
    show runOutcome (flushed (Outcome.within v.machine o)) =
      Outcome.within v.machine (runOutcome (flushed o))
    rw [flushed_vary, runOutcome_vary]

/-- A run that fails does so in a move, in the flush at its end, or by coming back to a host that
made no call. -/
theorem exists_failure_of_run {f : Fault} {t : Machine} (h : m.run fuel = some (.error f t)) :
    (∃ b m', Moment.Reaches (.ofRun m) b ∧ advance b.control b.machine = .error f m') ∨
      (∃ text, f = .stream text) ∨ f = .invalidTarget hostReturn := by
  cases hm : m.halted with
  | true =>
    rw [run, if_pos hm] at h
    cases h
  | false =>
    obtain ⟨n, o, hn, ho⟩ := (run_iff_pursue hm).mp ⟨fuel, h⟩
    rw [flushed_eq] at ho
    cases hflush : (Outcome.state o).console.sink.flushFailure with
    | some text =>
      rw [hflush] at ho
      cases ho
      exact .inr (.inl ⟨text, rfl⟩)
    | none =>
      rw [hflush] at ho
      rcases o with ⟨_ | _, m'⟩ | ⟨e, m'⟩
      · cases ho
        exact .inr (.inr rfl)
      · cases ho
      · cases ho
        obtain ⟨b, hb, hfail⟩ := Moment.reaches_of_pursue_error (a := .ofRun m) hn
        exact .inl ⟨b, _, hb, hfail⟩

/-- With every capability no intrinsic is refused. -/
theorem run_all_ne_denied (m : Machine) (fuel : Nat) (i : Intrinsic) (t : Machine) :
    (m.withCapabilities .all).run fuel ≠ some (.error (.capabilityDenied i) t) := by
  intro h
  rcases exists_failure_of_run h with ⟨b, m', hb, hfail⟩ | ⟨text, hf⟩ | hf
  · have hconfig := hb.later.config
    obtain ⟨c, mb, live⟩ := b
    cases failure_of_advance hfail with
    | intrinsic hdenied =>
      have hcapabilities : mb.config.capabilities = .all :=
        congrArg Config.capabilities hconfig
      rw [hcapabilities, CapabilitySet.allows_all] at hdenied
      cases hdenied
    | plain hf _ => cases hf
  · cases hf
  · cases hf

end Machine

/-- **What a program declares is enough, and no more than it calls for.**  On a machine in any state
a run with the capabilities that the program requires, or with more, is never refused an intrinsic,
and it ends, if it does, as the run with every capability: with the same result in the same state,
and with the same bytes written.  The required capabilities are those that the image of the program
declares, and each of them is there because some block calls an intrinsic that asks for it. -/
theorem required_suffices_and_is_minimal {p : Program} (hp : p.Built) :
    (∀ granted : CapabilitySet, p.required ⊆ granted → ∀ m : Machine, m.program = p → ∀ fuel,
      (m.withCapabilities granted).run fuel =
        ((m.withCapabilities .all).run fuel).map
          (Outcome.within (Machine.withCapabilities granted)) ∧
      ∀ i t, (m.withCapabilities granted).run fuel ≠ some (.error (.capabilityDenied i) t)) ∧
    (p.Countable → ∃ image, Image.decode (Image.encode p) = .ok image ∧ image.program = p) ∧
    (∀ image, Image.decode (Image.encode p) = .ok image → image.declared = p.required) ∧
    ∀ c, p.required.contains c = true ↔
      ∃ b ∈ p.blocks, ∃ i argument resume,
        b.transfer = .call (.intrinsic i) argument resume ∧ c ∈ i.needs := by
  refine ⟨?_, ?_, fun image h => Image.declared_of_decode_encode h,
    fun c => Program.contains_required⟩
  · rintro granted hgranted m rfl fuel
    have hrun := Machine.run_withCapabilities hgranted fuel
    refine ⟨hrun, fun i t hdenied => ?_⟩
    rw [hrun] at hdenied
    obtain ⟨o, ho, hwithin⟩ := Option.map_eq_some_iff.mp hdenied
    cases o with
    | ok _ _ => cases hwithin
    | error f m' =>
      cases hwithin
      exact Machine.run_all_ne_denied m fuel i m' ho
  · intro hcount
    refine ⟨⟨p, p.required⟩, ?_, rfl⟩
    refine Image.decode_eq_ok.mpr ⟨hp.ofBlocks_eq, hcount, p.required.mask, 0, [], ?_, ?_⟩
    · exact (CapabilitySet.ofMask_mask p.required).symm
    · rw [Image.encode_eq, List.append_nil]

/-- A program that reads a number in a block that nothing names but a word, and prints it. -/
def echoProgram : Program :=
  ⟨⟨0⟩, #[⟨[.label ⟨1⟩ ⟨1⟩], .jumpRegister ⟨1⟩⟩, ⟨[], .call (.intrinsic .readInteger) ⟨1⟩ ⟨2⟩⟩,
    ⟨[], .call (.intrinsic .printInteger) ⟨0⟩ ⟨3⟩⟩, ⟨[], .halt⟩], []⟩

/-- The program on a machine that reads a seven. -/
def echoMachine : Machine where
  store := ⟨.ofSize 2, .ofSize 8, .ofCapacity .upward 8, 0, .zero⟩
  console := ⟨⟨[55], []⟩, {}⟩
  config := { registers := 2, memory := 8, capabilities := .empty }
  program := echoProgram

/-- The right to read input, and no other. -/
def inputOnly : CapabilitySet := ⟨false, false, true⟩

theorem echoProgram_requires_input_only :
    (∃ o, (echoMachine.withCapabilities inputOnly).run 4 = some o ∧
      Outcome.toExcept o = .ok () ∧ (Outcome.state o).console.sink.written = #[55]) ∧
    (∃ image, Image.decode (Image.encode echoProgram) = .ok image ∧ image.declared = inputOnly) ∧
    inputOnly.contains .input = true ∧
    ∃ b ∈ echoProgram.blocks, ∃ i argument resume,
      b.transfer = .call (.intrinsic i) argument resume ∧ .input ∈ i.needs := by
  have hp : echoProgram.Built := .ofBlocks (Program.ofBlocks_eq_ok.mpr ⟨rfl, by decide +kernel⟩)
  have hrequired : echoProgram.required = inputOnly := by decide +kernel
  have hprint : ((echoMachine.withCapabilities .all).run 4).map
      (fun o => ((Outcome.toExcept o).toOption, (Outcome.state o).console.sink.written)) =
        some (some (), #[55]) := by decide +kernel
  obtain ⟨hruns, hdecodes, hdeclares, hcalls⟩ := required_suffices_and_is_minimal hp
  refine ⟨?_, ?_, rfl, ?_⟩
  · -- Only the machine with every capability is run here.
    obtain ⟨hsame, -⟩ := hruns inputOnly (fun c hc => hrequired ▸ hc) echoMachine rfl 4
    obtain ⟨o, ho, hend⟩ := Option.map_eq_some_iff.mp hprint
    obtain ⟨hresult, hwritten⟩ := Prod.mk.inj hend
    refine ⟨_, by rw [hsame, ho, Option.map_some], ?_, ?_⟩
    · cases o with
      | ok _ _ => rfl
      | error f _ => cases hresult
    · rw [Outcome.state_within]
      exact hwritten
  · obtain ⟨image, himage, -⟩ := hdecodes ⟨by decide, by decide, by decide⟩
    exact ⟨image, himage, (hdeclares image himage).trans hrequired⟩
  · exact (hcalls .input).mp (by rw [hrequired]; rfl)

end WordMachine
