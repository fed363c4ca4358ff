/-
Well-nested use of the stack.

A script pushes words and enters frames and gives back what it took in the opposite order.  Such a
script cannot fail but for want of room, and how much room it needs can be read off the script.

* `Script.run` executes a script on a store, `Script.height` is the number of cells that it needs at
  most at a time, and `Script.yields` are the words that its pops and exits should give;
* `Script.run_of_le`: where there is room the script succeeds, and `Script.Restored` says how the
  store is left;
* `Script.run_of_lt`: where there is none it fails;
* `Script.Passes` are the stores that an execution passes through, and `Passes.opened` says that the
  frame pointer names the innermost of the open frames in each of them.
-/
import WordMachine.Proofs.StackList

namespace WordMachine

/-- Stages a completion on the record of a frame and leaves the frame with it. -/
def Frame.finish (record : CallRecord) (completion : Completion) : Action Store Word := fun s =>
  match CallRecord.stage completion record with
  | .ok () staged => Outcome.within Activation.store (exit ⟨s, staged⟩)
  | .error f _ => .error f s

/-- Well-nested pushes and calls. -/
inductive Script where
  | empty
  | both (first second : Script)
  /-- Pushes a word, runs a script and pops. -/
  | push (value : Word) (inner : Script)
  /-- Enters a frame, runs a script and leaves the frame with a completion. -/
  | call (argument returnAddress : Word) (inner : Script) (completion : Completion)

namespace Script

/-- Executes a script and gives what its pops and exits give, in order. -/
def run : Script → Action Store (List Word)
  | empty => return []
  | both first second => do
    let before ← first.run
    let after ← second.run
    return before ++ after
  | push value inner => do
    Store.push value
    let between ← inner.run
    let popped ← Store.pop
    return between ++ [popped]
  | call argument returnAddress inner completion => do
    let record ← Frame.enter argument returnAddress
    let between ← inner.run
    let address ← Frame.finish record completion
    return between ++ [address]

/-- The most cells that a script has on the stack at a time. -/
def height : Script → Nat
  | empty => 0
  | both first second => max first.height second.height
  | push _ inner => 1 + inner.height
  | call _ _ inner _ => 3 + inner.height

/-- The words that were pushed and the return addresses of the frames, in the order in which they
are taken off. -/
def yields : Script → List Word
  | empty => []
  | both first second => first.yields ++ second.yields
  | push value inner => inner.yields ++ [value]
  | call _ returnAddress inner _ => inner.yields ++ [returnAddress]

/-- The value that is staged at the last exit, if there is one. -/
def last? : Script → Option Word
  | empty => none
  | both first second => second.last?.or first.last?
  | push _ inner => inner.last?
  | call _ _ _ completion => some completion.value

/-! ### Stores that are left as they were -/

/-- A store is left as it was found up to a level, but for a value in the register for values. -/
structure Restored (g : Growth) (size k : Nat) (value : Option Word) (s t : Store) : Prop where
  stack : t.stack = s.stack
  fp : t.fp = s.fp
  memory : t.memory.size = s.memory.size
  cells : ∀ j < k, t.memory.read? (cell g size j) = s.memory.read? (cell g size j)
  registers : t.registers.cells =
    value.elim s.registers.cells (s.registers.cells.setIfInBounds Frame.valueRegister)

section

variable {g : Growth} {size k : Nat} {value value' : Option Word} {s t u : Store}

theorem Restored.refl (g : Growth) (size k : Nat) (s : Store) : Restored g size k none s s :=
  ⟨rfl, rfl, rfl, fun _ _ => rfl, rfl⟩

theorem Restored.trans (h : Restored g size k value s u) (h' : Restored g size k value' u t) :
    Restored g size k (value'.or value) s t where
  stack := h'.stack.trans h.stack
  fp := h'.fp.trans h.fp
  memory := h'.memory.trans h.memory
  cells j hj := (h'.cells j hj).trans (h.cells j hj)
  registers := by
    rw [h'.registers, h.registers]
    cases value' <;> cases value <;> simp

theorem Restored.size_registers (h : Restored g size k value s t) :
    t.registers.cells.size = s.registers.cells.size := by
  rw [h.registers]
  cases value <;> simp

theorem Restored.level (h : Restored g size k value s t) (hs : s.Level g size k) :
    t.Level g size k := hs.congr h.stack h.memory

end

/-! ### Frames around a script -/

/-- What is kept in the cells of an open frame. -/
structure Opened where
  argument : Word
  callerFp : Word
  returnAddress : Word

/-- The frame pointer of a store names a frame that has `k` cells below it. -/
structure Opened.At (g : Growth) (size k : Nat) (f : Opened) (s : Store) : Prop where
  fp : s.fp = framePointer g size k
  argument : s.memory.read? (cell g size (argumentCell k g)) = some f.argument
  callerFp : s.memory.read? (cell g size (k + 1)) = some f.callerFp
  returnAddress : s.memory.read? (cell g size (returnCell k g)) = some f.returnAddress

section

variable {g : Growth} {size k j : Nat} {s t : Store} {f : Opened}

/-- A frame stays open while its cells are left alone. -/
theorem Opened.At.of_cells (hf : f.At g size j s) (hj : j + 3 ≤ k) (hfp : t.fp = s.fp)
    (hcells : ∀ i < k, t.memory.read? (cell g size i) = s.memory.read? (cell g size i)) :
    f.At g size j t := by
  have harg := argumentCell_mem j g
  have hret := returnCell_mem j g
  constructor
  case fp => rw [hfp, hf.fp]
  case argument => rw [hcells _ (by omega), hf.argument]
  case callerFp => rw [hcells _ (by omega), hf.callerFp]
  case returnAddress => rw [hcells _ (by omega), hf.returnAddress]

/-- The cells of an open frame lie at the frame pointer and just below it. -/
theorem Opened.At.read? (hf : f.At g size j s) :
    s.memory.read? s.fp = some f.argument ∧ s.memory.read? (s.fp - 1) = some f.callerFp ∧
      s.memory.read? (s.fp - 2) = some f.returnAddress := by
  have hsaved : s.fp - 1 = cell g size (j + 1) := by
    rw [hf.fp, ← framePointer_add_savedFpOffset, Frame.savedFpOffset]
    grind
  have hret : s.fp - 2 = cell g size (returnCell j g) := by
    rw [hf.fp, ← framePointer_add_returnAddressOffset, Frame.returnAddressOffset]
    grind
  rw [hsaved, hret, hf.fp]
  exact ⟨hf.argument, hf.callerFp, hf.returnAddress⟩

theorem enter_of_le (h : s.Level g size k) (hroom : k + 3 ≤ size)
    (argument returnAddress : Word) :
    ∃ u, Frame.enter argument returnAddress s = .ok { argument, returnAddress } u ∧
      u.Level g size (k + 3) ∧ Opened.At g size k ⟨argument, s.fp, returnAddress⟩ u ∧
      u.registers = s.registers ∧ u.stack = { s.stack with sp := cell g size (k + 3) } ∧
      ∀ j < k, u.memory.read? (cell g size j) = s.memory.read? (cell g size j) := by
  obtain ⟨harg, hret, hsaved⟩ := Frame.read?_lay argument returnAddress s.fp (h.hasRoom hroom)
  rw [framePointer_add_returnAddressOffset] at hret
  rw [framePointer_add_savedFpOffset] at hsaved
  exact ⟨_, h.enter_of_le hroom argument returnAddress, h.entered hroom argument returnAddress,
    ⟨rfl, harg, hsaved, hret⟩, rfl, rfl,
    fun j hj => h.read?_lay_of_lt hroom argument returnAddress s.fp hj⟩

theorem finish_of_frame (h : s.Level g size (k + 3)) (hf : f.At g size k s)
    (hreg : Frame.valueRegister < s.registers.cells.size) {record : CallRecord}
    (hphase : record.phase = .inBody) (completion : Completion) :
    Frame.finish record completion s = .ok f.returnAddress
      { s with
        registers := ⟨s.registers.cells.setIfInBounds Frame.valueRegister completion.value⟩
        stack.sp := cell g size k
        fp := f.callerFp } := by
  have hstage : CallRecord.stage completion record = .ok ()
      { record with
        value := completion.value, status := completion.status, phase := .valueStaged } := by
    rw [CallRecord.stage_apply, hphase]
    rfl
  rw [Frame.finish, hstage]
  dsimp only
  rw [h.exit_of_frame hf.fp hf.returnAddress hf.callerFp rfl hreg]
  rfl

end

/-! ### Execution -/

section

variable {g : Growth} {size k : Nat} {s t : Store}

/-- **A script that has room succeeds** and leaves the store as it found it. -/
theorem run_of_le (script : Script) (h : s.Level g size k)
    (hreg : Frame.valueRegister < s.registers.cells.size) (hroom : k + script.height ≤ size) :
    ∃ t, script.run s = .ok script.yields t ∧ Restored g size k script.last? s t := by
  induction script generalizing k s with
  | empty => exact ⟨s, rfl, .refl g size k s⟩
  | both first second ih ih' =>
    rw [height] at hroom
    obtain ⟨u, hu, hsu⟩ := ih h hreg (by omega)
    obtain ⟨t, ht, hut⟩ := ih' (hsu.level h) (by rwa [hsu.size_registers]) (by omega)
    exact ⟨t, (Action.bind_of_ok hu).trans (Action.bind_of_ok ht), hsu.trans hut⟩
  | push value inner ih =>
    rw [height] at hroom
    have hlt : k < size := by omega
    obtain ⟨t, ht, hpt⟩ := ih (h.pushed hlt value) hreg (by omega)
    -- The script in between leaves the word that was pushed, and so it is found on top again.
    have htop : t.memory.read? (cell g size k) = some value :=
      (hpt.cells k (by omega)).trans (Memory.read?_put_self value (h.inside hlt))
    have hpop := (hpt.level (h.pushed hlt value)).pop_of_read? htop
    refine ⟨_, (Action.bind_of_ok (h.push_of_lt hlt value)).trans
      ((Action.bind_of_ok ht).trans (Action.bind_of_ok hpop)), ?_⟩
    constructor
    case stack =>
      dsimp only
      rw [hpt.stack, ← h.sp]
    case fp => exact hpt.fp
    case memory => exact hpt.memory.trans (Memory.size_put _ _ _)
    case cells =>
      intro j hj
      exact (hpt.cells j (by omega)).trans (h.read?_put hlt (by omega) (by omega) value)
    case registers => exact hpt.registers
  | call argument returnAddress inner completion ih =>
    rw [height] at hroom
    obtain ⟨u, henter, hu, hf, hregisters, hstack, hcells⟩ :=
      enter_of_le h (by omega) argument returnAddress
    obtain ⟨t, ht, hut⟩ := ih hu (by rwa [hregisters]) (by omega)
    have hphase : ({ argument, returnAddress } : CallRecord).phase = .inBody := rfl
    have hfinish := finish_of_frame (hut.level hu) (hf.of_cells (Nat.le_refl _) hut.fp hut.cells)
      (by rwa [hut.size_registers, hregisters]) hphase completion
    refine ⟨_, (Action.bind_of_ok henter).trans
      ((Action.bind_of_ok ht).trans (Action.bind_of_ok hfinish)), ?_⟩
    constructor
    case stack =>
      dsimp only
      rw [hut.stack, hstack, ← h.sp]
    case fp => rfl
    case memory => exact hut.memory.trans (hu.memory.trans h.memory.symm)
    case cells =>
      intro j hj
      exact (hut.cells j (by omega)).trans (hcells j hj)
    case registers =>
      dsimp only
      rw [hut.registers, hregisters]
      cases inner.last? <;> simp [last?]

/-- **A script that has no room fails**, however far it comes. -/
theorem run_of_lt (script : Script) (h : s.Level g size k)
    (hreg : Frame.valueRegister < s.registers.cells.size) (hfull : size < k + script.height) :
    ∃ i t, script.run s = .error (.outOfBounds .stack i) t := by
  have hfits := h.fits
  induction script generalizing k s with
  | empty =>
    rw [height] at hfull
    omega
  | both first second ih ih' =>
    rw [height] at hfull
    by_cases hfirst : k + first.height ≤ size
    · obtain ⟨u, hu, hsu⟩ := first.run_of_le h hreg hfirst
      obtain ⟨i, t, ht⟩ := ih' (hsu.level h) (by rwa [hsu.size_registers]) (by omega) hfits
      exact ⟨i, t, (Action.bind_of_ok hu).trans (Action.bind_of_error ht)⟩
    · obtain ⟨i, t, ht⟩ := ih h hreg (by omega) hfits
      exact ⟨i, t, Action.bind_of_error ht⟩
  | push value inner ih =>
    rw [height] at hfull
    by_cases hlt : k < size
    · obtain ⟨i, t, ht⟩ := ih (h.pushed hlt value) hreg (by omega) hlt
      exact ⟨i, t, (Action.bind_of_ok (h.push_of_lt hlt value)).trans (Action.bind_of_error ht)⟩
    · obtain ⟨i, hi⟩ := h.push_of_full (Nat.le_of_not_lt hlt) value
      exact ⟨i, s, Action.bind_of_error hi⟩
  | call argument returnAddress inner completion ih =>
    rw [height] at hfull
    by_cases hroom : k + 3 ≤ size
    · obtain ⟨u, henter, hu, -, hregisters, -⟩ := enter_of_le h hroom argument returnAddress
      obtain ⟨i, t, ht⟩ := ih hu (by rwa [hregisters]) (by omega) hroom
      exact ⟨i, t, (Action.bind_of_ok henter).trans (Action.bind_of_error ht)⟩
    · obtain ⟨i, hi⟩ := h.enter_of_full (Nat.lt_of_not_le hroom) argument returnAddress
      exact ⟨i, s, Action.bind_of_error hi⟩

/-- So a script that succeeds had room. -/
theorem restored_of_run {script : Script} {yielded : List Word} (h : s.Level g size k)
    (hreg : Frame.valueRegister < s.registers.cells.size) (hrun : script.run s = .ok yielded t) :
    Restored g size k script.last? s t := by
  by_cases hroom : k + script.height ≤ size
  · obtain ⟨u, hu, hsu⟩ := script.run_of_le h hreg hroom
    cases hu.symm.trans hrun
    exact hsu
  · obtain ⟨i, u, hu⟩ := script.run_of_lt h hreg (Nat.lt_of_not_le hroom)
    cases hu.symm.trans hrun

end

/-! ### What an execution passes through -/

/-- An execution of a script that starts in a store, inside some frame or outside of all, passes
through another store, and then a certain frame is the innermost one. -/
inductive Passes : Script → Option Opened → Store → Option Opened → Store → Prop
  | start {script : Script} {f : Option Opened} {s : Store} : Passes script f s f s
  | stop {script : Script} {f : Option Opened} {s t : Store} {yielded : List Word}
      (hrun : script.run s = .ok yielded t) : Passes script f s f t
  | first {first second : Script} {f f' : Option Opened} {s t : Store}
      (h : Passes first f s f' t) : Passes (.both first second) f s f' t
  | second {first second : Script} {f f' : Option Opened} {s u t : Store} {yielded : List Word}
      (hrun : first.run s = .ok yielded u) (h : Passes second f u f' t) :
      Passes (.both first second) f s f' t
  | pushed {value : Word} {inner : Script} {f f' : Option Opened} {s u t : Store}
      (hpush : Store.push value s = .ok () u) (h : Passes inner f u f' t) :
      Passes (.push value inner) f s f' t
  | entered {argument returnAddress : Word} {inner : Script} {completion : Completion}
      {f f' : Option Opened} {s u t : Store} {record : CallRecord}
      (henter : Frame.enter argument returnAddress s = .ok record u)
      (h : Passes inner (some ⟨argument, s.fp, returnAddress⟩) u f' t) :
      Passes (.call argument returnAddress inner completion) f s f' t

/-- **The frame pointer names the innermost frame**, whatever an execution does above it. -/
theorem Passes.opened {g : Growth} {size : Nat} {script : Script} {f f' : Option Opened}
    {s t : Store} (h : Passes script f s f' t) {k : Nat} (hs : s.Level g size k)
    (hreg : Frame.valueRegister < s.registers.cells.size)
    (hf : ∀ o ∈ f, ∃ j, j + 3 ≤ k ∧ o.At g size j s) : ∀ o ∈ f', ∃ j, o.At g size j t := by
  induction h generalizing k with
  | start =>
    intro o ho
    obtain ⟨j, -, hj⟩ := hf o ho
    exact ⟨j, hj⟩
  | stop hrun =>
    intro o ho
    obtain ⟨j, hle, hj⟩ := hf o ho
    have hst := restored_of_run hs hreg hrun
    exact ⟨j, hj.of_cells hle hst.fp hst.cells⟩
  | first _ ih => exact ih hs hreg hf
  | second hrun _ ih =>
    have hsu := restored_of_run hs hreg hrun
    refine ih (hsu.level hs) (by rwa [hsu.size_registers]) fun o ho => ?_
    obtain ⟨j, hle, hj⟩ := hf o ho
    exact ⟨j, hle, hj.of_cells hle hsu.fp hsu.cells⟩
  | @pushed value inner f f' s u t hpush _ ih =>
    by_cases hlt : k < size
    · cases (hs.push_of_lt hlt value).symm.trans hpush
      refine ih (hs.pushed hlt value) hreg fun o ho => ?_
      obtain ⟨j, hle, hj⟩ := hf o ho
      exact ⟨j, by omega, hj.of_cells hle rfl fun i hi =>
        hs.read?_put hlt (by omega) (by omega) value⟩
    · obtain ⟨i, hi⟩ := hs.push_of_full (Nat.le_of_not_lt hlt) value
      cases hi.symm.trans hpush
  | @entered argument returnAddress inner completion f f' s u t record henter _ ih =>
    by_cases hroom : k + 3 ≤ size
    · obtain ⟨u', henter', hu, hframe, hregisters, -⟩ :=
        enter_of_le hs hroom argument returnAddress
      cases henter'.symm.trans henter
      refine ih hu (by rwa [hregisters]) fun o ho => ?_
      obtain rfl := Option.mem_some.mp ho
      exact ⟨k, Nat.le_refl _, hframe⟩
    · obtain ⟨i, hi⟩ := hs.enter_of_full (Nat.lt_of_not_le hroom) argument returnAddress
      cases hi.symm.trans henter

end Script

/-! ### Stores in which a script may start -/

/-- The lowest value that the stack pointer has: a stack that grows down is full when it is at
minus one. -/
def lowestSp : Growth → Int
  | .upward => 0
  | .downward => -1

/-- The stack pointer is between those of the empty and of the full stack. -/
def Store.InBounds (s : Store) : Prop :=
  lowestSp s.growth ≤ s.sp.toInt ∧ s.sp.toInt ≤ lowestSp s.growth + s.memory.size

instance (s : Store) : Decidable s.InBounds := inferInstanceAs (Decidable (_ ∧ _))

theorem Store.level_of_inBounds {c : Config} {built s : Store} (hbuilt : ofConfig c = .ok built)
    (hshape : s.shape = built.shape) (hsp : s.InBounds) : s.Level c.growth c.memory s.depth := by
  have h := level_ofConfig hbuilt
  have hgrowth : s.stack.growth = c.growth := (congrArg Shape.growth hshape).trans h.growth
  have hmemory : s.memory.size = c.memory := (congrArg Shape.memory hshape).trans h.memory
  obtain ⟨hlow, hhigh⟩ := hsp
  have hgrowth' : s.growth = c.growth := hgrowth
  rw [hgrowth'] at hlow hhigh
  obtain ⟨k, hk, hposition⟩ : ∃ k ≤ c.memory, s.sp.toInt = position c.memory k c.growth := by
    cases hg : c.growth with
    | upward =>
      rw [hg, lowestSp] at hlow hhigh
      refine ⟨s.sp.toInt.toNat, by omega, ?_⟩
      simp only [position]
      omega
    | downward =>
      rw [hg, lowestSp] at hlow hhigh
      refine ⟨(c.memory - 1 - s.sp.toInt).toNat, by omega, ?_⟩
      simp only [position]
      omega
  have hlevel : s.Level c.growth c.memory k := by
    constructor
    case growth => exact hgrowth
    case initial => exact (congrArg Shape.initial hshape).trans h.initial
    case capacity => exact (congrArg (signedSize ·.capacity) hshape).trans h.capacity
    case sp => rw [cell, ← hposition, Int32.ofInt_toInt, sp]
    case memory => exact hmemory
    case bound => exact h.bound
    case fits => exact hk
  have hdepth : s.depth = k := hlevel.depth
  rwa [hdepth]

/-- **A well-nested script succeeds if and only if it fits.**  It starts in any store that has a
register and whose stack pointer is in bounds; the frame pointer may be any word.  The script
succeeds if the depth of the stack and the height of the script are together at most the size of
memory, and fails otherwise for want of stack.  If it succeeds, then every pop gave the word of its
push and every exit the return address of its frame, the stack pointer and the frame pointer are
what they were, and so are the cells of the stack and the registers, but for register zero, which
has the value that was staged at the last exit.  As long as a frame is the innermost one, the frame
pointer names its argument, with the caller's frame pointer and the return address below it. -/
theorem scripts_succeed_iff_they_fit {c : Config} {built s : Store}
    (hbuilt : Store.ofConfig c = .ok built) (hshape : s.shape = built.shape) (hsp : s.InBounds)
    (hreg : 0 < s.registers.size) (script : Script) :
    (if s.depth + script.height ≤ s.memory.size then
      ∃ t, script.run s = .ok script.yields t ∧ t.sp = s.sp ∧ t.fp = s.fp ∧
        (∀ a ∈ s.stack.slots, t.memory.read? a = s.memory.read? a) ∧
        (∀ i, i ≠ 0 → t.registers.cells[i]? = s.registers.cells[i]?) ∧
        t.registers.cells[0]? = script.last?.or s.registers.cells[0]?
    else ∃ i t, script.run s = .error (.outOfBounds .stack i) t) ∧
    ∀ f t, script.Passes none s (some f) t →
      t.memory.read? t.fp = some f.argument ∧ t.memory.read? (t.fp - 1) = some f.callerFp ∧
        t.memory.read? (t.fp - 2) = some f.returnAddress := by
  have h := Store.level_of_inBounds hbuilt hshape hsp
  rw [h.memory]
  refine ⟨?_, fun f t hpasses => ?_⟩
  · split
    · next hroom =>
      obtain ⟨t, hrun, ht⟩ := script.run_of_le h hreg hroom
      refine ⟨t, hrun, congrArg Stack.sp ht.stack, ht.fp, fun a ha => ?_, fun i hi => ?_, ?_⟩
      · rw [h.slots_eq] at ha
        obtain ⟨j, hj, rfl⟩ := List.mem_map.mp ha
        exact ht.cells j (List.mem_range.mp hj)
      · rw [ht.registers]
        cases script.last? with
        | none => rfl
        | some v => exact Array.getElem?_setIfInBounds_ne (Ne.symm hi)
      · rw [ht.registers]
        cases script.last? with
        | none => rfl
        | some v => exact Array.getElem?_setIfInBounds_self_of_lt hreg
    · next hfull => exact script.run_of_lt h hreg (Nat.lt_of_not_le hfull)
  · obtain ⟨j, hj⟩ := hpasses.opened h hreg (fun o ho => nomatch ho) f rfl
    exact hj.read?

/-- A store with two words on a stack that grows down, and a frame pointer that names no cell. -/
def strayStore : Store where
  registers := ⟨#[1, 2]⟩
  memory := ⟨#[0, 0, 0, 0, 0, 0, 31, 32]⟩
  stack := { Stack.ofCapacity .downward 8 with sp := 5 }
  fp := -77
  scratch := .zero

/-- A call in which a word is pushed and popped and another call is made, six cells high. -/
def nestedScript : Script :=
  .call 5 40 (.both (.push 9 .empty) (.call 6 41 .empty ⟨3, .ok⟩)) ⟨4, .endOfInput⟩

theorem nestedScript_just_fits :
    (∃ t, nestedScript.run strayStore = .ok [9, 41, 40] t ∧ t.sp = 5 ∧ t.fp = -77 ∧
      t.registers.cells[0]? = some 4 ∧ t.registers.cells[1]? = some 2) ∧
    (∃ i t, (Script.push 1 nestedScript).run strayStore = .error (.outOfBounds .stack i) t) ∧
    ∃ record u, Frame.enter 5 40 strayStore = .ok record u ∧ u.memory.read? u.fp = some 5 ∧
      u.memory.read? (u.fp - 1) = some (-77) ∧ u.memory.read? (u.fp - 2) = some 40 := by
  have hbuilt : Store.ofConfig { registers := 2, memory := 8, growth := .downward } =
      .ok ⟨.ofSize 2, .ofSize 8, .ofCapacity .downward 8, 7, .zero⟩ := rfl
  have hshape : strayStore.shape =
      (⟨.ofSize 2, .ofSize 8, .ofCapacity .downward 8, 7, .zero⟩ : Store).shape := by
    decide +kernel
  have hsp : strayStore.InBounds := by decide +kernel
  obtain ⟨hfits, hpasses⟩ :=
    scripts_succeed_iff_they_fit hbuilt hshape hsp (by decide) nestedScript
  obtain ⟨hfull, -⟩ :=
    scripts_succeed_iff_they_fit hbuilt hshape hsp (by decide) (.push 1 nestedScript)
  rw [if_pos (by decide +kernel)] at hfits
  rw [if_neg (by decide +kernel)] at hfull
  refine ⟨?_, hfull, ?_⟩
  · obtain ⟨t, hrun, hsp', hfp', -, hregisters, hzero⟩ := hfits
    exact ⟨t, hrun, hsp', hfp', hzero, hregisters 1 (by decide)⟩
  · obtain ⟨u, henter, -⟩ :=
      Script.enter_of_le (Store.level_of_inBounds hbuilt hshape hsp) (by decide +kernel) 5 40
    exact ⟨_, u, henter, hpasses ⟨5, -77, 40⟩ u (.entered henter .start)⟩

end WordMachine
