/-
The stack in memory.

A stack is a list of words and frames.  In memory it takes consecutive cells from one end, from the
bottom of memory up or from its top down, and inside a frame the argument always has the highest
address, so that the cells of a frame come in opposite orders for the two directions.

* `Slot` is an entry of the stack, and `height` the number of cells of a stack;
* `Laid` says that memory holds a stack, with a frame pointer that names its topmost frame;
* `Store.Holds` says that a store does, for a direction of growth.

The lemmas after that say what the operations of a store do to the list, each once for both
directions: `push_of_lt` and `push_of_full`, `pop_word` and `pop_nil`, `enter_of_le` and
`enter_of_full`, `exit_of_frame` and `exit_of_missing`.
-/
import WordMachine.Proofs.Labels
import WordMachine.Proofs.Level

namespace WordMachine

/-- An entry of the stack. -/
inductive Slot where
  | word (w : Word)
  /-- A frame; its third cell holds the frame pointer of the caller. -/
  | frame (argument returnAddress : Word)

/-- The number of cells that an entry takes. -/
def Slot.size : Slot → Nat
  | word _ => 1
  | frame _ _ => 3

/-- The number of cells of a stack, which is listed from its top. -/
def height : List Slot → Nat
  | [] => 0
  | slot :: below => height below + slot.size

/-- The argument and the return address of the topmost frame. -/
def topFrame? : List Slot → Option (Word × Word)
  | [] => none
  | .word _ :: below => topFrame? below
  | .frame argument returnAddress :: _ => some (argument, returnAddress)

/-! ### Stacks in memory -/

/-- Memory holds a stack, and a frame pointer names the topmost frame, or the bottom if there is no
frame. -/
def Laid (g : Growth) (size : Nat) (m : Memory) : List Slot → Word → Prop
  | [], fp => fp = cell g size 0
  | .word w :: below, fp => m.read? (cell g size (height below)) = some w ∧ Laid g size m below fp
  | .frame argument returnAddress :: below, fp =>
    fp = framePointer g size (height below) ∧
      m.read? (cell g size (argumentCell (height below) g)) = some argument ∧
      m.read? (cell g size (returnCell (height below) g)) = some returnAddress ∧
      ∃ callerFp, m.read? (cell g size (height below + 1)) = some callerFp ∧
        Laid g size m below callerFp

/-- A stack is not disturbed by what is written above it. -/
theorem Laid.put {g : Growth} {size k : Nat} {m : Memory} {slots : List Slot} {fp : Word}
    (hm : m.size = size) (hsize : size ≤ 2147483647) (hk : k < size) (hslots : height slots ≤ k)
    (v : Word) (h : Laid g size m slots fp) :
    Laid g size (m.put (cell g size k).toInt.toNat v) slots fp := by
  have hread : ∀ j < k, (m.put (cell g size k).toInt.toNat v).read? (cell g size j) =
      m.read? (cell g size j) := by
    intro j hj
    have hne : cell g size j ≠ cell g size k := cell_ne hsize (by omega) (by omega) (by omega)
    exact Memory.read?_put_of_ne v (inside_cell hm hsize hk) hne
  -- Down the stack every cell is below the one that is written.
  induction slots generalizing fp with
  | nil => exact h
  | cons slot below ih =>
    cases slot with
    | word w =>
      rw [height, Slot.size] at hslots
      obtain ⟨hw, h⟩ := h
      exact ⟨(hread _ (by omega)).trans hw, ih (by omega) h⟩
    | frame argument returnAddress =>
      rw [height, Slot.size] at hslots
      obtain ⟨rfl, ha, hr, callerFp, hc, h⟩ := h
      have harg := argumentCell_mem (height below) g
      have hret := returnCell_mem (height below) g
      exact ⟨rfl, (hread _ (by omega)).trans ha, (hread _ (by omega)).trans hr, callerFp,
        (hread _ (by omega)).trans hc, ih (by omega) h⟩

/-- The frame pointer names the topmost frame. -/
theorem Laid.top {g : Growth} {size : Nat} {m : Memory} {slots : List Slot} {fp : Word}
    {argument returnAddress : Word} (h : Laid g size m slots fp)
    (htop : topFrame? slots = some (argument, returnAddress)) :
    ∃ k, k + 3 ≤ height slots ∧ fp = framePointer g size k ∧
      m.read? (cell g size (argumentCell k g)) = some argument ∧
      m.read? (cell g size (returnCell k g)) = some returnAddress := by
  induction slots with
  | nil => cases htop
  | cons slot below ih =>
    cases slot with
    | word w =>
      obtain ⟨k, hk, hfp, harg, hret⟩ := ih h.2 htop
      exact ⟨k, by rw [height]; omega, hfp, harg, hret⟩
    | frame a r =>
      cases htop
      obtain ⟨hfp, harg, hret, -⟩ := h
      exact ⟨height below, Nat.le_refl _, hfp, harg, hret⟩

/-- What a store has beside the stack. -/
def Store.aside (s : Store) : Registers × Single := (s.registers, s.scratch)

/-- A store holds a stack that grows in a direction. -/
structure Store.Holds (g : Growth) (size : Nat) (slots : List Slot) (s : Store) : Prop
    extends level : Store.Level g size (height slots) s where
  laid : Laid g size s.memory slots s.fp

namespace Store.Holds

variable {g : Growth} {size : Nat} {slots below : List Slot} {s : Store}

/-! ### The stack pointer -/

theorem lowered_one {slot : Slot} (h : Holds g size (slot :: below) s) :
    s.stack.lowered 1 = cell g size (height below + slot.size - 1) := by
  have hpos : 1 ≤ height (slot :: below) := by cases slot <;> simp [height, Slot.size]
  exact h.level.lowered hpos

/-! ### Words -/

theorem push_of_lt (h : Holds g size slots s) (hroom : height slots < size) (w : Word) :
    ∃ s', Store.push w s = .ok () s' ∧ Holds g size (.word w :: slots) s' ∧ s'.aside = s.aside := by
  refine ⟨_, h.level.push_of_lt hroom w, ⟨h.level.pushed hroom w, ?_⟩, rfl⟩
  exact ⟨Memory.read?_put_self w (h.level.inside hroom),
    h.laid.put h.memory h.bound hroom (Nat.le_refl _) w⟩

theorem push_of_full (h : Holds g size slots s) (hfull : ¬ height slots < size) (w : Word) :
    ∃ i, Store.push w s = .error (.outOfBounds .stack i) s :=
  h.level.push_of_full (Nat.le_of_not_lt hfull) w

theorem pop_word {w : Word} (h : Holds g size (.word w :: below) s) :
    ∃ s', Store.pop s = .ok w s' ∧ Holds g size below s' ∧ s'.aside = s.aside := by
  have hfits := h.fits
  rw [height, Slot.size] at hfits
  obtain ⟨hw, hlaid⟩ := h.laid
  exact ⟨_, h.level.pop_of_read? hw, ⟨h.level.moved (by omega), hlaid⟩, rfl⟩

theorem pop_nil (h : Holds g size [] s) : ∃ i, Store.pop s = .error (.outOfBounds .stack i) s :=
  h.level.pop_of_zero

/-! ### Frames -/

/-- A frame that is laid down above a stack leaves the stack as it is. -/
theorem laid_lay (h : Holds g size slots s) (hroom : height slots + 3 ≤ size)
    (argument returnAddress : Word) :
    Laid g size
      (Frame.lay s.memory (framePointer g size (height slots)) argument returnAddress s.fp)
      (.frame argument returnAddress :: slots) (framePointer g size (height slots)) := by
  obtain ⟨harg, hret, hsaved⟩ := Frame.read?_lay argument returnAddress s.fp (h.level.hasRoom hroom)
  rw [framePointer_add_returnAddressOffset] at hret
  rw [framePointer_add_savedFpOffset] at hsaved
  refine ⟨rfl, harg, hret, s.fp, hsaved, ?_⟩
  rw [Frame.lay, framePointer_add_returnAddressOffset, framePointer_add_savedFpOffset, framePointer]
  -- The three cells of the frame are written one after another, all of them above the stack.
  have hargCell := argumentCell_mem (height slots) g
  have hretCell := returnCell_mem (height slots) g
  have hone := h.laid.put h.memory h.bound (by omega) hargCell.1 argument
  have htwo := hone.put (by rw [Memory.size_put, h.memory]) h.bound (by omega) hretCell.1
    returnAddress
  exact htwo.put (by rw [Memory.size_put, Memory.size_put, h.memory]) h.bound (by omega) (by omega)
    s.fp

theorem enter_of_le (h : Holds g size slots s) (hroom : height slots + 3 ≤ size)
    (argument returnAddress : Word) :
    ∃ s', Frame.enter argument returnAddress s = .ok { argument, returnAddress } s' ∧
      Holds g size (.frame argument returnAddress :: slots) s' ∧ s'.aside = s.aside ∧
      s'.fp = framePointer g size (height slots) := by
  refine ⟨_, h.level.enter_of_le hroom argument returnAddress, ?_, by rw [aside, aside], rfl⟩
  exact ⟨h.level.entered hroom argument returnAddress, h.laid_lay hroom argument returnAddress⟩

theorem enter_of_full (h : Holds g size slots s) (hfull : ¬ height slots + 3 ≤ size)
    (argument returnAddress : Word) :
    ∃ i, Frame.enter argument returnAddress s = .error (.outOfBounds .stack i) s :=
  h.level.enter_of_full (Nat.lt_of_not_le hfull) argument returnAddress

theorem frameLoad_argument (h : Holds g size slots s) {argument returnAddress : Word}
    (htop : topFrame? slots = some (argument, returnAddress)) :
    Store.frameLoad Frame.argumentOffset s = .ok argument s := by
  obtain ⟨k, hk, hfp, harg, -⟩ := h.laid.top htop
  refine h.level.frameLoad hk hfp (by decide) (by decide) ?_
  rw [framePointer_add_argumentOffset]
  exact harg

theorem frameLoad_returnAddress (h : Holds g size slots s) {argument returnAddress : Word}
    (htop : topFrame? slots = some (argument, returnAddress)) :
    Store.frameLoad Frame.returnAddressOffset s = .ok returnAddress s := by
  obtain ⟨k, hk, hfp, -, hret⟩ := h.laid.top htop
  refine h.level.frameLoad hk hfp (by decide) (by decide) ?_
  rw [framePointer_add_returnAddressOffset]
  exact hret

/-- The record of the running body is that of the topmost frame. -/
theorem active (h : Holds g size slots s) {argument returnAddress : Word}
    (htop : topFrame? slots = some (argument, returnAddress)) :
    Frame.active s = .ok { argument, returnAddress } s := by
  refine (Action.bind_of_ok (h.frameLoad_argument htop)).trans ?_
  exact Action.bind_of_ok (h.frameLoad_returnAddress htop)

/-- The stack pointer is just beyond the topmost frame if nothing lies above it. -/
theorem sp_balanced {argument returnAddress : Word}
    (h : Holds g size (.frame argument returnAddress :: below) s) :
    s.sp = Frame.balancedSp s.growth s.fp := by
  obtain ⟨hfp, -⟩ := h.laid
  exact h.level.sp_balanced hfp

theorem sp_unbalanced {w argument returnAddress : Word} (h : Holds g size (.word w :: below) s)
    (htop : topFrame? below = some (argument, returnAddress)) :
    s.sp ≠ Frame.balancedSp s.growth s.fp := by
  obtain ⟨k, hk, hfp, -⟩ := h.laid.2.top htop
  have hgrowth : s.growth = g := h.growth
  have hsp : s.sp = cell g size (height below + 1) := h.sp
  have hfits := h.fits
  rw [height, Slot.size] at hfits
  rw [hgrowth, hfp, balancedSp_framePointer, hsp]
  exact cell_ne h.bound hfits (by omega) (by omega)

/-- The saved frame pointer of the topmost frame, from which the rest of the stack hangs. -/
theorem frameLoad_savedFp {argument returnAddress : Word}
    (h : Holds g size (.frame argument returnAddress :: below) s) :
    ∃ callerFp, Store.frameLoad Frame.savedFpOffset s = .ok callerFp s ∧
      Laid g size s.memory below callerFp := by
  obtain ⟨hfp, -, -, callerFp, hsaved, hbelow⟩ := h.laid
  refine ⟨callerFp, h.level.frameLoad (Nat.le_refl _) hfp (by decide) (by decide) ?_, hbelow⟩
  rw [framePointer_add_savedFpOffset]
  exact hsaved

/-- Leaving a frame takes it off the stack. -/
theorem exit_of_frame {argument returnAddress : Word}
    (h : Holds g size (.frame argument returnAddress :: below) s) {record : CallRecord}
    (hphase : record.phase = .valueStaged) (hreg : Frame.valueRegister < s.registers.cells.size) :
    ∃ s', Frame.exit ⟨s, record⟩ = .ok returnAddress
        ⟨s', { record with returnAddress := returnAddress, phase := .dispatched }⟩ ∧
      Holds g size below s' ∧ s'.aside =
        (⟨s.registers.cells.setIfInBounds Frame.valueRegister record.value⟩, s.scratch) := by
  have hfits := h.fits
  rw [height, Slot.size] at hfits
  obtain ⟨hfp, -, hret, callerFp, hsaved, hbelow⟩ := h.laid
  refine ⟨_, h.level.exit_of_frame hfp hret hsaved hphase hreg, ⟨?_, hbelow⟩, rfl⟩
  exact (h.level.moved (j := height below) (by omega)).congr rfl rfl

/-- A machine without registers has no place for a value. -/
theorem exit_of_missing {argument returnAddress : Word}
    (h : Holds g size (.frame argument returnAddress :: below) s) {record : CallRecord}
    (hphase : record.phase = .valueStaged) (hreg : ¬ Frame.valueRegister < s.registers.cells.size) :
    Frame.exit ⟨s, record⟩ = .error (.outOfBounds .register (Int64.ofNat Frame.valueRegister))
      ⟨s, record⟩ := by
  obtain ⟨callerFp, hsaved, -⟩ := h.frameLoad_savedFp
  -- Everything up to the write of the register succeeds and changes nothing.
  have hready : Frame.ready ⟨s, record⟩ = .ok () ⟨s, record⟩ :=
    Frame.ready_eq_ok.mpr ⟨hphase, h.sp_balanced, rfl⟩
  have hret : Frame.Activation.onStore (Store.frameLoad Frame.returnAddressOffset) ⟨s, record⟩ =
      .ok returnAddress ⟨s, record⟩ :=
    Frame.Activation.onStore_eq_ok.mpr ⟨s, h.frameLoad_returnAddress rfl, rfl⟩
  have hfp : Frame.Activation.onStore (Store.frameLoad Frame.savedFpOffset) ⟨s, record⟩ =
      .ok callerFp ⟨s, record⟩ := Frame.Activation.onStore_eq_ok.mpr ⟨s, hsaved, rfl⟩
  have hvalue : Frame.Activation.onStore (Store.setRegister Frame.valueRegister record.value)
      ⟨s, record⟩ = .error (.outOfBounds .register (Int64.ofNat Frame.valueRegister))
        ⟨s, record⟩ := by
    rw [Frame.Activation.onStore_apply, Store.setRegister, Store.onRegisters_apply, Registers.set,
      if_neg hreg]
    rfl
  have hget : (get : Action Frame.Activation Frame.Activation) ⟨s, record⟩ =
      .ok ⟨s, record⟩ ⟨s, record⟩ := rfl
  rw [Frame.exit, Action.bind_of_ok hready, Action.bind_of_ok hret, Action.bind_of_ok hfp,
    Action.bind_of_ok hget]
  exact Action.bind_of_error hvalue

end Store.Holds

/-- A frame is not left while other words lie above it. -/
theorem Frame.exit_of_unbalanced {s : Store} {record : CallRecord}
    (hphase : record.phase = .valueStaged) (hsp : s.sp ≠ balancedSp s.growth s.fp) :
    exit ⟨s, record⟩ = .error (.unbalancedFrame s.fp s.sp) ⟨s, record⟩ := by
  have hready : ready ⟨s, record⟩ = .error (.unbalancedFrame s.fp s.sp) ⟨s, record⟩ := by
    rw [ready, if_neg (not_not_intro hphase), if_pos hsp]
  exact Action.bind_of_error hready

/-! ### The empty stack -/

/-- A store that was just built holds the empty stack. -/
theorem Store.holds_ofConfig {c : Config} {s : Store} (h : Store.ofConfig c = .ok s) :
    Holds c.growth c.memory [] s := by
  have hlevel := level_ofConfig h
  obtain ⟨-, hbound, rfl⟩ := ofConfig_eq_ok.mp h
  exact ⟨hlevel, start_ofNat hbound⟩

theorem Store.aside_ofConfig {c : Config} {s : Store} (h : Store.ofConfig c = .ok s) :
    s.aside = (.ofSize c.registers, .zero) := by
  obtain ⟨-, -, rfl⟩ := ofConfig_eq_ok.mp h
  rfl

end WordMachine
