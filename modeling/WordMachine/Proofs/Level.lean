/-
How far the stack reaches.

The stack takes consecutive cells from one end of memory, from the bottom up or from the top down.
This module says where the k-th of these cells is, and what the operations of a store do to the
stack pointer, each once for both directions of growth and without a word about what is on the
stack.

* `cell` is the address of the k-th cell of a stack, `framePointer` the frame pointer of a frame
  that has `k` cells below it;
* `Store.Level` says that the stack pointer stands `k` cells from the end where the stack starts;
* for each operation one lemma says what it does if the stack leaves room for it, for instance
  `Level.reserve_of_le` and `Level.enter_of_le`, and one that it fails otherwise and changes
  nothing.
-/
import WordMachine.Proofs.Effects

namespace WordMachine

/-! ### Addresses -/

/-- The address of the k-th cell of a stack in a memory of some size. -/
def position (size k : Nat) : Growth → Int
  | .upward => k
  | .downward => size - 1 - k

def cell (g : Growth) (size k : Nat) : Word := Int32.ofInt (position size k g)

/-- The cell of the argument of a frame that has `k` cells below it. -/
def argumentCell (k : Nat) : Growth → Nat
  | .upward => k + 2
  | .downward => k

/-- The cell of its return address. -/
def returnCell (k : Nat) : Growth → Nat
  | .upward => k
  | .downward => k + 2

/-- The cell with the lowest address of the `n` cells from the k-th on. -/
def lowestCell (k n : Nat) : Growth → Nat
  | .upward => k
  | .downward => k + n - 1

/-- The frame pointer of a frame that has `k` cells below it. -/
def framePointer (g : Growth) (size k : Nat) : Word := cell g size (argumentCell k g)

section Addresses

variable {g : Growth} {size j k : Nat}

theorem argumentCell_mem (k : Nat) (g : Growth) :
    k ≤ argumentCell k g ∧ argumentCell k g < k + 3 := by
  cases g <;> simp only [argumentCell] <;> omega

theorem returnCell_mem (k : Nat) (g : Growth) :
    k ≤ returnCell k g ∧ returnCell k g < k + 3 := by
  cases g <;> simp only [returnCell] <;> omega

theorem lowestCell_mem (k : Nat) {n : Nat} (hn : 0 < n) (g : Growth) :
    k ≤ lowestCell k n g ∧ lowestCell k n g < k + n := by
  cases g <;> simp only [lowestCell] <;> omega

theorem toInt_cell (hsize : size ≤ 2147483647) (hk : k ≤ size) :
    (cell g size k).toInt = position size k g := by
  -- `k = size` is where the stack pointer of a full stack is, below zero if the stack grows down.
  refine Int32.toInt_ofInt_of_le ?_ ?_
  · cases g <;> simp only [position] <;> omega
  · cases g <;> simp only [position] <;> omega

theorem cell_ne (hsize : size ≤ 2147483647) (hj : j ≤ size) (hk : k ≤ size) (h : j ≠ k) :
    cell g size j ≠ cell g size k := by
  intro he
  have hint := congrArg Int32.toInt he
  rw [toInt_cell hsize hj, toInt_cell hsize hk] at hint
  cases g <;> simp only [position] at hint <;> omega

theorem inside_cell {m : Memory} (hm : m.size = size) (hsize : size ≤ 2147483647) (hk : k < size) :
    m.Inside (cell g size k).toInt := by
  rw [toInt_cell hsize (by omega), Memory.Inside, hm]
  cases g <;> simp only [position] <;> omega

theorem framePointer_add_argumentOffset :
    framePointer g size k + Frame.argumentOffset = framePointer g size k := by
  simp only [Frame.argumentOffset]
  grind

theorem framePointer_add_savedFpOffset :
    framePointer g size k + Frame.savedFpOffset = cell g size (k + 1) := by
  have hone : Frame.savedFpOffset = Int32.ofInt (-1) := rfl
  rw [framePointer, cell, cell, hone, ← Int32.ofInt_add]
  congr 1
  cases g <;> simp only [position, argumentCell] <;> omega

theorem framePointer_add_returnAddressOffset :
    framePointer g size k + Frame.returnAddressOffset = cell g size (returnCell k g) := by
  have htwo : Frame.returnAddressOffset = Int32.ofInt (-2) := rfl
  rw [framePointer, cell, cell, htwo, ← Int32.ofInt_add]
  congr 1
  cases g <;> simp only [position, argumentCell, returnCell] <;> omega

theorem depth_of_cell {s : Stack} (hsize : size ≤ 2147483647) (hinitial : s.initial = cell g size 0)
    (hsp : s.sp = cell g size k) (hk : k ≤ size) : s.depth = k := by
  rw [Stack.depth, hsp, hinitial, cell, cell, ← Int32.ofInt_sub, Int32.toInt_ofInt_of_le]
  · cases g <;> simp only [position] <;> omega
  · cases g <;> simp only [position] <;> omega
  · cases g <;> simp only [position] <;> omega

/-- The caller's stack pointer, from the frame pointer. -/
theorem callerSp_framePointer :
    Frame.callerSp g (framePointer g size k) = cell g size k := by
  cases g with
  | upward => exact framePointer_add_returnAddressOffset
  | downward => rfl

/-- The stack pointer just beyond a frame, from the frame pointer. -/
theorem balancedSp_framePointer :
    Frame.balancedSp g (framePointer g size k) = cell g size (k + 3) := by
  cases g with
  | upward =>
    show framePointer .upward size k + Frame.returnAddressOffset + Int32.ofInt 3 = _
    rw [framePointer_add_returnAddressOffset, cell, cell, ← Int32.ofInt_add]
    rfl
  | downward =>
    show framePointer .downward size k + Frame.returnAddressOffset - Int32.ofInt 1 = _
    rw [framePointer_add_returnAddressOffset, cell, cell, ← Int32.ofInt_sub]
    congr 1
    simp only [position, returnCell]
    omega

end Addresses

/-! ### Sizes as numbers -/

/-- A 64-bit size below `2 ^ 63` is read as itself. -/
theorem signedSize_of_lt {n : UInt64} (h : n.toNat < 9223372036854775808) :
    signedSize n = n.toNat := by
  have hlt : 2 * n.toBitVec.toNat < 18446744073709551616 := by
    rw [UInt64.toNat_toBitVec]
    omega
  exact BitVec.toInt_eq_toNat_of_lt hlt

theorem signedSize_ofNat {n : Nat} (hn : n ≤ 2147483647) : signedSize (UInt64.ofNat n) = n := by
  have hnat : (UInt64.ofNat n).toNat = n := by
    rw [UInt64.toNat_ofNat_of_lt']
    exact Nat.lt_of_le_of_lt hn (by decide)
  rw [signedSize_of_lt (by omega), hnat]

/-- The word of a size that words can address. -/
theorem toInt32_eq_ofInt {n : UInt64} (h : n.toNat ≤ 2147483647) :
    n.toUInt32.toInt32 = Int32.ofInt n.toNat := by
  have hnat : n.toUInt32.toNat = n.toNat := by
    rw [UInt64.toNat_toUInt32]
    omega
  apply Int32.toInt_inj.mp
  rw [Word.toInt_toInt32 (by omega), hnat, Int32.toInt_ofInt_of_le (by omega) (by omega)]

theorem start_ofNat {g : Growth} {n : Nat} (hn : n ≤ 2147483647) :
    Stack.start g (UInt64.ofNat n) = cell g n 0 := by
  cases g with
  | upward => rfl
  | downward =>
    have hnat : (UInt64.ofNat n).toNat = n := by
      rw [UInt64.toNat_ofNat_of_lt' (Nat.lt_of_le_of_lt hn (by decide))]
    show (UInt64.ofNat n).toUInt32.toInt32 - Int32.ofInt 1 = _
    rw [toInt32_eq_ofInt (by omega), hnat, cell, ← Int32.ofInt_sub]
    congr 1
    simp only [position]
    omega

/-! ### Levels -/

/-- The stack pointer of a store stands `k` cells from the end of memory where the stack starts. -/
structure Store.Level (g : Growth) (size k : Nat) (s : Store) : Prop where
  growth : s.stack.growth = g
  initial : s.stack.initial = cell g size 0
  capacity : signedSize s.stack.capacity = size
  sp : s.stack.sp = cell g size k
  memory : s.memory.size = size
  bound : size ≤ 2147483647
  fits : k ≤ size

namespace Store.Level

variable {g : Growth} {size k : Nat} {s : Store}

theorem toInt_sp (h : Level g size k s) : s.stack.sp.toInt = position size k g := by
  rw [h.sp, toInt_cell h.bound h.fits]

theorem depth (h : Level g size k s) : s.stack.depth = k :=
  depth_of_cell h.bound h.initial h.sp h.fits

/-- The store with the stack pointer elsewhere. -/
theorem moved (h : Level g size k s) {j : Nat} (hj : j ≤ size) :
    Level g size j { s with stack.sp := cell g size j } :=
  ⟨h.growth, h.initial, h.capacity, rfl, h.memory, h.bound, hj⟩

/-- The level depends on the stack pointer with its range, and on the size of memory. -/
theorem congr {t : Store} (h : Level g size k s) (hstack : t.stack = s.stack)
    (hmemory : t.memory.size = s.memory.size) : Level g size k t := by
  constructor
  case growth => rw [hstack, h.growth]
  case initial => rw [hstack, h.initial]
  case capacity => rw [hstack, h.capacity]
  case sp => rw [hstack, h.sp]
  case memory => rw [hmemory, h.memory]
  case bound => exact h.bound
  case fits => exact h.fits

theorem inside (h : Level g size k s) {j : Nat} (hj : j < size) :
    s.memory.Inside (cell g size j).toInt := inside_cell h.memory h.bound hj

theorem exists_read? (h : Level g size k s) {j : Nat} (hj : j < size) :
    ∃ v, s.memory.read? (cell g size j) = some v := Memory.exists_read? (h.inside hj)

/-- A write to one cell leaves the others. -/
theorem read?_put (h : Level g size k s) {i j : Nat} (hi : i < size) (hj : j < size) (hne : j ≠ i)
    (v : Word) :
    (s.memory.put (cell g size i).toInt.toNat v).read? (cell g size j) =
      s.memory.read? (cell g size j) :=
  Memory.read?_put_of_ne v (h.inside hi) (cell_ne h.bound (by omega) (by omega) hne)

/-! ### Reserving and releasing -/

/-- A reservation may be made if there are enough cells left. -/
theorem fits_iff (h : Level g size k s) {n : Nat} (hn : 0 < n) :
    s.stack.Fits n ↔ k + n ≤ size := by
  have hsp := h.toInt_sp
  have hfits := h.fits
  rw [Stack.Fits, Stack.Inside, Stack.Inside, Stack.lowest, Stack.highest, h.growth, h.capacity,
    hsp]
  cases g <;> simp only [position] <;> omega

theorem beyond (h : Level g size k s) (n : Nat) :
    Int32.ofInt (s.stack.beyond n) = cell g size (k + n) := by
  rw [Stack.beyond, h.growth, h.toInt_sp, cell]
  congr 1
  cases g <;> simp only [position] <;> omega

theorem lowest (h : Level g size k s) {n : Nat} (hn : 0 < n) :
    Int32.ofInt (s.stack.lowest n) = cell g size (lowestCell k n g) := by
  rw [Stack.lowest, h.growth, h.toInt_sp, cell]
  congr 1
  cases g with
  | upward => rfl
  | downward =>
    simp only [position, lowestCell]
    omega

theorem reserve_of_le (h : Level g size k s) {count : UInt64}
    (hcount : count.toNat < 9223372036854775808) (hroom : k + count.toNat ≤ size) :
    Store.reserve count s = .ok (Int32.ofInt (s.stack.lowest count.toNat))
      { s with stack.sp := cell g size (k + count.toNat) } := by
  rw [Store.reserve_eq_ok, signedSize_of_lt hcount, h.beyond]
  refine ⟨?_, rfl, rfl⟩
  by_cases hpos : 0 < count.toNat
  · exact (h.fits_iff hpos).mpr hroom
  · intro hlt
    omega

theorem reserve_of_full (h : Level g size k s) {count : UInt64}
    (hcount : count.toNat < 9223372036854775808) (hfull : size < k + count.toNat) :
    ∃ i, Store.reserve count s = .error (.outOfBounds .stack i) s := by
  have hk := h.fits
  have hfits : ¬ s.stack.Fits (signedSize count) := by
    rw [signedSize_of_lt hcount, h.fits_iff (by omega)]
    omega
  rw [Store.reserve, Store.onStack_apply, Stack.reserve, if_neg hfits]
  exact ⟨_, rfl⟩

/-- The stack pointer after giving cells back. -/
theorem lowered (h : Level g size k s) {n : Nat} (hn : n ≤ k) :
    s.stack.lowered (Int32.ofInt n) = cell g size (k - n) := by
  rw [Stack.lowered, h.growth, h.sp, cell, cell]
  cases g with
  | upward =>
    show Int32.ofInt _ - Int32.ofInt n = _
    rw [← Int32.ofInt_sub]
    congr 1
    simp only [position]
    omega
  | downward =>
    show Int32.ofInt _ + Int32.ofInt n = _
    rw [← Int32.ofInt_add]
    congr 1
    simp only [position]
    omega

theorem depth_lowered (h : Level g size k s) (hk : 1 ≤ k) :
    ({ s.stack with sp := s.stack.lowered 1 } : Stack).depth = k - 1 := by
  have hlowered : s.stack.lowered 1 = cell g size (k - 1) := h.lowered hk
  have hfits := h.fits
  rw [hlowered]
  exact (h.moved (j := k - 1) (by omega)).depth

theorem onStack_release_of_le (h : Level g size k s) {count : UInt64} (hcount : count.toNat ≤ k) :
    Store.onStack (Stack.release count) s = .ok (cell g size (k - count.toNat))
      { s with stack.sp := cell g size (k - count.toNat) } := by
  have hbound := h.bound
  have hfits := h.fits
  have hdepth : ¬ s.stack.depth < count.toNat := by
    rw [h.depth]
    omega
  rw [Store.onStack_apply, Stack.release, if_neg hdepth, toInt32_eq_ofInt (by omega),
    h.lowered hcount]
  rfl

theorem onStack_release_of_lt (h : Level g size k s) {count : UInt64} (hcount : k < count.toNat) :
    ∃ i, Store.onStack (Stack.release count) s = .error (.outOfBounds .stack i) s := by
  rw [Store.onStack_apply, Stack.release, if_pos (by rwa [h.depth])]
  exact ⟨_, rfl⟩

theorem release_of_le (h : Level g size k s) {count : UInt64} (hcount : count.toNat ≤ k) :
    Store.release count s = .ok () { s with stack.sp := cell g size (k - count.toNat) } :=
  Action.bind_of_ok (h.onStack_release_of_le hcount)

theorem release_of_lt (h : Level g size k s) {count : UInt64} (hcount : k < count.toNat) :
    ∃ i, Store.release count s = .error (.outOfBounds .stack i) s := by
  obtain ⟨i, hi⟩ := h.onStack_release_of_lt hcount
  exact ⟨i, Action.bind_of_error hi⟩

/-! ### Words -/

theorem push_of_lt (h : Level g size k s) (hroom : k < size) (w : Word) :
    Store.push w s = .ok ()
      { s with
        memory := s.memory.put (cell g size k).toInt.toNat w
        stack.sp := cell g size (k + 1) } := by
  have hlowest : Int32.ofInt (s.stack.lowest (UInt64.toNat 1)) = cell g size k := by
    rw [h.lowest (by decide)]
    cases g <;> rfl
  have hreserve : Store.reserve 1 s = _ := h.reserve_of_le (by decide) hroom
  rw [hlowest] at hreserve
  exact Action.bind_eq_ok.mpr ⟨_, _, hreserve, Store.store_eq_ok.mpr ⟨h.inside hroom, rfl⟩⟩

/-- The level of the store that a push leaves. -/
theorem pushed (h : Level g size k s) (hroom : k < size) (w : Word) :
    Level g size (k + 1)
      { s with
        memory := s.memory.put (cell g size k).toInt.toNat w
        stack.sp := cell g size (k + 1) } :=
  ⟨h.growth, h.initial, h.capacity, rfl, (Memory.size_put _ _ _).trans h.memory, h.bound, hroom⟩

theorem push_of_full (h : Level g size k s) (hfull : size ≤ k) (w : Word) :
    ∃ i, Store.push w s = .error (.outOfBounds .stack i) s := by
  have hlt : size < k + UInt64.toNat 1 := Nat.lt_succ_of_le hfull
  obtain ⟨i, hi⟩ := h.reserve_of_full (by decide) hlt
  exact ⟨i, Action.bind_of_error hi⟩

theorem pop_of_read? (h : Level g size (k + 1) s) {v : Word}
    (hv : s.memory.read? (cell g size k) = some v) :
    Store.pop s = .ok v { s with stack.sp := cell g size k } :=
  Action.bind_eq_ok.mpr ⟨_, _, h.onStack_release_of_le (Nat.le_add_left 1 k),
    Store.load_eq_ok.mpr ⟨hv, rfl⟩⟩

theorem pop_of_zero (h : Level g size 0 s) :
    ∃ i, Store.pop s = .error (.outOfBounds .stack i) s := by
  have hlt : 0 < UInt64.toNat 1 := Nat.one_pos
  obtain ⟨i, hi⟩ := h.onStack_release_of_lt hlt
  exact ⟨i, Action.bind_of_error hi⟩

/-! ### Frames -/

theorem entryFp (h : Level g size k s) : Frame.entryFp s = framePointer g size k := by
  rw [Frame.entryFp, Stack.lowest, h.growth, h.toInt_sp, framePointer, cell,
    show (2 : Word) = Int32.ofInt 2 from rfl, ← Int32.ofInt_add]
  congr 1
  cases g <;> simp only [position, argumentCell] <;> omega

theorem hasRoom (h : Level g size k s) (hroom : k + 3 ≤ size) :
    Frame.HasRoom s.memory (framePointer g size k) := by
  rw [Frame.HasRoom, framePointer_add_returnAddressOffset, framePointer_add_savedFpOffset]
  have harg := argumentCell_mem k g
  have hret := returnCell_mem k g
  exact ⟨h.inside (by omega), h.inside (by omega), h.inside (by omega)⟩

theorem enter_of_le (h : Level g size k s) (hroom : k + 3 ≤ size) (argument returnAddress : Word) :
    Frame.enter argument returnAddress s = .ok { argument, returnAddress }
      { s with
        memory := Frame.lay s.memory (framePointer g size k) argument returnAddress s.fp
        stack.sp := cell g size (k + 3)
        fp := framePointer g size k } := by
  have hfits : s.stack.Fits 3 := (h.fits_iff (n := 3) (by omega)).mpr hroom
  have hgrowth : s.growth = g := h.growth
  refine Frame.enter_eq_ok.mpr ⟨hfits, ?_, rfl, ?_⟩
  · rw [h.entryFp]
    exact h.hasRoom hroom
  · rw [h.entryFp, hgrowth, balancedSp_framePointer]

/-- The level of the store that entering a frame leaves. -/
theorem entered (h : Level g size k s) (hroom : k + 3 ≤ size) (argument returnAddress : Word) :
    Level g size (k + 3)
      { s with
        memory := Frame.lay s.memory (framePointer g size k) argument returnAddress s.fp
        stack.sp := cell g size (k + 3)
        fp := framePointer g size k } := by
  have hmemory : (Frame.lay s.memory (framePointer g size k) argument returnAddress s.fp).size =
      size := by
    simp only [Frame.lay, Memory.size_put]
    exact h.memory
  exact ⟨h.growth, h.initial, h.capacity, rfl, hmemory, h.bound, hroom⟩

/-- A frame is laid down above what is on the stack. -/
theorem read?_lay_of_lt (h : Level g size k s) (hroom : k + 3 ≤ size)
    (argument returnAddress callerFp : Word) {j : Nat} (hj : j < k) :
    (Frame.lay s.memory (framePointer g size k) argument returnAddress callerFp).read?
      (cell g size j) = s.memory.read? (cell g size j) := by
  have harg := argumentCell_mem k g
  have hret := returnCell_mem k g
  have hne : ∀ i, k ≤ i → i < k + 3 → cell g size j ≠ cell g size i := fun i hi hlt =>
    cell_ne h.bound (by omega) (by omega) (by omega)
  refine Frame.read?_lay_of_ne _ _ _ (h.hasRoom hroom) (hne _ harg.1 harg.2) ?_ ?_
  · rw [framePointer_add_returnAddressOffset]
    exact hne _ hret.1 hret.2
  · rw [framePointer_add_savedFpOffset]
    exact hne _ (by omega) (by omega)

theorem enter_of_full (h : Level g size k s) (hfull : size < k + 3)
    (argument returnAddress : Word) :
    ∃ i, Frame.enter argument returnAddress s = .error (.outOfBounds .stack i) s := by
  have hlt : size < k + UInt64.toNat 3 := hfull
  obtain ⟨i, hi⟩ := h.reserve_of_full (by decide) hlt
  have hget : (get : Action Store Store) s = .ok s s := rfl
  exact ⟨i, (Action.bind_of_ok hget).trans (Action.bind_of_error hi)⟩

/-- The cells of the frame that the frame pointer names can be loaded. -/
theorem frameLoad (h : Level g size k s) {j : Nat} (hj : j + 3 ≤ k)
    (hfp : s.fp = framePointer g size j) {offset v : Word} (hlow : -2 ≤ offset.toInt)
    (hhigh : offset.toInt ≤ 0) (hv : s.memory.read? (framePointer g size j + offset) = some v) :
    Store.frameLoad offset s = .ok v s := by
  have hbound := h.bound
  have hfits := h.fits
  have hint : s.fp.toInt = position size (argumentCell j g) g := by
    have harg := argumentCell_mem j g
    rw [hfp, framePointer, toInt_cell hbound (by omega)]
  refine Store.frameLoad_eq_ok.mpr ⟨s.fp + offset, Word.addExact?_of_mem ?_ ?_, hfp ▸ hv, rfl⟩
  · rw [hint]
    cases g <;> simp only [position, argumentCell] <;> omega
  · rw [hint]
    cases g <;> simp only [position, argumentCell] <;> omega

/-- The stack pointer is just beyond a frame if nothing lies above it. -/
theorem sp_balanced (h : Level g size (k + 3) s) (hfp : s.fp = framePointer g size k) :
    s.sp = Frame.balancedSp s.growth s.fp := by
  have hgrowth : s.growth = g := h.growth
  rw [hgrowth, hfp, balancedSp_framePointer]
  exact h.sp

/-- Leaving a frame gives its cells back. -/
theorem exit_of_frame (h : Level g size (k + 3) s) (hfp : s.fp = framePointer g size k)
    {returnAddress callerFp : Word}
    (hret : s.memory.read? (cell g size (returnCell k g)) = some returnAddress)
    (hsaved : s.memory.read? (cell g size (k + 1)) = some callerFp) {record : CallRecord}
    (hphase : record.phase = .valueStaged) (hreg : Frame.valueRegister < s.registers.cells.size) :
    Frame.exit ⟨s, record⟩ = .ok returnAddress
      ⟨{ s with
          registers := ⟨s.registers.cells.setIfInBounds Frame.valueRegister record.value⟩
          stack.sp := cell g size k
          fp := callerFp },
        { record with returnAddress := returnAddress, phase := .dispatched }⟩ := by
  have hfits := h.fits
  rw [← framePointer_add_returnAddressOffset] at hret
  rw [← framePointer_add_savedFpOffset] at hsaved
  have hdepth : 1 ≤ s.stack.depth := by
    rw [h.depth]
    omega
  -- The second release starts from the stack pointer that the first one leaves.
  have hdepth' : 2 ≤ ({ s.stack with sp := s.stack.lowered 1 } : Stack).depth := by
    rw [h.depth_lowered (by omega)]
    omega
  have hgrowth : s.growth = g := h.growth
  refine Frame.exit_eq_ok.mpr ⟨callerFp, hphase, h.sp_balanced hfp,
    h.frameLoad (Nat.le_refl _) hfp (by decide) (by decide) hret,
    h.frameLoad (Nat.le_refl _) hfp (by decide) (by decide) hsaved, hreg, hdepth, hdepth', ?_⟩
  rw [Frame.vacated, hgrowth, hfp, callerSp_framePointer]

end Store.Level

/-- The stack pointer of a store that was just built stands where the stack starts. -/
theorem Store.level_ofConfig {c : Config} {s : Store} (h : Store.ofConfig c = .ok s) :
    Level c.growth c.memory 0 s := by
  obtain ⟨-, hbound, rfl⟩ := ofConfig_eq_ok.mp h
  exact ⟨rfl, start_ofNat hbound, signedSize_ofNat hbound, start_ofNat hbound,
    Memory.size_ofSize _, hbound, Nat.zero_le _⟩

end WordMachine
