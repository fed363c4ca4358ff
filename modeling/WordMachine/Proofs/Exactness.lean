/-
Arithmetic that does not overflow.

Addresses of the stack and of frames are computed with words, whose sums and differences wrap
around.  Here the same computations are written with sums, differences and numbers that must be in
the range of words, and that end in a fault where they are not.  Wherever a session gets to, this
makes no difference: every word that is computed is the number that it stands for.

* `Stack.reserveExact`, `Stack.releaseExact`, `Frame.enterExact` and `Frame.exitExact` are the
  operations that end in a given fault at an overflow;
* `Store.Exact` says that the operations that start from the stack pointer do as well without, and
  `Store.Level.exact` that this is so while the stack pointer is in its range;
* leaving a frame starts from the frame pointer, which may be any word.  `Moment.seated_of_reaches`:
  the frame pointer names a cell in which an argument can be when a frame is about to be left, since
  that cell was written or read just before;
* `arithmetic_stays_exact` puts these together for all histories.
-/
import WordMachine.Proofs.Bounds

namespace WordMachine

open WordMachine.Action (Leads Through Keeps leads_pure leads_get)

/-! ### Operations that end at an overflow -/

/-- The difference of two words, if it is in the range of words. -/
def Word.subExact? (a b : Word) : Option Word := ofInt? (a.toInt - b.toInt)

/-- The result of a computation, or a fault if it has none. -/
def Action.demand {σ α : Type} (f : Fault) : Option α → Action σ α
  | some a => return a
  | none => fail f

@[simp]
theorem Action.demand_some {σ α : Type} (f : Fault) (a : α) :
    (demand f (some a) : Action σ α) = pure a := rfl

open WordMachine.Action (demand demand_some)

namespace Stack

/-- As `Stack.start`. -/
def startExact? : Growth → UInt64 → Option Word
  | .upward, _ => some 0
  | .downward, capacity => do
    let cells ← Word.ofInt? capacity.toNat
    Word.subExact? cells 1

/-- As `Stack.depth`. -/
def depthExact? (s : Stack) : Option Nat :=
  (Word.subExact? s.sp s.initial).map fun w => w.toInt.natAbs

/-- As `Stack.lowered`. -/
def loweredExact? (s : Stack) (n : Word) : Option Word :=
  match s.growth with
  | .upward => Word.subExact? s.sp n
  | .downward => Word.addExact? s.sp n

/-- As `Stack.reserve`. -/
def reserveExact (overflow : Fault) (count : UInt64) : Action Stack Word := do
  let s ← get
  let n := signedSize count
  if s.Fits n then
    let sp ← demand overflow (Word.ofInt? (s.beyond n))
    set { s with sp }
    demand overflow (Word.ofInt? (s.lowest n))
  else Action.fail (.outOfBounds .stack (Int64.ofInt (s.farthest n)))

/-- As `Stack.release`. -/
def releaseExact (overflow : Fault) (count : UInt64) : Action Stack Word := do
  let s ← get
  let depth ← demand overflow s.depthExact?
  if depth < count.toNat then Action.fail (.outOfBounds .stack (Int64.ofInt s.underground))
  else
    let n ← demand overflow (Word.ofInt? count.toNat)
    let sp ← demand overflow (s.loweredExact? n)
    set { s with sp }
    return sp

end Stack

/-- As `Store.release`. -/
def Store.releaseExact (overflow : Fault) (count : UInt64) : Action Store Unit := do
  let _ ← onStack (Stack.releaseExact overflow count)

namespace Frame

open Activation (onStore onRecord)

/-- As `Frame.balancedSp`. -/
def balancedSpExact? (growth : Growth) (fp : Word) : Option Word := do
  let base ← Word.addExact? fp returnAddressOffset
  match growth with
  | .upward => Word.addExact? base 3
  | .downward => Word.subExact? base 1

/-- As `Frame.enter`. -/
def enterExact (overflow : Fault) (argument returnAddress : Word) : Action Store CallRecord := do
  let callerFp := (← get).fp
  let lowest ← Store.onStack (Stack.reserveExact overflow 3)
  let fp ← demand overflow (Word.addExact? lowest 2)
  let argumentAddress ← demand overflow (Word.addExact? fp argumentOffset)
  Store.store argumentAddress argument
  let record ← (CallRecord.fresh argument returnAddress).advanced .argumentPushed
  let returnCell ← demand overflow (Word.addExact? fp returnAddressOffset)
  Store.store returnCell returnAddress
  let record ← record.advanced .returnAddressPushed
  let savedFpCell ← demand overflow (Word.addExact? fp savedFpOffset)
  Store.store savedFpCell callerFp
  let record ← record.advanced .savedFramePushed
  Store.setFp fp
  record.advanced .inBody

/-- As `Frame.ready`. -/
def readyExact (overflow : Fault) : Action Activation Unit := do
  let a ← get
  if a.record.phase ≠ .valueStaged then
    Action.fail (.phaseOrder a.record.phase .frameRestored)
  else
    let sp ← demand overflow (balancedSpExact? a.store.growth a.store.fp)
    if a.store.sp ≠ sp then Action.fail (.unbalancedFrame a.store.fp a.store.sp)
    else return ()

/-- As `Frame.exit`. -/
def exitExact (overflow : Fault) : Action Activation Word := do
  readyExact overflow
  let returnAddress ← onStore (Store.frameLoad returnAddressOffset)
  let callerFp ← onStore (Store.frameLoad savedFpOffset)
  onStore (Store.setRegister valueRegister (← get).record.value)
  onRecord (CallRecord.advance .frameRestored)
  onStore (Store.setFp callerFp)
  onStore (Store.releaseExact overflow 1)
  onStore (Store.releaseExact overflow 2)
  onRecord (CallRecord.advance .stackUnwound)
  onRecord (modify fun r => { r with returnAddress })
  onRecord (CallRecord.advance .dispatched)
  return returnAddress

end Frame

/-! ### Words -/

namespace Word

variable {a b : Word} {n : Int}

theorem ofInt?_of_mem (h : -2147483648 ≤ n) (h' : n ≤ 2147483647) :
    ofInt? n = some (Int32.ofInt n) := by
  have hmin : Int32.minValue.toInt = -2147483648 := rfl
  have hmax : Int32.maxValue.toInt = 2147483647 := rfl
  rw [ofInt?, hmin, hmax, if_pos ⟨h, h'⟩]

theorem subExact?_of_mem (h : -2147483648 ≤ a.toInt - b.toInt)
    (h' : a.toInt - b.toInt ≤ 2147483647) : subExact? a b = some (a - b) := by
  rw [subExact?, ofInt?_of_mem h h', Int32.ofInt_sub, Int32.ofInt_toInt, Int32.ofInt_toInt]

theorem toInt_add_of_mem (h : -2147483648 ≤ a.toInt + b.toInt)
    (h' : a.toInt + b.toInt ≤ 2147483647) : (a + b).toInt = a.toInt + b.toInt :=
  toInt_of_ofInt? (addExact?_of_mem h h')

end Word

/-! ### The stack pointer in its range -/

/-- In a store it makes no difference to the operations that start from the stack pointer whether
they end at an overflow. -/
structure Store.Exact (s : Store) : Prop where
  depth : s.stack.depthExact? = some s.depth
  reserve : ∀ overflow (count : UInt64), count.toNat < 4611686018427387904 →
    Store.onStack (Stack.reserveExact overflow count) s = Store.reserve count s
  release : ∀ overflow count,
    Store.onStack (Stack.releaseExact overflow count) s = Store.onStack (Stack.release count) s
  enter : ∀ overflow argument returnAddress,
    Frame.enterExact overflow argument returnAddress s = Frame.enter argument returnAddress s

theorem Stack.startExact?_ofNat (g : Growth) {n : Nat} (hn : n ≤ 2147483647) :
    startExact? g (UInt64.ofNat n) = some (start g (UInt64.ofNat n)) := by
  have hnat : (UInt64.ofNat n).toNat = n :=
    UInt64.toNat_ofNat_of_lt' (Nat.lt_of_le_of_lt hn (by decide))
  cases g with
  | upward => rfl
  | downward =>
    have hcells : Word.ofInt? (UInt64.ofNat n).toNat = some (UInt64.ofNat n).toUInt32.toInt32 := by
      rw [Word.ofInt?_of_mem (by omega) (by omega), toInt32_eq_ofInt (by omega)]
    have hint : (UInt64.ofNat n).toUInt32.toInt32.toInt = n := by
      rw [Word.toInt_of_ofInt? hcells, hnat]
    have hone : Int32.toInt 1 = 1 := rfl
    rw [startExact?, hcells]
    exact Word.subExact?_of_mem (by omega) (by omega)

namespace Store.Level

variable {g : Growth} {size k : Nat} {s : Store}

theorem inBounds (h : Level g size k s) : s.InBounds := by
  have hgrowth : s.growth = g := h.growth
  have hsp : s.sp.toInt = position size k g := h.toInt_sp
  have hfits := h.fits
  rw [InBounds, hgrowth, hsp, h.memory]
  cases g <;> simp only [position, lowestSp] <;> omega

theorem depthExact? (h : Level g size k s) : s.stack.depthExact? = some s.stack.depth := by
  have hinitial : s.stack.initial.toInt = position size 0 g := by
    rw [h.initial, toInt_cell h.bound (Nat.zero_le _)]
  have hsp := h.toInt_sp
  have hbound := h.bound
  have hfits := h.fits
  rw [Stack.depthExact?, Word.subExact?_of_mem]
  · rfl
  · cases g <;> simp only [position] at hsp hinitial <;> omega
  · cases g <;> simp only [position] at hsp hinitial <;> omega

theorem reserveExact (h : Level g size k s) (overflow : Fault) {count : UInt64}
    (hcount : count.toNat < 9223372036854775808) :
    Store.onStack (Stack.reserveExact overflow count) s = Store.reserve count s := by
  have hsp := h.toInt_sp
  have hbound := h.bound
  have hk := h.fits
  have hget : (get : Action Stack Stack) s.stack = .ok s.stack s.stack := rfl
  suffices hstack : Stack.reserveExact overflow count s.stack = Stack.reserve count s.stack by
    rw [Store.onStack_apply, hstack]
    rfl
  rw [Stack.reserveExact, Action.bind_of_ok hget, Stack.reserve, signedSize_of_lt hcount]
  by_cases hfits : s.stack.Fits count.toNat
  · have hroom : k + count.toNat ≤ size := by
      by_cases hpos : 0 < count.toNat
      · exact (h.fits_iff hpos).mp hfits
      · omega
    have hbeyond : Word.ofInt? (s.stack.beyond count.toNat) =
        some (Int32.ofInt (s.stack.beyond count.toNat)) := by
      apply Word.ofInt?_of_mem <;> rw [Stack.beyond, h.growth, hsp] <;>
        cases g <;> simp only [position] <;> omega
    have hlowest : Word.ofInt? (s.stack.lowest count.toNat) =
        some (Int32.ofInt (s.stack.lowest count.toNat)) := by
      apply Word.ofInt?_of_mem <;> rw [Stack.lowest, h.growth, hsp] <;>
        cases g <;> simp only [position] <;> omega
    rw [if_pos hfits, if_pos hfits, hbeyond, hlowest]
    rfl
  · rw [if_neg hfits, if_neg hfits]
    rfl

theorem onStack_releaseExact (h : Level g size k s) (overflow : Fault) (count : UInt64) :
    Store.onStack (Stack.releaseExact overflow count) s =
      Store.onStack (Stack.release count) s := by
  have hsp := h.toInt_sp
  have hbound := h.bound
  have hk := h.fits
  have hget : (get : Action Stack Stack) s.stack = .ok s.stack s.stack := rfl
  suffices hstack : Stack.releaseExact overflow count s.stack = Stack.release count s.stack by
    rw [Store.onStack_apply, Store.onStack_apply, hstack]
  rw [Stack.releaseExact, Action.bind_of_ok hget, h.depthExact?, demand_some, pure_bind,
    Stack.release]
  by_cases hdepth : s.stack.depth < count.toNat
  · rw [if_pos hdepth, if_pos hdepth]
    rfl
  · rw [h.depth] at hdepth
    have hcount : Word.ofInt? count.toNat = some count.toUInt32.toInt32 := by
      rw [Word.ofInt?_of_mem (by omega) (by omega), toInt32_eq_ofInt (by omega)]
    have hint : count.toUInt32.toInt32.toInt = count.toNat := Word.toInt_of_ofInt? hcount
    have hlowered : s.stack.loweredExact? count.toUInt32.toInt32 =
        some (s.stack.lowered count.toUInt32.toInt32) := by
      rw [Stack.loweredExact?, Stack.lowered, h.growth]
      cases g with
      | upward =>
        simp only [position] at hsp
        exact Word.subExact?_of_mem (by omega) (by omega)
      | downward =>
        simp only [position] at hsp
        exact Word.addExact?_of_mem (by omega) (by omega)
    rw [if_neg (by rwa [h.depth]), if_neg (by rwa [h.depth]), hcount, demand_some, pure_bind,
      hlowered, demand_some, pure_bind]
    rfl

theorem enterExact (h : Level g size k s) (overflow : Fault) (argument returnAddress : Word) :
    Frame.enterExact overflow argument returnAddress s = Frame.enter argument returnAddress s := by
  have hbound := h.bound
  have hget : (get : Action Store Store) s = .ok s s := rfl
  rw [Frame.enterExact, Frame.enter, Action.bind_of_ok hget, Action.bind_of_ok hget]
  have hreserve : Store.onStack (Stack.reserveExact overflow 3) s = Store.reserve 3 s :=
    h.reserveExact overflow (by decide)
  cases hs : Store.reserve 3 s with
  | error f t => rw [Action.bind_of_error (hreserve.trans hs), Action.bind_of_error hs]
  | ok lowest t =>
    obtain ⟨hfits, hlowest, -⟩ := Store.reserve_eq_ok.mp hs
    obtain ⟨⟨hlow, hlow'⟩, -, hhigh⟩ := hfits (by decide)
    have hhighest : s.stack.highest (signedSize 3) = s.stack.lowest (signedSize 3) + 2 := by
      have hthree : signedSize 3 = 3 := rfl
      rw [Stack.highest, Stack.lowest, hthree]
      cases s.stack.growth <;> simp only <;> omega
    rw [h.capacity] at hlow' hhigh
    have hint : lowest.toInt = s.stack.lowest (signedSize 3) := by
      rw [hlowest, Int32.toInt_ofInt_of_le (by omega) (by omega)]
    have htwo : Int32.toInt 2 = 2 := rfl
    have hfp : (lowest + 2).toInt = lowest.toInt + 2 := by
      rw [Word.toInt_add_of_mem (by omega) (by omega), htwo]
    have hcell : ∀ offset : Word, -2 ≤ offset.toInt → offset.toInt ≤ 0 →
        Word.addExact? (lowest + 2) offset = some (lowest + 2 + offset) := by
      intro offset hoffset hoffset'
      exact Word.addExact?_of_mem (by omega) (by omega)
    rw [Action.bind_of_ok (hreserve.trans hs), Action.bind_of_ok hs]
    simp only [Word.addExact?_of_mem (a := lowest) (b := 2) (by omega) (by omega),
      hcell Frame.argumentOffset (by decide) (by decide),
      hcell Frame.returnAddressOffset (by decide) (by decide),
      hcell Frame.savedFpOffset (by decide) (by decide), demand_some, pure_bind]

theorem releaseExact (h : Level g size k s) (overflow : Fault) (count : UInt64) :
    Store.releaseExact overflow count s = Store.release count s := by
  rw [Store.releaseExact, Store.release]
  cases hs : Store.onStack (Stack.release count) s with
  | ok sp t =>
    rw [Action.bind_of_ok ((h.onStack_releaseExact overflow count).trans hs), Action.bind_of_ok hs]
  | error f t =>
    rw [Action.bind_of_error ((h.onStack_releaseExact overflow count).trans hs),
      Action.bind_of_error hs]

theorem exact (h : Level g size k s) : s.Exact where
  depth := h.depthExact?
  reserve overflow count hcount := h.reserveExact overflow (by omega)
  release := h.onStack_releaseExact
  enter := h.enterExact

end Store.Level

/-! ### Leaving frames -/

namespace Action

variable {σ α β : Type} {P : σ → Prop}

/-- Two actions do the same in every state that has a property, and leave a state that has it. -/
def AgreeOn (P : σ → Prop) (x y : Action σ α) : Prop :=
  ∀ s, P s → x s = y s ∧ P (Outcome.state (y s))

theorem agreeOn_self {x : Action σ α} (h : Leads (fun s t => P s → P t) x) : AgreeOn P x x :=
  fun s hs => ⟨rfl, h s hs⟩

theorem AgreeOn.eq {x y : Action σ α} (h : AgreeOn P x y) {s : σ} (hs : P s) : x s = y s :=
  (h s hs).1

theorem AgreeOn.bind {x y : Action σ α} {f g : α → Action σ β} (hx : AgreeOn P x y)
    (hf : ∀ a, AgreeOn P (f a) (g a)) : AgreeOn P (x >>= f) (y >>= g) := by
  intro s hs
  obtain ⟨heq, hstate⟩ := hx s hs
  cases hy : y s with
  | ok a t =>
    rw [bind_of_ok (heq.trans hy), bind_of_ok hy]
    rw [hy] at hstate
    exact hf a t hstate
  | error e t =>
    rw [bind_of_error (heq.trans hy), bind_of_error hy]
    rw [hy] at hstate
    exact ⟨rfl, hstate⟩

end Action

open WordMachine.Action (AgreeOn agreeOn_self)

/-- The frame pointer names a cell in which the argument of a frame can be, and there is a cell for
the return address below it. -/
def Store.Seated (s : Store) : Prop :=
  s.memory.Inside s.fp.toInt ∧ s.memory.Inside (s.fp.toInt - 2)

namespace Frame

open Activation (onStore onRecord)

variable {g : Growth} {size : Nat} {s : Store}

theorem balancedSpExact?_of_seated (hs : s.Seated) (hbound : s.memory.size ≤ 2147483647)
    (g : Growth) : balancedSpExact? g s.fp = some (balancedSp g s.fp) := by
  obtain ⟨⟨-, hhigh⟩, hlow, -⟩ := hs
  have htwo : returnAddressOffset.toInt = -2 := rfl
  have hbase : (s.fp + returnAddressOffset).toInt = s.fp.toInt - 2 := by
    rw [Word.toInt_add_of_mem (by omega) (by omega), htwo]
    rfl
  rw [balancedSpExact?, Word.addExact?_of_mem (by omega) (by omega), Option.bind_eq_bind,
    Option.bind_some]
  cases g with
  | upward =>
    have hthree : Int32.toInt 3 = 3 := rfl
    rw [balancedSp, Word.addExact?_of_mem (by omega) (by omega)]
  | downward =>
    have hone : Int32.toInt 1 = 1 := rfl
    rw [balancedSp, Word.subExact?_of_mem (by omega) (by omega)]

theorem readyExact_of_seated (hs : s.Seated) (hbound : s.memory.size ≤ 2147483647)
    (overflow : Fault) (record : CallRecord) :
    readyExact overflow ⟨s, record⟩ = ready ⟨s, record⟩ := by
  have hget : (get : Action Activation Activation) ⟨s, record⟩ = .ok ⟨s, record⟩ ⟨s, record⟩ := rfl
  rw [readyExact, Action.bind_of_ok hget, ready]
  dsimp only
  rw [balancedSpExact?_of_seated hs hbound, demand_some, pure_bind]
  split
  · rfl
  · split <;> rfl

/-- After the check only the stack pointer is computed with. -/
theorem exitExact_of_seated {k : Nat} (h : s.Level g size k) (hs : s.Seated) (overflow : Fault)
    (record : CallRecord) : exitExact overflow ⟨s, record⟩ = exit ⟨s, record⟩ := by
  have hfollows : Store.Follows (Store.StaysLevel g size) _ := Store.follows_staysLevel
  let P : Activation → Prop := fun a => ∃ k, a.store.Level g size k
  have hstore : ∀ {β : Type} {x : Action Store β}, Leads (Store.StaysLevel g size) x →
      AgreeOn P (onStore x) (onStore x) := fun hx => agreeOn_self (hx.focus fun _ _ => rfl)
  have hrecord : ∀ {β : Type} (x : Action CallRecord β), AgreeOn P (onRecord x) (onRecord x) := by
    intro β x
    refine agreeOn_self fun a ha => ?_
    rw [Activation.onRecord_apply, Outcome.state_within]
    exact ha
  have hrelease : ∀ count,
      AgreeOn P (onStore (Store.releaseExact overflow count)) (onStore (Store.release count)) := by
    rintro count a ⟨k, hk⟩
    have hlevel :=
      (hfollows.release count).bind fun _ => leads_pure (R := Store.StaysLevel g size) ()
    refine ⟨?_, (hlevel.focus fun _ _ => rfl : Leads (Through Activation.store _) _) a ⟨k, hk⟩⟩
    rw [Activation.onStore_apply, Activation.onStore_apply, hk.releaseExact]
  rw [exitExact, exit]
  have hready := readyExact_of_seated hs (h.memory ▸ h.bound) overflow record
  cases hr : ready ⟨s, record⟩ with
  | error f a => rw [Action.bind_of_error (hready.trans hr), Action.bind_of_error hr]
  | ok u a =>
    obtain ⟨-, -, rfl⟩ := ready_eq_ok.mp hr
    rw [Action.bind_of_ok (hready.trans hr), Action.bind_of_ok hr]
    refine AgreeOn.eq (P := P) ?_ ⟨k, h⟩
    refine (hstore (hfollows.frameLoad _)).bind fun ra => ?_
    refine (hstore (hfollows.frameLoad _)).bind fun callerFp => ?_
    refine (agreeOn_self fun _ ha => ha).bind fun a => ?_
    refine (hstore (hfollows.setRegister _ _)).bind fun _ => ?_
    refine (hrecord _).bind fun _ => (hstore (hfollows.setFp _)).bind fun _ => ?_
    refine (hrelease 1).bind fun _ => (hrelease 2).bind fun _ => ?_
    refine (hrecord _).bind fun _ => (hrecord _).bind fun _ => ?_
    exact (hrecord _).bind fun _ => agreeOn_self fun _ ha => ha

end Frame

/-! ### The frame pointer when a frame is left -/

/-- Whether the frame that the machine is in is left next, or after the body of an intrinsic. -/
def Control.Departing : Control → Prop
  | serving _ _ _ => True
  | leaving _ _ => True
  | dispatch _ | inside _ _ | entering _ _ _ | landing _ | gone _ => False

namespace Store

variable {s t : Store}

theorem Seated.of_footing (h : s.Seated) (hfooting : t.footing = s.footing) : t.Seated := by
  have hfp : t.fp = s.fp := congrArg Prod.snd hfooting
  have hmemory : t.memory.size = s.memory.size := congrArg (fun v => v.1.memory) hfooting
  rw [Seated, Memory.Inside, Memory.Inside, hfp, hmemory]
  exact h

/-- The record of the running body can be read off a frame only if it has its cells. -/
theorem seated_of_active {record : CallRecord} (h : Frame.active s = .ok record t) : s.Seated := by
  obtain ⟨argument, u, harg, h⟩ := Action.bind_eq_ok.mp h
  obtain ⟨returnAddress, v, hret, -⟩ := Action.bind_eq_ok.mp h
  obtain ⟨a, ha, hread, rfl⟩ := frameLoad_eq_ok.mp harg
  obtain ⟨b, hb, hread', -⟩ := frameLoad_eq_ok.mp hret
  have hsum : a.toInt = s.fp.toInt + 0 := Word.toInt_of_ofInt? ha
  have hsum' : b.toInt = s.fp.toInt + -2 := Word.toInt_of_ofInt? hb
  have hinside := (Memory.read?_eq_some_iff.mp hread).1
  have hinside' := (Memory.read?_eq_some_iff.mp hread').1
  rw [hsum, Int.add_zero] at hinside
  rw [hsum'] at hinside'
  exact ⟨hinside, hinside'⟩

/-- A frame that was just entered has its cells. -/
theorem seated_of_enter {argument returnAddress : Word} {record : CallRecord}
    (h : Frame.enter argument returnAddress s = .ok record t) : t.Seated := by
  obtain ⟨-, ⟨harg, hret, -⟩, -, rfl⟩ := Frame.enter_eq_ok.mp h
  have htwo : Frame.returnAddressOffset.toInt = -2 := rfl
  obtain ⟨hlow, hhigh⟩ := harg
  have hsum : (Frame.entryFp s + Frame.returnAddressOffset).toInt =
      (Frame.entryFp s).toInt - 2 := by
    have hle := (Frame.entryFp s).toInt_le
    have hmax : Int32.maxValue.toInt = 2147483647 := rfl
    rw [Word.toInt_add_of_mem (by omega) (by omega), htwo]
    rfl
  have hlay : ∀ address, (Frame.lay s.memory (Frame.entryFp s) argument returnAddress s.fp).Inside
      address ↔ s.memory.Inside address := by
    intro address
    simp only [Frame.lay, Memory.inside_put]
  rw [hsum] at hret
  exact ⟨(hlay _).mpr ⟨hlow, hhigh⟩, (hlay _).mpr hret⟩

end Store

theorem Moment.seated_of_reaches {request : HostRequest} {m : Machine} {start a : Moment}
    (hstart : request.start? m = some start) (ha : Reaches start a) (hc : a.control.Departing) :
    a.machine.store.Seated := by
  revert hc
  refine ha.invariant (P := fun b => b.control.Departing → b.machine.store.Seated) ?_ ?_
  · rcases HostRequest.start?_eq_some.mp hstart with ⟨-, -, rfl⟩ | ⟨_, _, -, rfl⟩ <;>
      exact fun h => h.elim
  · rintro ⟨c, m, live⟩ ⟨c', m', live'⟩ - hb hmove hc
    cases hmove.move with
    | enterIntrinsic _ henter =>
      obtain ⟨s, hs, rfl⟩ := Machine.enterFrame_eq_ok.mp henter
      exact Store.seated_of_enter hs
    | serve hbody =>
      have hkeeps := (Machine.keeps_onWorld (Intrinsic.keeps_footing_body _)).of_ok hbody
      exact (hb trivial).of_footing (congrArg (fun v => v.2.2.2) hkeeps)
    | ret hrecord _ =>
      obtain ⟨s, hs, -⟩ := Machine.onStore_eq_ok.mp hrecord
      exact Store.seated_of_active hs
    | _ => exact hc.elim

/-- **All arithmetic on addresses is exact.**  Take any machine that is loaded, and any history of
runs, calls, resets and work on the store, whether these succeeded or failed, in which the host
reserves no counts from `2 ^ 62` on.  The place where the stack starts was computed without an
overflow.  Afterwards, and in every moment of whatever run or call comes next, the registers and
the memory are as many as the configuration says, the stack pointer is between the two ends of the
stack, and reserving, releasing and entering a frame do the same if they end at an overflow.  So
does leaving a frame, in every moment in which a frame is to be left, whatever the program has put
into the cells of its frames. -/
theorem arithmetic_stays_exact {config : Config} {program : Program} {console : Console}
    {loaded : Machine} (hload : Machine.load config program console = .ok loaded) {fuel : Nat}
    {requests : List HostRequest} {answers : List (Except Fault Answer)} {s : Session}
    (hserve : Session.serveAll fuel requests ⟨loaded, #[]⟩ = some (answers, s))
    (hrequests : ∀ count, .direct (.store (.reserve count)) ∈ requests →
      count.toNat < 4611686018427387904) :
    Stack.startExact? config.growth (UInt64.ofNat config.memory) = some loaded.store.stack.initial ∧
    (∀ m, s.Visits m → m.store.registers.size = config.registers ∧
      m.store.memory.size = config.memory ∧ m.store.growth = config.growth ∧ m.store.InBounds ∧
      m.store.Exact) ∧
    ∀ (request : HostRequest) start a, request.start? s.machine = some start →
      Moment.Reaches start a →
      ∀ record completion, a.control = .leaving record completion →
        ∀ overflow staged, Frame.exitExact overflow ⟨a.machine.store, staged⟩ =
          Frame.exit ⟨a.machine.store, staged⟩ := by
  have hlevel := fun m hm => Session.exists_level_of_serveAll (m := m) hload hserve hrequests hm
  refine ⟨?_, fun m hm => ?_, fun request start a hstart ha record completion hc overflow r => ?_⟩
  · obtain ⟨built, store, hbuilt, hseed, rfl⟩ := Machine.load_iff.mp hload
    have hshape := (Store.keeps_seed program.data).of_ok hseed
    have hinitial : store.stack.initial = built.stack.initial := congrArg Shape.initial hshape
    obtain ⟨-, hbound, rfl⟩ := Store.ofConfig_eq_ok.mp hbuilt
    rw [hinitial, Stack.startExact?_ofNat config.growth hbound]
    rfl
  · obtain ⟨k, h⟩ := hlevel m hm
    obtain ⟨built, hbuilt, hshape⟩ :=
      Session.Arises.shape_of_visits ⟨_, _, _, _, hload, hserve⟩ hm
    have hregisters : m.store.registers.size = built.registers.size :=
      congrArg Shape.registers hshape
    obtain ⟨-, -, rfl⟩ := Store.ofConfig_eq_ok.mp hbuilt
    exact ⟨hregisters.trans (Registers.size_ofSize _), h.memory, h.growth, h.inBounds, h.exact⟩
  · obtain ⟨k, h⟩ := hlevel a.machine (.during hstart ha)
    have hseated : a.machine.store.Seated :=
      Moment.seated_of_reaches hstart ha (by rw [hc]; trivial)
    exact Frame.exitExact_of_seated h hseated overflow r

/-- A routine that overwrites the frame pointer that it should restore with the largest word. -/
def fpOverwriter : Program :=
  ⟨⟨0⟩, #[⟨[.constant ⟨1⟩ 2147483647, .storeFrame (-1) ⟨1⟩], .ret none⟩], []⟩

/-- A reservation that is refused, a frame pointer that is the least word, and a call. -/
def extremeFpRequests : List HostRequest :=
  [.direct (.store (.reserve 4611686018427387903)), .direct (.store (.setFp (-2147483648))),
    .call (.routine ⟨0⟩) 5]

theorem extreme_frame_pointers_stay_exact :
    ∃ loaded answers s a,
      Machine.load { registers := 2, memory := 8 } fpOverwriter {} = .ok loaded ∧
      Session.serveAll 2 extremeFpRequests ⟨loaded, #[]⟩ = some (answers, s) ∧
      s.machine.store.fp = 2147483647 ∧ s.machine.store.Exact ∧
      Moment.Reaches (.ofCall (.routine ⟨0⟩) 6 s.machine) a ∧
      a.machine.store.memory.cells = #[-1, 2147483647, 6, 0, 0, 0, 0, 0] ∧
      ∀ overflow staged, Frame.exitExact overflow ⟨a.machine.store, staged⟩ =
        Frame.exit ⟨a.machine.store, staged⟩ := by
  have hserved : ((Machine.load { registers := 2, memory := 8 } fpOverwriter {}).toOption.bind
      fun m => (Session.serveAll 2 extremeFpRequests ⟨m, #[]⟩).map fun r =>
        let a := (Moment.ofCall (.routine ⟨0⟩) 6 r.2.machine).after 5
        (r.2.machine.store.fp, a.control, a.machine.store.memory.cells)) =
      some (2147483647, .leaving { argument := 6, returnAddress := -1 } .unit,
        #[-1, 2147483647, 6, 0, 0, 0, 0, 0]) := by decide +kernel
  obtain ⟨m, hm, hserved⟩ := Option.bind_eq_some_iff.mp hserved
  obtain ⟨⟨answers, s⟩, hserve, hend⟩ := Option.map_eq_some_iff.mp hserved
  simp only [Prod.mk.injEq] at hend
  obtain ⟨hfp, hcontrol, hcells⟩ := hend
  have hload := Machine.load_of_toOption hm
  have hrequests : ∀ count : UInt64, .direct (.store (.reserve count)) ∈ extremeFpRequests →
      count.toNat < 4611686018427387904 := by
    intro count hmem
    simp [extremeFpRequests] at hmem
    subst hmem
    decide
  have hreach := Moment.reaches_after (.ofCall (.routine ⟨0⟩) 6 s.machine) 5
  obtain ⟨-, hvisits, hexit⟩ := arithmetic_stays_exact hload hserve hrequests
  obtain ⟨-, -, -, -, hexact⟩ := hvisits _ .between
  exact ⟨m, answers, s, _, hload, hserve, hfp, hexact, hreach, hcells,
    hexit (.call (.routine ⟨0⟩) 6) _ _ rfl hreach _ _ hcontrol⟩

end WordMachine
