/-
What a call of an intrinsic changes.

The host calls an intrinsic on a machine in any state.  If the call comes back, all that has changed
is what the intrinsic is for: the cells of its frame, the cells that a string was read into, the
scratch cell, register zero, what was printed and what was read.

* `Intrinsic.Serves` are the ways in which the body of an intrinsic can succeed, and
  `Intrinsic.serves_of_body` says that there are no others;
* `Intrinsic.bufferCells` are the cells that a body would read a string into, `Stack.frameCells`
  those that its frame takes;
* `Machine.invoke_intrinsic_eq_ok`: a call that succeeds is an entry, a body and an exit, and
  `Machine.call_eq_ok`: what the host is given at the end;
* `intrinsic_calls_leave_the_rest_alone` puts these together.  Where the buffer does not overlap the
  frame, the exit finds what the entry has put there, and control comes back to the host at once.
-/
import WordMachine.Proofs.Service

namespace WordMachine

namespace Intrinsic

/-- Whether an intrinsic reads a token. -/
def isRead : Intrinsic → Bool
  | printInteger | printBoolean | printString | printFloat => false
  | readInteger | readFloat | readString | readBoolean => true

/-- The cells that a body would write: those of the next token and of the zero after it, from the
argument on. -/
def bufferCells (argument : Word) (source : Source) : Intrinsic → List Word
  | readString =>
    match source.nextToken with
    | .ok (some token) _ =>
      if token.contains 0 then []
      else (List.range (token.length + 1)).map fun k : Nat => Int32.ofInt (argument.toInt + k)
    | .ok none _ => []
    | .error _ _ => []
  | printInteger | printBoolean | printString | printFloat => []
  | readInteger | readFloat | readBoolean => []

/-- The ways in which the body of an intrinsic succeeds. -/
inductive Serves (argument : Word) (w : World) : Intrinsic → Completion → World → Prop
  | print {i : Intrinsic} {bytes : Bytes} (hi : i.isRead = false) (hfloat : i ≠ .printFloat) :
      Serves argument w i .unit
        { w with console.sink.written := w.console.sink.written ++ bytes }
  | printFloat {x : Single} {bytes : Bytes} :
      Serves argument w .printFloat .unit
        { w with
          store.scratch := x
          console.sink.written := w.console.sink.written ++ bytes }
  | fail {i : Intrinsic} {e : InputFailure} {source : Source} (hi : i.isRead = true) :
      Serves argument w i (.failed e.status)
        { w with console.source := source, journal := w.journal.push (.readFailed i e) }
  | readWord {i : Intrinsic} {v : Word} {source : Source}
      (hi : i = .readInteger ∨ i = .readBoolean) :
      Serves argument w i (.ofValue v) { w with console.source := source }
  | readFloat {x : Single} {source : Source} :
      Serves argument w .readFloat (.ofValue x.toWord)
        { w with store.scratch := x, console.source := source }
  | readString {token : Bytes} {source : Source}
      (hnext : w.console.source.nextToken = .ok (some token) source)
      (hzero : token.contains 0 = false) (hfirst : w.store.memory.Inside argument.toInt)
      (hlast : w.store.memory.Inside (argument.toInt + token.length)) :
      Serves argument w .readString (.ofValue (Int32.ofNat (token.length + 1)))
        { w with
          store.memory := w.store.memory.putString argument.toInt.toNat token
          console.source := source }

section

variable {i : Intrinsic} {argument : Word} {c : Completion} {w w' : World}

theorem print_eq_ok {bytes : Bytes} (h : print bytes w = .ok c w') :
    c = .unit ∧ w' = { w with console.sink.written := w.console.sink.written ++ bytes } := by
  obtain ⟨_, w₁, hwrite, h⟩ := Action.bind_eq_ok.mp h
  obtain ⟨rfl, rfl⟩ := Action.pure_eq_ok.mp h
  obtain ⟨k, hk, rfl⟩ := Outcome.within_eq_ok.mp hwrite
  obtain ⟨s, hs, rfl⟩ := Outcome.within_eq_ok.mp hk
  rw [Sink.write] at hs
  split at hs
  · cases hs
    exact ⟨rfl, rfl⟩
  · cases hs

theorem complete_eq_ok {result : Except InputFailure Word} (h : complete i result w = .ok c w') :
    (∃ v, result = .ok v ∧ c = .ofValue v ∧ w' = w) ∨
      ∃ e, result = .error e ∧ c = .failed e.status ∧
        w' = { w with journal := w.journal.push (.readFailed i e) } := by
  cases result with
  | ok v =>
    cases h
    exact .inl ⟨v, rfl, rfl, rfl⟩
  | error e =>
    cases h
    exact .inr ⟨e, rfl, rfl, rfl⟩

theorem readToken_eq_ok {result : Except InputFailure Bytes} (h : readToken w = .ok result w') :
    ∃ token source, w.console.source.nextToken = .ok token source ∧
      result = token.elim (.error .endOfInput) .ok ∧ w' = { w with console.source := source } := by
  obtain ⟨_, _, hflush, h⟩ := Action.bind_eq_ok.mp h
  obtain ⟨_, hconsole, rfl⟩ := Outcome.within_eq_ok.mp hflush
  obtain ⟨sink, hsink, rfl⟩ := Outcome.within_eq_ok.mp hconsole
  obtain rfl : sink = w.console.sink := by
    rw [Sink.flush] at hsink
    split at hsink <;> cases hsink
    rfl
  obtain ⟨token, _, hnext, h⟩ := Action.bind_eq_ok.mp h
  obtain ⟨_, hconsole, rfl⟩ := Outcome.within_eq_ok.mp hnext
  obtain ⟨source, hsource, rfl⟩ := Outcome.within_eq_ok.mp hconsole
  refine ⟨token, source, hsource, ?_⟩
  cases token <;> cases h <;> exact ⟨rfl, rfl⟩

/-- A read that succeeds has found no token, or one that it has then refused or accepted. -/
theorem read_eq_ok {accept : Bytes → Action World (Except InputFailure Word)}
    (h : read i accept w = .ok c w') :
    (∃ source, c = .failed InputFailure.endOfInput.status ∧
      w' = { w with
        console.source := source
        journal := w.journal.push (.readFailed i .endOfInput) }) ∨
    ∃ token source, w.console.source.nextToken = .ok (some token) source ∧
      (accept token >>= complete i) { w with console.source := source } = .ok c w' := by
  obtain ⟨result, _, htoken, h⟩ := Action.bind_eq_ok.mp h
  obtain ⟨token, source, hnext, rfl, rfl⟩ := readToken_eq_ok htoken
  cases token with
  | none =>
    cases h
    exact .inl ⟨source, rfl, rfl⟩
  | some token => exact .inr ⟨token, source, hnext, h⟩

/-- A read that makes a word of its token. -/
theorem serves_of_readWord (hi : i = .readInteger ∨ i = .readBoolean)
    {parse : Bytes → Except InputFailure Word}
    (h : read i (fun token => return parse token) w = .ok c w') : Serves argument w i c w' := by
  have hread : i.isRead = true := by rcases hi with rfl | rfl <;> rfl
  rcases read_eq_ok h with ⟨source, rfl, rfl⟩ | ⟨token, source, -, h⟩
  · exact .fail hread
  · rcases complete_eq_ok h with ⟨v, -, rfl, rfl⟩ | ⟨e, -, rfl, rfl⟩
    · exact .readWord hi
    · exact .fail hread

theorem serves_of_readFloat (h : read .readFloat acceptFloat w = .ok c w') :
    Serves argument w .readFloat c w' := by
  rcases read_eq_ok h with ⟨source, rfl, rfl⟩ | ⟨token, source, -, h⟩
  · exact .fail rfl
  · obtain ⟨result, w₁, haccept, h⟩ := Action.bind_eq_ok.mp h
    rw [acceptFloat] at haccept
    cases hparse : Input.float token with
    | ok x =>
      rw [hparse] at haccept
      cases haccept
      cases h
      exact .readFloat
    | error e =>
      rw [hparse] at haccept
      cases haccept
      cases h
      exact .fail rfl

theorem serves_of_readString (h : read .readString (acceptString argument) w = .ok c w') :
    Serves argument w .readString c w' := by
  rcases read_eq_ok h with ⟨source, rfl, rfl⟩ | ⟨token, source, hnext, h⟩
  · exact .fail rfl
  · obtain ⟨result, w₁, haccept, h⟩ := Action.bind_eq_ok.mp h
    rw [acceptString, Input.string] at haccept
    cases hzero : token.contains 0 with
    | true =>
      rw [hzero] at haccept
      cases haccept
      cases h
      exact .fail rfl
    | false =>
      rw [hzero] at haccept
      obtain ⟨cells, w₂, hwrite, haccept⟩ := Action.bind_eq_ok.mp haccept
      obtain ⟨s, hs, rfl⟩ := Outcome.within_eq_ok.mp hwrite
      obtain ⟨m, hm, rfl⟩ := Outcome.within_eq_ok.mp hs
      -- Both ends of the buffer are cells of memory, or nothing would have been written.
      rw [Memory.writeString] at hm
      split at hm
      · cases hm
      · split at hm
        · cases hm
        · next hfirst hlast =>
          cases hm
          cases haccept
          cases h
          exact .readString hnext hzero (Decidable.not_not.mp hfirst) (Decidable.not_not.mp hlast)

/-- **A body that succeeds does so in one of these ways.** -/
theorem serves_of_body (hargument : Store.frameLoad Frame.argumentOffset w.store =
    .ok argument w.store) (h : i.body w = .ok c w') : Serves argument w i c w' := by
  obtain ⟨argument', w₁, hload, h⟩ := Action.bind_eq_ok.mp h
  cases (onStore_argument hargument).symm.trans hload
  cases i with
  | printInteger =>
    obtain ⟨rfl, rfl⟩ := print_eq_ok h
    exact .print rfl (by decide)
  | printBoolean =>
    obtain ⟨rfl, rfl⟩ := print_eq_ok h
    exact .print rfl (by decide)
  | printString =>
    obtain ⟨bytes, w₂, hread, h⟩ := Action.bind_eq_ok.mp h
    obtain ⟨s, hs, rfl⟩ := Outcome.within_eq_ok.mp hread
    obtain ⟨m, hm, rfl⟩ := Outcome.within_eq_ok.mp hs
    obtain rfl : m = w.store.memory := by
      rw [Memory.readString] at hm
      split at hm
      · split at hm <;> cases hm
        rfl
      · cases hm
    obtain ⟨rfl, rfl⟩ := print_eq_ok h
    exact .print rfl (by decide)
  | printFloat =>
    obtain ⟨_, w₂, hstage, h⟩ := Action.bind_eq_ok.mp h
    cases hstage
    obtain ⟨rfl, rfl⟩ := print_eq_ok h
    exact .printFloat
  | readInteger => exact serves_of_readWord (.inl rfl) h
  | readBoolean => exact serves_of_readWord (.inr rfl) h
  | readFloat => exact serves_of_readFloat h
  | readString => exact serves_of_readString h

/-! ### What bodies change -/

/-- The value of a string that was read is the number of cells that it takes. -/
theorem toInt_value_of_inside {token : Bytes} {m : Memory} (hsize : m.size ≤ Config.maxCapacity)
    (hfirst : m.Inside argument.toInt) (hlast : m.Inside (argument.toInt + token.length)) :
    (Completion.ofValue (Int32.ofNat (token.length + 1))).value.toInt = token.length + 1 := by
  have hmax : Config.maxCapacity = 2147483647 := rfl
  have hlow := hfirst.1
  have hhigh := hlast.2
  rw [Completion.ofValue, Int32.toInt_ofNat_of_lt (by omega)]
  rfl

namespace Serves

/-- Registers and the two pointers are left to the frame. -/
theorem aside_eq (h : Serves argument w i c w') :
    w'.store.registers = w.store.registers ∧ w'.store.stack = w.store.stack ∧
      w'.store.fp = w.store.fp := by
  cases h <;> exact ⟨rfl, rfl, rfl⟩

theorem scratch_eq_or (h : Serves argument w i c w') :
    w'.store.scratch = w.store.scratch ∨ i = .printFloat ∨ i = .readFloat ∧ c.status = .ok := by
  cases h with
  | printFloat => exact .inr (.inl rfl)
  | readFloat => exact .inr (.inr ⟨rfl, rfl⟩)
  | _ => exact .inl rfl

/-- Only a read can fail and the call still come back, and then it has left the store alone. -/
theorem of_failed (h : Serves argument w i c w') (hstatus : c.status ≠ .ok) :
    i.isRead = true ∧ c.value = 0 ∧ w'.store = w.store := by
  cases h with
  | fail hi => exact ⟨hi, rfl, rfl⟩
  | _ => exact absurd rfl hstatus

theorem written_eq (h : Serves argument w i c w') :
    ∃ bytes : Bytes, w'.console.sink.written = w.console.sink.written ++ bytes ∧
      (i.isRead = true → bytes = []) := by
  have hnil : w.console.sink.written = w.console.sink.written ++ ([] : Bytes) := by simp
  cases h with
  | @print i bytes hi _ => exact ⟨bytes, rfl, fun hread => absurd (hi.symm.trans hread) nofun⟩
  | @printFloat x bytes => exact ⟨bytes, rfl, nofun⟩
  | _ => exact ⟨[], hnil, fun _ => rfl⟩

theorem source_eq (h : Serves argument w i c w') (hi : i.isRead = false) :
    w'.console.source = w.console.source := by
  cases h with
  | fail hread => cases hi.symm.trans hread
  | readWord hword => rcases hword with rfl | rfl <;> cases hi
  | readFloat => cases hi
  | readString => cases hi
  | _ => rfl

theorem read?_eq_or (h : Serves argument w i c w')
    (hsize : w.store.memory.size ≤ Config.maxCapacity) (a : Word) :
    w'.store.memory.read? a = w.store.memory.read? a ∨
      i = .readString ∧ c.status = .ok ∧ argument.toInt ≤ a.toInt ∧
        a.toInt < argument.toInt + c.value.toInt := by
  cases h with
  | @readString token source _ _ hfirst hlast =>
    have hlow := hfirst.1
    rw [toInt_value_of_inside hsize hfirst hlast]
    by_cases ha : argument.toInt ≤ a.toInt ∧ a.toInt < argument.toInt + (token.length + 1)
    · exact .inr ⟨rfl, rfl, ha⟩
    · exact .inl (Memory.read?_putString_of_outside hlow (by omega))
  | _ => exact .inl rfl

theorem mem_bufferCells (h : Serves argument w i c w')
    (hsize : w.store.memory.size ≤ Config.maxCapacity) (hi : i = .readString)
    (hstatus : c.status = .ok) {a : Word} (hlow : argument.toInt ≤ a.toInt)
    (hhigh : a.toInt < argument.toInt + c.value.toInt) :
    a ∈ i.bufferCells argument w.console.source := by
  cases h with
  | @readString token source hnext hzero hfirst hlast =>
    rw [toInt_value_of_inside hsize hfirst hlast] at hhigh
    rw [bufferCells, hnext]
    simp only [hzero]
    have hcell : argument.toInt + ((a.toInt - argument.toInt).toNat : Nat) = a.toInt := by omega
    refine List.mem_map.mpr ⟨(a.toInt - argument.toInt).toNat, List.mem_range.mpr (by omega), ?_⟩
    rw [hcell, Int32.ofInt_toInt]
  | @fail _ e _ _ => cases e <;> cases hstatus
  | print hread => cases hi; cases hread
  | readWord hword => rcases hword with rfl | rfl <;> cases hi
  | printFloat => cases hi
  | readFloat => cases hi

/-- Cells outside the buffer are left alone. -/
theorem read?_eq (h : Serves argument w i c w')
    (hsize : w.store.memory.size ≤ Config.maxCapacity) {a : Word}
    (ha : a ∉ i.bufferCells argument w.console.source) :
    w'.store.memory.read? a = w.store.memory.read? a := by
  rcases h.read?_eq_or hsize a with hread | ⟨hi, hstatus, hlow, hhigh⟩
  · exact hread
  · exact absurd (h.mem_bufferCells hsize hi hstatus hlow hhigh) ha

end Serves

end

end Intrinsic

/-! ### The cells of a frame -/

/-- The cells that a frame takes if it is entered now: three from the stack pointer on. -/
def Stack.frameCells (s : Stack) : List Word :=
  match s.growth with
  | .upward => [s.sp, s.sp + 1, s.sp + 2]
  | .downward => [s.sp, s.sp - 1, s.sp - 2]

namespace Frame

theorem mem_frameCells {s : Store} {address : Word} :
    address ∈ s.stack.frameCells ↔
      address = entryFp s ∨ address = entryFp s + returnAddressOffset ∨
        address = entryFp s + savedFpOffset := by
  have hsp : s.stack.sp = callerSp s.stack.growth (entryFp s) := (callerSp_entryFp s).symm
  rw [Stack.frameCells, hsp]
  cases s.stack.growth with
  | upward =>
    simp only [callerSp, returnAddressOffset, savedFpOffset, List.mem_cons, List.not_mem_nil,
      or_false]
    grind
  | downward =>
    simp only [callerSp, returnAddressOffset, savedFpOffset, List.mem_cons, List.not_mem_nil,
      or_false]
    grind

/-- They are the next three cells of the stack. -/
theorem cell_mem_frameCells {g : Growth} {size k j : Nat} {s : Store} (h : s.Level g size k)
    (hlow : k ≤ j) (hhigh : j < k + 3) : cell g size j ∈ s.stack.frameCells := by
  rw [mem_frameCells, h.entryFp, framePointer_add_returnAddressOffset,
    framePointer_add_savedFpOffset, framePointer]
  obtain rfl | rfl | rfl : j = k ∨ j = k + 1 ∨ j = k + 2 := by omega
  · cases g
    · exact .inr (.inl rfl)
    · exact .inl rfl
  · exact .inr (.inr rfl)
  · cases g
    · exact .inl rfl
    · exact .inr (.inl rfl)

/-- Entering a frame leaves the scratch cell and all cells but its own alone. -/
theorem frame_of_enter {argument returnAddress : Word} {record : CallRecord} {s u : Store}
    (h : enter argument returnAddress s = .ok record u) :
    u.scratch = s.scratch ∧ u.memory.size = s.memory.size ∧
      ∀ a, a ∉ s.stack.frameCells → u.memory.read? a = s.memory.read? a := by
  obtain ⟨-, hroom, -, rfl⟩ := enter_eq_ok.mp h
  refine ⟨rfl, ?_, fun a ha => ?_⟩
  · simp only [lay, Memory.size_put]
  · rw [mem_frameCells, not_or, not_or] at ha
    exact read?_lay_of_ne argument returnAddress s.fp hroom ha.1 ha.2.1 ha.2.2

/-- The argument of a frame that was just entered can be loaded. -/
theorem frameLoad_argument_of_enter {argument returnAddress : Word} {record : CallRecord}
    {s u : Store} (h : enter argument returnAddress s = .ok record u) :
    Store.frameLoad argumentOffset u = .ok argument u := by
  obtain ⟨-, hroom, -, rfl⟩ := enter_eq_ok.mp h
  have hzero : Word.addExact? (entryFp s) argumentOffset = some (entryFp s) := by
    have hlow := (entryFp s).le_toInt
    have hhigh := (entryFp s).toInt_lt
    have hoffset : argumentOffset.toInt = 0 := rfl
    rw [Word.addExact?_of_mem (by omega) (by omega)]
    simp [argumentOffset]
  exact Store.frameLoad_eq_ok.mpr ⟨_, hzero, (read?_lay argument returnAddress s.fp hroom).1, rfl⟩

/-- **A frame that is left as it was entered** is left to its return address, and all that the exit
does to the store is to put the value into its register and the two pointers back. -/
theorem exit_of_intact {argument returnAddress address : Word} {record r : CallRecord}
    {s u t : Store} {a : Activation} (henter : enter argument returnAddress s = .ok record u)
    (hregisters : t.registers = u.registers) (hstack : t.stack = u.stack) (hfp : t.fp = u.fp)
    (hcells : ∀ a ∈ s.stack.frameCells, t.memory.read? a = u.memory.read? a)
    (hexit : exit ⟨t, r⟩ = .ok address a) :
    address = returnAddress ∧ valueRegister < s.registers.cells.size ∧
      a.record = { r with returnAddress, phase := .dispatched } ∧
      a.store = { t with
        registers := ⟨s.registers.cells.setIfInBounds valueRegister r.value⟩
        stack := s.stack
        fp := s.fp } := by
  obtain ⟨callerFp, -, -, hret, hsaved, hregister, -, -, rfl⟩ := exit_eq_ok.mp hexit
  obtain ⟨-, hroom, -, rfl⟩ := enter_eq_ok.mp henter
  obtain ⟨-, hlaid, hlaid'⟩ := read?_lay argument returnAddress s.fp hroom
  -- What the exit reads relative to the frame pointer is what the entry has put there.
  have haddress := (Store.read?_of_frameLoad hret).1
  rw [hfp, hcells _ (mem_frameCells.mpr (.inr (.inl rfl))), hlaid] at haddress
  have hcaller := (Store.read?_of_frameLoad hsaved).1
  rw [hfp, hcells _ (mem_frameCells.mpr (.inr (.inr rfl))), hlaid'] at hcaller
  cases haddress
  cases hcaller
  have hgrowth : t.growth = s.growth := by
    rw [Store.growth, hstack]
    rfl
  rw [hregisters] at hregister
  refine ⟨rfl, hregister, rfl, ?_⟩
  rw [vacated, hgrowth, hfp, callerSp_entryFp, hregisters, hstack]
  rfl

end Frame

/-! ### Calls -/

namespace Machine

variable {m m' : Machine} {i : Intrinsic} {argument : Word}

/-- A call of the host that succeeds has come back, and flushing the console has not failed. -/
theorem call_eq_ok {fuel : Nat} {callee : Callee} {record : CallRecord}
    (h : m.call fuel callee argument = some (.ok record m')) :
    ∃ left, drive fuel (invoke callee argument hostReturn m.beginCall) =
        some (.ok .returned left) ∧
      left.lastCall = some record ∧ m' = left.endCall := by
  obtain ⟨o, ho, h⟩ := Option.map_eq_some_iff.mp h
  obtain ⟨hflush, hrecord⟩ := callOutcome_eq_ok.mp h
  cases hfail : (Outcome.state (Outcome.within endCall o)).console.sink.flushFailure with
  | none =>
    rw [flushed_of_none hfail] at hflush
    obtain ⟨left, rfl, rfl⟩ := Outcome.within_eq_ok.mp hflush
    exact ⟨left, ho, hrecord, rfl⟩
  | some text =>
    rw [flushed_of_some hfail] at hflush
    cases hflush

/-- **A call of an intrinsic that succeeds is an entry, a body and an exit.** -/
theorem invoke_intrinsic_eq_ok {returnAddress : Word} {f : Flow}
    (h : invoke (.intrinsic i) argument returnAddress m = .ok f m') :
    ∃ u journal c w address a,
      Frame.enter argument returnAddress m.store = .ok { argument, returnAddress } u ∧
      i.body { store := u, console := m.console, journal } = .ok c w ∧
      Frame.exit ⟨w.store, staged { argument, returnAddress } c⟩ = .ok address a ∧
      land address m' = .ok f m' ∧ m'.store = a.store ∧ m'.console = w.console ∧
      m'.lastCall = some a.record ∧ m'.hostCalls = m.hostCalls := by
  obtain ⟨_, _, hpermit, h⟩ := Action.bind_eq_ok.mp h
  obtain ⟨-, rfl⟩ := permit_intrinsic_eq_ok.mp hpermit
  obtain ⟨record, _, hframe, h⟩ := Action.bind_eq_ok.mp h
  obtain ⟨u, henter, rfl⟩ := enterFrame_eq_ok.mp hframe
  obtain ⟨-, -, rfl, -⟩ := Frame.enter_eq_ok.mp henter
  obtain ⟨_, _, hnote, h⟩ := Action.bind_eq_ok.mp h
  cases hnote
  obtain ⟨c, _, hserve, h⟩ := Action.bind_eq_ok.mp h
  obtain ⟨w, hbody, rfl⟩ := onWorld_eq_ok.mp hserve
  rw [completeCall_eq] at h
  obtain ⟨address, left, hvacate, hland⟩ := Action.bind_eq_ok.mp h
  obtain ⟨a, hexit, rfl⟩ := leave_eq_ok.mp (vacate_eq_ok.mp hvacate).2
  obtain rfl := eq_of_land hland
  exact ⟨u, _, c, w, address, a, henter, hbody, hexit, hland, rfl, rfl, rfl, rfl⟩

/-- **What is behind a call of an intrinsic that succeeds**, if its buffer does not overlap its
frame: a body that succeeds in the store that the entry leaves, and from what the body leaves the
host gets its pointers and the value back. -/
theorem serves_of_call {fuel : Nat} {record : CallRecord}
    (hsize : m.store.memory.size ≤ Config.maxCapacity)
    (h : m.call fuel (.intrinsic i) argument = some (.ok record m'))
    (hbuffer : ∀ a ∈ m.store.stack.frameCells, a ∉ i.bufferCells argument m.console.source) :
    ∃ u journal c w,
      Frame.enter argument hostReturn m.store = .ok { argument, returnAddress := hostReturn } u ∧
      Intrinsic.Serves argument { store := u, console := m.console, journal } i c w ∧
      record = answer argument c ∧ m'.console = w.console ∧
      Frame.valueRegister < m.store.registers.cells.size ∧
      m'.store = { w.store with
        registers := ⟨m.store.registers.cells.setIfInBounds Frame.valueRegister c.value⟩
        stack := m.store.stack
        fp := m.store.fp } := by
  obtain ⟨left, hdrive, hrecord, rfl⟩ := call_eq_ok h
  cases hinvoke : invoke (.intrinsic i) argument hostReturn m.beginCall with
  | error f m₁ =>
    rw [hinvoke, drive_error] at hdrive
    cases hdrive
  | ok f m₁ =>
    obtain ⟨u, journal, c, w, address, a, henter, hbody, hexit, hland, hstore, hconsole, hlast,
      hcalls⟩ := invoke_intrinsic_eq_ok hinvoke
    have hserves := Intrinsic.serves_of_body (Frame.frameLoad_argument_of_enter henter) hbody
    obtain ⟨hregisters, hstack, hfp⟩ := hserves.aside_eq
    have hu : u.memory.size ≤ Config.maxCapacity := by
      obtain ⟨-, hu, -⟩ := Frame.frame_of_enter henter
      rw [hu]
      exact hsize
    obtain ⟨rfl, hregister, ha, ha'⟩ := Frame.exit_of_intact (s := m.store) henter hregisters hstack
      hfp (fun a ha => hserves.read?_eq hu (hbuffer a ha)) hexit
    -- So control comes back to the host without another block.
    have hflow := land_eq_ok.mp hland
    rw [if_pos ⟨rfl, hcalls ▸ Nat.succ_pos m.hostCalls⟩] at hflow
    obtain ⟨rfl, -⟩ := hflow
    rw [hinvoke, drive_returnToHost] at hdrive
    cases hdrive
    refine ⟨u, journal, c, w, henter, hserves, ?_, hconsole, hregister, hstore.trans ha'⟩
    exact Option.some.inj (hrecord.symm.trans (hlast.trans (congrArg some ha)))

end Machine

/-- **What a call of an intrinsic changes.**  Take a machine, an intrinsic and an argument, and a
call that the host makes and that comes back with a record.  If the cells that a string is read into
are none of the three that the frame takes at the stack pointer, then

* the stack pointer, the frame pointer and the depth are as they were;
* register zero holds the value of the record, and the other registers are as they were;
* so are all cells of memory but those of the frame and, for a string that was read, as many from
  the argument on as the value says;
* so is the scratch cell, unless a number was printed or read;
* a status that is not `ok` is that of a read, its value is zero and nothing was stored;
* only the intrinsics that print append to the output, only those that read take from the input. -/
theorem intrinsic_calls_leave_the_rest_alone {m m' : Machine} {i : Intrinsic} {argument : Word}
    {fuel : Nat} {record : CallRecord} (hsize : m.store.memory.size ≤ Config.maxCapacity)
    (hcall : m.call fuel (.intrinsic i) argument = some (.ok record m'))
    (hbuffer : ∀ a ∈ m.store.stack.frameCells, a ∉ i.bufferCells argument m.console.source) :
    (m'.store.sp = m.store.sp ∧ m'.store.fp = m.store.fp ∧ m'.store.depth = m.store.depth) ∧
    (m'.store.registers.cells[0]? = some record.value ∧
      ∀ r, r ≠ 0 → m'.store.registers.cells[r]? = m.store.registers.cells[r]?) ∧
    record.argument = argument ∧
    (∀ a, a ∉ m.store.stack.frameCells →
      m'.store.memory.read? a = m.store.memory.read? a ∨
        i = .readString ∧ record.status = .ok ∧ argument.toInt ≤ a.toInt ∧
          a.toInt < argument.toInt + record.value.toInt) ∧
    (m'.store.scratch = m.store.scratch ∨
      i = .printFloat ∨ i = .readFloat ∧ record.status = .ok) ∧
    (record.status ≠ .ok →
      i.isRead = true ∧ record.value = 0 ∧ m'.store.scratch = m.store.scratch ∧
        ∀ a, a ∉ m.store.stack.frameCells →
          m'.store.memory.read? a = m.store.memory.read? a) ∧
    (∃ bytes : Bytes, m'.console.sink.written = m.console.sink.written ++ bytes ∧
      (i.isRead = true → bytes = [])) ∧
    (i.isRead = false → m'.console.source = m.console.source) := by
  obtain ⟨u, journal, c, w, henter, hserves, rfl, hconsole, hregister, hstore⟩ :=
    Machine.serves_of_call hsize hcall hbuffer
  obtain ⟨hscratch, husize, hmemory⟩ := Frame.frame_of_enter henter
  have hu : u.memory.size ≤ Config.maxCapacity := husize ▸ hsize
  rw [hstore, hconsole]
  refine ⟨⟨rfl, rfl, rfl⟩, ⟨?_, fun r hr => ?_⟩, rfl, fun a ha => ?_, ?_, fun hstatus => ?_,
    hserves.written_eq, hserves.source_eq⟩
  · exact Array.getElem?_setIfInBounds_self_of_lt hregister
  · exact Array.getElem?_setIfInBounds_ne (Ne.symm hr)
  · rcases hserves.read?_eq_or hu a with hread | hread
    · exact .inl (hread.trans (hmemory a ha))
    · exact .inr hread
  · rcases hserves.scratch_eq_or with heq | hor
    · exact .inl (heq.trans hscratch)
    · exact .inr hor
  · obtain ⟨hread, hvalue, hw⟩ := hserves.of_failed hstatus
    refine ⟨hread, hvalue, ?_, fun a ha => ?_⟩
    · show w.store.scratch = _
      rw [hw]
      exact hscratch
    · show w.store.memory.read? a = _
      rw [hw]
      exact hmemory a ha

/-- A machine that waits for a greeting, with three words on its stack. -/
def greetingMachine : Machine where
  store := ⟨⟨#[5, 6]⟩, .ofSize 12, ⟨3, 0, .upward, 12⟩, 0, .zero⟩
  console := ⟨⟨[32, 72, 105, 10], []⟩, {}⟩
  config := { registers := 2, memory := 12 }
  program := ⟨⟨0⟩, #[⟨[], .halt⟩], []⟩

theorem reading_a_greeting_leaves_the_rest_alone :
    ∃ m', greetingMachine.call 0 (.intrinsic .readString) 8 =
        some (.ok ⟨8, -1, 3, .ok, .dispatched⟩ m') ∧
      m'.store.sp = 3 ∧ m'.store.registers.cells[1]? = some 6 ∧
      m'.store.memory.read? 7 = some 0 := by
  have hrun : ((greetingMachine.call 0 (.intrinsic .readString) 8).bind fun r =>
      (Outcome.toExcept r).toOption) = some ⟨8, -1, 3, .ok, .dispatched⟩ := by decide +kernel
  obtain ⟨m', hm'⟩ := Outcome.exists_of_toOption hrun
  have hframe : greetingMachine.store.stack.frameCells = [3, 4, 5] := by decide
  have hcells : Intrinsic.readString.bufferCells 8 greetingMachine.console.source = [8, 9, 10] := by
    decide +kernel
  have hbuffer : ∀ a ∈ greetingMachine.store.stack.frameCells,
      a ∉ Intrinsic.readString.bufferCells 8 greetingMachine.console.source := by
    rw [hframe, hcells]
    intro a ha
    simp only [List.mem_cons, List.not_mem_nil, or_false] at ha
    rcases ha with rfl | rfl | rfl <;> decide
  obtain ⟨⟨hsp, -⟩, ⟨-, hregisters⟩, -, hmemory, -⟩ :=
    intrinsic_calls_leave_the_rest_alone (by decide) hm' hbuffer
  refine ⟨m', hm', hsp, hregisters 1 (by decide), ?_⟩
  rcases hmemory 7 (by rw [hframe]; decide) with hread | ⟨-, -, hlow, -⟩
  · exact hread
  · exact absurd hlow (by decide)

end WordMachine
