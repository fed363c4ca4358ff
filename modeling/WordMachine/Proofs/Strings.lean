/-
Strings in memory, read and printed back.

A string that is read takes one cell a byte and a zero cell after them.  Printing starts at an
address and takes the low bytes up to the first zero.  So what was read is what is printed, as long
as no cell of it is used for the frame of either call; the second frame takes the cells that the
first has given back.

* `Memory.Spells`: from an index on, memory has the characters of a string and a zero;
* `Memory.spells_putString`, `Memory.Spells.congr`, `Memory.readString_of_spells`: how it comes
  about, what it depends on and what it is for;
* `Machine.call_of_failure`: a call fails as its body does;
* `Machine.Poised.call_readString` and `Machine.Poised.call_printString`: the two calls;
* `strings_read_are_printed_back`: so what is read is what is printed, or nothing is stored.
-/
import WordMachine.Proofs.IntrinsicEffect
import WordMachine.Proofs.Tokens

namespace WordMachine

/-! ### Characters and cells -/

namespace Word

theorem lowByte_ofByte (b : UInt8) : lowByte (ofByte b) = b := by
  simp [lowByte, ofByte]

theorem ofByte_ne_zero {b : UInt8} (h : b ≠ 0) : ofByte b ≠ 0 := by
  intro hzero
  apply h
  rw [← lowByte_ofByte b, hzero]
  rfl

end Word

namespace Memory

variable {m m' : Memory} {index : Nat} {bytes : Bytes}

/-- Memory has the characters of a string from an index on, and a zero after them. -/
def Spells (m : Memory) : Nat → Bytes → Prop
  | index, [] => m.cells[index]? = some 0
  | index, b :: bytes => m.cells[index]? = some (Word.ofByte b) ∧ m.Spells (index + 1) bytes

/-- A string that is put into memory is spelled there. -/
theorem spells_putString (h : index + bytes.length < m.size) :
    (m.putString index bytes).Spells index bytes := by
  induction bytes generalizing m index with
  | nil => exact getElem?_put_self 0 (by simpa using h)
  | cons b bytes ih =>
    rw [List.length_cons] at h
    refine ⟨?_, ih (by rw [size_put]; omega)⟩
    rw [putString, getElem?_putString_of_outside (by omega)]
    exact getElem?_put_self _ (by omega)

/-- What is spelled depends on the cells of the string and on the one after it. -/
theorem Spells.congr (h : m.Spells index bytes)
    (hcells : ∀ j, index ≤ j → j ≤ index + bytes.length → m'.cells[j]? = m.cells[j]?) :
    m'.Spells index bytes := by
  induction bytes generalizing index with
  | nil => exact (hcells index (by simp) (by simp)).trans h
  | cons b bytes ih =>
    rw [List.length_cons] at hcells
    refine ⟨(hcells index (by omega) (by omega)).trans h.1, ih h.2 ?_⟩
    intro j hle hge
    exact hcells j (by omega) (by omega)

theorem Spells.charactersOf (h : m.Spells index bytes) (hzero : 0 ∉ bytes) :
    charactersOf (m.cells.toList.drop index) = some bytes := by
  have hdrop : ∀ {v : Word} {index : Nat}, m.cells[index]? = some v →
      m.cells.toList.drop index = v :: m.cells.toList.drop (index + 1) := by
    intro v index hv
    obtain ⟨hlt, rfl⟩ := Array.getElem?_eq_some_iff.mp hv
    exact List.drop_eq_getElem_cons (by simpa using hlt)
  induction bytes generalizing index with
  | nil =>
    rw [hdrop h]
    rfl
  | cons b bytes ih =>
    -- The cell of a byte that is not zero does not end the string.
    rw [List.mem_cons, not_or] at hzero
    rw [hdrop h.1, Memory.charactersOf, if_neg (Word.ofByte_ne_zero (Ne.symm hzero.1)),
      ih h.2 hzero.2, Word.lowByte_ofByte]
    rfl

theorem readString_of_spells {address : Word} (h : m.Spells address.toInt.toNat bytes)
    (hinside : m.Inside address.toInt) (hzero : 0 ∉ bytes) :
    readString address m = .ok bytes m := by
  rw [readString, if_pos hinside, h.charactersOf hzero]

theorem read?_ofInt {j : Nat} (hj : j ≤ 2147483647) : m.read? (Int32.ofInt j) = m.cells[j]? := by
  have hint : (Int32.ofInt j).toInt = j := Int32.toInt_ofInt_of_le (by omega) (by omega)
  rw [read?, hint, if_pos (by omega), Int.toNat_natCast]

/-- The cells of a string, by their addresses. -/
theorem Spells.of_read? {address : Word} (h : m.Spells address.toInt.toNat bytes)
    (hlow : 0 ≤ address.toInt) (hhigh : address.toInt + bytes.length ≤ 2147483647)
    (hcells : ∀ a : Word, address.toInt ≤ a.toInt → a.toInt ≤ address.toInt + bytes.length →
      m'.read? a = m.read? a) : m'.Spells address.toInt.toNat bytes := by
  refine h.congr fun j hle hge => ?_
  have hint : (Int32.ofInt j).toInt = j := Int32.toInt_ofInt_of_le (by omega) (by omega)
  rw [← read?_ofInt (by omega), ← read?_ofInt (by omega)]
  exact hcells _ (by omega) (by omega)

/-- A string is written if both ends of it lie in memory. -/
theorem writeString_of_inside {address : Word} (hfirst : m.Inside address.toInt)
    (hlast : m.Inside (address.toInt + bytes.length)) :
    writeString address bytes m =
      .ok (bytes.length + 1) (m.putString address.toInt.toNat bytes) := by
  rw [writeString, if_neg (not_not_intro hfirst), if_neg (not_not_intro hlast)]

/-- If a cell of it does not, nothing is written, and the fault names such a cell. -/
theorem writeString_of_outside {address : Word} {j : Nat} (hj : j ≤ bytes.length)
    (houtside : ¬ m.Inside (address.toInt + j)) :
    ∃ i : Nat, i ≤ bytes.length ∧ ¬ m.Inside (address.toInt + i) ∧
      writeString address bytes m = .error (missing (address.toInt + i)) m := by
  by_cases hfirst : m.Inside address.toInt
  · -- The cells follow each other, so the last one is missing as well.
    have hlast : ¬ m.Inside (address.toInt + bytes.length) := by
      intro hlast
      have hlow := hfirst.1
      have hhigh := hlast.2
      exact houtside ⟨by omega, by omega⟩
    refine ⟨bytes.length, Nat.le_refl _, hlast, ?_⟩
    rw [writeString, if_neg (not_not_intro hfirst), if_pos hlast]
  · refine ⟨0, Nat.zero_le _, by simpa using hfirst, ?_⟩
    rw [writeString, if_pos hfirst]
    simp

end Memory

/-! ### Bodies -/

namespace Intrinsic

variable {w : World} {address : Word} {bytes : Bytes} {source : Source}

/-- A token without a zero is written to memory. -/
theorem acceptString_eq (hzero : 0 ∉ bytes) :
    acceptString address bytes = World.onStore (Store.onMemory (Memory.writeString address bytes))
      >>= fun cells => return .ok (Int32.ofNat cells) := by
  have hcontains : bytes.contains 0 = false := by simpa using hzero
  rw [acceptString, Input.string, hcontains]
  rfl

variable (haddress : Store.frameLoad Frame.argumentOffset w.store = .ok address w.store)

include haddress

/-- A string is printed as memory spells it. -/
theorem body_printString (hinside : w.store.memory.Inside address.toInt) (hzero : 0 ∉ bytes)
    (hspells : w.store.memory.Spells address.toInt.toNat bytes)
    (hroom : w.console.sink.hasRoom bytes.length = true) :
    printString.body w = .ok .unit
      { w with console.sink.written := w.console.sink.written ++ bytes } := by
  have hread : World.onStore (Store.readString address) w = .ok bytes w := by
    rw [World.onStore_apply, Store.readString, Store.onMemory_apply,
      Memory.readString_of_spells hspells hinside hzero]
    rfl
  rw [body, Action.bind_of_ok (onStore_argument haddress)]
  exact (Action.bind_of_ok hread).trans (print_of_hasRoom hroom)

section

variable (hflush : w.console.sink.flushFailure = none)
  (hnext : w.console.source.nextToken = .ok (some bytes) source) (hzero : 0 ∉ bytes)

include hflush hnext hzero

theorem body_readString_eq :
    readString.body w =
      (World.onStore (Store.onMemory (Memory.writeString address bytes)) >>= fun cells =>
        return .ofValue (Int32.ofNat cells)) { w with console.source := source } := by
  have hread : readString.body w =
      (acceptString address bytes >>= complete .readString) { w with console.source := source } :=
    (Action.bind_of_ok (onStore_argument haddress)).trans (read_of_some hflush hnext)
  rw [hread, acceptString_eq hzero, bind_assoc]
  rfl

/-- A string is read into memory if both ends of it lie there. -/
theorem body_readString (hfirst : w.store.memory.Inside address.toInt)
    (hlast : w.store.memory.Inside (address.toInt + bytes.length)) :
    readString.body w = .ok (.ofValue (Int32.ofNat (bytes.length + 1)))
      { w with
        store.memory := w.store.memory.putString address.toInt.toNat bytes
        console.source := source } := by
  rw [body_readString_eq haddress hflush hnext hzero]
  refine Action.bind_of_ok ?_
  rw [World.onStore_apply, Store.onMemory_apply, Memory.writeString_of_inside hfirst hlast]
  rfl

/-- If it cannot be written, the body fails and leaves the store alone. -/
theorem body_readString_of_error {f : Fault}
    (hwrite : Memory.writeString address bytes w.store.memory = .error f w.store.memory) :
    readString.body w = .error f { w with console.source := source } := by
  rw [body_readString_eq haddress hflush hnext hzero]
  refine Action.bind_of_error ?_
  rw [World.onStore_apply, Store.onMemory_apply, hwrite]
  rfl

end

end Intrinsic

/-! ### Calls -/

namespace Machine

variable {m : Machine} {i : Intrinsic} {argument : Word} {u store : Store} {console : Console}

theorem onWorld_of_error {α : Type} {x : Action World α} {f : Fault} {w : World}
    (h : x m.toWorld = .error f w) : onWorld x m = .error f { m with toWorld := w } := by
  rw [onWorld_apply, h]
  rfl

/-- **A call of an intrinsic whose body fails** fails alike, in the store that the body leaves. -/
theorem call_of_failure {f : Fault} (hallowed : m.config.capabilities.allows i = true)
    (henter : Frame.enter argument hostReturn m.store =
      .ok { argument, returnAddress := hostReturn } u)
    (hbody : ∀ journal, i.body ⟨u, m.console, journal⟩ = .error f ⟨store, console, journal⟩)
    (hflush : console.sink.flushFailure = none) (fuel : Nat) :
    ∃ m', m.call fuel (.intrinsic i) argument = some (.error f m') ∧ m'.store = store := by
  let record : CallRecord := { argument, returnAddress := hostReturn }
  let journal := m.journal.push (.frameEntered u.fp u.sp argument hostReturn)
  let entered : Machine := { m.beginCall with store := u, journal }
  let failed : Machine :=
    { m.beginCall with
      store := store
      console := console
      journal := journal.push (.intrinsicCalled i argument) }
  have hentering : Move (.entering (.intrinsic i) argument .host) m.beginCall
      (.serving i argument record) entered :=
    .enterIntrinsic hallowed (enterFrame_eq_ok.mpr ⟨u, henter, rfl⟩)
  have hserve : onWorld i.body
      { entered with journal := journal.push (.intrinsicCalled i argument) } = .error f failed :=
    onWorld_of_error (hbody _)
  have hserving : advance (.serving i argument record) entered = .error f failed :=
    (Action.bind_of_ok rfl).trans (Action.bind_of_error hserve)
  have hinvoke : invoke (.intrinsic i) argument hostReturn m.beginCall = .error f failed :=
    calc Control.flow (.entering (.intrinsic i) argument .host) m.beginCall
      _ = Control.flow (.serving i argument record) entered :=
        flow_of_ok trivial (advance_of_move hentering)
      _ = .error f failed := flow_of_error trivial hserving
  have hend : flushed (Outcome.within endCall (.error f failed : Outcome Machine Departure)) =
      .error f failed.endCall := flushed_of_none hflush
  rw [call, hinvoke, drive_error, Option.map_some, hend]
  exact ⟨_, rfl, rfl⟩

/-- The cells of a string from an address on are none of those that a frame takes. -/
def Apart (m : Machine) (address : Word) (bytes : Bytes) : Prop :=
  ∀ a ∈ m.store.stack.frameCells, a.toInt < address.toInt ∨ address.toInt + bytes.length < a.toInt

section

variable {g : Growth} {size k : Nat} {address : Word} {bytes : Bytes}

theorem Poised.toInt_le_of_inside (h : m.Poised g size k) {index : Int}
    (hinside : m.store.memory.Inside index) : index ≤ 2147483647 := by
  have hbound := h.level.bound
  have hhigh := hinside.2
  rw [h.level.memory] at hhigh
  omega

/-- **A call reads a string into memory.** -/
theorem Poised.call_readString (h : m.Poised g size k)
    (hallowed : m.config.capabilities.allows .readString = true) {source : Source}
    (hnext : m.console.source.nextToken = .ok (some bytes) source) (hzero : 0 ∉ bytes)
    (hfirst : m.store.memory.Inside address.toInt)
    (hlast : m.store.memory.Inside (address.toInt + bytes.length))
    (hapart : m.Apart address bytes) (fuel : Nat) :
    ∃ m', m.call fuel (.intrinsic .readString) address =
        some (.ok (answer address (.ofValue (Int32.ofNat (bytes.length + 1)))) m') ∧
      m'.console = { m.console with source } ∧ m'.config = m.config ∧ m'.Poised g size k ∧
      m'.store.stack = m.store.stack ∧ m'.store.memory.size = m.store.memory.size ∧
      m'.store.memory.Spells address.toInt.toNat bytes := by
  have hlow := hfirst.1
  obtain ⟨u, henter, -⟩ := Script.enter_of_le h.level h.room address hostReturn
  obtain ⟨-, hsize, -⟩ := Frame.frame_of_enter henter
  -- The frame lies outside of the string.
  have hframe : ∀ j, k ≤ j → j < k + 3 →
      (u.memory.putString address.toInt.toNat bytes).read? (cell g size j) =
        u.memory.read? (cell g size j) := by
    intro j hle hlt
    refine Memory.read?_putString_of_outside hlow ?_
    exact hapart _ (Frame.cell_mem_frameCells h.level hle hlt)
  have hbody : ∀ journal, Intrinsic.readString.body ⟨u, m.console, journal⟩ =
      .ok (.ofValue (Int32.ofNat (bytes.length + 1)))
        ⟨{ u with memory := u.memory.putString address.toInt.toNat bytes },
          { m.console with source }, journal⟩ := by
    intro journal
    refine Intrinsic.body_readString (Frame.frameLoad_argument_of_enter henter) h.flush hnext hzero
      ?_ ?_
    · rwa [Memory.Inside, hsize]
    · rwa [Memory.Inside, hsize]
  obtain ⟨m', hcall, hconsole, hconfig, hstore⟩ :=
    h.call_of_frame hallowed henter (fun journal => ⟨journal, hbody journal⟩) rfl rfl rfl
      (Memory.size_putString _ _ _) hframe h.flush fuel
  have hsize' : m'.store.memory.size = m.store.memory.size := by
    rw [hstore]
    exact (Memory.size_putString _ _ _).trans hsize
  refine ⟨m', hcall, hconsole, hconfig, ?_, by rw [hstore], hsize', ?_⟩
  · constructor
    case level => exact h.level.congr (by rw [hstore]) hsize'
    case room => exact h.room
    case register =>
      rw [hstore, Registers.size, Array.size_setIfInBounds]
      exact h.register
    case flush =>
      rw [hconsole]
      exact h.flush
  · have hhigh := hlast.2
    rw [hstore]
    exact Memory.spells_putString (by rw [hsize]; omega)

/-- **A call prints what memory spells.**  The frame does not take a cell of it. -/
theorem Poised.call_printString (h : m.Poised g size k)
    (hallowed : m.config.capabilities.allows .printString = true) (hzero : 0 ∉ bytes)
    (hfirst : m.store.memory.Inside address.toInt)
    (hlast : m.store.memory.Inside (address.toInt + bytes.length))
    (hspells : m.store.memory.Spells address.toInt.toNat bytes)
    (hroom : m.console.sink.hasRoom bytes.length = true) (hapart : m.Apart address bytes)
    (fuel : Nat) :
    ∃ m', m.call fuel (.intrinsic .printString) address = some (.ok (answer address .unit) m') ∧
      m'.console.sink.written = m.console.sink.written ++ bytes := by
  obtain ⟨u, henter, -⟩ := Script.enter_of_le h.level h.room address hostReturn
  obtain ⟨-, hsize, hcells⟩ := Frame.frame_of_enter henter
  have hspells' : u.memory.Spells address.toInt.toNat bytes := by
    refine hspells.of_read? hfirst.1 (h.toInt_le_of_inside hlast) fun a hle hge => ?_
    refine hcells a fun hmem => ?_
    rcases hapart a hmem with hbelow | habove <;> omega
  have hbody : ∀ journal, Intrinsic.printString.body ⟨u, m.console, journal⟩ =
      .ok .unit ⟨u, { m.console with sink.written := m.console.sink.written ++ bytes }, journal⟩ :=
    fun journal => Intrinsic.body_printString (Frame.frameLoad_argument_of_enter henter)
      (by rwa [Memory.Inside, hsize]) hzero hspells' hroom
  obtain ⟨m', hcall, hconsole, -⟩ := h.call_of_frame hallowed henter
    (fun journal => ⟨journal, hbody journal⟩) rfl rfl rfl rfl (fun j _ _ => rfl) h.flush fuel
  exact ⟨m', hcall, by rw [hconsole]⟩

/-- **A call that is to read a string past the end of memory fails**, and no cell but those of its
frame is changed. -/
theorem Poised.call_readString_of_outside (h : m.Poised g size k)
    (hallowed : m.config.capabilities.allows .readString = true) {source : Source}
    (hnext : m.console.source.nextToken = .ok (some bytes) source) (hzero : 0 ∉ bytes) {j : Nat}
    (hj : j ≤ bytes.length) (houtside : ¬ m.store.memory.Inside (address.toInt + j)) (fuel : Nat) :
    ∃ (i : Nat) (m' : Machine), i ≤ bytes.length ∧ ¬ m.store.memory.Inside (address.toInt + i) ∧
      m.call fuel (.intrinsic .readString) address =
        some (.error (Memory.missing (address.toInt + i)) m') ∧
      ∀ a, a ∉ m.store.stack.frameCells →
        m'.store.memory.read? a = m.store.memory.read? a := by
  obtain ⟨u, henter, -⟩ := Script.enter_of_le h.level h.room address hostReturn
  obtain ⟨-, hsize, hcells⟩ := Frame.frame_of_enter henter
  have houtside' : ¬ u.memory.Inside (address.toInt + j) := by rwa [Memory.Inside, hsize]
  obtain ⟨i, hi, hmissing, hwrite⟩ := Memory.writeString_of_outside hj houtside'
  have hbody : ∀ journal, Intrinsic.readString.body ⟨u, m.console, journal⟩ =
      .error (Memory.missing (address.toInt + i)) ⟨u, { m.console with source }, journal⟩ :=
    fun journal => Intrinsic.body_readString_of_error (w := ⟨u, m.console, journal⟩)
      (Frame.frameLoad_argument_of_enter henter) h.flush hnext hzero hwrite
  obtain ⟨m', hcall, hstore⟩ := call_of_failure hallowed henter hbody h.flush fuel
  rw [Memory.Inside, hsize] at hmissing
  refine ⟨i, m', hi, hmissing, hcall, fun a ha => ?_⟩
  rw [hstore]
  exact hcells a ha

end

end Machine

/-- **Strings that are read are printed back.**  Take a machine with a register, room for a frame
and a sink that can be flushed, that may read and use strings.  Its stream holds bytes, cut into
segments anywhere, whose first word has no zero in it and for which the sink has room.

If the cells of the word and one more, from an address on, lie in memory and are none of the three
that a frame takes, then a call reads the word to there and answers with their number, and a call
that follows prints just the word.  If one of these cells lies outside memory, the read fails with
the address of such a cell, and no cell but those of the frame is changed. -/
theorem strings_read_are_printed_back {c : Config} {built : Store} {m : Machine}
    {text token : Bytes} (hbuilt : Store.ofConfig c = .ok built)
    (hshape : m.store.shape = built.shape) (hsp : m.store.InBounds)
    (hregister : 0 < m.store.registers.size)
    (hroom : m.store.depth + 3 ≤ m.store.memory.size)
    (hstrings : m.config.capabilities.contains .strings = true)
    (hinput : m.config.capabilities.contains .input = true)
    (hflush : m.console.sink.flushFailure = none)
    (hlimit : m.console.sink.hasRoom token.length = true) (htext : m.console.source.Holds text)
    (htoken : (words text).head? = some token) (hzero : 0 ∉ token) (address : Word) :
    ((∀ j ≤ token.length, m.store.memory.Inside (address.toInt + (j : Int)) ∧
        ∀ a ∈ m.store.stack.frameCells, a.toInt ≠ address.toInt + (j : Int)) →
      ∀ fuel fuel', ∃ record m₁ record' m₂,
        m.call fuel (.intrinsic .readString) address = some (.ok record m₁) ∧
        record.status = .ok ∧ record.value.toInt = token.length + 1 ∧
        m₁.console.sink.written = m.console.sink.written ∧
        m₁.call fuel' (.intrinsic .printString) address = some (.ok record' m₂) ∧
        record'.status = .ok ∧
        m₂.console.sink.written = m₁.console.sink.written ++ token) ∧
    ((∃ j ≤ token.length, ¬ m.store.memory.Inside (address.toInt + (j : Int))) →
      ∀ fuel, ∃ (i : Nat) (m₁ : Machine), i ≤ token.length ∧
        ¬ m.store.memory.Inside (address.toInt + i) ∧
        m.call fuel (.intrinsic .readString) address =
          some (.error (.outOfBounds .memory (Int64.ofInt (address.toInt + i))) m₁) ∧
        ∀ a, a ∉ m.store.stack.frameCells →
          m₁.store.memory.read? a = m.store.memory.read? a) := by
  have hpoised := Machine.poised_of_inBounds hbuilt hshape hsp hregister hroom hflush
  obtain ⟨source, -, hnext, -⟩ := htext.nextToken
  rw [htoken] at hnext
  have hread : m.config.capabilities.allows .readString = true := by
    simp [CapabilitySet.allows, Intrinsic.needs, hstrings, hinput]
  have hprint : m.config.capabilities.allows .printString = true := by
    simp [CapabilitySet.allows, Intrinsic.needs, hstrings]
  refine ⟨fun hcells fuel fuel' => ?_, fun ⟨j, hj, houtside⟩ fuel => ?_⟩
  · have hfirst : m.store.memory.Inside address.toInt := by simpa using (hcells 0 (by simp)).1
    have hlast := (hcells token.length (Nat.le_refl _)).1
    have hapart : m.Apart address token := by
      intro a ha
      by_contra hwithin
      have hne := (hcells (a.toInt - address.toInt).toNat (by omega)).2 a ha
      omega
    obtain ⟨m₁, hcall, hconsole, hconfig, hpoised₁, hstack, hsize, hspells⟩ :=
      hpoised.call_readString hread hnext hzero hfirst hlast hapart fuel
    -- The second frame takes the same cells as the first.
    have hapart₁ : m₁.Apart address token := by rwa [Machine.Apart, hstack]
    obtain ⟨m₂, hcall₂, hwritten⟩ := hpoised₁.call_printString (by rwa [hconfig]) hzero
      (by rwa [Memory.Inside, hsize]) (by rwa [Memory.Inside, hsize]) hspells
      (by rwa [hconsole]) hapart₁ fuel'
    refine ⟨_, m₁, _, m₂, hcall, rfl, ?_, by rw [hconsole], hcall₂, rfl, hwritten⟩
    exact Intrinsic.toInt_value_of_inside (hpoised.level.memory ▸ hpoised.level.bound) hfirst hlast
  · exact hpoised.call_readString_of_outside hread hnext hzero hj houtside fuel

/-- A machine with a word on its stack and room for a frame and for three bytes and a zero. -/
def stringMachine : Machine where
  store := ⟨.ofSize 1, .ofSize 8, ⟨1, 0, .upward, 8⟩, 0, .zero⟩
  console :=
    { source := .ofSegments [.bytes [32, 104], .bytes [255], .bytes [105, 10, 104]]
      sink := { limit := some 3 } }
  config := { registers := 1, memory := 8, capabilities := { strings := true, input := true } }
  program := ⟨⟨0⟩, #[⟨[], .halt⟩], []⟩

theorem string_in_pieces_is_printed_back :
    (∃ record m₁ record' m₂,
      stringMachine.call 0 (.intrinsic .readString) 4 = some (.ok record m₁) ∧
      record.value.toInt = 4 ∧
      m₁.call 0 (.intrinsic .printString) 4 = some (.ok record' m₂) ∧
      m₂.console.sink.written = #[104, 255, 105]) ∧
    ∃ i m₁, stringMachine.call 0 (.intrinsic .readString) 5 =
        some (.error (.outOfBounds .memory i) m₁) ∧
      m₁.store.memory.read? 7 = some 0 := by
  have hbuilt : Store.ofConfig stringMachine.config =
      .ok ⟨.ofSize 1, .ofSize 8, .ofCapacity .upward 8, 0, .zero⟩ := rfl
  have htext : stringMachine.console.source.Holds [32, 104, 255, 105, 10, 104] :=
    ⟨[[32, 104], [255], [105, 10, 104]], by simp, rfl, rfl⟩
  have hframe : stringMachine.store.stack.frameCells = [1, 2, 3] := by decide
  have htoken : (words [32, 104, 255, 105, 10, 104]).head? = some [104, 255, 105] := by
    decide +kernel
  have hmain := strings_read_are_printed_back hbuilt rfl (by decide +kernel) (by decide)
    (by decide +kernel) rfl rfl rfl (by decide) htext htoken (by decide)
  have hcells : ∀ j ≤ 3, stringMachine.store.memory.Inside (Int32.toInt 4 + (j : Nat)) ∧
      ∀ a ∈ stringMachine.store.stack.frameCells, a.toInt ≠ Int32.toInt 4 + (j : Nat) := by
    intro j hj
    have hfour : Int32.toInt 4 = 4 := by decide
    have hsize : stringMachine.store.memory.size = 8 := rfl
    rw [hframe, hfour, Memory.Inside, hsize]
    refine ⟨by omega, fun a ha => ?_⟩
    have hthree : a.toInt ≤ 3 := by
      simp only [List.mem_cons, List.not_mem_nil, or_false] at ha
      rcases ha with rfl | rfl | rfl <;> decide
    omega
  refine ⟨?_, ?_⟩
  · obtain ⟨record, m₁, record', m₂, hread, -, hvalue, hnone, hprint, -, hwritten⟩ :=
      (hmain 4).1 hcells 0 0
    refine ⟨record, m₁, record', m₂, hread, hvalue, hprint, ?_⟩
    rw [hwritten, hnone]
    rfl
  · obtain ⟨i, m₁, -, -, hread, hcells⟩ := (hmain 5).2 ⟨3, by decide, by decide⟩ 0
    refine ⟨_, m₁, hread, ?_⟩
    rw [hcells 7 (by rw [hframe]; decide)]
    rfl

end WordMachine
