/-
Strings as runs of cells.

Writing a string replaces a run of cells, one for each byte and one for the zero after them, and
all of them must be in memory.  Reading goes the other way, but it is defined on every memory: it
looks for a zero cell, not for a cell whose low byte is zero, so a cell that holds 256 is a
character, and its byte is zero.

* `Word.ofByte_eq`, `Word.lowByte_eq`: bytes and cells as numbers;
* `Memory.toList_putString`: which cells a string takes the place of;
* `Memory.writeString_cases`: the two ways in which writing ends;
* `Memory.charactersOf_of_mem`, `Memory.readString_cases`: the search for a zero, and the three ways
  in which reading ends;
* `Memory.readString_putString`: a string that was written, read from any of its bytes on;
* `strings_are_written_whole`: all of it together.
-/
import WordMachine.Proofs.Strings

namespace WordMachine

/-! ### Bytes and words -/

namespace Word

theorem ofByte_eq (b : UInt8) : ofByte b = Int32.ofNat b.toNat := by
  have hlt := b.toNat_lt
  apply Int32.toInt_inj.mp
  rw [ofByte, toInt_toInt32 (by simp; omega), Int32.toInt_ofNat_of_lt (by omega)]
  simp

/-- The byte of a word is the word modulo 256, also if it is negative. -/
theorem lowByte_eq (w : Word) : lowByte w = UInt8.ofInt w.toInt := by
  have hmod := toInt_emod w
  apply UInt8.toNat_inj.mp
  rw [lowByte, UInt32.toNat_toUInt8, UInt8.ofInt, UInt8.toNat_ofNat']
  omega

end Word

namespace Memory

variable {m : Memory} {index : Nat} {address : Word} {bytes : Bytes}

/-! ### Writing -/

theorem toList_put (m : Memory) (index : Nat) (value : Word) :
    (m.put index value).cells.toList = m.cells.toList.set index value :=
  Array.toList_setIfInBounds

/-- **A string takes the place of as many cells as it has bytes, and of one more.** -/
theorem toList_putString (h : index + bytes.length < m.size) :
    (m.putString index bytes).cells.toList = m.cells.toList.take index ++
      (bytes.map Word.ofByte ++ 0 :: m.cells.toList.drop (index + bytes.length + 1)) := by
  induction bytes generalizing m index with
  | nil =>
    have hlength : index < m.cells.toList.length := h
    rw [putString, toList_put, List.set_eq_take_append_cons_drop, if_pos hlength]
    rfl
  | cons b bytes ih =>
    rw [List.length_cons] at h
    have hlength : index < m.cells.toList.length := Nat.lt_of_le_of_lt (Nat.le_add_right _ _) h
    -- The first cell joins those before the rest of the string, and is not among those after it.
    have htake : (m.put index (Word.ofByte b)).cells.toList.take (index + 1) =
        m.cells.toList.take index ++ [Word.ofByte b] := by
      rw [toList_put, List.take_add_one, List.take_set_of_le (Nat.le_refl _),
        List.getElem?_set_self hlength]
      rfl
    have hdrop : (m.put index (Word.ofByte b)).cells.toList.drop (index + 1 + bytes.length + 1) =
        m.cells.toList.drop (index + (bytes.length + 1) + 1) := by
      rw [toList_put, List.drop_set_of_lt (by omega), Nat.add_right_comm index 1,
        Nat.add_assoc index]
    rw [putString, ih (by rw [size_put]; omega), htake, hdrop, List.append_assoc]
    rfl

/-- **Writing a string** succeeds if its cells are all in memory; otherwise memory stays as it is,
and the fault names a cell that is missing. -/
theorem writeString_cases (m : Memory) (address : Word) (bytes : Bytes) :
    (0 ≤ address.toInt ∧ address.toInt + bytes.length < m.size ∧
      writeString address bytes m =
        .ok (bytes.length + 1) (m.putString address.toInt.toNat bytes)) ∨
    (¬ (0 ≤ address.toInt ∧ address.toInt + bytes.length < m.size) ∧
      ∃ i ≤ bytes.length, ¬ m.Inside (address.toInt + (i : Int)) ∧
        writeString address bytes m = .error (missing (address.toInt + (i : Int))) m) := by
  by_cases hfits : 0 ≤ address.toInt ∧ address.toInt + bytes.length < m.size
  · obtain ⟨hlow, hhigh⟩ := hfits
    exact .inl ⟨hlow, hhigh, writeString_of_inside ⟨hlow, by omega⟩ ⟨by omega, hhigh⟩⟩
  · have hmissing : ∃ j ≤ bytes.length, ¬ m.Inside (address.toInt + (j : Int)) := by
      by_cases hlow : 0 ≤ address.toInt
      · exact ⟨bytes.length, Nat.le_refl _, fun hlast => hfits ⟨hlow, hlast.2⟩⟩
      · exact ⟨0, Nat.zero_le _, fun hfirst => hlow (by simpa using hfirst.1)⟩
    obtain ⟨j, hj, houtside⟩ := hmissing
    exact .inr ⟨hfits, writeString_of_outside hj houtside⟩

/-! ### Reading -/

/-- The cells from an address to the end of memory. -/
def cellsFrom (m : Memory) (address : Word) : List Word :=
  m.cells.toList.drop address.toInt.toNat

/-- The characters of a list of cells are the bytes of those before the first zero. -/
theorem charactersOf_of_mem {cells : List Word} (h : 0 ∈ cells) :
    charactersOf cells = some ((cells.takeWhile (· ≠ 0)).map Word.lowByte) := by
  induction cells with
  | nil => simp at h
  | cons w cells ih =>
    by_cases hw : w = 0
    · simp [charactersOf, hw]
    · have hcells : 0 ∈ cells := (List.mem_cons.mp h).resolve_left (Ne.symm hw)
      rw [charactersOf, if_neg hw, ih hcells]
      simp [hw]

theorem charactersOf_of_not_mem {cells : List Word} (h : 0 ∉ cells) :
    charactersOf cells = none := by
  induction cells with
  | nil => rfl
  | cons w cells ih =>
    rw [List.mem_cons, not_or] at h
    rw [charactersOf, if_neg (Ne.symm h.1), ih h.2]
    rfl

/-- **Reading a string** fails if it starts outside of memory or does not end there, and gives the
bytes of its cells if it does. -/
theorem readString_cases (m : Memory) (address : Word) :
    (¬ m.Inside address.toInt ∧ readString address m = .error (missing address.toInt) m) ∨
    (m.Inside address.toInt ∧ 0 ∉ m.cellsFrom address ∧
      readString address m = .error (.unterminatedString address) m) ∨
    (m.Inside address.toInt ∧ 0 ∈ m.cellsFrom address ∧
      readString address m =
        .ok (((m.cellsFrom address).takeWhile (· ≠ 0)).map Word.lowByte) m) := by
  by_cases hinside : m.Inside address.toInt
  · have hread : readString address m = _ := if_pos hinside
    by_cases hzero : 0 ∈ m.cellsFrom address
    · refine .inr (.inr ⟨hinside, hzero, ?_⟩)
      rw [hread, ← cellsFrom, charactersOf_of_mem hzero]
    · refine .inr (.inl ⟨hinside, hzero, ?_⟩)
      rw [hread, ← cellsFrom, charactersOf_of_not_mem hzero]
  · exact .inl ⟨hinside, if_neg hinside⟩

/-- From each of its bytes on, the rest of a string is spelled. -/
theorem Spells.drop (h : m.Spells index bytes) {k : Nat} (hk : k ≤ bytes.length) :
    m.Spells (index + k) (bytes.drop k) := by
  induction k generalizing index bytes with
  | zero => exact h
  | succ k ih =>
    cases bytes with
    | nil => simp at hk
    | cons b bytes =>
      rw [← Nat.add_assoc, Nat.add_right_comm, List.drop_succ_cons]
      exact ih h.2 (Nat.le_of_succ_le_succ hk)

/-- **A string that was written is read from any of its bytes on.**  From the zero after them on,
this is the empty string. -/
theorem readString_putString (hlow : 0 ≤ address.toInt)
    (hhigh : address.toInt + bytes.length < m.size) (hzero : 0 ∉ bytes) {k : Nat}
    (hk : k ≤ bytes.length) {a : Word} (ha : a.toInt = address.toInt + (k : Int)) :
    readString a (m.putString address.toInt.toNat bytes) =
      .ok (bytes.drop k) (m.putString address.toInt.toNat bytes) := by
  have hroom : address.toInt.toNat + bytes.length < m.size := by omega
  have hindex : address.toInt.toNat + k = a.toInt.toNat := by omega
  have hspells := (spells_putString hroom).drop hk
  rw [hindex] at hspells
  have hinside : (m.putString address.toInt.toNat bytes).Inside a.toInt := by
    rw [Inside, size_putString]
    omega
  exact readString_of_spells hspells hinside fun hmem => hzero (List.mem_of_mem_drop hmem)

end Memory

/-- **Strings are written whole or not at all, and read up to the first zero.**  Take any memory and
any address.

A string can be written there if and only if its bytes and a zero after them have their cells in
memory.  Then the answer is the number of these cells, and they hold the bytes and the zero, while
all others are what they were.  If there is no zero among the bytes, the string can be read from
each of its bytes on.  If it cannot be written, nothing is.

Reading fails with the address if that is outside of memory, and as unterminated if it is inside and
no cell from there on is zero.  Otherwise it gives the cells before the first zero, each modulo
256. -/
theorem strings_are_written_whole (m : Memory) (address : Word) :
    (∀ bytes : Bytes,
      ((∃ n m', Memory.writeString address bytes m = .ok n m') ↔
        0 ≤ address.toInt ∧ address.toInt + bytes.length < m.size) ∧
      (∀ n m', Memory.writeString address bytes m = .ok n m' →
        n = bytes.length + 1 ∧
        m'.cells.toList = m.cells.toList.take address.toInt.toNat ++
          (bytes.map (fun b => Int32.ofNat b.toNat) ++
            0 :: m.cells.toList.drop (address.toInt.toNat + bytes.length + 1)) ∧
        (0 ∉ bytes → ∀ k ≤ bytes.length, ∀ a : Word, a.toInt = address.toInt + (k : Int) →
          Memory.readString a m' = .ok (bytes.drop k) m')) ∧
      ∀ f m', Memory.writeString address bytes m = .error f m' →
        m' = m ∧ ∃ i ≤ bytes.length, ¬ m.Inside (address.toInt + (i : Int)) ∧
          f = .outOfBounds .memory (Int64.ofInt (address.toInt + i))) ∧
    (Memory.readString address m = .error (.outOfBounds .memory (Int64.ofInt address.toInt)) m ↔
      ¬ m.Inside address.toInt) ∧
    (Memory.readString address m = .error (.unterminatedString address) m ↔
      m.Inside address.toInt ∧ 0 ∉ m.cellsFrom address) ∧
    ∀ bytes, Memory.readString address m = .ok bytes m ↔
      m.Inside address.toInt ∧ 0 ∈ m.cellsFrom address ∧
        bytes = ((m.cellsFrom address).takeWhile (· ≠ 0)).map fun w => UInt8.ofInt w.toInt := by
  refine ⟨fun bytes => ?_, ?_⟩
  · rcases m.writeString_cases address bytes with ⟨hlow, hhigh, hwrite⟩ |
      ⟨hcramped, i, hi, hmissing, hwrite⟩
    · refine ⟨⟨fun _ => ⟨hlow, hhigh⟩, fun _ => ⟨_, _, hwrite⟩⟩, fun n m' h => ?_, fun f m' h => ?_⟩
      · cases hwrite.symm.trans h
        refine ⟨rfl, ?_, fun hzero k hk a ha => Memory.readString_putString hlow hhigh hzero hk ha⟩
        rw [Memory.toList_putString (by omega), funext Word.ofByte_eq]
      · cases hwrite.symm.trans h
    · refine ⟨⟨?_, fun hfits => absurd hfits hcramped⟩, fun n m' h => ?_, fun f m' h => ?_⟩
      · rintro ⟨n, m', h⟩
        cases hwrite.symm.trans h
      · cases hwrite.symm.trans h
      · cases hwrite.symm.trans h
        exact ⟨rfl, i, hi, hmissing, rfl⟩
  · rw [← funext Word.lowByte_eq]
    rcases m.readString_cases address with ⟨hinside, hread⟩ | ⟨hinside, hzero, hread⟩ |
      ⟨hinside, hzero, hread⟩
    · simp [hread, hinside, Memory.missing]
    · simp [hread, hinside, hzero]
    · simp [hread, hinside, hzero, eq_comm]

/-- A memory with one string in it.  The byte of its only character is zero. -/
def shortMemory : Memory := ⟨#[7, 256, 0, 7, 7, 7]⟩

theorem shortMemory_is_written_whole :
    (∃ m', Memory.writeString 3 [104, 105] shortMemory = .ok 3 m' ∧
      m'.cells.toList = [7, 256, 0, 104, 105, 0] ∧ Memory.readString 4 m' = .ok [105] m') ∧
    (∃ i, Memory.writeString 4 [104, 105] shortMemory =
      .error (.outOfBounds .memory i) shortMemory) ∧
    Memory.readString 6 shortMemory = .error (.outOfBounds .memory 6) shortMemory ∧
    Memory.readString 3 shortMemory = .error (.unterminatedString 3) shortMemory ∧
    Memory.readString 1 shortMemory = .ok [0] shortMemory := by
  obtain ⟨hwrite, -, hunterminated, -⟩ := strings_are_written_whole shortMemory 3
  obtain ⟨hcramped, -⟩ := strings_are_written_whole shortMemory 4
  obtain ⟨-, houtside, -⟩ := strings_are_written_whole shortMemory 6
  obtain ⟨-, -, -, hread⟩ := strings_are_written_whole shortMemory 1
  refine ⟨?_, ?_, houtside.mpr (by decide), hunterminated.mpr (by decide), ?_⟩
  · obtain ⟨hok, hwritten, -⟩ := hwrite [104, 105]
    obtain ⟨n, m', h⟩ := hok.mpr (by decide)
    obtain ⟨rfl, hcells, hsuffix⟩ := hwritten n m' h
    exact ⟨m', h, hcells, hsuffix (by decide) 1 (by decide) 4 (by decide)⟩
  · obtain ⟨hok, -, herror⟩ := hcramped [104, 105]
    cases h : Memory.writeString 4 [104, 105] shortMemory with
    | ok n m' => exact absurd (hok.mp ⟨n, m', h⟩) (by decide)
    | error f m' =>
      obtain ⟨rfl, i, -, -, rfl⟩ := herror f m' h
      exact ⟨_, rfl⟩
  · exact (hread [0]).mpr ⟨by decide, by decide, by decide⟩

end WordMachine
