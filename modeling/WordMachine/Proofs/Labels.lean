/-
Programs that were built.

`Program.ofBlocks` checks labels, and adding data afterwards touches none of them, so every label
that a built program names is the index of a block (`Program.Built.names`).  As long as there are at
most `2 ^ 31` blocks the word of such a label stands for it again (`Program.resolve_toWord`) and is
never the return address of the host (`Label.toWord_ne_hostReturn`).
-/
import WordMachine.Machine.Step
import WordMachine.Proofs.Effects

namespace WordMachine

namespace Program

/-- Programs that a host can build: checked blocks, to which data is added. -/
inductive Built : Program → Prop
  | ofBlocks {entry : Label} {blocks : Array Block} {p : Program}
      (h : Program.ofBlocks entry blocks = .ok p) : Built p
  | withData {p : Program} (cells : List DataCell) (h : Built p) : Built (p.withData cells)
  | withString {p : Program} (address : Word) (bytes : Bytes) (h : Built p) :
      Built (p.withString address bytes)

/-- Blocks are accepted if every label that they name exists. -/
theorem ofBlocks_eq_ok {entry : Label} {blocks : Array Block} {p : Program} :
    ofBlocks entry blocks = .ok p ↔
      p = ⟨entry, blocks, []⟩ ∧
        ∀ l ∈ (⟨entry, blocks, []⟩ : Program).references, l.index.toNat < blocks.size := by
  rw [ofBlocks]
  cases hfind : List.find? _ (references ⟨entry, blocks, []⟩) with
  | some l =>
    have hl := List.find?_some hfind
    have hmem := List.mem_of_find?_eq_some hfind
    simp only [reduceCtorEq, false_iff, not_and]
    intro _ hall
    have hlt := hall l hmem
    simp [names] at hl
    omega
  | none =>
    rw [List.find?_eq_none] at hfind
    simp only [Except.ok.injEq, eq_comm, iff_self_and]
    intro _ l hl
    simpa [names] using hfind l hl

/-- A built program names only labels of its own blocks. -/
theorem Built.names {p : Program} (h : Built p) :
    ∀ l ∈ p.references, l.index.toNat < p.blocks.size := by
  induction h with
  | ofBlocks h =>
    obtain ⟨rfl, hl⟩ := ofBlocks_eq_ok.mp h
    exact hl
  | withData cells h ih => exact ih
  | withString address bytes h ih => exact ih

/-- The blocks of a program are accepted if it names only labels of its own blocks. -/
theorem ofBlocks_blocks_iff {p : Program} :
    Program.ofBlocks p.entry p.blocks = .ok ⟨p.entry, p.blocks, []⟩ ↔
      ∀ l ∈ p.references, l.index.toNat < p.blocks.size :=
  ofBlocks_eq_ok.trans (and_iff_right rfl)

/-- The blocks of a built program are accepted again. -/
theorem Built.ofBlocks_eq {p : Program} (h : Built p) :
    Program.ofBlocks p.entry p.blocks = .ok ⟨p.entry, p.blocks, []⟩ :=
  ofBlocks_blocks_iff.mpr h.names

theorem targets_subset {p : Program} {b : Block} (hb : b ∈ p.blocks.toList) {l : Label}
    (hl : l ∈ b.transfer.targets) : l ∈ p.references := by
  refine List.mem_cons_of_mem _ (List.mem_flatMap.mpr ⟨b, hb, ?_⟩)
  exact List.mem_append_right _ hl

theorem block_eq_ok {p : Program} {l : Label} {b : Block} :
    p.block l = .ok b ↔ p.blocks[l.index.toNat]? = some b := by
  rw [block]
  cases p.blocks[l.index.toNat]? with
  | some c => simp
  | none => simp

end Program

/-! ### Words of labels -/

theorem Label.toInt_toWord {l : Label} (h : l.index.toNat < 2147483648) :
    l.toWord.toInt = l.index.toNat := Word.toInt_toInt32 h

theorem Label.toWord_ne_hostReturn {l : Label} (h : l.index.toNat < 2147483648) :
    l.toWord ≠ Machine.hostReturn := by
  intro he
  have hint := Label.toInt_toWord h
  rw [he] at hint
  -- The word of a label this small is not negative.
  have : Machine.hostReturn.toInt = -1 := rfl
  omega

/-- The word of a label stands for the label. -/
theorem Program.resolve_toWord {p : Program} {l : Label} (hsize : p.blocks.size ≤ 2147483648)
    (hl : l.index.toNat < p.blocks.size) : p.resolve l.toWord = .ok l := by
  have hint : l.toWord.toInt = l.index.toNat := Label.toInt_toWord (by omega)
  rw [resolve, if_pos ⟨by omega, by omega⟩]
  rfl

end WordMachine
