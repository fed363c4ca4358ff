/-
Images are read exactly as they are written.

For each part of an image there is a function that writes it and a decoder that reads it.  The
lemma of a part says both that what was written is read back and that nothing else is read: the
decoder succeeds with a value on the bytes that are written for this value, whatever follows them,
and on no other (`Decoder.number32_eq_ok`, `Decoder.instruction_eq_ok` and so on).

* `Program.Countable`: the lists of a program are short enough for their lengths to be written;
* `Image.wire`: the bytes of an image, with any capability mask and any reserved bytes;
* `decode_eq_ok`: a program is read from its bytes, whatever follows, and from nothing else;
* `decode_encode` and `decode_accepts_encoded`: reading undoes writing, and the images that are read
  are those that are written, up to the mask and the reserved bytes.
-/
import WordMachine.Image.Decode
import WordMachine.Proofs.Effects
import WordMachine.Proofs.Labels

namespace WordMachine

/-- The lists of a program are short enough for their lengths to be 32-bit numbers. -/
structure Program.Countable (p : Program) : Prop where
  data : p.data.length < UInt32.size
  blocks : p.blocks.size < UInt32.size
  instructions : ∀ b ∈ p.blocks.toList, b.instructions.length < UInt32.size

namespace Image

namespace Decoder

open WordMachine.Action (bind_eq_ok pure_eq_ok)

/-! ### Numbers -/

theorem byte_eq_ok {bytes rest : Bytes} {b : UInt8} :
    byte bytes = .ok b rest ↔ bytes = b :: rest := by
  cases bytes with
  | nil => simp [byte]
  | cons c bytes => simp [byte]

/-- A byte, from a number of which it is the last. -/
theorem ofNat_eq_of_mod {n : Nat} {b : UInt8} (h : n % 256 = b.toNat) : UInt8.ofNat n = b := by
  apply UInt8.toNat_inj.mp
  rw [UInt8.toNat_ofNat']
  exact h

theorem number16_eq_ok {bytes rest : Bytes} {n : UInt16} :
    number16 bytes = .ok n rest ↔ bytes = bytes16 n ++ rest := by
  constructor
  · intro h
    obtain ⟨a, _, ha, h⟩ := bind_eq_ok.mp h
    obtain ⟨b, _, hb, h⟩ := bind_eq_ok.mp h
    obtain rfl := byte_eq_ok.mp ha
    obtain rfl := byte_eq_ok.mp hb
    obtain ⟨rfl, rfl⟩ := pure_eq_ok.mp h
    have ha := a.toNat_lt
    have hb := b.toNat_lt
    have hn : (UInt16.ofNat (a.toNat * 256 + b.toNat)).toNat = a.toNat * 256 + b.toNat := by
      rw [UInt16.toNat_ofNat']
      omega
    rw [bytes16, hn, ofNat_eq_of_mod (b := a) (by omega), ofNat_eq_of_mod (b := b) (by omega)]
    rfl
  · rintro rfl
    exact number16_bytes16 n rest

theorem number32_eq_ok {bytes rest : Bytes} {n : UInt32} :
    number32 bytes = .ok n rest ↔ bytes = bytes32 n ++ rest := by
  constructor
  · intro h
    obtain ⟨a, _, ha, h⟩ := bind_eq_ok.mp h
    obtain ⟨b, _, hb, h⟩ := bind_eq_ok.mp h
    obtain ⟨c, _, hc, h⟩ := bind_eq_ok.mp h
    obtain ⟨d, _, hd, h⟩ := bind_eq_ok.mp h
    obtain rfl := byte_eq_ok.mp ha
    obtain rfl := byte_eq_ok.mp hb
    obtain rfl := byte_eq_ok.mp hc
    obtain rfl := byte_eq_ok.mp hd
    obtain ⟨rfl, rfl⟩ := pure_eq_ok.mp h
    have ha := a.toNat_lt
    have hb := b.toNat_lt
    have hc := c.toNat_lt
    have hd := d.toNat_lt
    have hn : (UInt32.ofNat (a.toNat * 16777216 + b.toNat * 65536 + c.toNat * 256 +
        d.toNat)).toNat = a.toNat * 16777216 + b.toNat * 65536 + c.toNat * 256 + d.toNat := by
      rw [UInt32.toNat_ofNat']
      omega
    rw [bytes32, hn, ofNat_eq_of_mod (b := a) (by omega), ofNat_eq_of_mod (b := b) (by omega),
      ofNat_eq_of_mod (b := c) (by omega), ofNat_eq_of_mod (b := d) (by omega)]
    rfl
  · rintro rfl
    exact number32_bytes32 n rest

/-- A value that stands for what a decoder reads, one for one. -/
theorem renamed_eq_ok {α β : Type} {d : Decoder α} {write : α → Bytes} {f : α → β} {g : β → α}
    (hd : ∀ {bytes rest a}, d bytes = .ok a rest ↔ bytes = write a ++ rest)
    (hfg : ∀ b, f (g b) = b) (hgf : ∀ a, g (f a) = a) {bytes rest : Bytes} {b : β} :
    (d >>= fun a => pure (f a)) bytes = .ok b rest ↔ bytes = write (g b) ++ rest := by
  rw [bind_eq_ok]
  constructor
  · rintro ⟨a, _, ha, h⟩
    obtain ⟨rfl, rfl⟩ := pure_eq_ok.mp h
    rw [hgf]
    exact hd.mp ha
  · rintro rfl
    exact ⟨g b, rest, hd.mpr rfl, pure_eq_ok.mpr ⟨hfg b, rfl⟩⟩

theorem word_eq_ok {bytes rest : Bytes} {w : Word} :
    word bytes = .ok w rest ↔ bytes = wordBytes w ++ rest :=
  renamed_eq_ok number32_eq_ok (fun _ => rfl) fun _ => rfl

theorem register_eq_ok {bytes rest : Bytes} {r : Register} :
    register bytes = .ok r rest ↔ bytes = registerBytes r ++ rest :=
  renamed_eq_ok number16_eq_ok (fun _ => rfl) fun _ => rfl

theorem label_eq_ok {bytes rest : Bytes} {l : Label} :
    label bytes = .ok l rest ↔ bytes = labelBytes l ++ rest :=
  renamed_eq_ok number32_eq_ok (fun _ => rfl) fun _ => rfl

/-! ### Tags -/

theorem tagged_eq_ok {α : Type} {kind : TagKind} {ofTag? : UInt8 → Option α} {tag : α → UInt8}
    (htag : ∀ a, ofTag? (tag a) = some a) (hof : ∀ {b a}, ofTag? b = some a → tag a = b)
    {bytes rest : Bytes} {a : α} :
    tagged kind ofTag? bytes = .ok a rest ↔ bytes = tag a :: rest := by
  rw [tagged, bind_eq_ok]
  constructor
  · rintro ⟨b, _, hb, h⟩
    obtain rfl := byte_eq_ok.mp hb
    cases hfind : ofTag? b with
    | some c =>
      rw [hfind] at h
      obtain ⟨rfl, rfl⟩ := pure_eq_ok.mp h
      rw [hof hfind]
    | none =>
      rw [hfind] at h
      cases h
  · rintro rfl
    refine ⟨tag a, rest, byte_eq_ok.mpr rfl, ?_⟩
    rw [htag]
    rfl

theorem binaryOp_eq_ok {bytes rest : Bytes} {op : BinaryOp} :
    tagged .binaryOp BinaryOp.ofTag? bytes = .ok op rest ↔ bytes = op.tag :: rest :=
  tagged_eq_ok BinaryOp.ofTag?_tag BinaryOp.tag_eq_of_ofTag?

theorem unaryOp_eq_ok {bytes rest : Bytes} {op : UnaryOp} :
    tagged .unaryOp UnaryOp.ofTag? bytes = .ok op rest ↔ bytes = op.tag :: rest :=
  tagged_eq_ok UnaryOp.ofTag?_tag UnaryOp.tag_eq_of_ofTag?

theorem intrinsic_eq_ok {bytes rest : Bytes} {i : Intrinsic} :
    tagged .intrinsic Intrinsic.ofId? bytes = .ok i rest ↔ bytes = i.id :: rest :=
  tagged_eq_ok Intrinsic.ofId?_id Intrinsic.id_eq_of_ofId?

/-- A choice between two decoders by a byte that is zero or one. -/
theorem choice_eq_ok {α : Type} {x y : Decoder α} {kind : TagKind} {bytes rest : Bytes} {a : α} :
    (byte >>= fun tag =>
      if tag = 0x00 then x else if tag = 0x01 then y else Action.fail (.badTag kind tag)) bytes =
        .ok a rest ↔
      ∃ more, bytes = 0x00 :: more ∧ x more = .ok a rest ∨
        bytes = 0x01 :: more ∧ y more = .ok a rest := by
  rw [bind_eq_ok]
  constructor
  · rintro ⟨tag, more, htag, h⟩
    obtain rfl := byte_eq_ok.mp htag
    refine ⟨more, ?_⟩
    split at h
    · exact .inl ⟨by simp [*], h⟩
    · split at h
      · exact .inr ⟨by simp [*], h⟩
      · cases h
  · rintro ⟨more, ⟨rfl, h⟩ | ⟨rfl, h⟩⟩
    · exact ⟨0, more, rfl, h⟩
    · exact ⟨1, more, rfl, h⟩

theorem operand_eq_ok {bytes rest : Bytes} {o : Operand} :
    operand bytes = .ok o rest ↔ bytes = operandBytes o ++ rest := by
  rw [operand, choice_eq_ok]
  simp only [bind_eq_ok, word_eq_ok, register_eq_ok, pure_eq_ok]
  constructor
  · rintro ⟨_, ⟨rfl, a, _, rfl, rfl, rfl⟩ | ⟨rfl, r, _, rfl, rfl, rfl⟩⟩
    · rfl
    · rfl
  · rintro rfl
    cases o with
    | absolute a => exact ⟨_, .inl ⟨rfl, a, rest, rfl, rfl, rfl⟩⟩
    | indirect r => exact ⟨_, .inr ⟨rfl, r, rest, rfl, rfl, rfl⟩⟩

theorem callee_eq_ok {bytes rest : Bytes} {c : Callee} :
    callee bytes = .ok c rest ↔ bytes = calleeBytes c ++ rest := by
  rw [callee, choice_eq_ok]
  simp only [bind_eq_ok, label_eq_ok, intrinsic_eq_ok, pure_eq_ok]
  constructor
  · rintro ⟨_, ⟨rfl, l, _, rfl, rfl, rfl⟩ | ⟨rfl, i, _, rfl, rfl, rfl⟩⟩
    · rfl
    · rfl
  · rintro rfl
    cases c with
    | routine l => exact ⟨_, .inl ⟨rfl, l, rest, rfl, rfl, rfl⟩⟩
    | intrinsic i => exact ⟨_, .inr ⟨rfl, i, rest, rfl, rfl, rfl⟩⟩

theorem returnValue_eq_ok {bytes rest : Bytes} {value : Option Register} :
    returnValue bytes = .ok value rest ↔ bytes = returnBytes value ++ rest := by
  rw [returnValue, choice_eq_ok]
  simp only [bind_eq_ok, register_eq_ok, pure_eq_ok]
  constructor
  · rintro ⟨_, ⟨rfl, rfl, rfl⟩ | ⟨rfl, r, _, rfl, rfl, rfl⟩⟩
    · rfl
    · rfl
  · rintro rfl
    cases value with
    | none => exact ⟨_, .inl ⟨rfl, rfl, rfl⟩⟩
    | some r => exact ⟨_, .inr ⟨rfl, r, rest, rfl, rfl, rfl⟩⟩

/-! ### Instructions and transfers -/

/-- An instruction is read from its opcode and its fields. -/
theorem instruction_eq_ok {bytes rest : Bytes} {i : Instruction} :
    instruction bytes = .ok i rest ↔ bytes = instructionBytes i ++ rest := by
  rw [instruction, bind_eq_ok]
  constructor
  · rintro ⟨tag, more, htag, h⟩
    obtain rfl := byte_eq_ok.mp htag
    -- It is enough that the opcode is that of the instruction and the fields are its fields.
    suffices hmore : ∃ o, Opcode.ofTag? tag = some o ∧ o = i.opcode ∧
        more = instructionFields i ++ rest by
      obtain ⟨o, hop, rfl, rfl⟩ := hmore
      rw [instructionBytes, Opcode.tag_eq_of_ofTag? hop]
      rfl
    cases hop : Opcode.ofTag? tag with
    | none =>
      rw [hop] at h
      cases h
    | some o =>
      rw [hop] at h
      refine ⟨o, rfl, ?_⟩
      cases o <;>
        simp only [bind_eq_ok, pure_eq_ok, register_eq_ok, word_eq_ok, label_eq_ok, operand_eq_ok,
          binaryOp_eq_ok, unaryOp_eq_ok, Action.fail_apply, reduceCtorEq] at h
      case constant =>
        obtain ⟨dst, _, rfl, value, _, rfl, rfl, rfl⟩ := h
        exact ⟨rfl, (List.append_assoc ..).symm⟩
      case copy =>
        obtain ⟨dst, _, rfl, src, _, rfl, rfl, rfl⟩ := h
        exact ⟨rfl, (List.append_assoc ..).symm⟩
      case label =>
        obtain ⟨dst, _, rfl, l, _, rfl, rfl, rfl⟩ := h
        exact ⟨rfl, (List.append_assoc ..).symm⟩
      case load =>
        obtain ⟨dst, _, rfl, address, _, rfl, rfl, rfl⟩ := h
        exact ⟨rfl, (List.append_assoc ..).symm⟩
      case store =>
        obtain ⟨address, _, rfl, src, _, rfl, rfl, rfl⟩ := h
        exact ⟨rfl, (List.append_assoc ..).symm⟩
      case loadFrame =>
        obtain ⟨dst, _, rfl, offset, _, rfl, rfl, rfl⟩ := h
        exact ⟨rfl, (List.append_assoc ..).symm⟩
      case storeFrame =>
        obtain ⟨offset, _, rfl, src, _, rfl, rfl, rfl⟩ := h
        exact ⟨rfl, (List.append_assoc ..).symm⟩
      case push =>
        obtain ⟨src, _, rfl, rfl, rfl⟩ := h
        exact ⟨rfl, rfl⟩
      case pop =>
        obtain ⟨dst, _, rfl, rfl, rfl⟩ := h
        exact ⟨rfl, rfl⟩
      case binary =>
        obtain ⟨op, _, rfl, dst, _, rfl, lhs, _, rfl, rhs, _, rfl, rfl, rfl⟩ := h
        exact ⟨rfl, by simp [instructionFields]⟩
      case unary =>
        obtain ⟨op, _, rfl, dst, _, rfl, src, _, rfl, rfl, rfl⟩ := h
        exact ⟨rfl, by simp [instructionFields]⟩
      case status =>
        obtain ⟨dst, _, rfl, rfl, rfl⟩ := h
        exact ⟨rfl, rfl⟩
  · rintro rfl
    refine ⟨i.opcode.tag, instructionFields i ++ rest, byte_eq_ok.mpr rfl, ?_⟩
    rw [Opcode.ofTag?_tag]
    cases i <;>
      simp only [Instruction.opcode, instructionFields, List.append_assoc, List.cons_append,
        bind_eq_ok, pure_eq_ok, register_eq_ok, word_eq_ok, label_eq_ok, operand_eq_ok,
        binaryOp_eq_ok, unaryOp_eq_ok]
    case binary op dst lhs rhs =>
      exact ⟨op, _, rfl, dst, _, rfl, lhs, _, rfl, rhs, _, rfl, rfl, rfl⟩
    case unary op dst src => exact ⟨op, _, rfl, dst, _, rfl, src, _, rfl, rfl, rfl⟩
    case push src => exact ⟨src, _, rfl, rfl, rfl⟩
    case pop dst => exact ⟨dst, _, rfl, rfl, rfl⟩
    case status dst => exact ⟨dst, _, rfl, rfl, rfl⟩
    all_goals exact ⟨_, _, rfl, _, _, rfl, rfl, rfl⟩

/-- A transfer is read from its opcode and its fields. -/
theorem transfer_eq_ok {bytes rest : Bytes} {t : Transfer} :
    transfer bytes = .ok t rest ↔ bytes = transferBytes t ++ rest := by
  rw [transfer, bind_eq_ok]
  constructor
  · rintro ⟨tag, more, htag, h⟩
    obtain rfl := byte_eq_ok.mp htag
    suffices hmore : ∃ o, Opcode.ofTag? tag = some o ∧ o = t.opcode ∧
        more = transferFields t ++ rest by
      obtain ⟨o, hop, rfl, rfl⟩ := hmore
      rw [transferBytes, Opcode.tag_eq_of_ofTag? hop]
      rfl
    cases hop : Opcode.ofTag? tag with
    | none =>
      rw [hop] at h
      cases h
    | some o =>
      rw [hop] at h
      refine ⟨o, rfl, ?_⟩
      cases o <;>
        simp only [bind_eq_ok, pure_eq_ok, register_eq_ok, label_eq_ok, callee_eq_ok,
          returnValue_eq_ok, Action.fail_apply, reduceCtorEq] at h
      case jump =>
        obtain ⟨target, _, rfl, rfl, rfl⟩ := h
        exact ⟨rfl, rfl⟩
      case branch =>
        obtain ⟨condition, _, rfl, ifZero, _, rfl, otherwise, _, rfl, rfl, rfl⟩ := h
        exact ⟨rfl, by simp [transferFields]⟩
      case jumpRegister =>
        obtain ⟨r, _, rfl, rfl, rfl⟩ := h
        exact ⟨rfl, rfl⟩
      case call =>
        obtain ⟨callee, _, rfl, argument, _, rfl, resume, _, rfl, rfl, rfl⟩ := h
        exact ⟨rfl, by simp [transferFields]⟩
      case ret =>
        obtain ⟨value, _, rfl, rfl, rfl⟩ := h
        exact ⟨rfl, rfl⟩
      case halt =>
        obtain ⟨rfl, rfl⟩ := h
        exact ⟨rfl, rfl⟩
  · rintro rfl
    refine ⟨t.opcode.tag, transferFields t ++ rest, byte_eq_ok.mpr rfl, ?_⟩
    rw [Opcode.ofTag?_tag]
    cases t <;>
      simp only [Transfer.opcode, transferFields, List.append_assoc, bind_eq_ok, pure_eq_ok,
        register_eq_ok, label_eq_ok, callee_eq_ok, returnValue_eq_ok]
    case jump target => exact ⟨target, _, rfl, rfl, rfl⟩
    case branch condition ifZero otherwise =>
      exact ⟨condition, _, rfl, ifZero, _, rfl, otherwise, _, rfl, rfl, rfl⟩
    case jumpRegister r => exact ⟨r, _, rfl, rfl, rfl⟩
    case call callee argument resume =>
      exact ⟨callee, _, rfl, argument, _, rfl, resume, _, rfl, rfl, rfl⟩
    case ret value => exact ⟨value, _, rfl, rfl, rfl⟩
    case halt => exact ⟨trivial, List.nil_append rest⟩

/-! ### Lists -/

section Lists

variable {α : Type} {item : Decoder α} {write : α → Bytes} {Good : α → Prop}

theorem items_eq_ok
    (hitem : ∀ {bytes rest a}, item bytes = .ok a rest ↔ Good a ∧ bytes = write a ++ rest)
    {n : Nat} {bytes rest : Bytes} {l : List α} :
    items item n bytes = .ok l rest ↔
      l.length = n ∧ (∀ a ∈ l, Good a) ∧ bytes = l.flatMap write ++ rest := by
  induction n generalizing bytes l with
  | zero =>
    rw [items, pure_eq_ok, List.length_eq_zero_iff]
    constructor
    · rintro ⟨rfl, rfl⟩
      exact ⟨rfl, by rintro _ ⟨⟩, rfl⟩
    · rintro ⟨rfl, -, rfl⟩
      exact ⟨rfl, rfl⟩
  | succ n ih =>
    rw [items, bind_eq_ok]
    constructor
    · rintro ⟨a, _, ha, h⟩
      obtain ⟨hgood, rfl⟩ := hitem.mp ha
      obtain ⟨more, _, hmore, h⟩ := bind_eq_ok.mp h
      obtain ⟨rfl, rfl⟩ := pure_eq_ok.mp h
      obtain ⟨hlength, hall, rfl⟩ := ih.mp hmore
      refine ⟨congrArg (· + 1) hlength, List.forall_mem_cons.mpr ⟨hgood, hall⟩, ?_⟩
      rw [List.flatMap_cons, List.append_assoc]
    · rintro ⟨hlength, hall, rfl⟩
      cases l with
      | nil => cases hlength
      | cons a more =>
        obtain ⟨hgood, hall⟩ := List.forall_mem_cons.mp hall
        refine ⟨a, more.flatMap write ++ rest, hitem.mpr ⟨hgood, ?_⟩, ?_⟩
        · rw [List.flatMap_cons, List.append_assoc]
        · exact bind_eq_ok.mpr ⟨more, rest, ih.mpr ⟨Nat.succ.inj hlength, hall, rfl⟩, rfl⟩

/-- A list is read with its length, which must be a 32-bit number. -/
theorem counted_eq_ok
    (hitem : ∀ {bytes rest a}, item bytes = .ok a rest ↔ Good a ∧ bytes = write a ++ rest)
    {bytes rest : Bytes} {l : List α} :
    counted item bytes = .ok l rest ↔
      (l.length < UInt32.size ∧ ∀ a ∈ l, Good a) ∧
        bytes = countBytes l.length ++ l.flatMap write ++ rest := by
  rw [counted, bind_eq_ok]
  constructor
  · rintro ⟨n, _, hn, h⟩
    obtain rfl := number32_eq_ok.mp hn
    obtain ⟨hlength, hall, rfl⟩ := (items_eq_ok hitem).mp h
    refine ⟨⟨hlength ▸ n.toNat_lt, hall⟩, ?_⟩
    rw [countBytes, hlength, UInt32.ofNat_toNat, List.append_assoc]
  · rintro ⟨⟨hlength, hall⟩, rfl⟩
    refine ⟨UInt32.ofNat l.length, l.flatMap write ++ rest, number32_eq_ok.mpr ?_, ?_⟩
    · rw [countBytes, List.append_assoc]
    · refine (items_eq_ok hitem).mpr ⟨?_, hall, rfl⟩
      exact (UInt32.toNat_ofNat_of_lt hlength).symm

end Lists

theorem dataCell_eq_ok {bytes rest : Bytes} {c : DataCell} :
    dataCell bytes = .ok c rest ↔ True ∧ bytes = dataBytes c ++ rest := by
  rw [dataCell, true_and]
  simp only [bind_eq_ok, word_eq_ok, pure_eq_ok]
  constructor
  · rintro ⟨address, _, rfl, value, _, rfl, rfl, rfl⟩
    exact (List.append_assoc ..).symm
  · rintro rfl
    exact ⟨c.address, _, List.append_assoc .., c.value, rest, rfl, rfl, rfl⟩

theorem block_eq_ok {bytes rest : Bytes} {b : Block} :
    block bytes = .ok b rest ↔
      b.instructions.length < UInt32.size ∧ bytes = blockBytes b ++ rest := by
  have hinstruction : ∀ {bytes rest : Bytes} {i : Instruction},
      instruction bytes = .ok i rest ↔ True ∧ bytes = instructionBytes i ++ rest := by
    intro bytes rest i
    rw [instruction_eq_ok, true_and]
  rw [block]
  simp only [bind_eq_ok, counted_eq_ok hinstruction, transfer_eq_ok, pure_eq_ok]
  constructor
  · rintro ⟨is, _, ⟨⟨hlength, -⟩, rfl⟩, t, _, rfl, rfl, rfl⟩
    exact ⟨hlength, (List.append_assoc ..).symm⟩
  · rintro ⟨hlength, rfl⟩
    refine ⟨b.instructions, _, ⟨⟨hlength, fun _ _ => trivial⟩, ?_⟩, b.transfer, rest, rfl, rfl, rfl⟩
    exact List.append_assoc ..

theorem signature_eq_ok {bytes rest : Bytes} {u : Unit} :
    signature bytes = .ok u rest ↔ bytes = magic ++ version :: rest := by
  rw [signature]
  simp only [bind_eq_ok, byte_eq_ok]
  constructor
  · rintro ⟨a, _, rfl, b, _, rfl, c, _, rfl, d, more, rfl, h⟩
    split at h
    · rename_i hmagic
      obtain ⟨v, _, hv, hrest⟩ := bind_eq_ok.mp h
      obtain rfl := byte_eq_ok.mp hv
      split at hrest
      · rename_i hversion
        obtain ⟨-, rfl⟩ := pure_eq_ok.mp hrest
        rw [← hmagic, ← hversion]
        rfl
      · cases hrest
    · cases h
  · rintro rfl
    exact ⟨_, _, rfl, _, _, rfl, _, _, rfl, _, _, rfl, rfl⟩

end Decoder

/-! ### Whole images -/

/-- The part of an image that says what the program is. -/
def body (p : Program) : Bytes :=
  labelBytes p.entry ++ (countBytes p.data.length ++ p.data.flatMap dataBytes) ++
    (countBytes p.blocks.size ++ p.blocks.toList.flatMap blockBytes)

/-- An image with some capability mask and some reserved bytes. -/
def wire (mask : UInt8) (reserved : UInt16) (p : Program) : Bytes :=
  magic ++ [version, mask] ++ bytes16 reserved ++ body p

theorem encode_eq (p : Program) : encode p = wire p.required.mask 0 p := by
  simp [encode, wire, body, bytes16]

/-- A program is read from its bytes, and from no others. -/
theorem image_eq_ok {bytes rest : Bytes} {p : Program} {declared : CapabilitySet} :
    Decoder.image bytes = .ok ⟨p, declared⟩ rest ↔
      Program.ofBlocks p.entry p.blocks = .ok ⟨p.entry, p.blocks, []⟩ ∧ p.Countable ∧
        ∃ mask reserved, declared = CapabilitySet.ofMask mask ∧
          bytes = wire mask reserved p ++ rest := by
  rw [Decoder.image]
  simp only [Action.bind_eq_ok, Action.pure_eq_ok, Action.ofExcept_eq_ok, Decoder.signature_eq_ok,
    Decoder.byte_eq_ok, Decoder.number16_eq_ok, Decoder.label_eq_ok,
    Decoder.counted_eq_ok Decoder.dataCell_eq_ok, Decoder.counted_eq_ok Decoder.block_eq_ok]
  constructor
  · rintro ⟨_, _, rfl, mask, _, rfl, reserved, _, rfl, entry, _, rfl, data, _, ⟨⟨hdata, -⟩, rfl⟩,
      blocks, _, ⟨⟨hblocks, hinstructions⟩, rfl⟩, program, _, ⟨hprogram, rfl⟩, himage, rfl⟩
    obtain ⟨rfl, -⟩ := Program.ofBlocks_eq_ok.mp hprogram
    cases himage
    refine ⟨hprogram, ⟨hdata, ?_, hinstructions⟩, mask, reserved, rfl, ?_⟩
    · exact hblocks
    · simp [wire, body, Program.withData]
  · rintro ⟨hprogram, hcount, mask, reserved, rfl, rfl⟩
    -- The same bytes, bracketed in the order in which they are read.
    have hparts : wire mask reserved p ++ rest = magic ++ version :: mask :: (bytes16 reserved ++
        (labelBytes p.entry ++ (countBytes p.data.length ++ p.data.flatMap dataBytes ++
          (countBytes p.blocks.toList.length ++ p.blocks.toList.flatMap blockBytes ++ rest)))) := by
      simp [wire, body]
    refine ⟨(), _, hparts, mask, _, rfl, reserved, _, rfl, p.entry, _, rfl, p.data, _,
      ⟨⟨hcount.data, fun _ _ => trivial⟩, rfl⟩, p.blocks.toList, _,
      ⟨⟨hcount.blocks, hcount.instructions⟩, rfl⟩, _, _, ⟨hprogram, rfl⟩, rfl, rfl⟩

theorem length_wire (mask : UInt8) (reserved : UInt16) (p : Program) :
    (wire mask reserved p).length = 8 + (body p).length := by
  simp [wire, magic, bytes16]
  omega

theorem length_body (p : Program) : 12 ≤ (body p).length := by
  simp [body, labelBytes, countBytes, bytes32]
  omega

/-- **An image is read if it starts with the bytes of a program**, with any mask and any reserved
bytes in its header, and then this program is what is read. -/
theorem decode_eq_ok {bytes : Bytes} {p : Program} {declared : CapabilitySet} :
    decode bytes = .ok ⟨p, declared⟩ ↔
      Program.ofBlocks p.entry p.blocks = .ok ⟨p.entry, p.blocks, []⟩ ∧ p.Countable ∧
        ∃ mask reserved rest, declared = CapabilitySet.ofMask mask ∧
          bytes = wire mask reserved p ++ rest := by
  rw [decode]
  constructor
  · intro h
    split at h
    · cases h
    · split at h
      · rename_i image rest himage
        cases h
        obtain ⟨hprogram, hcount, mask, reserved, hdeclared, hbytes⟩ := image_eq_ok.mp himage
        exact ⟨hprogram, hcount, mask, reserved, rest, hdeclared, hbytes⟩
      · cases h
  · rintro ⟨hprogram, hcount, mask, reserved, rest, hdeclared, rfl⟩
    -- The check of the header length never refuses an image: the header is part of it.
    have hlength : ¬ (wire mask reserved p ++ rest).length < headerLength := by
      have hbody := length_body p
      rw [List.length_append, length_wire, headerLength]
      omega
    rw [if_neg hlength, image_eq_ok.mpr ⟨hprogram, hcount, mask, reserved, hdeclared, rfl⟩]

/-- A program that prints a string from its data. -/
def greeting : Program :=
  (⟨⟨0⟩, #[⟨[.constant ⟨1⟩ 40], .call (.intrinsic .printString) ⟨1⟩ ⟨1⟩⟩, ⟨[], .halt⟩], []⟩ :
    Program).withString 40 [72, 105]

theorem built_greeting : greeting.Built :=
  .withString 40 [72, 105] (.ofBlocks (Program.ofBlocks_eq_ok.mpr ⟨rfl, by decide⟩))

theorem countable_greeting : greeting.Countable := ⟨by decide, by decide, by decide⟩

/-- **Reading undoes writing**, whatever follows the image. -/
theorem decode_encode {p : Program} (hp : p.Built) (hcount : p.Countable) (rest : Bytes) :
    decode (encode p ++ rest) = .ok ⟨p, p.required⟩ := by
  refine decode_eq_ok.mpr ⟨hp.ofBlocks_eq, hcount, p.required.mask, 0, rest, ?_, ?_⟩
  · exact (CapabilitySet.ofMask_mask p.required).symm
  · rw [encode_eq]

theorem decode_encode_greeting :
    decode (encode greeting ++ [1, 2, 3]) = .ok ⟨greeting, .outputOnly⟩ :=
  decode_encode built_greeting countable_greeting [1, 2, 3]

/-! ### Which bytes matter -/

/-- The positions of the bytes that an image may hold anything at: the capability mask and the two
reserved bytes. -/
def freePositions : List Nat := [5, 6, 7]

/-- Apart from the free positions the mask and the reserved bytes are not seen. -/
theorem getElem?_wire {mask mask' : UInt8} {reserved reserved' : UInt16} {p : Program} {i : Nat}
    (hi : i ∉ freePositions) : (wire mask reserved p)[i]? = (wire mask' reserved' p)[i]? := by
  match i, hi with
  | 0, _ => rfl
  | 1, _ => rfl
  | 2, _ => rfl
  | 3, _ => rfl
  | 4, _ => rfl
  | 5, hi => exact absurd (by decide) hi
  | 6, hi => exact absurd (by decide) hi
  | 7, hi => exact absurd (by decide) hi
  | n + 8, _ => rfl

/-- Bytes that agree with an image outside the free positions are an image of the same program. -/
theorem eq_wire_append {bytes : Bytes} {p : Program} {mask : UInt8} {reserved : UInt16} {m : UInt8}
    (hlength : (wire mask reserved p).length ≤ bytes.length) (hm : bytes[5]? = some m)
    (hsame : ∀ i < (wire mask reserved p).length, i ∉ freePositions →
      bytes[i]? = (wire mask reserved p)[i]?) :
    ∃ reserved' rest, bytes = wire m reserved' p ++ rest := by
  rw [length_wire] at hlength hsame
  obtain ⟨high, hhigh⟩ : ∃ b, bytes[6]? = some b := ⟨_, List.getElem?_eq_getElem (by omega)⟩
  obtain ⟨low, hlow⟩ : ∃ b, bytes[7]? = some b := ⟨_, List.getElem?_eq_getElem (by omega)⟩
  -- every two bytes are the bytes of a number
  obtain ⟨n, hn⟩ : ∃ n, Decoder.number16 [high, low] = .ok n [] := ⟨_, rfl⟩
  have hwire' : wire m n p = magic ++ [version, m] ++ [high, low] ++ body p := by
    rw [Decoder.number16_eq_ok.mp hn, List.append_nil, wire]
  refine ⟨n, bytes.drop (8 + (body p).length), ?_⟩
  have hwire : (wire m n p).length = 8 + (body p).length := length_wire m n p
  refine List.ext_getElem? fun i => ?_
  -- Byte by byte: the free positions hold what the bytes hold, the others what the image holds.
  by_cases hi : i < 8 + (body p).length
  · rw [List.getElem?_append_left (by omega)]
    by_cases hfree : i ∈ freePositions
    · rw [hwire']
      simp only [freePositions, List.mem_cons, List.not_mem_nil, or_false] at hfree
      rcases hfree with rfl | rfl | rfl
      · exact hm
      · exact hhigh
      · exact hlow
    · rw [hsame i hi hfree, getElem?_wire hfree]
  · rw [List.getElem?_append_right (by omega), List.getElem?_drop, hwire]
    congr 1
    omega

/-- What an image holds where it matters. -/
theorem of_wire_append {bytes rest : Bytes} {p : Program} {mask : UInt8} {reserved : UInt16}
    (h : bytes = wire mask reserved p ++ rest) :
    (encode p).length ≤ bytes.length ∧ bytes[5]? = some mask ∧
      ∀ i < (encode p).length, i ∉ freePositions → bytes[i]? = (encode p)[i]? := by
  subst h
  rw [encode_eq, List.length_append, length_wire, length_wire]
  refine ⟨by omega, rfl, fun i hi hfree => ?_⟩
  rw [List.getElem?_append_left (by rwa [length_wire]), getElem?_wire hfree]

/-- **The images that are read are those that are written.**  Bytes are read as a program if and
only if every label that it names, as its entry, in an instruction or in a transfer, is that of one
of its blocks, its lists can be counted, and the bytes start with its image, except perhaps for the
capability mask, which is what they declare, and the reserved bytes.  So two images of one program
differ in those three bytes only, and after its end. -/
theorem decode_accepts_encoded (bytes : Bytes) (p : Program) (declared : CapabilitySet) :
    (decode bytes = .ok ⟨p, declared⟩ ↔
      (∀ l ∈ p.references, l.index.toNat < p.blocks.size) ∧ p.Countable ∧
        (encode p).length ≤ bytes.length ∧
        (∀ i < (encode p).length, i ∉ freePositions → bytes[i]? = (encode p)[i]?) ∧
        bytes[5]?.map CapabilitySet.ofMask = some declared) ∧
    ∀ other declared', decode bytes = .ok ⟨p, declared⟩ → decode other = .ok ⟨p, declared'⟩ →
      ∀ i < (encode p).length, i ∉ freePositions → bytes[i]? = other[i]? := by
  constructor
  · rw [decode_eq_ok, Program.ofBlocks_blocks_iff]
    constructor
    · rintro ⟨hprogram, hcount, mask, reserved, rest, rfl, hbytes⟩
      obtain ⟨hlength, hmask, hsame⟩ := of_wire_append hbytes
      refine ⟨hprogram, hcount, hlength, hsame, ?_⟩
      rw [hmask, Option.map_some]
    · rintro ⟨hprogram, hcount, hlength, hsame, hdeclared⟩
      obtain ⟨m, hm, rfl⟩ := Option.map_eq_some_iff.mp hdeclared
      rw [encode_eq] at hlength hsame
      obtain ⟨reserved, rest, hbytes⟩ := eq_wire_append hlength hm hsame
      exact ⟨hprogram, hcount, m, reserved, rest, rfl, hbytes⟩
  · intro other declared' h h' i hi hfree
    obtain ⟨-, -, mask, reserved, rest, -, hbytes⟩ := decode_eq_ok.mp h
    obtain ⟨-, -, mask', reserved', rest', -, hother⟩ := decode_eq_ok.mp h'
    rw [(of_wire_append hbytes).2.2 i hi hfree, (of_wire_append hother).2.2 i hi hfree]

/-- Another mask, other reserved bytes and something after the end make no difference to the
program. -/
theorem decode_greeting_marked :
    decode ((((encode greeting).set 5 6).set 7 9) ++ [1]) = .ok ⟨greeting, ⟨false, true, true⟩⟩ ∧
    ∀ i < (encode greeting).length, i ∉ freePositions →
      ((((encode greeting).set 5 6).set 7 9) ++ [1])[i]? = (encode greeting)[i]? := by
  have hmarked := (decode_accepts_encoded ((((encode greeting).set 5 6).set 7 9) ++ [1]) greeting
    ⟨false, true, true⟩).1.mpr
      ⟨built_greeting.names, countable_greeting, by decide, by decide +kernel, by decide⟩
  have hplain := (decode_accepts_encoded (encode greeting) greeting .outputOnly).1.mpr
    ⟨built_greeting.names, countable_greeting, by decide, fun _ _ _ => rfl, by decide⟩
  exact ⟨hmarked, (decode_accepts_encoded _ _ _).2 _ _ hmarked hplain⟩

end Image

end WordMachine
