/-
Images that are cut off.

A decoder takes bytes from the front, and all that it decides it decides by bytes that it has taken.
So what it reads does not depend on what follows, and if its bytes end early it does as before until
it finds no byte where there was one.

* `Decoder.Reads` says that a decoder takes some bytes for a value: it leaves what follows them, and
  if they are cut off they are too short;
* `Decoder.Incremental` says that a decoder that succeeds does so in this way.  The decoder of a
  byte is of this kind (`incremental_byte`) and so is a sequence of two such decoders
  (`Incremental.bind`), which is all that the others are made of;
* `cut_images_are_too_short`: so an image is too short up to its last byte, and what comes after
  that byte does not matter.
-/
import WordMachine.Proofs.ImageFormat

namespace WordMachine.Image

namespace Decoder

variable {α β : Type}

/-- A decoder takes some bytes for a value, whatever follows them, and finds them too short if they
are cut off. -/
structure Reads (d : Decoder α) (taken : Bytes) (a : α) : Prop where
  whole : ∀ rest, d (taken ++ rest) = .ok a rest
  cut : ∀ n < taken.length, ∃ left, d (taken.take n) = .error .imageTooShort left

/-- A decoder that succeeds does so by the bytes that it takes. -/
def Incremental (d : Decoder α) : Prop :=
  ∀ bytes a rest, d bytes = .ok a rest → ∃ taken, bytes = taken ++ rest ∧ Reads d taken a

/-! ### Sequences -/

theorem Reads.bind {x : Decoder α} {f : α → Decoder β} {taken taken' : Bytes} {a : α} {b : β}
    (hx : Reads x taken a) (hf : Reads (f a) taken' b) : Reads (x >>= f) (taken ++ taken') b where
  whole rest := by rw [List.append_assoc, Action.bind_of_ok (hx.whole _), hf.whole]
  cut n hn := by
    -- The cut is in the bytes of the first decoder or in those of the second.
    by_cases hlt : n < taken.length
    · obtain ⟨left, hleft⟩ := hx.cut n hlt
      rw [List.take_append_of_le_length (Nat.le_of_lt hlt)]
      exact ⟨left, Action.bind_of_error hleft⟩
    · rw [List.length_append] at hn
      obtain ⟨left, hleft⟩ := hf.cut (n - taken.length) (by omega)
      rw [List.take_append, List.take_of_length_le (Nat.le_of_not_lt hlt)]
      exact ⟨left, (Action.bind_of_ok (hx.whole _)).trans hleft⟩

theorem Incremental.bind {x : Decoder α} {f : α → Decoder β} (hx : Incremental x)
    (hf : ∀ a, Incremental (f a)) : Incremental (x >>= f) := by
  intro bytes b rest h
  obtain ⟨a, _, ha, hb⟩ := Action.bind_eq_ok.mp h
  obtain ⟨taken, rfl, hreads⟩ := hx _ _ _ ha
  obtain ⟨taken', rfl, hreads'⟩ := hf a _ _ _ hb
  exact ⟨taken ++ taken', (List.append_assoc ..).symm, hreads.bind hreads'⟩

theorem incremental_pure (a : α) : Incremental (pure a) := by
  intro bytes b rest h
  obtain ⟨rfl, rfl⟩ := Action.pure_eq_ok.mp h
  exact ⟨[], rfl, fun _ => rfl, fun n hn => absurd hn (Nat.not_lt_zero n)⟩

theorem incremental_fail (f : Fault) : Incremental (Action.fail f : Decoder α) := by
  intro bytes a rest h
  cases h

theorem incremental_ofExcept (x : Except Fault α) : Incremental (Action.ofExcept x) := by
  cases x with
  | ok a => exact incremental_pure a
  | error f => exact incremental_fail f

theorem incremental_byte : Incremental byte := by
  intro bytes b rest h
  refine ⟨[b], byte_eq_ok.mp h, fun _ => rfl, fun n hn => ?_⟩
  obtain rfl : n = 0 := Nat.lt_one_iff.mp hn
  exact ⟨[], rfl⟩

/-! ### Parts of an image -/

theorem incremental_number16 : Incremental number16 :=
  incremental_byte.bind fun _ => incremental_byte.bind fun _ => incremental_pure _

theorem incremental_number32 : Incremental number32 :=
  incremental_byte.bind fun _ => incremental_byte.bind fun _ => incremental_byte.bind fun _ =>
    incremental_byte.bind fun _ => incremental_pure _

theorem incremental_word : Incremental word := incremental_number32.bind fun _ => incremental_pure _

theorem incremental_register : Incremental register :=
  incremental_number16.bind fun _ => incremental_pure _

theorem incremental_label : Incremental label :=
  incremental_number32.bind fun _ => incremental_pure _

theorem incremental_tagged (kind : TagKind) (ofTag? : UInt8 → Option α) :
    Incremental (tagged kind ofTag?) := by
  refine incremental_byte.bind fun tag => ?_
  cases ofTag? tag with
  | some a => exact incremental_pure a
  | none => exact incremental_fail _

/-- A choice between two decoders by a byte that is zero or one. -/
theorem incremental_choice {x y : Decoder α} (kind : TagKind) (hx : Incremental x)
    (hy : Incremental y) :
    Incremental (byte >>= fun tag =>
      if tag = 0x00 then x else if tag = 0x01 then y else Action.fail (.badTag kind tag)) := by
  refine incremental_byte.bind fun tag => ?_
  split
  · exact hx
  · split
    · exact hy
    · exact incremental_fail _

theorem incremental_operand : Incremental operand :=
  incremental_choice .operand (incremental_word.bind fun _ => incremental_pure _)
    (incremental_register.bind fun _ => incremental_pure _)

theorem incremental_callee : Incremental callee :=
  incremental_choice .callee (incremental_label.bind fun _ => incremental_pure _)
    ((incremental_tagged _ _).bind fun _ => incremental_pure _)

theorem incremental_returnValue : Incremental returnValue :=
  incremental_choice .returnValue (incremental_pure _)
    (incremental_register.bind fun _ => incremental_pure _)

theorem incremental_instruction : Incremental instruction := by
  have hregister : ∀ {f : Register → Instruction},
      Incremental (register >>= fun r => pure (f r)) :=
    incremental_register.bind fun _ => incremental_pure _
  refine incremental_byte.bind fun tag => ?_
  cases Opcode.ofTag? tag with
  | none => exact incremental_fail _
  | some o =>
    cases o with
    | constant =>
      exact incremental_register.bind fun _ => incremental_word.bind fun _ => incremental_pure _
    | copy => exact incremental_register.bind fun _ => hregister
    | label =>
      exact incremental_register.bind fun _ => incremental_label.bind fun _ => incremental_pure _
    | load =>
      exact incremental_register.bind fun _ => incremental_operand.bind fun _ => incremental_pure _
    | store => exact incremental_operand.bind fun _ => hregister
    | loadFrame =>
      exact incremental_register.bind fun _ => incremental_word.bind fun _ => incremental_pure _
    | storeFrame => exact incremental_word.bind fun _ => hregister
    | push => exact hregister
    | pop => exact hregister
    | binary =>
      refine (incremental_tagged _ _).bind fun _ => incremental_register.bind fun _ => ?_
      exact incremental_register.bind fun _ => hregister
    | unary =>
      exact (incremental_tagged _ _).bind fun _ => incremental_register.bind fun _ => hregister
    | status => exact hregister
    | _ => exact incremental_fail _

theorem incremental_transfer : Incremental transfer := by
  have hlabel : ∀ {f : Label → Transfer}, Incremental (label >>= fun l => pure (f l)) :=
    incremental_label.bind fun _ => incremental_pure _
  refine incremental_byte.bind fun tag => ?_
  cases Opcode.ofTag? tag with
  | none => exact incremental_fail _
  | some o =>
    cases o with
    | jump => exact hlabel
    | branch => exact incremental_register.bind fun _ => incremental_label.bind fun _ => hlabel
    | jumpRegister => exact incremental_register.bind fun _ => incremental_pure _
    | call => exact incremental_callee.bind fun _ => incremental_register.bind fun _ => hlabel
    | ret => exact incremental_returnValue.bind fun _ => incremental_pure _
    | halt => exact incremental_pure _
    | _ => exact incremental_fail _

theorem incremental_items {item : Decoder α} (h : Incremental item) (n : Nat) :
    Incremental (items item n) := by
  induction n with
  | zero => exact incremental_pure _
  | succ n ih => exact h.bind fun _ => ih.bind fun _ => incremental_pure _

theorem incremental_counted {item : Decoder α} (h : Incremental item) :
    Incremental (counted item) := incremental_number32.bind fun _ => incremental_items h _

theorem incremental_dataCell : Incremental dataCell :=
  incremental_word.bind fun _ => incremental_word.bind fun _ => incremental_pure _

theorem incremental_block : Incremental block :=
  (incremental_counted incremental_instruction).bind fun _ =>
    incremental_transfer.bind fun _ => incremental_pure _

theorem incremental_signature : Incremental signature := by
  refine incremental_byte.bind fun _ => incremental_byte.bind fun _ => ?_
  refine incremental_byte.bind fun _ => incremental_byte.bind fun _ => ?_
  split
  · refine incremental_byte.bind fun _ => ?_
    split
    · exact incremental_pure _
    · exact incremental_fail _
  · exact incremental_fail _

theorem incremental_image : Incremental image := by
  refine incremental_signature.bind fun _ => incremental_byte.bind fun _ => ?_
  refine incremental_number16.bind fun _ => incremental_label.bind fun _ => ?_
  refine (incremental_counted incremental_dataCell).bind fun _ => ?_
  refine (incremental_counted incremental_block).bind fun _ => ?_
  exact (incremental_ofExcept _).bind fun _ => incremental_pure _

end Decoder

/-! ### Whole images -/

/-- The bytes that are taken for an image are those that are written for it. -/
theorem reads_wire {bytes : Bytes} {image : Image} (h : decode bytes = .ok image) :
    ∃ mask reserved rest, bytes = wire mask reserved image.program ++ rest ∧
      Decoder.Reads Decoder.image (wire mask reserved image.program) image := by
  obtain ⟨p, declared⟩ := image
  obtain ⟨hprogram, hcount, mask, reserved, rest, hdeclared, rfl⟩ := decode_eq_ok.mp h
  have himage : Decoder.image (wire mask reserved p ++ rest) = .ok ⟨p, declared⟩ rest :=
    image_eq_ok.mpr ⟨hprogram, hcount, mask, reserved, hdeclared, rfl⟩
  obtain ⟨taken, htaken, hreads⟩ := Decoder.incremental_image _ _ _ himage
  obtain rfl : wire mask reserved p = taken := List.append_cancel_right htaken
  exact ⟨mask, reserved, rest, rfl, hreads⟩

theorem decode_of_reads {taken : Bytes} {image : Image}
    (h : Decoder.Reads Decoder.image taken image) (hlength : headerLength ≤ taken.length)
    (rest : Bytes) : decode (taken ++ rest) = .ok image := by
  have hheader : ¬ (taken ++ rest).length < headerLength := by
    rw [List.length_append]
    omega
  rw [decode, if_neg hheader, h.whole]

/-- Whether the header is cut or what comes after it, the fault is the same. -/
theorem decode_cut_of_reads {taken : Bytes} {image : Image}
    (h : Decoder.Reads Decoder.image taken image) {n : Nat} (hn : n < taken.length) :
    decode (taken.take n) = .error .imageTooShort := by
  obtain ⟨left, hleft⟩ := h.cut n hn
  rw [decode]
  split
  · rfl
  · rw [hleft]

/-- **Images that are cut off are too short, and what follows an image does not matter.**  If bytes
are read as an image, its length is that of what is written for the program.  Any fewer of the bytes
are too short, whichever part of the image the cut goes through; as many or more are read as the
same image. -/
theorem cut_images_are_too_short {bytes : Bytes} {image : Image} (h : decode bytes = .ok image) :
    (encode image.program).length ≤ bytes.length ∧
    (∀ n < (encode image.program).length, decode (bytes.take n) = .error .imageTooShort) ∧
    ∀ n, (encode image.program).length ≤ n → decode (bytes.take n) = .ok image := by
  obtain ⟨mask, reserved, rest, rfl, hreads⟩ := reads_wire h
  have hlength : (encode image.program).length = (wire mask reserved image.program).length := by
    rw [encode_eq, length_wire, length_wire]
  have hbody := length_body image.program
  have hwire := length_wire mask reserved image.program
  rw [hlength]
  refine ⟨?_, fun n hn => ?_, fun n hn => ?_⟩
  · rw [List.length_append]
    omega
  · rw [List.take_append_of_le_length (Nat.le_of_lt hn)]
    exact decode_cut_of_reads hreads hn
  · rw [List.take_append, List.take_of_length_le hn]
    refine decode_of_reads hreads ?_ _
    rw [headerLength]
    omega

/-- A cut between the opcode of a call and its operands, and one after the end of the image. -/
theorem greeting_is_cut :
    decode ((encode greeting ++ [1, 2, 3]).take 56) = .error .imageTooShort ∧
      decode ((encode greeting ++ [1, 2, 3]).take 70) = .ok ⟨greeting, .outputOnly⟩ := by
  have hread : decode (encode greeting ++ [1, 2, 3]) = .ok ⟨greeting, .outputOnly⟩ :=
    decode_eq_ok.mpr ⟨built_greeting.ofBlocks_eq, countable_greeting, _, 0, [1, 2, 3], rfl,
      by rw [encode_eq]⟩
  obtain ⟨-, hcut, hwhole⟩ := cut_images_are_too_short hread
  exact ⟨hcut 56 (by decide +kernel), hwhole 70 (by decide +kernel)⟩

end WordMachine.Image
