import GuardedHeap.Proofs.Text.Groups

/-!
# Text and back

Text is turned into code units and each of these into a group of bytes, the one that is chosen
by its size. The bytes of text are as many as their groups have, and decoding takes them apart
into the same groups, so it gives the text back.
-/

namespace GuardedHeap
namespace Text

section Bytes

/-- How many bytes a code unit takes depends on how large it is. -/
inductive EncodesUnit (unit : UInt16) : Prop
  | one
      (small : unit.toNat < 0x80)
      (length : unitLength unit = 1)
      (bytes : encodeUnit unit = [UInt8.ofNat unit.toNat])
  | two
      (small : unit.toNat < 0x800)
      (length : unitLength unit = 2)
      (bytes : encodeUnit unit =
        [UInt8.ofNat (0xC0 + unit.toNat / 0x40), continuation unit.toNat])
  | three
      (length : unitLength unit = 3)
      (bytes : encodeUnit unit =
        [UInt8.ofNat (0xE0 + unit.toNat / 0x1000), continuation (unit.toNat / 0x40),
          continuation unit.toNat])

theorem encodesUnit (unit : UInt16) : EncodesUnit unit := by
  by_cases isZero : unit = 0
  · subst isZero
    exact .two (by decide) rfl rfl
  by_cases isSmall : unit < 0x80
  · have length : unitLength unit = 1 := by rw [unitLength, if_neg isZero, if_pos isSmall]
    exact .one (UInt16.lt_iff_toNat_lt.mp isSmall) length (by simp only [encodeUnit, length])
  by_cases isMiddle : unit < 0x800
  · have length : unitLength unit = 2 := by
      rw [unitLength, if_neg isZero, if_neg isSmall, if_pos isMiddle]
    exact .two (UInt16.lt_iff_toNat_lt.mp isMiddle) length (by simp only [encodeUnit, length])
  · have length : unitLength unit = 3 := by
      rw [unitLength, if_neg isZero, if_neg isSmall, if_neg isMiddle]
    exact .three length (by simp only [encodeUnit, length])

/-- The group by which a code unit is encoded. -/
def Group.ofUnit (unit : UInt16) : Group :=
  match unitLength unit with
  | 1 => .one (Fin.ofNat 0x80 unit.toNat)
  | 2 => .two (Fin.ofNat 0x20 (unit.toNat / 0x40)) (Fin.ofNat 0x40 unit.toNat)
  | _ =>
      .three (Fin.ofNat 0x10 (unit.toNat / 0x1000)) (Fin.ofNat 0x40 (unit.toNat / 0x40))
        (Fin.ofNat 0x40 unit.toNat)

@[simp] theorem Group.bytes_ofUnit (unit : UInt16) : (ofUnit unit).bytes = encodeUnit unit := by
  have := unit.toNat_lt
  cases encodesUnit unit with
  | one small length encoded =>
      rw [ofUnit, length, encoded]
      simp only [bytes, Fin.val_ofNat, Nat.mod_eq_of_lt small]
  | two small length encoded =>
      have high : unit.toNat / 0x40 < 0x20 := by omega
      rw [ofUnit, length, encoded]
      simp only [bytes, continuation, Fin.val_ofNat, Nat.mod_eq_of_lt high]
  | three length encoded =>
      have high : unit.toNat / 0x1000 < 0x10 := by omega
      rw [ofUnit, length, encoded]
      simp only [bytes, continuation, Fin.val_ofNat, Nat.mod_eq_of_lt high]

@[simp] theorem Group.unit_ofUnit (code : UInt16) : (ofUnit code).unit = code := by
  have := code.toNat_lt
  apply UInt16.toNat_inj.mp
  cases encodesUnit code with
  | one small length encoded =>
      rw [ofUnit, length]
      simp only [unit, Fin.val_ofNat, UInt16.toNat_ofNat']
      omega
  | two small length encoded =>
      rw [ofUnit, length]
      simp only [unit, Fin.val_ofNat, UInt16.toNat_ofNat']
      omega
  | three length encoded =>
      rw [ofUnit, length]
      simp only [unit, Fin.val_ofNat, UInt16.toNat_ofNat']
      omega

/-- Encoded code units are groups one behind the other. -/
theorem flatMap_encodeUnit (units : List UInt16) :
    units.flatMap encodeUnit = (units.map Group.ofUnit).flatMap Group.bytes := by
  simp [List.flatMap_map]

theorem map_unit_map_ofUnit (units : List UInt16) :
    (units.map Group.ofUnit).map Group.unit = units := by
  simp [Function.comp_def]

end Bytes

/-- A unit is encoded in one to three bytes. -/
theorem unitLength_le (unit : UInt16) : unitLength unit ≤ 3 := by
  unfold unitLength
  split
  · decide
  · split
    · decide
    · split <;> decide

theorem unitLength_le_two
    {unit : UInt16}
    (small : unit < 0x800) :
    unitLength unit ≤ 2 := by
  unfold unitLength
  split
  · decide
  · split
    · decide
    · exact Nat.le_refl 2

@[simp] theorem length_encodeUnit (unit : UInt16) :
    (encodeUnit unit).length = unitLength unit := by
  cases encodesUnit unit with
  | one small length bytes => rw [bytes, length]; rfl
  | two small length bytes => rw [bytes, length]; rfl
  | three length bytes => rw [bytes, length]; rfl

theorem length_flatMap_encodeUnit (text : List Char) :
    ((units text).flatMap encodeUnit).length = totalLength text := by
  unfold totalLength
  induction units text with
  | nil => rfl
  | cons unit units inductionHypothesis =>
      rw [List.flatMap_cons, List.length_append, length_encodeUnit, inductionHypothesis,
        List.map_cons, Word.total_cons]

/-- Text is encoded unless it is too long. -/
theorem encode_of_fits
    {text : List Char}
    (fits : totalLength text ≤ largestLength) :
    encode text = .ok ((units text).flatMap encodeUnit) := by
  rw [encode, encodedLength, if_pos fits]
  rfl

theorem encode_of_long
    {text : List Char}
    (long : largestLength < totalLength text) :
    encode text = .error (.tooLong (totalLength text)) := by
  rw [encode, encodedLength, if_neg (Nat.not_le.mpr long)]
  rfl

/-- The bytes of encoded text can be counted in sixteen bits. -/
theorem length_of_encode
    {text : List Char}
    {body : List UInt8}
    (encoded : encode text = .ok body) :
    body.length ≤ largestLength := by
  by_cases fits : totalLength text ≤ largestLength
  · rw [encode_of_fits fits] at encoded
    cases encoded
    rwa [length_flatMap_encodeUnit]
  · rw [encode_of_long (Nat.lt_of_not_le fits)] at encoded
    cases encoded

/-- Encoded text is decoded to the text. -/
theorem decode_encoded (text : List Char) :
    decode ((units text).flatMap encodeUnit) = .ok text := by
  rw [flatMap_encodeUnit, decode_eq_ok_iff]
  refine ⟨(units text).map Group.ofUnit, rfl, ?_⟩
  rw [map_unit_map_ofUnit]
  exact spells_units text

end Text
end GuardedHeap
