import GuardedHeap.Proofs.Text.Grammar
import GuardedHeap.Proofs.Text.RoundTrip

/-!
# The written form

Every code unit has one form in which it is written, and text that is not too long is written in
as many bytes as these forms have, without a zero byte, and read back.

Other forms are read too. A group is in the form that is written exactly if it is as long as
this form, and bytes are what the text that is read from them is written in exactly if all of
their groups are. Bytes without a zero byte are never shorter than what is written for them.
-/

namespace GuardedHeap
namespace Text

/-- The count of bytes in which a code unit is written: one from 1 to 0x7F, two for zero and
from 0x80 to 0x7FF, and three for all others. -/
def width (unit : UInt16) : Nat :=
  if 0x0001 ≤ unit ∧ unit ≤ 0x007F then 1
  else if unit = 0x0000 ∨ 0x0080 ≤ unit ∧ unit ≤ 0x07FF then 2
  else 3

/-- The count of bytes in which text is written. -/
def textWidth (text : List Char) : Nat :=
  Word.total ((units text).map width)

theorem unitLength_eq_width : unitLength = width := by
  funext unit
  simp only [unitLength, width, UInt16.le_iff_toNat_le, UInt16.lt_iff_toNat_lt,
    ← UInt16.toNat_inj, UInt16.reduceToNat]
  grind

theorem totalLength_eq_textWidth (text : List Char) : totalLength text = textWidth text := by
  rw [totalLength, textWidth, unitLength_eq_width]

namespace Group

/-- A group in the form in which its code unit is written. -/
def Canonical (group : Group) : Prop :=
  group.bytes.length = width group.unit

@[simp] theorem length_bytes_ofUnit (unit : UInt16) :
    (ofUnit unit).bytes.length = width unit := by
  rw [bytes_ofUnit, length_encodeUnit, unitLength_eq_width]

/-- Groups of one length have different code units. -/
theorem eq_of_unit_of_length
    {first second : Group}
    (sameUnit : first.unit = second.unit)
    (sameLength : first.bytes.length = second.bytes.length) :
    first = second := by
  cases first <;> cases second <;>
    simp only [bytes, List.length_cons, List.length_nil, Nat.reduceAdd,
      Nat.reduceEqDiff] at sameLength <;>
    simp only [unit, ← UInt16.toNat_inj, UInt16.toNat_ofNat', one.injEq, two.injEq, three.injEq,
      Fin.ext_iff] at sameUnit ⊢ <;>
    omega

/-- The written form is the one that code units are given by encoding. -/
theorem canonical_iff (group : Group) : group.Canonical ↔ ofUnit group.unit = group := by
  constructor
  · intro canonical
    apply eq_of_unit_of_length (unit_ofUnit group.unit)
    rw [length_bytes_ofUnit, canonical]
  · intro same
    rw [Canonical, ← same, length_bytes_ofUnit, unit_ofUnit]

/-- The byte zero is a group of its own. -/
theorem zero_mem_bytes_iff (group : Group) : 0 ∈ group.bytes ↔ group = .one 0 := by
  cases group <;>
    simp only [bytes, List.mem_cons, List.not_mem_nil, or_false, ← UInt8.toNat_inj,
      UInt8.toNat_ofNat', UInt8.reduceToNat, one.injEq, reduceCtorEq, iff_false,
      Fin.ext_iff, Fin.val_zero] <;>
    omega

/-- No other group is shorter than the written form of its code unit. -/
theorem width_unit_le
    {group : Group}
    (nonzero : group ≠ .one 0) :
    width group.unit ≤ group.bytes.length := by
  rw [← unitLength_eq_width]
  cases group with
  | one bits =>
      have positive : bits.val ≠ 0 := fun isZero => nonzero (congrArg one (Fin.ext isZero))
      have notZero : ¬ UInt16.ofNat bits = 0 := by
        rw [← UInt16.toNat_inj, UInt16.toNat_ofNat', UInt16.toNat_zero]
        omega
      have small : UInt16.ofNat bits < 0x80 := by
        rw [UInt16.lt_iff_toNat_lt, UInt16.toNat_ofNat']
        exact Nat.lt_of_le_of_lt (Nat.mod_le _ _) bits.isLt
      rw [unit, unitLength, if_neg notZero, if_pos small]
      exact Nat.le_refl 1
  | two high low =>
      apply unitLength_le_two
      simp only [unit, UInt16.lt_iff_toNat_lt, UInt16.toNat_ofNat', UInt16.reduceToNat]
      omega
  | three high middle low => exact unitLength_le _

/-- Only for the byte zero a second byte is written. -/
theorem width_unit_le_add_count (group : Group) :
    width group.unit ≤ group.bytes.length + group.bytes.count 0 := by
  by_cases isZero : group = .one 0
  · rw [isZero]
    decide
  · exact Nat.le_trans (width_unit_le isZero) (Nat.le_add_right _ _)

theorem zero_not_mem_ofUnit (unit : UInt16) : 0 ∉ (ofUnit unit).bytes := by
  rw [zero_mem_bytes_iff]
  intro same
  have length := length_bytes_ofUnit unit
  have isZero : (one 0).unit = unit := same ▸ unit_ofUnit unit
  rw [same, ← isZero] at length
  exact absurd length (by decide)

/-- The written forms of the code units of groups take as many bytes as the groups, and another
one for each zero byte, at most. -/
theorem total_width_le (groups : List Group) :
    Word.total ((groups.map unit).map width) ≤
      (groups.flatMap bytes).length + (groups.flatMap bytes).count 0 := by
  induction groups with
  | nil => exact Nat.le_refl 0
  | cons group groups inductionHypothesis =>
      have first := group.width_unit_le_add_count
      rw [List.map_cons, List.map_cons, Word.total_cons, List.flatMap_cons, List.length_append,
        List.count_append]
      omega

/-- Groups are what is written for their code units exactly if each is in the form in which its
own is written. -/
theorem flatMap_encodeUnit_eq_iff (groups : List Group) :
    (groups.map unit).flatMap encodeUnit = groups.flatMap bytes ↔
      ∀ group ∈ groups, group.Canonical := by
  rw [flatMap_encodeUnit, List.map_map]
  constructor
  · intro same group member
    have fixed : groups.map (ofUnit ∘ unit) = groups.map id := by
      rw [List.map_id]
      exact flatMap_bytes_injective same
    exact (canonical_iff group).mpr (List.map_inj_left.mp fixed group member)
  · intro canonical
    have fixed : groups.map (ofUnit ∘ unit) = groups.map id :=
      List.map_inj_left.mpr fun group member => (canonical_iff group).mp (canonical group member)
    rw [fixed, List.map_id]

end Group

section Encoding

variable {text : List Char}

/-- Text is written exactly if the widths of its code units add up to a count of sixteen
bits. -/
theorem exists_encode_iff : (∃ bytes, encode text = .ok bytes) ↔ textWidth text ≤ 0xFFFF := by
  rw [← totalLength_eq_textWidth]
  constructor
  · rintro ⟨bytes, written⟩
    apply Nat.le_of_not_lt
    intro long
    rw [encode_of_long long] at written
    cases written
  · exact fun fits => ⟨_, encode_of_fits fits⟩

theorem exists_encodedLength_iff :
    (∃ length, encodedLength text = .ok length) ↔ textWidth text ≤ 0xFFFF := by
  rw [← totalLength_eq_textWidth, encodedLength]
  constructor
  · rintro ⟨length, measured⟩
    split at measured
    case isTrue fits => exact fits
    case isFalse => cases measured
  · intro fits
    exact ⟨_, if_pos fits⟩

/-- What is written are the bytes of the code units. -/
theorem eq_of_encode
    {bytes : List UInt8}
    (written : encode text = .ok bytes) :
    bytes = (units text).flatMap encodeUnit := by
  have fits : totalLength text ≤ largestLength := by
    rw [totalLength_eq_textWidth]
    exact exists_encode_iff.mp ⟨bytes, written⟩
  rw [encode_of_fits fits] at written
  cases written
  rfl

theorem zero_not_mem_flatMap_encodeUnit (units : List UInt16) :
    0 ∉ units.flatMap encodeUnit := by
  simp only [List.mem_flatMap, not_exists, not_and, ← Group.bytes_ofUnit]
  exact fun unit _ => Group.zero_not_mem_ofUnit unit

end Encoding

/-- Text is written, and its length known before, exactly if the widths of its code units add up
to a count of sixteen bits. As many bytes are written, none of them is zero, and the text is
read back from them. -/
theorem encoding_round_trips (text : List Char) :
    ((∃ length, encodedLength text = .ok length) ↔ textWidth text ≤ 0xFFFF) ∧
    ((∃ bytes, encode text = .ok bytes) ↔ textWidth text ≤ 0xFFFF) ∧
    ∀ bytes, encode text = .ok bytes →
      encodedLength text = .ok (textWidth text) ∧
      bytes.length = textWidth text ∧
      0 ∉ bytes ∧
      decode bytes = .ok text := by
  refine ⟨exists_encodedLength_iff, exists_encode_iff, fun bytes written => ?_⟩
  have fits : totalLength text ≤ largestLength := by
    rw [totalLength_eq_textWidth]
    exact exists_encode_iff.mp ⟨bytes, written⟩
  rw [eq_of_encode written]
  refine ⟨?_, ?_, zero_not_mem_flatMap_encodeUnit _, decode_encoded text⟩
  · rw [encodedLength, if_pos fits, totalLength_eq_textWidth]
  · rw [length_flatMap_encodeUnit, totalLength_eq_textWidth]

/-- A text with a code unit of each width, zero and a pair of surrogates included. -/
theorem encoding_round_trips_of_mixed_text :
    encode ['a', Char.ofNat 0, 'é', '€', '😀'] =
        .ok [0x61, 0xC0, 0x80, 0xC3, 0xA9, 0xE2, 0x82, 0xAC, 0xED, 0xA0, 0xBD, 0xED, 0xB8, 0x80] ∧
      decode [0x61, 0xC0, 0x80, 0xC3, 0xA9, 0xE2, 0x82, 0xAC, 0xED, 0xA0, 0xBD, 0xED, 0xB8, 0x80] =
        .ok ['a', Char.ofNat 0, 'é', '€', '😀'] := by
  have written : encode ['a', Char.ofNat 0, 'é', '€', '😀'] =
      .ok [0x61, 0xC0, 0x80, 0xC3, 0xA9, 0xE2, 0x82, 0xAC, 0xED, 0xA0, 0xBD, 0xED, 0xB8, 0x80] :=
    rfl
  obtain ⟨-, -, trip⟩ := encoding_round_trips ['a', Char.ofNat 0, 'é', '€', '😀']
  exact ⟨written, (trip _ written).2.2.2⟩

/-- What becomes of text that was read from bytes when it is written. It is written in the same
bytes exactly if the groups of these are in the form that is written, and otherwise in other
bytes, not more than those and another one for each zero byte. -/
structure WrittenBack (bytes : List UInt8) (text : List Char) : Prop where
  same : encode text = .ok bytes ↔
    ∃ groups, Splits bytes groups ∧ ∀ group ∈ groups, group.Canonical
  fits : bytes.length + bytes.count 0 ≤ 0xFFFF →
    ∃ written, encode text = .ok written ∧ written.length ≤ bytes.length + bytes.count 0

/-- Text that was read from a counted string is written in the same bytes only if each group was
in the form that is written. -/
theorem written_back
    {bytes : List UInt8}
    {text : List Char}
    (short : bytes.length ≤ 0xFFFF)
    (decoded : decode bytes = .ok text) :
    WrittenBack bytes text := by
  obtain ⟨groups, split, spells⟩ := (decode_eq_ok_iff bytes text).mp decoded
  have canonical := Group.flatMap_encodeUnit_eq_iff groups
  have bounded := Group.total_width_le groups
  rw [split, spells.eq_units] at canonical bounded
  constructor
  case same =>
    constructor
    · intro written
      exact ⟨groups, split, canonical.mp (eq_of_encode written).symm⟩
    · rintro ⟨others, splits, allCanonical⟩
      rw [Group.flatMap_bytes_injective (splits.trans split.symm)] at allCanonical
      have bytesOfUnits := canonical.mpr allCanonical
      rw [← bytesOfUnits, length_flatMap_encodeUnit] at short
      rw [encode_of_fits short, bytesOfUnits]
  case fits =>
    intro room
    obtain ⟨written, answer⟩ := exists_encode_iff.mpr (Nat.le_trans bounded room)
    refine ⟨written, answer, ?_⟩
    rw [eq_of_encode answer, length_flatMap_encodeUnit, totalLength_eq_textWidth]
    exact bounded

/-- A letter that was read from two bytes is written in one. -/
theorem written_back_of_long_letter :
    decode [0xC1, 0x81] = .ok ['A'] ∧ WrittenBack [0xC1, 0x81] ['A'] ∧
      encode ['A'] = .ok [0x41] :=
  ⟨rfl, written_back (by decide) rfl, rfl⟩

/-- A zero byte is read, and two bytes are written for what was read. -/
theorem decode_zero_byte :
    decode [0x00] = .ok [Char.ofNat 0] ∧ encode [Char.ofNat 0] = .ok [0xC0, 0x80] ∧
      ¬ encode [Char.ofNat 0] = .ok [0x00] :=
  ⟨rfl, rfl, by rintro ⟨⟩⟩

end Text
end GuardedHeap
