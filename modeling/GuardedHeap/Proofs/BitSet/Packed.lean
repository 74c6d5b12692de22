import GuardedHeap.BitSet
import GuardedHeap.Proofs.Block.Inside
import GuardedHeap.Proofs.Factory.Outcome

/-!
# Bits packed into bytes

Every number has one bit of its own: a byte, and a place in it. Turning the mask of a number
on, off or around changes the bit of this number and keeps the seven others of its byte. A
change of a set is therefore one of a single bit, and its question after a number reads this
bit.
-/

namespace GuardedHeap

namespace Bits

theorem toNat_byteOf (index : UInt64) : (byteOf index).toNat = index.toNat / 8 := by
  rw [byteOf, UInt64.toNat_div]
  rfl

/-- Numbers with the same byte and the same place in it are equal. -/
theorem eq_of_byteOf_eq
    {left right : UInt64}
    (sameByte : byteOf left = byteOf right)
    (samePlace : left.toNat % 8 = right.toNat % 8) :
    left = right := by
  have bytes := congrArg UInt64.toNat sameByte
  rw [toNat_byteOf, toNat_byteOf] at bytes
  apply UInt64.toNat_inj.mp
  omega

/-- The mask of a number has one bit, at the place of the number. -/
theorem testBit_maskOf (index : UInt64) (place : Nat) :
    (maskOf index).toNat.testBit place = decide (place = index.toNat % 8) := by
  have rest : (index % perByte).toUInt8.toNat = index.toNat % 8 := by
    rw [UInt64.toNat_toUInt8, UInt64.toNat_mod, show perByte.toNat = 8 from rfl]
    omega
  have below : index.toNat % 8 < 8 := Nat.mod_lt _ (by decide)
  have mask : (maskOf index).toNat = 1 <<< (index.toNat % 8) := by
    rw [maskOf, UInt8.toNat_shiftLeft, rest, Nat.mod_eq_of_lt below, Nat.shiftLeft_eq,
      Nat.shiftLeft_eq]
    apply Nat.mod_eq_of_lt
    rw [show UInt8.toNat 1 = 1 from rfl, Nat.one_mul]
    exact Nat.pow_lt_pow_right (by decide) below
  rw [mask, Nat.one_shiftLeft, Nat.testBit_two_pow]
  simp only [eq_comm]

/-- A byte has no bits beyond its eight places. -/
theorem testBit_of_not_lt
    (byte : UInt8)
    {place : Nat}
    (beyond : ¬ place < 8) :
    byte.toNat.testBit place = false := by
  rw [← UInt8.toNat_toBitVec, BitVec.testBit_toNat]
  exact BitVec.getLsbD_of_ge _ _ (Nat.le_of_not_lt beyond)

/-- A change of bytes by masks works on each bit alone, and keeps the bits that are not in
the mask. -/
structure Bitwise
    (change : UInt8 → UInt8 → UInt8)
    (combine : Bool → Bool → Bool) : Prop where
  testBit : ∀ byte mask place, (change byte mask).toNat.testBit place =
    combine (byte.toNat.testBit place) (mask.toNat.testBit place)
  keeps : ∀ bit, combine bit false = bit

theorem bitwise_set : Bitwise set or where
  testBit byte mask place := by
    rw [set, UInt8.toNat_or, Nat.testBit_or]
  keeps := Bool.or_false

theorem bitwise_toggle : Bitwise toggle xor where
  testBit byte mask place := by
    rw [toggle, UInt8.toNat_xor, Nat.testBit_xor]
  keeps := Bool.xor_false

theorem bitwise_clear : Bitwise clear fun bit mask => bit && !mask where
  testBit byte mask place := by
    rw [clear, UInt8.toNat_and, Nat.testBit_and]
    by_cases below : place < 8
    · have flipped : (~~~mask).toNat.testBit place = !mask.toNat.testBit place := by
        rw [← UInt8.toNat_toBitVec, ← UInt8.toNat_toBitVec, BitVec.testBit_toNat,
          BitVec.testBit_toNat, UInt8.toBitVec_not, BitVec.getLsbD_not]
        simp [below]
      rw [flipped]
    · rw [testBit_of_not_lt byte below, Bool.false_and, Bool.false_and]
  keeps := Bool.and_true

/-- The mask of a number is on in a byte if the bit at the place of the number is. -/
theorem allSet_maskOf (byte : UInt8) (index : UInt64) :
    allSet byte (maskOf index) = byte.toNat.testBit (index.toNat % 8) := by
  rw [Bool.eq_iff_iff, allSet, beq_iff_eq]
  constructor
  · intro same
    have bit := congrArg (fun byte => byte.toNat.testBit (index.toNat % 8)) same
    simpa [testBit_maskOf] using bit
  · intro isOn
    apply UInt8.toNat_inj.mp
    apply Nat.eq_of_testBit_eq
    intro place
    rw [UInt8.toNat_and, Nat.testBit_and, testBit_maskOf]
    by_cases here : place = index.toNat % 8
    · rw [here, isOn, Bool.true_and]
    · simp [here]

end Bits

namespace BitSet

variable {set : BitSet}

/-- A set whose block has just enough bytes for its numbers and lies in the address space. -/
structure Packed (set : BitSet) : Prop where
  positive : 0 < set.size.toNat
  raised : set.size.toNat + 7 < 0x10000000000000000
  bytes : set.root.extent.size.toNat = (set.size.toNat + 7) / 8
  bounded : set.root.extent.stop ≤ 0x10000000000000000

/-- The bit of a number in memory. -/
def isOn (set : BitSet) (memory : Memory) (index : UInt64) : Bool :=
  (memory.get (set.root.extent.address.add (Bits.byteOf index))).toNat.testBit (index.toNat % 8)

/-- A number has its bit in the block. -/
def Spans (set : BitSet) (index : UInt64) : Prop :=
  (Bits.byteOf index).toNat < set.root.extent.size.toNat

namespace Packed

theorem spans
    (packed : set.Packed)
    {index : UInt64}
    (below : index < set.size) :
    set.Spans index := by
  have := UInt64.lt_iff_toNat_lt.mp below
  rw [Spans, Bits.toNat_byteOf, packed.bytes]
  omega

theorem inside (packed : set.Packed) : set.block.Inside :=
  Block.inside_whole packed.bounded

variable {index : UInt64}

theorem getByte
    (packed : set.Packed)
    (spans : set.Spans index)
    (memory : Memory) :
    set.block.getByte (Bits.byteOf index) memory =
      .ok (memory.get (set.root.extent.address.add (Bits.byteOf index))) memory := by
  have fits : (Bits.byteOf index).toNat + (1 : UInt64).toNat ≤ set.block.size.toNat := spans
  have found := packed.inside.read fits memory
  rw [Block.getByte, Fallible.bind_of_ok found, Memory.read_eq_map]
  simp [block, Block.address, List.range_succ]
  rfl

theorem putByte
    (packed : set.Packed)
    (spans : set.Spans index)
    (value : UInt8)
    (memory : Memory) :
    ∃ after, set.block.putByte (Bits.byteOf index) value memory = .ok () after ∧
      ∀ address, after.get address =
        if address = set.root.extent.address.add (Bits.byteOf index) then value
        else memory.get address := by
  have fits : (Bits.byteOf index).toNat + [value].length ≤ set.block.size.toNat := spans
  obtain ⟨after, written, bytes⟩ := packed.inside.write fits memory
  exact ⟨after, written, fun address => congrFun bytes address⟩

end Packed

/-- Different bytes of a set lie at different addresses. -/
theorem byteOf_eq_of_address_eq
    {left right : UInt64}
    (same : set.root.extent.address.add (Bits.byteOf left) =
      set.root.extent.address.add (Bits.byteOf right)) :
    Bits.byteOf left = Bits.byteOf right := by
  have distance := congrArg (fun address => address.offsetFrom set.root.extent.address) same
  simpa using distance

variable {index : UInt64}

theorem checkIndex_of_lt
    (below : index < set.size)
    (memory : Memory) :
    set.checkIndex index memory = .ok () memory := by
  rw [checkIndex, if_neg (UInt64.not_le.mpr below)]
  rfl

theorem checkIndex_of_not_lt
    (beyond : ¬ index < set.size)
    (memory : Memory) :
    set.checkIndex index memory =
      .error (.refused (.outOfBounds index 1 set.size)) memory := by
  rw [checkIndex, if_pos (UInt64.not_lt.mp beyond)]
  rfl

theorem update_of_not_lt
    (beyond : ¬ index < set.size)
    (change : UInt8 → UInt8 → UInt8)
    (memory : Memory) :
    set.update change index memory =
      .error (.refused (.outOfBounds index 1 set.size)) memory :=
  Fallible.bind_of_error (checkIndex_of_not_lt beyond memory) _

theorem contains_of_not_lt
    (beyond : ¬ index < set.size)
    (memory : Memory) :
    set.contains index memory =
      .error (.refused (.outOfBounds index 1 set.size)) memory :=
  Fallible.bind_of_error (checkIndex_of_not_lt beyond memory) _

namespace Packed

/-- A change at a number of the set succeeds, changes the bit of this number alone, and
changes no byte outside the block. -/
theorem update
    (packed : set.Packed)
    (below : index < set.size)
    {change : UInt8 → UInt8 → UInt8}
    {combine : Bool → Bool → Bool}
    (bitwise : Bits.Bitwise change combine)
    (memory : Memory) :
    ∃ after, set.update change index memory = .ok () after ∧
      (∀ other, set.isOn after other =
        if other = index then combine (set.isOn memory index) true
        else set.isOn memory other) ∧
      ∀ address, ¬ set.root.extent.Contains address →
        after.get address = memory.get address := by
  have spans := packed.spans below
  obtain ⟨after, put, bytes⟩ := packed.putByte spans
    (change (memory.get (set.root.extent.address.add (Bits.byteOf index))) (Bits.maskOf index))
    memory
  refine ⟨after, ?succeeds, ?bits, ?outside⟩
  case succeeds =>
    rw [BitSet.update, Fallible.bind_of_ok (checkIndex_of_lt below memory),
      Fallible.bind_of_ok (packed.getByte spans memory), put]
  case bits =>
    intro other
    unfold isOn
    by_cases sameByte : Bits.byteOf other = Bits.byteOf index
    · rw [bytes, sameByte, if_pos rfl, bitwise.testBit, Bits.testBit_maskOf]
      by_cases same : other = index
      · rw [if_pos same, same, decide_eq_true rfl]
      · have otherPlace : other.toNat % 8 ≠ index.toNat % 8 :=
          fun samePlace => same (Bits.eq_of_byteOf_eq sameByte samePlace)
        rw [if_neg same, decide_eq_false otherPlace, bitwise.keeps]
    · have differs : other ≠ index := fun same => sameByte (congrArg _ same)
      rw [bytes, if_neg fun same => sameByte (byteOf_eq_of_address_eq same), if_neg differs]
  case outside =>
    intro address far
    rw [bytes]
    apply if_neg
    rintro rfl
    exact far (Extent.contains_add packed.bounded spans)

/-- The question after a number of the set is answered by its bit. -/
theorem contains
    (packed : set.Packed)
    (below : index < set.size)
    (memory : Memory) :
    set.contains index memory = .ok (set.isOn memory index) memory := by
  rw [BitSet.contains, Fallible.bind_of_ok (checkIndex_of_lt below memory),
    Fallible.bind_of_ok (packed.getByte (packed.spans below) memory), Bits.allSet_maskOf]
  rfl

theorem size_ne_zero (packed : set.Packed) : set.root.extent.size ≠ 0 := by
  intro isEmpty
  have := packed.positive
  have := packed.bytes
  rw [isEmpty, show (0 : UInt64).toNat = 0 from rfl] at this
  omega

/-- Clearing turns all bits of the block off. -/
theorem clear
    (packed : set.Packed)
    (memory : Memory) :
    ∃ after, set.clear memory = .ok () after ∧
      (∀ index, set.Spans index → set.isOn after index = false) ∧
      ∀ address, ¬ set.root.extent.Contains address →
        after.get address = memory.get address := by
  refine ⟨_, Block.fill_whole_of_nonempty packed.size_ne_zero 0 memory, ?off, ?outside⟩
  case off =>
    intro index spans
    rw [isOn, Memory.get_fill_of_near _ _ _ _ _ (Nat.le_of_lt set.root.extent.size.toNat_lt)
      (by rwa [Address.offsetFrom_add])]
    exact Nat.zero_testBit _
  case outside =>
    intro address far
    apply Memory.get_fill_of_far
    exact Nat.le_of_not_lt fun near =>
      far ((Extent.contains_iff_offset_lt packed.bounded address).mpr near)

end Packed
end BitSet
end GuardedHeap
