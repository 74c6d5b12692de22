import GuardedHeap.Word

/-!
# Bits and byte counts

Single bits and runs of bits as numbers, for words of any width, and the
arithmetic of bit arrays that are packed eight to a byte. A bit or a run that
does not fit in the width has no value.
-/

namespace GuardedHeap
namespace Bits

/-- The number whose only bit is the one at `position` of a word of `width`
bits. -/
def single? (width position : Nat) : Option Nat :=
  if position < width then some (1 <<< position) else none

/-- The number whose bits are those from `first` up to but not including `last`
in a word of `width` bits. -/
def run? (width first last : Nat) : Option Nat :=
  if first ≤ last ∧ last ≤ width then some (1 <<< last - 1 <<< first) else none

/-- The number of bits in a byte. -/
def perByte : UInt64 := 8

/-- The byte of a packed bit array that holds the bit at `index`. -/
def byteOf (index : UInt64) : UInt64 :=
  index / perByte

/-- The place of the bit at `index` inside its byte, as a byte with that one
bit. -/
def maskOf (index : UInt64) : UInt8 :=
  1 <<< (index % perByte).toUInt8

/-- The count of bytes that hold `bits` bits, if rounding up stays a word. -/
def bytesFor? (bits : UInt64) : Option UInt64 :=
  (Word.add? bits (perByte - 1)).map fun raised => raised / perByte

/-- Turn on the bits of a mask. -/
def set (byte mask : UInt8) : UInt8 := byte ||| mask

/-- Turn off the bits of a mask. -/
def clear (byte mask : UInt8) : UInt8 := byte &&& ~~~mask

/-- Reverse the bits of a mask. -/
def toggle (byte mask : UInt8) : UInt8 := byte ^^^ mask

/-- Whether all bits of a mask are on. -/
def allSet (byte mask : UInt8) : Bool := byte &&& mask == mask

/-- The number of bits of a byte that are on. -/
def count (byte : UInt8) : Nat :=
  ((List.range 8).filter fun position => byte.toNat.testBit position).length

@[simp] theorem allSet_set (byte mask : UInt8) : allSet (set byte mask) mask = true := by
  simp only [allSet, set, beq_iff_eq]
  apply UInt8.toBitVec_inj.mp
  simp only [UInt8.toBitVec_and, UInt8.toBitVec_or]
  ext position bound
  simp only [BitVec.getElem_and, BitVec.getElem_or]
  cases byte.toBitVec[position] <;> cases mask.toBitVec[position] <;> rfl

@[simp] theorem toggle_toggle (byte mask : UInt8) : toggle (toggle byte mask) mask = byte := by
  unfold toggle
  rw [UInt8.xor_assoc, UInt8.xor_self, UInt8.xor_zero]

end Bits

namespace ByteCount

/-- The named multiples of a byte, each the thousand and twenty-four fold of
the one before it, from the kilobyte to the exabyte. -/
def multiples : List UInt64 :=
  (List.range 6).map fun step => UInt64.ofNat (1 <<< (10 * (step + 1)))

/-- A kilobyte. -/
def kilo : UInt64 := 1024

/-- A megabyte. -/
def mega : UInt64 := 1024 * kilo

/-- The width of a byte. -/
def byte : UInt64 := 1

/-- The width of an integer of sixteen bits. -/
def short : UInt64 := 2

/-- The width of a code unit of text. -/
def codeUnit : UInt64 := 2

/-- The width of an integer of thirty-two bits. -/
def int : UInt64 := 4

/-- The width of an integer of sixty-four bits. -/
def long : UInt64 := 8

/-- The width of a floating-point number of single precision. -/
def float : UInt64 := 4

/-- The width of a floating-point number of double precision. -/
def double : UInt64 := 8

end ByteCount
end GuardedHeap
