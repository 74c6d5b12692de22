import GuardedHeap.Bits
import GuardedHeap.Factory

/-!
# Bit sets

A set of the numbers below a size, kept as bits in a block of its own. The bits
of the last byte that stand for no number stay off.
-/

namespace GuardedHeap

/-- A set of the numbers below a size. -/
structure BitSet where
  root : Root
  size : UInt64
  deriving Inhabited

namespace BitSet

/-- Make an empty set of the numbers below a size. -/
def create (factory : Factory) (size : UInt64) : HeapM BitSet := do
  if size = 0 then
    Fallible.refuse (.invalidArgument "bit set size must be greater than 0")
  match Bits.bytesFor? size with
  | none => Fallible.refuse (.invalidArgument s!"bit set size {size} is too large")
  | some bytes =>
      let root ← factory.allocate bytes
      match ← Fallible.attempt (HeapM.onMemory ((Block.whole root).fill 0)) with
      | .error error =>
          factory.free root
          Fallible.refuse error
      | .ok () =>
          HeapM.tell (.bitSetOpened size root.extent)
          pure ⟨root, size⟩

/-- The block that holds the bits. -/
def block (set : BitSet) : Block :=
  .whole set.root

/-- Refuse numbers that are not below the size. -/
def checkIndex (set : BitSet) (index : UInt64) : MemoryM Unit :=
  if set.size ≤ index then Fallible.refuse (.outOfBounds index 1 set.size) else pure ()

/-- Change the byte of a number by an operation with the number's mask. -/
def update (set : BitSet) (change : UInt8 → UInt8 → UInt8) (index : UInt64) :
    MemoryM Unit := do
  set.checkIndex index
  let byte ← set.block.getByte (Bits.byteOf index)
  set.block.putByte (Bits.byteOf index) (change byte (Bits.maskOf index))

/-- Put a number into the set. -/
def insert (set : BitSet) (index : UInt64) : MemoryM Unit :=
  set.update Bits.set index

/-- Put a number into the set if it is not there, and take it out if it is. -/
def toggle (set : BitSet) (index : UInt64) : MemoryM Unit :=
  set.update Bits.toggle index

/-- Take a number out of the set. -/
def erase (set : BitSet) (index : UInt64) : MemoryM Unit :=
  set.update Bits.clear index

/-- Whether a number is in the set. -/
def contains (set : BitSet) (index : UInt64) : MemoryM Bool := do
  set.checkIndex index
  let byte ← set.block.getByte (Bits.byteOf index)
  pure (Bits.allSet byte (Bits.maskOf index))

/-- Take all numbers out of the set. -/
def clear (set : BitSet) : MemoryM Unit :=
  set.block.fill 0

/-- The count of numbers in the set. -/
def count (set : BitSet) : MemoryM Nat := do
  let bytes ← set.block.read 0 set.block.size
  pure (Word.total (bytes.map Bits.count))

/-- Give the block of a set back. -/
def close (set : BitSet) (factory : Factory) : HeapM Unit := do
  HeapM.tell (.bitSetClosing set.size set.root.extent)
  factory.free set.root

end BitSet
end GuardedHeap
