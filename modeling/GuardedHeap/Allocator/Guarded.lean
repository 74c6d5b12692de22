import GuardedHeap.Allocator.Basic
import GuardedHeap.Guard

/-!
# Guarded allocators

A guarded layer asks the allocator below for some more bytes, surrounds every
block by guard words, and looks at them before it moves or ends the block. It
counts live blocks and their bytes. When the allocator below refuses a call,
the guard words are put back.
-/

namespace GuardedHeap
namespace Guarded

open Allocator (requirePositive releaseOwned)

/-- The region size for a block size; one that is no word is out of all
resources. -/
def regionSize (size : UInt64) : HeapM UInt64 :=
  match Guard.regionSize? size with
  | none => Fallible.refuse (.outOfResources size)
  | some regionSize => pure regionSize

/-- The region around a block; there is none before the address space. -/
def regionOf (block : Address) : HeapM Address :=
  match Guard.regionOf? block with
  | none => Fallible.refuse (.unknownAddress block)
  | some region => pure region

/-- Put the guard words around a block. -/
def storeGuards (region : Address) (size : UInt64) : HeapM Unit := do
  let footer ← Fallible.exactly (Guard.footerOf? region size)
  HeapM.onMemory (modify fun memory => Guard.store memory region footer size)

/-- Overwrite the guard words of a block that ends. -/
def clearGuards (region : Address) (size : UInt64) : HeapM Unit := do
  let footer ← Fallible.exactly (Guard.footerOf? region size)
  HeapM.onMemory (modify fun memory => Guard.clear memory region footer)

/-- The size of a block whose guard words are intact. -/
def fetchSize (region : Address) : HeapM UInt64 :=
  HeapM.onMemory (Fallible.inspect fun memory => Guard.fetch memory region)

/-- Take an amount off a counter, which stops at zero with a warning. -/
def decrease (counter : Counter) (previous amount : UInt64) : HeapM UInt64 := do
  if previous < amount then
    HeapM.tell (.counterUnderflow counter previous amount)
  pure (Word.saturatingSub previous amount)

/-- Count a new block. -/
def countAllocation (layer : Nat) (size : UInt64) : HeapM Unit := do
  let tally ← HeapM.tallyOf layer
  HeapM.setTally layer ⟨tally.blocks + 1, tally.bytes + size⟩

/-- Count the bytes that a block gained or lost. -/
def countReallocation (layer : Nat) (size newSize : UInt64) : HeapM Unit := do
  let tally ← HeapM.tallyOf layer
  if size ≤ newSize then
    HeapM.setTally layer { tally with bytes := tally.bytes + (newSize - size) }
  else
    let bytes ← decrease .bytes tally.bytes (size - newSize)
    HeapM.setTally layer { tally with bytes }

/-- Count a block that ended. -/
def countFree (layer : Nat) (size : UInt64) : HeapM Unit := do
  let tally ← HeapM.tallyOf layer
  let bytes ← decrease .bytes tally.bytes size
  let blocks ← decrease .blocks tally.blocks 1
  HeapM.setTally layer ⟨blocks, bytes⟩

/-- Hand out a block between guard words. -/
def allocate (layer : Nat) (inner : Allocator) (size : UInt64) : HeapM Address := do
  requirePositive size
  let region ← inner.allocate (← regionSize size)
  storeGuards region size
  countAllocation layer size
  let block := Guard.blockOf region
  HeapM.tell (.guardedAllocated ⟨block, size⟩)
  pure block

/-- Move a block whose guard words are intact. -/
def reallocate
    (layer : Nat)
    (inner : Allocator)
    (block : Address)
    (newSize : UInt64) :
    HeapM Address := do
  requirePositive newSize
  let newRegionSize ← regionSize newSize
  let region ← regionOf block
  let size ← fetchSize region
  clearGuards region size
  match ← Fallible.attempt (inner.reallocate region newRegionSize) with
  | .error error =>
      storeGuards region size
      Fallible.refuse error
  | .ok newRegion =>
      storeGuards newRegion newSize
      countReallocation layer size newSize
      let newBlock := Guard.blockOf newRegion
      HeapM.tell (.guardedReallocated ⟨block, size⟩ ⟨newBlock, newSize⟩)
      pure newBlock

/-- End a block whose guard words are intact. -/
def free (layer : Nat) (inner : Allocator) (block : Address) : HeapM Unit := do
  let region ← regionOf block
  let size ← fetchSize region
  clearGuards region size
  match ← Fallible.attempt (inner.free region) with
  | .error error =>
      storeGuards region size
      Fallible.refuse error
  | .ok () =>
      countFree layer size
      HeapM.tell (.guardedFreed ⟨block, size⟩)

/-- Release the allocator below, if it is owned, and report live blocks. A leak
of this layer comes before whatever the allocator below reports. -/
def release (layer : Nat) (owns : Bool) (inner : Allocator) : HeapM Unit := do
  let below ← releaseOwned owns inner
  let tally ← HeapM.tallyOf layer
  if tally.blocks = 0 then
    Fallible.ofCheck below
  else
    HeapM.tell (.guardedLeak tally.blocks.toNat tally.bytes.toNat)
    Fallible.refuse (.leakDetected tally.blocks.toNat tally.bytes.toNat)

/-- Forget all blocks. -/
def reset (layer : Nat) : HeapM Unit :=
  HeapM.setTally layer {}

end Guarded

namespace Allocator

/-- The allocator that surrounds the blocks of another one by guard words. -/
def guarded (layer : Nat) (owns : Bool) (inner : Allocator) : Allocator where
  allocate := Guarded.allocate layer inner
  reallocate := Guarded.reallocate layer inner
  free := Guarded.free layer inner
  release := Guarded.release layer owns inner

end Allocator
end GuardedHeap
