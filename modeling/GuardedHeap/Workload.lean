import GuardedHeap.Bits
import GuardedHeap.Factory

/-!
# Workloads

Runs that take and end many blocks and should leave nothing behind, and the
sizes that they use.
-/

namespace GuardedHeap
namespace Workload

/-- Sizes from small to large for tests of single blocks. -/
def sampleSizes : List UInt64 :=
  [256, 512, 16 * ByteCount.kilo, ByteCount.mega]

/-- The base sizes of a mix. -/
def sizeClasses : List UInt64 :=
  [16, 64, 256, 4 * ByteCount.kilo, 64 * ByteCount.kilo]

/-- The size at a place of a mix: the base sizes take turns, and a small odd
amount that changes more slowly is added. -/
def mixedSize (place : Nat) : UInt64 :=
  (sizeClasses[place % 5]?).getD 0 + UInt64.ofNat (place % 7 * 2 + 1)

/-- The sizes of a mix. -/
def sizeMix (count : Nat) : List UInt64 :=
  (List.range count).map mixedSize

/-- Take blocks of all sizes; a refusal leaves the blocks before it. -/
def takeAll (allocator : Allocator) : List UInt64 → HeapM (List Address)
  | [] => pure []
  | size :: sizes => do
      let address ← allocator.allocate size
      let addresses ← takeAll allocator sizes
      pure (address :: addresses)

/-- Give blocks back in order. -/
def freeAll (allocator : Allocator) : List Address → HeapM Unit
  | [] => pure ()
  | address :: addresses => do
      allocator.free address
      freeAll allocator addresses

/-- Take blocks of all sizes and give them back, the last one first. The answer
is the sum of the sizes. -/
def churn (allocator : Allocator) (sizes : List UInt64) : HeapM UInt64 := do
  let addresses ← takeAll allocator sizes
  freeAll allocator addresses.reverse
  Fallible.exactly (Word.sum? sizes)

/-- Make roots of all sizes and clear them. -/
def makeAll (factory : Factory) : List UInt64 → HeapM (List Root)
  | [] => pure []
  | size :: sizes => do
      let root ← factory.allocate size
      HeapM.onMemory ((Block.whole root).fill 0)
      let roots ← makeAll factory sizes
      pure (root :: roots)

/-- End roots in order. -/
def endAll (factory : Factory) : List Root → HeapM Unit
  | [] => pure ()
  | root :: roots => do
      factory.free root
      endAll factory roots

/-- Make and clear roots of all sizes and end them, the first one first. The
answer is the sum of their sizes. -/
def churnBlocks (factory : Factory) (sizes : List UInt64) : HeapM UInt64 := do
  let roots ← makeAll factory sizes
  let total ← Fallible.exactly (Word.sum? (roots.map fun root => root.extent.size))
  endAll factory roots
  pure total

end Workload
end GuardedHeap
