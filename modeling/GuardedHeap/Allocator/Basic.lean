import GuardedHeap.World

/-!
# Allocators

An allocator hands out blocks of memory by their addresses. All allocators
offer the same four calls; layers are functions from the calls of the allocator
below to calls of their own.
-/

namespace GuardedHeap

/-- The calls of an allocator. -/
structure Allocator where
  allocate : UInt64 → HeapM Address
  reallocate : Address → UInt64 → HeapM Address
  free : Address → HeapM Unit
  release : HeapM Unit

namespace Allocator

/-- No allocator hands out a block of no bytes. -/
def requirePositive (size : UInt64) : HeapM Unit :=
  if size = 0 then Fallible.refuse .emptySize else pure ()

/-- Release the allocator below a layer, if the layer owns it, and take note of
a refusal. -/
def releaseOwned (owns : Bool) (inner : Allocator) : HeapM (Except HeapError Unit) :=
  if owns then Fallible.attempt inner.release else pure (.ok ())

end Allocator
end GuardedHeap
