import GuardedHeap.Allocator.Basic

/-!
# Counted allocators

A counted layer counts the calls that are made to it, whether they succeed or
not, and passes them on.
-/

namespace GuardedHeap
namespace Allocator

/-- The allocator that counts the calls to another one. -/
def counted (layer : Nat) (inner : Allocator) : Allocator where
  allocate size := do
    HeapM.modifyCounts layer fun counts =>
      { counts with allocations := counts.allocations + 1 }
    inner.allocate size
  reallocate address newSize := do
    HeapM.modifyCounts layer fun counts =>
      { counts with reallocations := counts.reallocations + 1 }
    inner.reallocate address newSize
  free address := do
    HeapM.modifyCounts layer fun counts => { counts with frees := counts.frees + 1 }
    inner.free address
  release := do
    HeapM.modifyCounts layer fun counts => { counts with releases := counts.releases + 1 }
    inner.release

end Allocator
end GuardedHeap
