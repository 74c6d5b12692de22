import GuardedHeap.Allocator.Basic

/-!
# Registered allocators

A registered layer holds every block that it hands out in a registry and lets
only such blocks be moved or ended. An entry is taken out before the allocator
below is called and put back when that refuses.
-/

namespace GuardedHeap
namespace Registered

open Allocator (requirePositive releaseOwned)

/-- Hold a block. -/
def insert (layer : Nat) (block : Extent) : HeapM Unit := do
  let registry ← HeapM.registryOf layer
  HeapM.setRegistry layer (registry.insert block.address block.size)

/-- Take a block out and give its size. -/
def remove (layer : Nat) (address : Address) : HeapM UInt64 := do
  let registry ← HeapM.registryOf layer
  match registry.find? address with
  | none => Fallible.refuse (.unknownAddress address)
  | some size =>
      HeapM.setRegistry layer (registry.erase address)
      pure size

/-- Whether a block starts at an address. -/
def contains (layer : Nat) (address : Address) : HeapM Bool := do
  pure ((← HeapM.registryOf layer).contains address)

/-- The size of the block at an address. -/
def sizeOf (layer : Nat) (address : Address) : HeapM UInt64 := do
  match (← HeapM.registryOf layer).find? address with
  | none => Fallible.refuse (.unknownAddress address)
  | some size => pure size

/-- The count of blocks and the exact sum of their sizes. -/
def totals (layer : Nat) : HeapM (Nat × UInt64) := do
  let registry ← HeapM.registryOf layer
  let bytes ← Fallible.exactly registry.bytes?
  pure (registry.blocks, bytes)

/-- All blocks by rising address. -/
def snapshot (layer : Nat) : HeapM (List Extent) := do
  let registry ← HeapM.registryOf layer
  pure (registry.snapshot.map fun entry => ⟨entry.1, entry.2⟩)

/-- Hand out a block and hold it. -/
def allocate (layer : Nat) (inner : Allocator) (size : UInt64) : HeapM Address := do
  requirePositive size
  let address ← inner.allocate size
  insert layer ⟨address, size⟩
  HeapM.tell (.registeredAllocated ⟨address, size⟩)
  pure address

/-- Move a block that is held. -/
def reallocate
    (layer : Nat)
    (inner : Allocator)
    (address : Address)
    (newSize : UInt64) :
    HeapM Address := do
  requirePositive newSize
  let size ← remove layer address
  match ← Fallible.attempt (inner.reallocate address newSize) with
  | .error error =>
      insert layer ⟨address, size⟩
      Fallible.refuse error
  | .ok moved =>
      insert layer ⟨moved, newSize⟩
      HeapM.tell (.registeredReallocated ⟨address, size⟩ ⟨moved, newSize⟩)
      pure moved

/-- End a block that is held. -/
def free (layer : Nat) (inner : Allocator) (address : Address) : HeapM Unit := do
  let size ← remove layer address
  match ← Fallible.attempt (inner.free address) with
  | .error error =>
      insert layer ⟨address, size⟩
      Fallible.refuse error
  | .ok () => HeapM.tell (.registeredFreed ⟨address, size⟩)

/-- Release the allocator below, if it is owned, and report live blocks. A leak
of this layer comes before whatever the allocator below reports. -/
def release (layer : Nat) (owns : Bool) (inner : Allocator) : HeapM Unit := do
  let below ← releaseOwned owns inner
  if (← HeapM.registryOf layer).blocks = 0 then
    Fallible.ofCheck below
  else
    let (blocks, bytes) ← totals layer
    HeapM.tell (.registeredLeak blocks bytes.toNat)
    Fallible.refuse (.leakDetected blocks bytes.toNat)

/-- Forget all blocks. -/
def reset (layer : Nat) : HeapM Unit :=
  HeapM.setRegistry layer .empty

end Registered

namespace Allocator

/-- The allocator that holds the blocks of another one in a registry. -/
def registered (layer : Nat) (owns : Bool) (inner : Allocator) : Allocator where
  allocate := Registered.allocate layer inner
  reallocate := Registered.reallocate layer inner
  free := Registered.free layer inner
  release := Registered.release layer owns inner

end Allocator
end GuardedHeap
