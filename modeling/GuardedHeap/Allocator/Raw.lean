import GuardedHeap.Allocator.Basic

/-!
# Raw allocators

A raw allocator stands at the bottom of every stack and turns a store of memory
into an allocator: it refuses sizes and addresses that no store takes and gives
a store's silence its cause.
-/

namespace GuardedHeap

/-- The stores of memory. -/
inductive Store
  | arena
  | system
  deriving DecidableEq

namespace Store

/-- Ask a store for a region. -/
def allocate (store : Store) (size : UInt64) : HeapM (Option Address) :=
  match store with
  | .arena => HeapM.onArena fun arena memory => arena.allocate memory size
  | .system => HeapM.onSystem fun heap memory => heap.allocate memory size

/-- Ask a store to move a region. -/
def reallocate (store : Store) (address : Address) (newSize : UInt64) :
    HeapM (Option Address) :=
  match store with
  | .arena => HeapM.onArena fun arena memory => arena.reallocate memory address newSize
  | .system => HeapM.onSystem fun heap memory => heap.reallocate memory address newSize

/-- Give a region back to a store. -/
def free (store : Store) (address : Address) : HeapM Unit :=
  match store with
  | .arena => modify fun world => { world with arena := world.arena.free address }
  | .system => modify fun world => { world with system := world.system.free address }

end Store

namespace Raw

open Allocator (requirePositive)

/-- No store has a block at the null address. -/
def requireNonNull (address : Address) : HeapM Unit :=
  if address.isNull then Fallible.refuse (.unknownAddress address) else pure ()

/-- Hand out a region of the store. -/
def allocate (store : Store) (size : UInt64) : HeapM Address := do
  requirePositive size
  match ← store.allocate size with
  | none => Fallible.refuse (.outOfResources size)
  | some address =>
      HeapM.tell (.rawAllocated ⟨address, size⟩)
      pure address

/-- Move a region of the store. -/
def reallocate (store : Store) (address : Address) (newSize : UInt64) : HeapM Address := do
  requirePositive newSize
  requireNonNull address
  match ← store.reallocate address newSize with
  | none => Fallible.refuse (.outOfResources newSize)
  | some moved =>
      HeapM.tell (.rawReallocated address ⟨moved, newSize⟩)
      pure moved

/-- Give a region back to the store. -/
def free (store : Store) (address : Address) : HeapM Unit := do
  requireNonNull address
  store.free address
  HeapM.tell (.rawFreed address)

end Raw

namespace Allocator

/-- The allocator that passes calls to a store. It holds nothing that a release
could end. -/
def raw (store : Store) : Allocator where
  allocate := Raw.allocate store
  reallocate := Raw.reallocate store
  free := Raw.free store
  release := pure ()

end Allocator
end GuardedHeap
