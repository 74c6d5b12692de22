import GuardedHeap.Allocator.Stack
import GuardedHeap.Block.Transfer

/-!
# Factories of blocks

A factory turns the addresses of an allocator into roots. Every factory has a
number of its own, and a root goes back only to the factory that made it.
-/

namespace GuardedHeap

/-- How a factory treats its allocator and its blocks. -/
structure FactoryConfig where
  /-- Whether releasing the factory releases its allocator. -/
  ownsAllocator : Bool
  /-- Whether operations on its blocks are checked. -/
  checking : Bool
  deriving DecidableEq, Inhabited

namespace FactoryConfig

/-- Unchecked blocks of an allocator that is owned. -/
def production : FactoryConfig := ⟨true, false⟩

/-- Checked blocks of an allocator that is owned. -/
def testing : FactoryConfig := ⟨true, true⟩

/-- Blocks are unchecked unless something else is said. -/
def standard : FactoryConfig := production

/-- The same blocks from an allocator that is not owned. -/
def borrowed (config : FactoryConfig) : FactoryConfig :=
  { config with ownsAllocator := false }

end FactoryConfig

/-- A maker of roots. -/
structure Factory where
  allocator : Allocator
  config : FactoryConfig
  id : Nat

namespace Factory

/-- A factory with a new number. -/
def create (allocator : Allocator) (config : FactoryConfig) : HeapM Factory := do
  let id ← HeapM.newFactory
  pure ⟨allocator, config, id⟩

/-- Unchecked blocks of the system's heap. -/
def system : HeapM Factory :=
  create (.raw .system) .production

/-- Checked blocks of an instrumented stack over the system's heap, whose layers
are new. The stack comes with its registry and its guarded layer. -/
def instrumented : HeapM (Factory × Nat × Nat) := do
  let guard ← HeapM.newLayer
  let registry ← HeapM.newLayer
  let factory ← create (Stack.instrumented registry guard .system).allocator .testing
  pure (factory, registry, guard)

/-- Unchecked blocks of an allocator that is not owned. -/
def systemWith (allocator : Allocator) : HeapM Factory :=
  create allocator FactoryConfig.production.borrowed

/-- Checked blocks of an allocator that is not owned. -/
def testWith (allocator : Allocator) : HeapM Factory :=
  create allocator FactoryConfig.testing.borrowed

/-- A root goes back only to the factory that made it. -/
def checkOrigin (factory : Factory) (root : Root) : Except HeapError Unit :=
  match root.origin with
  | none =>
      .error (.invalidOperation s!"block {root.extent} was not produced by a factory")
  | some id =>
      if id = factory.id then .ok ()
      else
        .error (.invalidOperation
          s!"block {root.extent} belongs to factory {id}, not factory {factory.id}")

/-- Make a root. -/
def allocate (factory : Factory) (size : UInt64) : HeapM Root := do
  let address ← factory.allocator.allocate size
  let extent : Extent := ⟨address, size⟩
  HeapM.tell (.factoryAllocated factory.id extent)
  pure ⟨extent, factory.config.checking, some factory.id⟩

/-- Move a root, which is given back with its new extent. -/
def reallocate (factory : Factory) (root : Root) (newSize : UInt64) : HeapM Root := do
  Fallible.ofCheck (factory.checkOrigin root)
  let address ← factory.allocator.reallocate root.extent.address newSize
  let extent : Extent := ⟨address, newSize⟩
  HeapM.tell (.factoryReallocated factory.id root.extent extent)
  pure { root with extent }

/-- End a root. -/
def free (factory : Factory) (root : Root) : HeapM Unit := do
  Fallible.ofCheck (factory.checkOrigin root)
  factory.allocator.free root.extent.address
  HeapM.tell (.factoryFreed factory.id root.extent)

/-- Release the allocator, if it is owned. -/
def release (factory : Factory) : HeapM Unit :=
  if factory.config.ownsAllocator then factory.allocator.release else pure ()

end Factory
end GuardedHeap
