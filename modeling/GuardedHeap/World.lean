import GuardedHeap.Arena
import GuardedHeap.Event
import GuardedHeap.Fallible
import GuardedHeap.Registry
import GuardedHeap.SystemHeap
import GuardedHeap.Table

/-!
# The state of a heap

A world holds the memory, the two stores that hand it out, the states of all
layers of allocators, and the events told so far. Computations that only use
memory have a monad of their own, from which `onMemory` leads into the larger
one.
-/

namespace GuardedHeap

/-- The counters of a guarded layer. -/
structure Tally where
  blocks : UInt64 := 0
  bytes : UInt64 := 0
  deriving DecidableEq, Inhabited

/-- How often the calls of a counted layer were made. -/
structure CallCounts where
  allocations : Nat := 0
  reallocations : Nat := 0
  frees : Nat := 0
  releases : Nat := 0
  deriving DecidableEq, Inhabited

namespace CallCounts

/-- The calls that ask for or end blocks. -/
def calls (counts : CallCounts) : Nat :=
  counts.allocations + counts.reallocations + counts.frees

end CallCounts

/-- The state that allocators, factories and blocks share. -/
structure World where
  memory : Memory
  arena : Arena
  system : SystemHeap
  tallies : Table Tally
  registries : Table Registry
  callCounts : Table CallCounts
  nextLayer : Nat
  nextFactory : Nat
  events : Array Event

namespace World

/-- The state before anything happened, with an arena to allocate from. -/
def initial (arena : Arena) : World where
  memory := .zero
  arena
  system := .fresh
  tallies := .empty
  registries := .empty
  callCounts := .empty
  nextLayer := 0
  nextFactory := 1
  events := #[]

end World

/-- A computation on memory alone. -/
abbrev MemoryM := Fallible HeapError Memory

/-- A computation on the whole state. -/
abbrev HeapM := Fallible HeapError World

namespace HeapM

/-- Run a computation on the memory of a world. -/
def onMemory {α : Type} (computation : MemoryM α) : HeapM α := fun world =>
  let memory := world.memory
  let emptied := { world with memory := .zero }
  match computation memory with
  | .ok value memory => .ok value { emptied with memory }
  | .error failure memory => .error failure { emptied with memory }

/-- Let the arena act on memory. -/
def onArena {α : Type} (act : Arena → Memory → α × Arena × Memory) : HeapM α := fun world =>
  let arena := world.arena
  let memory := world.memory
  let emptied := { world with memory := .zero }
  let (value, arena, memory) := act arena memory
  .ok value { emptied with arena, memory }

/-- Let the system's heap act on memory. -/
def onSystem {α : Type} (act : SystemHeap → Memory → α × SystemHeap × Memory) : HeapM α :=
  fun world =>
    let system := world.system
    let memory := world.memory
    let emptied := { world with memory := .zero }
    let (value, system, memory) := act system memory
    .ok value { emptied with system, memory }

/-- Tell an event. -/
def tell (event : Event) : HeapM Unit :=
  modify fun world => { world with events := world.events.push event }

/-- A number for a new layer. -/
def newLayer : HeapM Nat := do
  let layer := (← get).nextLayer
  modify fun world => { world with nextLayer := layer + 1 }
  pure layer

/-- A number for a new factory. -/
def newFactory : HeapM Nat := do
  let factory := (← get).nextFactory
  modify fun world => { world with nextFactory := factory + 1 }
  pure factory

/-- The counters of a guarded layer. -/
def tallyOf (layer : Nat) : HeapM Tally := do
  pure ((← get).tallies.get layer)

@[simp] theorem tallyOf_apply (layer : Nat) (world : World) :
    tallyOf layer world = .ok (world.tallies.get layer) world := rfl

/-- Replace the counters of a guarded layer. -/
def setTally (layer : Nat) (tally : Tally) : HeapM Unit :=
  modify fun world => { world with tallies := world.tallies.set layer tally }

/-- The registry of a registered layer. -/
def registryOf (layer : Nat) : HeapM Registry := do
  pure ((← get).registries.get layer)

@[simp] theorem registryOf_apply (layer : Nat) (world : World) :
    registryOf layer world = .ok (world.registries.get layer) world := rfl

/-- Replace the registry of a registered layer. -/
def setRegistry (layer : Nat) (registry : Registry) : HeapM Unit :=
  modify fun world => { world with registries := world.registries.set layer registry }

/-- Change the counts of a counted layer. -/
def modifyCounts (layer : Nat) (change : CallCounts → CallCounts) : HeapM Unit :=
  modify fun world =>
    { world with
      callCounts := world.callCounts.set layer (change (world.callCounts.get layer)) }

end HeapM
end GuardedHeap
