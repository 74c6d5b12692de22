import GuardedHeap.Allocator.Counted
import GuardedHeap.Allocator.Guarded
import GuardedHeap.Allocator.Raw
import GuardedHeap.Allocator.Registered

/-!
# Stacks of allocators

A stack says which layers lie above which store. Layers are numbered, and a
number stands for the state of the layer, so two stacks that contain the same
number share that layer. What a stack does is the allocator that it describes.
-/

namespace GuardedHeap

/-- Layers above a store, outermost first. -/
inductive Stack
  | raw (store : Store)
  | guarded (layer : Nat) (owns : Bool) (inner : Stack)
  | registered (layer : Nat) (owns : Bool) (inner : Stack)
  | counted (layer : Nat) (inner : Stack)
  deriving DecidableEq

namespace Stack

/-- The allocator that a stack describes. -/
def allocator : Stack → Allocator
  | .raw store => .raw store
  | .guarded layer owns inner => .guarded layer owns inner.allocator
  | .registered layer owns inner => .registered layer owns inner.allocator
  | .counted layer inner => .counted layer inner.allocator

@[simp] theorem allocator_raw (store : Store) :
    (raw store).allocator = .raw store := rfl

@[simp] theorem allocator_guarded
    (layer : Nat)
    (owns : Bool)
    (inner : Stack) :
    (guarded layer owns inner).allocator = .guarded layer owns inner.allocator := rfl

@[simp] theorem allocator_registered
    (layer : Nat)
    (owns : Bool)
    (inner : Stack) :
    (registered layer owns inner).allocator = .registered layer owns inner.allocator := rfl

@[simp] theorem allocator_counted
    (layer : Nat)
    (inner : Stack) :
    (counted layer inner).allocator = .counted layer inner.allocator := rfl

/-- Whether the outermost layer owns what lies below it; a counted layer and a
store have no say in that. -/
def owns? : Stack → Option Bool
  | .raw _ => none
  | .guarded _ owns _ => some owns
  | .registered _ owns _ => some owns
  | .counted _ _ => none

/-- The numbers of the layers of a stack, outermost first. -/
def layers : Stack → List Nat
  | .raw _ => []
  | .guarded layer _ inner => layer :: inner.layers
  | .registered layer _ inner => layer :: inner.layers
  | .counted layer inner => layer :: inner.layers

/-- Forget all blocks of the outermost layer. -/
def reset : Stack → HeapM Unit
  | .guarded layer _ _ => Guarded.reset layer
  | .registered layer _ _ => Registered.reset layer
  | _ => pure ()

/-- A guarded store with a registry above it, each layer owning the one
below. -/
def instrumented (registry guard : Nat) (store : Store) : Stack :=
  .registered registry true (.guarded guard true (.raw store))

end Stack
end GuardedHeap
