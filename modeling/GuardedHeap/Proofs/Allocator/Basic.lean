import GuardedHeap.Allocator.Basic
import GuardedHeap.Proofs.Guard.Intact

/-!
# Calls and their results

What the calls of all allocators have in common: the calls as values, the form of
their results, the refusal of an address, and the check that a size is positive.
-/

namespace GuardedHeap

/-- What a computation on a world ends with. -/
abbrev HeapM.Result (α : Type) := EStateM.Result (Failure HeapError) World α

namespace Allocator

/-- The calls that ask for, move and end blocks. -/
inductive Call
  | allocate (size : UInt64)
  | reallocate (address : Address) (newSize : UInt64)
  | free (address : Address)
  deriving DecidableEq

/-- Make a call. What it answers is the address of a block, if it hands one out. -/
def call (allocator : Allocator) : Call → HeapM (Option Address)
  | .allocate size => do pure (some (← allocator.allocate size))
  | .reallocate address newSize => do pure (some (← allocator.reallocate address newSize))
  | .free address => do
      allocator.free address
      pure none

/-- Ending a block, and moving it to any size that a region can have, are both
refused for one cause, and nothing changes. -/
structure Refuses
    (allocator : Allocator)
    (address : Address)
    (error : HeapError)
    (world : World) : Prop where
  free : allocator.free address world = .error (.refused error) world
  reallocate : ∀ newSize, newSize ≠ 0 → Guard.Fits newSize →
    allocator.reallocate address newSize world = .error (.refused error) world

theorem requirePositive_of_nonempty
    {size : UInt64}
    (nonempty : size ≠ 0)
    (world : World) :
    requirePositive size world = .ok () world := by
  rw [requirePositive, if_neg nonempty]
  rfl

end Allocator
end GuardedHeap
