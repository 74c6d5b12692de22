import GuardedHeap.Proofs.Block.Checked
import GuardedHeap.Proofs.Ledger.Stack

/-!
# Where blocks are handed out

A stack over an arena hands out blocks in the range of the arena, whatever was done to its
blocks and to its layers before. Guard words take some of a region away and add nothing to it.
-/

namespace GuardedHeap

namespace Allocator

/-- What an allocator hands out next ends within the address space. -/
def GrantsBounded (allocator : Allocator) (world : World) : Prop :=
  ∀ size address after, allocator.allocate size world = .ok address after →
    (⟨address, size⟩ : Extent).stop ≤ 0x10000000000000000

end Allocator

/-- The block in a region lies in every range in which the region does. -/
theorem Guard.within_of_region
    {range : Extent}
    {region : Address}
    {size : UInt64}
    (fits : Fits size)
    (bounded : range.stop ≤ 0x10000000000000000)
    (within : (⟨region, size + 24⟩ : Extent).Within range) :
    (⟨blockOf region, size⟩ : Extent).Within range := by
  have regionSize := fits.toNat_add
  simp only [Extent.Within, Extent.stop, Extent.start] at bounded within
  have block : (blockOf region).value.toNat = region.value.toNat + 16 :=
    Address.toNat_add (by
      rw [show headerBytes.toNat = 16 from rfl]
      omega)
  simp only [Extent.Within, Extent.stop, Extent.start]
  omega

namespace Stack

variable {stack : Stack}
variable {world after : World}
variable {size : UInt64}
variable {address : Address}

/-- Blocks of a stack over an arena lie in the range of the arena. -/
theorem within_of_allocate
    (overArena : stack.store = .arena)
    (small : world.arena.capacity.toNat < 0x8000000000000000)
    (bounded : world.arena.range.stop ≤ 0x10000000000000000)
    (granted : stack.allocator.allocate size world = .ok address after) :
    (⟨address, size⟩ : Extent).Within world.arena.range := by
  induction stack generalizing world after size address with
  | raw store =>
      obtain rfl : store = .arena := overArena
      rw [allocator_raw] at granted
      cases Raw.granted_of_allocate granted with
      | of_room credit events nonempty room =>
          obtain ⟨fits, _⟩ := Arena.nextAfter?_eq_some small room
          have positive := Word.toNat_pos nonempty
          simp only [Extent.stop, Extent.start, Arena.range] at bounded
          have start : (world.arena.addressOf world.arena.next).value.toNat =
              world.arena.base.value.toNat + world.arena.next.toNat :=
            Address.toNat_add (by omega)
          simp only [Extent.Within, Extent.stop, Extent.start, Arena.range]
          omega
  | guarded layer owns inner inductionHypothesis =>
      have outcome := Guarded.allocate_outcome layer inner.allocator size world
      rw [show Guarded.allocate layer inner.allocator size world = .ok address after
        from granted] at outcome
      cases outcome with
      | granted events nonempty fits below =>
          exact Guard.within_of_region fits bounded
            (inductionHypothesis overArena small bounded below)
  | registered layer owns inner inductionHypothesis =>
      have outcome := Registered.allocate_outcome layer inner.allocator size world
      rw [show Registered.allocate layer inner.allocator size world = .ok address after
        from granted] at outcome
      cases outcome with
      | granted events nonempty below =>
          exact inductionHypothesis overArena small bounded below
  | counted layer inner inductionHypothesis =>
      let counts := world.callCounts.get layer
      let counted : World := { world with
        callCounts := world.callCounts.set layer
          { counts with allocations := counts.allocations + 1 } }
      have below : inner.allocator.allocate size counted = .ok address after := granted
      exact @inductionHypothesis counted after size address overArena small bounded below

/-- A stack over an arena in the address space hands out blocks in the address space. -/
theorem grantsBounded
    (overArena : stack.store = .arena)
    (small : world.arena.capacity.toNat < 0x8000000000000000)
    (bounded : world.arena.range.stop ≤ 0x10000000000000000) :
    stack.allocator.GrantsBounded world := by
  intro size address after granted
  exact Nat.le_trans (within_of_allocate overArena small bounded granted).2 bounded

end Stack
end GuardedHeap
