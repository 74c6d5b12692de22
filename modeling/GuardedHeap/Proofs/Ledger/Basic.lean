import GuardedHeap.Proofs.Atomicity
import GuardedHeap.Proofs.Ledger.Placement

/-!
# Ledgers of live blocks

A ledger is the list of the blocks that an allocator handed out and that have not
ended. An allocator keeps books if its state always describes the ledger, however
the bytes of the blocks change between its calls. What is asked of an allocator
here is what a layer above it relies on, so books are kept layer by layer.
-/

namespace GuardedHeap

namespace World

/-- Two worlds that differ, as far as some layers can tell, in the bytes of live
blocks and in the credit of the arena alone. -/
structure Undisturbed
    (layers : List Nat)
    (blocks : List Extent)
    (before after : World) : Prop where
  memory : ∀ address, (∀ block ∈ blocks, ¬ block.Contains address) →
    after.memory.get address = before.memory.get address
  registries : ∀ layer ∈ layers, ∀ address,
    (after.registries.get layer).find? address = (before.registries.get layer).find? address
  tallies : ∀ layer ∈ layers, after.tallies.get layer = before.tallies.get layer
  arena : { after.arena with credit := before.arena.credit } = before.arena

/-- Two worlds of which the second one has the same bytes in some blocks and the
same states of all but some layers. -/
structure Spares
    (layers : List Nat)
    (blocks : List Extent)
    (before after : World) : Prop where
  memory : ∀ block ∈ blocks, ∀ address, block.Contains address →
    after.memory.get address = before.memory.get address
  registries : ∀ layer, layer ∉ layers → ∀ address,
    (after.registries.get layer).find? address = (before.registries.get layer).find? address
  tallies : ∀ layer, layer ∉ layers → after.tallies.get layer = before.tallies.get layer

/-- The first bytes of a block are found again in another one, as many of them as
both blocks have. -/
def Carries (previous block : Extent) (before after : World) : Prop :=
  ∀ offset : UInt64, offset.toNat < previous.size.toNat → offset.toNat < block.size.toNat →
    after.memory.get (block.address.add offset) =
      before.memory.get (previous.address.add offset)

/-- What no call changed was not disturbed either. -/
theorem Unchanged.undisturbed
    {before after : World}
    (unchanged : before.Unchanged after)
    (layers : List Nat)
    (blocks : List Extent) :
    Undisturbed layers blocks before after where
  memory address _ := unchanged.memory address
  registries layer _ := unchanged.registries layer
  tallies layer _ := unchanged.tallies layer
  arena := unchanged.arena

variable {layers : List Nat}
variable {blocks : List Extent}
variable {before after : World}

/-- Events are not in any books. -/
theorem undisturbed_events
    (world : World)
    (events : Array Event) :
    Undisturbed layers blocks world { world with events } where
  memory _ _ := rfl
  registries _ _ _ := rfl
  tallies _ _ := rfl
  arena := rfl

/-- Clients may change the bytes of live blocks. -/
theorem undisturbed_memory
    {world : World}
    {memory : Memory}
    (same : ∀ address, (∀ block ∈ blocks, ¬ block.Contains address) →
      memory.get address = world.memory.get address) :
    Undisturbed layers blocks world { world with memory } where
  memory := same
  registries _ _ _ := rfl
  tallies _ _ := rfl
  arena := rfl

/-- Clients may write into live blocks. -/
theorem undisturbed_write
    {block : Extent}
    {address : Address}
    (world : World)
    (present : block ∈ blocks)
    (inside : block.Contains address)
    (value : UInt8) :
    Undisturbed layers blocks world { world with memory := world.memory.set address value } := by
  apply undisturbed_memory
  intro other outside
  apply Memory.get_set_of_ne
  rintro rfl
  exact outside block present inside

/-- Clients may change the credit of the arena. -/
theorem undisturbed_credit
    {world : World}
    {arena : Arena}
    (same : { arena with credit := world.arena.credit } = world.arena) :
    Undisturbed layers blocks world { world with arena } where
  memory _ _ := rfl
  registries _ _ _ := rfl
  tallies _ _ := rfl
  arena := same

theorem Undisturbed.of_cons
    {layer : Nat}
    (undisturbed : Undisturbed (layer :: layers) blocks before after) :
    Undisturbed layers blocks before after where
  memory := undisturbed.memory
  registries index present := undisturbed.registries index (.tail _ present)
  tallies index present := undisturbed.tallies index (.tail _ present)
  arena := undisturbed.arena

theorem Spares.cons
    (spares : Spares layers blocks before after)
    (layer : Nat) :
    Spares (layer :: layers) blocks before after where
  memory := spares.memory
  registries index foreign := spares.registries index fun present => foreign (.tail _ present)
  tallies index foreign := spares.tallies index fun present => foreign (.tail _ present)

end World

/-- An allocator whose state describes the live blocks. The books do not depend on
the order of the ledger and stand while clients change the bytes of live blocks. A
call that succeeds brings them up to date, and spares other blocks and the states
of other layers. -/
structure Allocator.Keeps
    (allocator : Allocator)
    (layers : List Nat)
    (range : Extent)
    (Books : World → List Extent → Prop) : Prop where
  perm : ∀ {world blocks others}, Books world blocks → blocks.Perm others → Books world others
  undisturbed : ∀ {before after blocks}, Books before blocks →
    World.Undisturbed layers blocks before after → Books after blocks
  placed : ∀ {world blocks}, Books world blocks → Placed range blocks
  allocate : ∀ {world after blocks size address}, Books world blocks →
    allocator.allocate size world = .ok address after →
      Books after (⟨address, size⟩ :: blocks) ∧ World.Spares layers blocks world after
  reallocate : ∀ {world after block rest newSize newAddress}, Books world (block :: rest) →
    allocator.reallocate block.address newSize world = .ok newAddress after →
      Books after (⟨newAddress, newSize⟩ :: rest) ∧ World.Spares layers rest world after ∧
        World.Carries block ⟨newAddress, newSize⟩ world after
  free : ∀ {world block rest}, Books world (block :: rest) →
    ∃ after, allocator.free block.address world = .ok () after ∧
      Books after rest ∧ World.Spares layers rest world after

end GuardedHeap
