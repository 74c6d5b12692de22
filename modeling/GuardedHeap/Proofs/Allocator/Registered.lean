import GuardedHeap.Allocator.Registered
import GuardedHeap.Proofs.Allocator.Basic

/-!
# Outcomes of registered calls

Each call of a registered layer is described by a list of outcomes, one for
every way in which it can end.
-/

namespace GuardedHeap

namespace World

/-- The world after a block was put into the registry of a layer. -/
def inserted (world : World) (layer : Nat) (block : Extent) : World :=
  { world with
    registries := world.registries.set layer
      ((world.registries.get layer).insert block.address block.size) }

/-- The world after an address was taken out of the registry of a layer. -/
def erased (world : World) (layer : Nat) (address : Address) : World :=
  { world with
    registries := world.registries.set layer ((world.registries.get layer).erase address) }

theorem get_registries_inserted
    (world : World)
    (layer index : Nat)
    (block : Extent) :
    (world.inserted layer block).registries.get index =
      if index = layer then (world.registries.get layer).insert block.address block.size
      else world.registries.get index :=
  Table.get_set ..

theorem get_registries_erased
    (world : World)
    (layer index : Nat)
    (address : Address) :
    (world.erased layer address).registries.get index =
      if index = layer then (world.registries.get layer).erase address
      else world.registries.get index :=
  Table.get_set ..

end World

namespace Registered

open Allocator (requirePositive_of_nonempty)

theorem insert_apply
    (layer : Nat)
    (block : Extent)
    (world : World) :
    insert layer block world = .ok () (world.inserted layer block) := rfl

theorem remove_of_some
    {layer : Nat}
    {address : Address}
    {size : UInt64}
    {world : World}
    (held : (world.registries.get layer).find? address = some size) :
    remove layer address world = .ok size (world.erased layer address) := by
  rw [remove, Fallible.bind_of_ok (HeapM.registryOf_apply layer world), held]
  rfl

theorem remove_of_none
    {layer : Nat}
    {address : Address}
    {world : World}
    (absent : (world.registries.get layer).find? address = none) :
    remove layer address world = .error (.refused (.unknownAddress address)) world := by
  rw [remove, Fallible.bind_of_ok (HeapM.registryOf_apply layer world), absent]
  rfl

/-- The ways in which a registered allocation ends. -/
inductive AllocateOutcome (layer : Nat) (inner : Allocator) (size : UInt64) (world : World) :
    HeapM.Result Address → Prop
  | empty (isEmpty : size = 0) :
      AllocateOutcome layer inner size world (.error (.refused .emptySize) world)
  | failed
      {failure : Failure HeapError}
      {after : World}
      (nonempty : size ≠ 0)
      (below : inner.allocate size world = .error failure after) :
      AllocateOutcome layer inner size world (.error failure after)
  | granted
      {address : Address}
      {after : World}
      (events : Array Event)
      (nonempty : size ≠ 0)
      (below : inner.allocate size world = .ok address after) :
      AllocateOutcome layer inner size world
        (.ok address { after.inserted layer ⟨address, size⟩ with events })

/-- A block is handed out if it is below. -/
theorem allocate_of_granted
    {layer : Nat}
    {inner : Allocator}
    {size : UInt64}
    {address : Address}
    {world after : World}
    (nonempty : size ≠ 0)
    (below : inner.allocate size world = .ok address after) :
    ∃ events, allocate layer inner size world =
      .ok address { after.inserted layer ⟨address, size⟩ with events } := by
  unfold allocate
  rw [Fallible.bind_of_ok (requirePositive_of_nonempty nonempty world),
    Fallible.bind_of_ok below]
  exact ⟨_, rfl⟩

theorem allocate_outcome
    (layer : Nat)
    (inner : Allocator)
    (size : UInt64)
    (world : World) :
    AllocateOutcome layer inner size world (allocate layer inner size world) := by
  by_cases isEmpty : size = 0
  · subst isEmpty
    exact .empty rfl
  cases below : inner.allocate size world with
  | error failure after =>
      rw [allocate, Fallible.bind_of_ok (requirePositive_of_nonempty isEmpty world),
        Fallible.bind_of_error below]
      exact .failed isEmpty below
  | ok address after =>
      obtain ⟨events, granted⟩ := allocate_of_granted isEmpty below
      rw [granted]
      exact .granted events isEmpty below

/-- The ways in which a registered reallocation ends. -/
inductive ReallocateOutcome
    (layer : Nat)
    (inner : Allocator)
    (address : Address)
    (newSize : UInt64)
    (world : World) :
    HeapM.Result Address → Prop
  | empty (isEmpty : newSize = 0) :
      ReallocateOutcome layer inner address newSize world (.error (.refused .emptySize) world)
  | unknown
      (nonempty : newSize ≠ 0)
      (absent : (world.registries.get layer).find? address = none) :
      ReallocateOutcome layer inner address newSize world
        (.error (.refused (.unknownAddress address)) world)
  | failed
      {size : UInt64}
      {error : HeapError}
      {after : World}
      (nonempty : newSize ≠ 0)
      (held : (world.registries.get layer).find? address = some size)
      (below : inner.reallocate address newSize (world.erased layer address) =
          .error (.refused error) after) :
      ReallocateOutcome layer inner address newSize world
        (.error (.refused error) (after.inserted layer ⟨address, size⟩))
  | broken
      {size : UInt64}
      {after : World}
      (nonempty : newSize ≠ 0)
      (held : (world.registries.get layer).find? address = some size)
      (below : inner.reallocate address newSize (world.erased layer address) =
          .error .overflow after) :
      ReallocateOutcome layer inner address newSize world (.error .overflow after)
  | moved
      {size : UInt64}
      {newAddress : Address}
      {after : World}
      (events : Array Event)
      (nonempty : newSize ≠ 0)
      (held : (world.registries.get layer).find? address = some size)
      (below : inner.reallocate address newSize (world.erased layer address) =
          .ok newAddress after) :
      ReallocateOutcome layer inner address newSize world
        (.ok newAddress { after.inserted layer ⟨newAddress, newSize⟩ with events })

theorem reallocate_outcome
    (layer : Nat)
    (inner : Allocator)
    (address : Address)
    (newSize : UInt64)
    (world : World) :
    ReallocateOutcome layer inner address newSize world
      (reallocate layer inner address newSize world) := by
  unfold reallocate
  by_cases isEmpty : newSize = 0
  · subst isEmpty
    exact .empty rfl
  rw [Fallible.bind_of_ok (requirePositive_of_nonempty isEmpty world)]
  cases held : (world.registries.get layer).find? address with
  | none =>
      rw [Fallible.bind_of_error (remove_of_none held)]
      exact .unknown isEmpty held
  | some size =>
      rw [Fallible.bind_of_ok (remove_of_some held)]
      cases below : inner.reallocate address newSize (world.erased layer address) with
      | ok newAddress after =>
          rw [Fallible.bind_of_ok (Fallible.attempt_of_ok below)]
          dsimp only
          rw [Fallible.bind_of_ok (insert_apply layer ⟨newAddress, newSize⟩ after)]
          exact .moved _ isEmpty held below
      | error failure after =>
          cases failure with
          | refused error =>
              rw [Fallible.bind_of_ok (Fallible.attempt_of_refused below)]
              dsimp only
              rw [Fallible.bind_of_ok (insert_apply layer ⟨address, size⟩ after)]
              exact .failed isEmpty held below
          | overflow =>
              rw [Fallible.bind_of_error (Fallible.attempt_of_overflow below)]
              exact .broken isEmpty held below

/-- The ways in which the end of a registered block ends. -/
inductive FreeOutcome (layer : Nat) (inner : Allocator) (address : Address) (world : World) :
    HeapM.Result Unit → Prop
  | unknown (absent : (world.registries.get layer).find? address = none) :
      FreeOutcome layer inner address world (.error (.refused (.unknownAddress address)) world)
  | failed
      {size : UInt64}
      {error : HeapError}
      {after : World}
      (held : (world.registries.get layer).find? address = some size)
      (below : inner.free address (world.erased layer address) = .error (.refused error) after) :
      FreeOutcome layer inner address world
        (.error (.refused error) (after.inserted layer ⟨address, size⟩))
  | broken
      {size : UInt64}
      {after : World}
      (held : (world.registries.get layer).find? address = some size)
      (below : inner.free address (world.erased layer address) = .error .overflow after) :
      FreeOutcome layer inner address world (.error .overflow after)
  | freed
      {size : UInt64}
      {after : World}
      (events : Array Event)
      (held : (world.registries.get layer).find? address = some size)
      (below : inner.free address (world.erased layer address) = .ok () after) :
      FreeOutcome layer inner address world (.ok () { after with events })

/-- A block that is held ends if it does below. -/
theorem free_of_freed
    {layer : Nat}
    {inner : Allocator}
    {address : Address}
    {size : UInt64}
    {world after : World}
    (held : (world.registries.get layer).find? address = some size)
    (below : inner.free address (world.erased layer address) = .ok () after) :
    ∃ events, free layer inner address world = .ok () { after with events } := by
  unfold free
  rw [Fallible.bind_of_ok (remove_of_some held),
    Fallible.bind_of_ok (Fallible.attempt_of_ok below)]
  exact ⟨_, rfl⟩

/-- A block that is held and does not end below is held again. -/
theorem free_of_refused
    {layer : Nat}
    {inner : Allocator}
    {address : Address}
    {size : UInt64}
    {error : HeapError}
    {world after : World}
    (held : (world.registries.get layer).find? address = some size)
    (below : inner.free address (world.erased layer address) = .error (.refused error) after) :
    free layer inner address world =
      .error (.refused error) (after.inserted layer ⟨address, size⟩) := by
  unfold free
  rw [Fallible.bind_of_ok (remove_of_some held),
    Fallible.bind_of_ok (Fallible.attempt_of_refused below)]
  dsimp only
  rw [Fallible.bind_of_ok (insert_apply layer ⟨address, size⟩ after)]
  rfl

theorem free_outcome
    (layer : Nat)
    (inner : Allocator)
    (address : Address)
    (world : World) :
    FreeOutcome layer inner address world (free layer inner address world) := by
  cases held : (world.registries.get layer).find? address with
  | none =>
      rw [free, Fallible.bind_of_error (remove_of_none held)]
      exact .unknown held
  | some size =>
      cases below : inner.free address (world.erased layer address) with
      | ok _ after =>
          obtain ⟨events, freed⟩ := free_of_freed held below
          rw [freed]
          exact .freed _ held below
      | error failure after =>
          cases failure with
          | refused error =>
              rw [free_of_refused held below]
              exact .failed held below
          | overflow =>
              rw [free, Fallible.bind_of_ok (remove_of_some held),
                Fallible.bind_of_error (Fallible.attempt_of_overflow below)]
              exact .broken held below

end Registered

namespace Allocator

/-- An address that is not in the registry is unknown to both calls, whatever allocator
lies below: that one is not called. -/
theorem refuses_of_absent
    {layer : Nat}
    {address : Address}
    {world : World}
    (absent : (world.registries.get layer).find? address = none)
    (owns : Bool)
    (inner : Allocator) :
    (registered layer owns inner).Refuses address (.unknownAddress address) world where
  free := Fallible.bind_of_error (Registered.remove_of_none absent) _
  reallocate newSize nonempty _ := by
    show Registered.reallocate layer inner address newSize world = _
    rw [Registered.reallocate, Fallible.bind_of_ok (requirePositive_of_nonempty nonempty world),
      Fallible.bind_of_error (Registered.remove_of_none absent)]

end Allocator
end GuardedHeap
