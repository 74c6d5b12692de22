import GuardedHeap.Allocator.Raw
import GuardedHeap.Proofs.Allocator.Basic
import GuardedHeap.Proofs.Arena.Outcome

/-!
# Outcomes of raw calls

Each call of a raw allocator is described by a list of outcomes, one for every
way in which it can end. The answers of the stores stay as they are. Over an
arena, a call that hands out a region has done exactly what the arena does.
-/

namespace GuardedHeap
namespace Raw

open Allocator (requirePositive_of_nonempty)

/-- The ways in which a raw allocation ends. -/
inductive AllocateOutcome (store : Store) (size : UInt64) (world : World) :
    HeapM.Result Address → Prop
  | empty (isEmpty : size = 0) :
      AllocateOutcome store size world (.error (.refused .emptySize) world)
  | exhausted
      {after : World}
      (nonempty : size ≠ 0)
      (answer : store.allocate size world = .ok none after) :
      AllocateOutcome store size world (.error (.refused (.outOfResources size)) after)
  | granted
      {address : Address}
      {after : World}
      (events : Array Event)
      (nonempty : size ≠ 0)
      (answer : store.allocate size world = .ok (some address) after) :
      AllocateOutcome store size world (.ok address { after with events })

/-- A region that the store hands out is handed out. -/
theorem allocate_of_granted
    {store : Store}
    {size : UInt64}
    {address : Address}
    {world after : World}
    (nonempty : size ≠ 0)
    (answer : store.allocate size world = .ok (some address) after) :
    ∃ events, allocate store size world = .ok address { after with events } := by
  unfold allocate
  rw [Fallible.bind_of_ok (requirePositive_of_nonempty nonempty world),
    Fallible.bind_of_ok answer]
  exact ⟨_, rfl⟩

theorem allocate_outcome
    (store : Store)
    (size : UInt64)
    (world : World) :
    AllocateOutcome store size world (allocate store size world) := by
  by_cases isEmpty : size = 0
  · subst isEmpty
    exact .empty rfl
  have answers : ∃ answer after, store.allocate size world = .ok answer after := by
    cases store <;> exact ⟨_, _, rfl⟩
  obtain ⟨answer, after, answered⟩ := answers
  cases answer with
  | none =>
      rw [allocate, Fallible.bind_of_ok (requirePositive_of_nonempty isEmpty world),
        Fallible.bind_of_ok answered]
      exact .exhausted isEmpty answered
  | some address =>
      obtain ⟨events, granted⟩ := allocate_of_granted isEmpty answered
      rw [granted]
      exact .granted events isEmpty answered

/-- The ways in which a raw reallocation ends. -/
inductive ReallocateOutcome
    (store : Store)
    (address : Address)
    (newSize : UInt64)
    (world : World) :
    HeapM.Result Address → Prop
  | empty (isEmpty : newSize = 0) :
      ReallocateOutcome store address newSize world (.error (.refused .emptySize) world)
  | null (nonempty : newSize ≠ 0) (isNull : address = .null) :
      ReallocateOutcome store address newSize world
        (.error (.refused (.unknownAddress address)) world)
  | exhausted
      {after : World}
      (nonempty : newSize ≠ 0)
      (notNull : address ≠ .null)
      (answer : store.reallocate address newSize world = .ok none after) :
      ReallocateOutcome store address newSize world
        (.error (.refused (.outOfResources newSize)) after)
  | moved
      {newAddress : Address}
      {after : World}
      (events : Array Event)
      (nonempty : newSize ≠ 0)
      (notNull : address ≠ .null)
      (answer : store.reallocate address newSize world = .ok (some newAddress) after) :
      ReallocateOutcome store address newSize world (.ok newAddress { after with events })

theorem requireNonNull_of_ne
    {address : Address}
    (notNull : address ≠ .null)
    (world : World) :
    requireNonNull address world = .ok () world := by
  have isNull : address.isNull = false := by
    have differs : address.value ≠ 0 := fun equal => notNull (congrArg Address.mk equal)
    simpa [Address.isNull] using differs
  rw [requireNonNull, isNull]
  rfl

theorem reallocate_outcome
    (store : Store)
    (address : Address)
    (newSize : UInt64)
    (world : World) :
    ReallocateOutcome store address newSize world (reallocate store address newSize world) := by
  unfold reallocate
  by_cases isEmpty : newSize = 0
  · subst isEmpty
    exact .empty rfl
  rw [Fallible.bind_of_ok (requirePositive_of_nonempty isEmpty world)]
  by_cases isNull : address = .null
  · subst isNull
    exact .null isEmpty rfl
  rw [Fallible.bind_of_ok (requireNonNull_of_ne isNull world)]
  have answers : ∃ answer after, store.reallocate address newSize world = .ok answer after := by
    cases store <;> exact ⟨_, _, rfl⟩
  obtain ⟨answer, after, answered⟩ := answers
  rw [Fallible.bind_of_ok answered]
  cases answer with
  | none => exact .exhausted isEmpty isNull answered
  | some newAddress => exact .moved _ isEmpty isNull answered

/-- The ways in which the end of a raw region ends. -/
inductive FreeOutcome (store : Store) (address : Address) (world : World) :
    HeapM.Result Unit → Prop
  | null (isNull : address = .null) :
      FreeOutcome store address world (.error (.refused (.unknownAddress address)) world)
  | freed
      {after : World}
      (events : Array Event)
      (notNull : address ≠ .null)
      (answer : store.free address world = .ok () after) :
      FreeOutcome store address world (.ok () { after with events })

theorem free_outcome
    (store : Store)
    (address : Address)
    (world : World) :
    FreeOutcome store address world (free store address world) := by
  unfold free
  by_cases isNull : address = .null
  · subst isNull
    exact .null rfl
  rw [Fallible.bind_of_ok (requireNonNull_of_ne isNull world)]
  have answers : ∃ after, store.free address world = .ok () after := by
    cases store <;> exact ⟨_, rfl⟩
  obtain ⟨after, answered⟩ := answers
  rw [Fallible.bind_of_ok answered]
  exact .freed _ isNull answered

/-- What was done by an allocation that an arena has granted. -/
inductive Granted (world : World) (size : UInt64) : Address → World → Prop
  | of_room
      {next : UInt64}
      (credit : Option Nat)
      (events : Array Event)
      (nonempty : size ≠ 0)
      (room : world.arena.nextAfter? size = some next) :
      Granted world size (world.arena.addressOf world.arena.next) { world with
        memory := world.memory.fill (world.arena.addressOf world.arena.next) size.toNat
          Arena.freshByte
        arena := { world.arena with
          next
          live := world.arena.live.insert world.arena.next size
          allocations := world.arena.allocations + 1
          credit }
        events }

theorem granted_of_allocate
    {size : UInt64}
    {address : Address}
    {world after : World}
    (granted : allocate .arena size world = .ok address after) :
    Granted world size address after := by
  have outcome := allocate_outcome .arena size world
  rw [granted] at outcome
  cases outcome with
  | granted events nonempty answer =>
      have outcome := Arena.allocate_outcome world.arena world.memory size
      simp only [Store.allocate, HeapM.onArena] at answer
      generalize world.arena.allocate world.memory size = result at answer outcome
      cases outcome with
      | refused credit failed => cases answer
      | granted credit room =>
          cases answer
          exact .of_room credit events nonempty room

/-- What was done by a reallocation that an arena has granted. -/
inductive Moved (world : World) (address : Address) (newSize : UInt64) :
    Address → World → Prop
  | of_room
      {size next : UInt64}
      (credit : Option Nat)
      (events : Array Event)
      (nonempty : newSize ≠ 0)
      (live : world.arena.sizeAt? address = some size)
      (room : world.arena.nextAfter? newSize = some next) :
      Moved world address newSize (world.arena.addressOf world.arena.next) { world with
        memory := (world.memory.fill (world.arena.addressOf world.arena.next) newSize.toNat
          Arena.freshByte).copy address (world.arena.addressOf world.arena.next)
            (min size newSize).toNat
        arena := { world.arena with
          next
          live := (world.arena.live.insert world.arena.next newSize).erase
            (world.arena.offsetOf address)
          allocations := world.arena.allocations + 1
          credit }
        events }

theorem moved_of_reallocate
    {address newAddress : Address}
    {newSize : UInt64}
    {world after : World}
    (moved : reallocate .arena address newSize world = .ok newAddress after) :
    Moved world address newSize newAddress after := by
  have outcome := reallocate_outcome .arena address newSize world
  rw [moved] at outcome
  cases outcome with
  | moved events nonempty notNull answer =>
      have outcome := Arena.reallocate_outcome world.arena world.memory address newSize
      simp only [Store.reallocate, HeapM.onArena] at answer
      generalize world.arena.reallocate world.memory address newSize = result at answer outcome
      cases outcome with
      | unknown dead => cases answer
      | refused credit live failed => cases answer
      | moved credit live room =>
          cases answer
          exact .of_room credit events nonempty live room

end Raw
end GuardedHeap
