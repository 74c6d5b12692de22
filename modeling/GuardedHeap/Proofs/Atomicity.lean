import GuardedHeap.Allocator.Stack
import GuardedHeap.Proofs.Allocator.Guarded
import GuardedHeap.Proofs.Allocator.Raw
import GuardedHeap.Proofs.Allocator.Registered
import GuardedHeap.Proofs.Arena.Outcome

/-!
# Failed calls

A call that fails leaves the heap as it was. Every layer undoes what it did
before the allocator below refused: a guarded layer stores the guard words that
it cleared, a registered layer puts back the entry that it took out. The main
result says so of every stack and every world, be its guard words intact or not.

Only the credit of the arena is used up by a failed call. The counts of counted
layers and the events are not part of what is compared.
-/

namespace GuardedHeap

/-- Two worlds with the same bytes, the same sizes in all registries, the same
counters of all guarded layers and, up to its credit, the same arena. -/
structure World.Unchanged (before after : World) : Prop where
  memory : ∀ address, after.memory.get address = before.memory.get address
  registries : ∀ layer address,
    (after.registries.get layer).find? address = (before.registries.get layer).find? address
  tallies : ∀ layer, after.tallies.get layer = before.tallies.get layer
  arena : { after.arena with credit := before.arena.credit } = before.arena
  system : after.system = before.system

namespace World

theorem Unchanged.refl (world : World) : world.Unchanged world where
  memory _ := rfl
  registries _ _ := rfl
  tallies _ := rfl
  arena := rfl
  system := rfl

/-- The counts of calls are not compared. -/
theorem Unchanged.of_callCounts
    {world after : World}
    {callCounts : Table CallCounts}
    (unchanged : World.Unchanged { world with callCounts } after) :
    world.Unchanged after where
  memory := unchanged.memory
  registries := unchanged.registries
  tallies := unchanged.tallies
  arena := unchanged.arena
  system := unchanged.system

end World

/-- A computation that fails only by a refusal, and then has changed nothing. -/
def HeapM.Atomic {α : Type} (computation : HeapM α) : Prop :=
  ∀ world failure after, computation world = .error failure after →
    (∃ error, failure = .refused error) ∧ world.Unchanged after

/-- An allocator whose calls are atomic, with whatever arguments. -/
structure Allocator.Atomic (allocator : Allocator) : Prop where
  allocate : ∀ size, (allocator.allocate size).Atomic
  reallocate : ∀ address newSize, (allocator.reallocate address newSize).Atomic
  free : ∀ address, (allocator.free address).Atomic

/-- An arena that hands out nothing only loses credit. -/
theorem World.unchanged_of_credit (world : World) (credit : Option Nat) :
    world.Unchanged { world with arena := { world.arena with credit } } where
  memory _ := rfl
  registries _ _ := rfl
  tallies _ := rfl
  arena := rfl
  system := rfl

namespace Store

theorem unchanged_of_allocate_none
    {store : Store}
    {size : UInt64}
    {world after : World}
    (answer : store.allocate size world = .ok none after) :
    world.Unchanged after := by
  cases store with
  | arena =>
      have outcome := Arena.allocate_outcome world.arena world.memory size
      simp only [allocate, HeapM.onArena] at answer
      generalize world.arena.allocate world.memory size = result at answer outcome
      cases outcome with
      | refused credit failed =>
          cases answer
          exact world.unchanged_of_credit credit
      | granted credit room => cases answer
  | system =>
      by_cases fits : size < SystemHeap.sizeLimit
      · simp [allocate, HeapM.onSystem, SystemHeap.allocate, fits] at answer
      · simp only [allocate, HeapM.onSystem, SystemHeap.allocate, fits, if_false] at answer
        cases answer
        exact .refl world

theorem unchanged_of_reallocate_none
    {store : Store}
    {address : Address}
    {newSize : UInt64}
    {world after : World}
    (answer : store.reallocate address newSize world = .ok none after) :
    world.Unchanged after := by
  cases store with
  | arena =>
      have outcome := Arena.reallocate_outcome world.arena world.memory address newSize
      simp only [reallocate, HeapM.onArena] at answer
      generalize world.arena.reallocate world.memory address newSize = result at answer outcome
      cases outcome with
      | unknown dead =>
          cases answer
          exact .refl world
      | refused credit live failed =>
          cases answer
          exact world.unchanged_of_credit credit
      | moved credit live room => cases answer
  | system =>
      by_cases fits : newSize < SystemHeap.sizeLimit
      · simp [reallocate, HeapM.onSystem, SystemHeap.reallocate, SystemHeap.allocate, fits]
          at answer
      · simp only [reallocate, HeapM.onSystem, SystemHeap.reallocate, SystemHeap.allocate, fits,
          if_false] at answer
        cases answer
        exact .refl world

end Store

namespace Allocator

theorem atomic_raw (store : Store) : (raw store).Atomic where
  allocate size world failure after failed := by
    have outcome := Raw.allocate_outcome store size world
    rw [show Raw.allocate store size world = .error failure after from failed] at outcome
    cases outcome with
    | empty isEmpty => exact ⟨⟨_, rfl⟩, .refl world⟩
    | exhausted nonempty answer => exact ⟨⟨_, rfl⟩, Store.unchanged_of_allocate_none answer⟩
  reallocate address newSize world failure after failed := by
    have outcome := Raw.reallocate_outcome store address newSize world
    rw [show Raw.reallocate store address newSize world = .error failure after from failed]
      at outcome
    cases outcome with
    | empty isEmpty => exact ⟨⟨_, rfl⟩, .refl world⟩
    | null nonempty isNull => exact ⟨⟨_, rfl⟩, .refl world⟩
    | exhausted nonempty notNull answer =>
        exact ⟨⟨_, rfl⟩, Store.unchanged_of_reallocate_none answer⟩
  free address world failure after failed := by
    have outcome := Raw.free_outcome store address world
    rw [show Raw.free store address world = .error failure after from failed] at outcome
    cases outcome with
    | null isNull => exact ⟨⟨_, rfl⟩, .refl world⟩

/-- The guard words that a failed call cleared around an intact block are stored
again, whatever else changed on the way there being undone already. -/
theorem unchanged_of_stored
    {world after : World}
    {region : Address}
    {size : UInt64}
    (fetched : Guard.fetch world.memory region = .ok size)
    (unchanged : (world.cleared region size).Unchanged after) :
    world.Unchanged (after.stored region size) where
  memory address := by
    have words := ((Guard.fetch_eq_ok_iff _ _ _).mp fetched).2.2
    have bytes := funext unchanged.memory
    exact congrFun (words.get_store_clear (Guarded.fits_of_fetched fetched) bytes) address
  registries := unchanged.registries
  tallies := unchanged.tallies
  arena := unchanged.arena
  system := unchanged.system

theorem Atomic.guarded
    {inner : Allocator}
    (atomic : inner.Atomic)
    (layer : Nat)
    (owns : Bool) :
    (guarded layer owns inner).Atomic where
  allocate size world failure after failed := by
    have outcome := Guarded.allocate_outcome layer inner size world
    rw [show Guarded.allocate layer inner size world = .error failure after from failed] at outcome
    cases outcome with
    | empty isEmpty => exact ⟨⟨_, rfl⟩, .refl world⟩
    | oversized nonempty large => exact ⟨⟨_, rfl⟩, .refl world⟩
    | failed nonempty fits below => exact atomic.allocate _ _ _ _ below
  reallocate block newSize world failure after failed := by
    have outcome := Guarded.reallocate_outcome layer inner block newSize world
    rw [show Guarded.reallocate layer inner block newSize world = .error failure after from failed]
      at outcome
    cases outcome with
    | empty isEmpty => exact ⟨⟨_, rfl⟩, .refl world⟩
    | oversized nonempty large => exact ⟨⟨_, rfl⟩, .refl world⟩
    | outside nonempty fits nowhere => exact ⟨⟨_, rfl⟩, .refl world⟩
    | unsound nonempty fits around fetched =>
        exact ⟨Guard.refused_of_fetch_eq_error fetched, .refl world⟩
    | failed nonempty fits around fetched below =>
        exact ⟨⟨_, rfl⟩,
          unchanged_of_stored fetched (atomic.reallocate _ _ _ _ _ below).2⟩
    | broken nonempty fits around fetched below =>
        obtain ⟨⟨error, refused⟩, _⟩ := atomic.reallocate _ _ _ _ _ below
        contradiction
  free block world failure after failed := by
    have outcome := Guarded.free_outcome layer inner block world
    rw [show Guarded.free layer inner block world = .error failure after from failed] at outcome
    cases outcome with
    | outside nowhere => exact ⟨⟨_, rfl⟩, .refl world⟩
    | unsound around fetched =>
        exact ⟨Guard.refused_of_fetch_eq_error fetched, .refl world⟩
    | failed around fetched below =>
        exact ⟨⟨_, rfl⟩, unchanged_of_stored fetched (atomic.free _ _ _ _ below).2⟩
    | broken around fetched below =>
        obtain ⟨⟨error, refused⟩, _⟩ := atomic.free _ _ _ _ below
        contradiction

/-- An entry that a failed call took out of a registry is put back. -/
theorem unchanged_of_inserted
    {world after : World}
    {layer : Nat}
    {address : Address}
    {size : UInt64}
    (held : (world.registries.get layer).find? address = some size)
    (unchanged : (world.erased layer address).Unchanged after) :
    world.Unchanged (after.inserted layer ⟨address, size⟩) where
  memory := unchanged.memory
  registries other sought := by
    have taken := unchanged.registries other sought
    rw [World.get_registries_erased] at taken
    rw [World.get_registries_inserted]
    by_cases same : other = layer
    · subst same
      rw [if_pos rfl] at taken ⊢
      rw [Registry.find?_insert, taken, Registry.find?_erase]
      by_cases equal : sought = address
      · rw [if_pos equal, equal, held]
      · rw [if_neg equal, if_neg equal]
    · rw [if_neg same] at taken ⊢
      exact taken
  tallies := unchanged.tallies
  arena := unchanged.arena
  system := unchanged.system

theorem Atomic.registered
    {inner : Allocator}
    (atomic : inner.Atomic)
    (layer : Nat)
    (owns : Bool) :
    (registered layer owns inner).Atomic where
  allocate size world failure after failed := by
    have outcome := Registered.allocate_outcome layer inner size world
    rw [show Registered.allocate layer inner size world = .error failure after from failed]
      at outcome
    cases outcome with
    | empty isEmpty => exact ⟨⟨_, rfl⟩, .refl world⟩
    | failed nonempty below => exact atomic.allocate _ _ _ _ below
  reallocate address newSize world failure after failed := by
    have outcome := Registered.reallocate_outcome layer inner address newSize world
    rw [show Registered.reallocate layer inner address newSize world = .error failure after
      from failed] at outcome
    cases outcome with
    | empty isEmpty => exact ⟨⟨_, rfl⟩, .refl world⟩
    | unknown nonempty absent => exact ⟨⟨_, rfl⟩, .refl world⟩
    | failed nonempty held below =>
        exact ⟨⟨_, rfl⟩,
          unchanged_of_inserted held (atomic.reallocate _ _ _ _ _ below).2⟩
    | broken nonempty held below =>
        obtain ⟨⟨error, refused⟩, _⟩ := atomic.reallocate _ _ _ _ _ below
        contradiction
  free address world failure after failed := by
    have outcome := Registered.free_outcome layer inner address world
    rw [show Registered.free layer inner address world = .error failure after from failed]
      at outcome
    cases outcome with
    | unknown absent => exact ⟨⟨_, rfl⟩, .refl world⟩
    | failed held below =>
        exact ⟨⟨_, rfl⟩, unchanged_of_inserted held (atomic.free _ _ _ _ below).2⟩
    | broken held below =>
        obtain ⟨⟨error, refused⟩, _⟩ := atomic.free _ _ _ _ below
        contradiction

theorem Atomic.counted
    {inner : Allocator}
    (atomic : inner.Atomic)
    (layer : Nat) :
    (counted layer inner).Atomic where
  allocate size world failure after failed := by
    obtain ⟨refused, unchanged⟩ := atomic.allocate size _ failure after failed
    exact ⟨refused, unchanged.of_callCounts⟩
  reallocate address newSize world failure after failed := by
    obtain ⟨refused, unchanged⟩ := atomic.reallocate address newSize _ failure after failed
    exact ⟨refused, unchanged.of_callCounts⟩
  free address world failure after failed := by
    obtain ⟨refused, unchanged⟩ := atomic.free address _ failure after failed
    exact ⟨refused, unchanged.of_callCounts⟩

end Allocator

namespace Stack

theorem allocator_atomic (stack : Stack) : stack.allocator.Atomic := by
  induction stack with
  | raw store => exact Allocator.atomic_raw store
  | guarded layer owns inner inductionHypothesis =>
      exact inductionHypothesis.guarded layer owns
  | registered layer owns inner inductionHypothesis =>
      exact inductionHypothesis.registered layer owns
  | counted layer inner inductionHypothesis => exact inductionHypothesis.counted layer

theorem call_atomic (stack : Stack) (call : Allocator.Call) :
    (stack.allocator.call call).Atomic := by
  intro world failure after failed
  have atomic := stack.allocator_atomic
  cases call with
  | allocate size => exact atomic.allocate _ _ _ _ (Fallible.error_of_bind_pure failed)
  | reallocate address newSize =>
      exact atomic.reallocate _ _ _ _ _ (Fallible.error_of_bind_pure failed)
  | free address => exact atomic.free _ _ _ _ (Fallible.error_of_bind_pure failed)

/-- A block that is registered but not guarded is not ended by either layer. -/
theorem free_of_unsound
    {registry : Nat}
    (guard : Nat)
    (store : Store)
    {block region : Address}
    {size : UInt64}
    {error : HeapError}
    {world : World}
    (held : (world.registries.get registry).find? block = some size)
    (around : Guard.regionOf? block = some region)
    (fetched : Guard.fetch world.memory region = .error (.refused error)) :
    ∃ after, (instrumented registry guard store).allocator.call (.free block) world =
      .error (.refused error) after := by
  have below : (Stack.guarded guard true (.raw store)).allocator.free block
      (world.erased registry block) = .error (.refused error) _ :=
    Guarded.free_of_unsound around fetched
  exact ⟨_, Fallible.bind_of_error (Registered.free_of_refused held below) _⟩

/-- A failed call of any stack of layers is refused for a cause and leaves memory,
registries, counters and the arena's books as they were, whatever the world was and
the arguments of the call were. -/
theorem unchanged_of_failed_call
    (stack : Stack)
    (call : Allocator.Call)
    (world after : World)
    (failure : Failure HeapError)
    (failed : stack.allocator.call call world = .error failure after) :
    (∃ error, failure = .refused error) ∧ world.Unchanged after :=
  stack.call_atomic call world failure after failed

/-- A registered block without guard words is not ended, and its registry keeps
it. -/
theorem unchanged_of_failed_call_of_unguarded :
    let world := { World.initial { base := ⟨4096⟩, capacity := 1024 } with
      registries := Table.empty.set 0 (Registry.empty.insert ⟨4112⟩ 8) }
    ∃ failure after,
      (instrumented 0 1 .arena).allocator.call (.free ⟨4112⟩) world = .error failure after ∧
        (∃ error, failure = .refused error) ∧ world.Unchanged after := by
  intro world
  have held : (world.registries.get 0).find? ⟨4112⟩ = some 8 := by decide +kernel
  have sizeWord : world.memory.readWord ⟨4096⟩ = 0 := by decide +kernel
  have fetched : Guard.fetch world.memory ⟨4096⟩ =
      .error (.refused (.corrupted ⟨4112⟩ .size Guard.largestSize 0)) := by
    simp [Guard.fetch, sizeWord, Guard.cleanup, Guard.blockOf, Guard.headerBytes, Address.add]
  have around : Guard.regionOf? ⟨4112⟩ = some ⟨4096⟩ := by decide
  obtain ⟨after, failed⟩ := free_of_unsound 1 .arena held around fetched
  exact ⟨_, after, failed, unchanged_of_failed_call _ _ _ _ _ failed⟩

end Stack

end GuardedHeap
