import GuardedHeap.Proofs.Ledger.Stack
import GuardedHeap.Proofs.Memory.Confined
import GuardedHeap.Proofs.Registry.Contents

/-!
# Registries beside each other

Several registered layers may lie above one allocator. Each of them sees only its own
blocks, and to its calls the blocks of all others are part of the state of the allocator
below: an allocator that keeps books of all blocks also keeps books of some of them, beside
the others.

So a call on one registry changes the books as it would if that registry were alone, and
leaves the other registries as they were.
-/

namespace GuardedHeap

open Fallible (final)

/-- What is counted of lists can be counted list by list. -/
theorem Word.total_flatMap
    {α β : Type}
    {count : List β → Nat}
    (nil : count [] = 0)
    (append : ∀ left right, count (left ++ right) = count left + count right)
    (items : List α)
    (listOf : α → List β) :
    count (items.flatMap listOf) = total (items.map fun item => count (listOf item)) := by
  induction items with
  | nil => exact nil
  | cons item items inductionHypothesis =>
      rw [List.flatMap_cons, append, inductionHypothesis, List.map_cons, total_cons]

theorem Extent.totalSize_append (blocks others : List Extent) :
    totalSize (blocks ++ others) = totalSize blocks + totalSize others := by
  induction blocks with
  | nil => exact (Nat.zero_add _).symm
  | cons block blocks inductionHypothesis =>
      rw [List.cons_append, totalSize_cons, totalSize_cons, inductionHypothesis, Nat.add_assoc]

/-- Some of the blocks that are placed are placed too. -/
theorem Placed.of_append
    {range : Extent}
    {blocks others : List Extent}
    (placed : Placed range (blocks ++ others)) :
    Placed range blocks where
  bounded := placed.bounded
  small := placed.small
  inside block present := placed.inside block (List.mem_append_left _ present)
  positive block present := placed.positive block (List.mem_append_left _ present)
  apart := (List.pairwise_append.mp placed.apart).1
  total := by
    have total := placed.total
    rw [Extent.totalSize_append] at total
    omega

/-- No block of one part starts where a block of the other part does. -/
theorem Placed.not_mem_of_append
    {range : Extent}
    {blocks others : List Extent}
    {address : Address}
    {size : UInt64}
    (placed : Placed range (blocks ++ others))
    (present : ⟨address, size⟩ ∈ blocks)
    (otherSize : UInt64) :
    ⟨address, otherSize⟩ ∉ others := by
  intro otherPresent
  have apart := (List.pairwise_append.mp placed.apart).2.2 _ present _ otherPresent
  have first := placed.positive _ (List.mem_append_left _ present)
  have second := placed.positive _ (List.mem_append_right _ otherPresent)
  simp only [Extent.Apart, Extent.stop, Extent.start] at apart first second
  omega

namespace World

variable {layers : List Nat}
variable {blocks : List Extent}
variable {before after : World}

/-- What is disturbed inside some blocks only is disturbed inside more blocks only. -/
theorem Undisturbed.append
    (undisturbed : Undisturbed layers blocks before after)
    (others : List Extent) :
    Undisturbed layers (blocks ++ others) before after where
  memory address outside :=
    undisturbed.memory address fun block present => outside block (List.mem_append_left _ present)
  registries := undisturbed.registries
  tallies := undisturbed.tallies
  arena := undisturbed.arena

theorem Spares.of_append
    {others : List Extent}
    (spares : Spares layers (blocks ++ others) before after) :
    Spares layers blocks before after where
  memory block present := spares.memory block (List.mem_append_left _ present)
  registries := spares.registries
  tallies := spares.tallies

end World

/-- An allocator that keeps books of all blocks keeps books of some of them, beside the
others. -/
theorem Allocator.Keeps.beside
    {allocator : Allocator}
    {layers : List Nat}
    {range : Extent}
    {Books : World → List Extent → Prop}
    (keeps : allocator.Keeps layers range Books)
    (others : List Extent) :
    allocator.Keeps layers range fun world blocks => Books world (blocks ++ others) where
  perm books same := keeps.perm books (same.append_right others)
  undisturbed books undisturbed := keeps.undisturbed books (undisturbed.append others)
  placed books := (keeps.placed books).of_append
  allocate books granted := by
    obtain ⟨booksAfter, spares⟩ := keeps.allocate books granted
    exact ⟨booksAfter, spares.of_append⟩
  reallocate books moved := by
    obtain ⟨booksAfter, spares, carries⟩ := keeps.reallocate books moved
    exact ⟨booksAfter, spares.of_append, carries⟩
  free books := by
    obtain ⟨after, freed, booksAfter, spares⟩ := keeps.free books
    exact ⟨after, freed, booksAfter, spares.of_append⟩

namespace World

/-- The blocks of some registries. -/
def blocksOf (world : World) (registries : List Nat) : List Extent :=
  registries.flatMap fun registry => (world.registries.get registry).extents

/-- The blocks of one registry can be put before those of all others. -/
theorem blocksOf_perm_of_mem
    {registry : Nat}
    {registries : List Nat}
    (world : World)
    (present : registry ∈ registries) :
    (world.blocksOf registries).Perm
      ((world.registries.get registry).extents ++
        world.blocksOf (registries.erase registry)) :=
  (List.perm_cons_erase present).flatMap_right _

/-- Two worlds in which all registries but some find the same sizes. -/
def SameRegistries (layers : List Nat) (before after : World) : Prop :=
  ∀ layer, layer ∉ layers → ∀ address,
    (after.registries.get layer).find? address = (before.registries.get layer).find? address

/-- Registries that find the same sizes have the same blocks. -/
theorem blocksOf_perm
    {registries : List Nat}
    {before after : World}
    (same : ∀ registry ∈ registries, ∀ address,
      (after.registries.get registry).find? address =
        (before.registries.get registry).find? address) :
    (before.blocksOf registries).Perm (after.blocksOf registries) := by
  refine List.Perm.flatMap_left registries fun registry present => ?_
  refine List.Perm.map _ (Registry.entries_perm_of_find?_eq fun address => ?_)
  exact (same registry present address).symm

end World

namespace Registered

variable {shared : Stack}
variable {range : Extent}
variable {registry : Nat}
variable {Inner : World → List Extent → Prop}
variable {blocks : List Extent}
variable {world after : World}

/-- A call that a registered layer answers changes its books, which it has to be about a
block of its own to do, and no other registry. -/
theorem Books.of_answered
    {call : Allocator.Call}
    {value : Option Address}
    (keeps : shared.allocator.Keeps shared.layers range Inner)
    (own : registry ∉ shared.layers)
    (owns : Bool)
    (books : Books registry Inner world blocks)
    (answered : (Allocator.registered registry owns shared.allocator).call call world =
      .ok value after) :
    (∃ blocksAfter, Books registry Inner after blocksAfter) ∧
      world.SameRegistries (registry :: shared.layers) after := by
  have keepsOwn := Registered.keeps keeps own owns
  cases call with
  | allocate size =>
      obtain ⟨address, granted, _⟩ := Fallible.ok_of_bind_pure answered
      obtain ⟨booksAfter, spares⟩ := keepsOwn.allocate books granted
      exact ⟨⟨_, booksAfter⟩, spares.registries⟩
  | reallocate address newSize =>
      obtain ⟨newAddress, moved, _⟩ := Fallible.ok_of_bind_pure answered
      have outcome := reallocate_outcome registry shared.allocator address newSize world
      rw [show Registered.reallocate registry shared.allocator address newSize world = _
        from moved] at outcome
      cases outcome with
      | @moved size _ _ events nonempty held below =>
          have live := (books.held address size).mp held
          have moving := keepsOwn.perm books (List.perm_cons_erase live)
          obtain ⟨booksAfter, spares, _⟩ := keepsOwn.reallocate moving moved
          exact ⟨⟨_, booksAfter⟩, spares.registries⟩
  | free address =>
      obtain ⟨_, freed, _⟩ := Fallible.ok_of_bind_pure answered
      have outcome := free_outcome registry shared.allocator address world
      rw [show Registered.free registry shared.allocator address world = _ from freed] at outcome
      cases outcome with
      | @freed size _ events held below =>
          have live := (books.held address size).mp held
          have freeing := keepsOwn.perm books (List.perm_cons_erase live)
          obtain ⟨_, ended, booksAfter, spares⟩ := keepsOwn.free freeing
          rw [freed] at ended
          cases ended
          exact ⟨⟨_, booksAfter⟩, spares.registries⟩

/-- Whatever call is made to a registered layer, it ends with books, and no other registry
is changed. -/
theorem Books.of_call
    (keeps : shared.allocator.Keeps shared.layers range Inner)
    (own : registry ∉ shared.layers)
    (owns : Bool)
    (books : Books registry Inner world blocks)
    (call : Allocator.Call) :
    let after := final ((Allocator.registered registry owns shared.allocator).call call) world
    (∃ blocksAfter, Books registry Inner after blocksAfter) ∧
      world.SameRegistries (registry :: shared.layers) after := by
  unfold final
  cases ended : (Allocator.registered registry owns shared.allocator).call call world with
  | ok value after => exact books.of_answered keeps own owns ended
  | error failure after =>
      have unchanged := ((Stack.registered registry owns shared).call_atomic call world failure
        after ended).2
      have booksAfter := (Registered.keeps keeps own owns).undisturbed books
        (unchanged.undisturbed _ _)
      exact ⟨⟨blocks, booksAfter⟩, fun layer _ => unchanged.registries layer⟩

end Registered

namespace Stack.Books

variable {shared : Stack}
variable {range : Extent}
variable {registries : List Nat}
variable {registry : Nat}
variable {world : World}

/-- The books of a shared allocator are about the blocks of all registries above it,
whatever call is made to one of them. -/
theorem of_shared_call
    (overArena : shared.store = .arena)
    (layersDistinct : shared.layers.Nodup)
    (distinct : registries.Nodup)
    (apart : ∀ registry ∈ registries, registry ∉ shared.layers)
    (books : shared.Books range world (world.blocksOf registries))
    (present : registry ∈ registries)
    (owns : Bool)
    (call : Allocator.Call) :
    let after := final ((Allocator.registered registry owns shared.allocator).call call) world
    shared.Books range after (after.blocksOf registries) ∧
      world.SameRegistries (registry :: shared.layers) after := by
  intro after
  have keeps := shared.keeps range overArena layersDistinct
  have keepsBeside := keeps.beside (world.blocksOf (registries.erase registry))
  have booksBeside : Registered.Books registry
      (fun world blocks => shared.Books range world (blocks ++ _)) world
      (world.registries.get registry).extents :=
    ⟨Registry.finds_extents _, keeps.perm books (world.blocksOf_perm_of_mem present)⟩
  obtain ⟨⟨blocksAfter, heldAfter, innerAfter⟩, others⟩ :=
    booksBeside.of_call keepsBeside (apart registry present) owns call
  refine ⟨?_, others⟩
  have ownBlocks : blocksAfter.Perm (after.registries.get registry).extents :=
    (heldAfter.extents_perm (keepsBeside.placed innerAfter).nodup).symm
  have otherBlocks : (world.blocksOf (registries.erase registry)).Perm
      (after.blocksOf (registries.erase registry)) := by
    refine World.blocksOf_perm fun other isOther => others other ?_
    obtain ⟨differs, otherPresent⟩ := distinct.mem_erase_iff.mp isOther
    exact List.not_mem_cons_of_ne_of_not_mem differs (apart other otherPresent)
  exact keeps.perm innerAfter
    ((ownBlocks.append otherBlocks).trans (after.blocksOf_perm_of_mem present).symm)

end Stack.Books
end GuardedHeap
