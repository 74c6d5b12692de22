import GuardedHeap.Proofs.Ledger.Basic

/-!
# Books of a registered layer

The registry of a registered layer names exactly the live blocks, which are also in
the books of the allocator below. While that is called, the block that is moved or
ended is in no registry of this layer.
-/

namespace GuardedHeap

namespace World

variable {layers : List Nat}
variable {blocks : List Extent}
variable {layer : Nat}

/-- What a layer puts into its registry is of no concern to others. -/
theorem undisturbed_inserted
    (world : World)
    (other : layer ∉ layers)
    (block : Extent)
    (events : Array Event) :
    Undisturbed layers blocks world { world.inserted layer block with events } where
  memory _ _ := rfl
  registries index present address := by
    have differs := ne_of_mem_of_not_mem present other
    dsimp only
    rw [get_registries_inserted, if_neg differs]
  tallies _ _ := rfl
  arena := rfl

theorem undisturbed_erased
    (world : World)
    (other : layer ∉ layers)
    (address : Address) :
    Undisturbed layers blocks world (world.erased layer address) where
  memory _ _ := rfl
  registries index present address := by
    have differs := ne_of_mem_of_not_mem present other
    rw [get_registries_erased, if_neg differs]
  tallies _ _ := rfl
  arena := rfl

/-- A layer may put a block into its own registry. -/
theorem Spares.inserted
    {before after : World}
    (spares : Spares layers blocks before after)
    (layer : Nat)
    (block : Extent)
    (events : Array Event) :
    Spares (layer :: layers) blocks before { after.inserted layer block with events } where
  memory := spares.memory
  registries index foreign address := by
    have differs := List.ne_of_not_mem_cons foreign
    rw [← (spares.cons layer).registries index foreign]
    dsimp only
    rw [get_registries_inserted, if_neg differs]
  tallies := (spares.cons layer).tallies

/-- What a layer took out of its own registry beforehand is its own affair. -/
theorem Spares.of_erased
    {before after : World}
    {address : Address}
    (spares : Spares (layer :: layers) blocks (before.erased layer address) after) :
    Spares (layer :: layers) blocks before after where
  memory := spares.memory
  registries index foreign address := by
    have differs := List.ne_of_not_mem_cons foreign
    rw [spares.registries index foreign, get_registries_erased, if_neg differs]
  tallies := spares.tallies

end World

namespace Registered

/-- The registry of a layer holds exactly the live blocks, and the allocator below
keeps books of them. -/
structure Books
    (layer : Nat)
    (Inner : World → List Extent → Prop)
    (world : World)
    (blocks : List Extent) : Prop where
  held : Finds (world.registries.get layer).find? blocks
  inner : Inner world blocks

variable {inner : Allocator}
variable {layers : List Nat}
variable {range block : Extent}
variable {Inner : World → List Extent → Prop}
variable {layer : Nat}
variable {world after : World}
variable {blocks rest : List Extent}

namespace Books

theorem find?_head (books : Books layer Inner world (block :: rest)) :
    (world.registries.get layer).find? block.address = some block.size :=
  (books.held block.address block.size).mpr (.head _)

/-- Taking a live block out of the registry disturbs nothing below. -/
theorem erased
    (keeps : inner.Keeps layers range Inner)
    (own : layer ∉ layers)
    (books : Books layer Inner world (block :: rest)) :
    let erased := world.erased layer block.address
    Inner erased (block :: rest) ∧ Finds (erased.registries.get layer).find? rest := by
  refine ⟨?_, ?_⟩
  · exact keeps.undisturbed books.inner (World.undisturbed_erased world own block.address)
  · rw [World.get_registries_erased, if_pos rfl]
    exact books.held.erase (keeps.placed books.inner).not_mem_tail (Registry.find?_erase _ _)

theorem allocate
    {size : UInt64}
    {address : Address}
    (keeps : inner.Keeps layers range Inner)
    (own : layer ∉ layers)
    (books : Books layer Inner world blocks)
    (granted : Registered.allocate layer inner size world = .ok address after) :
    Books layer Inner after (⟨address, size⟩ :: blocks) ∧
      World.Spares (layer :: layers) blocks world after := by
  have outcome := allocate_outcome layer inner size world
  rw [granted] at outcome
  cases outcome with
  | @granted address middle events nonempty below =>
      obtain ⟨innerAfter, spares⟩ := keeps.allocate books.inner below
      refine ⟨⟨?_, ?_⟩, spares.inserted layer ⟨address, size⟩ events⟩
      · have fresh := (keeps.placed innerAfter).not_mem_tail
        dsimp only
        rw [World.get_registries_inserted, if_pos rfl]
        exact (books.held.congr (spares.registries layer own)).insert fresh
          fun sought => Registry.find?_insert _ _ sought _
      · exact keeps.undisturbed innerAfter
          (World.undisturbed_inserted middle own ⟨address, size⟩ events)

theorem reallocate
    {newSize : UInt64}
    {newAddress : Address}
    (keeps : inner.Keeps layers range Inner)
    (own : layer ∉ layers)
    (books : Books layer Inner world (block :: rest))
    (moved : Registered.reallocate layer inner block.address newSize world =
      .ok newAddress after) :
    Books layer Inner after (⟨newAddress, newSize⟩ :: rest) ∧
      World.Spares (layer :: layers) rest world after ∧
        World.Carries block ⟨newAddress, newSize⟩ world after := by
  have outcome := reallocate_outcome layer inner block.address newSize world
  rw [moved] at outcome
  cases outcome with
  | @moved size address middle events nonempty held below =>
      obtain ⟨innerErased, heldErased⟩ := books.erased keeps own
      obtain ⟨innerAfter, spares, carries⟩ := keeps.reallocate innerErased below
      refine ⟨⟨?_, ?_⟩, (spares.inserted layer ⟨newAddress, newSize⟩ events).of_erased,
        carries⟩
      · have fresh := (keeps.placed innerAfter).not_mem_tail
        dsimp only
        rw [World.get_registries_inserted, if_pos rfl]
        exact (heldErased.congr (spares.registries layer own)).insert fresh
          fun sought => Registry.find?_insert _ _ sought _
      · exact keeps.undisturbed innerAfter
          (World.undisturbed_inserted middle own ⟨newAddress, newSize⟩ events)

theorem free
    (keeps : inner.Keeps layers range Inner)
    (own : layer ∉ layers)
    (books : Books layer Inner world (block :: rest)) :
    ∃ after, Registered.free layer inner block.address world = .ok () after ∧
      Books layer Inner after rest ∧ World.Spares (layer :: layers) rest world after := by
  obtain ⟨innerErased, heldErased⟩ := books.erased keeps own
  obtain ⟨middle, freed, innerAfter, spares⟩ := keeps.free innerErased
  obtain ⟨events, ended⟩ := free_of_freed books.find?_head freed
  have foreign := (spares.cons layer).of_erased
  refine ⟨_, ended, ⟨heldErased.congr (spares.registries layer own), ?_⟩,
    ⟨foreign.memory, foreign.registries, foreign.tallies⟩⟩
  exact keeps.undisturbed innerAfter (World.undisturbed_events middle events)

end Books

theorem keeps
    (keeps : inner.Keeps layers range Inner)
    (own : layer ∉ layers)
    (owns : Bool) :
    (Allocator.registered layer owns inner).Keeps (layer :: layers) range
      (Books layer Inner) where
  perm books same := ⟨books.held.perm same, keeps.perm books.inner same⟩
  undisturbed books undisturbed :=
    ⟨books.held.congr (undisturbed.registries _ (.head _)),
      keeps.undisturbed books.inner undisturbed.of_cons⟩
  placed books := keeps.placed books.inner
  allocate books granted := books.allocate keeps own granted
  reallocate books moved := books.reallocate keeps own moved
  free books := books.free keeps own

end Registered
end GuardedHeap
