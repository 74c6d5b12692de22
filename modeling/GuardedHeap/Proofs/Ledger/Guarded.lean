import GuardedHeap.Proofs.Ledger.Basic

/-!
# Books of a guarded layer

A guarded layer keeps books on the blocks whose regions are in the books of the
allocator below. All that it does to memory is done to guard words, which belong to
a region and to no block, so its marks disturb neither the books below nor any
block, and clients who write into blocks do not disturb its marks.

The layer finds its blocks by their marks alone. What its counters say is of no concern to
them, so the marks are kept by every call, and beside that it is said what becomes of the
counters.
-/

namespace GuardedHeap

namespace World

variable {layers : List Nat}
variable {regions : List Extent}
variable {block : Extent}

/-- Marks around a block change no byte outside its region and no byte of the
block. -/
theorem get_mark_of_outside
    {address : Address}
    (memory : Memory)
    (fits : Guard.Fits block.size)
    (bounded : block.around.stop ≤ 0x10000000000000000)
    (sizeWord headerWord footerWord : UInt64)
    (outside : block.around.Contains address → block.Contains address) :
    (Guard.mark memory block.around.address (Guard.footerOf block.around.address block.size)
      sizeWord headerWord footerWord).get address = memory.get address := by
  apply Guard.get_mark_of_not_inWords
  intro inWords
  have inRegion := Extent.contains_around_of_inWords fits bounded inWords
  exact inRegion.2 (outside inRegion.1)

/-- Marks around a block disturb no layer for which its region is a live block. -/
theorem undisturbed_mark
    (world : World)
    (fits : Guard.Fits block.size)
    (bounded : block.around.stop ≤ 0x10000000000000000)
    (present : block.around ∈ regions)
    (sizeWord headerWord footerWord : UInt64) :
    Undisturbed layers regions world
      { world with
        memory := Guard.mark world.memory block.around.address
          (Guard.footerOf block.around.address block.size) sizeWord headerWord footerWord } where
  memory _ outside :=
    get_mark_of_outside _ fits bounded _ _ _ fun inside => absurd inside (outside _ present)
  registries _ _ _ := rfl
  tallies _ _ := rfl
  arena := rfl

/-- Marks around one block are made without touching the regions of others. -/
theorem Spares.mark
    {range : Extent}
    {before after : World}
    {others : List Extent}
    (spares : Spares layers (others.map Extent.around) before after)
    (placed : Placed range ((block :: others).map Extent.around))
    (fits : Guard.Fits block.size)
    (sizeWord headerWord footerWord : UInt64) :
    Spares layers (others.map Extent.around) before
      { after with
        memory := Guard.mark after.memory block.around.address
          (Guard.footerOf block.around.address block.size) sizeWord headerWord footerWord } where
  memory region present address contains := by
    have apart := placed.apart_head present
    rw [← spares.memory region present address contains]
    exact get_mark_of_outside _ fits (placed.stop_le (.head _)) _ _ _ fun inside =>
      absurd contains (apart.not_contains inside)
  registries := spares.registries
  tallies := spares.tallies

/-- Blocks are spared with their regions. -/
theorem Spares.of_around
    {range : Extent}
    {before after : World}
    {blocks : List Extent}
    (spares : Spares layers (blocks.map Extent.around) before after)
    (placed : Placed range (blocks.map Extent.around))
    (fits : ∀ block ∈ blocks, Guard.Fits block.size) :
    Spares layers blocks before after where
  memory block present address contains :=
    spares.memory block.around (List.mem_map_of_mem present) address
      (contains.around (fits block present) (placed.stop_le (List.mem_map_of_mem present)))
  registries := spares.registries
  tallies := spares.tallies

/-- What is changed inside blocks only is changed inside their regions only. -/
theorem Undisturbed.around
    {range : Extent}
    {before after : World}
    {blocks : List Extent}
    (undisturbed : Undisturbed layers blocks before after)
    (placed : Placed range (blocks.map Extent.around))
    (fits : ∀ block ∈ blocks, Guard.Fits block.size) :
    Undisturbed layers (blocks.map Extent.around) before after where
  memory address outside := by
    apply undisturbed.memory
    intro block present contains
    have inMap : block.around ∈ blocks.map Extent.around := List.mem_map_of_mem present
    exact outside block.around inMap (contains.around (fits block present) (placed.stop_le inMap))
  registries := undisturbed.registries
  tallies := undisturbed.tallies
  arena := undisturbed.arena

/-- The counters of a layer are of no concern to others. -/
theorem undisturbed_setTally
    {layer : Nat}
    (world : World)
    (other : layer ∉ layers)
    (tally : Tally)
    (events : Array Event) :
    Undisturbed layers regions world
      { world with tallies := world.tallies.set layer tally, events } where
  memory _ _ := rfl
  registries _ _ _ := rfl
  tallies index present := by
    have differs := ne_of_mem_of_not_mem present other
    simp [Table.get_set, differs]
  arena := rfl

/-- A layer may change its own counters. -/
theorem Spares.setTally
    {before after : World}
    {blocks : List Extent}
    (spares : Spares layers blocks before after)
    (layer : Nat)
    (tally : Tally)
    (events : Array Event) :
    Spares (layer :: layers) blocks before
      { after with tallies := after.tallies.set layer tally, events } where
  memory := spares.memory
  registries := (spares.cons layer).registries
  tallies index foreign := by
    have differs := List.ne_of_not_mem_cons foreign
    rw [← (spares.cons layer).tallies index foreign]
    simp [Table.get_set, differs]

end World

namespace Guarded

/-- The counters of a layer are exact, the guard words of all live blocks are
intact, and the allocator below keeps books of their regions. -/
structure Books
    (layer : Nat)
    (Inner : World → List Extent → Prop)
    (world : World)
    (blocks : List Extent) : Prop where
  fits : ∀ block ∈ blocks, Guard.Fits block.size
  positive : ∀ block ∈ blocks, 0 < block.size.toNat
  count : (world.tallies.get layer).blocks.toNat = blocks.length
  bytes : (world.tallies.get layer).bytes.toNat = Extent.totalSize blocks
  intact : ∀ block ∈ blocks, Guard.Intact world.memory block.around.address block.size
  inner : Inner world (blocks.map Extent.around)

/-- The guard words of all live blocks are intact, and the allocator below keeps books of
their regions. -/
structure Marked
    (Inner : World → List Extent → Prop)
    (world : World)
    (blocks : List Extent) : Prop where
  fits : ∀ block ∈ blocks, Guard.Fits block.size
  positive : ∀ block ∈ blocks, 0 < block.size.toNat
  intact : ∀ block ∈ blocks, Guard.Intact world.memory block.around.address block.size
  inner : Inner world (blocks.map Extent.around)

variable {inner : Allocator}
variable {layers : List Nat}
variable {range block : Extent}
variable {Inner : World → List Extent → Prop}
variable {layer : Nat}
variable {world after : World}
variable {blocks rest : List Extent}

namespace Marked

theorem perm
    (keeps : inner.Keeps layers range Inner)
    (marked : Marked Inner world blocks)
    (same : blocks.Perm rest) :
    Marked Inner world rest where
  fits block present := marked.fits block (same.mem_iff.mpr present)
  positive block present := marked.positive block (same.mem_iff.mpr present)
  intact block present := marked.intact block (same.mem_iff.mpr present)
  inner := keeps.perm marked.inner (same.map _)

theorem regions
    (keeps : inner.Keeps layers range Inner)
    (marked : Marked Inner world blocks) :
    Placed range (blocks.map Extent.around) :=
  keeps.placed marked.inner

theorem placed
    (keeps : inner.Keeps layers range Inner)
    (marked : Marked Inner world blocks) :
    Placed range blocks :=
  (marked.regions keeps).of_around marked.fits marked.positive

theorem undisturbed
    (keeps : inner.Keeps layers range Inner)
    (marked : Marked Inner world blocks)
    (undisturbed : World.Undisturbed layers blocks world after) :
    Marked Inner after blocks where
  fits := marked.fits
  positive := marked.positive
  intact block present := by
    refine (marked.intact block present).congr fun address inWords => ?_
    apply undisturbed.memory
    intro other otherPresent
    exact (marked.regions keeps).not_contains_of_inWords marked.fits present inWords otherPresent
  inner := keeps.undisturbed marked.inner
    (undisturbed.around (marked.regions keeps) marked.fits)

/-- Guard words that are stored around a fresh block make it a live one. -/
theorem of_store
    (keeps : inner.Keeps layers range Inner)
    (own : layer ∉ layers)
    (regions : Inner world ((block :: rest).map Extent.around))
    (fits : ∀ other ∈ block :: rest, Guard.Fits other.size)
    (positive : ∀ other ∈ block :: rest, 0 < other.size.toNat)
    (intact : ∀ other ∈ rest, Guard.Intact world.memory other.around.address other.size)
    (tally : Tally)
    (events : Array Event) :
    Marked Inner
      { world.stored block.around.address block.size with
        tallies := world.tallies.set layer tally
        events }
      (block :: rest) := by
  have placed := keeps.placed regions
  have blockFits := fits block (.head _)
  have bounded := placed.stop_le (.head _)
  refine ⟨fits, positive, ?_, ?_⟩
  · refine List.forall_mem_cons.mpr ⟨blockFits.intact_store _ _, fun other present => ?_⟩
    refine (intact other present).congr fun address inWords => ?_
    have inRegion := Extent.contains_around_of_inWords (fits other (.tail _ present))
      (placed.stop_le (List.mem_map_of_mem (.tail _ present))) inWords
    have apart := placed.apart_head (List.mem_map_of_mem present)
    exact World.get_mark_of_outside _ blockFits bounded _ _ _ fun inside =>
      absurd inRegion.1 (apart.not_contains inside)
  · have marked := keeps.undisturbed regions
      (World.undisturbed_mark world blockFits bounded (.head _) block.size Guard.headerStamp
        Guard.footerStamp)
    exact keeps.undisturbed marked (World.undisturbed_setTally _ own tally events)

/-- A call that spares the regions of blocks leaves their guard words intact. -/
theorem intact_of_spares
    (regions : Placed range (blocks.map Extent.around))
    (fits : ∀ block ∈ blocks, Guard.Fits block.size)
    (intact : ∀ block ∈ blocks, Guard.Intact world.memory block.around.address block.size)
    (spares : World.Spares layers (blocks.map Extent.around) world after) :
    ∀ block ∈ blocks, Guard.Intact after.memory block.around.address block.size := by
  intro block present
  refine (intact block present).congr fun address inWords => ?_
  apply spares.memory block.around (List.mem_map_of_mem present)
  exact (Extent.contains_around_of_inWords (fits block present)
    (regions.stop_le (List.mem_map_of_mem present)) inWords).1

theorem allocate
    {size : UInt64}
    {address : Address}
    (keeps : inner.Keeps layers range Inner)
    (own : layer ∉ layers)
    (marked : Marked Inner world blocks)
    (granted : Guarded.allocate layer inner size world = .ok address after) :
    Marked Inner after (⟨address, size⟩ :: blocks) ∧
      after.tallies.get layer = (world.tallies.get layer).grant size ∧
      World.Spares (layer :: layers) blocks world after := by
  have outcome := allocate_outcome layer inner size world
  rw [granted] at outcome
  cases outcome with
  | @granted region middle events nonempty sizeFits below =>
      obtain ⟨regions, spares⟩ := keeps.allocate marked.inner below
      rw [← Extent.around_blockOf region size, ← List.map_cons] at regions
      have fits : ∀ block ∈ ⟨Guard.blockOf region, size⟩ :: blocks, Guard.Fits block.size :=
        List.forall_mem_cons.mpr ⟨sizeFits, marked.fits⟩
      have positive : ∀ block ∈ ⟨Guard.blockOf region, size⟩ :: blocks, 0 < block.size.toNat :=
        List.forall_mem_cons.mpr ⟨Word.toNat_pos nonempty, marked.positive⟩
      have intact := intact_of_spares (marked.regions keeps) marked.fits marked.intact spares
      have stored := of_store keeps own regions fits positive intact
        ((middle.tallies.get layer).grant size) events
      have spared := ((spares.mark (keeps.placed regions) sizeFits size Guard.headerStamp
        Guard.footerStamp).of_around (marked.regions keeps) marked.fits).setTally layer
        ((middle.tallies.get layer).grant size) events
      rw [Extent.around_blockOf] at stored spared
      refine ⟨stored, ?_, spared⟩
      rw [← spares.tallies layer own]
      exact (Table.get_set ..).trans (if_pos rfl)

/-- The guard words of a live block are found as they were stored. -/
theorem fetch
    (keeps : inner.Keeps layers range Inner)
    (marked : Marked Inner world (block :: rest)) :
    Guard.fetch world.memory block.around.address = .ok block.size := by
  refine (Guard.fetch_eq_ok_iff _ _ _).mpr ⟨?_, ?_, marked.intact block (.head _)⟩
  · intro isEmpty
    have := marked.positive block (.head _)
    rw [isEmpty] at this
    exact absurd this (by decide)
  · have placed := marked.placed keeps
    have total := placed.total
    rw [Extent.totalSize_cons] at total
    have small := placed.small
    refine UInt64.le_iff_toNat_le.mpr ?_
    show _ ≤ 0x8000000000000000 - 1
    omega

theorem regionOf?
    (keeps : inner.Keeps layers range Inner)
    (marked : Marked Inner world (block :: rest)) :
    Guard.regionOf? block.address = some block.around.address := by
  have bounded := (marked.regions keeps).stop_le (.head _)
  have start := (Extent.start_around (marked.fits block (.head _)) bounded).1
  have ordered : Guard.headerBytes.toNat ≤ block.address.value.toNat := by
    show 16 ≤ block.start
    omega
  rw [Guard.regionOf?, Address.sub?, Word.sub?, if_pos ordered]
  rfl

/-- Clearing the guard words of a live block disturbs neither the books below nor
the other blocks. -/
theorem cleared
    (keeps : inner.Keeps layers range Inner)
    (marked : Marked Inner world (block :: rest)) :
    let cleared := world.cleared block.around.address block.size
    Inner cleared (block.around :: rest.map Extent.around) ∧
      (∀ other ∈ rest, Guard.Intact cleared.memory other.around.address other.size) ∧
      ∀ address, (block.around.Contains address → block.Contains address) →
        cleared.memory.get address = world.memory.get address := by
  have regions := marked.regions keeps
  have fits := marked.fits block (.head _)
  have bounded := regions.stop_le (.head _)
  have same : ∀ address, (block.around.Contains address → block.Contains address) →
      (world.cleared block.around.address block.size).memory.get address =
        world.memory.get address :=
    fun address outside => World.get_mark_of_outside _ fits bounded _ _ _ outside
  refine ⟨?_, fun other present => ?_, same⟩
  · exact keeps.undisturbed marked.inner
      (World.undisturbed_mark world fits bounded (.head _) Guard.cleanup Guard.cleanup
        Guard.cleanup)
  · refine (marked.intact other (.tail _ present)).congr fun address inWords => same address ?_
    have inRegion := Extent.contains_around_of_inWords (marked.fits other (.tail _ present))
      (regions.stop_le (List.mem_map_of_mem (.tail _ present))) inWords
    have apart := regions.apart_head (List.mem_map_of_mem present)
    exact fun inside => absurd inRegion.1 (apart.not_contains inside)

/-- What a call below spares after the guard words of a live block were cleared was
the same before. -/
theorem spares_of_cleared
    (keeps : inner.Keeps layers range Inner)
    (marked : Marked Inner world (block :: rest))
    (spares : World.Spares layers (rest.map Extent.around)
      (world.cleared block.around.address block.size) after) :
    World.Spares layers (rest.map Extent.around) world after where
  memory region present address contains := by
    have apart := (marked.regions keeps).apart_head present
    rw [spares.memory region present address contains]
    exact (marked.cleared keeps).2.2 address fun inside =>
      absurd contains (apart.not_contains inside)
  registries := spares.registries
  tallies := spares.tallies

/-- If the bytes of a region are carried over after its guard words were cleared,
so are those of its block, and the marks around the new block do not touch them. -/
theorem carries_of_store
    {new : Extent}
    (keeps : inner.Keeps layers range Inner)
    (marked : Marked Inner world (block :: rest))
    (fits : Guard.Fits new.size)
    (bounded : new.around.stop ≤ 0x10000000000000000)
    (carries : World.Carries block.around new.around
      (world.cleared block.around.address block.size) after)
    (tallies : Table Tally)
    (events : Array Event) :
    World.Carries block new world
      { after.stored new.around.address new.size with tallies, events } := by
  intro offset inBlock inNew
  have blockFits := marked.fits block (.head _)
  have inOld : block.Contains (block.address.add offset) :=
    Extent.contains_add ((marked.placed keeps).stop_le (.head _)) inBlock
  have newStop := (Extent.start_around fits bounded).2
  have inFresh : new.Contains (new.address.add offset) :=
    Extent.contains_add (by omega) inNew
  have distance : (Guard.headerBytes + offset).toNat = 16 + offset.toNat := by
    have small : Guard.Fits offset := Nat.lt_of_le_of_lt (by omega) fits
    exact small.toNat_headerBytes_add
  have region := carries (Guard.headerBytes + offset)
    (by rw [distance, Extent.around, blockFits.toNat_add]; omega)
    (by rw [distance, Extent.around, fits.toNat_add]; omega)
  simp only [Extent.around, ← Address.add_add, Address.add_sub_cancel] at region
  refine (World.get_mark_of_outside _ fits bounded _ _ _ fun _ => inFresh).trans
    (region.trans ?_)
  exact (marked.cleared keeps).2.2 _ fun _ => inOld

theorem reallocate
    {newSize : UInt64}
    {newAddress : Address}
    (keeps : inner.Keeps layers range Inner)
    (own : layer ∉ layers)
    (marked : Marked Inner world (block :: rest))
    (moved : Guarded.reallocate layer inner block.address newSize world =
      .ok newAddress after) :
    Marked Inner after (⟨newAddress, newSize⟩ :: rest) ∧
      after.tallies.get layer = (world.tallies.get layer).resize block.size newSize ∧
      World.Spares (layer :: layers) rest world after ∧
      World.Carries block ⟨newAddress, newSize⟩ world after := by
  have outcome := reallocate_outcome layer inner block.address newSize world
  rw [moved] at outcome
  cases outcome with
  | @moved region newRegion size middle events nonempty newFits around fetched below =>
      rw [marked.regionOf? keeps] at around
      cases around
      rw [marked.fetch keeps] at fetched
      cases fetched
      obtain ⟨innerCleared, intactCleared, sameCleared⟩ := marked.cleared keeps
      obtain ⟨regions, sparesCleared, carries⟩ := keeps.reallocate innerCleared below
      have spares := marked.spares_of_cleared keeps sparesCleared
      have restFits : ∀ other ∈ rest, Guard.Fits other.size :=
        fun other present => marked.fits other (.tail _ present)
      have newAround := Extent.around_blockOf newRegion newSize
      rw [← newAround] at carries
      rw [← newAround, ← List.map_cons] at regions
      have fits : ∀ block ∈ ⟨Guard.blockOf newRegion, newSize⟩ :: rest,
          Guard.Fits block.size :=
        List.forall_mem_cons.mpr ⟨newFits, restFits⟩
      have positive : ∀ block ∈ ⟨Guard.blockOf newRegion, newSize⟩ :: rest,
          0 < block.size.toNat :=
        List.forall_mem_cons.mpr ⟨Word.toNat_pos nonempty,
          fun other present => marked.positive other (.tail _ present)⟩
      have regionsPlaced := keeps.placed regions
      have intact := intact_of_spares (marked.regions keeps).tail restFits intactCleared
        sparesCleared
      have stored := of_store keeps own regions fits positive intact
        ((middle.tallies.get layer).resize block.size newSize) events
      have spared := ((spares.mark regionsPlaced newFits newSize Guard.headerStamp
        Guard.footerStamp).of_around (marked.regions keeps).tail restFits).setTally layer
        ((middle.tallies.get layer).resize block.size newSize) events
      have carried := marked.carries_of_store keeps newFits (regionsPlaced.stop_le (.head _))
        carries (middle.tallies.set layer ((middle.tallies.get layer).resize block.size newSize))
        events
      rw [newAround] at stored spared carried
      refine ⟨stored, ?_, spared, carried⟩
      rw [← spares.tallies layer own]
      exact (Table.get_set ..).trans (if_pos rfl)

theorem free
    (keeps : inner.Keeps layers range Inner)
    (own : layer ∉ layers)
    (marked : Marked Inner world (block :: rest)) :
    ∃ after, Guarded.free layer inner block.address world = .ok () after ∧
      Marked Inner after rest ∧
      after.tallies.get layer = (world.tallies.get layer).settle block.size ∧
      World.Spares (layer :: layers) rest world after := by
  obtain ⟨innerCleared, intactCleared, sameCleared⟩ := marked.cleared keeps
  obtain ⟨middle, freed, regions, sparesCleared⟩ := keeps.free innerCleared
  obtain ⟨events, ended⟩ :=
    free_of_freed (marked.regionOf? keeps) (marked.fetch keeps) freed
  have spares := marked.spares_of_cleared keeps sparesCleared
  have restFits : ∀ other ∈ rest, Guard.Fits other.size :=
    fun other present => marked.fits other (.tail _ present)
  have intact := intact_of_spares (marked.regions keeps).tail restFits intactCleared
    sparesCleared
  refine ⟨_, ended, ⟨restFits, fun other present => marked.positive other (.tail _ present),
    intact, keeps.undisturbed regions (World.undisturbed_setTally _ own _ _)⟩, ?_,
    (spares.of_around (marked.regions keeps).tail restFits).setTally layer _ events⟩
  rw [← spares.tallies layer own]
  exact (Table.get_set ..).trans (if_pos rfl)

/-- Exact counters make books of marks. -/
theorem books
    (marked : Marked Inner world blocks)
    (count : (world.tallies.get layer).blocks.toNat = blocks.length)
    (bytes : (world.tallies.get layer).bytes.toNat = Extent.totalSize blocks) :
    Books layer Inner world blocks :=
  ⟨marked.fits, marked.positive, count, bytes, marked.intact, marked.inner⟩

end Marked

namespace Books

theorem marked (books : Books layer Inner world blocks) : Marked Inner world blocks :=
  ⟨books.fits, books.positive, books.intact, books.inner⟩

theorem perm
    (keeps : inner.Keeps layers range Inner)
    (books : Books layer Inner world blocks)
    (same : blocks.Perm rest) :
    Books layer Inner world rest :=
  (books.marked.perm keeps same).books (books.count.trans same.length_eq)
    (books.bytes.trans (Extent.totalSize_perm same))

theorem undisturbed
    (keeps : inner.Keeps layers range Inner)
    (books : Books layer Inner world blocks)
    (undisturbed : World.Undisturbed (layer :: layers) blocks world after) :
    Books layer Inner after blocks := by
  have same := undisturbed.tallies layer (.head _)
  apply (books.marked.undisturbed keeps undisturbed.of_cons).books
  · rw [same, books.count]
  · rw [same, books.bytes]

/-- Blocks that are placed are no more, and have no more bytes, than a word counts. -/
theorem allocate
    {size : UInt64}
    {address : Address}
    (keeps : inner.Keeps layers range Inner)
    (own : layer ∉ layers)
    (books : Books layer Inner world blocks)
    (granted : Guarded.allocate layer inner size world = .ok address after) :
    Books layer Inner after (⟨address, size⟩ :: blocks) ∧
      World.Spares (layer :: layers) blocks world after := by
  obtain ⟨marked, tally, spares⟩ := books.marked.allocate keeps own granted
  have placed := marked.placed keeps
  have few := range.size.toNat_lt
  have length := placed.length_le
  have total := placed.total
  have count := books.count
  have bytes := books.bytes
  rw [List.length_cons] at length
  rw [Extent.totalSize_cons] at total
  dsimp only at total
  obtain ⟨countAfter, bytesAfter⟩ :=
    @Tally.toNat_grant (world.tallies.get layer) size (by omega) (by omega)
  rw [← tally] at countAfter bytesAfter
  refine ⟨marked.books ?_ ?_, spares⟩
  · rw [countAfter, count, List.length_cons]
  · rw [bytesAfter, bytes, Extent.totalSize_cons, Nat.add_comm]

theorem reallocate
    {newSize : UInt64}
    {newAddress : Address}
    (keeps : inner.Keeps layers range Inner)
    (own : layer ∉ layers)
    (books : Books layer Inner world (block :: rest))
    (moved : Guarded.reallocate layer inner block.address newSize world =
      .ok newAddress after) :
    Books layer Inner after (⟨newAddress, newSize⟩ :: rest) ∧
      World.Spares (layer :: layers) rest world after ∧
        World.Carries block ⟨newAddress, newSize⟩ world after := by
  obtain ⟨marked, tally, spares, carries⟩ := books.marked.reallocate keeps own moved
  have few := range.size.toNat_lt
  have total := (marked.placed keeps).total
  have bytes := books.bytes
  rw [Extent.totalSize_cons] at total bytes
  dsimp only at total
  obtain ⟨countAfter, bytesAfter⟩ :=
    @Tally.toNat_resize (world.tallies.get layer) block.size newSize (by omega)
  rw [← tally] at countAfter bytesAfter
  refine ⟨marked.books ?_ ?_, spares, carries⟩
  · rw [countAfter, books.count]
    rfl
  · rw [bytesAfter, bytes, Extent.totalSize_cons]
    dsimp only
    omega

theorem free
    (keeps : inner.Keeps layers range Inner)
    (own : layer ∉ layers)
    (books : Books layer Inner world (block :: rest)) :
    ∃ after, Guarded.free layer inner block.address world = .ok () after ∧
      Books layer Inner after rest ∧ World.Spares (layer :: layers) rest world after := by
  obtain ⟨after, freed, marked, tally, spares⟩ := books.marked.free keeps own
  obtain ⟨countAfter, bytesAfter⟩ := (world.tallies.get layer).toNat_settle block.size
  rw [← tally] at countAfter bytesAfter
  refine ⟨after, freed, marked.books ?_ ?_, spares⟩
  · rw [countAfter, books.count]
    rfl
  · rw [bytesAfter, books.bytes, Extent.totalSize_cons, Nat.add_sub_cancel_left]

end Books

theorem keeps
    (keeps : inner.Keeps layers range Inner)
    (own : layer ∉ layers)
    (owns : Bool) :
    (Allocator.guarded layer owns inner).Keeps (layer :: layers) range (Books layer Inner) where
  perm books same := books.perm keeps same
  undisturbed books undisturbed := books.undisturbed keeps undisturbed
  placed books := books.marked.placed keeps
  allocate books granted := books.allocate keeps own granted
  reallocate books moved := books.reallocate keeps own moved
  free books := books.free keeps own

end Guarded
end GuardedHeap
