import GuardedHeap.Allocator.Guarded
import GuardedHeap.Proofs.Allocator.Basic
import GuardedHeap.Proofs.Guard.Intact

/-!
# Outcomes of guarded calls

Each call of a guarded layer is described by a list of outcomes, one for every
way in which it can end. An outcome names what was found before the allocator
below was called, how that allocator answered, and the world that is left.
-/

namespace GuardedHeap

namespace Tally

/-- The counters after a new block. -/
def grant (tally : Tally) (size : UInt64) : Tally :=
  ⟨tally.blocks + 1, tally.bytes + size⟩

/-- The counters after a block got a new size. -/
def resize (tally : Tally) (size newSize : UInt64) : Tally where
  blocks := tally.blocks
  bytes :=
    if size ≤ newSize then tally.bytes + (newSize - size)
    else Word.saturatingSub tally.bytes (size - newSize)

/-- The counters after a block ended. -/
def settle (tally : Tally) (size : UInt64) : Tally :=
  ⟨Word.saturatingSub tally.blocks 1, Word.saturatingSub tally.bytes size⟩

variable {tally : Tally}
variable {size newSize : UInt64}

/-- Counters that do not overflow count a new block exactly. -/
theorem toNat_grant
    (fewBlocks : tally.blocks.toNat + 1 < 0x10000000000000000)
    (fewBytes : tally.bytes.toNat + size.toNat < 0x10000000000000000) :
    (tally.grant size).blocks.toNat = tally.blocks.toNat + 1 ∧
      (tally.grant size).bytes.toNat = tally.bytes.toNat + size.toNat := by
  simp only [grant, UInt64.toNat_add, UInt64.reduceToNat]
  omega

/-- Of the bytes that a block gains and of those that it loses, one is none. What it loses is
taken off as long as there is something to take it off from. -/
theorem toNat_resize
    (fewBytes : tally.bytes.toNat + newSize.toNat < 0x10000000000000000 + size.toNat) :
    (tally.resize size newSize).blocks = tally.blocks ∧
      (tally.resize size newSize).bytes.toNat =
        tally.bytes.toNat + (newSize.toNat - size.toNat) - (size.toNat - newSize.toNat) := by
  refine ⟨rfl, ?_⟩
  unfold resize
  by_cases grows : size ≤ newSize
  · have ordered := UInt64.le_iff_toNat_le.mp grows
    simp only [grows, if_true, UInt64.toNat_add, UInt64.toNat_sub_of_le _ _ grows]
    omega
  · have ordered : newSize.toNat ≤ size.toNat :=
      Nat.le_of_not_le fun ordered => grows (UInt64.le_iff_toNat_le.mpr ordered)
    have difference := UInt64.toNat_sub_of_le _ _ (UInt64.le_iff_toNat_le.mpr ordered)
    simp only [grows, if_false]
    rw [Word.toNat_saturatingSub]
    omega

/-- A block that ends is taken off as long as there is something to take it off from. -/
theorem toNat_settle (tally : Tally) (size : UInt64) :
    (tally.settle size).blocks.toNat = tally.blocks.toNat - 1 ∧
      (tally.settle size).bytes.toNat = tally.bytes.toNat - size.toNat :=
  ⟨Word.toNat_saturatingSub _ _, Word.toNat_saturatingSub _ _⟩

end Tally

namespace World

/-- The world after the guard words of a block were stored. -/
def stored (world : World) (region : Address) (size : UInt64) : World :=
  { world with memory := Guard.store world.memory region (Guard.footerOf region size) size }

/-- The world after the guard words of a block were cleared. -/
def cleared (world : World) (region : Address) (size : UInt64) : World :=
  { world with memory := Guard.clear world.memory region (Guard.footerOf region size) }

end World

namespace Guarded

open Allocator (requirePositive requirePositive_of_nonempty)
open Guard (Fits)

theorem regionSize_of_fits
    {size : UInt64}
    (fits : Fits size)
    (world : World) :
    regionSize size world = .ok (size + 24) world := by
  rw [regionSize, fits.regionSize?_eq_some]
  rfl

theorem regionSize_of_large
    {size : UInt64}
    (large : ¬ Fits size)
    (world : World) :
    regionSize size world = .error (.refused (.outOfResources size)) world := by
  rw [regionSize, Guard.regionSize?_eq_none large]
  rfl

theorem storeGuards_apply
    {size : UInt64}
    (fits : Fits size)
    (region : Address)
    (world : World) :
    storeGuards region size world = .ok () (world.stored region size) := by
  rw [storeGuards, fits.footerOf?_eq_some]
  rfl

theorem clearGuards_apply
    {size : UInt64}
    (fits : Fits size)
    (region : Address)
    (world : World) :
    clearGuards region size world = .ok () (world.cleared region size) := by
  rw [clearGuards, fits.footerOf?_eq_some]
  rfl

theorem fetchSize_of_ok
    {region : Address}
    {size : UInt64}
    {world : World}
    (fetched : Guard.fetch world.memory region = .ok size) :
    fetchSize region world = .ok size world := by
  simp only [fetchSize, HeapM.onMemory, Fallible.inspect, fetched]

theorem fetchSize_of_error
    {region : Address}
    {failure : Failure HeapError}
    {world : World}
    (fetched : Guard.fetch world.memory region = .error failure) :
    fetchSize region world = .error failure world := by
  simp only [fetchSize, HeapM.onMemory, Fallible.inspect, fetched]

/-- Taking an amount off a counter tells at most a warning. -/
theorem decrease_apply
    (counter : Counter)
    (previous amount : UInt64)
    (world : World) :
    ∃ events, decrease counter previous amount world =
      .ok (Word.saturatingSub previous amount) { world with events } := by
  unfold decrease
  split
  · exact ⟨_, rfl⟩
  · exact ⟨world.events, rfl⟩

theorem countReallocation_apply
    (layer : Nat)
    (size newSize : UInt64)
    (world : World) :
    ∃ events, countReallocation layer size newSize world =
      .ok () { world with
        tallies := world.tallies.set layer ((world.tallies.get layer).resize size newSize)
        events } := by
  unfold countReallocation
  by_cases grows : size ≤ newSize
  · refine ⟨world.events, ?_⟩
    simp only [grows, if_true, Tally.resize]
    rfl
  · obtain ⟨events, decreased⟩ :=
      decrease_apply .bytes (world.tallies.get layer).bytes (size - newSize) world
    refine ⟨events, ?_⟩
    rw [Fallible.bind_of_ok (HeapM.tallyOf_apply layer world)]
    simp only [grows, if_false, Tally.resize]
    rw [Fallible.bind_of_ok decreased]
    rfl

theorem countFree_apply
    (layer : Nat)
    (size : UInt64)
    (world : World) :
    ∃ events, countFree layer size world =
      .ok () { world with
        tallies := world.tallies.set layer ((world.tallies.get layer).settle size)
        events } := by
  unfold countFree
  obtain ⟨first, bytes⟩ :=
    decrease_apply .bytes (world.tallies.get layer).bytes size world
  obtain ⟨second, blocks⟩ :=
    decrease_apply .blocks (world.tallies.get layer).blocks 1 { world with events := first }
  refine ⟨second, ?_⟩
  rw [Fallible.bind_of_ok (HeapM.tallyOf_apply layer world), Fallible.bind_of_ok bytes,
    Fallible.bind_of_ok blocks]
  rfl

/-- The ways in which a guarded allocation ends. -/
inductive AllocateOutcome (layer : Nat) (inner : Allocator) (size : UInt64) (world : World) :
    HeapM.Result Address → Prop
  | empty (isEmpty : size = 0) :
      AllocateOutcome layer inner size world (.error (.refused .emptySize) world)
  | oversized (nonempty : size ≠ 0) (large : ¬ Fits size) :
      AllocateOutcome layer inner size world (.error (.refused (.outOfResources size)) world)
  | failed
      {failure : Failure HeapError}
      {after : World}
      (nonempty : size ≠ 0)
      (fits : Fits size)
      (below : inner.allocate (size + 24) world = .error failure after) :
      AllocateOutcome layer inner size world (.error failure after)
  | granted
      {region : Address}
      {after : World}
      (events : Array Event)
      (nonempty : size ≠ 0)
      (fits : Fits size)
      (below : inner.allocate (size + 24) world = .ok region after) :
      AllocateOutcome layer inner size world
        (.ok (Guard.blockOf region) { after.stored region size with
          tallies := after.tallies.set layer ((after.tallies.get layer).grant size)
          events })

/-- A block is handed out if its region is. -/
theorem allocate_of_granted
    {layer : Nat}
    {inner : Allocator}
    {size : UInt64}
    {region : Address}
    {world after : World}
    (nonempty : size ≠ 0)
    (fits : Fits size)
    (below : inner.allocate (size + 24) world = .ok region after) :
    ∃ events, allocate layer inner size world =
      .ok (Guard.blockOf region) { after.stored region size with
        tallies := after.tallies.set layer ((after.tallies.get layer).grant size)
        events } := by
  unfold allocate
  rw [Fallible.bind_of_ok (requirePositive_of_nonempty nonempty world),
    Fallible.bind_of_ok (regionSize_of_fits fits world), Fallible.bind_of_ok below,
    Fallible.bind_of_ok (storeGuards_apply fits region after)]
  exact ⟨_, rfl⟩

theorem allocate_outcome
    (layer : Nat)
    (inner : Allocator)
    (size : UInt64)
    (world : World) :
    AllocateOutcome layer inner size world (allocate layer inner size world) := by
  by_cases isEmpty : size = 0
  · subst isEmpty
    exact .empty rfl
  by_cases fits : Fits size
  · cases below : inner.allocate (size + 24) world with
    | error failure after =>
        rw [allocate, Fallible.bind_of_ok (requirePositive_of_nonempty isEmpty world),
          Fallible.bind_of_ok (regionSize_of_fits fits world), Fallible.bind_of_error below]
        exact .failed isEmpty fits below
    | ok region after =>
        obtain ⟨events, granted⟩ := allocate_of_granted isEmpty fits below
        rw [granted]
        exact .granted events isEmpty fits below
  · rw [allocate, Fallible.bind_of_ok (requirePositive_of_nonempty isEmpty world),
      Fallible.bind_of_error (regionSize_of_large fits world)]
    exact .oversized isEmpty fits

/-- The ways in which a guarded reallocation ends. -/
inductive ReallocateOutcome
    (layer : Nat)
    (inner : Allocator)
    (block : Address)
    (newSize : UInt64)
    (world : World) :
    HeapM.Result Address → Prop
  | empty (isEmpty : newSize = 0) :
      ReallocateOutcome layer inner block newSize world (.error (.refused .emptySize) world)
  | oversized (nonempty : newSize ≠ 0) (large : ¬ Fits newSize) :
      ReallocateOutcome layer inner block newSize world
        (.error (.refused (.outOfResources newSize)) world)
  | outside
      (nonempty : newSize ≠ 0)
      (fits : Fits newSize)
      (nowhere : Guard.regionOf? block = none) :
      ReallocateOutcome layer inner block newSize world
        (.error (.refused (.unknownAddress block)) world)
  | unsound
      {region : Address}
      {failure : Failure HeapError}
      (nonempty : newSize ≠ 0)
      (fits : Fits newSize)
      (around : Guard.regionOf? block = some region)
      (fetched : Guard.fetch world.memory region = .error failure) :
      ReallocateOutcome layer inner block newSize world (.error failure world)
  | failed
      {region : Address}
      {size : UInt64}
      {error : HeapError}
      {after : World}
      (nonempty : newSize ≠ 0)
      (fits : Fits newSize)
      (around : Guard.regionOf? block = some region)
      (fetched : Guard.fetch world.memory region = .ok size)
      (below : inner.reallocate region (newSize + 24) (world.cleared region size) =
          .error (.refused error) after) :
      ReallocateOutcome layer inner block newSize world
        (.error (.refused error) (after.stored region size))
  | broken
      {region : Address}
      {size : UInt64}
      {after : World}
      (nonempty : newSize ≠ 0)
      (fits : Fits newSize)
      (around : Guard.regionOf? block = some region)
      (fetched : Guard.fetch world.memory region = .ok size)
      (below : inner.reallocate region (newSize + 24) (world.cleared region size) =
          .error .overflow after) :
      ReallocateOutcome layer inner block newSize world (.error .overflow after)
  | moved
      {region newRegion : Address}
      {size : UInt64}
      {after : World}
      (events : Array Event)
      (nonempty : newSize ≠ 0)
      (fits : Fits newSize)
      (around : Guard.regionOf? block = some region)
      (fetched : Guard.fetch world.memory region = .ok size)
      (below : inner.reallocate region (newSize + 24) (world.cleared region size) =
          .ok newRegion after) :
      ReallocateOutcome layer inner block newSize world
        (.ok (Guard.blockOf newRegion) { after.stored newRegion newSize with
          tallies := after.tallies.set layer ((after.tallies.get layer).resize size newSize)
          events })

/-- The sizes that a size word can hold fit. -/
theorem fits_of_fetched
    {memory : Memory}
    {region : Address}
    {size : UInt64}
    (fetched : Guard.fetch memory region = .ok size) :
    Fits size :=
  Guard.fits_of_le_largestSize ((Guard.fetch_eq_ok_iff memory region size).mp fetched).2.1

theorem regionOf_of_some
    {block region : Address}
    (around : Guard.regionOf? block = some region)
    (world : World) :
    regionOf block world = .ok region world := by
  rw [regionOf, around]
  rfl

theorem regionOf_of_none
    {block : Address}
    (nowhere : Guard.regionOf? block = none)
    (world : World) :
    regionOf block world = .error (.refused (.unknownAddress block)) world := by
  rw [regionOf, nowhere]
  rfl

/-- A block whose guard words are not intact does not move. -/
theorem reallocate_of_unsound
    {layer : Nat}
    {inner : Allocator}
    {block region : Address}
    {newSize : UInt64}
    {failure : Failure HeapError}
    {world : World}
    (nonempty : newSize ≠ 0)
    (fits : Fits newSize)
    (around : Guard.regionOf? block = some region)
    (fetched : Guard.fetch world.memory region = .error failure) :
    reallocate layer inner block newSize world = .error failure world := by
  rw [reallocate, Fallible.bind_of_ok (requirePositive_of_nonempty nonempty world),
    Fallible.bind_of_ok (regionSize_of_fits fits world),
    Fallible.bind_of_ok (regionOf_of_some around world),
    Fallible.bind_of_error (fetchSize_of_error fetched)]

theorem reallocate_outcome
    (layer : Nat)
    (inner : Allocator)
    (block : Address)
    (newSize : UInt64)
    (world : World) :
    ReallocateOutcome layer inner block newSize world
      (reallocate layer inner block newSize world) := by
  unfold reallocate
  by_cases isEmpty : newSize = 0
  · subst isEmpty
    exact .empty rfl
  rw [Fallible.bind_of_ok (requirePositive_of_nonempty isEmpty world)]
  by_cases fits : Fits newSize
  case neg =>
    rw [Fallible.bind_of_error (regionSize_of_large fits world)]
    exact .oversized isEmpty fits
  rw [Fallible.bind_of_ok (regionSize_of_fits fits world)]
  cases around : Guard.regionOf? block with
  | none =>
      rw [Fallible.bind_of_error (regionOf_of_none around world)]
      exact .outside isEmpty fits around
  | some region =>
      rw [Fallible.bind_of_ok (regionOf_of_some around world)]
      cases fetched : Guard.fetch world.memory region with
      | error failure =>
          rw [Fallible.bind_of_error (fetchSize_of_error fetched)]
          exact .unsound isEmpty fits around fetched
      | ok size =>
          have fitsBefore := fits_of_fetched fetched
          rw [Fallible.bind_of_ok (fetchSize_of_ok fetched),
            Fallible.bind_of_ok (clearGuards_apply fitsBefore region world)]
          cases below : inner.reallocate region (newSize + 24) (world.cleared region size) with
          | ok newRegion after =>
              obtain ⟨events, counted⟩ := countReallocation_apply layer size newSize
                (after.stored newRegion newSize)
              rw [Fallible.bind_of_ok (Fallible.attempt_of_ok below)]
              dsimp only
              rw [Fallible.bind_of_ok (storeGuards_apply fits newRegion after),
                Fallible.bind_of_ok counted]
              exact .moved _ isEmpty fits around fetched below
          | error failure after =>
              cases failure with
              | refused error =>
                  rw [Fallible.bind_of_ok (Fallible.attempt_of_refused below)]
                  dsimp only
                  rw [Fallible.bind_of_ok (storeGuards_apply fitsBefore region after)]
                  exact .failed isEmpty fits around fetched below
              | overflow =>
                  rw [Fallible.bind_of_error (Fallible.attempt_of_overflow below)]
                  exact .broken isEmpty fits around fetched below

/-- The ways in which the end of a guarded block ends. -/
inductive FreeOutcome (layer : Nat) (inner : Allocator) (block : Address) (world : World) :
    HeapM.Result Unit → Prop
  | outside (nowhere : Guard.regionOf? block = none) :
      FreeOutcome layer inner block world (.error (.refused (.unknownAddress block)) world)
  | unsound
      {region : Address}
      {failure : Failure HeapError}
      (around : Guard.regionOf? block = some region)
      (fetched : Guard.fetch world.memory region = .error failure) :
      FreeOutcome layer inner block world (.error failure world)
  | failed
      {region : Address}
      {size : UInt64}
      {error : HeapError}
      {after : World}
      (around : Guard.regionOf? block = some region)
      (fetched : Guard.fetch world.memory region = .ok size)
      (below : inner.free region (world.cleared region size) = .error (.refused error) after) :
      FreeOutcome layer inner block world
        (.error (.refused error) (after.stored region size))
  | broken
      {region : Address}
      {size : UInt64}
      {after : World}
      (around : Guard.regionOf? block = some region)
      (fetched : Guard.fetch world.memory region = .ok size)
      (below : inner.free region (world.cleared region size) = .error .overflow after) :
      FreeOutcome layer inner block world (.error .overflow after)
  | freed
      {region : Address}
      {size : UInt64}
      {after : World}
      (events : Array Event)
      (around : Guard.regionOf? block = some region)
      (fetched : Guard.fetch world.memory region = .ok size)
      (below : inner.free region (world.cleared region size) = .ok () after) :
      FreeOutcome layer inner block world
        (.ok () { after with
          tallies := after.tallies.set layer ((after.tallies.get layer).settle size)
          events })

/-- A block whose guard words are not intact does not end. -/
theorem free_of_unsound
    {layer : Nat}
    {inner : Allocator}
    {block region : Address}
    {failure : Failure HeapError}
    {world : World}
    (around : Guard.regionOf? block = some region)
    (fetched : Guard.fetch world.memory region = .error failure) :
    free layer inner block world = .error failure world := by
  rw [free, Fallible.bind_of_ok (regionOf_of_some around world),
    Fallible.bind_of_error (fetchSize_of_error fetched)]

/-- A block whose guard words are intact ends if its region does. -/
theorem free_of_freed
    {layer : Nat}
    {inner : Allocator}
    {block region : Address}
    {size : UInt64}
    {world after : World}
    (around : Guard.regionOf? block = some region)
    (fetched : Guard.fetch world.memory region = .ok size)
    (below : inner.free region (world.cleared region size) = .ok () after) :
    ∃ events, free layer inner block world =
      .ok () { after with
        tallies := after.tallies.set layer ((after.tallies.get layer).settle size)
        events } := by
  obtain ⟨events, counted⟩ := countFree_apply layer size after
  unfold free
  rw [Fallible.bind_of_ok (regionOf_of_some around world),
    Fallible.bind_of_ok (fetchSize_of_ok fetched),
    Fallible.bind_of_ok (clearGuards_apply (fits_of_fetched fetched) region world),
    Fallible.bind_of_ok (Fallible.attempt_of_ok below)]
  dsimp only
  rw [Fallible.bind_of_ok counted]
  exact ⟨_, rfl⟩

/-- A block whose region does not end below has its guard words put back. -/
theorem free_of_refused
    {layer : Nat}
    {inner : Allocator}
    {block region : Address}
    {size : UInt64}
    {error : HeapError}
    {world after : World}
    (around : Guard.regionOf? block = some region)
    (fetched : Guard.fetch world.memory region = .ok size)
    (below : inner.free region (world.cleared region size) = .error (.refused error) after) :
    free layer inner block world = .error (.refused error) (after.stored region size) := by
  have fits := fits_of_fetched fetched
  rw [free, Fallible.bind_of_ok (regionOf_of_some around world),
    Fallible.bind_of_ok (fetchSize_of_ok fetched),
    Fallible.bind_of_ok (clearGuards_apply fits region world),
    Fallible.bind_of_ok (Fallible.attempt_of_refused below)]
  dsimp only
  rw [Fallible.bind_of_ok (storeGuards_apply fits region after)]
  rfl

theorem free_outcome
    (layer : Nat)
    (inner : Allocator)
    (block : Address)
    (world : World) :
    FreeOutcome layer inner block world (free layer inner block world) := by
  cases around : Guard.regionOf? block with
  | none =>
      rw [free, Fallible.bind_of_error (regionOf_of_none around world)]
      exact .outside around
  | some region =>
      cases fetched : Guard.fetch world.memory region with
      | error failure =>
          rw [free_of_unsound around fetched]
          exact .unsound around fetched
      | ok size =>
          have fits := fits_of_fetched fetched
          cases below : inner.free region (world.cleared region size) with
          | ok _ after =>
              obtain ⟨events, freed⟩ := free_of_freed around fetched below
              rw [freed]
              exact .freed _ around fetched below
          | error failure after =>
              cases failure with
              | refused error =>
                  rw [free_of_refused around fetched below]
                  exact .failed around fetched below
              | overflow =>
                  rw [free, Fallible.bind_of_ok (regionOf_of_some around world),
                    Fallible.bind_of_ok (fetchSize_of_ok fetched),
                    Fallible.bind_of_ok (clearGuards_apply fits region world),
                    Fallible.bind_of_error (Fallible.attempt_of_overflow below)]
                  exact .broken around fetched below

end Guarded

namespace Allocator

/-- What the guard words of a block tell against it is the answer to both calls,
whatever allocator lies below: that one is not called. -/
theorem refuses_of_fetch
    {block region : Address}
    {error : HeapError}
    {world : World}
    (around : Guard.regionOf? block = some region)
    (fetched : Guard.fetch world.memory region = .error (.refused error))
    (layer : Nat)
    (owns : Bool)
    (inner : Allocator) :
    (guarded layer owns inner).Refuses block error world where
  free := Guarded.free_of_unsound around fetched
  reallocate _ nonempty fits := Guarded.reallocate_of_unsound nonempty fits around fetched

end Allocator
end GuardedHeap
