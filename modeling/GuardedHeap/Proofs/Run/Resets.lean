import GuardedHeap.Proofs.Ledger.Leaks
import GuardedHeap.Proofs.Run.Basic

/-!
# Resets

A guarded layer counts its live blocks and does not know which they are. A reset sets the count to
zero and leaves the blocks live, so from then on a live block is either young, if it was handed
out after the last reset, or old. A block is counted when it is handed out. When one ends, one is
taken off the count unless that is zero, whether the block was counted or not. So an old block
that ends can hide a young one, which stays live and is counted no more.

The count is always that of the young blocks that are not hidden. A release is therefore silent
exactly if all young blocks are hidden, and tells of every young block that is live as long as
no old block ends while a young one is live.
-/

namespace GuardedHeap

open Fallible (answer)

/-- The live blocks of a layer, told apart by its last reset. A block that moves keeps its age. -/
structure Generations where
  /-- The live blocks that were handed out since. -/
  young : List Extent := []
  /-- The live blocks that were handed out before. -/
  old : List Extent := []
  /-- How many young blocks are not counted, because old blocks ended in their place. -/
  hidden : Nat := 0
  /-- How often since then an old block ended while a young one was live. -/
  late : Nat := 0

namespace Generations

variable (generations : Generations)

/-- All live blocks, the young ones first. -/
def live : List Extent :=
  generations.young ++ generations.old

def granted (block : Extent) : Generations :=
  { generations with young := block :: generations.young }

def youngMoved (previous block : Extent) : Generations :=
  { generations with young := block :: generations.young.erase previous }

def oldMoved (previous block : Extent) : Generations :=
  { generations with old := block :: generations.old.erase previous }

/-- When all young blocks are hidden, the one that ends was. -/
def youngEnded (block : Extent) : Generations :=
  { generations with
    young := generations.young.erase block
    hidden := min generations.hidden (generations.young.erase block).length }

/-- An old block that ends hides a young one, if there is one left to hide. -/
def oldEnded (block : Extent) : Generations :=
  { generations with
    old := generations.old.erase block
    hidden := min (generations.hidden + 1) generations.young.length
    late := if generations.young = [] then generations.late else generations.late + 1 }

/-- All live blocks are old after a reset. -/
def reset : Generations where
  old := generations.live

variable {generations}
variable {block : Extent}

/-- A young block can be put before all others. -/
theorem live_perm_of_young (present : block ∈ generations.young) :
    generations.live.Perm (block :: (generations.young.erase block ++ generations.old)) :=
  (List.perm_cons_erase present).append_right _

/-- An old block can be put before all others. -/
theorem live_perm_of_old (present : block ∈ generations.old) :
    generations.live.Perm (block :: (generations.young ++ generations.old.erase block)) :=
  ((List.perm_cons_erase present).append_left _).trans List.perm_middle

end Generations

/-- What a client does with a stack that it also resets. It makes calls, moves and ends live blocks
only, and may write into memory whatever it likes; the arena fails and recovers. -/
inductive Stack.ResetRun (stack : Stack) (arena : Arena) : Generations → World → Prop
  | start (memory : Memory) :
      ResetRun stack arena {} { World.initial arena with memory }
  | granted
      {generations : Generations}
      {world after : World}
      {size : UInt64}
      {address : Address}
      (earlier : ResetRun stack arena generations world)
      (answered : stack.allocator.allocate size world = .ok address after) :
      ResetRun stack arena (generations.granted ⟨address, size⟩) after
  | youngMoved
      {generations : Generations}
      {world after : World}
      {block : Extent}
      {newSize : UInt64}
      {newAddress : Address}
      (earlier : ResetRun stack arena generations world)
      (live : block ∈ generations.young)
      (answered : stack.allocator.reallocate block.address newSize world = .ok newAddress after) :
      ResetRun stack arena (generations.youngMoved block ⟨newAddress, newSize⟩) after
  | oldMoved
      {generations : Generations}
      {world after : World}
      {block : Extent}
      {newSize : UInt64}
      {newAddress : Address}
      (earlier : ResetRun stack arena generations world)
      (live : block ∈ generations.old)
      (answered : stack.allocator.reallocate block.address newSize world = .ok newAddress after) :
      ResetRun stack arena (generations.oldMoved block ⟨newAddress, newSize⟩) after
  | youngEnded
      {generations : Generations}
      {world after : World}
      {block : Extent}
      (earlier : ResetRun stack arena generations world)
      (live : block ∈ generations.young)
      (answered : stack.allocator.free block.address world = .ok () after) :
      ResetRun stack arena (generations.youngEnded block) after
  | oldEnded
      {generations : Generations}
      {world after : World}
      {block : Extent}
      (earlier : ResetRun stack arena generations world)
      (live : block ∈ generations.old)
      (answered : stack.allocator.free block.address world = .ok () after) :
      ResetRun stack arena (generations.oldEnded block) after
  | refused
      {generations : Generations}
      {world after : World}
      {call : Allocator.Call}
      {failure : Failure HeapError}
      (earlier : ResetRun stack arena generations world)
      (answered : stack.allocator.call call world = .error failure after) :
      ResetRun stack arena generations after
  | reset
      {generations : Generations}
      {world after : World}
      (earlier : ResetRun stack arena generations world)
      (answered : stack.reset world = .ok () after) :
      ResetRun stack arena generations.reset after
  | wrote
      {generations : Generations}
      {world : World}
      (earlier : ResetRun stack arena generations world)
      (memory : Memory) :
      ResetRun stack arena generations { world with memory }
  | limited
      {generations : Generations}
      {world : World}
      (earlier : ResetRun stack arena generations world)
      (count : Nat) :
      ResetRun stack arena generations { world with arena := world.arena.failAfter count }
  | recovered
      {generations : Generations}
      {world : World}
      (earlier : ResetRun stack arena generations world) :
      ResetRun stack arena generations { world with arena := world.arena.recover }

namespace Guarded

variable {layer : Nat}
variable {range block : Extent}
variable {blocks rest : List Extent}
variable {world after : World}

/-! ### Calls

What a call of a layer above the arena does to the regions of live blocks and to its count does not
depend on the bytes in memory, so guard words may be written over. -/

theorem regions_of_granted
    {size : UInt64}
    {address : Address}
    (regions : Raw.Books range world (blocks.map Extent.around))
    (granted : allocate layer (.raw .arena) size world = .ok address after) :
    Raw.Books range after ((⟨address, size⟩ :: blocks).map Extent.around) ∧
      (after.tallies.get layer).blocks = (world.tallies.get layer).blocks + 1 := by
  have outcome := allocate_outcome layer (.raw .arena) size world
  rw [granted] at outcome
  cases outcome with
  | granted events nonempty fits below =>
      obtain ⟨regions, spares⟩ := Raw.Books.allocate regions below
      rw [List.map_cons, Extent.around_blockOf]
      refine ⟨regions, ?_⟩
      rw [Table.get_set, if_pos rfl, spares.tallies layer nofun]
      rfl

theorem regions_of_moved
    {newSize : UInt64}
    {newAddress : Address}
    (regions : Raw.Books range world ((block :: rest).map Extent.around))
    (moved : reallocate layer (.raw .arena) block.address newSize world = .ok newAddress after) :
    Raw.Books range after ((⟨newAddress, newSize⟩ :: rest).map Extent.around) ∧
      (after.tallies.get layer).blocks = (world.tallies.get layer).blocks := by
  have outcome := reallocate_outcome layer (.raw .arena) block.address newSize world
  rw [moved] at outcome
  cases outcome with
  | @moved region _ size _ events nonempty fits around fetched below =>
      obtain rfl := Extent.address_around_of_regionOf? around
      have cleared : Raw.Books range (world.cleared block.around.address size)
          (block.around :: rest.map Extent.around) := regions
      obtain ⟨regions, spares, _⟩ := Raw.Books.reallocate cleared below
      rw [List.map_cons, Extent.around_blockOf]
      refine ⟨regions, ?_⟩
      rw [Table.get_set, if_pos rfl, spares.tallies layer nofun]
      rfl

theorem regions_of_ended
    (regions : Raw.Books range world ((block :: rest).map Extent.around))
    (ended : free layer (.raw .arena) block.address world = .ok () after) :
    Raw.Books range after (rest.map Extent.around) ∧
      (after.tallies.get layer).blocks =
        Word.saturatingSub (world.tallies.get layer).blocks 1 := by
  have outcome := free_outcome layer (.raw .arena) block.address world
  rw [ended] at outcome
  cases outcome with
  | @freed region size _ events around fetched below =>
      obtain rfl := Extent.address_around_of_regionOf? around
      have cleared : Raw.Books range (world.cleared block.around.address size)
          (block.around :: rest.map Extent.around) := regions
      obtain ⟨_, freed, regions, spares⟩ := Raw.Books.free cleared
      rw [show (Allocator.raw .arena).free _ _ = _ from freed] at below
      cases below
      refine ⟨regions, ?_⟩
      rw [Table.get_set, if_pos rfl, spares.tallies layer nofun]
      rfl

/-- The arena holds the regions of all live blocks, and the count of a layer above it is that of the
young blocks that are not hidden. -/
structure Counts (layer : Nat) (range : Extent) (generations : Generations) (world : World) :
    Prop where
  regions : Raw.Books range world (generations.live.map Extent.around)
  exact : (world.tallies.get layer).blocks.toNat + generations.hidden = generations.young.length
  few : generations.hidden ≤ generations.late

namespace Counts

variable {generations : Generations}
variable (counts : Counts layer range generations world)

include counts

/-- Any live block can be considered first. -/
theorem regions_of_perm (same : generations.live.Perm (block :: rest)) :
    Raw.Books range world ((block :: rest).map Extent.around) :=
  (Raw.keeps range).perm counts.regions (same.map _)

/-- There are fewer blocks than a word counts. -/
theorem granted
    {size : UInt64}
    {address : Address}
    (answered : allocate layer (.raw .arena) size world = .ok address after) :
    Counts layer range (generations.granted ⟨address, size⟩) after := by
  obtain ⟨regions, blocks_eq⟩ := regions_of_granted counts.regions answered
  refine ⟨regions, ?_, counts.few⟩
  have length := regions.placed.length_le
  have small := regions.placed.small
  rw [List.length_map, List.length_cons, Generations.live, List.length_append] at length
  have one : (1 : UInt64).toNat = 1 := rfl
  have exact := counts.exact
  show _ + generations.hidden = generations.young.length + 1
  rw [blocks_eq, UInt64.toNat_add]
  omega

theorem youngMoved
    {newSize : UInt64}
    {newAddress : Address}
    (live : block ∈ generations.young)
    (answered : reallocate layer (.raw .arena) block.address newSize world =
      .ok newAddress after) :
    Counts layer range (generations.youngMoved block ⟨newAddress, newSize⟩) after := by
  have front := counts.regions_of_perm (Generations.live_perm_of_young live)
  obtain ⟨regions, blocks_eq⟩ := regions_of_moved front answered
  refine ⟨regions, ?_, counts.few⟩
  have length := (List.perm_cons_erase live).length_eq
  rw [blocks_eq]
  exact counts.exact.trans length

theorem oldMoved
    {newSize : UInt64}
    {newAddress : Address}
    (live : block ∈ generations.old)
    (answered : reallocate layer (.raw .arena) block.address newSize world =
      .ok newAddress after) :
    Counts layer range (generations.oldMoved block ⟨newAddress, newSize⟩) after := by
  have front := counts.regions_of_perm (Generations.live_perm_of_old live)
  obtain ⟨regions, blocks_eq⟩ := regions_of_moved front answered
  refine ⟨(Raw.keeps range).perm regions (List.perm_middle.symm.map _), ?_, counts.few⟩
  rw [blocks_eq]
  exact counts.exact

theorem youngEnded
    (live : block ∈ generations.young)
    (answered : free layer (.raw .arena) block.address world = .ok () after) :
    Counts layer range (generations.youngEnded block) after := by
  have front := counts.regions_of_perm (Generations.live_perm_of_young live)
  obtain ⟨regions, blocks_eq⟩ := regions_of_ended front answered
  have exact := counts.exact
  have length : generations.young.length = (generations.young.erase block).length + 1 :=
    (List.perm_cons_erase live).length_eq
  have one : (1 : UInt64).toNat = 1 := rfl
  refine ⟨regions, ?_, Nat.le_trans (Nat.min_le_left _ _) counts.few⟩
  show _ + min generations.hidden _ = (generations.young.erase block).length
  rw [blocks_eq, Word.toNat_saturatingSub]
  omega

theorem oldEnded
    (live : block ∈ generations.old)
    (answered : free layer (.raw .arena) block.address world = .ok () after) :
    Counts layer range (generations.oldEnded block) after := by
  have front := counts.regions_of_perm (Generations.live_perm_of_old live)
  obtain ⟨regions, blocks_eq⟩ := regions_of_ended front answered
  have exact := counts.exact
  have one : (1 : UInt64).toNat = 1 := rfl
  refine ⟨regions, ?_, ?_⟩
  · show _ + min (generations.hidden + 1) _ = generations.young.length
    rw [blocks_eq, Word.toNat_saturatingSub]
    omega
  · show min (generations.hidden + 1) generations.young.length ≤ ite _ _ _
    split
    case isTrue none =>
      rw [none]
      exact Nat.zero_le _
    case isFalse some =>
      exact Nat.le_trans (Nat.min_le_left _ _) (Nat.succ_le_succ counts.few)

/-- A reset leaves nothing young and nothing counted. -/
theorem reset : Counts layer range generations.reset
    { world with tallies := world.tallies.set layer {} } where
  regions := counts.regions
  exact := by
    rw [Table.get_set, if_pos rfl]
    rfl
  few := Nat.le_refl 0

theorem refused
    {owns : Bool}
    {call : Allocator.Call}
    {failure : Failure HeapError}
    (answered : (Stack.guarded layer owns (.raw .arena)).allocator.call call world =
      .error failure after) :
    Counts layer range generations after := by
  have unchanged := (Stack.call_atomic _ _ _ _ _ answered).2
  refine ⟨Arena.Holds.of_credit counts.regions unchanged.arena, ?_, counts.few⟩
  rw [unchanged.tallies]
  exact counts.exact

end Counts
end Guarded

namespace Stack

variable {layer : Nat}
variable {owns : Bool}
variable {arena : Arena}
variable {generations : Generations}
variable {world : World}

/-- A guarded store is released in silence exactly if no blocks are counted. -/
theorem silent_iff_of_guarded (store : Store) :
    answer (guarded layer owns (.raw store)).allocator.release world = .ok () ↔
      (world.tallies.get layer).blocks.toNat = 0 := by
  rw [((guarded layer owns (.raw store)).release_outcome world).silent_iff]
  cases owns <;> simp [visited, Layer.blocks]

namespace ResetRun

/-- All along a run, the count is that of the young blocks that are not hidden. -/
theorem counts
    (run : ResetRun (.guarded layer owns (.raw .arena)) arena generations world)
    (fresh : arena.Fresh) :
    Guarded.Counts layer arena.range generations world := by
  induction run with
  | start memory => exact ⟨@books_start (.raw .arena) _ fresh memory, rfl, Nat.le_refl 0⟩
  | granted earlier answered inductionHypothesis => exact inductionHypothesis.granted answered
  | youngMoved earlier live answered inductionHypothesis =>
      exact inductionHypothesis.youngMoved live answered
  | oldMoved earlier live answered inductionHypothesis =>
      exact inductionHypothesis.oldMoved live answered
  | youngEnded earlier live answered inductionHypothesis =>
      exact inductionHypothesis.youngEnded live answered
  | oldEnded earlier live answered inductionHypothesis =>
      exact inductionHypothesis.oldEnded live answered
  | refused earlier answered inductionHypothesis => exact inductionHypothesis.refused answered
  | reset earlier answered inductionHypothesis =>
      cases answered
      exact inductionHypothesis.reset
  | wrote earlier memory inductionHypothesis =>
      exact ⟨inductionHypothesis.regions, inductionHypothesis.exact, inductionHypothesis.few⟩
  | limited earlier count inductionHypothesis | recovered earlier inductionHypothesis =>
      exact ⟨Arena.Holds.of_credit inductionHypothesis.regions rfl, inductionHypothesis.exact,
        inductionHypothesis.few⟩

/-- A release is silent exactly if all young blocks are hidden. For each of these an old block
ended while a young one was live. So if no old block did, a release is silent exactly if no young
block is live. -/
theorem young_leaks_reported
    (run : ResetRun (.guarded layer owns (.raw .arena)) arena generations world)
    (fresh : arena.Fresh) :
    let silent := answer (guarded layer owns (.raw .arena)).allocator.release world = .ok ()
    (silent ↔ generations.young.length = generations.hidden) ∧
      (silent → generations.young.length ≤ generations.late) ∧
      (generations.late = 0 → (silent ↔ generations.young = [])) := by
  intro silent
  have counts := run.counts fresh
  have exact := counts.exact
  have few := counts.few
  have silent_iff : silent ↔ generations.young.length = generations.hidden := by
    refine (silent_iff_of_guarded .arena).trans ?_
    omega
  refine ⟨silent_iff, fun isSilent => ?_, fun noneLate => ?_⟩
  · rw [silent_iff.mp isSilent]
    exact few
  · rw [silent_iff, ← List.length_eq_zero_iff]
    omega

/-- A block is handed out on either side of a reset. Then the old one ends, and a release is silent
while the young one is live. -/
theorem exists_late_end :
    let stack : Stack := .guarded 0 true (.raw .arena)
    let arena : Arena := { base := ⟨4096⟩, capacity := 1024 }
    ∃ world after, ResetRun stack arena ⟨[⟨⟨4144⟩, 8⟩], [⟨⟨4112⟩, 8⟩], 0, 0⟩ world ∧
      stack.allocator.free ⟨4112⟩ world = .ok () after ∧
      answer stack.allocator.release after = .ok () := by
  intro stack arena
  have answered :
      answer (do
        let first ← stack.allocator.allocate 8
        stack.reset
        let second ← stack.allocator.allocate 8
        stack.allocator.free first
        stack.allocator.release
        pure (first, second)) (World.initial arena) = .ok (⟨4112⟩, ⟨4144⟩) := by
    decide +kernel
  obtain ⟨_, ended⟩ := Fallible.ok_of_answer answered
  obtain ⟨first, _, firstGranted, ended⟩ := Fallible.ok_of_bind ended
  obtain ⟨_, _, reset, ended⟩ := Fallible.ok_of_bind ended
  obtain ⟨second, world, secondGranted, ended⟩ := Fallible.ok_of_bind ended
  obtain ⟨_, after, freed, ended⟩ := Fallible.ok_of_bind ended
  obtain ⟨_, _, released, ended⟩ := Fallible.ok_of_bind ended
  cases ended
  refine ⟨world, after, ?_, freed, ?_⟩
  · exact .granted (.reset (.granted (.start .zero) firstGranted) reset) secondGranted
  · rw [answer, released]

/-- As long as the old block in the example is live, the release tells of the young one. -/
theorem young_leaks_reported_of_young_block :
    let stack : Stack := .guarded 0 true (.raw .arena)
    let arena : Arena := { base := ⟨4096⟩, capacity := 1024 }
    arena.Fresh ∧ ∃ world,
      ResetRun stack arena ⟨[⟨⟨4144⟩, 8⟩], [⟨⟨4112⟩, 8⟩], 0, 0⟩ world ∧
      answer stack.allocator.release world ≠ .ok () := by
  intro stack arena
  have fresh : arena.Fresh := ⟨⟨⟨4096⟩, 1024, rfl⟩, by decide, by decide⟩
  obtain ⟨world, _, run, _⟩ := exists_late_end
  refine ⟨fresh, world, run, fun silent => ?_⟩
  cases ((young_leaks_reported run fresh).2.2 rfl).mp silent

/-- When the old block in the example ends, no release tells of the young one any more. -/
theorem young_leak_hidden_by_old_block :
    let stack : Stack := .guarded 0 true (.raw .arena)
    let arena : Arena := { base := ⟨4096⟩, capacity := 1024 }
    arena.Fresh ∧ ∃ generations world, ResetRun stack arena generations world ∧
      answer stack.allocator.release world = .ok () ∧
      generations.young = [⟨⟨4144⟩, 8⟩] := by
  intro stack arena
  have fresh : arena.Fresh := ⟨⟨⟨4096⟩, 1024, rfl⟩, by decide, by decide⟩
  obtain ⟨_, after, run, freed, released⟩ := exists_late_end
  exact ⟨fresh, _, after, .oldEnded run (.head _) freed, released, rfl⟩

end ResetRun
end Stack
end GuardedHeap
