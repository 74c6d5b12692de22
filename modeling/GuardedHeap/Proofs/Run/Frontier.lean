import GuardedHeap.Proofs.Run.InStep

/-!
# The frontier of an arena

An arena hands out regions one behind the other. All regions that it ever handed out
lie before its frontier, and all that it will hand out lie behind. Bytes before the
frontier that are in no live region are dead.

A call touches the regions of the blocks that it is about and what lies behind the
frontier. The main result, `Run.keepsDead`, says that no step of a run touches a
dead byte or brings it back to life. The bytes of a block in the books are live, and those
of one that left them are not.
-/

namespace GuardedHeap

namespace World

/-- Where the arena goes on handing out regions. -/
def frontier (world : World) : Nat :=
  world.arena.range.start + world.arena.next.toNat

/-- Bytes change in some regions only, and the frontier does not move back. -/
structure Touches (regions : List Extent) (before after : World) : Prop where
  memory : ∀ byte, (∀ region ∈ regions, ¬ region.Contains byte) →
    after.memory.get byte = before.memory.get byte
  frontier : before.frontier ≤ after.frontier

namespace Touches

variable {regions others : List Extent}
variable {before middle after : World}

theorem trans
    (first : Touches regions before middle)
    (second : Touches regions middle after) :
    Touches regions before after where
  memory byte outside := (second.memory byte outside).trans (first.memory byte outside)
  frontier := Nat.le_trans first.frontier second.frontier

/-- What is touched may be described by larger regions. -/
theorem widen
    (touches : Touches others before after)
    (within : ∀ region ∈ others, ∀ byte, region.Contains byte →
      ∃ outer ∈ regions, outer.Contains byte) :
    Touches regions before after where
  memory byte outside := by
    apply touches.memory
    intro region present contains
    obtain ⟨outer, outerPresent, outerContains⟩ := within region present byte contains
    exact outside outer outerPresent outerContains
  frontier := touches.frontier

theorem subset
    (touches : Touches others before after)
    (subset : others ⊆ regions) :
    Touches regions before after :=
  touches.widen fun region present _ contains => ⟨region, subset present, contains⟩

/-- Marks in a region touch that region. -/
theorem mark
    {region : Address}
    {size sizeWord headerWord footerWord : UInt64}
    {marked : World}
    (touches : Touches regions before after)
    (fits : Guard.Fits size)
    (bounded : (⟨region, size + 24⟩ : Extent).stop ≤ 0x10000000000000000)
    (within : ∀ byte, (⟨region, size + 24⟩ : Extent).Contains byte →
      ∃ outer ∈ regions, outer.Contains byte)
    (memory : marked.memory = Guard.mark after.memory region (Guard.footerOf region size)
      sizeWord headerWord footerWord)
    (arena : marked.arena = after.arena) :
    Touches regions before marked where
  memory byte outside := by
    let block : Extent := ⟨Guard.blockOf region, size⟩
    have around : block.around = ⟨region, size + 24⟩ := Extent.around_blockOf region size
    rw [← around] at bounded within
    have apart : block.around.Contains byte → block.Contains byte := by
      intro inside
      obtain ⟨outer, present, contains⟩ := within byte inside
      exact absurd contains (outside outer present)
    have same := get_mark_of_outside after.memory (show Guard.Fits block.size from fits) bounded
      sizeWord headerWord footerWord apart
    rw [around] at same
    rw [memory, ← touches.memory byte outside]
    exact same
  frontier := by
    unfold World.frontier
    rw [arena]
    exact touches.frontier

end Touches

theorem touches_refl (regions : List Extent) (world : World) :
    Touches regions world world where
  memory _ _ := rfl
  frontier := Nat.le_refl _

/-- An unchanged world is touched nowhere. -/
theorem Unchanged.touches
    {before after : World}
    (unchanged : before.Unchanged after)
    (regions : List Extent) :
    Touches regions before after where
  memory byte _ := unchanged.memory byte
  frontier := by
    have same := unchanged.arena
    unfold World.frontier Arena.range
    rw [← same]

end World

namespace Raw

open World (Touches)

variable {range block : Extent}
variable {blocks rest : List Extent}
variable {world after : World}

/-- A region is handed out at the frontier, and no byte of another one is touched. -/
theorem Books.touches_of_granted
    {size : UInt64}
    {address : Address}
    (books : Books range world blocks)
    (granted : Raw.allocate .arena size world = .ok address after) :
    Touches [⟨address, size⟩] world after ∧ world.frontier ≤ address.value.toNat := by
  have stop := (Books.allocate books granted).1.placed.stop_le (.head _)
  cases granted_of_allocate granted with
  | of_room credit events nonempty room =>
      obtain ⟨start, _, behind⟩ := Arena.Holds.next_region books nonempty room
      refine ⟨⟨fun byte outside => ?_, ?_⟩, ?_⟩
      · apply Memory.get_fill_of_far
        exact Extent.far_of_not_contains stop (outside _ (.head _))
      · exact Nat.add_le_add_left (Nat.le_trans (Nat.le_add_right _ _) behind) _
      · rw [start, ← books.range_eq]
        exact Nat.le_refl _

theorem Books.touches_of_moved
    {newSize : UInt64}
    {newAddress : Address}
    (books : Books range world (block :: rest))
    (moved : Raw.reallocate .arena block.address newSize world = .ok newAddress after) :
    Touches [⟨newAddress, newSize⟩] world after ∧
      world.frontier ≤ newAddress.value.toNat := by
  have stop := (Books.reallocate books moved).1.placed.stop_le (.head _)
  cases moved_of_reallocate moved with
  | @of_room size next credit events nonempty live room =>
      obtain ⟨start, _, behind⟩ := Arena.Holds.next_region books nonempty room
      have short : (min size newSize).toNat ≤ newSize.toNat := by
        rw [UInt64.toNat_min]
        exact Nat.min_le_right _ _
      refine ⟨⟨fun byte outside => ?_, ?_⟩, ?_⟩
      · have far := Extent.far_of_not_contains stop (outside _ (.head _))
        exact (Memory.get_copy_of_far _ _ _ _ _ (Nat.le_trans short far)).trans
          (Memory.get_fill_of_far _ _ _ _ _ far)
      · exact Nat.add_le_add_left (Nat.le_trans (Nat.le_add_right _ _) behind) _
      · rw [start, ← books.range_eq]
        exact Nat.le_refl _

/-- The end of a region touches nothing. -/
theorem touches_of_ended
    {address : Address}
    (ended : Raw.free .arena address world = .ok () after) :
    Touches [] world after := by
  have outcome := free_outcome .arena address world
  rw [ended] at outcome
  cases outcome with
  | freed events notNull answer =>
      cases answer
      refine ⟨fun _ _ => rfl, Nat.le_of_eq ?_⟩
      show world.frontier =
        World.frontier { world with arena := world.arena.free address, events }
      unfold World.frontier Arena.range Arena.free
      dsimp only
      split <;> rfl

end Raw

namespace Extent

/-- Leading outward from a region is leading outward from its block, one layer
further. -/
theorem outward_around (depth : Nat) (block : Extent) :
    block.around.outward depth = block.outward (depth + 1) := by
  have addresses : (block.address.sub 16).sub (UInt64.ofNat (16 * depth)) =
      block.address.sub (UInt64.ofNat (16 * (depth + 1))) := by
    have distance : UInt64.ofNat (16 * (depth + 1)) = UInt64.ofNat (16 * depth) + 16 := by
      rw [Nat.mul_add, UInt64.ofNat_add]
      rfl
    rw [distance]
    apply congrArg Address.mk
    show block.address.value - 16 - UInt64.ofNat (16 * depth) = _
    grind
  have sizes : block.size + 24 + UInt64.ofNat (24 * depth) =
      block.size + UInt64.ofNat (24 * (depth + 1)) := by
    have distance : UInt64.ofNat (24 * (depth + 1)) = UInt64.ofNat (24 * depth) + 24 := by
      rw [Nat.mul_add, UInt64.ofNat_add]
      rfl
    rw [distance]
    grind
  exact congrArg₂ Extent.mk addresses sizes

theorem map_outward_around (blocks : List Extent) (depth : Nat) :
    (blocks.map around).map (outward depth) = blocks.map (outward (depth + 1)) := by
  rw [List.map_map]
  exact List.map_congr_left fun block _ => outward_around depth block

end Extent

namespace Stack

open World (Touches)

variable {stack : Stack}
variable {range block : Extent}
variable {blocks rest : List Extent}
variable {world after : World}

namespace Books

/-- The arena holds the regions that all guarded layers together make of the blocks. -/
theorem holds
    (books : stack.Books range world blocks)
    (overArena : stack.store = .arena) :
    world.arena.Holds range (blocks.map (Extent.outward stack.depth)) := by
  induction stack generalizing blocks with
  | raw store =>
      have outermost : blocks.map (Extent.outward 0) = blocks :=
        (List.map_congr_left fun block _ => block.outward_zero).trans (List.map_id _)
      rw [depth, outermost]
      exact books
  | guarded layer owns inner inductionHypothesis =>
      have holds := inductionHypothesis books.inner overArena
      rw [Extent.map_outward_around] at holds
      exact holds
  | registered layer owns inner inductionHypothesis =>
      exact inductionHypothesis books.inner overArena
  | counted layer inner inductionHypothesis => exact inductionHypothesis books overArena

/-- A block lies in its region. -/
theorem contains_outward
    (books : stack.Books range world blocks)
    (overArena : stack.store = .arena)
    (distinct : stack.layers.Nodup)
    (present : block ∈ blocks)
    (byte : Address)
    (contains : block.Contains byte) :
    (block.outward stack.depth).Contains byte := by
  induction stack generalizing blocks block with
  | raw store =>
      rw [depth, Extent.outward_zero]
      exact contains
  | guarded layer owns inner inductionHypothesis =>
      obtain ⟨_, innerDistinct⟩ := List.nodup_cons.mp distinct
      have keeps := inner.keeps range overArena innerDistinct
      have inRegions : block.around ∈ blocks.map Extent.around := List.mem_map_of_mem present
      rw [depth, ← Extent.outward_around]
      apply inductionHypothesis books.inner overArena innerDistinct inRegions
      exact contains.around (books.fits block present)
        ((keeps.placed books.inner).stop_le inRegions)
  | registered layer owns inner inductionHypothesis =>
      obtain ⟨_, innerDistinct⟩ := List.nodup_cons.mp distinct
      exact inductionHypothesis books.inner overArena innerDistinct present contains
  | counted layer inner inductionHypothesis =>
      obtain ⟨_, innerDistinct⟩ := List.nodup_cons.mp distinct
      exact inductionHypothesis books overArena innerDistinct present contains

/-- A new region lies behind the frontier, and nothing else is touched. -/
theorem touches_of_granted
    {size : UInt64}
    {address : Address}
    (books : stack.Books range world blocks)
    (overArena : stack.store = .arena)
    (distinct : stack.layers.Nodup)
    (granted : stack.allocator.allocate size world = .ok address after) :
    let region := (⟨address, size⟩ : Extent).outward stack.depth
    Touches [region] world after ∧ world.frontier ≤ region.start := by
  induction stack generalizing blocks world after size address with
  | raw store =>
      cases overArena
      rw [depth, Extent.outward_zero]
      exact Raw.Books.touches_of_granted books granted
  | guarded layer owns inner inductionHypothesis =>
      obtain ⟨_, innerDistinct⟩ := List.nodup_cons.mp distinct
      have keeps := inner.keeps range overArena innerDistinct
      have outcome := Guarded.allocate_outcome layer inner.allocator size world
      rw [show Guarded.allocate layer inner.allocator size world = _ from granted] at outcome
      cases outcome with
      | @granted region middle events nonempty fits below =>
          obtain ⟨touches, behind⟩ :=
            inductionHypothesis books.inner overArena innerDistinct below
          have regions := (keeps.allocate books.inner below).1
          have nested := contains_outward regions overArena innerDistinct (.head _)
          rw [← Extent.around_blockOf region size, Extent.outward_around] at touches behind
          rw [← Extent.around_blockOf region size, Extent.outward_around,
            Extent.around_blockOf] at nested
          refine ⟨?_, behind⟩
          exact touches.mark fits ((keeps.placed regions).stop_le (.head _))
            (fun byte inside => ⟨_, .head _, nested byte inside⟩) rfl rfl
  | registered layer owns inner inductionHypothesis =>
      obtain ⟨_, innerDistinct⟩ := List.nodup_cons.mp distinct
      have outcome := Registered.allocate_outcome layer inner.allocator size world
      rw [show Registered.allocate layer inner.allocator size world = _ from granted] at outcome
      cases outcome with
      | granted events nonempty below =>
          obtain ⟨touches, behind⟩ :=
            inductionHypothesis books.inner overArena innerDistinct below
          exact ⟨⟨touches.memory, touches.frontier⟩, behind⟩
  | counted layer inner inductionHypothesis =>
      obtain ⟨_, innerDistinct⟩ := List.nodup_cons.mp distinct
      have keeps := inner.keeps range overArena innerDistinct
      obtain ⟨touches, behind⟩ := inductionHypothesis
        (keeps.undisturbed books (Counted.undisturbed_callCounts world _)) overArena
        innerDistinct granted
      exact ⟨⟨touches.memory, touches.frontier⟩, behind⟩

/-- Clearing the guard words of a live block touches its region. -/
theorem touches_of_cleared
    {layer : Nat}
    {owns : Bool}
    {inner : Stack}
    (books : (guarded layer owns inner).Books range world (block :: rest))
    (overArena : inner.store = .arena)
    (distinct : inner.layers.Nodup) :
    Touches [block.outward (inner.depth + 1)] world
      (world.cleared block.around.address block.size) := by
  have keeps := inner.keeps range overArena distinct
  have nested := contains_outward books.inner overArena distinct (.head _)
  rw [Extent.outward_around] at nested
  exact (World.touches_refl _ world).mark (books.fits block (.head _))
    ((keeps.placed books.inner).stop_le (.head _))
    (fun byte inside => ⟨_, .head _, nested byte inside⟩) rfl rfl

theorem touches_of_moved
    {newSize : UInt64}
    {newAddress : Address}
    (books : stack.Books range world (block :: rest))
    (overArena : stack.store = .arena)
    (distinct : stack.layers.Nodup)
    (moved : stack.allocator.reallocate block.address newSize world = .ok newAddress after) :
    let region := (⟨newAddress, newSize⟩ : Extent).outward stack.depth
    Touches [region, block.outward stack.depth] world after ∧
      world.frontier ≤ region.start := by
  induction stack generalizing block rest world after newSize newAddress with
  | raw store =>
      cases overArena
      obtain ⟨touches, behind⟩ := Raw.Books.touches_of_moved books moved
      rw [depth, Extent.outward_zero]
      exact ⟨touches.subset (by simp), behind⟩
  | guarded layer owns inner inductionHypothesis =>
      obtain ⟨_, innerDistinct⟩ := List.nodup_cons.mp distinct
      have keeps := inner.keeps range overArena innerDistinct
      have outcome := Guarded.reallocate_outcome layer inner.allocator block.address newSize world
      rw [show Guarded.reallocate layer inner.allocator block.address newSize world = _
        from moved] at outcome
      cases outcome with
      | @moved region newRegion size middle events nonempty fits around fetched below =>
          rw [books.marked.regionOf? keeps] at around
          cases around
          rw [books.marked.fetch keeps] at fetched
          cases fetched
          have cleared := books.touches_of_cleared overArena innerDistinct
          have innerCleared := (books.marked.cleared keeps).1
          obtain ⟨touches, behind⟩ :=
            inductionHypothesis innerCleared overArena innerDistinct below
          have regions := (keeps.reallocate innerCleared below).1
          have nested := contains_outward regions overArena innerDistinct (.head _)
          rw [← Extent.around_blockOf newRegion newSize, Extent.outward_around,
            Extent.outward_around] at touches
          rw [← Extent.around_blockOf newRegion newSize, Extent.outward_around] at behind
          rw [← Extent.around_blockOf newRegion newSize, Extent.outward_around,
            Extent.around_blockOf] at nested
          have both := (cleared.subset (List.subset_cons_self _ _)).trans touches
          refine ⟨?_, Nat.le_trans cleared.frontier behind⟩
          exact both.mark fits ((keeps.placed regions).stop_le (.head _))
            (fun byte inside => ⟨_, .head _, nested byte inside⟩) rfl rfl
  | registered layer owns inner inductionHypothesis =>
      obtain ⟨own, innerDistinct⟩ := List.nodup_cons.mp distinct
      have keeps := inner.keeps range overArena innerDistinct
      have outcome :=
        Registered.reallocate_outcome layer inner.allocator block.address newSize world
      rw [show Registered.reallocate layer inner.allocator block.address newSize world = _
        from moved] at outcome
      cases outcome with
      | moved events nonempty held below =>
          obtain ⟨touches, behind⟩ := inductionHypothesis
            (Registered.Books.erased keeps own books).1 overArena innerDistinct below
          exact ⟨⟨touches.memory, touches.frontier⟩, behind⟩
  | counted layer inner inductionHypothesis =>
      obtain ⟨_, innerDistinct⟩ := List.nodup_cons.mp distinct
      have keeps := inner.keeps range overArena innerDistinct
      obtain ⟨touches, behind⟩ := inductionHypothesis
        (keeps.undisturbed books (Counted.undisturbed_callCounts world _)) overArena
        innerDistinct moved
      exact ⟨⟨touches.memory, touches.frontier⟩, behind⟩

theorem touches_of_ended
    (books : stack.Books range world (block :: rest))
    (overArena : stack.store = .arena)
    (distinct : stack.layers.Nodup)
    (ended : stack.allocator.free block.address world = .ok () after) :
    Touches [block.outward stack.depth] world after := by
  induction stack generalizing block rest world after with
  | raw store =>
      cases overArena
      exact (Raw.touches_of_ended ended).subset (List.nil_subset _)
  | guarded layer owns inner inductionHypothesis =>
      obtain ⟨_, innerDistinct⟩ := List.nodup_cons.mp distinct
      have keeps := inner.keeps range overArena innerDistinct
      have outcome := Guarded.free_outcome layer inner.allocator block.address world
      rw [show Guarded.free layer inner.allocator block.address world = _ from ended] at outcome
      cases outcome with
      | @freed region size middle events around fetched below =>
          rw [books.marked.regionOf? keeps] at around
          cases around
          rw [books.marked.fetch keeps] at fetched
          cases fetched
          have cleared := books.touches_of_cleared overArena innerDistinct
          have touches := inductionHypothesis (books.marked.cleared keeps).1 overArena
            innerDistinct below
          rw [Extent.outward_around] at touches
          have both := cleared.trans touches
          exact ⟨both.memory, both.frontier⟩
  | registered layer owns inner inductionHypothesis =>
      obtain ⟨own, innerDistinct⟩ := List.nodup_cons.mp distinct
      have keeps := inner.keeps range overArena innerDistinct
      have outcome := Registered.free_outcome layer inner.allocator block.address world
      rw [show Registered.free layer inner.allocator block.address world = _ from ended]
        at outcome
      cases outcome with
      | freed events held below =>
          have touches := inductionHypothesis
            (Registered.Books.erased keeps own books).1 overArena innerDistinct below
          exact ⟨touches.memory, touches.frontier⟩
  | counted layer inner inductionHypothesis =>
      obtain ⟨_, innerDistinct⟩ := List.nodup_cons.mp distinct
      have keeps := inner.keeps range overArena innerDistinct
      have touches := inductionHypothesis
        (keeps.undisturbed books (Counted.undisturbed_callCounts world _)) overArena
        innerDistinct ended
      exact ⟨touches.memory, touches.frontier⟩

end Books
end Stack

namespace World

/-- A byte before the frontier that is in the region of no live block. -/
structure Dead (depth : Nat) (blocks : List Extent) (world : World) (byte : Address) :
    Prop where
  passed : byte.value.toNat < world.frontier
  outside : ∀ block ∈ blocks, ¬ (block.outward depth).Contains byte

/-- Dead bytes stay as they are and stay dead, while the live blocks change. -/
def KeepsDead (depth : Nat) (blocks others : List Extent) (before after : World) : Prop :=
  ∀ byte, Dead depth blocks before byte →
    Dead depth others after byte ∧ after.memory.get byte = before.memory.get byte

/-- Nothing that is dead is touched in regions of live blocks and behind the frontier. -/
theorem Touches.keepsDead
    {depth : Nat}
    {blocks others regions : List Extent}
    {before after : World}
    (touches : Touches regions before after)
    (touched : ∀ region ∈ regions,
      before.frontier ≤ region.start ∨ ∃ block ∈ blocks, block.outward depth = region)
    (live : ∀ block ∈ others,
      before.frontier ≤ (block.outward depth).start ∨ block ∈ blocks) :
    KeepsDead depth blocks others before after := by
  intro byte dead
  have ahead : ∀ region : Extent, before.frontier ≤ region.start → ¬ region.Contains byte := by
    intro region behind contains
    have passed := dead.passed
    have := contains.1
    omega
  refine ⟨⟨Nat.lt_of_lt_of_le dead.passed touches.frontier, ?_⟩, ?_⟩
  · intro block present
    rcases live block present with behind | old
    · exact ahead _ behind
    · exact dead.outside block old
  · apply touches.memory
    intro region present
    rcases touched region present with behind | ⟨block, old, rfl⟩
    · exact ahead region behind
    · exact dead.outside block old

end World

/-- The address whose block ended by what was observed. -/
def Observation.ends : Observation → Option Address
  | .moved previous _ => some previous
  | .ended address => some address
  | _ => none

/-- The addresses whose blocks ended in a history. -/
def endings (history : List Observation) : List Address :=
  history.filterMap Observation.ends

theorem Extent.without_subset (blocks : List Extent) (address : Address) :
    Extent.without blocks address ⊆ blocks :=
  List.filter_subset_self blocks

namespace Stack

open World (Dead KeepsDead)

variable {stack : Stack}
variable {range block : Extent}
variable {rest : List Extent}
variable {world after : World}

namespace Books

/-- The region of a block that ended is dead, once the frontier is not moved back and all
blocks are old ones or lie behind it. -/
theorem dead_of_ended
    {others : List Extent}
    (books : stack.Books range world (block :: rest))
    (overArena : stack.store = .arena)
    (frontier : world.frontier ≤ after.frontier)
    (live : ∀ other ∈ others,
      world.frontier ≤ (other.outward stack.depth).start ∨ other ∈ rest)
    {byte : Address}
    (contains : (block.outward stack.depth).Contains byte) :
    Dead stack.depth others after byte := by
  have holds := books.holds overArena
  rw [List.map_cons] at holds
  have stop : (block.outward stack.depth).stop ≤ world.frontier := by
    rw [World.frontier, holds.range_eq]
    exact holds.before _ (.head _)
  refine ⟨Nat.lt_of_lt_of_le contains.2 (Nat.le_trans stop frontier), ?_⟩
  intro other present inside
  rcases live other present with behind | old
  · have := contains.2
    have := inside.1
    omega
  · have apart := holds.placed.apart_head (List.mem_map_of_mem old)
    exact apart.not_contains contains inside

end Books

namespace Run

variable {arena : Arena}
variable {latest : Observation}
variable {history : List Observation}

/-- No step of a run touches a dead byte or brings it back to life, and with a block
its region dies. -/
theorem keepsDead
    (run : Run stack arena (latest :: history) after)
    (overArena : stack.store = .arena)
    (distinct : stack.layers.Nodup)
    (fresh : arena.Fresh) :
    ∃ world, Run stack arena history world ∧
      KeepsDead stack.depth (ledger history) (ledger (latest :: history)) world after ∧
      ∀ address, latest.ends = some address →
        ∃ block ∈ ledger history, block.address = address ∧
          ∀ byte, (block.outward stack.depth).Contains byte →
            Dead stack.depth (ledger (latest :: history)) after byte := by
  have keeps := stack.keeps arena.range overArena distinct
  cases run with
  | @granted _ world _ size address earlier answered =>
      have books := earlier.books overArena distinct fresh
      obtain ⟨touches, behind⟩ := books.touches_of_granted overArena distinct answered
      refine ⟨world, earlier, touches.keepsDead ?_ ?_, by simp [Observation.ends]⟩
      · exact List.forall_mem_singleton.mpr (Or.inl behind)
      · exact List.forall_mem_cons.mpr ⟨Or.inl behind, fun _ => Or.inr⟩
  | @moved _ world _ address newAddress newSize earlier admitted answered =>
      have books := earlier.books overArena distinct fresh
      obtain ⟨block, present, rfl⟩ := books.live_of_moved admitted answered
      have front := keeps.perm books ((keeps.placed books).perm_cons_without present)
      obtain ⟨touches, behind⟩ := front.touches_of_moved overArena distinct answered
      refine ⟨world, earlier, touches.keepsDead ?_ ?_, ?_⟩
      · exact List.forall_mem_cons.mpr ⟨Or.inl behind,
          List.forall_mem_singleton.mpr (Or.inr ⟨block, present, rfl⟩)⟩
      · refine List.forall_mem_cons.mpr ⟨Or.inl behind, fun other old => Or.inr ?_⟩
        exact Extent.without_subset _ _ old
      · rintro _ ⟨⟩
        refine ⟨block, present, rfl, fun byte contains => ?_⟩
        apply front.dead_of_ended overArena touches.frontier _ contains
        exact List.forall_mem_cons.mpr ⟨Or.inl behind, fun _ => Or.inr⟩
  | @ended _ world _ address earlier admitted answered =>
      have books := earlier.books overArena distinct fresh
      obtain ⟨block, present, rfl⟩ := books.live_of_ended admitted answered
      have front := keeps.perm books ((keeps.placed books).perm_cons_without present)
      have touches := front.touches_of_ended overArena distinct answered
      refine ⟨world, earlier, touches.keepsDead ?_ ?_, ?_⟩
      · exact List.forall_mem_singleton.mpr (Or.inr ⟨block, present, rfl⟩)
      · exact fun other old => Or.inr (Extent.without_subset _ _ old)
      · rintro _ ⟨⟩
        refine ⟨block, present, rfl, fun byte contains => ?_⟩
        exact front.dead_of_ended overArena touches.frontier (fun _ => Or.inr) contains
  | @refused _ world _ call failure earlier admitted answered =>
      have touches := (stack.call_atomic _ _ _ _ answered).2.touches []
      exact ⟨world, earlier, touches.keepsDead (by simp) (fun _ => Or.inr),
        by simp [Observation.ends]⟩
  | @wrote _ world block address earlier live inside value =>
      have books := earlier.books overArena distinct fresh
      refine ⟨world, earlier, fun byte dead => ⟨⟨dead.passed, dead.outside⟩, ?_⟩,
        by simp [Observation.ends]⟩
      apply Memory.get_set_of_ne
      rintro rfl
      exact dead.outside block live (books.contains_outward overArena distinct live _ inside)
  | @saw _ _ block address earlier live inside =>
      exact ⟨after, earlier, fun byte dead => ⟨dead, rfl⟩, by simp [Observation.ends]⟩
  | @limited _ world earlier count =>
      exact ⟨world, earlier, fun byte dead => ⟨⟨dead.passed, dead.outside⟩, rfl⟩,
        by simp [Observation.ends]⟩
  | @recovered _ world earlier =>
      exact ⟨world, earlier, fun byte dead => ⟨⟨dead.passed, dead.outside⟩, rfl⟩,
        by simp [Observation.ends]⟩

end Run
end Stack

/-! ### Live bytes -/

/-- The bytes of the regions that an arena has live. -/
def Arena.Live (arena : Arena) (address : Address) : Prop :=
  ∃ start size, arena.sizeAt? start = some size ∧ (⟨start, size⟩ : Extent).Contains address

namespace Stack.Books

variable {stack : Stack}
variable {range block : Extent}
variable {blocks rest : List Extent}
variable {world after : World}
variable {address : Address}

/-- The bytes of a block in the books are live. -/
theorem live_of_contains
    (books : stack.Books range world blocks)
    (overArena : stack.store = .arena)
    (distinct : stack.layers.Nodup)
    (present : block ∈ blocks)
    (contains : block.Contains address) :
    world.arena.Live address := by
  have region : block.outward stack.depth ∈ blocks.map (Extent.outward stack.depth) :=
    List.mem_map_of_mem present
  have found := ((books.holds overArena).live _ _).mpr region
  exact ⟨_, _, found, books.contains_outward overArena distinct present address contains⟩

/-- A live byte lies in the region of a block in the books. -/
theorem region_of_live
    (books : stack.Books range world blocks)
    (overArena : stack.store = .arena)
    (live : world.arena.Live address) :
    ∃ block ∈ blocks, (block.outward stack.depth).Contains address := by
  obtain ⟨start, size, found, contains⟩ := live
  have region := ((books.holds overArena).live start size).mp found
  obtain ⟨block, present, same⟩ := List.mem_map.mp region
  exact ⟨block, present, same ▸ contains⟩

/-- The bytes of a block that is no longer in the books are not live. -/
theorem not_live_of_ended
    (books : stack.Books range world (block :: rest))
    (booksAfter : stack.Books range after rest)
    (overArena : stack.store = .arena)
    (distinct : stack.layers.Nodup)
    (contains : block.Contains address) :
    ¬ after.arena.Live address := by
  intro live
  obtain ⟨other, present, inOther⟩ := booksAfter.region_of_live overArena live
  have inBlock := books.contains_outward overArena distinct (.head _) address contains
  have placed : Placed range (block.outward stack.depth ::
      rest.map (Extent.outward stack.depth)) := (books.holds overArena).placed
  exact (placed.apart_head (List.mem_map_of_mem present)).not_contains inBlock inOther

end Stack.Books

end GuardedHeap
