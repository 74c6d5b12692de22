import GuardedHeap.Proofs.Run.Basic

/-!
# Layers in step

All layers of a stack describe the same blocks, each as it sees them: a layer below
some guarded ones sees the regions that these make of the blocks of the client. A
guarded layer moves the start of a block down by sixteen and makes it larger by
twenty-four, so what a layer sees depends on the number of guarded layers above it.

The main result says so of every world that a run reaches, for the registries, the
counters, the guard words and the arena's table of live regions.
-/

namespace GuardedHeap

namespace Extent

/-- Leading outward does not wrap around. -/
def Nested (depth : Nat) (block : Extent) : Prop :=
  (block.outward depth).start + 16 * depth = block.start ∧
    (block.outward depth).size.toNat = block.size.toNat + 24 * depth

theorem nested_zero (block : Extent) : block.Nested 0 := by
  simp [Nested]

theorem Nested.succ
    {depth : Nat}
    {block : Extent}
    (nested : block.Nested depth)
    (fits : Guard.Fits (block.outward depth).size)
    (bounded : (block.outward (depth + 1)).stop ≤ 0x10000000000000000) :
    block.Nested (depth + 1) := by
  rw [← around_outward] at bounded
  have start := (start_around fits bounded).1
  have size := fits.toNat_add
  obtain ⟨startExact, sizeExact⟩ := nested
  unfold Nested
  rw [← around_outward]
  refine ⟨by omega, ?_⟩
  show ((block.outward depth).size + 24).toNat = _
  omega

theorem map_around_outward (blocks : List Extent) (depth : Nat) :
    (blocks.map (outward depth)).map around = blocks.map (outward (depth + 1)) := by
  rw [List.map_map]
  exact List.map_congr_left fun block _ => around_outward depth block

end Extent

namespace Stack

/-- The number of guarded layers of a stack. -/
def depth : Stack → Nat
  | .raw _ => 0
  | .guarded _ _ inner => inner.depth + 1
  | .registered _ _ inner => inner.depth
  | .counted _ inner => inner.depth

/-- The registered layers of a stack, each with the number of guarded layers above
it, if there are some above the whole stack already. -/
def registriesUnder (above : Nat) : Stack → List (Nat × Nat)
  | .raw _ => []
  | .guarded _ _ inner => inner.registriesUnder (above + 1)
  | .registered layer _ inner => (layer, above) :: inner.registriesUnder above
  | .counted _ inner => inner.registriesUnder above

/-- The guarded layers of a stack, each with the number of guarded layers above it,
if there are some above the whole stack already. -/
def guardsUnder (above : Nat) : Stack → List (Nat × Nat)
  | .raw _ => []
  | .guarded layer _ inner => (layer, above) :: inner.guardsUnder (above + 1)
  | .registered _ _ inner => inner.guardsUnder above
  | .counted _ inner => inner.guardsUnder above

/-- The layers of a stack, below some guarded layers, all describe the same blocks:
these stay in the arena with all that surrounds them, registries hold them, counters
count them, guard words stand around them, and the arena has them live. -/
structure InStep (above : Nat) (stack : Stack) (world : World) (blocks : List Extent) :
    Prop where
  inside : ∀ block ∈ blocks,
    world.arena.range.start + 16 * (above + stack.depth) ≤ block.start ∧
      block.stop + 8 * (above + stack.depth) ≤ world.arena.range.stop
  registries : ∀ layer outer, (layer, outer) ∈ stack.registriesUnder above →
    ∀ address size, (world.registries.get layer).find? address = some size ↔
      ∃ block ∈ blocks, block.outward outer = ⟨address, size⟩
  tallies : ∀ layer outer, (layer, outer) ∈ stack.guardsUnder above →
    (world.tallies.get layer).blocks.toNat = blocks.length ∧
      (world.tallies.get layer).bytes.toNat =
        Word.total (blocks.map fun block => block.size.toNat + 24 * outer)
  guards : ∀ layer outer, (layer, outer) ∈ stack.guardsUnder above → ∀ block ∈ blocks,
    Guard.Intact world.memory (block.outward (outer + 1)).address (block.outward outer).size
  live : ∀ offset size, world.arena.live[offset]? = some size ↔
    ∃ block ∈ blocks,
      block.outward (above + stack.depth) = ⟨world.arena.addressOf offset, size⟩
  valid : world.arena.invalidFrees = 0

/-- Books are in step, read from the outermost layer to the arena. -/
theorem Books.inStep
    {stack : Stack}
    {range : Extent}
    {world : World}
    {blocks : List Extent}
    {above : Nat}
    (books : stack.Books range world (blocks.map (Extent.outward above)))
    (overArena : stack.store = .arena)
    (distinct : stack.layers.Nodup)
    (nested : ∀ block ∈ blocks, block.Nested above) :
    stack.InStep above world blocks := by
  induction stack generalizing above with
  | raw store =>
      cases overArena
      refine ⟨fun block present => ?_, by simp [registriesUnder], by simp [guardsUnder],
        by simp [guardsUnder], fun offset size => ?_, books.valid⟩
      · have inside := books.placed.inside _ (List.mem_map_of_mem present)
        obtain ⟨start, size⟩ := nested block present
        have stop : (block.outward above).stop =
          (block.outward above).start + (block.outward above).size.toNat := rfl
        have stop' : block.stop = block.start + block.size.toNat := rfl
        rw [books.range_eq]
        simp only [depth]
        omega
      · have live := books.live (world.arena.addressOf offset) size
        rw [Arena.sizeAt?, Arena.offsetOf, Arena.addressOf, Address.offsetFrom_add,
          List.mem_map] at live
        exact live
  | guarded layer owns inner inductionHypothesis =>
      obtain ⟨_, innerDistinct⟩ := List.nodup_cons.mp distinct
      have keeps := inner.keeps range overArena innerDistinct
      have regions := books.inner
      rw [Extent.map_around_outward] at regions
      have deeper : ∀ block ∈ blocks, block.Nested (above + 1) := fun block present =>
        (nested block present).succ (books.fits _ (List.mem_map_of_mem present))
          ((keeps.placed regions).stop_le (List.mem_map_of_mem present))
      have below := inductionHypothesis regions overArena innerDistinct deeper
      have depth_eq : above + 1 + inner.depth = above + (inner.depth + 1) := by omega
      have inside := below.inside
      have live := below.live
      rw [depth_eq] at inside live
      refine ⟨inside, below.registries, ?_, ?_, live, below.valid⟩
      · rintro other outer (_ | ⟨_, present⟩)
        · refine ⟨books.count.trans (List.length_map _), books.bytes.trans ?_⟩
          rw [Extent.totalSize, List.map_map]
          congr 1
          exact List.map_congr_left fun block present => (nested block present).2
        · exact below.tallies other outer present
      · rintro other outer (_ | ⟨_, present⟩) block inBlocks
        · have intact := books.intact _ (List.mem_map_of_mem inBlocks)
          rwa [Extent.around_outward] at intact
        · exact below.guards other outer present block inBlocks
  | registered layer owns inner inductionHypothesis =>
      obtain ⟨_, innerDistinct⟩ := List.nodup_cons.mp distinct
      have below := inductionHypothesis books.inner overArena innerDistinct nested
      refine ⟨below.inside, ?_, below.tallies, below.guards, below.live, below.valid⟩
      rintro other outer (_ | ⟨_, present⟩) address size
      · exact (books.held address size).trans List.mem_map
      · exact below.registries other outer present address size
  | counted layer inner inductionHypothesis =>
      obtain ⟨_, innerDistinct⟩ := List.nodup_cons.mp distinct
      have below := inductionHypothesis books overArena innerDistinct nested
      exact ⟨below.inside, below.registries, below.tallies, below.guards, below.live,
        below.valid⟩

/-- Books are in step when nothing lies above the stack. -/
theorem Books.inStep_outermost
    {stack : Stack}
    {range : Extent}
    {world : World}
    {blocks : List Extent}
    (books : stack.Books range world blocks)
    (overArena : stack.store = .arena)
    (distinct : stack.layers.Nodup) :
    stack.InStep 0 world blocks := by
  have outermost : blocks.map (Extent.outward 0) = blocks :=
    (List.map_congr_left fun block _ => block.outward_zero).trans (List.map_id _)
  rw [← outermost] at books
  exact books.inStep overArena distinct fun block _ => Extent.nested_zero block

/-- In every world that a run reaches, all layers describe the live blocks. -/
theorem layers_in_step
    (stack : Stack)
    (arena : Arena)
    (history : List Observation)
    (world : World)
    (overArena : stack.store = .arena)
    (distinct : stack.layers.Nodup)
    (fresh : arena.Fresh)
    (run : Run stack arena history world) :
    stack.InStep 0 world (ledger history) :=
  (run.books overArena distinct fresh).inStep_outermost overArena distinct

/-- All layers describe the first block of an arena of a kilobyte. -/
theorem layers_in_step_of_first_block :
    let arena : Arena := { base := ⟨4096⟩, capacity := 1024 }
    let history : List Observation := [.granted ⟨⟨4112⟩, 5⟩]
    ∃ world, Run (instrumented 0 1 .arena) arena history world ∧
      (instrumented 0 1 .arena).InStep 0 world (ledger history) := by
  intro arena history
  have fresh : arena.Fresh := ⟨⟨⟨4096⟩, 1024, rfl⟩, by decide, by decide⟩
  obtain ⟨world, run⟩ := Run.exists_granted 0 1 (by decide : (5 : UInt64) ≠ 0) (by decide)
    (rfl : arena.credit = none) (by decide +kernel : arena.nextAfter? (5 + 24) = some 32)
  exact ⟨world, run, layers_in_step _ arena history world rfl (by decide) fresh run⟩

end Stack

end GuardedHeap
