import GuardedHeap.Proofs.Run.Frontier

/-!
# Stale addresses

The address of a block that ended or moved stays stale for the rest of a run. A guarded
arena finds the cleared guard words before it, which are dead and therefore never
written again, and tells a double free. A registry above does not know the address.
No arena hands the address out again, because its region lies before the frontier.
-/

namespace GuardedHeap

/-- Both calls refuse an address for one cause, and no call that may be made hands it
out again. -/
structure Stack.Stale
    (stack : Stack)
    (cause : HeapError)
    (blocks : List Extent)
    (world : World)
    (address : Address) : Prop where
  refused : stack.allocator.Refuses address cause world
  unissued : ∀ call issued after, stack.Admits blocks call →
    stack.allocator.call call world = .ok (some issued) after → issued ≠ address

namespace Stack.Run

open World (Dead)

variable {stack : Stack}
variable {arena : Arena}
variable {history : List Observation}
variable {world : World}
variable {address : Address}

/-- The region of a block that ended stays dead. -/
theorem dead_of_ended
    (run : Run stack arena history world)
    (overArena : stack.store = .arena)
    (distinct : stack.layers.Nodup)
    (fresh : arena.Fresh)
    (stale : address ∈ endings history) :
    Dead stack.depth (ledger history) world
      (address.sub (UInt64.ofNat (16 * stack.depth))) := by
  induction history generalizing world with
  | nil => cases stale
  | cons latest history inductionHypothesis =>
      obtain ⟨before, earlier, kept, buried⟩ := run.keepsDead overArena distinct fresh
      obtain ⟨observation, present, ends⟩ := List.mem_filterMap.mp stale
      rcases List.mem_cons.mp present with rfl | old
      · obtain ⟨block, live, rfl, dead⟩ := buried address ends
        apply dead
        have holds := (earlier.books overArena distinct fresh).holds overArena
        have positive := holds.placed.positive _ (List.mem_map_of_mem live)
        exact ⟨Nat.le_refl _, Nat.lt_add_of_pos_right positive⟩
      · have dead := inductionHypothesis earlier (List.mem_filterMap.mpr ⟨_, old, ends⟩)
        exact (kept _ dead).1

/-- A block that ended is not live again. -/
theorem not_mem_ledger_of_ended
    (run : Run stack arena history world)
    (overArena : stack.store = .arena)
    (distinct : stack.layers.Nodup)
    (fresh : arena.Fresh)
    (stale : address ∈ endings history)
    (size : UInt64) :
    ⟨address, size⟩ ∉ ledger history := by
  intro live
  have dead := run.dead_of_ended overArena distinct fresh stale
  apply dead.outside ⟨address, size⟩ live
  have holds := (run.books overArena distinct fresh).holds overArena
  have positive := holds.placed.positive _ (List.mem_map_of_mem live)
  exact ⟨Nat.le_refl _, Nat.lt_add_of_pos_right positive⟩

/-- No call hands out the address of a block that ended. -/
theorem ne_of_issued
    (run : Run stack arena history world)
    (overArena : stack.store = .arena)
    (distinct : stack.layers.Nodup)
    (fresh : arena.Fresh)
    (stale : address ∈ endings history)
    {call : Allocator.Call}
    {issued : Address}
    {after : World}
    (admitted : stack.Admits (ledger history) call)
    (answered : stack.allocator.call call world = .ok (some issued) after) :
    issued ≠ address := by
  have books := run.books overArena distinct fresh
  have passed := (run.dead_of_ended overArena distinct fresh stale).passed
  rintro rfl
  have ahead : ∀ size, world.frontier ≤ ((⟨issued, size⟩ : Extent).outward stack.depth).start →
      False := fun size behind => absurd passed (Nat.not_lt.mpr behind)
  cases call with
  | allocate size =>
      obtain ⟨_, granted, ⟨⟩⟩ := Fallible.ok_of_bind_pure answered
      exact ahead size (books.touches_of_granted overArena distinct granted).2
  | reallocate old newSize =>
      obtain ⟨_, moved, ⟨⟩⟩ := Fallible.ok_of_bind_pure answered
      obtain ⟨block, live, rfl⟩ := books.live_of_moved admitted moved
      have keeps := stack.keeps arena.range overArena distinct
      have front := keeps.perm books ((keeps.placed books).perm_cons_without live)
      exact ahead newSize (front.touches_of_moved overArena distinct moved).2
  | free old =>
      obtain ⟨_, _, ⟨⟩⟩ := Fallible.ok_of_bind_pure answered

end Stack.Run

namespace Guarded

open Memory (InWord)
open World (Touches Dead)

variable {range block : Extent}
variable {rest : List Extent}
variable {layer : Nat}
variable {world after : World}

/-- The words before an address are those of a block that ended, which no call or
client will change. -/
structure Buried (blocks : List Extent) (world : World) (address : Address) : Prop where
  around : Guard.regionOf? address = some (address.sub Guard.headerBytes)
  dead : ∀ byte,
    InWord (address.sub Guard.headerBytes) byte ∨
      InWord (Guard.headerOf (address.sub Guard.headerBytes)) byte →
    Dead 1 blocks world byte
  sizeWord : world.memory.readWord (address.sub Guard.headerBytes) = Guard.cleanup
  headerWord :
    world.memory.readWord (Guard.headerOf (address.sub Guard.headerBytes)) = Guard.cleanup

/-- Whoever keeps the dead keeps the buried. -/
theorem Buried.keep
    {blocks others : List Extent}
    {address : Address}
    (buried : Buried blocks world address)
    (kept : World.KeepsDead 1 blocks others world after) :
    Buried others after address where
  around := buried.around
  dead byte inside := (kept byte (buried.dead byte inside)).1
  sizeWord := by
    rw [← buried.sizeWord]
    apply Memory.readWord_congr
    intro byte inside
    exact (kept byte (buried.dead byte (Or.inl inside))).2
  headerWord := by
    rw [← buried.headerWord]
    apply Memory.readWord_congr
    intro byte inside
    exact (kept byte (buried.dead byte (Or.inr inside))).2

/-- The block in cleared words is taken for one that ended. -/
theorem Buried.refuses
    {blocks : List Extent}
    {address : Address}
    (buried : Buried blocks world address)
    (layer : Nat)
    (owns : Bool)
    (inner : Allocator) :
    (Allocator.guarded layer owns inner).Refuses address (.doubleFree address) world := by
  apply Allocator.refuses_of_fetch buried.around
  rw [Guard.fetch, buried.sizeWord, buried.headerWord]
  dsimp only
  rw [if_pos ⟨rfl, rfl⟩, Guard.blockOf, Address.add_sub_cancel]

/-- What happens behind the frontier after the guard words of a block were cleared leaves
them cleared. -/
theorem Books.cleared_words
    {regions : List Extent}
    (books : Books layer (Raw.Books range) world (block :: rest))
    (touches : Touches regions (world.cleared block.around.address block.size) after)
    (behind : ∀ region ∈ regions, world.frontier ≤ region.start) :
    after.memory.readWord block.around.address = Guard.cleanup ∧
      after.memory.readWord (Guard.headerOf block.around.address) = Guard.cleanup := by
  have fits := books.fits block (.head _)
  have regionsPlaced := books.marked.regions (Raw.keeps range)
  have same : ∀ byte, Guard.InWords block.around.address block.size byte →
      after.memory.get byte =
        (world.cleared block.around.address block.size).memory.get byte := by
    intro byte inWords
    apply touches.memory
    intro region present contains
    have inside := (Extent.contains_around_of_inWords fits (regionsPlaced.stop_le (.head _))
      inWords).1
    have stop : block.around.stop ≤ world.frontier := by
      rw [World.frontier, books.inner.range_eq]
      exact books.inner.before _ (.head _)
    have start := behind region present
    have := inside.2
    have := contains.1
    omega
  obtain ⟨sizeWord, headerWord, _⟩ := fits.readWord_mark world.memory block.around.address
    Guard.cleanup Guard.cleanup Guard.cleanup
  refine ⟨Eq.trans ?_ sizeWord, Eq.trans ?_ headerWord⟩
  · apply Memory.readWord_congr
    exact fun byte inside => same byte (Or.inl inside)
  · apply Memory.readWord_congr
    exact fun byte inside => same byte (Or.inr (Or.inl inside))

theorem Books.cleared_of_moved
    {owns : Bool}
    {newSize : UInt64}
    {newAddress : Address}
    (books : Books layer (Raw.Books range) world (block :: rest))
    (moved : (Allocator.guarded layer owns (.raw .arena)).reallocate block.address newSize
      world = .ok newAddress after) :
    after.memory.readWord block.around.address = Guard.cleanup ∧
      after.memory.readWord (Guard.headerOf block.around.address) = Guard.cleanup := by
  have keeps := Raw.keeps range
  have outcome := reallocate_outcome layer (.raw .arena) block.address newSize world
  rw [show Guarded.reallocate layer (.raw .arena) block.address newSize world = _ from moved]
    at outcome
  cases outcome with
  | @moved region newRegion size middle events nonempty fits around fetched below =>
      rw [books.marked.regionOf? keeps] at around
      cases around
      rw [books.marked.fetch keeps] at fetched
      cases fetched
      have cleared := (books.marked.cleared keeps).1
      obtain ⟨touches, behind⟩ := Raw.Books.touches_of_moved cleared below
      have regions := (keeps.reallocate cleared below).1
      have ahead : ∀ region ∈ [(⟨newRegion, newSize + 24⟩ : Extent)],
          world.frontier ≤ region.start := List.forall_mem_singleton.mpr behind
      refine books.cleared_words ?_ ahead
      exact touches.mark fits ((keeps.placed regions).stop_le (.head _))
        (fun byte inside => ⟨_, .head _, inside⟩) rfl rfl

theorem Books.cleared_of_ended
    {owns : Bool}
    (books : Books layer (Raw.Books range) world (block :: rest))
    (ended : (Allocator.guarded layer owns (.raw .arena)).free block.address world =
      .ok () after) :
    after.memory.readWord block.around.address = Guard.cleanup ∧
      after.memory.readWord (Guard.headerOf block.around.address) = Guard.cleanup := by
  have keeps := Raw.keeps range
  have outcome := free_outcome layer (.raw .arena) block.address world
  rw [show Guarded.free layer (.raw .arena) block.address world = _ from ended] at outcome
  cases outcome with
  | @freed region size middle events around fetched below =>
      rw [books.marked.regionOf? keeps] at around
      cases around
      rw [books.marked.fetch keeps] at fetched
      cases fetched
      have touches := Raw.touches_of_ended below
      exact books.cleared_words ⟨touches.memory, touches.frontier⟩
        (fun _ present => absurd present List.not_mem_nil)

end Guarded

namespace Stack

open World (Dead)

variable {layer : Nat}
variable {owns : Bool}
variable {arena : Arena}
variable {latest : Observation}
variable {history : List Observation}
variable {world after : World}
variable {address : Address}

/-- With a block of a guarded arena, its guard words are cleared. -/
theorem Run.cleared_of_ends
    (run : Run (.guarded layer owns (.raw .arena)) arena (latest :: history) after)
    (fresh : arena.Fresh)
    (ends : latest.ends = some address) :
    after.memory.readWord (address.sub Guard.headerBytes) = Guard.cleanup ∧
      after.memory.readWord (Guard.headerOf (address.sub Guard.headerBytes)) =
        Guard.cleanup := by
  have distinct : (guarded layer owns (.raw .arena)).layers.Nodup := by simp [layers]
  have keeps := Stack.keeps arena.range rfl distinct
  cases run with
  | moved earlier admitted answered =>
      cases ends
      have books := earlier.books rfl distinct fresh
      obtain ⟨block, live, rfl⟩ := books.live_of_moved admitted answered
      have front := keeps.perm books ((keeps.placed books).perm_cons_without live)
      exact Guarded.Books.cleared_of_moved front answered
  | ended earlier admitted answered =>
      cases ends
      have books := earlier.books rfl distinct fresh
      obtain ⟨block, live, rfl⟩ := books.live_of_ended admitted answered
      have front := keeps.perm books ((keeps.placed books).perm_cons_without live)
      exact Guarded.Books.cleared_of_ended front answered
  | granted _ _ => cases ends
  | refused _ _ _ => cases ends
  | wrote _ _ _ _ => cases ends
  | saw _ _ _ => cases ends
  | limited _ _ => cases ends
  | recovered _ => cases ends

/-- The blocks of a guarded arena that ended stay buried. -/
theorem Run.buried
    (run : Run (.guarded layer owns (.raw .arena)) arena history world)
    (fresh : arena.Fresh)
    (stale : address ∈ endings history) :
    Guarded.Buried (ledger history) world address := by
  have distinct : (guarded layer owns (.raw .arena)).layers.Nodup := by simp [layers]
  induction history generalizing world with
  | nil => cases stale
  | cons latest history inductionHypothesis =>
      obtain ⟨before, earlier, kept, dies⟩ := run.keepsDead rfl distinct fresh
      obtain ⟨observation, present, ends⟩ := List.mem_filterMap.mp stale
      rcases List.mem_cons.mp present with rfl | old
      · obtain ⟨sizeWord, headerWord⟩ := run.cleared_of_ends fresh ends
        obtain ⟨block, live, rfl, dead⟩ := dies address ends
        have keeps := Stack.keeps arena.range rfl distinct
        have books := earlier.books rfl distinct fresh
        have front : Guarded.Books layer (Raw.Books arena.range) before
            (block :: Extent.without (ledger history) block.address) :=
          keeps.perm books ((keeps.placed books).perm_cons_without live)
        have bounded := (front.marked.regions (Raw.keeps arena.range)).stop_le (.head _)
        refine ⟨front.marked.regionOf? (Raw.keeps arena.range), ?_, sizeWord, headerWord⟩
        intro byte inside
        apply dead
        have inWords : Guard.InWords block.around.address block.size byte :=
          inside.imp id Or.inl
        exact (Extent.contains_around_of_inWords (front.fits block (.head _)) bounded inWords).1
      · have buried := inductionHypothesis earlier (List.mem_filterMap.mpr ⟨_, old, ends⟩)
        exact buried.keep kept

/-- All along a run, the address of a block that ended or moved is stale: a guarded arena
tells a double free, and a guarded and registered one does not know it. -/
theorem ended_addresses_stale
    (layer registry guard : Nat)
    (owns : Bool)
    (arena : Arena)
    (history : List Observation)
    (world : World)
    (address : Address)
    (fresh : arena.Fresh)
    (differs : registry ≠ guard)
    (stale : address ∈ endings history) :
    (Run (.guarded layer owns (.raw .arena)) arena history world →
      Stale (.guarded layer owns (.raw .arena)) (.doubleFree address) (ledger history) world
        address) ∧
    (Run (instrumented registry guard .arena) arena history world →
      Stale (instrumented registry guard .arena) (.unknownAddress address) (ledger history)
        world address) := by
  refine ⟨fun run => ⟨?_, ?_⟩, fun run => ⟨?_, ?_⟩⟩
  · exact (run.buried fresh stale).refuses layer owns (.raw .arena)
  · intro call issued after admitted answered
    exact run.ne_of_issued rfl (by simp [layers]) fresh stale admitted answered
  · have distinct : (instrumented registry guard .arena).layers.Nodup := by
      simp [instrumented, layers, differs]
    have books : Registered.Books registry _ world (ledger history) :=
      run.books rfl distinct fresh
    apply Allocator.refuses_of_absent
    apply Option.eq_none_iff_forall_ne_some.mpr
    intro size held
    exact run.not_mem_ledger_of_ended rfl distinct fresh stale size
      ((books.held address size).mp held)
  · intro call issued after admitted answered
    have distinct : (instrumented registry guard .arena).layers.Nodup := by
      simp [instrumented, layers, differs]
    exact run.ne_of_issued rfl distinct fresh stale admitted answered

/-- A first block ends, in both stacks. -/
theorem ended_addresses_stale_of_first_block :
    let arena : Arena := { base := ⟨4096⟩, capacity := 1024 }
    let history : List Observation := [.ended ⟨4112⟩, .granted ⟨⟨4112⟩, 5⟩]
    (∃ world, Run (.guarded 0 true (.raw .arena)) arena history world ∧
      Stale (.guarded 0 true (.raw .arena)) (.doubleFree ⟨4112⟩) (ledger history) world
        ⟨4112⟩) ∧
    ∃ world, Run (instrumented 0 1 .arena) arena history world ∧
      Stale (instrumented 0 1 .arena) (.unknownAddress ⟨4112⟩) (ledger history) world
        ⟨4112⟩ := by
  intro arena history
  have fresh : arena.Fresh := ⟨⟨⟨4096⟩, 1024, rfl⟩, by decide, by decide⟩
  have unlimited : arena.credit = none := rfl
  have room : arena.nextAfter? (5 + 24) = some 32 := by decide +kernel
  have stale : (⟨4112⟩ : Address) ∈ endings history := .head _
  have live : (⟨⟨4112⟩, 5⟩ : Extent) ∈ ledger [.granted ⟨⟨4112⟩, 5⟩] := .head _
  obtain ⟨_, granted⟩ := Run.allocate_guarded 0 true (by decide : (5 : UInt64) ≠ 0)
    (by decide) unlimited room
  obtain ⟨first, guarded⟩ := Run.exists_ended (.granted (.start .zero) granted) rfl (by decide)
    fresh live
  obtain ⟨_, registered⟩ := Run.exists_granted 0 1 (by decide : (5 : UInt64) ≠ 0)
    (by decide) unlimited room
  obtain ⟨second, instrumented⟩ := Run.exists_ended registered rfl (by decide) fresh live
  exact ⟨⟨first, guarded, (ended_addresses_stale 0 0 1 true arena history first ⟨4112⟩ fresh
      (by decide) stale).1 guarded⟩,
    second, instrumented, (ended_addresses_stale 0 0 1 true arena history second ⟨4112⟩ fresh
      (by decide) stale).2 instrumented⟩

end Stack
end GuardedHeap
