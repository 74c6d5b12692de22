import GuardedHeap.Proofs.Client.Quiet

/-!
# Live memory

The roots that a careful client holds lie in live regions of the arena, so no operation on
their views reads or changes a byte of memory that is not live. Without care this fails:
when the stack is called directly to end a block, the root of that block is still held,
and operations on it go on as before.
-/

namespace GuardedHeap

namespace Client

variable {client : Client}

/-- A careful client reads and changes live memory only, in whatever way it cuts the views
on which it operates. -/
theorem careful_operations_confined_to_live
    {registry guard : Nat}
    {arena : Arena}
    {operation : Block.Operation}
    (differs : registry ≠ guard)
    (fresh : arena.Fresh)
    (run : Run Careful (.instrumented registry guard .arena) arena client)
    (sees : ∀ block ∈ operation.blocks, client.Sees block) :
    MemoryM.Confined client.world.arena.Live client.world.arena.Live operation.run := by
  have distinct : (Stack.instrumented registry guard .arena).layers.Nodup := by
    simp [Stack.instrumented, Stack.layers, differs]
  obtain ⟨lost, accounts⟩ := run.accounts rfl distinct rfl fresh
  have rooted : ∀ block ∈ operation.blocks, block.Rooted :=
    fun block present => accounts.rooted rfl distinct (sees block present)
  have readBack : ∀ address, operation.Targets address → operation.Reaches address := by
    rintro address ⟨block, target, inRoot⟩
    exact ⟨block, Block.Operation.mem_blocks_of_target target, inRoot⟩
  have live : ∀ address, operation.Reaches address → client.world.arena.Live address := by
    rintro address ⟨block, present, inRoot⟩
    obtain ⟨holding, held, contains⟩ := owns_of_sees (sees block present) inRoot
    exact accounts.books.live_of_contains rfl distinct
      (List.mem_append_left _ (List.mem_map_of_mem held)) contains
  exact (Block.Operation.confined rooted).mono readBack live
    fun address written => live address (readBack address written)

/-- A first block is filled by a client that holds it. -/
theorem careful_operations_confined_to_live_of_first_block :
    let arena : Arena := { base := ⟨4096⟩, capacity := 1024 }
    let root : Root := ⟨⟨⟨4112⟩, 16⟩, true, some 1⟩
    ∃ client, Run Careful (.instrumented 0 1 .arena) arena client ∧
      client.holdings = [⟨1, .block root⟩] ∧
      MemoryM.Confined client.world.arena.Live client.world.arena.Live
        (Block.Operation.fill (.whole root) 17).run := by
  intro arena root
  have fresh : arena.Fresh := ⟨⟨⟨4096⟩, 1024, rfl⟩, by decide, by decide⟩
  obtain ⟨client, _, run, _, _, holdings_eq⟩ :=
    Run.exists_first_block Careful 0 1 .testing (fun _ => trivial) (fun _ _ => trivial)
      (by decide : (16 : UInt64) ≠ 0) (by decide) (rfl : arena.credit = none)
      (by decide +kernel : arena.nextAfter? (16 + 24) = some 48)
  have held : (⟨1, .block root⟩ : Holding) ∈ client.holdings :=
    holdings_eq ▸ List.mem_singleton_self _
  refine ⟨client, run, holdings_eq, careful_operations_confined_to_live (by decide) fresh run ?_⟩
  intro block present
  cases List.mem_singleton.mp present
  exact sees_whole held rfl

/-- When a client ends the block of a thing that it holds by a direct call, the thing is
still held and its bytes are no longer live. -/
theorem Accounts.not_live_of_freeDirectly
    {stack : Stack}
    {range : Extent}
    {lost : List Extent}
    {holding : Holding}
    (accounts : client.Accounts stack range lost)
    (overArena : stack.store = .arena)
    (distinct : stack.layers.Nodup)
    (held : holding ∈ client.holdings) :
    ∃ world, (Command.freeDirectly holding.extent.address).perform stack client =
        .ok () { client with world } ∧
      ∀ address, holding.extent.Contains address → ¬ world.arena.Live address := by
  have books := accounts.books_of_held overArena distinct held
  obtain ⟨world, freed, booksAfter, _⟩ := (stack.keeps range overArena distinct).free books
  refine ⟨world, onHeap_of_ok freed, ?_⟩
  intro address contains
  exact books.not_live_of_ended booksAfter overArena distinct contains

/-- A root whose block was ended by a direct call can still be filled, which changes
memory that is not live. -/
theorem fill_succeeds_after_freeDirectly :
    let arena : Arena := { base := ⟨4096⟩, capacity := 1024 }
    let root : Root := ⟨⟨⟨4112⟩, 16⟩, true, some 1⟩
    ∃ client, Run (fun _ _ => True) (.instrumented 0 1 .arena) arena client ∧
      client.Sees (.whole root) ∧
      ∃ value after, (Block.whole root).fill value client.world.memory = .ok () after ∧
        after.get ⟨4112⟩ ≠ client.world.memory.get ⟨4112⟩ ∧
        ¬ client.world.arena.Live ⟨4112⟩ := by
  intro arena root
  have fresh : arena.Fresh := ⟨⟨⟨4096⟩, 1024, rfl⟩, by decide, by decide⟩
  have distinct : (Stack.instrumented 0 1 .arena).layers.Nodup := by decide
  obtain ⟨client, _, run, _, _, holdings_eq⟩ :=
    Run.exists_first_block Careful 0 1 .testing (fun _ => trivial) (fun _ _ => trivial)
      (by decide : (16 : UInt64) ≠ 0) (by decide) (rfl : arena.credit = none)
      (by decide +kernel : arena.nextAfter? (16 + 24) = some 48)
  have held : (⟨1, .block root⟩ : Holding) ∈ client.holdings :=
    holdings_eq ▸ List.mem_singleton_self _
  obtain ⟨lost, accounts⟩ := run.accounts rfl distinct rfl fresh
  obtain ⟨world, freed, dead⟩ := accounts.not_live_of_freeDirectly rfl distinct held
  have unruly : Run (fun _ _ => True) (.instrumented 0 1 .arena) arena client :=
    run.mono fun _ _ _ => trivial
  have admitted : client.Admits
      (.freeDirectly (Holding.extent ⟨1, .block root⟩).address) := trivial
  have runFreed := unruly.step admitted trivial
  rw [Fallible.final, freed] at runFreed
  -- a value that differs from the byte that is there, so that the change can be seen
  let value : UInt8 := world.memory.get ⟨4112⟩ + 1
  refine ⟨_, runFreed, sees_whole held rfl, value, _,
    Block.fill_whole_of_nonempty (by decide) value world.memory, ?_, dead ⟨4112⟩ (by decide)⟩
  rw [Memory.get_fill_of_near _ _ _ _ _ (by decide) (by decide)]
  grind

end Client
end GuardedHeap
