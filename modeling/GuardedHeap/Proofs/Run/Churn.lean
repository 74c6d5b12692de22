import GuardedHeap.Proofs.Factory.Outcome
import GuardedHeap.Proofs.Ledger.Beside
import GuardedHeap.Proofs.Run.Frontier
import GuardedHeap.Proofs.Run.InStep
import GuardedHeap.Workload

/-!
# Churns

A churn takes blocks of many sizes and then gives all of them back. It comes to its end if and
only if all blocks are granted, and then leaves the tables of all layers as they were. If one is
refused, it stops there and gives nothing back: the blocks before stay live, in all layers.

A block that was granted may be used before the next one is asked for, and what is done with it
is a parameter here: `churn` leaves it as it is, and `churnBlocks` clears its bytes.
-/

namespace GuardedHeap

/-- Granting a block ends no region of the arena. -/
theorem Stack.frees_of_allocate
    {stack : Stack}
    {world after : World}
    {size : UInt64}
    {address : Address}
    (overArena : stack.store = .arena)
    (granted : stack.allocator.allocate size world = .ok address after) :
    after.arena.frees = world.arena.frees := by
  induction stack generalizing world after size address with
  | raw store =>
      obtain rfl : store = .arena := overArena
      rw [allocator_raw] at granted
      cases Raw.granted_of_allocate granted with
      | of_room credit events nonempty room => rfl
  | guarded layer owns inner inductionHypothesis =>
      have outcome := Guarded.allocate_outcome layer inner.allocator size world
      rw [show Guarded.allocate layer inner.allocator size world = .ok address after
        from granted] at outcome
      cases outcome with
      | granted events nonempty fits below =>
          have same := inductionHypothesis overArena below
          exact same
  | registered layer owns inner inductionHypothesis =>
      have outcome := Registered.allocate_outcome layer inner.allocator size world
      rw [show Registered.allocate layer inner.allocator size world = .ok address after
        from granted] at outcome
      cases outcome with
      | granted events nonempty below =>
          have same := inductionHypothesis overArena below
          exact same
  | counted layer inner inductionHypothesis =>
      let counts := world.callCounts.get layer
      let counted : World := { world with
        callCounts := world.callCounts.set layer
          { counts with allocations := counts.allocations + 1 } }
      have below : inner.allocator.allocate size counted = .ok address after := granted
      exact @inductionHypothesis counted after size address overArena below

namespace Workload

/-- Blocks of all sizes are granted, one after the other, and each is used before the next one is
asked for. -/
inductive Granted (allocator : Allocator) (use : Extent → World → World) :
    World → List UInt64 → List Extent → World → Prop
  | done (world : World) : Granted allocator use world [] [] world
  | next
      {world middle after : World}
      {size : UInt64}
      {sizes : List UInt64}
      {address : Address}
      {blocks : List Extent}
      (granted : allocator.allocate size world = .ok address middle)
      (others : Granted allocator use (use ⟨address, size⟩ middle) sizes blocks after) :
      Granted allocator use world (size :: sizes) (⟨address, size⟩ :: blocks) after

/-- A block is not used. -/
def leave (_ : Extent) (world : World) : World := world

/-- The making of a root is told, and the bytes of its block are cleared. -/
def clear (factory : Factory) (block : Extent) (world : World) : World :=
  { world with
    events := world.events.push (.factoryAllocated factory.id block)
    memory := world.memory.fill block.address block.size.toNat 0 }

/-- The root that a factory makes of a block. -/
def rootOf (factory : Factory) (block : Extent) : Root :=
  ⟨block, factory.config.checking, some factory.id⟩

/-- The registries of a stack, its counters and the live regions of the arena are the same. -/
structure Restored (stack : Stack) (before after : World) : Prop where
  registries : ∀ layer outer, (layer, outer) ∈ stack.registriesUnder 0 → ∀ address,
    (after.registries.get layer).find? address = (before.registries.get layer).find? address
  tallies : ∀ layer outer, (layer, outer) ∈ stack.guardsUnder 0 →
    after.tallies.get layer = before.tallies.get layer
  live : ∀ offset : UInt64, after.arena.live[offset]? = before.arena.live[offset]?

/-- What comes of a churn, if some blocks were live before. -/
structure Churned
    (stack : Stack)
    (use : Extent → World → World)
    (live : List Extent)
    (sizes : List UInt64)
    (world : World)
    (result : HeapM.Result UInt64) : Prop where
  /-- It comes to its end if and only if all blocks are granted. -/
  ends : (∃ total after, result = .ok total after) ↔
    ∃ blocks middle, Granted stack.allocator use world sizes blocks middle
  /-- Then the answer is the exact sum and the tables are as they were. -/
  balanced : ∀ total after, result = .ok total after →
    total.toNat = Word.total (sizes.map UInt64.toNat) ∧ Restored stack world after
  /-- It fails only by the first refusal. -/
  fails : ∀ failure after, result = .error failure after →
    ∃ earlier size later blocks middle,
      sizes = earlier ++ size :: later ∧
        Granted stack.allocator use world earlier blocks middle ∧
        stack.allocator.allocate size middle = .error failure after
  /-- The first refusal is the answer, no region was ended, and the blocks that were granted stay
  live in all layers, beside those before. -/
  stopped : ∀ earlier size later blocks middle failure after,
    sizes = earlier ++ size :: later →
    Granted stack.allocator use world earlier blocks middle →
    stack.allocator.allocate size middle = .error failure after →
      result = .error failure after ∧ after.arena.frees = world.arena.frees ∧
        stack.InStep 0 after (blocks.reverse ++ live)

section Taking

variable {allocator : Allocator}
variable {use : Extent → World → World}
variable {world middle after : World}
variable {size : UInt64}
variable {sizes earlier : List UInt64}
variable {blocks : List Extent}
variable {failure : Failure HeapError}

/-- All blocks are granted, or there is a first one that is refused. -/
theorem granted_or_refused
    (allocator : Allocator)
    (use : Extent → World → World)
    (world : World)
    (sizes : List UInt64) :
    (∃ blocks middle, Granted allocator use world sizes blocks middle) ∨
      ∃ earlier size later blocks middle failure after,
        sizes = earlier ++ size :: later ∧
          Granted allocator use world earlier blocks middle ∧
          allocator.allocate size middle = .error failure after := by
  induction sizes generalizing world with
  | nil => exact .inl ⟨[], world, .done world⟩
  | cons size sizes inductionHypothesis =>
      cases first : allocator.allocate size world with
      | error failure after =>
          exact .inr ⟨[], size, sizes, [], world, failure, after, rfl, .done world, first⟩
      | ok address next =>
          rcases inductionHypothesis (use ⟨address, size⟩ next) with
            ⟨blocks, middle, granted⟩ | ⟨earlier, other, later, blocks, middle, failure, after,
              rfl, granted, refused⟩
          · exact .inl ⟨_, middle, .next first granted⟩
          · exact .inr ⟨size :: earlier, other, later, _, middle, failure, after, rfl,
              .next first granted, refused⟩

theorem Granted.sizes_eq
    (granted : Granted allocator use world sizes blocks after) :
    blocks.map Extent.size = sizes := by
  induction granted with
  | done world => rfl
  | next granted others inductionHypothesis =>
      rw [List.map_cons, inductionHypothesis]

theorem takeAll_of_granted
    (granted : Granted allocator leave world sizes blocks after) :
    takeAll allocator sizes world = .ok (blocks.map Extent.address) after := by
  induction granted with
  | done world => rfl
  | next granted others inductionHypothesis =>
      rw [takeAll, Fallible.bind_of_ok granted]
      exact Fallible.bind_of_ok inductionHypothesis _

/-- Nothing is asked for after a refusal. -/
theorem takeAll_of_refused
    (granted : Granted allocator leave world earlier blocks middle)
    (refused : allocator.allocate size middle = .error failure after)
    (later : List UInt64) :
    takeAll allocator (earlier ++ size :: later) world = .error failure after := by
  induction granted with
  | done world => exact Fallible.bind_of_error refused _
  | next granted others inductionHypothesis =>
      rw [List.cons_append, takeAll, Fallible.bind_of_ok granted]
      exact Fallible.bind_of_error (inductionHypothesis refused) _

section Making

variable {factory : Factory}

theorem allocate_rootOf
    {address : Address}
    (granted : factory.allocator.allocate size world = .ok address after) :
    factory.allocate size world = .ok (rootOf factory ⟨address, size⟩) { after with
      events := after.events.push (.factoryAllocated factory.id ⟨address, size⟩) } :=
  Factory.allocate_eq_of_granted granted

/-- A root that was made is cleared, for it is not empty. -/
theorem fill_rootOf
    {block : Extent}
    (nonempty : block.size ≠ 0)
    (world : World) :
    HeapM.onMemory ((Block.whole (rootOf factory block)).fill 0)
        { world with events := world.events.push (.factoryAllocated factory.id block) } =
      .ok () (clear factory block world) :=
  HeapM.onMemory_of_ok (Block.fill_whole_of_nonempty nonempty 0 _)

theorem makeAll_of_granted
    (granted : Granted factory.allocator (clear factory) world sizes blocks after)
    (nonempty : ∀ block ∈ blocks, block.size ≠ 0) :
    makeAll factory sizes world = .ok (blocks.map (rootOf factory)) after := by
  induction granted with
  | done world => rfl
  | next granted others inductionHypothesis =>
      obtain ⟨first, rest⟩ := List.forall_mem_cons.mp nonempty
      rw [makeAll, Fallible.bind_of_ok (allocate_rootOf granted),
        Fallible.bind_of_ok (fill_rootOf first _)]
      exact Fallible.bind_of_ok (inductionHypothesis rest) _

theorem makeAll_of_refused
    (granted : Granted factory.allocator (clear factory) world earlier blocks middle)
    (nonempty : ∀ block ∈ blocks, block.size ≠ 0)
    (refused : factory.allocator.allocate size middle = .error failure after)
    (later : List UInt64) :
    makeAll factory (earlier ++ size :: later) world = .error failure after := by
  induction granted with
  | done world => exact Fallible.bind_of_error (Factory.allocate_eq_of_refused refused) _
  | next granted others inductionHypothesis =>
      obtain ⟨first, rest⟩ := List.forall_mem_cons.mp nonempty
      rw [List.cons_append, makeAll, Fallible.bind_of_ok (allocate_rootOf granted),
        Fallible.bind_of_ok (fill_rootOf first _)]
      exact Fallible.bind_of_error (inductionHypothesis rest refused) _

end Making

end Taking

/-! ### What is in the books -/

section Books

variable {stack : Stack}
variable {range : Extent}
variable {live blocks : List Extent}
variable {world middle after : World}
variable {sizes : List UInt64}
variable {factory : Factory}

/-- A use of a block that is in the books keeps them, and does nothing to the arena. -/
structure Careful (stack : Stack) (range : Extent) (use : Extent → World → World) : Prop where
  books : ∀ {block rest world}, stack.Books range world (block :: rest) →
    stack.Books range (use block world) (block :: rest)
  arena : ∀ block world, (use block world).arena = world.arena

theorem careful_leave : Careful stack range leave where
  books books := books
  arena _ _ := rfl

variable (overArena : stack.store = .arena)
variable (distinct : stack.layers.Nodup)

include overArena distinct

theorem careful_clear (factory : Factory) : Careful stack range (clear factory) where
  books {block rest world} books := by
    have told := books.of_events overArena distinct
      (world.events.push (.factoryAllocated factory.id block))
    apply told.of_memory overArena distinct
    intro address outside
    have bounded := ((stack.keeps range overArena distinct).placed books).stop_le (.head _)
    have away : ¬ block.Contains address := fun inside => outside ⟨block, .head _, inside⟩
    exact Memory.get_fill_of_far _ _ _ _ _ (Extent.far_of_not_contains bounded away)
  arena _ _ := rfl

/-- The blocks of a churn are in the books, and no region was ended for them. -/
theorem Granted.books
    {use : Extent → World → World}
    (granted : Granted stack.allocator use world sizes blocks after)
    (careful : Careful stack range use)
    (books : stack.Books range world live) :
    stack.Books range after (blocks.reverse ++ live) ∧
      after.arena.frees = world.arena.frees := by
  induction granted generalizing live with
  | done world => exact ⟨books, rfl⟩
  | next granted others inductionHypothesis =>
      have keeps := stack.keeps range overArena distinct
      obtain ⟨booksAfter, frees⟩ :=
        inductionHypothesis (careful.books (keeps.allocate books granted).1)
      rw [careful.arena] at frees
      rw [List.reverse_cons, List.append_assoc]
      exact ⟨booksAfter, frees.trans (Stack.frees_of_allocate overArena granted)⟩

/-- Blocks in the books are not empty. -/
theorem ne_zero_of_books
    (books : stack.Books range world (blocks.reverse ++ live)) :
    ∀ block ∈ blocks, block.size ≠ 0 := by
  intro block present isEmpty
  have positive := ((stack.keeps range overArena distinct).placed books).positive block
    (List.mem_append_left _ (List.mem_reverse.mpr present))
  rw [isEmpty] at positive
  exact absurd positive (Nat.lt_irrefl 0)

/-- The sum of the sizes of blocks in the books is a word. -/
theorem exists_sum
    (books : stack.Books range world (blocks.reverse ++ live))
    (sizes_eq : blocks.map Extent.size = sizes) :
    ∃ total, Word.sum? sizes = some total ∧ total.toNat = Word.total (sizes.map UInt64.toNat) := by
  have placed := (stack.keeps range overArena distinct).placed books
  have total_eq : Word.total (sizes.map UInt64.toNat) = Extent.totalSize blocks := by
    rw [← sizes_eq, List.map_map]
    rfl
  have bounded : Extent.totalSize blocks ≤ range.size.toNat := by
    have total := placed.total
    rw [Extent.totalSize_append, Extent.totalSize_perm blocks.reverse_perm] at total
    exact Nat.le_trans (Nat.le_add_right _ _) total
  have isWord : Word.total (sizes.map UInt64.toNat) < UInt64.size := by
    rw [total_eq]
    exact Nat.lt_of_le_of_lt bounded range.size.toNat_lt
  exact ⟨_, if_pos isWord, UInt64.toNat_ofNat_of_lt' isWord⟩

/-- Blocks in the books can be given back. -/
theorem freeAll_of_books
    (books : stack.Books range world (blocks ++ live)) :
    ∃ after, freeAll stack.allocator (blocks.map Extent.address) world = .ok () after ∧
      stack.Books range after live := by
  induction blocks generalizing world with
  | nil => exact ⟨world, rfl, books⟩
  | cons block blocks inductionHypothesis =>
      obtain ⟨middle, freed, booksMiddle, -⟩ := (stack.keeps range overArena distinct).free books
      obtain ⟨after, others, booksAfter⟩ := inductionHypothesis booksMiddle
      exact ⟨after, by rw [List.map_cons, freeAll, Fallible.bind_of_ok freed, others], booksAfter⟩

/-- Roots of which the blocks are in the books can be ended. -/
theorem endAll_of_books
    (uses : factory.allocator = stack.allocator)
    (books : stack.Books range world (blocks ++ live)) :
    ∃ after, endAll factory (blocks.map (rootOf factory)) world = .ok () after ∧
      stack.Books range after live := by
  induction blocks generalizing world with
  | nil => exact ⟨world, rfl, books⟩
  | cons block blocks inductionHypothesis =>
      have booksOfRoot : stack.Books range world
          ((rootOf factory block).extent :: (blocks ++ live)) := books
      obtain ⟨middle, freed, booksMiddle⟩ :=
        Factory.free_of_own overArena distinct uses booksOfRoot rfl
      obtain ⟨after, others, booksAfter⟩ := inductionHypothesis booksMiddle
      exact ⟨after, by rw [List.map_cons, endAll, Fallible.bind_of_ok freed, others], booksAfter⟩

/-- What is in the books of the same blocks is the same. -/
theorem restored_of_books
    (before : stack.Books range world live)
    (books : stack.Books range after live) :
    Restored stack world after := by
  have inStepBefore := before.inStep_outermost overArena distinct
  have inStep := books.inStep_outermost overArena distinct
  refine ⟨fun layer outer present address => ?registries, fun layer outer present => ?tallies,
    fun offset => ?live⟩
  case registries =>
    apply Option.ext
    intro size
    rw [inStep.registries layer outer present, inStepBefore.registries layer outer present]
  case tallies =>
    obtain ⟨blocks, bytes⟩ := inStep.tallies layer outer present
    obtain ⟨blocksBefore, bytesBefore⟩ := inStepBefore.tallies layer outer present
    have sameBlocks := UInt64.toNat_inj.mp (blocks.trans blocksBefore.symm)
    have sameBytes := UInt64.toNat_inj.mp (bytes.trans bytesBefore.symm)
    have sameTally := congr (congrArg Tally.mk sameBlocks) sameBytes
    exact sameTally
  case live =>
    have sameRange : after.arena.range = world.arena.range :=
      (books.holds overArena).range_eq.trans (before.holds overArena).range_eq.symm
    have sameBase : after.arena.base = world.arena.base := congrArg Extent.address sameRange
    apply Option.ext
    intro size
    rw [inStep.live, inStepBefore.live, Arena.addressOf, Arena.addressOf, sameBase]

theorem churn_of_granted
    (granted : Granted stack.allocator leave world sizes blocks middle)
    (books : stack.Books range world live) :
    ∃ total after, churn stack.allocator sizes world = .ok total after ∧
      total.toNat = Word.total (sizes.map UInt64.toNat) ∧ stack.Books range after live := by
  obtain ⟨booksMiddle, -⟩ := granted.books overArena distinct careful_leave books
  obtain ⟨after, freed, booksAfter⟩ := freeAll_of_books overArena distinct booksMiddle
  obtain ⟨total, sum, exact⟩ := exists_sum overArena distinct booksMiddle granted.sizes_eq
  rw [List.map_reverse] at freed
  refine ⟨total, after, ?_, exact, booksAfter⟩
  rw [churn, Fallible.bind_of_ok (takeAll_of_granted granted), Fallible.bind_of_ok freed, sum]
  rfl

/-- Roots are ended in the order in which they were made. -/
theorem churnBlocks_of_granted
    (uses : factory.allocator = stack.allocator)
    (granted : Granted stack.allocator (clear factory) world sizes blocks middle)
    (books : stack.Books range world live) :
    ∃ total after, churnBlocks factory sizes world = .ok total after ∧
      total.toNat = Word.total (sizes.map UInt64.toNat) ∧ stack.Books range after live := by
  obtain ⟨booksMiddle, -⟩ :=
    granted.books overArena distinct (careful_clear overArena distinct factory) books
  have nonempty := ne_zero_of_books overArena distinct booksMiddle
  obtain ⟨total, sum, exact⟩ := exists_sum overArena distinct booksMiddle granted.sizes_eq
  have inOrder := (stack.keeps range overArena distinct).perm booksMiddle
    (blocks.reverse_perm.append_right live)
  obtain ⟨after, ended, booksAfter⟩ := endAll_of_books overArena distinct uses inOrder
  have sizes_eq : (blocks.map (rootOf factory)).map (fun root => root.extent.size) = sizes := by
    rw [List.map_map]
    exact granted.sizes_eq
  refine ⟨total, after, ?_, exact, booksAfter⟩
  rw [← uses] at granted
  rw [churnBlocks, Fallible.bind_of_ok (makeAll_of_granted granted nonempty), sizes_eq, sum,
    Fallible.bind_of_ok (Fallible.exactly_some total _), Fallible.bind_of_ok ended]
  rfl

/-- A workload that ends when all blocks are granted, and that stops at the first refusal, is a
churn. -/
theorem churned_of_books
    {use : Extent → World → World}
    {workload : HeapM UInt64}
    (careful : Careful stack range use)
    (books : stack.Books range world live)
    (completes : ∀ blocks middle, Granted stack.allocator use world sizes blocks middle →
      ∃ total after, workload world = .ok total after ∧
        total.toNat = Word.total (sizes.map UInt64.toNat) ∧ stack.Books range after live)
    (stops : ∀ earlier size later blocks middle failure after,
      sizes = earlier ++ size :: later →
      Granted stack.allocator use world earlier blocks middle →
      stack.allocator.allocate size middle = .error failure after →
        workload world = .error failure after) :
    Churned stack use live sizes world (workload world) := by
  have allGranted : ∀ total after, workload world = .ok total after →
      ∃ blocks middle, Granted stack.allocator use world sizes blocks middle := by
    intro total after ended
    rcases granted_or_refused stack.allocator use world sizes with granted |
      ⟨earlier, size, later, blocks, middle, failure, stopped, split, granted, refused⟩
    · exact granted
    · rw [stops earlier size later blocks middle failure stopped split granted refused] at ended
      cases ended
  refine ⟨⟨?ends, ?granted⟩, ?balanced, ?fails, ?stopped⟩
  case ends =>
    rintro ⟨total, after, ended⟩
    exact allGranted total after ended
  case granted =>
    rintro ⟨blocks, middle, granted⟩
    obtain ⟨total, after, ended, -⟩ := completes blocks middle granted
    exact ⟨total, after, ended⟩
  case balanced =>
    intro total after ended
    obtain ⟨blocks, middle, granted⟩ := allGranted total after ended
    obtain ⟨other, last, ended', exact, booksAfter⟩ := completes blocks middle granted
    rw [ended'] at ended
    cases ended
    exact ⟨exact, restored_of_books overArena distinct books booksAfter⟩
  case fails =>
    intro failure after failed
    rcases granted_or_refused stack.allocator use world sizes with ⟨blocks, middle, granted⟩ |
      ⟨earlier, size, later, blocks, middle, other, stopped, split, granted, refused⟩
    · obtain ⟨total, last, ended, -⟩ := completes blocks middle granted
      rw [ended] at failed
      cases failed
    · rw [stops earlier size later blocks middle other stopped split granted refused] at failed
      cases failed
      exact ⟨earlier, size, later, blocks, middle, split, granted, refused⟩
  case stopped =>
    intro earlier size later blocks middle failure after split granted refused
    obtain ⟨booksMiddle, frees⟩ := granted.books overArena distinct careful books
    have unchanged := (stack.allocator_atomic.allocate _ _ _ _ refused).2
    have booksAfter := (stack.keeps range overArena distinct).undisturbed booksMiddle
      (unchanged.undisturbed _ _)
    have sameFrees : after.arena.frees = middle.arena.frees := by
      have same := congrArg Arena.frees unchanged.arena
      exact same
    exact ⟨stops earlier size later blocks middle failure after split granted refused,
      sameFrees.trans frees, booksAfter.inStep_outermost overArena distinct⟩

end Books

/-- From every world that a run of a stack over an arena reaches, whatever the arena still hands
out, a churn of blocks and one of roots end if and only if all blocks are granted, and then leave
all tables as they were. At the first refusal they stop, give nothing back, and all layers have
the blocks that were granted beside those that were live. -/
theorem churns_balance
    {stack : Stack}
    {arena : Arena}
    {history : List Observation}
    {world : World}
    (overArena : stack.store = .arena)
    (distinct : stack.layers.Nodup)
    (fresh : arena.Fresh)
    (run : Stack.Run stack arena history world)
    (sizes : List UInt64) :
    Churned stack leave (ledger history) sizes world (churn stack.allocator sizes world) ∧
      ∀ factory : Factory, factory.allocator = stack.allocator →
        Churned stack (clear factory) (ledger history) sizes world
          (churnBlocks factory sizes world) := by
  have books := run.books overArena distinct fresh
  refine ⟨?_, fun factory uses => ?_⟩
  · apply churned_of_books overArena distinct careful_leave books
    · exact fun blocks middle granted => churn_of_granted overArena distinct granted books
    · rintro earlier size later blocks middle failure after rfl granted refused
      exact Fallible.bind_of_error (takeAll_of_refused granted refused later) _
  · have careful : Careful stack arena.range (clear factory) :=
      careful_clear overArena distinct factory
    apply churned_of_books overArena distinct careful books
    · exact fun blocks middle granted =>
        churnBlocks_of_granted overArena distinct uses granted books
    · rintro earlier size later blocks middle failure after rfl granted refused
      have nonempty := ne_zero_of_books overArena distinct
        (granted.books overArena distinct careful books).1
      rw [← uses] at granted refused
      exact Fallible.bind_of_error (makeAll_of_refused granted nonempty refused later) _

/-- A churn of a block of five bytes ends in an arena of a kilobyte. A churn that asks for no
bytes then is refused, and leaves the block live. -/
theorem churns_balance_of_five_bytes :
    let stack : Stack := .instrumented 0 1 .arena
    let arena : Arena := { base := ⟨4096⟩, capacity := 1024 }
    let world := World.initial arena
    Stack.Run stack arena [] world ∧
      (∃ total after, churn stack.allocator [5] world = .ok total after ∧ total.toNat = 5 ∧
        Restored stack world after) ∧
      ∃ after, churn stack.allocator [5, 0] world = .error (.refused .emptySize) after ∧
        after.arena.frees = 0 ∧ stack.InStep 0 after [⟨⟨4112⟩, 5⟩] := by
  intro stack arena world
  have fresh : arena.Fresh := ⟨⟨⟨4096⟩, 1024, rfl⟩, by decide, by decide⟩
  have run : Stack.Run stack arena [] world := .start .zero
  obtain ⟨middle, first⟩ := Stack.instrumented_allocate_of_room 0 1 world
    (by decide : (5 : UInt64) ≠ 0) (by decide) rfl
    (by decide +kernel : arena.nextAfter? (5 + 24) = some 32)
  have granted : Granted stack.allocator leave world [5] [⟨⟨4112⟩, 5⟩] middle :=
    .next first (.done middle)
  have refused : stack.allocator.allocate 0 middle = .error (.refused .emptySize) middle := rfl
  refine ⟨run, ?_, middle, ?_⟩
  · have churned := (churns_balance rfl (by decide) fresh run [5]).1
    obtain ⟨total, after, ended⟩ := churned.ends.mpr ⟨_, middle, granted⟩
    exact ⟨total, after, ended, churned.balanced total after ended⟩
  · have churned := (churns_balance rfl (by decide) fresh run [5, 0]).1
    exact churned.stopped [5] 0 [] _ middle _ middle rfl granted refused

end Workload
end GuardedHeap
