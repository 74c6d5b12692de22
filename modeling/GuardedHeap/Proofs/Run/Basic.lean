import GuardedHeap.Proofs.Ledger.Stack

/-!
# Runs of a stack

A run starts with an empty arena and arbitrary memory. A client makes calls to the
outermost layer, reads and writes single bytes inside live blocks, and lets the
arena fail and recover. What it does and sees is written down as a history, the
latest observation first, and the live blocks are a function of the history.

The main result, `Run.books`, says that the stack keeps books of exactly these
blocks all along.
-/

namespace GuardedHeap

/-- What a client does to a heap and sees of it. -/
inductive Observation
  | granted (block : Extent)
  | moved (previous : Address) (block : Extent)
  | ended (address : Address)
  | refused (call : Allocator.Call) (failure : Failure HeapError)
  | wrote (address : Address) (value : UInt8)
  | saw (address : Address) (value : UInt8)
  | limited (count : Nat)
  | recovered
  deriving DecidableEq

/-- The blocks that do not start at an address. -/
def Extent.without (blocks : List Extent) (address : Address) : List Extent :=
  blocks.filter fun block => block.address ≠ address

/-- The live blocks after an observation. -/
def Observation.live (blocks : List Extent) : Observation → List Extent
  | .granted block => block :: blocks
  | .moved previous block => block :: Extent.without blocks previous
  | .ended address => Extent.without blocks address
  | _ => blocks

/-- The live blocks after a history. -/
def ledger : List Observation → List Extent
  | [] => []
  | latest :: earlier => latest.live (ledger earlier)

/-- An arena that was just created in some buffer of the address space. -/
structure Arena.Fresh (arena : Arena) : Prop where
  created : ∃ base capacity, create? base capacity = some arena
  nonnull : arena.base ≠ .null
  bounded : arena.range.stop ≤ 0x10000000000000000

namespace Stack

/-- Whether the outermost layer has a registry, by which it knows the addresses of
live blocks. -/
def screens : Stack → Bool
  | .registered .. => true
  | _ => false

/-- A call may be about a live block, or about any address if the outermost layer
has a registry. -/
def Admits (stack : Stack) (blocks : List Extent) : Allocator.Call → Prop
  | .allocate _ => True
  | .reallocate address _ => stack.screens ∨ ∃ block ∈ blocks, block.address = address
  | .free address => stack.screens ∨ ∃ block ∈ blocks, block.address = address

/-- The histories of a stack over a new arena, and the worlds to which they lead. -/
inductive Run (stack : Stack) (arena : Arena) : List Observation → World → Prop
  | start (memory : Memory) :
      Run stack arena [] { World.initial arena with memory }
  | granted
      {history : List Observation}
      {world after : World}
      {size : UInt64}
      {address : Address}
      (earlier : Run stack arena history world)
      (answered : stack.allocator.allocate size world = .ok address after) :
      Run stack arena (.granted ⟨address, size⟩ :: history) after
  | moved
      {history : List Observation}
      {world after : World}
      {address newAddress : Address}
      {newSize : UInt64}
      (earlier : Run stack arena history world)
      (admitted : stack.Admits (ledger history) (.reallocate address newSize))
      (answered : stack.allocator.reallocate address newSize world = .ok newAddress after) :
      Run stack arena (.moved address ⟨newAddress, newSize⟩ :: history) after
  | ended
      {history : List Observation}
      {world after : World}
      {address : Address}
      (earlier : Run stack arena history world)
      (admitted : stack.Admits (ledger history) (.free address))
      (answered : stack.allocator.free address world = .ok () after) :
      Run stack arena (.ended address :: history) after
  | refused
      {history : List Observation}
      {world after : World}
      {call : Allocator.Call}
      {failure : Failure HeapError}
      (earlier : Run stack arena history world)
      (admitted : stack.Admits (ledger history) call)
      (answered : stack.allocator.call call world = .error failure after) :
      Run stack arena (.refused call failure :: history) after
  | wrote
      {history : List Observation}
      {world : World}
      {block : Extent}
      {address : Address}
      (earlier : Run stack arena history world)
      (live : block ∈ ledger history)
      (inside : block.Contains address)
      (value : UInt8) :
      Run stack arena (.wrote address value :: history)
        { world with memory := world.memory.set address value }
  | saw
      {history : List Observation}
      {world : World}
      {block : Extent}
      {address : Address}
      (earlier : Run stack arena history world)
      (live : block ∈ ledger history)
      (inside : block.Contains address) :
      Run stack arena (.saw address (world.memory.get address) :: history) world
  | limited
      {history : List Observation}
      {world : World}
      (earlier : Run stack arena history world)
      (count : Nat) :
      Run stack arena (.limited count :: history)
        { world with arena := world.arena.failAfter count }
  | recovered
      {history : List Observation}
      {world : World}
      (earlier : Run stack arena history world) :
      Run stack arena (.recovered :: history)
        { world with arena := world.arena.recover }

end Stack

namespace Placed

variable {range block : Extent}
variable {blocks : List Extent}

/-- A live block can be put at the head of the ledger. -/
theorem perm_cons_without
    (placed : Placed range blocks)
    (present : block ∈ blocks) :
    blocks.Perm (block :: Extent.without blocks block.address) := by
  unfold Extent.without
  induction blocks with
  | nil => cases present
  | cons head tail inductionHypothesis =>
      by_cases same : head.address = block.address
      · have head_eq : head = block := by
          rcases List.mem_cons.mp present with equal | inTail
          · exact equal.symm
          · exact absurd (same ▸ inTail) (placed.not_mem_tail block.size)
        subst head_eq
        have others : tail.filter (fun other => other.address ≠ head.address) = tail := by
          refine List.filter_eq_self.mpr fun other inTail => ?_
          rw [decide_eq_true_iff]
          intro equal
          exact placed.not_mem_tail other.size (equal ▸ inTail)
        rw [List.filter_cons_of_neg (by simp), others]
      · have inTail : block ∈ tail := by
          rcases List.mem_cons.mp present with rfl | inTail
          · exact absurd rfl same
          · exact inTail
        have filtered : (head :: tail).filter (fun other => other.address ≠ block.address) =
            head :: tail.filter fun other => other.address ≠ block.address :=
          List.filter_cons_of_pos (by simpa using same)
        rw [filtered]
        exact ((inductionHypothesis placed.tail inTail).cons head).trans (.swap _ _ _)

end Placed

namespace Stack

/-- A layer with a registry moves live blocks only. -/
theorem Books.live_of_moved
    {stack : Stack}
    {range : Extent}
    {blocks : List Extent}
    {world after : World}
    {address newAddress : Address}
    {newSize : UInt64}
    (books : stack.Books range world blocks)
    (admitted : stack.Admits blocks (.reallocate address newSize))
    (answered : stack.allocator.reallocate address newSize world = .ok newAddress after) :
    ∃ block ∈ blocks, block.address = address := by
  rcases admitted with screens | live
  case inr => exact live
  cases stack with
  | registered layer owns inner =>
      have outcome := Registered.reallocate_outcome layer inner.allocator address newSize world
      rw [show Registered.reallocate layer inner.allocator address newSize world = _
        from answered] at outcome
      cases outcome with
      | moved events nonempty held below =>
          exact ⟨⟨address, _⟩, (books.held address _).mp held, rfl⟩
  | raw store => cases screens
  | guarded layer owns inner => cases screens
  | counted layer inner => cases screens

theorem Books.live_of_ended
    {stack : Stack}
    {range : Extent}
    {blocks : List Extent}
    {world after : World}
    {address : Address}
    (books : stack.Books range world blocks)
    (admitted : stack.Admits blocks (.free address))
    (answered : stack.allocator.free address world = .ok () after) :
    ∃ block ∈ blocks, block.address = address := by
  rcases admitted with screens | live
  case inr => exact live
  cases stack with
  | registered layer owns inner =>
      have outcome := Registered.free_outcome layer inner.allocator address world
      rw [show Registered.free layer inner.allocator address world = _ from answered] at outcome
      cases outcome with
      | freed events held below => exact ⟨⟨address, _⟩, (books.held address _).mp held, rfl⟩
  | raw store => cases screens
  | guarded layer owns inner => cases screens
  | counted layer inner => cases screens

/-- A stack over a new arena has no blocks in its books. -/
theorem books_start
    {stack : Stack}
    {arena : Arena}
    (fresh : arena.Fresh)
    (memory : Memory) :
    stack.Books arena.range { World.initial arena with memory } [] := by
  induction stack with
  | raw store =>
      obtain ⟨base, capacity, created⟩ := fresh.created
      have base_eq : arena.base = base := congrArg Arena.base (Arena.eq_of_create? created).1
      exact Arena.holds_create created (base_eq ▸ fresh.nonnull) fresh.bounded
  | guarded layer owns inner inductionHypothesis =>
      exact ⟨by simp, by simp, rfl, rfl, by simp, inductionHypothesis⟩
  | registered layer owns inner inductionHypothesis =>
      refine ⟨fun address size => ?_, inductionHypothesis⟩
      show Registry.empty.find? address = some size ↔ _
      simp
  | counted layer inner inductionHypothesis => exact inductionHypothesis

/-- An arena hands out a region if there is room for it. -/
theorem raw_allocate_of_room
    {size next : UInt64}
    (world : World)
    (nonempty : size ≠ 0)
    (unlimited : world.arena.credit = none)
    (room : world.arena.nextAfter? size = some next) :
    ∃ after, (raw .arena).allocator.allocate size world =
      .ok (world.arena.addressOf world.arena.next) after := by
  obtain ⟨granted, allocated⟩ := Arena.allocate_of_room unlimited room world.memory
  have answer : ∃ middle, Store.arena.allocate size world =
      .ok (some (world.arena.addressOf world.arena.next)) middle := by
    rw [Store.allocate, HeapM.onArena]
    dsimp only
    rw [allocated]
    exact ⟨_, rfl⟩
  obtain ⟨middle, answer⟩ := answer
  obtain ⟨_, raw⟩ := Raw.allocate_of_granted nonempty answer
  exact ⟨_, raw⟩

/-- A guarded arena hands out a block if there is room for its region. -/
theorem guarded_allocate_of_room
    {size next : UInt64}
    (guard : Nat)
    (owns : Bool)
    (world : World)
    (nonempty : size ≠ 0)
    (fits : Guard.Fits size)
    (unlimited : world.arena.credit = none)
    (room : world.arena.nextAfter? (size + 24) = some next) :
    ∃ after, (guarded guard owns (raw .arena)).allocator.allocate size world =
      .ok (Guard.blockOf (world.arena.addressOf world.arena.next)) after := by
  have nonemptyRegion : size + 24 ≠ 0 := by
    intro isEmpty
    have exact := fits.toNat_add
    rw [isEmpty] at exact
    exact absurd exact (by simp)
  obtain ⟨_, below⟩ := raw_allocate_of_room world nonemptyRegion unlimited room
  obtain ⟨_, guarded⟩ := Guarded.allocate_of_granted nonempty fits below
  exact ⟨_, guarded⟩

/-- A guarded and registered arena hands out a block if there is room for its region. -/
theorem instrumented_allocate_of_room
    {size next : UInt64}
    (registry guard : Nat)
    (world : World)
    (nonempty : size ≠ 0)
    (fits : Guard.Fits size)
    (unlimited : world.arena.credit = none)
    (room : world.arena.nextAfter? (size + 24) = some next) :
    ∃ after, (instrumented registry guard .arena).allocator.allocate size world =
      .ok (Guard.blockOf (world.arena.addressOf world.arena.next)) after := by
  obtain ⟨_, guarded⟩ :=
    guarded_allocate_of_room guard true world nonempty fits unlimited room
  obtain ⟨_, registered⟩ := Registered.allocate_of_granted nonempty guarded
  exact ⟨_, registered⟩

namespace Run

variable {stack : Stack}
variable {arena : Arena}
variable {history : List Observation}
variable {world : World}

/-- All along a run, the books of a stack are about the blocks of the ledger. -/
theorem books
    (run : Run stack arena history world)
    (overArena : stack.store = .arena)
    (distinct : stack.layers.Nodup)
    (fresh : arena.Fresh) :
    stack.Books arena.range world (ledger history) := by
  have keeps := stack.keeps arena.range overArena distinct
  induction run with
  | start memory => exact books_start fresh memory
  | granted earlier answered inductionHypothesis =>
      exact (keeps.allocate inductionHypothesis answered).1
  | moved earlier admitted answered inductionHypothesis =>
      obtain ⟨block, live, rfl⟩ := inductionHypothesis.live_of_moved admitted answered
      have same := (keeps.placed inductionHypothesis).perm_cons_without live
      exact (keeps.reallocate (keeps.perm inductionHypothesis same) answered).1
  | ended earlier admitted answered inductionHypothesis =>
      obtain ⟨block, live, rfl⟩ := inductionHypothesis.live_of_ended admitted answered
      have same := (keeps.placed inductionHypothesis).perm_cons_without live
      obtain ⟨after, freed, books, _⟩ := keeps.free (keeps.perm inductionHypothesis same)
      rw [freed] at answered
      cases answered
      exact books
  | refused earlier admitted answered inductionHypothesis =>
      have unchanged := (stack.call_atomic _ _ _ _ answered).2
      exact keeps.undisturbed inductionHypothesis (unchanged.undisturbed _ _)
  | wrote earlier live inside value inductionHypothesis =>
      exact keeps.undisturbed inductionHypothesis
        (World.undisturbed_write _ live inside value)
  | saw earlier live inside inductionHypothesis => exact inductionHypothesis
  | limited earlier count inductionHypothesis =>
      exact keeps.undisturbed inductionHypothesis (World.undisturbed_credit rfl)
  | recovered earlier inductionHypothesis =>
      exact keeps.undisturbed inductionHypothesis (World.undisturbed_credit rfl)

/-- A live block can end. -/
theorem exists_ended
    {block : Extent}
    (run : Run stack arena history world)
    (overArena : stack.store = .arena)
    (distinct : stack.layers.Nodup)
    (fresh : arena.Fresh)
    (live : block ∈ ledger history) :
    ∃ after, Run stack arena (.ended block.address :: history) after := by
  have keeps := stack.keeps arena.range overArena distinct
  have books := run.books overArena distinct fresh
  have same := (keeps.placed books).perm_cons_without live
  obtain ⟨after, freed, _⟩ := keeps.free (keeps.perm books same)
  exact ⟨after, .ended run (Or.inr ⟨block, live, rfl⟩) freed⟩

/-- A guarded arena hands out a first block that fits. -/
theorem allocate_guarded
    {size next : UInt64}
    (guard : Nat)
    (owns : Bool)
    (nonempty : size ≠ 0)
    (fits : Guard.Fits size)
    (unlimited : arena.credit = none)
    (room : arena.nextAfter? (size + 24) = some next) :
    ∃ after, (guarded guard owns (raw .arena)).allocator.allocate size (World.initial arena) =
      .ok (Guard.blockOf (arena.addressOf arena.next)) after :=
  guarded_allocate_of_room guard owns (World.initial arena) nonempty fits unlimited room

/-- A guarded and registered arena hands out a first block that fits. -/
theorem exists_granted
    {size next : UInt64}
    (registry guard : Nat)
    (nonempty : size ≠ 0)
    (fits : Guard.Fits size)
    (unlimited : arena.credit = none)
    (room : arena.nextAfter? (size + 24) = some next) :
    ∃ world, Run (instrumented registry guard .arena) arena
      [.granted ⟨Guard.blockOf (arena.addressOf arena.next), size⟩] world := by
  obtain ⟨_, granted⟩ := instrumented_allocate_of_room registry guard (World.initial arena)
    nonempty fits unlimited room
  exact ⟨_, .granted (.start .zero) granted⟩

end Run
end Stack

end GuardedHeap
