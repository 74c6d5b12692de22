import GuardedHeap.Bloom
import GuardedHeap.Proofs.Access.Framed
import GuardedHeap.Proofs.Ledger.Refusal

/-!
# What factories do to the books

A factory over a stack that keeps books adds the block of a root to them when it makes
the root, moves it with the root, and takes it away when the root goes back to it. What
is made of a root, a bit set or a filter, comes and goes with it. A factory that refuses
leaves the books as they were.
-/

namespace GuardedHeap

open Fallible (Preserves)
open HeapError (Harmless)
open Memory (SameOutside)

namespace RefusedSize

/-- A size is refused without an alarm. -/
theorem harmless
    {size : UInt64}
    {error : HeapError}
    (refused : RefusedSize size (.refused error)) :
    error.Harmless := by
  cases refused <;> rfl

end RefusedSize

namespace Stack.Books

variable {stack : Stack}
variable {range : Extent}
variable {blocks : List Extent}
variable {world : World}

/-- What clients write into live blocks is not in the books. -/
theorem of_memory
    (books : stack.Books range world blocks)
    (overArena : stack.store = .arena)
    (distinct : stack.layers.Nodup)
    {memory : Memory}
    (same : Memory.SameOutside (fun address => ∃ block ∈ blocks, block.Contains address)
      world.memory memory) :
    stack.Books range { world with memory } blocks := by
  apply (stack.keeps range overArena distinct).undisturbed books
  apply World.undisturbed_memory
  intro address outside
  apply same
  rintro ⟨block, present, contains⟩
  exact outside block present contains

/-- Events are not in the books. -/
theorem of_events
    (books : stack.Books range world blocks)
    (overArena : stack.store = .arena)
    (distinct : stack.layers.Nodup)
    (events : Array Event) :
    stack.Books range { world with events } blocks :=
  (stack.keeps range overArena distinct).undisturbed books (World.undisturbed_events world events)

end Stack.Books

/-- The ways in which something is made of a new root: it is, and then it remembers its
factory, and its block is in the books; or it is refused. -/
inductive Making
    {α : Type}
    (stack : Stack)
    (range : Extent)
    (blocks : List Extent)
    (rootOf : α → Root)
    (origin : Nat) :
    HeapM.Result α → Prop
  | made
      {value : α}
      {after : World}
      (remembers : (rootOf value).origin = some origin)
      (books : stack.Books range after ((rootOf value).extent :: blocks)) :
      Making stack range blocks rootOf origin (.ok value after)
  | refused
      {error : HeapError}
      {after : World}
      (harmless : error.Harmless)
      (books : stack.Books range after blocks) :
      Making stack range blocks rootOf origin (.error (.refused error) after)

/-- What is made of something that was made of a root is made of that root. -/
theorem Making.map
    {α β : Type}
    {stack : Stack}
    {range : Extent}
    {blocks : List Extent}
    {origin : Nat}
    {world : World}
    {computation : HeapM α}
    {rootOf : α → Root}
    {rootOfResult : β → Root}
    {change : α → β}
    (making : Making stack range blocks rootOf origin (computation world))
    (same : ∀ value, rootOfResult (change value) = rootOf value) :
    Making stack range blocks rootOfResult origin
      ((do pure (change (← computation)) : HeapM β) world) := by
  generalize result : computation world = ended at making
  cases making with
  | made remembers books =>
      rw [Fallible.bind_of_ok result]
      rw [← same] at remembers books
      exact .made remembers books
  | refused harmless books =>
      rw [Fallible.bind_of_error result]
      exact .refused harmless books

/-- The ways in which a root is moved: it lies in a new block of the new size, or the size
was refused. -/
inductive Moving
    (stack : Stack)
    (range : Extent)
    (rest : List Extent)
    (root : Root)
    (newSize : UInt64) :
    HeapM.Result Root → Prop
  | moved
      {address : Address}
      {after : World}
      (nonempty : newSize ≠ 0)
      (books : stack.Books range after (⟨address, newSize⟩ :: rest)) :
      Moving stack range rest root newSize (.ok { root with extent := ⟨address, newSize⟩ } after)
  | refused
      {failure : Failure HeapError}
      {after : World}
      (refused : RefusedSize newSize failure)
      (books : stack.Books range after (root.extent :: rest)) :
      Moving stack range rest root newSize (.error failure after)

namespace Factory

variable {stack : Stack}
variable {range : Extent}
variable {blocks rest : List Extent}
variable {world : World}
variable {factory : Factory}
variable {root : Root}

/-- A factory makes a root of what its allocator hands out, and reports it. -/
theorem allocate_eq_of_granted
    {size : UInt64}
    {address : Address}
    {after : World}
    (granted : factory.allocator.allocate size world = .ok address after) :
    factory.allocate size world =
      .ok ⟨⟨address, size⟩, factory.config.checking, some factory.id⟩ { after with
        events := after.events.push (.factoryAllocated factory.id ⟨address, size⟩) } := by
  rw [allocate, Fallible.bind_of_ok granted]
  rfl

theorem allocate_eq_of_refused
    {size : UInt64}
    {failure : Failure HeapError}
    {after : World}
    (refused : factory.allocator.allocate size world = .error failure after) :
    factory.allocate size world = .error failure after :=
  Fallible.bind_of_error refused _

/-- A root is taken by the factory that made it. -/
theorem checkOrigin_of_own
    (own : root.origin = some factory.id) :
    factory.checkOrigin root = .ok () := by
  rw [checkOrigin, own]
  exact if_pos rfl

/-- No other factory takes a root. -/
theorem checkOrigin_of_foreign
    (foreign : root.origin ≠ some factory.id) :
    ∃ reason, factory.checkOrigin root = .error (.invalidOperation reason) := by
  unfold checkOrigin
  split
  · exact ⟨_, rfl⟩
  · rename_i id origin
    have differs : ¬ id = factory.id := fun same => foreign (origin.trans (congrArg some same))
    rw [if_neg differs]
    exact ⟨_, rfl⟩

theorem reallocate_of_foreign
    (foreign : root.origin ≠ some factory.id)
    (newSize : UInt64)
    (world : World) :
    ∃ reason, factory.reallocate root newSize world =
      .error (.refused (.invalidOperation reason)) world := by
  obtain ⟨reason, checked⟩ := checkOrigin_of_foreign foreign
  refine ⟨reason, ?_⟩
  rw [reallocate, checked]
  rfl

theorem free_of_foreign
    (foreign : root.origin ≠ some factory.id)
    (world : World) :
    ∃ reason, factory.free root world =
      .error (.refused (.invalidOperation reason)) world := by
  obtain ⟨reason, checked⟩ := checkOrigin_of_foreign foreign
  refine ⟨reason, ?_⟩
  rw [free, checked]
  rfl

section Books

variable (overArena : stack.store = .arena)
variable (distinct : stack.layers.Nodup)
variable (uses : factory.allocator = stack.allocator)

include overArena distinct uses

theorem allocate_making
    (books : stack.Books range world blocks)
    (size : UInt64) :
    Making stack range blocks (fun root => root) factory.id (factory.allocate size world) := by
  have keeps := stack.keeps range overArena distinct
  cases below : factory.allocator.allocate size world with
  | ok address after =>
      rw [allocate_eq_of_granted below]
      rw [uses] at below
      have granted := (keeps.allocate books below).1
      exact .made rfl (granted.of_events overArena distinct _)
  | error failure after =>
      rw [allocate_eq_of_refused below]
      rw [uses] at below
      have refused := Stack.refusedSize_of_allocate below
      obtain ⟨⟨error, rfl⟩, unchanged⟩ := stack.allocator_atomic.allocate _ _ _ _ below
      exact .refused refused.harmless (keeps.undisturbed books (unchanged.undisturbed _ _))

theorem reallocate_moving
    (books : stack.Books range world (root.extent :: rest))
    (own : root.origin = some factory.id)
    (newSize : UInt64) :
    Moving stack range rest root newSize (factory.reallocate root newSize world) := by
  have keeps := stack.keeps range overArena distinct
  unfold reallocate
  rw [uses, checkOrigin_of_own own]
  cases below : stack.allocator.reallocate root.extent.address newSize world with
  | ok address after =>
      have moved := (keeps.reallocate books below).1
      have nonempty : newSize ≠ 0 := by
        rintro rfl
        exact absurd ((keeps.placed moved).positive _ (.head _)) (by simp)
      rw [Fallible.bind_of_ok (Fallible.ofCheck_ok () world), Fallible.bind_of_ok below]
      exact .moved nonempty (moved.of_events overArena distinct _)
  | error failure after =>
      have unchanged := (stack.allocator_atomic.reallocate _ _ _ _ _ below).2
      rw [Fallible.bind_of_ok (Fallible.ofCheck_ok () world), Fallible.bind_of_error below]
      exact .refused (books.refusedSize_of_reallocate overArena distinct below)
        (keeps.undisturbed books (unchanged.undisturbed _ _))

theorem free_of_own
    (books : stack.Books range world (root.extent :: rest))
    (own : root.origin = some factory.id) :
    ∃ after, factory.free root world = .ok () after ∧ stack.Books range after rest := by
  have keeps := stack.keeps range overArena distinct
  obtain ⟨after, freed, ended, _⟩ := keeps.free books
  unfold free
  rw [uses, checkOrigin_of_own own, Fallible.bind_of_ok (Fallible.ofCheck_ok () world),
    Fallible.bind_of_ok freed]
  exact ⟨_, rfl, ended.of_events overArena distinct _⟩

end Books

end Factory

/-- A whole root is filled from its first byte to its last one. -/
theorem Block.fill_whole_of_nonempty
    {root : Root}
    (nonempty : root.extent.size ≠ 0)
    (value : UInt8)
    (memory : Memory) :
    (Block.whole root).fill value memory =
      .ok () (memory.fill root.extent.address root.extent.size.toNat value) := by
  have located : (Block.whole root).locate 0 root.extent.size =
      .ok (some root.extent.address) := by
    have within : root.extent.withinRoot root.extent.address root.extent.size = .ok () := by
      rw [Extent.withinRoot_eq_ok_iff]
      exact ⟨Nat.le_refl _, Nat.le_refl _⟩
    rw [locate, if_neg nonempty]
    simp only [address, Block.root_whole, Block.extent_whole, Address.add_zero, within]
    rfl
  unfold fill
  rw [show (Block.whole root).size = root.extent.size from rfl, located]
  rfl

/-- A whole root can be filled. -/
theorem Block.fill_whole
    (root : Root)
    (value : UInt8)
    (memory : Memory) :
    ∃ after, (Block.whole root).fill value memory = .ok () after := by
  by_cases isEmpty : root.extent.size = 0
  · have located : (Block.whole root).locate 0 root.extent.size = .ok none := if_pos isEmpty
    unfold fill
    rw [show (Block.whole root).size = root.extent.size from rfl, located]
    exact ⟨memory, rfl⟩
  · exact ⟨_, fill_whole_of_nonempty isEmpty value memory⟩

namespace HeapM

theorem onMemory_of_ok
    {α : Type}
    {computation : MemoryM α}
    {value : α}
    {world : World}
    {memory : Memory}
    (ended : computation world.memory = .ok value memory) :
    onMemory computation world = .ok value { world with memory } := by
  simp only [onMemory, ended]

theorem onMemory_of_error
    {α : Type}
    {computation : MemoryM α}
    {failure : Failure HeapError}
    {world : World}
    {memory : Memory}
    (ended : computation world.memory = .error failure memory) :
    onMemory computation world = .error failure { world with memory } := by
  simp only [onMemory, ended]

end HeapM

section Books

variable {stack : Stack}
variable {range : Extent}
variable {blocks rest : List Extent}
variable {world : World}
variable {factory : Factory}
variable (overArena : stack.store = .arena)
variable (distinct : stack.layers.Nodup)
variable (uses : factory.allocator = stack.allocator)

include overArena distinct uses

theorem BitSet.create_making
    (books : stack.Books range world blocks)
    (size : UInt64) :
    Making stack range blocks BitSet.root factory.id (BitSet.create factory size world) := by
  unfold create
  by_cases isEmpty : size = 0
  · rw [if_pos isEmpty]
    exact .refused rfl books
  rw [if_neg isEmpty]
  cases Bits.bytesFor? size with
  | none => exact .refused rfl books
  | some bytes =>
      have made := Factory.allocate_making overArena distinct uses books bytes
      dsimp only
      generalize below : factory.allocate bytes world = result at made
      cases made with
      | refused harmless booksAfter =>
          rw [Fallible.bind_of_error below]
          exact .refused harmless booksAfter
      | @made root after remembers booksAfter =>
          obtain ⟨memory, filled⟩ := Block.fill_whole root 0 after.memory
          rw [Fallible.bind_of_ok below,
            Fallible.bind_of_ok (Fallible.attempt_of_ok (HeapM.onMemory_of_ok filled))]
          have placed := (stack.keeps range overArena distinct).placed booksAfter
          have preserves : Preserves
              (SameOutside (fun address => ∃ block ∈ root.extent :: blocks,
                block.Contains address) after.memory)
              Harmless (fun _ => True) ((Block.whole root).fill 0) :=
            Block.preserves_fill (placed.stop_le (.head _))
              (fun address inside => ⟨root.extent, .head _, inside⟩) 0
          have same := (preserves.ok _ _ _ (fun _ _ => rfl) filled).1
          have booksFilled := booksAfter.of_memory overArena distinct same
          exact .made remembers (booksFilled.of_events overArena distinct _)

theorem Bloom.create_making
    (books : stack.Books range world blocks)
    (bits : UInt64)
    (hashes : UInt32) :
    Making stack range blocks (fun filter => filter.bits.root) factory.id
      (Bloom.create factory bits hashes world) := by
  unfold create
  by_cases noBits : bits = 0
  · rw [if_pos noBits]
    exact .refused rfl books
  by_cases noHashes : hashes = 0
  · rw [if_neg noBits, if_pos noHashes]
    exact .refused rfl books
  rw [if_neg noBits, if_neg noHashes]
  have made := BitSet.create_making overArena distinct uses books bits
  generalize below : BitSet.create factory bits world = result at made
  cases made with
  | refused harmless booksAfter =>
      dsimp only
      rw [Fallible.bind_of_error below]
      exact .refused harmless booksAfter
  | made remembers booksAfter =>
      dsimp only
      rw [Fallible.bind_of_ok below]
      exact .made remembers booksAfter

theorem BitSet.close_of_own
    {set : BitSet}
    (books : stack.Books range world (set.root.extent :: rest))
    (own : set.root.origin = some factory.id) :
    ∃ after, set.close factory world = .ok () after ∧ stack.Books range after rest :=
  Factory.free_of_own overArena distinct uses (books.of_events overArena distinct _) own

end Books

theorem BitSet.close_of_foreign
    {set : BitSet}
    {factory : Factory}
    (foreign : set.root.origin ≠ some factory.id)
    (world : World) :
    ∃ reason events, set.close factory world =
      .error (.refused (.invalidOperation reason)) { world with events } := by
  obtain ⟨reason, refused⟩ := Factory.free_of_foreign foreign
    { world with events := world.events.push (.bitSetClosing set.size set.root.extent) }
  exact ⟨reason, _, refused⟩

end GuardedHeap
