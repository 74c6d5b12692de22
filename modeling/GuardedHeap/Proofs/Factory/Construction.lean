import GuardedHeap.Proofs.Bloom.Contents
import GuardedHeap.Proofs.Run.Basic

/-!
# Making and closing sets

A bit set comes with one block, and so does a filter, which is made of one. They are made with a
block of cleared bytes that is live beside those that were, or they are refused and nothing has
changed. What is written into them later stays in their block, so whatever was asked of them,
their block ends when they are closed with the factory that made them, and stays live when they
are closed with another one.
-/

namespace GuardedHeap

/-! ### Sizes -/

/-- The size of a set is not zero and can be rounded up to whole bytes. -/
def BitSet.Sized (size : UInt64) : Prop :=
  size ≠ 0 ∧ size.toNat ≤ 0xFFFFFFFFFFFFFFF8

/-- The bytes in which as many bits as a set has have room. -/
def BitSet.bytesOf (size : UInt64) : UInt64 :=
  UInt64.ofNat ((size.toNat + 7) / 8)

theorem BitSet.toNat_bytesOf (size : UInt64) :
    (bytesOf size).toNat = (size.toNat + 7) / 8 := by
  have := size.toNat_lt
  exact UInt64.toNat_ofNat_of_lt' (show _ < 0x10000000000000000 by omega)

theorem Bits.bytesFor?_of_le
    {bits : UInt64}
    (small : bits.toNat ≤ 0xFFFFFFFFFFFFFFF8) :
    bytesFor? bits = some (BitSet.bytesOf bits) := by
  have fits : bits.toNat + (perByte - 1).toNat < UInt64.size :=
    show bits.toNat + 7 < 0x10000000000000000 by omega
  have added : Word.add? bits (perByte - 1) = some (bits + (perByte - 1)) := if_pos fits
  rw [bytesFor?, added, Option.map_some, Option.some_inj]
  apply UInt64.toNat_inj.mp
  rw [BitSet.toNat_bytesOf, UInt64.toNat_div, Word.toNat_of_add?_eq_some added]
  rfl

theorem Bits.bytesFor?_of_not_le
    {bits : UInt64}
    (large : ¬ bits.toNat ≤ 0xFFFFFFFFFFFFFFF8) :
    bytesFor? bits = none := by
  have exceeds : ¬ bits.toNat + (perByte - 1).toNat < UInt64.size :=
    show ¬ bits.toNat + 7 < 0x10000000000000000 by omega
  rw [bytesFor?, Word.add?, if_neg exceeds]
  rfl

/-- A size that is not zero is refused for want of room. -/
theorem RefusedSize.outOfResources
    {size : UInt64}
    {failure : Failure HeapError}
    (refused : RefusedSize size failure)
    (nonempty : size ≠ 0) :
    ∃ requested, failure = .refused (.outOfResources requested) := by
  cases refused with
  | empty => exact absurd rfl nonempty
  | noRoom _ requested => exact ⟨requested, rfl⟩

/-- All bytes of the block of a set are zero when it was cleared. -/
theorem BitSet.zeroed_of_clear
    {set : BitSet}
    {before after : Memory}
    (packed : set.Packed)
    (cleared : set.clear before = .ok () after) :
    ∀ address, set.root.extent.Contains address → after.get address = 0 := by
  intro address inside
  have filled : set.clear before = .ok () _ :=
    Block.fill_whole_of_nonempty packed.size_ne_zero 0 before
  rw [filled] at cleared
  cases cleared
  have near := (Extent.contains_iff_offset_lt packed.bounded address).mp inside
  exact Memory.get_fill_of_near _ _ _ _ _ (Nat.le_of_lt set.root.extent.size.toNat_lt) near

/-! ### What becomes of a set -/

/-- A set whose block ends when it is closed with its factory, and is live if any other one is
asked. -/
structure Closable
    (stack : Stack)
    (range : Extent)
    (blocks : List Extent)
    (factory : Factory)
    (set : BitSet)
    (world : World) : Prop where
  own : ∃ after, set.close factory world = .ok () after ∧ stack.Books range after blocks
  foreign : ∀ other : Factory, other.id ≠ factory.id →
    ∃ reason events,
      set.close other world = .error (.refused (.invalidOperation reason)) { world with events } ∧
      stack.Books range { world with events } (set.root.extent :: blocks)

/-- A set that was made: one block more is live, with all bytes zero that are needed for its
bits, and the set can be closed whatever was asked of it. -/
structure Opened
    {ρ : Type}
    (stack : Stack)
    (range : Extent)
    (blocks : List Extent)
    (factory : Factory)
    (size : UInt64)
    (set : BitSet)
    (performAll : List ρ → MemoryM Unit)
    (world : World) : Prop where
  sized : set.size = size
  bytes : set.root.extent.size.toNat = (size.toNat + 7) / 8
  zeroed : ∀ address, set.root.extent.Contains address → world.memory.get address = 0
  books : stack.Books range world (set.root.extent :: blocks)
  closable : ∀ requests, ∃ memory, performAll requests world.memory = .ok () memory ∧
    Closable stack range blocks factory set { world with memory }

/-- The ways in which a set, or what is made of one, is constructed. -/
inductive Construction
    {α ρ : Type}
    (stack : Stack)
    (range : Extent)
    (blocks : List Extent)
    (factory : Factory)
    (size : UInt64)
    (valid : Prop)
    (setOf : α → BitSet)
    (performAll : α → List ρ → MemoryM Unit)
    (world : World) :
    HeapM.Result α → Prop
  | opened
      {value : α}
      {after : World}
      (isValid : valid)
      (opened : Opened stack range blocks factory size (setOf value) (performAll value) after) :
      Construction stack range blocks factory size valid setOf performAll world (.ok value after)
  | invalid
      {reason : String}
      (isInvalid : ¬ valid) :
      Construction stack range blocks factory size valid setOf performAll world
        (.error (.refused (.invalidArgument reason)) world)
  | exhausted
      {requested : UInt64}
      {after : World}
      (isValid : valid)
      (asked : stack.allocator.allocate (BitSet.bytesOf size) world =
        .error (.refused (.outOfResources requested)) after)
      (unchanged : world.Unchanged after) :
      Construction stack range blocks factory size valid setOf performAll world
        (.error (.refused (.outOfResources requested)) after)

section Books

variable {stack : Stack}
variable {range : Extent}
variable {blocks : List Extent}
variable {world : World}
variable {factory : Factory}
variable {set : BitSet}
variable (overArena : stack.store = .arena)
variable (distinct : stack.layers.Nodup)
variable (uses : factory.allocator = stack.allocator)

include overArena distinct

theorem Closable.of_books
    (uses : factory.allocator = stack.allocator)
    (books : stack.Books range world (set.root.extent :: blocks))
    (origin : set.root.origin = some factory.id) :
    Closable stack range blocks factory set world where
  own := BitSet.close_of_own overArena distinct uses books origin
  foreign other differs := by
    have foreign : set.root.origin ≠ some other.id := by
      rw [origin]
      exact fun same => differs (Option.some.inj same).symm
    obtain ⟨reason, events, refused⟩ := BitSet.close_of_foreign foreign world
    exact ⟨reason, events, refused, books.of_events overArena distinct events⟩

/-- What is written into the block of a set is not in the books. -/
theorem Stack.Books.of_keepsOutside
    (books : stack.Books range world (set.root.extent :: blocks))
    {memory : Memory}
    (keeps : set.KeepsOutside world.memory memory) :
    stack.Books range { world with memory } (set.root.extent :: blocks) :=
  books.of_memory overArena distinct fun address outside =>
    keeps address fun inside => outside ⟨_, .head _, inside⟩

/-- What a stack that keeps books hands out next ends within the address space. -/
theorem Stack.Books.grantsBounded
    (books : stack.Books range world blocks) :
    stack.allocator.GrantsBounded world := by
  intro size address after granted
  have keeps := stack.keeps range overArena distinct
  exact (keeps.placed (keeps.allocate books granted).1).stop_le (.head _)

include uses

/-- A set that was made can be closed after requests that stay in its block. -/
theorem Opened.of_created
    {ρ : Type}
    {performAll : List ρ → MemoryM Unit}
    {size : UInt64}
    {opened : World}
    (books : stack.Books range world blocks)
    (created : BitSet.create factory size world = .ok set opened)
    (performs : ∀ requests, ∃ memory, performAll requests opened.memory = .ok () memory ∧
      set.KeepsOutside opened.memory memory) :
    Opened stack range blocks factory size set performAll opened := by
  have making := BitSet.create_making overArena distinct uses books size
  rw [created] at making
  obtain ⟨bytes, address, granted, nonempty, rounded, allocated, size_eq, extent_eq, middle,
    cleared⟩ := BitSet.create_eq_ok created
  have grants := books.grantsBounded overArena distinct
  rw [← uses] at grants
  have packed := (BitSet.create_packed grants created).2.1
  cases making with
  | made remembers booksAfter =>
      refine ⟨size_eq, ?_, ?_, booksAfter, ?_⟩
      · rw [packed.bytes, size_eq]
      · exact BitSet.zeroed_of_clear packed cleared
      · intro requests
        obtain ⟨memory, performed, keeps⟩ := performs requests
        exact ⟨memory, performed, .of_books overArena distinct uses
          (booksAfter.of_keepsOutside overArena distinct keeps) remembers⟩

theorem BitSet.create_construction
    (books : stack.Books range world blocks)
    (size : UInt64) :
    Construction stack range blocks factory size (Sized size) id performAll world
      (create factory size world) := by
  by_cases isEmpty : size = 0
  · rw [create, if_pos isEmpty]
    exact .invalid fun valid => valid.1 isEmpty
  by_cases small : size.toNat ≤ 0xFFFFFFFFFFFFFFF8
  case neg =>
    rw [create, if_neg isEmpty, Bits.bytesFor?_of_not_le small]
    exact .invalid fun valid => small valid.2
  case pos =>
    have rounded := Bits.bytesFor?_of_le small
    cases below : stack.allocator.allocate (bytesOf size) world with
    | ok address granted =>
        obtain ⟨set, opened, created, -⟩ := create_of_granted isEmpty rounded (uses ▸ below)
        have grants := books.grantsBounded overArena distinct
        rw [← uses] at grants
        obtain ⟨-, packed, shown⟩ := create_packed grants created
        rw [created]
        refine .opened ⟨isEmpty, small⟩ (.of_created overArena distinct uses books created ?_)
        intro requests
        obtain ⟨memory, performed, -, keeps⟩ := shown.performAll packed requests
        exact ⟨memory, performed, keeps⟩
    | error failure after =>
        have nonempty : bytesOf size ≠ 0 := by
          intro isZero
          have bytes := toNat_bytesOf size
          have := Word.toNat_pos isEmpty
          rw [isZero, UInt64.toNat_zero] at bytes
          omega
        obtain ⟨requested, rfl⟩ :=
          (Stack.refusedSize_of_allocate below).outOfResources nonempty
        have unchanged := (stack.allocator_atomic.allocate _ _ _ _ below).2
        have refused : factory.allocate (bytesOf size) world =
            .error (.refused (.outOfResources requested)) after := by
          rw [Factory.allocate, uses, Fallible.bind_of_error below]
        rw [create, if_neg isEmpty, rounded]
        dsimp only
        rw [Fallible.bind_of_error refused]
        exact .exhausted ⟨isEmpty, small⟩ below unchanged

theorem Bloom.create_construction
    (books : stack.Books range world blocks)
    (bits : UInt64)
    (hashes : UInt32) :
    Construction stack range blocks factory bits (BitSet.Sized bits ∧ hashes ≠ 0) Bloom.bits
      performAll world (create factory bits hashes world) := by
  by_cases noBits : bits = 0
  · rw [create, if_pos noBits]
    exact .invalid fun valid => valid.1.1 noBits
  by_cases noHashes : hashes = 0
  · rw [create, if_neg noBits, if_pos noHashes]
    exact .invalid fun valid => valid.2 noHashes
  rw [create, if_neg noBits, if_neg noHashes]
  dsimp only
  have construction := BitSet.create_construction overArena distinct uses books bits
  generalize ended : BitSet.create factory bits world = result at construction
  cases construction with
  | @opened set after isValid opened =>
      have grants := books.grantsBounded overArena distinct
      rw [← uses] at grants
      obtain ⟨-, packed, shown⟩ := BitSet.create_packed grants ended
      rw [Fallible.bind_of_ok ended]
      refine .opened ⟨isValid, noHashes⟩ (.of_created overArena distinct uses books ended ?_)
      intro requests
      have knows : Knows ⟨set, hashes⟩ after.memory ∅ := ⟨packed, noHashes, shown⟩
      obtain ⟨memory, performed, -, keeps⟩ := knows.performAll requests
      exact ⟨memory, performed, keeps⟩
  | invalid isInvalid =>
      rw [Fallible.bind_of_error ended]
      exact .invalid fun valid => isInvalid valid.1
  | exhausted isValid asked unchanged =>
      rw [Fallible.bind_of_error ended]
      exact .exhausted ⟨isValid, noHashes⟩ asked unchanged

/-- No construction leaks: whatever is live in a stack over an arena, and whatever the arena still
hands out, a bit set or a filter is made with one block more, which can be taken back, or it is
refused and nothing has changed. -/
theorem Construction.never_leaks
    (books : stack.Books range world blocks) :
    (∀ size, Construction stack range blocks factory size (BitSet.Sized size) id
      BitSet.performAll world (BitSet.create factory size world)) ∧
    ∀ bits hashes, Construction stack range blocks factory bits
      (BitSet.Sized bits ∧ hashes ≠ 0) Bloom.bits Bloom.performAll world
      (Bloom.create factory bits hashes world) :=
  ⟨BitSet.create_construction overArena distinct uses books,
    Bloom.create_construction overArena distinct uses books⟩

end Books

/-- A set of thirteen numbers takes two bytes. It can be closed after a number was put there and
another one was refused. A filter of a number of bits that cannot be rounded up is refused. -/
theorem Construction.never_leaks_of_thirteen :
    let stack : Stack := .instrumented 0 1 .arena
    let factory : Factory := ⟨stack.allocator, .testing, 1⟩
    let arena : Arena := { base := ⟨4096⟩, capacity := 1024 }
    let before := World.initial arena
    (∃ set opened, BitSet.create factory 13 before = .ok set opened ∧
      set.root.extent.size.toNat = 2 ∧
      stack.Books arena.range opened [set.root.extent] ∧
      ∃ memory, set.performAll [.insert 3, .insert 13] opened.memory = .ok () memory ∧
        ∃ after, set.close factory { opened with memory } = .ok () after ∧
          stack.Books arena.range after []) ∧
    ∃ reason, Bloom.create factory 0xFFFFFFFFFFFFFFFF 3 before =
      .error (.refused (.invalidArgument reason)) before := by
  intro stack factory arena before
  have fresh : arena.Fresh := ⟨⟨⟨4096⟩, 1024, rfl⟩, by decide, by decide⟩
  have books : stack.Books arena.range before [] := Stack.books_start fresh .zero
  have never := @Construction.never_leaks stack arena.range [] before factory rfl (by decide) rfl
    books
  refine ⟨?_, ?_⟩
  · obtain ⟨granted, allocated⟩ := Stack.instrumented_allocate_of_room 0 1 before
      (by decide : (2 : UInt64) ≠ 0) (by decide) rfl
      (by decide +kernel : arena.nextAfter? (2 + 24) = some 32)
    have allocates : factory.allocator.allocate 2 before = _ := allocated
    obtain ⟨set, opened, created, _⟩ := BitSet.create_of_granted
      (by decide : (13 : UInt64) ≠ 0) (by decide : Bits.bytesFor? 13 = some 2) allocates
    have construction := never.1 13
    rw [created] at construction
    cases construction with
    | opened _ made =>
        obtain ⟨memory, performed, closable⟩ := made.closable [.insert 3, .insert 13]
        exact ⟨set, opened, created, made.bytes, made.books, memory, performed, closable.own⟩
  · have construction := never.2 0xFFFFFFFFFFFFFFFF 3
    generalize Bloom.create factory 0xFFFFFFFFFFFFFFFF 3 before = result at construction ⊢
    cases construction with
    | opened isValid => exact absurd isValid.1.2 (by decide)
    | invalid => exact ⟨_, rfl⟩
    | exhausted isValid => exact absurd isValid.1.2 (by decide)

end GuardedHeap
