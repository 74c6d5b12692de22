import GuardedHeap.Proofs.Client.Basic
import GuardedHeap.Proofs.Factory.Outcome

/-!
# The accounts of a client

The books of a stack are about the blocks of all things that its client holds, and about
blocks that the client has lost: those of things that it dropped, or gave back to a factory
that had not made them. Every thing that is held remembers the factory that made it.

The main result, `Accounts.step`, says that this stays so whatever a careful client does,
and for which causes it may be refused.
-/

namespace GuardedHeap

open Fallible (Preserves)
open HeapError (Harmless)
open Memory (SameOutside)

section Books

variable {stack : Stack}
variable {range : Extent}
variable {blocks rest : List Extent}
variable {world : World}
variable {factory : Factory}
variable {item : Item}
variable (overArena : stack.store = .arena)
variable (distinct : stack.layers.Nodup)
variable (uses : factory.allocator = stack.allocator)

include overArena distinct uses

/-- What is asked for is made of a new root, or refused. -/
theorem Order.make_making
    (books : stack.Books range world blocks)
    (order : Order) :
    Making stack range blocks Item.root factory.id (order.make factory world) := by
  cases order with
  | block size =>
      exact (Factory.allocate_making overArena distinct uses books size).map fun _ => rfl
  | bitSet size =>
      exact (BitSet.create_making overArena distinct uses books size).map fun _ => rfl
  | bloom bits hashes =>
      exact (Bloom.create_making overArena distinct uses books bits hashes).map fun _ => rfl

/-- A factory takes back what it made. -/
theorem Item.giveBack_of_own
    (books : stack.Books range world (item.root.extent :: rest))
    (own : item.root.origin = some factory.id) :
    ∃ after, item.giveBack factory world = .ok () after ∧ stack.Books range after rest := by
  cases item with
  | block root => exact Factory.free_of_own overArena distinct uses books own
  | bitSet set => exact BitSet.close_of_own overArena distinct uses books own
  | bloom filter => exact BitSet.close_of_own overArena distinct uses books own

end Books

/-- A factory takes back nothing that it did not make, and tells nothing else of it. -/
theorem Item.giveBack_of_foreign
    {factory : Factory}
    {item : Item}
    (foreign : item.root.origin ≠ some factory.id)
    (world : World) :
    ∃ reason events, item.giveBack factory world =
      .error (.refused (.invalidOperation reason)) { world with events } := by
  cases item with
  | block root =>
      obtain ⟨reason, refused⟩ := Factory.free_of_foreign foreign world
      exact ⟨reason, world.events, refused⟩
  | bitSet set => exact BitSet.close_of_foreign foreign world
  | bloom filter => exact BitSet.close_of_foreign foreign world

namespace Client

theorem onHeap_of_ok
    {α : Type}
    {computation : HeapM α}
    {client : Client}
    {value : α}
    {world : World}
    (ended : computation client.world = .ok value world) :
    onHeap computation client = .ok value { client with world } := by
  rw [onHeap, ended]

theorem onHeap_of_error
    {α : Type}
    {computation : HeapM α}
    {client : Client}
    {failure : Failure HeapError}
    {world : World}
    (ended : computation client.world = .error failure world) :
    onHeap computation client = .error (failure.map .memory) { client with world } := by
  rw [onHeap, ended]

/-- The bytes of the roots that a client holds. -/
def Owns (client : Client) (address : Address) : Prop :=
  ∃ holding ∈ client.holdings, holding.extent.Contains address

/-- The books of the stack are about what a client holds and what it has lost. -/
structure Accounts
    (stack : Stack)
    (range : Extent)
    (lost : List Extent)
    (client : Client) : Prop where
  books : stack.Books range client.world (client.holdings.map Holding.extent ++ lost)
  uses : ∀ factory ∈ client.factories, factory.allocator = stack.allocator
  remembers : ∀ holding ∈ client.holdings, holding.item.root.origin = some holding.maker

/-- Why a command may be refused. Only direct calls of the stack tell of addresses that
are not live. -/
def Allows : Command → AccessError → Prop
  | .reallocateDirectly _ _, _ => True
  | .freeDirectly _, _ => True
  | _, error => error.Harmless

/-- A command ends with accounts, and if with a refusal then for an allowed cause. -/
inductive Ends
    (stack : Stack)
    (range : Extent)
    (allowed : AccessError → Prop) :
    EStateM.Result (Failure AccessError) Client Unit → Prop
  | ok
      {client : Client}
      {lost : List Extent}
      (accounts : client.Accounts stack range lost) :
      Ends stack range allowed (.ok () client)
  | error
      {failure : Failure AccessError}
      {client : Client}
      {lost : List Extent}
      (accounts : client.Accounts stack range lost)
      (isAllowed : ∀ error, failure = .refused error → allowed error) :
      Ends stack range allowed (.error failure client)

variable {stack : Stack}
variable {range : Extent}
variable {lost rest : List Extent}
variable {client : Client}
variable {allowed : AccessError → Prop}

theorem Ends.final
    {computation : ClientM Unit}
    (ends : Ends stack range allowed (computation client)) :
    ∃ lost, (Fallible.final computation client).Accounts stack range lost := by
  unfold Fallible.final
  cases result : computation client with
  | ok value after =>
      rw [result] at ends
      cases ends with
      | ok accounts => exact ⟨_, accounts⟩
  | error failure after =>
      rw [result] at ends
      cases ends with
      | error accounts isAllowed => exact ⟨_, accounts⟩

theorem Ends.refused
    {error : AccessError}
    {after : Client}
    (ends : Ends stack range allowed (.error (.refused error) after)) :
    allowed error := by
  cases ends with
  | error accounts isAllowed => exact isAllowed error rfl

/-- A refusal by the heap that does not trip. -/
theorem Ends.of_harmless
    {error : HeapError}
    (accounts : client.Accounts stack range lost)
    (harmless : error.Harmless) :
    Ends stack range AccessError.Harmless (.error (.refused (.memory error)) client) := by
  apply Ends.error accounts
  rintro _ ⟨⟩
  exact harmless

/-- A byte of a view is a byte of a root that is held. -/
theorem owns_of_sees
    {block : Block}
    {address : Address}
    (sees : client.Sees block)
    (inRoot : block.InRoot address) :
    client.Owns address := by
  obtain ⟨root, view, isEmpty | ⟨holding, held, same⟩⟩ := sees
  · rw [Block.InRoot, view.root_eq, isEmpty] at inRoot
    exact absurd inRoot.2 (Nat.not_lt.mpr inRoot.1)
  · rw [Block.InRoot, view.root_eq, ← same] at inRoot
    exact ⟨holding, held, inRoot⟩

/-- The root of a thing that is held is seen. -/
theorem sees_whole
    {holding : Holding}
    {item : Item}
    (held : holding ∈ client.holdings)
    (isItem : holding.item = item) :
    client.Sees (.whole item.root) :=
  ⟨_, .whole, Or.inr ⟨holding, held, congrArg Item.root isItem⟩⟩

/-- A block in the books that belongs to no thing that is held was lost. -/
theorem mem_lost_of_spared
    {block : Extent}
    (live : block ∈ client.holdings.map Holding.extent ++ lost)
    (spared : ∀ holding ∈ client.holdings, holding.extent.address ≠ block.address) :
    block ∈ lost := by
  rcases List.mem_append.mp live with isHeld | isLost
  · obtain ⟨holding, held, rfl⟩ := List.mem_map.mp isHeld
    exact absurd rfl (spared holding held)
  · exact isLost

namespace Accounts

/-- Only the books and the things that are held matter. -/
theorem with_world
    (accounts : client.Accounts stack range lost)
    {world : World}
    (books : stack.Books range world (client.holdings.map Holding.extent ++ lost)) :
    Accounts stack range lost { client with world } :=
  ⟨books, accounts.uses, accounts.remembers⟩

section Step

variable (accounts : client.Accounts stack range lost)
variable (overArena : stack.store = .arena)
variable (distinct : stack.layers.Nodup)

include accounts overArena distinct

theorem undisturbed
    {world : World}
    (undisturbed : World.Undisturbed stack.layers (client.holdings.map Holding.extent ++ lost)
      client.world world) :
    Accounts stack range lost { client with world } :=
  accounts.with_world
    ((stack.keeps range overArena distinct).undisturbed accounts.books undisturbed)

/-- Other bytes than those of roots that are held do not change. -/
theorem of_memory
    {memory : Memory}
    (same : SameOutside client.Owns client.world.memory memory) :
    Accounts stack range lost { client with world := { client.world with memory } } := by
  apply accounts.with_world
  apply accounts.books.of_memory overArena distinct
  intro address outside
  apply same
  rintro ⟨holding, held, contains⟩
  exact outside ⟨_, List.mem_append_left _ (List.mem_map_of_mem held), contains⟩

theorem rooted
    {block : Block}
    (sees : client.Sees block) :
    block.Rooted := by
  rw [Block.Rooted]
  obtain ⟨root, view, isEmpty | ⟨holding, held, same⟩⟩ := sees
  · rw [view.root_eq, isEmpty]
    decide
  · rw [view.root_eq, ← same]
    exact ((stack.keeps range overArena distinct).placed accounts.books).stop_le
      (List.mem_append_left _ (List.mem_map_of_mem held))

/-- What is held comes first in the books, if need be. -/
theorem books_of_held
    {holding : Holding}
    (held : holding ∈ client.holdings) :
    stack.Books range client.world
      (holding.extent :: ((client.holdings.erase holding).map Holding.extent ++ lost)) := by
  have same : client.holdings.Perm (holding :: client.holdings.erase holding) :=
    List.perm_cons_erase held
  exact (stack.keeps range overArena distinct).perm accounts.books
    ((same.map Holding.extent).append_right lost)

/-- What was lost comes first in the books, if need be. -/
theorem books_of_lost
    {block : Extent}
    (isLost : block ∈ lost) :
    stack.Books range client.world
      (block :: (client.holdings.map Holding.extent ++ lost.erase block)) := by
  have same : lost.Perm (block :: lost.erase block) := List.perm_cons_erase isLost
  exact (stack.keeps range overArena distinct).perm accounts.books
    ((same.append_left _).trans List.perm_middle)

/-- The block of a thing that is let go is lost. -/
theorem letGo
    {holding : Holding}
    (held : holding ∈ client.holdings) :
    Accounts stack range (holding.extent :: lost)
      { client with holdings := client.holdings.erase holding } where
  books := (stack.keeps range overArena distinct).perm
    (accounts.books_of_held overArena distinct held) List.perm_middle.symm
  uses := accounts.uses
  remembers other held := accounts.remembers other (List.mem_of_mem_erase held)

/-- Letting go of what is not held changes nothing. -/
theorem exists_letGo (holding : Holding) :
    ∃ lost, Accounts stack range lost
      { client with holdings := client.holdings.erase holding } := by
  by_cases held : holding ∈ client.holdings
  · exact ⟨_, accounts.letGo overArena distinct held⟩
  · rw [List.erase_of_not_mem held]
    exact ⟨lost, accounts⟩

theorem create (config : FactoryConfig) :
    Ends stack range AccessError.Harmless
      ((Command.create config).perform stack client) := by
  let factory : Factory := ⟨stack.allocator, config, client.world.nextFactory⟩
  let world : World := { client.world with nextFactory := client.world.nextFactory + 1 }
  have created : Accounts stack range lost { client with world } :=
    accounts.undisturbed overArena distinct
      ⟨fun _ _ => rfl, fun _ _ _ => rfl, fun _ _ => rfl, rfl⟩
  have uses : ∀ other ∈ factory :: client.factories, other.allocator = stack.allocator :=
    List.forall_mem_cons.mpr ⟨rfl, accounts.uses⟩
  have after : Accounts stack range lost
      { client with world, factories := factory :: client.factories } :=
    ⟨created.books, uses, accounts.remembers⟩
  exact .ok after

theorem make
    {factory : Factory}
    (known : factory ∈ client.factories)
    (order : Order) :
    Ends stack range AccessError.Harmless
      ((Command.make factory order).perform stack client) := by
  have making := Order.make_making overArena distinct (accounts.uses factory known)
    accounts.books order
  rw [Command.perform]
  generalize result : order.make factory client.world = ended at making
  cases making with
  | @made item after remembers books =>
      rw [Fallible.bind_of_ok (onHeap_of_ok result)]
      have holds : Accounts stack range lost
          { client with world := after, holdings := ⟨factory.id, item⟩ :: client.holdings } :=
        ⟨books, accounts.uses, List.forall_mem_cons.mpr ⟨remembers, accounts.remembers⟩⟩
      exact .ok holds
  | refused harmless books =>
      rw [Fallible.bind_of_error (onHeap_of_error result)]
      exact .of_harmless (accounts.with_world books) harmless

/-- The factory that made a root moves it, if the size is not refused. -/
theorem reallocate_of_own
    {factory : Factory}
    {root : Root}
    (known : factory ∈ client.factories)
    (held : ⟨factory.id, .block root⟩ ∈ client.holdings)
    (newSize : UInt64) :
    (∃ after,
      (Command.reallocate factory factory.id root newSize).perform stack client = .ok () after ∧
        newSize ≠ 0 ∧ after.Accounts stack range lost) ∨
    ∃ failure after,
      (Command.reallocate factory factory.id root newSize).perform stack client =
          .error (failure.map .memory) after ∧
        RefusedSize newSize failure ∧ after.Accounts stack range lost := by
  have books : stack.Books range client.world (root.extent ::
      ((client.holdings.erase ⟨factory.id, .block root⟩).map Holding.extent ++ lost)) :=
    accounts.books_of_held overArena distinct held
  have own : root.origin = some factory.id := accounts.remembers _ held
  have moving := Factory.reallocate_moving overArena distinct (accounts.uses factory known) books
    own newSize
  rw [Command.perform]
  generalize result : factory.reallocate root newSize client.world = ended at moving
  cases moving with
  | moved nonempty booksAfter =>
      left
      rw [Fallible.bind_of_ok (onHeap_of_ok result)]
      have remembers := (accounts.letGo overArena distinct held).remembers
      exact ⟨_, rfl, nonempty, booksAfter, accounts.uses,
        List.forall_mem_cons.mpr ⟨own, remembers⟩⟩
  | refused isRefused booksAfter =>
      right
      rw [Fallible.bind_of_error (onHeap_of_error result)]
      have same : (client.holdings.map Holding.extent ++ lost).Perm _ :=
        ((List.perm_cons_erase held).map Holding.extent).append_right lost
      refine ⟨_, _, rfl, isRefused, accounts.with_world ?_⟩
      exact (stack.keeps range overArena distinct).perm booksAfter same.symm

theorem reallocate
    {factory : Factory}
    {maker : Nat}
    {root : Root}
    (known : factory ∈ client.factories)
    (held : ⟨maker, .block root⟩ ∈ client.holdings ∨ root = .empty)
    (newSize : UInt64) :
    Ends stack range AccessError.Harmless
      ((Command.reallocate factory maker root newSize).perform stack client) := by
  by_cases own : root.origin = some factory.id
  · rcases held with held | rfl
    -- the root remembers its maker, so this is the factory that made it
    · have maker_eq : maker = factory.id :=
        Option.some_inj.mp ((accounts.remembers _ held).symm.trans own)
      subst maker_eq
      rcases accounts.reallocate_of_own overArena distinct known held newSize with
        ⟨after, moved, _, accountsAfter⟩ | ⟨failure, after, refused, isRefused, accountsAfter⟩
      · rw [moved]
        exact .ok accountsAfter
      · rw [refused]
        cases isRefused <;> exact .of_harmless accountsAfter rfl
    · cases own
  · obtain ⟨reason, refused⟩ := Factory.reallocate_of_foreign own newSize client.world
    rw [Command.perform, Fallible.bind_of_error (onHeap_of_error refused)]
    exact .of_harmless accounts rfl

/-- The factory that made a thing takes it back, and the client no longer holds it. -/
theorem giveBack_of_own
    {factory : Factory}
    {holding : Holding}
    (known : factory ∈ client.factories)
    (held : holding ∈ client.holdings)
    (own : holding.maker = factory.id) :
    ∃ world, (Command.giveBack factory holding).perform stack client =
        .ok () { client with world, holdings := client.holdings.erase holding } ∧
      Accounts stack range lost
        { client with world, holdings := client.holdings.erase holding } := by
  have books := accounts.books_of_held overArena distinct held
  have remembers : holding.item.root.origin = some factory.id := by
    rw [accounts.remembers holding held, own]
  obtain ⟨world, freed, booksAfter⟩ :=
    Item.giveBack_of_own overArena distinct (accounts.uses factory known) books remembers
  let without : Client := { client with holdings := client.holdings.erase holding }
  have letGo : Client.letGo holding client = .ok () without := rfl
  have freedWithout : holding.item.giveBack factory without.world = .ok () world := freed
  rw [Command.perform, Fallible.bind_of_ok letGo, onHeap_of_ok freedWithout]
  exact ⟨_, rfl, booksAfter, accounts.uses, (accounts.letGo overArena distinct held).remembers⟩

theorem giveBack
    {factory : Factory}
    {holding : Holding}
    (known : factory ∈ client.factories)
    (held : holding ∈ client.holdings ∨ holding.item = .block .empty) :
    Ends stack range AccessError.Harmless
      ((Command.giveBack factory holding).perform stack client) := by
  by_cases own : holding.item.root.origin = some factory.id
  · rcases held with held | isEmpty
    · have maker_eq : holding.maker = factory.id :=
        Option.some_inj.mp ((accounts.remembers holding held).symm.trans own)
      obtain ⟨world, givenBack, accountsAfter⟩ :=
        accounts.giveBack_of_own overArena distinct known held maker_eq
      rw [givenBack]
      exact .ok accountsAfter
    · rw [isEmpty] at own
      cases own
  -- the thing was let go before the factory refused it, so its block is lost
  · let without : Client := { client with holdings := client.holdings.erase holding }
    have letGo : Client.letGo holding client = .ok () without := rfl
    obtain ⟨lost, accountsWithout⟩ := accounts.exists_letGo overArena distinct holding
    obtain ⟨reason, events, refused⟩ := Item.giveBack_of_foreign own without.world
    rw [Command.perform, Fallible.bind_of_ok letGo, onHeap_of_error refused]
    have books := accountsWithout.books.of_events overArena distinct events
    exact .of_harmless (accountsWithout.with_world books) rfl

/-- Reading and writing bytes of roots that are held. -/
theorem onMemory
    {computation : MemoryM Unit}
    (preserves : Preserves (SameOutside client.Owns client.world.memory) Harmless (fun _ => True)
      computation) :
    Ends stack range AccessError.Harmless (onHeap (HeapM.onMemory computation) client) := by
  cases result : computation client.world.memory with
  | ok value memory =>
      have same := (preserves.ok _ _ _ (fun _ _ => rfl) result).1
      rw [onHeap_of_ok (HeapM.onMemory_of_ok result)]
      exact .ok (accounts.of_memory overArena distinct same)
  | error failure memory =>
      obtain ⟨same, harmless⟩ := preserves.error _ _ _ (fun _ _ => rfl) result
      rw [onHeap_of_error (HeapM.onMemory_of_error result)]
      refine .error (accounts.of_memory overArena distinct same) ?_
      cases failure with
      | refused error =>
          rintro _ ⟨⟩
          exact harmless error rfl
      | overflow => exact nofun

/-- Reading and writing at a cursor. -/
theorem access
    {cursor : Cursor}
    (sees : client.Sees cursor.block)
    (request : Cursor.Request) :
    Ends stack range AccessError.Harmless
      ((Command.access cursor request).perform stack client) := by
  have rooted := accounts.rooted overArena distinct sees
  have preserves : Preserves (Cursor.Stays cursor.block client.Owns client.world.memory)
      AccessError.Harmless (fun _ => True) request.run :=
    request.preserves rooted fun _ inRoot => owns_of_sees sees inRoot
  have stays : Cursor.Stays cursor.block client.Owns client.world.memory
      (cursor, client.world.memory) := ⟨rfl, fun _ _ => rfl⟩
  rw [Command.perform, onCursor]
  cases result : request.run (cursor, client.world.memory) with
  | ok value after =>
      have same := (preserves.ok _ _ _ stays result).1.memory
      exact .ok (accounts.of_memory overArena distinct same)
  | error failure after =>
      obtain ⟨staysAfter, harmless⟩ := preserves.error _ _ _ stays result
      exact .error (accounts.of_memory overArena distinct staysAfter.memory) harmless

/-- A direct call moves a block that the client has lost, or changes nothing. -/
theorem reallocateDirectly
    {address : Address}
    (screens : stack.screens)
    (spared : ∀ holding ∈ client.holdings, holding.extent.address ≠ address)
    (newSize : UInt64) :
    Ends stack range (fun _ => True)
      ((Command.reallocateDirectly address newSize).perform stack client) := by
  have keeps := stack.keeps range overArena distinct
  rw [Command.perform]
  cases answered : stack.allocator.reallocate address newSize client.world with
  | error failure world =>
      have unchanged := (stack.allocator_atomic.reallocate _ _ _ _ _ answered).2
      rw [onHeap_of_error (Fallible.bind_of_error answered _)]
      exact .error (accounts.undisturbed overArena distinct (unchanged.undisturbed _ _))
        fun _ _ => trivial
  | ok newAddress world =>
      have discarded : (do
          let _ ← stack.allocator.reallocate address newSize
          pure () : HeapM Unit) client.world = .ok () world := Fallible.bind_of_ok answered _
      obtain ⟨block, live, rfl⟩ := accounts.books.live_of_moved (Or.inl screens) answered
      have isLost := mem_lost_of_spared live spared
      have moved := (keeps.reallocate (accounts.books_of_lost overArena distinct isLost) answered).1
      have books := keeps.perm moved List.perm_middle.symm
      rw [onHeap_of_ok discarded]
      exact Ends.ok ⟨books, accounts.uses, accounts.remembers⟩

/-- A direct call ends a block that the client has lost, or changes nothing. -/
theorem freeDirectly
    {address : Address}
    (screens : stack.screens)
    (spared : ∀ holding ∈ client.holdings, holding.extent.address ≠ address) :
    Ends stack range (fun _ => True)
      ((Command.freeDirectly address).perform stack client) := by
  have keeps := stack.keeps range overArena distinct
  rw [Command.perform]
  cases answered : stack.allocator.free address client.world with
  | error failure world =>
      have unchanged := (stack.allocator_atomic.free _ _ _ _ answered).2
      rw [onHeap_of_error answered]
      exact .error (accounts.undisturbed overArena distinct (unchanged.undisturbed _ _))
        fun _ _ => trivial
  | ok value world =>
      obtain ⟨block, live, rfl⟩ := accounts.books.live_of_ended (Or.inl screens) answered
      have isLost := mem_lost_of_spared live spared
      obtain ⟨after, freed, books, _⟩ :=
        keeps.free (accounts.books_of_lost overArena distinct isLost)
      rw [freed] at answered
      cases answered
      rw [onHeap_of_ok freed]
      exact Ends.ok ⟨books, accounts.uses, accounts.remembers⟩

/-- Whatever a careful client does, it ends with accounts, and is not refused for a cause
that trips unless it called the stack directly. -/
theorem step
    {command : Command}
    (screens : stack.screens)
    (admitted : client.Admits command)
    (careful : client.Careful command) :
    Ends stack range (Allows command) (command.perform stack client) := by
  cases command with
  | create config => exact accounts.create overArena distinct config
  | make factory order => exact accounts.make overArena distinct admitted order
  | reallocate factory maker root newSize =>
      exact accounts.reallocate overArena distinct admitted.1 admitted.2 newSize
  | giveBack factory holding => exact accounts.giveBack overArena distinct admitted.1 admitted.2
  | drop holding => exact .ok (accounts.letGo overArena distinct admitted)
  | slice block offset size =>
      rw [Command.perform]
      cases cut : block.slice offset size with
      | ok view => exact .ok accounts
      | error error => exact .of_harmless accounts (Block.harmless_of_slice cut)
  | sliceLast block size =>
      rw [Command.perform]
      cases cut : block.sliceLast size with
      | ok view => exact .ok accounts
      | error error => exact .of_harmless accounts (Block.harmless_of_sliceLast cut)
  | operate operation =>
      apply accounts.onMemory overArena distinct
      have rooted : ∀ block ∈ operation.target?, block.Rooted := fun block target =>
        accounts.rooted overArena distinct
          (admitted block (Block.Operation.mem_blocks_of_target target))
      have owns : ∀ address, operation.Targets address → client.Owns address := by
        rintro address ⟨block, target, inRoot⟩
        exact owns_of_sees (admitted block (Block.Operation.mem_blocks_of_target target)) inRoot
      exact (Block.Operation.preserves rooted owns).map _
  | access cursor request => exact accounts.access overArena distinct admitted request
  | changeSet set request =>
      obtain ⟨holding, held, isSet⟩ := admitted
      have sees : client.Sees set.block := sees_whole held isSet
      apply accounts.onMemory overArena distinct
      exact request.preserves (accounts.rooted overArena distinct sees)
        fun _ inRoot => owns_of_sees sees inRoot
  | changeFilter filter request =>
      obtain ⟨holding, held, isFilter⟩ := admitted
      have sees : client.Sees filter.bits.block := sees_whole held isFilter
      apply accounts.onMemory overArena distinct
      exact request.preserves (accounts.rooted overArena distinct sees)
        fun _ inRoot => owns_of_sees sees inRoot
  | limit count =>
      apply Ends.ok
      exact accounts.undisturbed overArena distinct (World.undisturbed_credit rfl)
  | recover =>
      apply Ends.ok
      exact accounts.undisturbed overArena distinct (World.undisturbed_credit rfl)
  | reallocateDirectly address newSize =>
      exact accounts.reallocateDirectly overArena distinct screens careful newSize
  | freeDirectly address => exact accounts.freeDirectly overArena distinct screens careful

end Step

end Accounts

/-- A careful client always has accounts. -/
theorem Run.accounts
    {arena : Arena}
    (run : Run Careful stack arena client)
    (overArena : stack.store = .arena)
    (distinct : stack.layers.Nodup)
    (screens : stack.screens)
    (fresh : arena.Fresh) :
    ∃ lost, client.Accounts stack arena.range lost := by
  induction run with
  | start memory =>
      exact ⟨[], Stack.books_start fresh memory, List.forall_mem_nil _, List.forall_mem_nil _⟩
  | step earlier admitted careful inductionHypothesis =>
      obtain ⟨lost, accounts⟩ := inductionHypothesis
      exact (accounts.step overArena distinct screens admitted careful).final

end Client
end GuardedHeap
