import GuardedHeap.Proofs.Access.Framed
import GuardedHeap.Proofs.Run.Basic

/-!
# Clients of factories

A client makes factories over one stack and has roots, bit sets and filters made by them.
It holds what was made until it gives it back or drops it, and meanwhile cuts views of the
roots and reads and writes them in every way. It can let the arena fail and recover. A
stack that knows the addresses of live blocks may also be called behind the factories'
backs.

What a client is able to say is limited only by what it holds: it names no root, set or
filter that it has given back or dropped, and no view of a root that has moved. Which of
its factories it calls, and whether it calls the stack directly, is a matter of rules.
-/

namespace GuardedHeap

deriving instance DecidableEq for BitSet, Bloom

/-- Something that a factory makes of a root. -/
inductive Item
  | block (root : Root)
  | bitSet (set : BitSet)
  | bloom (filter : Bloom)
  deriving DecidableEq

namespace Item

/-- The root that a thing is made of. -/
def root : Item → Root
  | .block root => root
  | .bitSet set => set.root
  | .bloom filter => filter.bits.root

/-- Give a thing back to a factory. -/
def giveBack : Item → Factory → HeapM Unit
  | .block root, factory => factory.free root
  | .bitSet set, factory => set.close factory
  | .bloom filter, factory => filter.close factory

end Item

/-- What a factory is asked to make. -/
inductive Order
  | block (size : UInt64)
  | bitSet (size : UInt64)
  | bloom (bits : UInt64) (hashes : UInt32)
  deriving DecidableEq

/-- Have a thing made by a factory. -/
def Order.make : Order → Factory → HeapM Item
  | .block size, factory => do pure (.block (← factory.allocate size))
  | .bitSet size, factory => do pure (.bitSet (← BitSet.create factory size))
  | .bloom bits hashes, factory => do pure (.bloom (← Bloom.create factory bits hashes))

/-- A thing that a client holds, with the number of the factory that made it. -/
structure Holding where
  maker : Nat
  item : Item
  deriving DecidableEq

/-- The block that belongs to a thing that is held. -/
def Holding.extent (holding : Holding) : Extent :=
  holding.item.root.extent

/-- A client in a world. -/
structure Client where
  world : World
  factories : List Factory
  holdings : List Holding

/-- A computation of a client. -/
abbrev ClientM := Fallible AccessError Client

/-- What a client can do. -/
inductive Command
  | create (config : FactoryConfig)
  | make (factory : Factory) (order : Order)
  | reallocate (factory : Factory) (maker : Nat) (root : Root) (newSize : UInt64)
  | giveBack (factory : Factory) (holding : Holding)
  | drop (holding : Holding)
  | slice (block : Block) (offset size : UInt64)
  | sliceLast (block : Block) (size : UInt64)
  | operate (operation : Block.Operation)
  | access (cursor : Cursor) (request : Cursor.Request)
  | changeSet (set : BitSet) (request : BitSet.Request)
  | changeFilter (filter : Bloom) (request : Bloom.Request)
  | limit (count : Nat)
  | recover
  | reallocateDirectly (address : Address) (newSize : UInt64)
  | freeDirectly (address : Address)

namespace Client

/-- A client that has done nothing, over a new arena and any memory. -/
def start (arena : Arena) (memory : Memory) : Client where
  world := { World.initial arena with memory }
  factories := []
  holdings := []

/-- Run a computation on the world of a client. -/
def onHeap {α : Type} (computation : HeapM α) : ClientM α := fun client =>
  match computation client.world with
  | .ok value world => .ok value { client with world }
  | .error failure world => .error (failure.map .memory) { client with world }

/-- Run a computation at a cursor on the memory of a client. -/
def onCursor {α : Type} (cursor : Cursor) (computation : CursorM α) : ClientM α :=
  fun client =>
    match computation (cursor, client.world.memory) with
    | .ok value (_, memory) => .ok value { client with world := { client.world with memory } }
    | .error failure (_, memory) =>
        .error failure { client with world := { client.world with memory } }

/-- Let the arena of a client change what it will refuse. -/
def onArena (change : Arena → Arena) : ClientM Unit :=
  modify fun client =>
    { client with world := { client.world with arena := change client.world.arena } }

/-- Hold a thing from now on. -/
def hold (holding : Holding) : ClientM Unit :=
  modify fun client => { client with holdings := holding :: client.holdings }

/-- Hold a thing no longer. -/
def letGo (holding : Holding) : ClientM Unit :=
  modify fun client => { client with holdings := client.holdings.erase holding }

end Client

/-- Do what a client can do over a stack. What is given back is gone even if the factory
does not take it; a root that could not be moved is still there. -/
def Command.perform (stack : Stack) : Command → ClientM Unit
  | .create config => do
      let factory ← Client.onHeap (Factory.create stack.allocator config)
      modify fun client => { client with factories := factory :: client.factories }
  | .make factory order => do
      let item ← Client.onHeap (order.make factory)
      Client.hold ⟨factory.id, item⟩
  | .reallocate factory maker root newSize => do
      let moved ← Client.onHeap (factory.reallocate root newSize)
      Client.letGo ⟨maker, .block root⟩
      Client.hold ⟨maker, .block moved⟩
  | .giveBack factory holding => do
      Client.letGo holding
      Client.onHeap (holding.item.giveBack factory)
  | .drop holding => Client.letGo holding
  | .slice block offset size =>
      Client.onHeap (do
        let _ ← Fallible.ofCheck (block.slice offset size)
        pure ())
  | .sliceLast block size =>
      Client.onHeap (do
        let _ ← Fallible.ofCheck (block.sliceLast size)
        pure ())
  | .operate operation =>
      Client.onHeap (HeapM.onMemory (do
        let _ ← operation.run
        pure ()))
  | .access cursor request => Client.onCursor cursor request.run
  | .changeSet set request => Client.onHeap (HeapM.onMemory (request.run set))
  | .changeFilter filter request => Client.onHeap (HeapM.onMemory (request.run filter))
  | .limit count => Client.onArena (Arena.failAfter · count)
  | .recover => Client.onArena Arena.recover
  | .reallocateDirectly address newSize =>
      Client.onHeap (do
        let _ ← stack.allocator.reallocate address newSize
        pure ())
  | .freeDirectly address => Client.onHeap (stack.allocator.free address)

namespace Client

/-- A client sees the views of the roots that it holds, however they are cut, and those of
the block without bytes. -/
def Sees (client : Client) (block : Block) : Prop :=
  ∃ root, Block.ViewOf root block ∧
    (root = .empty ∨ ∃ holding ∈ client.holdings, holding.item.root = root)

/-- What a client is able to say. -/
def Admits (client : Client) : Command → Prop
  | .create _ => True
  | .make factory _ => factory ∈ client.factories
  | .reallocate factory maker root _ =>
      factory ∈ client.factories ∧ (⟨maker, .block root⟩ ∈ client.holdings ∨ root = .empty)
  | .giveBack factory holding =>
      factory ∈ client.factories ∧ (holding ∈ client.holdings ∨ holding.item = .block .empty)
  | .drop holding => holding ∈ client.holdings
  | .slice block _ _ => client.Sees block
  | .sliceLast block _ => client.Sees block
  | .operate operation => ∀ block ∈ operation.blocks, client.Sees block
  | .access cursor _ => client.Sees cursor.block
  | .changeSet set _ => ∃ holding ∈ client.holdings, holding.item = .bitSet set
  | .changeFilter filter _ => ∃ holding ∈ client.holdings, holding.item = .bloom filter
  | .limit _ => True
  | .recover => True
  | .reallocateDirectly _ _ => True
  | .freeDirectly _ => True

/-- A faithful client asks only the factory that made a thing to move it or to take it
back, and does not go behind the factories' backs. -/
def Faithful (client : Client) : Command → Prop
  | .reallocate factory maker root _ =>
      ⟨maker, .block root⟩ ∈ client.holdings ∧ maker = factory.id
  | .giveBack factory holding => holding ∈ client.holdings ∧ holding.maker = factory.id
  | .reallocateDirectly _ _ => False
  | .freeDirectly _ => False
  | _ => True

/-- A careful client may go behind the factories' backs, but never to move or end the
block of a thing that it still holds. -/
def Careful (client : Client) : Command → Prop
  | .reallocateDirectly address _ =>
      ∀ holding ∈ client.holdings, holding.extent.address ≠ address
  | .freeDirectly address => ∀ holding ∈ client.holdings, holding.extent.address ≠ address
  | _ => True

theorem Faithful.careful
    {client : Client}
    {command : Command}
    (faithful : client.Faithful command) :
    client.Careful command := by
  cases command with
  | reallocateDirectly address newSize => exact faithful.elim
  | freeDirectly address => exact faithful.elim
  | _ => trivial

/-- The clients that come out of a new one by commands that obey a rule. -/
inductive Run
    (rule : Client → Command → Prop)
    (stack : Stack)
    (arena : Arena) :
    Client → Prop
  | start (memory : Memory) : Run rule stack arena (start arena memory)
  | step
      {client : Client}
      {command : Command}
      (earlier : Run rule stack arena client)
      (admitted : client.Admits command)
      (obeys : rule client command) :
      Run rule stack arena (Fallible.final (command.perform stack) client)

/-- A run that obeys a rule obeys every weaker one. -/
theorem Run.mono
    {rule weaker : Client → Command → Prop}
    {stack : Stack}
    {arena : Arena}
    {client : Client}
    (run : Run rule stack arena client)
    (implies : ∀ client command, rule client command → weaker client command) :
    Run weaker stack arena client := by
  induction run with
  | start memory => exact .start memory
  | step earlier admitted obeys inductionHypothesis =>
      exact .step inductionHypothesis admitted (implies _ _ obeys)

end Client
end GuardedHeap
