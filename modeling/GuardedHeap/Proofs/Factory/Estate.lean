import GuardedHeap.Proofs.Factory.Numbers
import GuardedHeap.Proofs.Factory.Outcome
import GuardedHeap.Proofs.Ledger.Release
import GuardedHeap.Proofs.Run.Basic

/-!
# Estates

An estate is what one client of several factories over one stack has in its hands: the
factories and the roots, be these made by the factories or named by hand. A root that is
given back is gone, also if no factory takes it; such roots are remembered as forfeited.

An estate is accounted for if the books of the stack are about the blocks of exactly those
roots, held or forfeited, that were made by a factory. `Run.accounted` says that it always is.
-/

namespace GuardedHeap

/-- Whether a root was made by a factory. -/
def Root.isMade (root : Root) : Bool :=
  root.origin.isSome

/-- The blocks of those roots that were made by a factory. -/
def Root.blocksOf (roots : List Root) : List Extent :=
  (roots.filter Root.isMade).map Root.extent

/-- What a client of several factories has in its hands, and what it gave up without a
factory taking it. -/
structure Estate where
  world : World
  factories : List Factory
  held : List Root
  forfeited : List Root

/-- A computation on an estate. -/
abbrev EstateM := Fallible HeapError Estate

namespace Estate

/-- An estate without anything in it, over a new arena and any memory. -/
def start (arena : Arena) (memory : Memory) : Estate where
  world := { World.initial arena with memory }
  factories := []
  held := []
  forfeited := []

/-- The blocks of all roots that were made by a factory and not taken back. -/
def blocks (estate : Estate) : List Extent :=
  Root.blocksOf (estate.held ++ estate.forfeited)

/-- Run a computation on the world of an estate. -/
def onHeap {α : Type} (computation : HeapM α) : EstateM α := fun estate =>
  match computation estate.world with
  | .ok value world => .ok value { estate with world }
  | .error failure world => .error failure { estate with world }

/-- Let the arena change what it will refuse. -/
def onArena (change : Arena → Arena) : EstateM Unit :=
  modify fun estate =>
    { estate with world := { estate.world with arena := change estate.world.arena } }

/-- Hold a root from now on. -/
def hold (root : Root) : EstateM Unit :=
  modify fun estate => { estate with held := root :: estate.held }

/-- Hold a root no longer. -/
def letGo (root : Root) : EstateM Unit :=
  modify fun estate => { estate with held := estate.held.erase root }

/-- Give up a root that no factory took back. -/
def forfeit (root : Root) : EstateM Unit :=
  modify fun estate => { estate with forfeited := root :: estate.forfeited }

/-- What a client can do with factories and roots. -/
inductive Request
  | create (config : FactoryConfig)
  | adopt (root : Root)
  | allocate (factory : Factory) (size : UInt64)
  | reallocate (factory : Factory) (root : Root) (newSize : UInt64)
  | free (factory : Factory) (root : Root)
  | release (factory : Factory)
  | limit (count : Nat)
  | recover

/-- Do what a client can do. A root that could not be moved is still held as it was; one
that could not be given back is gone. -/
def Request.perform (stack : Stack) : Request → EstateM Unit
  | .create config => do
      let factory ← onHeap (Factory.create stack.allocator config)
      modify fun estate => { estate with factories := factory :: estate.factories }
  | .adopt root => hold root
  | .allocate factory size => do
      hold (← onHeap (factory.allocate size))
  | .reallocate factory root newSize => do
      let moved ← onHeap (factory.reallocate root newSize)
      letGo root
      hold moved
  | .free factory root => do
      letGo root
      match ← Fallible.attempt (onHeap (factory.free root)) with
      | .ok () => pure ()
      | .error error =>
          forfeit root
          Fallible.refuse error
  | .release factory => onHeap factory.release
  | .limit count => onArena (Arena.failAfter · count)
  | .recover => onArena Arena.recover

/-- A client calls factories that it has with roots that it holds. The only roots that it
gets in another way than from a factory are those that no factory made. -/
def Admits (estate : Estate) : Request → Prop
  | .create _ => True
  | .adopt root => root.origin = none
  | .allocate factory _ => factory ∈ estate.factories
  | .reallocate factory root _ => factory ∈ estate.factories ∧ root ∈ estate.held
  | .free factory root => factory ∈ estate.factories ∧ root ∈ estate.held
  | .release factory => factory ∈ estate.factories
  | .limit _ => True
  | .recover => True

/-- The estates that come out of an empty one. -/
inductive Run (stack : Stack) (arena : Arena) : Estate → Prop
  | start (memory : Memory) : Run stack arena (start arena memory)
  | step
      {estate : Estate}
      {request : Request}
      (earlier : Run stack arena estate)
      (admitted : estate.Admits request) :
      Run stack arena (Fallible.final (request.perform stack) estate)

/-- The books of a stack are about the blocks of an estate, whose roots come from its
factories if they come from any, and whose factories have different numbers. -/
structure Accounted (stack : Stack) (range : Extent) (estate : Estate) : Prop where
  books : stack.Books range estate.world estate.blocks
  uses : ∀ factory ∈ estate.factories, factory.allocator = stack.allocator
  known : ∀ root ∈ estate.held ++ estate.forfeited, ∀ id, root.origin = some id →
    ∃ factory ∈ estate.factories, factory.id = id
  issued : ∀ factory ∈ estate.factories, factory.id < estate.world.nextFactory
  numbered : (estate.factories.map Factory.id).Nodup

end Estate

namespace Root

variable {root : Root}
variable {roots others : List Root}

theorem blocksOf_cons_of_made (made : root.isMade = true) :
    blocksOf (root :: roots) = root.extent :: blocksOf roots := by
  rw [blocksOf, List.filter_cons_of_pos made]
  rfl

theorem blocksOf_cons_of_not_made (notMade : root.isMade = false) :
    blocksOf (root :: roots) = blocksOf roots := by
  rw [blocksOf, List.filter_cons_of_neg (by simp [notMade])]
  rfl

theorem blocksOf_perm (same : roots.Perm others) : (blocksOf roots).Perm (blocksOf others) :=
  (same.filter _).map _

/-- A root that remembers a factory was made by one. -/
theorem isMade_of_origin
    {id : Nat}
    (origin : root.origin = some id) :
    root.isMade = true := by
  rw [isMade, origin]
  rfl

end Root

namespace Estate

theorem onHeap_of_ok
    {α : Type}
    {computation : HeapM α}
    {estate : Estate}
    {value : α}
    {world : World}
    (ended : computation estate.world = .ok value world) :
    onHeap computation estate = .ok value { estate with world } := by
  rw [onHeap, ended]

theorem onHeap_of_error
    {α : Type}
    {computation : HeapM α}
    {estate : Estate}
    {failure : Failure HeapError}
    {world : World}
    (ended : computation estate.world = .error failure world) :
    onHeap computation estate = .error failure { estate with world } := by
  rw [onHeap, ended]

section Equations

variable {stack : Stack}
variable {estate : Estate}
variable {factory : Factory}
variable {root : Root}
variable {newSize : UInt64}
variable {world : World}

theorem perform_allocate_of_ok
    {size : UInt64}
    (made : factory.allocate size estate.world = .ok root world) :
    (Request.allocate factory size).perform stack estate =
      .ok () { estate with world, held := root :: estate.held } := by
  rw [Request.perform, Fallible.bind_of_ok (onHeap_of_ok made)]
  rfl

theorem perform_allocate_of_error
    {size : UInt64}
    {failure : Failure HeapError}
    (failed : factory.allocate size estate.world = .error failure world) :
    (Request.allocate factory size).perform stack estate =
      .error failure { estate with world } := by
  rw [Request.perform, Fallible.bind_of_error (onHeap_of_error failed)]

theorem perform_reallocate_of_ok
    {moved : Root}
    (done : factory.reallocate root newSize estate.world = .ok moved world) :
    (Request.reallocate factory root newSize).perform stack estate =
      .ok () { estate with world, held := moved :: estate.held.erase root } := by
  rw [Request.perform, Fallible.bind_of_ok (onHeap_of_ok done)]
  rfl

/-- A root that could not be moved is still held as it was. -/
theorem perform_reallocate_of_error
    {failure : Failure HeapError}
    (failed : factory.reallocate root newSize estate.world = .error failure world) :
    (Request.reallocate factory root newSize).perform stack estate =
      .error failure { estate with world } := by
  rw [Request.perform, Fallible.bind_of_error (onHeap_of_error failed)]

theorem perform_free_of_ok
    (done : factory.free root estate.world = .ok () world) :
    (Request.free factory root).perform stack estate =
      .ok () { estate with world, held := estate.held.erase root } := by
  have attempted : Fallible.attempt (onHeap (factory.free root))
      { estate with held := estate.held.erase root } = .ok (.ok ()) _ :=
    Fallible.attempt_of_ok (onHeap_of_ok done)
  show (Fallible.attempt (onHeap (factory.free root)) >>= _) _ = _
  rw [Fallible.bind_of_ok attempted]
  rfl

/-- A root that could not be given back is gone. -/
theorem perform_free_of_refused
    {error : HeapError}
    (refused : factory.free root estate.world = .error (.refused error) world) :
    (Request.free factory root).perform stack estate =
      .error (.refused error)
        { estate with
          world
          held := estate.held.erase root
          forfeited := root :: estate.forfeited } := by
  have attempted : Fallible.attempt (onHeap (factory.free root))
      { estate with held := estate.held.erase root } = .ok (.error error) _ :=
    Fallible.attempt_of_refused (onHeap_of_error refused)
  show (Fallible.attempt (onHeap (factory.free root)) >>= _) _ = _
  rw [Fallible.bind_of_ok attempted]
  rfl

end Equations

end Estate
end GuardedHeap
