import GuardedHeap.Proofs.Ledger.Guarded
import GuardedHeap.Proofs.Ledger.Raw
import GuardedHeap.Proofs.Ledger.Registered

/-!
# Books of a stack

The books of a stack are those of all its layers, each about the blocks that it
sees. A stack over an arena whose layers are all different keeps books.
-/

namespace GuardedHeap

namespace Counted

variable {inner : Allocator}
variable {layers : List Nat}
variable {range : Extent}
variable {Inner : World → List Extent → Prop}
variable {blocks : List Extent}

/-- Counting a call disturbs nothing. -/
theorem undisturbed_callCounts
    (world : World)
    (callCounts : Table CallCounts) :
    World.Undisturbed layers blocks world { world with callCounts } where
  memory _ _ := rfl
  registries _ _ _ := rfl
  tallies _ _ := rfl
  arena := rfl

/-- Other states are spared by a call if they are after it was counted. -/
theorem spares_of_callCounts
    {world after : World}
    {callCounts : Table CallCounts}
    (spares : World.Spares layers blocks { world with callCounts } after) :
    World.Spares layers blocks world after where
  memory := spares.memory
  registries := spares.registries
  tallies := spares.tallies

theorem keeps
    (keeps : inner.Keeps layers range Inner)
    (layer : Nat) :
    (Allocator.counted layer inner).Keeps (layer :: layers) range Inner where
  perm books same := keeps.perm books same
  undisturbed books undisturbed := keeps.undisturbed books undisturbed.of_cons
  placed books := keeps.placed books
  allocate {world after blocks size address} books granted := by
    obtain ⟨innerAfter, spares⟩ :=
      keeps.allocate (keeps.undisturbed books (undisturbed_callCounts world _)) granted
    exact ⟨innerAfter, (spares_of_callCounts spares).cons layer⟩
  reallocate {world after block rest newSize newAddress} books moved := by
    obtain ⟨innerAfter, spares, carries⟩ :=
      keeps.reallocate (keeps.undisturbed books (undisturbed_callCounts world _)) moved
    exact ⟨innerAfter, (spares_of_callCounts spares).cons layer, carries⟩
  free {world block rest} books := by
    obtain ⟨after, freed, innerAfter, spares⟩ :=
      keeps.free (keeps.undisturbed books (undisturbed_callCounts world _))
    exact ⟨after, freed, innerAfter, (spares_of_callCounts spares).cons layer⟩

end Counted

namespace Stack

/-- The store at the bottom of a stack. -/
def store : Stack → Store
  | .raw store => store
  | .guarded _ _ inner => inner.store
  | .registered _ _ inner => inner.store
  | .counted _ inner => inner.store

/-- The books of all layers of a stack over an arena in a range. -/
def Books (range : Extent) : Stack → World → List Extent → Prop
  | .raw _ => Raw.Books range
  | .guarded layer _ inner => Guarded.Books layer (inner.Books range)
  | .registered layer _ inner => Registered.Books layer (inner.Books range)
  | .counted _ inner => inner.Books range

/-- A stack over an arena keeps books if no layer occurs in it twice. -/
theorem keeps
    {stack : Stack}
    (range : Extent)
    (overArena : stack.store = .arena)
    (distinct : stack.layers.Nodup) :
    stack.allocator.Keeps stack.layers range (stack.Books range) := by
  induction stack with
  | raw store =>
      cases overArena
      exact Raw.keeps range
  | guarded layer owns inner inductionHypothesis =>
      obtain ⟨own, distinct⟩ := List.nodup_cons.mp distinct
      exact Guarded.keeps (inductionHypothesis overArena distinct) own owns
  | registered layer owns inner inductionHypothesis =>
      obtain ⟨own, distinct⟩ := List.nodup_cons.mp distinct
      exact Registered.keeps (inductionHypothesis overArena distinct) own owns
  | counted layer inner inductionHypothesis =>
      obtain ⟨_, distinct⟩ := List.nodup_cons.mp distinct
      exact Counted.keeps (inductionHypothesis overArena distinct) layer

end Stack
end GuardedHeap
