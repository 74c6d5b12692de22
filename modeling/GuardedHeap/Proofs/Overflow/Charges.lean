import GuardedHeap.Proofs.Ledger.Stack
import GuardedHeap.Proofs.Memory.Confined

/-!
# Calls are counted once

The arena counts the ends of regions that are not live, and counted layers count all calls.
Whatever becomes of a call of a stack, it raises the count of the arena and those of the
stack's own layers by at most one, and leaves all other layers alone. So no counter is ever
larger than the number of calls that were made.

These counters are natural numbers, which have no end. A counter that is a word agrees with them
until it has gone around, and by this bound that takes as many calls as there are words.
-/

namespace GuardedHeap

open Fallible (final)

namespace World

/-- A call over layers is counted once by those of them that count, and at most once by the
arena, if it ends a region that is not live. -/
structure Charged (layers : List Nat) (before after : World) : Prop where
  invalidFrees : after.arena.invalidFrees ≤ before.arena.invalidFrees + 1
  own : ∀ layer, (after.callCounts.get layer).calls ≤ (before.callCounts.get layer).calls + 1
  others : ∀ layer ∉ layers, after.callCounts.get layer = before.callCounts.get layer

variable {layers : List Nat}
variable {layer : Nat}
variable {before middle after : World}

namespace Charged

theorem of_none
    (invalidFrees : after.arena.invalidFrees = before.arena.invalidFrees)
    (callCounts : after.callCounts = before.callCounts) :
    Charged layers before after where
  invalidFrees := by omega
  own layer := by
    rw [callCounts]
    exact Nat.le_succ _
  others layer _ := by rw [callCounts]

/-- Only what the arena and the layers count is looked at. -/
theorem of_same
    {earlier : World}
    (charged : Charged layers before middle)
    (arenaBefore : earlier.arena = before.arena)
    (countsBefore : earlier.callCounts = before.callCounts)
    (arena : after.arena = middle.arena)
    (counts : after.callCounts = middle.callCounts) :
    Charged layers earlier after where
  invalidFrees := by
    rw [arenaBefore, arena]
    exact charged.invalidFrees
  own layer := by
    rw [countsBefore, counts]
    exact charged.own layer
  others layer outside := by
    rw [countsBefore, counts]
    exact charged.others layer outside

theorem cons
    (charged : Charged layers before after)
    (layer : Nat) :
    Charged (layer :: layers) before after where
  invalidFrees := charged.invalidFrees
  own := charged.own
  others other outside := charged.others other fun inner => outside (.tail _ inner)

/-- A layer that counts a call is not counted in by the call below. -/
theorem counted
    {counts : CallCounts}
    (charged : Charged layers
      { before with callCounts := before.callCounts.set layer counts } after)
    (distinct : layer ∉ layers)
    (counts_eq : counts.calls = (before.callCounts.get layer).calls + 1) :
    Charged (layer :: layers) before after where
  invalidFrees := charged.invalidFrees
  own other := by
    by_cases same : other = layer
    · subst same
      apply Nat.le_of_eq
      rw [charged.others other distinct, Table.get_set, if_pos rfl, counts_eq]
    · have below := charged.own other
      rwa [Table.get_set, if_neg same] at below
  others other outside := by
    obtain ⟨differs, beyond⟩ := List.ne_and_not_mem_of_not_mem_cons outside
    rw [charged.others other beyond, Table.get_set, if_neg differs]

theorem of_ok
    {α : Type}
    {computation : HeapM α}
    {value : α}
    (charges : ∀ world, Charged layers world (final computation world))
    (ended : computation before = .ok value after) :
    Charged layers before after := by
  have charged := charges before
  rwa [final, ended] at charged

theorem of_error
    {α : Type}
    {computation : HeapM α}
    {failure : Failure HeapError}
    (charges : ∀ world, Charged layers world (final computation world))
    (ended : computation before = .error failure after) :
    Charged layers before after := by
  have charged := charges before
  rwa [final, ended] at charged

end Charged
end World

namespace Store

open World (Charged)

variable {before after : World}

/-- An arena that is asked for a region counts no end of one. -/
theorem charged_of_allocate
    {size : UInt64}
    {answer : Option Address}
    (answered : arena.allocate size before = .ok answer after) :
    Charged [] before after := by
  have outcome := Arena.allocate_outcome before.arena before.memory size
  simp only [allocate, HeapM.onArena] at answered
  generalize before.arena.allocate before.memory size = result at answered outcome
  cases outcome with
  | refused | granted =>
      cases answered
      exact .of_none rfl rfl

theorem charged_of_reallocate
    {address : Address}
    {newSize : UInt64}
    {answer : Option Address}
    (answered : arena.reallocate address newSize before = .ok answer after) :
    Charged [] before after := by
  have outcome := Arena.reallocate_outcome before.arena before.memory address newSize
  simp only [reallocate, HeapM.onArena] at answered
  generalize before.arena.reallocate before.memory address newSize = result at answered outcome
  cases outcome with
  | unknown | refused | moved =>
      cases answered
      exact .of_none rfl rfl

end Store

namespace Allocator

open World (Charged)

/-- All calls of an allocator over layers are counted once. -/
structure Charges (allocator : Allocator) (layers : List Nat) : Prop where
  allocate : ∀ size world, Charged layers world (final (allocator.allocate size) world)
  reallocate : ∀ address newSize world,
    Charged layers world (final (allocator.reallocate address newSize) world)
  free : ∀ address world, Charged layers world (final (allocator.free address) world)

theorem charges_raw : (raw .arena).Charges [] where
  allocate size before := by
    have outcome := Raw.allocate_outcome .arena size before
    show Charged [] before (final (Raw.allocate .arena size) before)
    unfold final
    generalize Raw.allocate .arena size before = result at outcome ⊢
    cases outcome with
    | empty => exact .of_none rfl rfl
    | exhausted nonempty answered => exact Store.charged_of_allocate answered
    | granted events nonempty answered =>
        exact (Store.charged_of_allocate answered).of_same rfl rfl rfl rfl
  reallocate address newSize before := by
    have outcome := Raw.reallocate_outcome .arena address newSize before
    show Charged [] before (final (Raw.reallocate .arena address newSize) before)
    unfold final
    generalize Raw.reallocate .arena address newSize before = result at outcome ⊢
    cases outcome with
    | empty | null => exact .of_none rfl rfl
    | exhausted nonempty notNull answered => exact Store.charged_of_reallocate answered
    | moved events nonempty notNull answered =>
        exact (Store.charged_of_reallocate answered).of_same rfl rfl rfl rfl
  free address before := by
    have outcome := Raw.free_outcome .arena address before
    show Charged [] before (final (Raw.free .arena address) before)
    unfold final
    generalize Raw.free .arena address before = result at outcome ⊢
    cases outcome with
    | null => exact .of_none rfl rfl
    | freed events notNull answered =>
        cases answered
        refine ⟨?_, fun layer => Nat.le_succ _, fun layer _ => rfl⟩
        show (before.arena.free address).invalidFrees ≤ _
        unfold Arena.free
        split
        · exact Nat.le_refl _
        · exact Nat.le_succ _

variable {inner : Allocator}
variable {layers : List Nat}
variable {layer : Nat}

theorem Charges.guarded
    (charges : inner.Charges layers)
    (layer : Nat)
    (owns : Bool) :
    (guarded layer owns inner).Charges (layer :: layers) where
  allocate size before := by
    have outcome := Guarded.allocate_outcome layer inner size before
    show Charged _ before (final (Guarded.allocate layer inner size) before)
    unfold final
    generalize Guarded.allocate layer inner size before = result at outcome ⊢
    cases outcome with
    | empty | oversized => exact .of_none rfl rfl
    | failed nonempty fits below => exact (Charged.of_error (charges.allocate _) below).cons layer
    | granted events nonempty fits below =>
        have charged := (Charged.of_ok (charges.allocate _) below).cons layer
        exact charged.of_same rfl rfl rfl rfl
  reallocate address newSize before := by
    have outcome := Guarded.reallocate_outcome layer inner address newSize before
    show Charged _ before (final (Guarded.reallocate layer inner address newSize) before)
    unfold final
    generalize Guarded.reallocate layer inner address newSize before = result at outcome ⊢
    cases outcome with
    | empty | oversized | outside | unsound => exact .of_none rfl rfl
    | failed nonempty fits around fetched below | broken nonempty fits around fetched below =>
        have charged := (Charged.of_error (charges.reallocate _ _) below).cons layer
        exact charged.of_same rfl rfl rfl rfl
    | moved events nonempty fits around fetched below =>
        have charged := (Charged.of_ok (charges.reallocate _ _) below).cons layer
        exact charged.of_same rfl rfl rfl rfl
  free address before := by
    have outcome := Guarded.free_outcome layer inner address before
    show Charged _ before (final (Guarded.free layer inner address) before)
    unfold final
    generalize Guarded.free layer inner address before = result at outcome ⊢
    cases outcome with
    | outside | unsound => exact .of_none rfl rfl
    | failed around fetched below | broken around fetched below =>
        have charged := (Charged.of_error (charges.free _) below).cons layer
        exact charged.of_same rfl rfl rfl rfl
    | freed events around fetched below =>
        have charged := (Charged.of_ok (charges.free _) below).cons layer
        exact charged.of_same rfl rfl rfl rfl

theorem Charges.registered
    (charges : inner.Charges layers)
    (layer : Nat)
    (owns : Bool) :
    (registered layer owns inner).Charges (layer :: layers) where
  allocate size before := by
    have outcome := Registered.allocate_outcome layer inner size before
    show Charged _ before (final (Registered.allocate layer inner size) before)
    unfold final
    generalize Registered.allocate layer inner size before = result at outcome ⊢
    cases outcome with
    | empty => exact .of_none rfl rfl
    | failed nonempty below => exact (Charged.of_error (charges.allocate _) below).cons layer
    | granted events nonempty below =>
        have charged := (Charged.of_ok (charges.allocate _) below).cons layer
        exact charged.of_same rfl rfl rfl rfl
  reallocate address newSize before := by
    have outcome := Registered.reallocate_outcome layer inner address newSize before
    show Charged _ before (final (Registered.reallocate layer inner address newSize) before)
    unfold final
    generalize Registered.reallocate layer inner address newSize before = result at outcome ⊢
    cases outcome with
    | empty | unknown => exact .of_none rfl rfl
    | failed nonempty held below | broken nonempty held below =>
        have charged := (Charged.of_error (charges.reallocate _ _) below).cons layer
        exact charged.of_same rfl rfl rfl rfl
    | moved events nonempty held below =>
        have charged := (Charged.of_ok (charges.reallocate _ _) below).cons layer
        exact charged.of_same rfl rfl rfl rfl
  free address before := by
    have outcome := Registered.free_outcome layer inner address before
    show Charged _ before (final (Registered.free layer inner address) before)
    unfold final
    generalize Registered.free layer inner address before = result at outcome ⊢
    cases outcome with
    | unknown => exact .of_none rfl rfl
    | failed held below | broken held below =>
        have charged := (Charged.of_error (charges.free _) below).cons layer
        exact charged.of_same rfl rfl rfl rfl
    | freed events held below =>
        have charged := (Charged.of_ok (charges.free _) below).cons layer
        exact charged.of_same rfl rfl rfl rfl

/-- A counted layer counts before it calls the layer below. -/
theorem Charges.counted
    (charges : inner.Charges layers)
    (distinct : layer ∉ layers) :
    (counted layer inner).Charges (layer :: layers) where
  allocate size before := by
    refine Charged.counted (charges.allocate size _) distinct ?_
    simp only [CallCounts.calls]
    omega
  reallocate address newSize before := by
    refine Charged.counted (charges.reallocate address newSize _) distinct ?_
    simp only [CallCounts.calls]
    omega
  free address before := Charged.counted (charges.free address _) distinct rfl

end Allocator

/-- Every stack over the arena is charged by its calls. -/
theorem Stack.charges
    {stack : Stack}
    (overArena : stack.store = .arena)
    (distinct : stack.layers.Nodup) :
    stack.allocator.Charges stack.layers := by
  induction stack with
  | raw store =>
      obtain rfl : store = .arena := overArena
      exact Allocator.charges_raw
  | guarded layer owns inner inductionHypothesis =>
      have inside := (List.nodup_cons.mp distinct).2
      exact (inductionHypothesis overArena inside).guarded layer owns
  | registered layer owns inner inductionHypothesis =>
      have inside := (List.nodup_cons.mp distinct).2
      exact (inductionHypothesis overArena inside).registered layer owns
  | counted layer inner inductionHypothesis =>
      obtain ⟨own, inside⟩ := List.nodup_cons.mp distinct
      exact (inductionHypothesis overArena inside).counted own

end GuardedHeap
