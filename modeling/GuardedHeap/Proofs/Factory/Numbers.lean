import GuardedHeap.Allocator.Stack
import GuardedHeap.Factory
import GuardedHeap.Proofs.Allocator.Guarded
import GuardedHeap.Proofs.Allocator.Raw
import GuardedHeap.Proofs.Allocator.Registered
import GuardedHeap.Proofs.Memory.Confined

/-!
# Numbers of factories

The number of the next factory grows when a factory is created and at no other time, so
no two factories get the same one. Here it is shown that no call of a stack and no call
of a factory changes it, however the call ends.

Numbers are natural numbers and never run out. Words would repeat one only after as many
factories as there are words, since each factory takes a single number.
-/

namespace GuardedHeap

open Fallible (final)

namespace HeapM

variable {α : Type}

/-- A computation that creates no factory. -/
def KeepsNumber (computation : HeapM α) : Prop :=
  ∀ world, (final computation world).nextFactory = world.nextFactory

variable {computation : HeapM α}
variable {world before after last : World}

/-- Around a success, nothing may change the number either. -/
theorem KeepsNumber.of_ok
    {value : α}
    (keeps : computation.KeepsNumber)
    (ended : computation before = .ok value after)
    (first : before.nextFactory = world.nextFactory)
    (rest : last.nextFactory = after.nextFactory) :
    last.nextFactory = world.nextFactory := by
  have same := keeps before
  rw [final, ended] at same
  exact rest.trans (same.trans first)

/-- Around a failure, nothing may change the number either. -/
theorem KeepsNumber.of_error
    {failure : Failure HeapError}
    (keeps : computation.KeepsNumber)
    (ended : computation before = .error failure after)
    (first : before.nextFactory = world.nextFactory)
    (rest : last.nextFactory = after.nextFactory) :
    last.nextFactory = world.nextFactory := by
  have same := keeps before
  rw [final, ended] at same
  exact rest.trans (same.trans first)

/-- Two steps that create no factory. -/
theorem KeepsNumber.bind
    {β : Type}
    {next : α → HeapM β}
    (keeps : computation.KeepsNumber)
    (following : ∀ value, (next value).KeepsNumber) :
    (computation >>= next).KeepsNumber := by
  intro world
  rcases Fallible.final_bind computation next world with ended | ⟨value, ended⟩
  · rw [ended]
    exact keeps world
  · rw [ended]
    exact (following value _).trans (keeps world)

theorem keepsNumber_pure (value : α) : (pure value : HeapM α).KeepsNumber :=
  fun _ => rfl

theorem keepsNumber_tell (event : Event) : (tell event).KeepsNumber :=
  fun _ => rfl

theorem keepsNumber_modifyCounts
    (layer : Nat)
    (change : CallCounts → CallCounts) :
    (modifyCounts layer change).KeepsNumber :=
  fun _ => rfl

theorem keepsNumber_ofCheck (check : Except HeapError α) :
    KeepsNumber (Fallible.ofCheck check) := by
  intro world
  cases check <;> rfl

end HeapM

open HeapM (KeepsNumber)

/-- An allocator whose calls create no factory. -/
structure Allocator.KeepsNumber (allocator : Allocator) : Prop where
  allocate : ∀ size, (allocator.allocate size).KeepsNumber
  reallocate : ∀ address newSize, (allocator.reallocate address newSize).KeepsNumber
  free : ∀ address, (allocator.free address).KeepsNumber

namespace Allocator

theorem keepsNumber_raw (store : Store) : (raw store).KeepsNumber where
  allocate size world := by
    have answers : (store.allocate size).KeepsNumber := by cases store <;> exact fun _ => rfl
    have outcome := Raw.allocate_outcome store size world
    show (final (Raw.allocate store size) world).nextFactory = _
    unfold final
    generalize Raw.allocate store size world = result at outcome ⊢
    cases outcome with
    | empty isEmpty => rfl
    | exhausted nonempty answer => exact answers.of_ok answer rfl rfl
    | granted events nonempty answer => exact answers.of_ok answer rfl rfl
  reallocate address newSize world := by
    have answers : (store.reallocate address newSize).KeepsNumber := by
      cases store <;> exact fun _ => rfl
    have outcome := Raw.reallocate_outcome store address newSize world
    show (final (Raw.reallocate store address newSize) world).nextFactory = _
    unfold final
    generalize Raw.reallocate store address newSize world = result at outcome ⊢
    cases outcome with
    | empty isEmpty => rfl
    | null nonempty isNull => rfl
    | exhausted nonempty notNull answer => exact answers.of_ok answer rfl rfl
    | moved events nonempty notNull answer => exact answers.of_ok answer rfl rfl
  free address world := by
    have answers : (store.free address).KeepsNumber := by cases store <;> exact fun _ => rfl
    have outcome := Raw.free_outcome store address world
    show (final (Raw.free store address) world).nextFactory = _
    unfold final
    generalize Raw.free store address world = result at outcome ⊢
    cases outcome with
    | null isNull => rfl
    | freed events notNull answer => exact answers.of_ok answer rfl rfl

variable {inner : Allocator}

theorem KeepsNumber.guarded
    (keeps : inner.KeepsNumber)
    (layer : Nat)
    (owns : Bool) :
    (guarded layer owns inner).KeepsNumber where
  allocate size world := by
    have outcome := Guarded.allocate_outcome layer inner size world
    show (final (Guarded.allocate layer inner size) world).nextFactory = _
    unfold final
    generalize Guarded.allocate layer inner size world = result at outcome ⊢
    cases outcome with
    | empty isEmpty => rfl
    | oversized nonempty large => rfl
    | failed nonempty fits below => exact (keeps.allocate _).of_error below rfl rfl
    | granted events nonempty fits below => exact (keeps.allocate _).of_ok below rfl rfl
  reallocate block newSize world := by
    have outcome := Guarded.reallocate_outcome layer inner block newSize world
    show (final (Guarded.reallocate layer inner block newSize) world).nextFactory = _
    unfold final
    generalize Guarded.reallocate layer inner block newSize world = result at outcome ⊢
    cases outcome with
    | empty isEmpty => rfl
    | oversized nonempty large => rfl
    | outside nonempty fits nowhere => rfl
    | unsound nonempty fits around fetched => rfl
    | failed nonempty fits around fetched below | broken nonempty fits around fetched below =>
        exact (keeps.reallocate _ _).of_error below rfl rfl
    | moved events nonempty fits around fetched below =>
        exact (keeps.reallocate _ _).of_ok below rfl rfl
  free block world := by
    have outcome := Guarded.free_outcome layer inner block world
    show (final (Guarded.free layer inner block) world).nextFactory = _
    unfold final
    generalize Guarded.free layer inner block world = result at outcome ⊢
    cases outcome with
    | outside nowhere => rfl
    | unsound around fetched => rfl
    | failed around fetched below | broken around fetched below =>
        exact (keeps.free _).of_error below rfl rfl
    | freed events around fetched below => exact (keeps.free _).of_ok below rfl rfl

theorem KeepsNumber.registered
    (keeps : inner.KeepsNumber)
    (layer : Nat)
    (owns : Bool) :
    (registered layer owns inner).KeepsNumber where
  allocate size world := by
    have outcome := Registered.allocate_outcome layer inner size world
    show (final (Registered.allocate layer inner size) world).nextFactory = _
    unfold final
    generalize Registered.allocate layer inner size world = result at outcome ⊢
    cases outcome with
    | empty isEmpty => rfl
    | failed nonempty below => exact (keeps.allocate _).of_error below rfl rfl
    | granted events nonempty below => exact (keeps.allocate _).of_ok below rfl rfl
  reallocate address newSize world := by
    have outcome := Registered.reallocate_outcome layer inner address newSize world
    show (final (Registered.reallocate layer inner address newSize) world).nextFactory = _
    unfold final
    generalize Registered.reallocate layer inner address newSize world = result at outcome ⊢
    cases outcome with
    | empty isEmpty => rfl
    | unknown nonempty absent => rfl
    | failed nonempty held below | broken nonempty held below =>
        exact (keeps.reallocate _ _).of_error below rfl rfl
    | moved events nonempty held below => exact (keeps.reallocate _ _).of_ok below rfl rfl
  free address world := by
    have outcome := Registered.free_outcome layer inner address world
    show (final (Registered.free layer inner address) world).nextFactory = _
    unfold final
    generalize Registered.free layer inner address world = result at outcome ⊢
    cases outcome with
    | unknown absent => rfl
    | failed held below | broken held below => exact (keeps.free _).of_error below rfl rfl
    | freed events held below => exact (keeps.free _).of_ok below rfl rfl

theorem KeepsNumber.counted
    (keeps : inner.KeepsNumber)
    (layer : Nat) :
    (counted layer inner).KeepsNumber where
  allocate size :=
    (HeapM.keepsNumber_modifyCounts layer _).bind fun _ => keeps.allocate size
  reallocate address newSize :=
    (HeapM.keepsNumber_modifyCounts layer _).bind fun _ => keeps.reallocate address newSize
  free address :=
    (HeapM.keepsNumber_modifyCounts layer _).bind fun _ => keeps.free address

end Allocator

/-- No call of a stack creates a factory. -/
theorem Stack.keepsNumber (stack : Stack) : stack.allocator.KeepsNumber := by
  induction stack with
  | raw store => exact Allocator.keepsNumber_raw store
  | guarded layer owns inner inductionHypothesis => exact inductionHypothesis.guarded layer owns
  | registered layer owns inner inductionHypothesis =>
      exact inductionHypothesis.registered layer owns
  | counted layer inner inductionHypothesis => exact inductionHypothesis.counted layer

namespace Factory

variable {factory : Factory}

theorem keepsNumber_allocate
    (keeps : factory.allocator.KeepsNumber)
    (size : UInt64) :
    (factory.allocate size).KeepsNumber :=
  (keeps.allocate size).bind fun _ =>
    (HeapM.keepsNumber_tell _).bind fun _ => HeapM.keepsNumber_pure _

theorem keepsNumber_reallocate
    (keeps : factory.allocator.KeepsNumber)
    (root : Root)
    (newSize : UInt64) :
    (factory.reallocate root newSize).KeepsNumber :=
  (HeapM.keepsNumber_ofCheck _).bind fun _ =>
    (keeps.reallocate root.extent.address newSize).bind fun _ =>
      (HeapM.keepsNumber_tell _).bind fun _ => HeapM.keepsNumber_pure _

theorem keepsNumber_free
    (keeps : factory.allocator.KeepsNumber)
    (root : Root) :
    (factory.free root).KeepsNumber :=
  (HeapM.keepsNumber_ofCheck _).bind fun _ =>
    (keeps.free root.extent.address).bind fun _ => HeapM.keepsNumber_tell _

end Factory
end GuardedHeap
