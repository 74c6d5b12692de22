import GuardedHeap.Allocator.Stack
import GuardedHeap.Proofs.Allocator.Guarded
import GuardedHeap.Proofs.Allocator.Raw
import GuardedHeap.Proofs.Allocator.Registered
import GuardedHeap.Proofs.Memory.Confined

/-!
# Spared registries

An allocator spares the registry of a layer if no call to it changes that registry, be the
call answered, refused or broken off. The stores have no registries, and a layer changes none
but its own, so every stack spares the registries of all layers that do not occur in it.
-/

namespace GuardedHeap

open Fallible (final)

/-- A computation after which the registry of a layer is the one from before. -/
def HeapM.SparesRegistry {α : Type} (computation : HeapM α) (layer : Nat) : Prop :=
  ∀ world, (final computation world).registries.get layer = world.registries.get layer

namespace HeapM.SparesRegistry

variable {α : Type}
variable {computation : HeapM α}
variable {layer : Nat}
variable {world after : World}

theorem of_ok
    {value : α}
    (spares : computation.SparesRegistry layer)
    (succeeds : computation world = .ok value after) :
    after.registries.get layer = world.registries.get layer := by
  rw [← spares world, Fallible.final_of_ok succeeds]

theorem of_error
    {failure : Failure HeapError}
    (spares : computation.SparesRegistry layer)
    (fails : computation world = .error failure after) :
    after.registries.get layer = world.registries.get layer := by
  rw [← spares world, Fallible.final_of_error fails]

end HeapM.SparesRegistry

namespace Store

variable (store : Store)
variable (layer : Nat)

theorem sparesRegistry_allocate (size : UInt64) : (store.allocate size).SparesRegistry layer := by
  intro world
  cases store <;> rfl

theorem sparesRegistry_reallocate (address : Address) (newSize : UInt64) :
    (store.reallocate address newSize).SparesRegistry layer := by
  intro world
  cases store <;> rfl

theorem sparesRegistry_free (address : Address) : (store.free address).SparesRegistry layer := by
  intro world
  cases store <;> rfl

end Store

/-- An allocator that spares the registry of a layer in all its calls. -/
structure Allocator.SparesRegistry (allocator : Allocator) (layer : Nat) : Prop where
  allocate : ∀ size, (allocator.allocate size).SparesRegistry layer
  reallocate : ∀ address newSize, (allocator.reallocate address newSize).SparesRegistry layer
  free : ∀ address, (allocator.free address).SparesRegistry layer

namespace World

variable {layer registry : Nat}

theorem get_registries_inserted_of_ne
    (world : World)
    (other : layer ≠ registry)
    (block : Extent) :
    (world.inserted registry block).registries.get layer = world.registries.get layer := by
  rw [get_registries_inserted, if_neg other]

theorem get_registries_erased_of_ne
    (world : World)
    (other : layer ≠ registry)
    (address : Address) :
    (world.erased registry address).registries.get layer = world.registries.get layer := by
  rw [get_registries_erased, if_neg other]

end World

namespace Allocator

variable {inner : Allocator}
variable {layer : Nat}

theorem sparesRegistry_raw (store : Store) (layer : Nat) : (raw store).SparesRegistry layer where
  allocate size world := by
    show (final (Raw.allocate store size) world).registries.get layer = _
    have outcome := Raw.allocate_outcome store size world
    unfold final
    generalize Raw.allocate store size world = result at outcome ⊢
    cases outcome with
    | empty isEmpty => rfl
    | exhausted nonempty answer => exact (store.sparesRegistry_allocate layer size).of_ok answer
    | granted events nonempty answer =>
        have same := (store.sparesRegistry_allocate layer size).of_ok answer
        exact same
  reallocate address newSize world := by
    show (final (Raw.reallocate store address newSize) world).registries.get layer = _
    have below := store.sparesRegistry_reallocate layer address newSize
    have outcome := Raw.reallocate_outcome store address newSize world
    unfold final
    generalize Raw.reallocate store address newSize world = result at outcome ⊢
    cases outcome with
    | empty isEmpty => rfl
    | null nonempty isNull => rfl
    | exhausted nonempty notNull answer => exact below.of_ok answer
    | moved events nonempty notNull answer =>
        have same := below.of_ok answer
        exact same
  free address world := by
    show (final (Raw.free store address) world).registries.get layer = _
    have outcome := Raw.free_outcome store address world
    unfold final
    generalize Raw.free store address world = result at outcome ⊢
    cases outcome with
    | null isNull => rfl
    | freed events notNull answer =>
        have same := (store.sparesRegistry_free layer address).of_ok answer
        exact same

namespace SparesRegistry

/-- Guard words and counters are in no registry. -/
theorem guarded
    (spares : inner.SparesRegistry layer)
    (guard : Nat)
    (owns : Bool) :
    (Allocator.guarded guard owns inner).SparesRegistry layer where
  allocate size world := by
    show (final (Guarded.allocate guard inner size) world).registries.get layer = _
    have outcome := Guarded.allocate_outcome guard inner size world
    unfold final
    generalize Guarded.allocate guard inner size world = result at outcome ⊢
    cases outcome with
    | empty isEmpty => rfl
    | oversized nonempty large => rfl
    | failed nonempty fits below =>
        have same := (spares.allocate _).of_error below
        exact same
    | granted events nonempty fits below =>
        have same := (spares.allocate _).of_ok below
        exact same
  reallocate block newSize world := by
    show (final (Guarded.reallocate guard inner block newSize) world).registries.get layer = _
    have outcome := Guarded.reallocate_outcome guard inner block newSize world
    unfold final
    generalize Guarded.reallocate guard inner block newSize world = result at outcome ⊢
    cases outcome with
    | empty isEmpty => rfl
    | oversized nonempty large => rfl
    | outside nonempty fits nowhere => rfl
    | unsound nonempty fits around fetched => rfl
    | failed nonempty fits around fetched below =>
        have same := (spares.reallocate _ _).of_error below
        exact same
    | broken nonempty fits around fetched below =>
        have same := (spares.reallocate _ _).of_error below
        exact same
    | moved events nonempty fits around fetched below =>
        have same := (spares.reallocate _ _).of_ok below
        exact same
  free block world := by
    show (final (Guarded.free guard inner block) world).registries.get layer = _
    have outcome := Guarded.free_outcome guard inner block world
    unfold final
    generalize Guarded.free guard inner block world = result at outcome ⊢
    cases outcome with
    | outside nowhere => rfl
    | unsound around fetched => rfl
    | failed around fetched below =>
        have same := (spares.free _).of_error below
        exact same
    | broken around fetched below =>
        have same := (spares.free _).of_error below
        exact same
    | freed events around fetched below =>
        have same := (spares.free _).of_ok below
        exact same

/-- A registered layer changes its own registry alone. -/
theorem registered
    {registry : Nat}
    (spares : inner.SparesRegistry layer)
    (other : layer ≠ registry)
    (owns : Bool) :
    (Allocator.registered registry owns inner).SparesRegistry layer where
  allocate size world := by
    show (final (Registered.allocate registry inner size) world).registries.get layer = _
    have outcome := Registered.allocate_outcome registry inner size world
    unfold final
    generalize Registered.allocate registry inner size world = result at outcome ⊢
    cases outcome with
    | empty isEmpty => rfl
    | failed nonempty below => exact (spares.allocate _).of_error below
    | granted events nonempty below =>
        exact (World.get_registries_inserted_of_ne _ other _).trans
          ((spares.allocate _).of_ok below)
  reallocate address newSize world := by
    show (final (Registered.reallocate registry inner address newSize) world).registries.get
      layer = _
    have erased := World.get_registries_erased_of_ne world other address
    have outcome := Registered.reallocate_outcome registry inner address newSize world
    unfold final
    generalize Registered.reallocate registry inner address newSize world = result at outcome ⊢
    cases outcome with
    | empty isEmpty => rfl
    | unknown nonempty absent => rfl
    | failed nonempty held below =>
        exact (World.get_registries_inserted_of_ne _ other _).trans
          (((spares.reallocate _ _).of_error below).trans erased)
    | broken nonempty held below => exact ((spares.reallocate _ _).of_error below).trans erased
    | moved events nonempty held below =>
        exact (World.get_registries_inserted_of_ne _ other _).trans
          (((spares.reallocate _ _).of_ok below).trans erased)
  free address world := by
    show (final (Registered.free registry inner address) world).registries.get layer = _
    have erased := World.get_registries_erased_of_ne world other address
    have outcome := Registered.free_outcome registry inner address world
    unfold final
    generalize Registered.free registry inner address world = result at outcome ⊢
    cases outcome with
    | unknown absent => rfl
    | failed held below =>
        exact (World.get_registries_inserted_of_ne _ other _).trans
          (((spares.free _).of_error below).trans erased)
    | broken held below => exact ((spares.free _).of_error below).trans erased
    | freed events held below => exact ((spares.free _).of_ok below).trans erased

theorem counted
    (spares : inner.SparesRegistry layer)
    (count : Nat) :
    (Allocator.counted count inner).SparesRegistry layer where
  allocate size _ := spares.allocate size _
  reallocate address newSize _ := spares.reallocate address newSize _
  free address _ := spares.free address _

end SparesRegistry
end Allocator

/-- A stack spares the registries of all layers that do not occur in it. -/
theorem Stack.sparesRegistry
    {stack : Stack}
    {layer : Nat}
    (absent : layer ∉ stack.layers) :
    stack.allocator.SparesRegistry layer := by
  induction stack with
  | raw store => exact Allocator.sparesRegistry_raw store layer
  | guarded guard owns inner inductionHypothesis =>
      exact (inductionHypothesis (List.not_mem_of_not_mem_cons absent)).guarded guard owns
  | registered registry owns inner inductionHypothesis =>
      exact (inductionHypothesis (List.not_mem_of_not_mem_cons absent)).registered
        (List.ne_of_not_mem_cons absent) owns
  | counted count inner inductionHypothesis =>
      exact (inductionHypothesis (List.not_mem_of_not_mem_cons absent)).counted count

end GuardedHeap
