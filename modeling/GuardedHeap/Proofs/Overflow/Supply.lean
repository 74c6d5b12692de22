import GuardedHeap.Proofs.Overflow.Backing

/-!
# What calls take from the arena

A call that hands out a block uses up at least as many bytes of the arena as the block has,
whichever layers lie in between, and puts it into registries of its own layers alone. So
every registry stays backed by the used part of the arena: those of the stack because the
block adds no more to their sums than to the used part, and all others because that part
does not shrink. A call that fails changes neither.
-/

namespace GuardedHeap

namespace World

/-- All registries are backed by the used part of an arena whose books are balanced. -/
structure Backed (world : World) : Prop where
  registries : ∀ layer, (world.registries.get layer).Backed world.arena.next.toNat
  arena : world.arena.Balanced

/-- A world comes out of another one by a call over layers that hands out a block of a size:
both are backed, the used part of the arena grows by at least this size, and no registry of
other layers changes. -/
structure Supplied (layers : List Nat) (size : Nat) (before after : World) : Prop where
  backed : after.Backed
  used : before.arena.next.toNat + size ≤ after.arena.next.toNat
  others : ∀ layer ∉ layers, after.registries.get layer = before.registries.get layer

variable {world before after middle : World}
variable {layers : List Nat}
variable {layer : Nat}

namespace Backed

/-- What no registry finds otherwise and the arena does not book is not looked at. -/
theorem of_unchanged
    (backed : world.Backed)
    (unchanged : world.Unchanged after) :
    after.Backed where
  registries layer := by
    have next : after.arena.next = world.arena.next := by
      rw [← unchanged.arena]
    rw [next]
    exact (backed.registries layer).congr (unchanged.registries layer)
  arena := backed.arena.of_credit unchanged.arena

theorem of_same
    (backed : world.Backed)
    (arena : after.arena = world.arena)
    (registries : after.registries = world.registries) :
    after.Backed where
  registries layer := by
    rw [registries, arena]
    exact backed.registries layer
  arena := arena ▸ backed.arena

/-- A registry may be replaced by one that is backed as well. -/
theorem set_registry
    {registry : Registry}
    (backed : world.Backed)
    (newBacked : registry.Backed world.arena.next.toNat)
    (layer : Nat) :
    Backed { world with registries := world.registries.set layer registry } where
  registries index := by
    show Registry.Backed ((world.registries.set layer registry).get index) _
    rw [Table.get_set]
    split
    · exact newBacked
    · exact backed.registries index
  arena := backed.arena

theorem erased
    (backed : world.Backed)
    (layer : Nat)
    (address : Address) :
    (world.erased layer address).Backed :=
  backed.set_registry ((backed.registries layer).erase address) layer

theorem cleared
    (backed : world.Backed)
    (region : Address)
    (size : UInt64) :
    (world.cleared region size).Backed :=
  backed.of_same rfl rfl

end Backed

namespace Supplied

/-- Memory, tallies, counts of calls and events are not looked at. -/
theorem of_same
    {size : Nat}
    {earlier : World}
    (supplied : Supplied layers size before middle)
    (arenaBefore : earlier.arena = before.arena)
    (registriesBefore : earlier.registries = before.registries)
    (arena : after.arena = middle.arena)
    (registries : after.registries = middle.registries) :
    Supplied layers size earlier after where
  backed := supplied.backed.of_same arena registries
  used := by
    rw [arenaBefore, arena]
    exact supplied.used
  others layer outside := by
    rw [registries, registriesBefore]
    exact supplied.others layer outside

/-- A layer around others may change everything but the arena and the registries. -/
theorem cons
    {size less : Nat}
    (supplied : Supplied layers size before after)
    (ordered : less ≤ size)
    (layer : Nat) :
    Supplied (layer :: layers) less before after where
  backed := supplied.backed
  used := Nat.le_trans (Nat.add_le_add_left ordered _) supplied.used
  others other outside := supplied.others other fun inner => outside (.tail _ inner)

/-- The block that was handed out enters a registry above. -/
theorem insert
    {size : UInt64}
    (supplied : Supplied layers size.toNat before after)
    (own : layer ∉ layers)
    (backed : (before.registries.get layer).Backed before.arena.next.toNat)
    (nonempty : size ≠ 0)
    (address : Address) :
    Supplied (layer :: layers) size.toNat before (after.inserted layer ⟨address, size⟩) where
  backed := by
    refine supplied.backed.set_registry ?_ layer
    rw [supplied.others layer own]
    exact (backed.insert nonempty address).mono supplied.used
  used := supplied.used
  others other outside := by
    obtain ⟨differs, beyond⟩ := List.ne_and_not_mem_of_not_mem_cons outside
    rw [get_registries_inserted, if_neg differs]
    exact supplied.others other beyond

/-- What a layer takes out of its registry before it calls the one below is its own affair. -/
theorem of_erased
    {size : Nat}
    {address : Address}
    (supplied : Supplied (layer :: layers) size (world.erased layer address) after) :
    Supplied (layer :: layers) size world after where
  backed := supplied.backed
  used := supplied.used
  others other outside := by
    have differs := (List.ne_and_not_mem_of_not_mem_cons outside).1
    rw [supplied.others other outside, get_registries_erased, if_neg differs]

end Supplied
end World

namespace Allocator

open World (Backed Supplied)

/-- All calls of an allocator over layers that succeed supply a block, or end one. -/
structure Supplies (allocator : Allocator) (layers : List Nat) : Prop where
  allocate : ∀ {size before address after}, before.Backed →
    allocator.allocate size before = .ok address after →
    Supplied layers size.toNat before after
  reallocate : ∀ {address newSize before newAddress after}, before.Backed →
    allocator.reallocate address newSize before = .ok newAddress after →
    Supplied layers newSize.toNat before after
  free : ∀ {address before after}, before.Backed →
    allocator.free address before = .ok () after →
    Supplied layers 0 before after

/-- An arena that has set a region apart has used up at least its bytes. -/
theorem supplied_of_reserved
    {world : World}
    {arena : Arena}
    {size next : UInt64}
    (backed : world.Backed)
    (room : world.arena.nextAfter? size = some next)
    (balanced : arena.Balanced)
    (next_eq : arena.next = next)
    (memory : Memory)
    (events : Array Event) :
    Supplied [] size.toNat world { world with arena, memory, events } := by
  have behind := (Arena.nextAfter?_eq_some backed.arena.small room).2
  rw [← next_eq] at behind
  exact
    { backed :=
        { registries := fun layer =>
            (backed.registries layer).mono (Nat.le_trans (Nat.le_add_right _ _) behind)
          arena := balanced }
      used := behind
      others := fun _ _ => rfl }

theorem supplies_raw : (raw .arena).Supplies [] where
  allocate {size before address after} backed granted := by
    have granted : Raw.allocate .arena size before = .ok address after := granted
    cases Raw.granted_of_allocate granted with
    | of_room credit events nonempty room =>
        exact supplied_of_reserved backed room
          (backed.arena.reserve nonempty room credit) rfl _ events
  reallocate {address newSize before newAddress after} backed moved := by
    have moved : Raw.reallocate .arena address newSize before = .ok newAddress after := moved
    cases Raw.moved_of_reallocate moved with
    | of_room credit events nonempty live room =>
        exact supplied_of_reserved backed room
          ((backed.arena.reserve nonempty room credit).erase address) rfl _ events
  free {address before after} backed freed := by
    have outcome := Raw.free_outcome .arena address before
    rw [show Raw.free .arena address before = .ok () after from freed] at outcome
    cases outcome with
    | freed events notNull answer =>
        cases answer
        have same : (before.arena.free address).next = before.arena.next := by
          unfold Arena.free
          split <;> rfl
        exact
          { backed :=
              { registries := fun layer => by
                  show Registry.Backed _ (before.arena.free address).next.toNat
                  rw [same]
                  exact backed.registries layer
                arena := backed.arena.free address }
            used := Nat.le_of_eq (congrArg UInt64.toNat same.symm)
            others := fun _ _ => rfl }

variable {inner : Allocator}
variable {layers : List Nat}
variable {layer : Nat}

/-- A region has more bytes than the block in it, and guard words are in no books. -/
theorem Supplies.guarded
    (supplies : inner.Supplies layers)
    (layer : Nat)
    (owns : Bool) :
    (guarded layer owns inner).Supplies (layer :: layers) where
  allocate {size before address after} backed granted := by
    have outcome := Guarded.allocate_outcome layer inner size before
    rw [show Guarded.allocate layer inner size before = .ok address after from granted]
      at outcome
    cases outcome with
    | granted events nonempty fits below =>
        have region := fits.toNat_add
        have ordered : size.toNat ≤ (size + 24).toNat := by omega
        have supplied := (supplies.allocate backed below).cons ordered layer
        exact supplied.of_same rfl rfl rfl rfl
  reallocate {address newSize before newAddress after} backed moved := by
    have outcome := Guarded.reallocate_outcome layer inner address newSize before
    rw [show Guarded.reallocate layer inner address newSize before = .ok newAddress after
      from moved] at outcome
    cases outcome with
    | moved events nonempty fits around fetched below =>
        have region := fits.toNat_add
        have ordered : newSize.toNat ≤ (newSize + 24).toNat := by omega
        have supplied := (supplies.reallocate (backed.cleared _ _) below).cons ordered layer
        exact supplied.of_same rfl rfl rfl rfl
  free {address before after} backed freed := by
    have outcome := Guarded.free_outcome layer inner address before
    rw [show Guarded.free layer inner address before = .ok () after from freed] at outcome
    cases outcome with
    | freed events around fetched below =>
        have supplied := (supplies.free (backed.cleared _ _) below).cons (Nat.le_refl 0) layer
        exact supplied.of_same rfl rfl rfl rfl

/-- A registry takes in what was supplied below. -/
theorem Supplies.registered
    (supplies : inner.Supplies layers)
    (own : layer ∉ layers)
    (owns : Bool) :
    (registered layer owns inner).Supplies (layer :: layers) where
  allocate {size before address after} backed granted := by
    have outcome := Registered.allocate_outcome layer inner size before
    rw [show Registered.allocate layer inner size before = .ok address after from granted]
      at outcome
    cases outcome with
    | granted events nonempty below =>
        have supplied := (supplies.allocate backed below).insert own
          (backed.registries layer) nonempty address
        exact supplied.of_same rfl rfl rfl rfl
  reallocate {address newSize before newAddress after} backed moved := by
    have outcome := Registered.reallocate_outcome layer inner address newSize before
    rw [show Registered.reallocate layer inner address newSize before = .ok newAddress after
      from moved] at outcome
    cases outcome with
    | moved events nonempty held below =>
        have erased := backed.erased layer address
        have supplied := ((supplies.reallocate erased below).insert own
          (erased.registries layer) nonempty newAddress).of_erased
        exact supplied.of_same rfl rfl rfl rfl
  free {address before after} backed freed := by
    have outcome := Registered.free_outcome layer inner address before
    rw [show Registered.free layer inner address before = .ok () after from freed] at outcome
    cases outcome with
    | freed events held below =>
        have erased := backed.erased layer address
        have supplied := ((supplies.free erased below).cons (Nat.le_refl 0) layer).of_erased
        exact supplied.of_same rfl rfl rfl rfl

theorem Supplies.counted
    (supplies : inner.Supplies layers)
    (layer : Nat) :
    (counted layer inner).Supplies (layer :: layers) where
  allocate {size before address after} backed granted := by
    let counts := before.callCounts.get layer
    let counted : World := { before with
      callCounts := before.callCounts.set layer
        { counts with allocations := counts.allocations + 1 } }
    have below : inner.allocate size counted = .ok address after := granted
    have countedBacked : counted.Backed := backed.of_same rfl rfl
    have supplied := (supplies.allocate countedBacked below).cons (Nat.le_refl _) layer
    exact supplied.of_same rfl rfl rfl rfl
  reallocate {address newSize before newAddress after} backed moved := by
    let counts := before.callCounts.get layer
    let counted : World := { before with
      callCounts := before.callCounts.set layer
        { counts with reallocations := counts.reallocations + 1 } }
    have below : inner.reallocate address newSize counted = .ok newAddress after := moved
    have countedBacked : counted.Backed := backed.of_same rfl rfl
    have supplied := (supplies.reallocate countedBacked below).cons (Nat.le_refl _) layer
    exact supplied.of_same rfl rfl rfl rfl
  free {address before after} backed freed := by
    let counts := before.callCounts.get layer
    let counted : World := { before with
      callCounts := before.callCounts.set layer { counts with frees := counts.frees + 1 } }
    have below : inner.free address counted = .ok () after := freed
    have countedBacked : counted.Backed := backed.of_same rfl rfl
    have supplied := (supplies.free countedBacked below).cons (Nat.le_refl _) layer
    exact supplied.of_same rfl rfl rfl rfl

end Allocator

/-- Every stack over the arena takes from it what it hands out. -/
theorem Stack.supplies
    {stack : Stack}
    (overArena : stack.store = .arena)
    (distinct : stack.layers.Nodup) :
    stack.allocator.Supplies stack.layers := by
  induction stack with
  | raw store =>
      obtain rfl : store = .arena := overArena
      exact Allocator.supplies_raw
  | guarded layer owns inner inductionHypothesis =>
      have inside := (List.nodup_cons.mp distinct).2
      exact (inductionHypothesis overArena inside).guarded layer owns
  | registered layer owns inner inductionHypothesis =>
      obtain ⟨own, inside⟩ := List.nodup_cons.mp distinct
      exact (inductionHypothesis overArena inside).registered own owns
  | counted layer inner inductionHypothesis =>
      have inside := (List.nodup_cons.mp distinct).2
      exact (inductionHypothesis overArena inside).counted layer

end GuardedHeap
