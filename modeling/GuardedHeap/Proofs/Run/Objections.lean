import GuardedHeap.Proofs.Run.InStep

/-!
# Objections

A call to move or to end a block goes down a stack until a layer objects, and the objection comes
back through the layers above as it is. It names the address with which the layer that objects
was called. A guarded layer calls the one below it for the region around a block, which starts
sixteen bytes before the block. So what the caller is told is the address that it passed, less
sixteen bytes for each guarded layer above the one that objects: it is the address that was
passed only if there is none.

A store objects to nothing but the null address. In a stack whose registries all lie above its
one guarded layer, the caller is therefore told the address that it passed.
-/

namespace GuardedHeap

/-- The address that a call is about, unless the call asks for a new block. -/
def Allocator.Call.address? : Allocator.Call → Option Address
  | .allocate _ => none
  | .reallocate address _ => some address
  | .free address => some address

namespace Guard

/-- What guard words tell against a block names the block. -/
theorem address?_of_fetch
    {memory : Memory}
    {region : Address}
    {error : HeapError}
    (fetched : fetch memory region = .error (.refused error)) :
    error.address? = some (blockOf region) := by
  have finding := fetch_finding memory region
  rw [fetched] at finding
  cases finding <;> rfl

end Guard

namespace Stack

/-- Nothing but counted layers above a store. -/
def Bare : Stack → Prop
  | .raw _ => True
  | .counted _ inner => inner.Bare
  | .guarded .. | .registered .. => False

/-- A guarded layer, if there is one, has nothing but counted layers between it and the store. -/
def GuardsStore : Stack → Prop
  | .raw _ => True
  | .guarded _ _ inner => inner.Bare
  | .registered _ _ inner => inner.GuardsStore
  | .counted _ inner => inner.GuardsStore

/-- What a layer of a stack objects to an address, and how many guarded layers lie above that
layer. A layer is asked after those above it have done what they do before they call it. -/
inductive Objects : Stack → World → Address → HeapError → Nat → Prop
  | null
      {store : Store}
      {world : World} :
      Objects (.raw store) world .null (.unknownAddress .null) 0
  | outside
      {layer : Nat}
      {owns : Bool}
      {inner : Stack}
      {world : World}
      {address : Address}
      (nowhere : Guard.regionOf? address = none) :
      Objects (.guarded layer owns inner) world address (.unknownAddress address) 0
  | unsound
      {layer : Nat}
      {owns : Bool}
      {inner : Stack}
      {world : World}
      {address region : Address}
      {error : HeapError}
      (around : Guard.regionOf? address = some region)
      (fetched : Guard.fetch world.memory region = .error (.refused error)) :
      Objects (.guarded layer owns inner) world address error 0
  | underGuard
      {layer : Nat}
      {owns : Bool}
      {inner : Stack}
      {world : World}
      {address region : Address}
      {size : UInt64}
      {error : HeapError}
      {depth : Nat}
      (around : Guard.regionOf? address = some region)
      (fetched : Guard.fetch world.memory region = .ok size)
      (below : Objects inner (world.cleared region size) region error depth) :
      Objects (.guarded layer owns inner) world address error (depth + 1)
  | unknown
      {layer : Nat}
      {owns : Bool}
      {inner : Stack}
      {world : World}
      {address : Address}
      (absent : (world.registries.get layer).find? address = none) :
      Objects (.registered layer owns inner) world address (.unknownAddress address) 0
  | underRegistry
      {layer : Nat}
      {owns : Bool}
      {inner : Stack}
      {world : World}
      {address : Address}
      {size : UInt64}
      {error : HeapError}
      {depth : Nat}
      (held : (world.registries.get layer).find? address = some size)
      (below : Objects inner (world.erased layer address) address error depth) :
      Objects (.registered layer owns inner) world address error depth
  | underCount
      {layer : Nat}
      {inner : Stack}
      {world : World}
      {callCounts : Table CallCounts}
      {address : Address}
      {error : HeapError}
      {depth : Nat}
      (below : Objects inner { world with callCounts } address error depth) :
      Objects (.counted layer inner) world address error depth

namespace Objects

variable {stack : Stack}
variable {world after : World}
variable {address named : Address}
variable {newSize : UInt64}
variable {error : HeapError}
variable {depth : Nat}

/-- An objection names the address with which the layer was called. -/
theorem names (objects : Objects stack world address error depth) :
    ∃ named, error.address? = some named ∧
      named.value.toNat + 16 * depth = address.value.toNat := by
  induction objects with
  | null => exact ⟨_, rfl, rfl⟩
  | outside nowhere => exact ⟨_, rfl, rfl⟩
  | unsound around fetched =>
      refine ⟨_, Guard.address?_of_fetch fetched, ?_⟩
      rw [(Guard.toNat_of_regionOf?_eq_some around).2]
      rfl
  | underGuard around _ _ inductionHypothesis =>
      obtain ⟨named, names, exact⟩ := inductionHypothesis
      have before := (Guard.toNat_of_regionOf?_eq_some around).1
      exact ⟨named, names, by omega⟩
  | unknown absent => exact ⟨_, rfl, rfl⟩
  | underRegistry _ _ inductionHypothesis => exact inductionHypothesis
  | underCount _ inductionHypothesis => exact inductionHypothesis

theorem depth_le (objects : Objects stack world address error depth) :
    depth ≤ stack.depth := by
  induction objects with
  | null => exact Nat.le_refl _
  | outside nowhere => exact Nat.zero_le _
  | unsound around fetched => exact Nat.zero_le _
  | underGuard _ _ _ inductionHypothesis => exact Nat.succ_le_succ inductionHypothesis
  | unknown absent => exact Nat.zero_le _
  | underRegistry _ _ inductionHypothesis => exact inductionHypothesis
  | underCount _ inductionHypothesis => exact inductionHypothesis

/-- A store objects to the null address only. -/
theorem of_bare
    (objects : Objects stack world address error depth)
    (bare : stack.Bare) :
    address.value.toNat = 0 ∧ depth = 0 := by
  induction objects with
  | null => exact ⟨rfl, rfl⟩
  | underCount _ inductionHypothesis => exact inductionHypothesis bare
  | outside nowhere => cases bare
  | unsound around fetched => cases bare
  | underGuard _ _ _ _ => cases bare
  | unknown absent => cases bare
  | underRegistry _ _ _ => cases bare

/-- Where nothing but a store lies under a guarded layer, only the region at the null address
meets an objection there. -/
theorem of_guardsStore
    (objects : Objects stack world address error depth)
    (guardsStore : stack.GuardsStore) :
    depth = 0 ∨ address.value.toNat = 16 * depth := by
  induction objects with
  | null => exact .inl rfl
  | outside nowhere => exact .inl rfl
  | unsound around fetched => exact .inl rfl
  | underGuard around _ below _ =>
      obtain ⟨isNull, rfl⟩ := below.of_bare guardsStore
      have before := (Guard.toNat_of_regionOf?_eq_some around).1
      exact .inr (by omega)
  | unknown absent => exact .inl rfl
  | underRegistry _ _ inductionHypothesis => exact inductionHypothesis guardsStore
  | underCount _ inductionHypothesis => exact inductionHypothesis guardsStore

/-! ### Calls -/

/-- A block is not ended only because a layer objects. -/
theorem of_free
    (refused : stack.allocator.free address world = .error (.refused error) after) :
    ∃ depth, Objects stack world address error depth := by
  induction stack generalizing world after address with
  | raw store =>
      have outcome := Raw.free_outcome store address world
      rw [show Raw.free store address world = _ from refused] at outcome
      cases outcome with
      | null isNull =>
          subst isNull
          exact ⟨_, .null⟩
  | guarded layer owns inner inductionHypothesis =>
      have outcome := Guarded.free_outcome layer inner.allocator address world
      rw [show Guarded.free layer inner.allocator address world = _ from refused] at outcome
      cases outcome with
      | outside nowhere => exact ⟨_, .outside nowhere⟩
      | unsound around fetched => exact ⟨_, .unsound around fetched⟩
      | failed around fetched below =>
          obtain ⟨depth, objects⟩ := inductionHypothesis below
          exact ⟨_, .underGuard around fetched objects⟩
  | registered layer owns inner inductionHypothesis =>
      have outcome := Registered.free_outcome layer inner.allocator address world
      rw [show Registered.free layer inner.allocator address world = _ from refused] at outcome
      cases outcome with
      | unknown absent => exact ⟨_, .unknown absent⟩
      | failed held below =>
          obtain ⟨depth, objects⟩ := inductionHypothesis below
          exact ⟨_, .underRegistry held objects⟩
  | counted layer inner inductionHypothesis =>
      obtain ⟨depth, objects⟩ := inductionHypothesis
        (show inner.allocator.free address { world with callCounts := _ } = _ from refused)
      exact ⟨_, .underCount objects⟩

/-- A block is not moved because a layer objects, or for a cause that names no address. -/
theorem of_reallocate
    (refused : stack.allocator.reallocate address newSize world = .error (.refused error) after)
    (names : error.address? = some named) :
    ∃ depth, Objects stack world address error depth := by
  induction stack generalizing world after address newSize with
  | raw store =>
      have outcome := Raw.reallocate_outcome store address newSize world
      rw [show Raw.reallocate store address newSize world = _ from refused] at outcome
      cases outcome with
      | empty isEmpty => cases names
      | null nonempty isNull =>
          subst isNull
          exact ⟨_, .null⟩
      | exhausted nonempty notNull answer => cases names
  | guarded layer owns inner inductionHypothesis =>
      have outcome := Guarded.reallocate_outcome layer inner.allocator address newSize world
      rw [show Guarded.reallocate layer inner.allocator address newSize world = _
        from refused] at outcome
      cases outcome with
      | empty isEmpty => cases names
      | oversized nonempty large => cases names
      | outside nonempty fits nowhere => exact ⟨_, .outside nowhere⟩
      | unsound nonempty fits around fetched => exact ⟨_, .unsound around fetched⟩
      | failed nonempty fits around fetched below =>
          obtain ⟨depth, objects⟩ := inductionHypothesis below
          exact ⟨_, .underGuard around fetched objects⟩
  | registered layer owns inner inductionHypothesis =>
      have outcome := Registered.reallocate_outcome layer inner.allocator address newSize world
      rw [show Registered.reallocate layer inner.allocator address newSize world = _
        from refused] at outcome
      cases outcome with
      | empty isEmpty => cases names
      | unknown nonempty absent => exact ⟨_, .unknown absent⟩
      | failed nonempty held below =>
          obtain ⟨depth, objects⟩ := inductionHypothesis below
          exact ⟨_, .underRegistry held objects⟩
  | counted layer inner inductionHypothesis =>
      obtain ⟨depth, objects⟩ := inductionHypothesis
        (show inner.allocator.reallocate address newSize { world with callCounts := _ } = _
          from refused)
      exact ⟨_, .underCount objects⟩

/-- What a layer objects to an address is the answer when the block there is to be ended. -/
theorem free
    (objects : Objects stack world address error depth)
    {other : World}
    (memory_eq : other.memory = world.memory)
    (registries_eq : other.registries = world.registries) :
    ∃ after, stack.allocator.free address other = .error (.refused error) after := by
  induction objects generalizing other with
  | null => exact ⟨_, rfl⟩
  | outside nowhere =>
      exact ⟨_, Fallible.bind_of_error (Guarded.regionOf_of_none nowhere other) _⟩
  | unsound around fetched =>
      rw [← memory_eq] at fetched
      exact ⟨_, Guarded.free_of_unsound around fetched⟩
  | @underGuard _ _ _ world _ region size _ _ around fetched _ inductionHypothesis =>
      rw [← memory_eq] at fetched
      have memory_eq : (other.cleared region size).memory = (world.cleared region size).memory := by
        simp only [World.cleared, memory_eq]
      obtain ⟨after, below⟩ := inductionHypothesis memory_eq registries_eq
      exact ⟨_, Guarded.free_of_refused around fetched below⟩
  | unknown absent =>
      rw [← registries_eq] at absent
      exact ⟨_, Fallible.bind_of_error (Registered.remove_of_none absent) _⟩
  | @underRegistry layer _ _ world address _ _ _ held _ inductionHypothesis =>
      rw [← registries_eq] at held
      have registries_eq : (other.erased layer address).registries =
          (world.erased layer address).registries := by
        simp only [World.erased, registries_eq]
      obtain ⟨after, below⟩ := @inductionHypothesis (other.erased layer address) memory_eq
        registries_eq
      exact ⟨_, Registered.free_of_refused held below⟩
  | @underCount layer _ _ _ _ _ _ _ inductionHypothesis =>
      let counts := other.callCounts.get layer
      let counted : World := { other with
        callCounts := other.callCounts.set layer { counts with frees := counts.frees + 1 } }
      exact @inductionHypothesis counted memory_eq registries_eq

end Objects

/-- When a registry under a guarded layer forgets its blocks, the end of the first block is refused
by it, with the address of the region. -/
theorem exists_forgotten :
    let stack : Stack := .guarded 0 true (.registered 1 true (.raw .arena))
    ∃ issued forgot after, stack.allocator.allocate 8
        (World.initial { base := ⟨4096⟩, capacity := 1024 }) = .ok ⟨4112⟩ issued ∧
      Registered.reset 1 issued = .ok () forgot ∧
      stack.allocator.free ⟨4112⟩ forgot = .error (.refused (.unknownAddress ⟨4096⟩)) after := by
  intro stack
  let arena : Arena := { base := ⟨4096⟩, capacity := 1024 }
  have fresh : arena.Fresh := ⟨⟨⟨4096⟩, 1024, rfl⟩, by decide, by decide⟩
  obtain ⟨issued, granted⟩ : ∃ issued, stack.allocator.allocate 8 (World.initial arena) =
      .ok ⟨4112⟩ issued := by
    have nonempty : (8 + 24 : UInt64) ≠ 0 := by decide
    have room : arena.nextAfter? (8 + 24) = some 32 := by decide +kernel
    obtain ⟨_, raw⟩ := raw_allocate_of_room (World.initial arena) nonempty rfl room
    obtain ⟨_, registered⟩ := @Registered.allocate_of_granted 1 _ _ _ _ _ nonempty raw
    have below : (Stack.registered 1 true (.raw .arena)).allocator.allocate (8 + 24)
        (World.initial arena) = .ok ⟨4096⟩ _ := registered
    obtain ⟨_, guarded⟩ := @Guarded.allocate_of_granted 0 _ 8 _ _ _ (by decide) (by decide) below
    exact ⟨_, guarded⟩
  have run : Run stack arena [.granted ⟨⟨4112⟩, 8⟩] issued := .granted (.start .zero) granted
  have books : stack.Books arena.range issued [⟨⟨4112⟩, 8⟩] := run.books rfl (by decide) fresh
  have keeps := @Stack.keeps (.registered 1 true (.raw .arena)) arena.range rfl (by decide)
  let forgot : World := { issued with registries := issued.registries.set 1 .empty }
  have region : (Extent.around ⟨⟨4112⟩, 8⟩).address = ⟨4096⟩ := by decide
  have fetched : Guard.fetch issued.memory ⟨4096⟩ = .ok 8 := by
    rw [← region]
    exact books.marked.fetch keeps
  have around : Guard.regionOf? ⟨4112⟩ = some ⟨4096⟩ := by decide
  have absent : ((forgot.cleared ⟨4096⟩ 8).registries.get 1).find? ⟨4096⟩ = none := by
    show ((issued.registries.set 1 .empty).get 1).find? ⟨4096⟩ = none
    rw [Table.get_set, if_pos rfl, Registry.find?_empty]
  have below : (Stack.registered 1 true (.raw .arena)).allocator.free ⟨4096⟩
      (forgot.cleared ⟨4096⟩ 8) = .error (.refused (.unknownAddress ⟨4096⟩)) _ :=
    Fallible.bind_of_error (Registered.remove_of_none absent) _
  exact ⟨issued, forgot, _, granted, rfl, Guarded.free_of_refused around fetched below⟩

/-- An error that names an address is the objection of a layer, and would also be met if the block
were to be ended. The address that it names is the one that was passed, less sixteen bytes for
each guarded layer above the one that objects, so it is the one that was passed if and only if
there is none. There is none if the guarded layer, if any, stands directly on the store, and the
address is not too close to zero for all the regions. -/
theorem named_address_exact
    {stack : Stack}
    {world after : World}
    {call : Allocator.Call}
    {address named : Address}
    {error : HeapError}
    (about : call.address? = some address)
    (refused : stack.allocator.call call world = .error (.refused error) after)
    (names : error.address? = some named) :
    (∃ depth, Objects stack world address error depth ∧ depth ≤ stack.depth ∧
      named.value.toNat + 16 * depth = address.value.toNat ∧ (named = address ↔ depth = 0)) ∧
    (∃ after, stack.allocator.free address world = .error (.refused error) after) ∧
    (stack.GuardsStore → 16 * stack.depth < address.value.toNat → named = address) := by
  obtain ⟨depth, objects⟩ : ∃ depth, Objects stack world address error depth := by
    cases call with
    | allocate size => cases about
    | reallocate address newSize =>
        cases about
        exact Objects.of_reallocate (Fallible.error_of_bind_pure refused) names
    | free address =>
        cases about
        exact Objects.of_free (Fallible.error_of_bind_pure refused)
  obtain ⟨other, same, exact⟩ := objects.names
  obtain rfl : named = other := Option.some.inj (names.symm.trans same)
  have bounded := objects.depth_le
  have isAddress : named = address ↔ depth = 0 := by
    constructor
    · rintro rfl
      omega
    · rintro rfl
      exact congrArg Address.mk (UInt64.toNat_inj.mp exact)
  refine ⟨⟨depth, objects, bounded, exact, isAddress⟩, objects.free rfl rfl,
    fun guardsStore large => isAddress.mpr ?_⟩
  have := objects.of_guardsStore guardsStore
  omega

/-- The registry in the example lies under one guarded layer, and the caller is told an address
that is sixteen bytes before its block. -/
theorem named_address_exact_of_forgotten_block :
    let stack : Stack := .guarded 0 true (.registered 1 true (.raw .arena))
    let call : Allocator.Call := .free ⟨4112⟩
    let error : HeapError := .unknownAddress ⟨4096⟩
    call.address? = some ⟨4112⟩ ∧ error.address? = some ⟨4096⟩ ∧
      ∃ forgot after, stack.allocator.call call forgot = .error (.refused error) after ∧
        Objects stack forgot ⟨4112⟩ error 1 := by
  intro stack call error
  obtain ⟨_, forgot, _, _, _, refused⟩ := exists_forgotten
  have refused : stack.allocator.call call forgot = .error (.refused error) _ :=
    Fallible.bind_of_error refused _
  obtain ⟨⟨depth, objects, _, exact, _⟩, _⟩ := named_address_exact rfl refused rfl
  have one : depth = 1 := by
    have exact : 4096 + 16 * depth = 4112 := exact
    omega
  exact ⟨rfl, rfl, forgot, _, refused, one ▸ objects⟩

/-- With a registry under a guarded layer, the caller is told an address that it never saw. -/
theorem region_named_by_inner_registry :
    let stack : Stack := .guarded 0 true (.registered 1 true (.raw .arena))
    let arena : Arena := { base := ⟨4096⟩, capacity := 1024 }
    ∃ issued forgot after error named,
      stack.allocator.allocate 8 (World.initial arena) = .ok ⟨4112⟩ issued ∧
      Registered.reset 1 issued = .ok () forgot ∧ 16 * stack.depth < 4112 ∧
      stack.allocator.free ⟨4112⟩ forgot = .error (.refused error) after ∧
      error.address? = some named ∧ named ≠ ⟨4112⟩ := by
  intro stack arena
  obtain ⟨issued, forgot, after, granted, reset, refused⟩ := exists_forgotten
  exact ⟨issued, forgot, after, _, ⟨4096⟩, granted, reset, by decide, refused, rfl, by decide⟩

end Stack
end GuardedHeap
