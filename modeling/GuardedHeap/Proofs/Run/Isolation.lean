import GuardedHeap.Proofs.Ledger.Beside
import GuardedHeap.Proofs.Ledger.Release
import GuardedHeap.Proofs.Run.Basic

/-!
# Registries that share an allocator

Several registered layers lie above one guarded arena, and their clients make calls in any
order, with whatever sizes and addresses, write into the blocks that they hold, and let the
arena fail and recover.

The guarded layer never hands out a block that touches a live one, so its books are about
the blocks of all registries, which have no address in common. A registry thus knows nothing
of what another one holds, and no call made to it can be noticed there.
-/

namespace GuardedHeap

open Fallible (answer final)

/-- The guarded arena that several registries share. -/
abbrev Stack.sharedArena (guard : Nat) (owns : Bool) : Stack :=
  .guarded guard owns (.raw .arena)

namespace Shared

/-- Make a call to one of the registered layers above an allocator. -/
def call (shared : Stack) (registry : Nat) (owns : Bool) (call : Allocator.Call) :
    HeapM (Option Address) :=
  (Allocator.registered registry owns shared.allocator).call call

/-- The worlds to which the calls of the clients of several registries lead. -/
inductive Run (shared : Stack) (registries : List Nat) (arena : Arena) : World → Prop
  | start (memory : Memory) :
      Run shared registries arena { World.initial arena with memory }
  | called
      {world : World}
      {registry : Nat}
      (earlier : Run shared registries arena world)
      (present : registry ∈ registries)
      (owns : Bool)
      (request : Allocator.Call) :
      Run shared registries arena (final (call shared registry owns request) world)
  | wrote
      {world : World}
      {block : Extent}
      {address : Address}
      (earlier : Run shared registries arena world)
      (held : block ∈ world.blocksOf registries)
      (inside : block.Contains address)
      (value : UInt8) :
      Run shared registries arena { world with memory := world.memory.set address value }
  | limited
      {world : World}
      (earlier : Run shared registries arena world)
      (count : Nat) :
      Run shared registries arena { world with arena := world.arena.failAfter count }
  | recovered
      {world : World}
      (earlier : Run shared registries arena world) :
      Run shared registries arena { world with arena := world.arena.recover }

variable {shared : Stack}
variable {guard : Nat}
variable {range : Extent}
variable {registries : List Nat}
variable {arena : Arena}
variable {world : World}

/-- All along, the books of the shared allocator are about the blocks of all registries. -/
theorem Run.books
    (run : Run shared registries arena world)
    (overArena : shared.store = .arena)
    (layersDistinct : shared.layers.Nodup)
    (distinct : registries.Nodup)
    (apart : ∀ registry ∈ registries, registry ∉ shared.layers)
    (fresh : arena.Fresh) :
    shared.Books arena.range world (world.blocksOf registries) := by
  have keeps := shared.keeps arena.range overArena layersDistinct
  induction run with
  | start memory =>
      have noBlocks : World.blocksOf { World.initial arena with memory } registries = [] :=
        List.flatMap_eq_nil_iff.mpr fun registry _ => rfl
      rw [noBlocks]
      exact Stack.books_start fresh memory
  | called earlier present owns request inductionHypothesis =>
      exact (inductionHypothesis.of_shared_call overArena layersDistinct distinct apart present
        owns request).1
  | wrote earlier held inside value inductionHypothesis =>
      exact keeps.undisturbed inductionHypothesis
        (World.undisturbed_write _ held inside value)
  | limited earlier count inductionHypothesis =>
      exact keeps.undisturbed inductionHypothesis (World.undisturbed_credit rfl)
  | recovered earlier inductionHypothesis =>
      exact keeps.undisturbed inductionHypothesis (World.undisturbed_credit rfl)

/-- A registry gives the same answers in two worlds. -/
structure SameAnswers (registry : Nat) (before after : World) : Prop where
  contains : ∀ address, answer (Registered.contains registry address) after =
    answer (Registered.contains registry address) before
  sizeOf : ∀ address, answer (Registered.sizeOf registry address) after =
    answer (Registered.sizeOf registry address) before
  snapshot : answer (Registered.snapshot registry) after =
    answer (Registered.snapshot registry) before

/-- What a registry answers depends on the sizes that it finds. -/
theorem sameAnswers_of_find?_eq
    {registry : Nat}
    {before after : World}
    (same : ∀ address, (after.registries.get registry).find? address =
      (before.registries.get registry).find? address) :
    SameAnswers registry before after where
  contains address := by
    show Except.ok ((after.registries.get registry).contains address) =
      Except.ok ((before.registries.get registry).contains address)
    rw [Registry.contains, Registry.contains, same]
  sizeOf address := by
    have sizes : ∀ world, answer (Registered.sizeOf registry address) world =
        ((world.registries.get registry).find? address).elim
          (.error (.refused (.unknownAddress address))) .ok := by
      intro world
      rw [answer, Registered.sizeOf, Fallible.bind_of_ok (HeapM.registryOf_apply registry world)]
      cases (world.registries.get registry).find? address <;> rfl
    rw [sizes, sizes, same]
  snapshot := by
    show Except.ok ((after.registries.get registry).snapshot.map _) =
      Except.ok ((before.registries.get registry).snapshot.map _)
    rw [Registry.snapshot_eq_of_find?_eq same]

/-- A call about an address that a registry does not hold is refused there, and nothing is
changed by it. -/
structure Unknown
    (shared : Stack)
    (registry : Nat)
    (owns : Bool)
    (address : Address)
    (world : World) : Prop where
  free : call shared registry owns (.free address) world =
    .error (.refused (.unknownAddress address)) world
  reallocate : ∀ newSize, newSize ≠ 0 →
    call shared registry owns (.reallocate address newSize) world =
      .error (.refused (.unknownAddress address)) world

theorem unknown_of_absent
    {registry : Nat}
    {address : Address}
    (absent : (world.registries.get registry).find? address = none)
    (owns : Bool) :
    Unknown shared registry owns address world where
  free := by
    have refused : Registered.free registry shared.allocator address world =
        .error (.refused (.unknownAddress address)) world :=
      Fallible.bind_of_error (Registered.remove_of_none absent) _
    exact Fallible.bind_of_error refused _
  reallocate newSize nonempty := by
    have refused : Registered.reallocate registry shared.allocator address newSize world =
        .error (.refused (.unknownAddress address)) world := by
      rw [Registered.reallocate,
        Fallible.bind_of_ok (Allocator.requirePositive_of_nonempty nonempty world),
        Fallible.bind_of_error (Registered.remove_of_none absent)]
    exact Fallible.bind_of_error refused _

/-- Registries above one guarded layer are isolated: they hold no address in common, together
they hold what the guarded layer counts, none of them takes an address of another one, and
no call made to one of them can be noticed at another one. -/
structure Isolated
    (guard : Nat)
    (shared : Stack)
    (registries : List Nat)
    (world : World) : Prop where
  disjoint : ∀ first ∈ registries, ∀ second ∈ registries, first ≠ second → ∀ address,
    answer (Registered.contains first address) world = .ok true →
      answer (Registered.contains second address) world = .ok false
  counted : ∃ totals : Nat → Nat × UInt64,
    (∀ registry ∈ registries,
      answer (Registered.totals registry) world = .ok (totals registry)) ∧
    (world.tallies.get guard).blocks.toNat =
      Word.total (registries.map fun registry => (totals registry).1) ∧
    (world.tallies.get guard).bytes.toNat =
      Word.total (registries.map fun registry => (totals registry).2.toNat)
  unknown : ∀ own ∈ registries, ∀ other ∈ registries, own ≠ other → ∀ address,
    answer (Registered.contains other address) world = .ok true →
      ∀ owns, Unknown shared own owns address world
  unnoticed : ∀ own ∈ registries, ∀ other ∈ registries, own ≠ other → ∀ owns request,
    SameAnswers other world (final (call shared own owns request) world)

/-- No registry finds an address at which another one has a block. -/
theorem find?_of_other
    {own other : Nat}
    {address : Address}
    {size : UInt64}
    (placed : Placed range (world.blocksOf registries))
    (present : own ∈ registries)
    (otherPresent : other ∈ registries)
    (differs : own ≠ other)
    (held : (world.registries.get other).find? address = some size) :
    (world.registries.get own).find? address = none := by
  have apart := placed.perm (world.blocksOf_perm_of_mem otherPresent)
  have inOther := (Registry.finds_extents _ address size).mp held
  cases found : (world.registries.get own).find? address with
  | none => rfl
  | some ownSize =>
      have inOwn := (Registry.finds_extents _ address ownSize).mp found
      have remains : own ∈ registries.erase other := (List.mem_erase_of_ne differs).mpr present
      exact absurd (List.mem_flatMap.mpr ⟨own, remains, inOwn⟩)
        (apart.not_mem_of_append inOther ownSize)

/-- What a registry holds in sum. -/
theorem totals_of_placed
    {registry : Nat}
    (placed : Placed range (world.blocksOf registries))
    (present : registry ∈ registries) :
    ∃ bytes, answer (Registered.totals registry) world =
        .ok ((world.registries.get registry).extents.length, bytes) ∧
      bytes.toNat = Extent.totalSize (world.registries.get registry).extents := by
  have ownPlaced := (placed.perm (world.blocksOf_perm_of_mem present)).of_append
  obtain ⟨bytes, sum, exact⟩ := (Registry.finds_extents _).bytes?_eq ownPlaced
  refine ⟨bytes, ?_, exact⟩
  rw [answer, Registered.totals_of_some sum, Registry.blocks_eq]

/-- What all registries hold is what each of them holds, summed up. -/
theorem exists_totals (placed : Placed range (world.blocksOf registries)) :
    ∃ totals : Nat → Nat × UInt64,
      (∀ registry ∈ registries,
        answer (Registered.totals registry) world = .ok (totals registry)) ∧
      (world.blocksOf registries).length =
        Word.total (registries.map fun registry => (totals registry).1) ∧
      Extent.totalSize (world.blocksOf registries) =
        Word.total (registries.map fun registry => (totals registry).2.toNat) := by
  have single := fun registry (present : registry ∈ registries) =>
    totals_of_placed placed present
  choose! bytes answers exact using single
  refine ⟨fun registry => (_, bytes registry), answers, ?_, ?_⟩
  · exact Word.total_flatMap rfl (fun _ _ => List.length_append) registries _
  · rw [World.blocksOf, Word.total_flatMap rfl Extent.totalSize_append]
    exact congrArg Word.total (List.map_congr_left fun registry present =>
      (exact registry present).symm)

/-- Registries that share a guarded arena are isolated from each other, in whatever order
their clients make calls. -/
theorem registries_isolated
    {owned : Bool}
    (distinct : (guard :: registries).Nodup)
    (fresh : arena.Fresh)
    (run : Run (.sharedArena guard owned) registries arena world) :
    Isolated guard (.sharedArena guard owned) registries world := by
  obtain ⟨guardApart, registriesDistinct⟩ := List.nodup_cons.mp distinct
  have apart : ∀ registry ∈ registries, registry ∉ (Stack.sharedArena guard owned).layers := by
    intro registry present inLayers
    exact guardApart (List.mem_singleton.mp inLayers ▸ present)
  have layersDistinct : (Stack.sharedArena guard owned).layers.Nodup := List.nodup_singleton guard
  have books := run.books rfl layersDistinct registriesDistinct apart fresh
  have placed := (Stack.keeps arena.range rfl layersDistinct).placed books
  refine ⟨?disjoint, ?counted, ?unknown, ?unnoticed⟩
  case disjoint =>
    intro first firstPresent second secondPresent differs address contains
    obtain ⟨size, held⟩ := Option.isSome_iff_exists.mp (Except.ok.inj contains)
    have absent := find?_of_other placed secondPresent firstPresent differs.symm held
    exact congrArg Except.ok (by rw [Registry.contains, absent]; rfl)
  case counted =>
    obtain ⟨totals, answers, length_eq, totalSize_eq⟩ := exists_totals placed
    exact ⟨totals, answers, books.count.trans length_eq, books.bytes.trans totalSize_eq⟩
  case unknown =>
    intro own present other otherPresent differs address contains owns
    obtain ⟨size, held⟩ := Option.isSome_iff_exists.mp (Except.ok.inj contains)
    exact unknown_of_absent (find?_of_other placed present otherPresent differs held) owns
  case unnoticed =>
    intro own present other otherPresent differs owns request
    have others := (books.of_shared_call rfl layersDistinct registriesDistinct apart present owns
      request).2
    refine sameAnswers_of_find?_eq (others other ?_)
    exact List.not_mem_cons_of_ne_of_not_mem differs.symm (apart other otherPresent)

/-- Two registries share an arena, and one of them holds a block of sixteen bytes. -/
theorem registries_isolated_of_first_block :
    let arena : Arena := { base := ⟨4096⟩, capacity := 1024 }
    ∃ world, Run (.sharedArena 0 true) [1, 2] arena world ∧
      answer (Registered.contains 1 ⟨4112⟩) world = .ok true ∧
      Isolated 0 (.sharedArena 0 true) [1, 2] world := by
  intro arena
  have fresh : arena.Fresh := ⟨⟨⟨4096⟩, 1024, rfl⟩, by decide, by decide⟩
  obtain ⟨middle, below⟩ := Stack.guarded_allocate_of_room 0 true (World.initial arena)
    (by decide : (16 : UInt64) ≠ 0) (by decide) (rfl : arena.credit = none)
    (by decide +kernel : arena.nextAfter? (16 + 24) = some 48)
  obtain ⟨events, granted⟩ := Registered.allocate_of_granted (by decide) below
  have made : call (.sharedArena 0 true) 1 true (.allocate 16) (World.initial arena) = .ok _ _ :=
    Fallible.bind_of_ok granted _
  have run : Run (.sharedArena 0 true) [1, 2] arena _ :=
    .called (.start .zero) (.head _) true (.allocate 16)
  have initial_eq : { World.initial arena with memory := .zero } = World.initial arena := rfl
  rw [initial_eq, final, made] at run
  refine ⟨_, run, ?_, registries_isolated (by decide) fresh run⟩
  show Except.ok (Registry.contains _ ⟨4112⟩) = _
  rw [World.get_registries_inserted, if_pos rfl, Registry.contains, Registry.find?_insert]
  rfl

end Shared
end GuardedHeap
