import GuardedHeap.Proofs.Registry.Contents
import GuardedHeap.Proofs.Registry.Spared

/-!
# Registries as ordered maps

A catalogue is one map of sizes, ordered by address. A registry mirrors a catalogue if it
finds the same sizes; then its shards hold the entries of the catalogue, each in the shard of
its address, and it counts, adds up and lists what the catalogue does, in whatever order the
shards were left.

The main result says that a registered layer tells what a catalogue tells which recorded its
calls, whatever the allocators below it answered, and that it leaves to them every call but those
that ask for no bytes or name an address that it does not have.
-/

namespace GuardedHeap

open Fallible (answer final)

/-- The sizes of blocks in one map that is ordered by address. -/
abbrev Catalogue := Std.TreeMap UInt64 UInt64

namespace Catalogue

/-- The entries of a catalogue, by rising address. -/
def entries (catalogue : Catalogue) : List (Address × UInt64) :=
  catalogue.toList.map fun entry => (⟨entry.1⟩, entry.2)

/-- The blocks of a catalogue, by rising address. -/
def blocks (catalogue : Catalogue) : List Extent :=
  catalogue.entries.map fun entry => ⟨entry.1, entry.2⟩

/-- What a catalogue records of a call to a layer. A call that is refused leaves no trace; one
that breaks off has taken its block out already. -/
def recorded (catalogue : Catalogue) :
    Allocator.Call → Except (Failure HeapError) (Option Address) → Catalogue
  | .allocate size, .ok (some address) => catalogue.insert address.value size
  | .reallocate address newSize, .ok (some moved) =>
      (catalogue.erase address.value).insert moved.value newSize
  | .free address, .ok _ => catalogue.erase address.value
  | .reallocate address _, .error .overflow => catalogue.erase address.value
  | .free address, .error .overflow => catalogue.erase address.value
  | _, _ => catalogue

variable {catalogue : Catalogue}

theorem mem_entries_iff (address : Address) (size : UInt64) :
    (address, size) ∈ catalogue.entries ↔ catalogue[address.value]? = some size := by
  rw [← Std.TreeMap.mem_toList_iff_getElem?_eq_some, entries, List.mem_map]
  constructor
  · rintro ⟨entry, present, same⟩
    cases same
    exact present
  · intro present
    exact ⟨_, present, rfl⟩

/-- The addresses of a catalogue rise. -/
theorem pairwise_entries (catalogue : Catalogue) :
    catalogue.entries.Pairwise fun left right => left.1.value < right.1.value := by
  rw [entries, List.pairwise_map]
  exact Std.TreeMap.ordered_keys_toList.imp Std.compare_eq_lt.mp

theorem nodup_entries (catalogue : Catalogue) : catalogue.entries.Nodup := by
  refine catalogue.pairwise_entries.imp fun {left right} rises same => ?_
  rw [same] at rises
  exact UInt64.lt_irrefl _ rises

@[simp] theorem length_entries (catalogue : Catalogue) :
    catalogue.entries.length = catalogue.size := by
  rw [entries, List.length_map, Std.TreeMap.length_toList]

theorem pairwise_blocks (catalogue : Catalogue) :
    catalogue.blocks.Pairwise fun left right => left.address.value < right.address.value := by
  rw [blocks, List.pairwise_map]
  exact catalogue.pairwise_entries

end Catalogue

namespace Registry

/-- A registry finds the sizes of a catalogue. -/
def Mirrors (registry : Registry) (catalogue : Catalogue) : Prop :=
  ∀ address, registry.find? address = catalogue[address.value]?

namespace Mirrors

variable {registry : Registry}
variable {catalogue : Catalogue}

theorem empty : Registry.empty.Mirrors ∅ := by
  intro address
  rw [find?_empty, Std.TreeMap.getElem?_emptyc]

theorem insert
    (mirrors : registry.Mirrors catalogue)
    (address : Address)
    (size : UInt64) :
    (registry.insert address size).Mirrors (catalogue.insert address.value size) := by
  intro sought
  rw [find?_insert, Std.TreeMap.getElem?_insert, mirrors sought]
  by_cases same : sought = address
  · simp [same]
  · have differs : ¬ address.value = sought.value := fun equal =>
      same (congrArg Address.mk equal.symm)
    simp [same, differs]

theorem erase
    (mirrors : registry.Mirrors catalogue)
    (address : Address) :
    (registry.erase address).Mirrors (catalogue.erase address.value) := by
  intro sought
  rw [find?_erase, Std.TreeMap.getElem?_erase, mirrors sought]
  by_cases same : sought = address
  · simp [same]
  · have differs : ¬ address.value = sought.value := fun equal =>
      same (congrArg Address.mk equal.symm)
    simp [same, differs]

/-- What is put back was never away, wherever in its shard it is now. -/
theorem restore
    {address : Address}
    {size : UInt64}
    (mirrors : registry.Mirrors (catalogue.erase address.value))
    (held : catalogue[address.value]? = some size) :
    (registry.insert address size).Mirrors catalogue := by
  intro sought
  rw [find?_insert, mirrors sought, Std.TreeMap.getElem?_erase]
  by_cases same : sought = address
  · simp [same, held]
  · have differs : ¬ address.value = sought.value := fun equal =>
      same (congrArg Address.mk equal.symm)
    simp [same, differs]

/-- The entries of a shard are those of the catalogue whose addresses lead to it. -/
theorem mem_shard_iff
    (mirrors : registry.Mirrors catalogue)
    {index : Nat}
    (inside : index < 16)
    (address : Address)
    (size : UInt64) :
    (address, size) ∈ registry.shards[index].entries.toList ↔
      shardIndex address = index ∧ catalogue[address.value]? = some size := by
  rw [← mirrors address, find?, Shard.find?_eq_some_iff]
  constructor
  · intro present
    obtain rfl : shardIndex address = index := registry.placed index inside (address, size) present
    exact ⟨rfl, by simpa [shardOf] using present⟩
  · rintro ⟨rfl, present⟩
    simpa [shardOf] using present

/-- The entries of the registry are those of the catalogue in another order. -/
theorem entries_perm (mirrors : registry.Mirrors catalogue) :
    catalogue.entries.Perm registry.entries := by
  rw [List.perm_ext_iff_of_nodup catalogue.nodup_entries registry.nodup_entries]
  rintro ⟨address, size⟩
  rw [Catalogue.mem_entries_iff, Registry.mem_entries_iff, mirrors]

theorem snapshot_eq (mirrors : registry.Mirrors catalogue) :
    registry.snapshot = catalogue.entries :=
  snapshot_eq_of_perm mirrors.entries_perm (catalogue.pairwise_entries.imp UInt64.le_of_lt)

theorem blocks_eq (mirrors : registry.Mirrors catalogue) :
    registry.blocks = catalogue.size := by
  rw [blocks_eq_length, ← mirrors.entries_perm.length_eq, Catalogue.length_entries]

theorem extents_perm (mirrors : registry.Mirrors catalogue) :
    catalogue.blocks.Perm registry.extents :=
  mirrors.entries_perm.map _

/-- The sum of the sizes is that of the catalogue, if it is a word. -/
theorem bytes?_eq (mirrors : registry.Mirrors catalogue) :
    registry.bytes? = Word.ofNat? (Extent.totalSize catalogue.blocks) := by
  rw [Registry.bytes?_eq, Extent.totalSize_perm mirrors.extents_perm]

end Mirrors
end Registry

namespace Registered

variable {layer : Nat}
variable {inner : Allocator}
variable {catalogue : Catalogue}
variable {world : World}

theorem mirrors_inserted
    (mirrors : (world.registries.get layer).Mirrors catalogue)
    (block : Extent) :
    ((world.inserted layer block).registries.get layer).Mirrors
      (catalogue.insert block.address.value block.size) := by
  rw [World.get_registries_inserted, if_pos rfl]
  exact mirrors.insert block.address block.size

theorem mirrors_restored
    {block : Extent}
    (mirrors : (world.registries.get layer).Mirrors (catalogue.erase block.address.value))
    (held : catalogue[block.address.value]? = some block.size) :
    ((world.inserted layer block).registries.get layer).Mirrors catalogue := by
  rw [World.get_registries_inserted, if_pos rfl]
  exact mirrors.restore held

/-- An allocator that spares the registry from which an address was taken out leaves it so. -/
theorem mirrors_erased
    {α : Type}
    {computation : HeapM α}
    (mirrors : (world.registries.get layer).Mirrors catalogue)
    (spares : computation.SparesRegistry layer)
    (address : Address) :
    ((final computation (world.erased layer address)).registries.get layer).Mirrors
      (catalogue.erase address.value) := by
  rw [spares, World.get_registries_erased, if_pos rfl]
  exact mirrors.erase address

theorem mirrors_allocate
    (mirrors : (world.registries.get layer).Mirrors catalogue)
    (spares : inner.SparesRegistry layer)
    (size : UInt64) :
    ((final (allocate layer inner size) world).registries.get layer).Mirrors
      (catalogue.recorded (.allocate size)
        ((answer (allocate layer inner size) world).map some)) := by
  have outcome := allocate_outcome layer inner size world
  unfold final answer
  generalize allocate layer inner size world = result at outcome ⊢
  cases outcome with
  | empty isEmpty => exact mirrors
  | failed nonempty refused =>
      have same := (spares.allocate size).of_error refused
      exact same ▸ mirrors
  | @granted address after events nonempty granted =>
      have same := (spares.allocate size).of_ok granted
      rw [← same] at mirrors
      exact mirrors_inserted mirrors ⟨address, size⟩

theorem mirrors_reallocate
    (mirrors : (world.registries.get layer).Mirrors catalogue)
    (spares : inner.SparesRegistry layer)
    (address : Address)
    (newSize : UInt64) :
    ((final (reallocate layer inner address newSize) world).registries.get layer).Mirrors
      (catalogue.recorded (.reallocate address newSize)
        ((answer (reallocate layer inner address newSize) world).map some)) := by
  have below := mirrors_erased mirrors (spares.reallocate address newSize) address
  have outcome := reallocate_outcome layer inner address newSize world
  unfold final answer
  generalize reallocate layer inner address newSize world = result at outcome ⊢
  cases outcome with
  | empty isEmpty => exact mirrors
  | unknown nonempty absent => exact mirrors
  | failed nonempty held refused =>
      rw [Fallible.final_of_error refused] at below
      exact mirrors_restored below ((mirrors address).symm.trans held)
  | broken nonempty held broke =>
      rw [Fallible.final_of_error broke] at below
      exact below
  | @moved _ moved after events nonempty held done =>
      rw [Fallible.final_of_ok done] at below
      exact mirrors_inserted below ⟨moved, newSize⟩

theorem mirrors_free
    (mirrors : (world.registries.get layer).Mirrors catalogue)
    (spares : inner.SparesRegistry layer)
    (address : Address) :
    ((final (free layer inner address) world).registries.get layer).Mirrors
      (catalogue.recorded (.free address)
        ((answer (free layer inner address) world).map fun _ => none)) := by
  have below := mirrors_erased mirrors (spares.free address) address
  have outcome := free_outcome layer inner address world
  unfold final answer
  generalize free layer inner address world = result at outcome ⊢
  cases outcome with
  | unknown absent => exact mirrors
  | failed held refused =>
      rw [Fallible.final_of_error refused] at below
      exact mirrors_restored below ((mirrors address).symm.trans held)
  | broken held broke =>
      rw [Fallible.final_of_error broke] at below
      exact below
  | freed events held ended =>
      rw [Fallible.final_of_ok ended] at below
      exact below

/-- The registry of a layer goes on to mirror the catalogue that records its calls. -/
theorem mirrors_call
    (mirrors : (world.registries.get layer).Mirrors catalogue)
    (spares : inner.SparesRegistry layer)
    (owns : Bool)
    (call : Allocator.Call) :
    ((final ((Allocator.registered layer owns inner).call call) world).registries.get
        layer).Mirrors
      (catalogue.recorded call
        (answer ((Allocator.registered layer owns inner).call call) world)) := by
  cases call with
  | allocate size =>
      rw [Allocator.call, Fallible.final_bind_pure, Fallible.answer_bind_pure]
      exact mirrors_allocate mirrors spares size
  | reallocate address newSize =>
      rw [Allocator.call, Fallible.final_bind_pure, Fallible.answer_bind_pure]
      exact mirrors_reallocate mirrors spares address newSize
  | free address =>
      have ends := Fallible.final_bind_pure (free layer inner address)
        (fun _ => (none : Option Address)) world
      have answers := Fallible.answer_bind_pure (free layer inner address)
        (fun _ => (none : Option Address)) world
      rw [Allocator.call]
      exact ends ▸ answers ▸ mirrors_free mirrors spares address

/-- A computation that leaves its answer to another one, which starts in a world of its own. All
that is no registry and was not told is also left as that one leaves it. -/
structure LeftTo
    {α : Type}
    (computation below : HeapM α)
    (world start : World) : Prop where
  answered : answer computation world = answer below start
  ended : ∃ registries events,
    final computation world = { final below start with registries, events }

section LeftTo

variable {α : Type}
variable {computation below : HeapM α}
variable {start after : World}
variable {registries : Table Registry}
variable {events : Array Event}

theorem LeftTo.of_ok
    {value : α}
    (doneBelow : below start = .ok value after)
    (done : computation world = .ok value { after with registries, events }) :
    LeftTo computation below world start := by
  refine ⟨?_, registries, events, ?_⟩
  · rw [answer, answer, done, doneBelow]
  · rw [Fallible.final_of_ok done, Fallible.final_of_ok doneBelow]

theorem LeftTo.of_error
    {failure : Failure HeapError}
    (failedBelow : below start = .error failure after)
    (failed : computation world = .error failure { after with registries, events }) :
    LeftTo computation below world start := by
  refine ⟨?_, registries, events, ?_⟩
  · rw [answer, answer, failed, failedBelow]
  · rw [Fallible.final_of_error failed, Fallible.final_of_error failedBelow]

theorem allocate_leftTo
    {size : UInt64}
    (nonempty : size ≠ 0) :
    LeftTo (allocate layer inner size) (inner.allocate size) world world := by
  have outcome := allocate_outcome layer inner size world
  generalize ended : allocate layer inner size world = result at outcome
  cases outcome with
  | empty isEmpty => exact absurd isEmpty nonempty
  | failed _ refused => exact .of_error refused ended
  | granted events _ granted => exact .of_ok granted ended

theorem reallocate_leftTo
    {address : Address}
    {size newSize : UInt64}
    (held : (world.registries.get layer).find? address = some size)
    (nonempty : newSize ≠ 0) :
    LeftTo (reallocate layer inner address newSize) (inner.reallocate address newSize) world
      (world.erased layer address) := by
  have outcome := reallocate_outcome layer inner address newSize world
  generalize ended : reallocate layer inner address newSize world = result at outcome
  cases outcome with
  | empty isEmpty => exact absurd isEmpty nonempty
  | unknown _ absent =>
      rw [held] at absent
      cases absent
  | failed _ _ refused => exact .of_error refused ended
  | broken _ _ broke => exact .of_error broke ended
  | moved events _ _ done => exact .of_ok done ended

theorem free_leftTo
    {address : Address}
    {size : UInt64}
    (held : (world.registries.get layer).find? address = some size) :
    LeftTo (free layer inner address) (inner.free address) world (world.erased layer address) := by
  have outcome := free_outcome layer inner address world
  generalize ended : free layer inner address world = result at outcome
  cases outcome with
  | unknown absent =>
      rw [held] at absent
      cases absent
  | failed _ refused => exact .of_error refused ended
  | broken _ broke => exact .of_error broke ended
  | freed events _ done => exact .of_ok done ended

end LeftTo

/-- The worlds to which the calls of a layer lead from one in which it holds no block, each
with the catalogue that recorded the calls. The allocator below may be another one in each
call, and all that is not the registry of this layer may change between the calls. -/
inductive Run (layer : Nat) : Catalogue → World → Prop
  | start
      {world : World}
      (isEmpty : world.registries.get layer = .empty) :
      Run layer ∅ world
  | called
      {catalogue : Catalogue}
      {world : World}
      {inner : Allocator}
      (earlier : Run layer catalogue world)
      (spares : inner.SparesRegistry layer)
      (owns : Bool)
      (call : Allocator.Call) :
      Run layer
        (catalogue.recorded call
          (answer ((Allocator.registered layer owns inner).call call) world))
        (final ((Allocator.registered layer owns inner).call call) world)
  | forgot
      {catalogue : Catalogue}
      {world : World}
      (earlier : Run layer catalogue world) :
      Run layer ∅ (final (reset layer) world)
  | elsewhere
      {catalogue : Catalogue}
      {world after : World}
      (earlier : Run layer catalogue world)
      (same : after.registries.get layer = world.registries.get layer) :
      Run layer catalogue after

theorem Run.mirrors (run : Run layer catalogue world) :
    (world.registries.get layer).Mirrors catalogue := by
  induction run with
  | start isEmpty => exact isEmpty ▸ Registry.Mirrors.empty
  | called earlier spares owns call inductionHypothesis =>
      exact mirrors_call inductionHypothesis spares owns call
  | @forgot _ world earlier inductionHypothesis =>
      show ((world.registries.set layer .empty).get layer).Mirrors ∅
      rw [Table.get_set, if_pos rfl]
      exact .empty
  | elsewhere earlier same inductionHypothesis => exact same ▸ inductionHypothesis

/-- A layer that tells what a catalogue tells: every entry is in the one shard of its address,
all questions are answered from the catalogue, the snapshot lists its entries by rising
address, each once, and an address that it does not have is unknown to all calls. Asking for bytes,
and moving or ending what it has, is left to the allocator below, in the last two cases without
the entry. -/
structure Tells (layer : Nat) (catalogue : Catalogue) (world : World) : Prop where
  sharded : ∀ address, Registry.shardIndex address < 16
  stored : ∀ (index : Nat) (inside : index < 16) (address : Address) (size : UInt64),
    (address, size) ∈ (world.registries.get layer).shards[index].entries.toList ↔
      Registry.shardIndex address = index ∧ catalogue[address.value]? = some size
  contains : ∀ address,
    Registered.contains layer address world = .ok (catalogue.contains address.value) world
  sizeOf : ∀ address, Registered.sizeOf layer address world =
    match catalogue[address.value]? with
    | none => .error (.refused (.unknownAddress address)) world
    | some size => .ok size world
  blocks : (world.registries.get layer).blocks = catalogue.size
  totals : Extent.totalSize catalogue.blocks < 0x10000000000000000 →
    ∃ bytes, totals layer world = .ok (catalogue.size, bytes) world ∧
      bytes.toNat = Extent.totalSize catalogue.blocks
  snapshot : Registered.snapshot layer world = .ok catalogue.blocks world
  rising : catalogue.blocks.Pairwise fun left right => left.address.value < right.address.value
  complete : (world.registries.get layer).extents.Perm catalogue.blocks
  unknown : ∀ address, catalogue[address.value]? = none → ∀ owns inner,
    (Allocator.registered layer owns inner).Refuses address (.unknownAddress address) world
  asked : ∀ size, size ≠ 0 → ∀ owns inner,
    LeftTo ((Allocator.registered layer owns inner).allocate size) (inner.allocate size) world world
  moved : ∀ address, catalogue.contains address.value → ∀ newSize, newSize ≠ 0 → ∀ owns inner,
    LeftTo ((Allocator.registered layer owns inner).reallocate address newSize)
      (inner.reallocate address newSize) world (world.erased layer address)
  freed : ∀ address, catalogue.contains address.value → ∀ owns inner,
    LeftTo ((Allocator.registered layer owns inner).free address) (inner.free address) world
      (world.erased layer address)

/-- Whatever calls are made to a registered layer and whatever the allocators below it answer,
it tells what one ordered map tells that recorded the calls. -/
theorem tells_ordered_map
    (layer : Nat)
    (catalogue : Catalogue)
    (world : World)
    (run : Run layer catalogue world) :
    Tells layer catalogue world := by
  have mirrors := run.mirrors
  have held : ∀ address : Address, catalogue.contains address.value →
      ∃ size, (world.registries.get layer).find? address = some size := by
    intro address contained
    rw [mirrors address]
    rw [Std.TreeMap.contains_eq_isSome_getElem?] at contained
    exact Option.isSome_iff_exists.mp contained
  refine ⟨Registry.shardIndex_lt, fun index inside => mirrors.mem_shard_iff inside, ?contains,
    ?sizeOf, mirrors.blocks_eq, ?totals, ?snapshot, catalogue.pairwise_blocks,
    mirrors.extents_perm.symm, fun address absent owns inner => ?unknown,
    fun size nonempty owns inner => allocate_leftTo nonempty,
    fun address contained newSize nonempty owns inner => ?moved,
    fun address contained owns inner => ?freed⟩
  case moved =>
    obtain ⟨size, held⟩ := held address contained
    exact reallocate_leftTo held nonempty
  case freed =>
    obtain ⟨size, held⟩ := held address contained
    exact free_leftTo held
  case unknown => exact Allocator.refuses_of_absent ((mirrors address).trans absent) owns inner
  case contains =>
    intro address
    show EStateM.Result.ok (Registry.contains _ address) world = _
    rw [Registry.contains, mirrors address, Std.TreeMap.contains_eq_isSome_getElem?]
  case sizeOf =>
    intro address
    rw [Registered.sizeOf, Fallible.bind_of_ok (HeapM.registryOf_apply layer world),
      mirrors address]
    cases catalogue[address.value]? <;> rfl
  case totals =>
    intro isWord
    refine ⟨UInt64.ofNat (Extent.totalSize catalogue.blocks), ?_,
      UInt64.toNat_ofNat_of_lt' isWord⟩
    rw [totals, Fallible.bind_of_ok (HeapM.registryOf_apply layer world), mirrors.bytes?_eq,
      Word.ofNat?, if_pos isWord, mirrors.blocks_eq]
    rfl
  case snapshot =>
    show EStateM.Result.ok ((world.registries.get layer).snapshot.map _) world = _
    rw [mirrors.snapshot_eq]
    rfl

/-- Over an allocator that hands out the address that is as large as the size, three blocks
come into one shard. When the first of them ends, the last one takes its place there, and the
snapshot still lists the others by their addresses. -/
theorem tells_ordered_map_of_reordered_shard :
    let inner : Allocator :=
      ⟨fun size => pure ⟨size⟩, fun _ newSize => pure ⟨newSize⟩, fun _ => pure (), pure ()⟩
    let perform := fun call => final ((Allocator.registered 0 true inner).call call)
    let before := World.initial { base := ⟨4096⟩, capacity := 1024 }
    let world := perform (.free ⟨4⟩) (perform (.allocate 59) (perform (.allocate 25)
      (perform (.allocate 4) before)))
    ∃ catalogue, Run 0 catalogue world ∧ Tells 0 catalogue world ∧
      (world.registries.get 0).shards[7].entries.toList = [(⟨59⟩, 59), (⟨25⟩, 25)] ∧
      catalogue.blocks = [⟨⟨25⟩, 25⟩, ⟨⟨59⟩, 59⟩] := by
  intro inner perform before world
  have spares : inner.SparesRegistry 0 :=
    ⟨fun _ _ => rfl, fun _ _ _ => rfl, fun _ _ => rfl⟩
  have start : Run 0 ∅ before := .start rfl
  have run := (((start.called spares true (.allocate 4)).called spares true
    (.allocate 25)).called spares true (.allocate 59)).called spares true (.free ⟨4⟩)
  exact ⟨_, run, tells_ordered_map _ _ _ run, by decide +kernel, by decide +kernel⟩

end Registered
end GuardedHeap
