import GuardedHeap.Proofs.Ledger.Placement
import GuardedHeap.Registry
import Mathlib.Data.List.Nodup
import Mathlib.Data.List.Sort

/-!
# Contents of a registry

What a registry tells is determined by the sizes that it finds. Its entries are those
sizes with their addresses, each once, so registries that find the same sizes have the
same number of blocks, the same sum of sizes and the same snapshot, whatever happened to
them before.

A registry that finds exactly the blocks of a ledger has these for entries, counts them
and adds up their sizes.
-/

namespace GuardedHeap
namespace Registry

variable {registry other : Registry}

/-- The entries are the sizes that are found, with their addresses. -/
theorem mem_entries_iff
    (registry : Registry)
    (address : Address)
    (size : UInt64) :
    (address, size) ∈ registry.entries ↔ registry.find? address = some size := by
  rw [find?, Shard.find?_eq_some_iff, entries, List.mem_flatMap]
  constructor
  · rintro ⟨shard, present, inShard⟩
    obtain ⟨index, inside, rfl⟩ := List.getElem_of_mem present
    have bounded : index < 16 := by simpa using inside
    have same := registry.placed index bounded (address, size) (by simpa using inShard)
    subst same
    simpa [shardOf] using inShard
  · intro inShard
    exact ⟨registry.shardOf address, by simp [shardOf], inShard⟩

/-- No two entries are for one address. -/
theorem nodup_addresses (registry : Registry) :
    (registry.entries.map Prod.fst).Nodup := by
  rw [entries, List.map_flatMap, List.nodup_flatMap]
  refine ⟨fun shard _ => shard.distinct, ?_⟩
  rw [List.pairwise_iff_getElem]
  intro first second firstInside secondInside ordered address inFirst inSecond
  -- an address leads back to the one shard in which its entry is
  have shard_of : ∀ (index : Nat) (inside : index < registry.shards.toList.length),
      address ∈ registry.shards.toList[index].entries.toList.map Prod.fst →
        shardIndex address = index := by
    intro index inside present
    obtain ⟨entry, inShard, rfl⟩ := List.mem_map.mp present
    exact registry.placed index (by simpa using inside) entry (by simpa using inShard)
  have same : first = second :=
    (shard_of first firstInside inFirst).symm.trans (shard_of second secondInside inSecond)
  exact Nat.ne_of_lt ordered same

theorem nodup_entries (registry : Registry) : registry.entries.Nodup :=
  registry.nodup_addresses.of_map Prod.fst

/-- Registries that find the same sizes have the same entries. -/
theorem entries_perm_of_find?_eq
    (same : ∀ address, registry.find? address = other.find? address) :
    registry.entries.Perm other.entries := by
  rw [List.perm_ext_iff_of_nodup registry.nodup_entries other.nodup_entries]
  rintro ⟨address, size⟩
  rw [mem_entries_iff, mem_entries_iff, same]

/-- The number of blocks is that of the entries. -/
theorem blocks_eq_length (registry : Registry) : registry.blocks = registry.entries.length := by
  rw [blocks, entries]
  generalize registry.shards.toList = shards
  induction shards with
  | nil => rfl
  | cons shard shards inductionHypothesis =>
      rw [List.map_cons, Word.total_cons, inductionHypothesis, List.flatMap_cons,
        List.length_append]
      rfl

/-- A snapshot has the entries in it. -/
theorem snapshot_perm (registry : Registry) : registry.snapshot.Perm registry.entries :=
  List.mergeSort_perm _ _

/-- The addresses in a snapshot do not fall. -/
theorem pairwise_snapshot (registry : Registry) :
    registry.snapshot.Pairwise fun left right => left.1.value ≤ right.1.value := by
  let ordered : Address × UInt64 → Address × UInt64 → Bool :=
    fun left right => left.1.value ≤ right.1.value
  have transitive : ∀ first second third : Address × UInt64,
      ordered first second → ordered second third → ordered first third := by
    intro first second third before behind
    exact decide_eq_true (UInt64.le_trans (of_decide_eq_true before) (of_decide_eq_true behind))
  have total : ∀ first second : Address × UInt64, ordered first second || ordered second first := by
    intro first second
    simpa [ordered] using UInt64.le_total first.1.value second.1.value
  exact (List.pairwise_mergeSort transitive total registry.entries).imp of_decide_eq_true

/-- The entries can be listed by their addresses in one way only, as no address occurs
twice. -/
theorem snapshot_eq_of_perm
    {listed : List (Address × UInt64)}
    (perm : listed.Perm registry.entries)
    (ordered : listed.Pairwise fun left right => left.1.value ≤ right.1.value) :
    registry.snapshot = listed := by
  refine (registry.snapshot_perm.trans perm.symm).eq_of_pairwise ?_
    registry.pairwise_snapshot ordered
  rintro ⟨⟨left⟩, leftSize⟩ ⟨⟨right⟩, rightSize⟩ inSnapshot inListed before behind
  obtain rfl : left = right := UInt64.le_antisymm before behind
  -- the registry finds both sizes
  have leftFound := (mem_entries_iff _ _ _).mp (registry.snapshot_perm.mem_iff.mp inSnapshot)
  have rightFound := (mem_entries_iff _ _ _).mp (perm.mem_iff.mp inListed)
  rw [leftFound] at rightFound
  cases rightFound
  rfl

/-- A snapshot depends on the sizes that are found alone. -/
theorem snapshot_eq_of_find?_eq
    (same : ∀ address, registry.find? address = other.find? address) :
    registry.snapshot = other.snapshot :=
  snapshot_eq_of_perm (other.snapshot_perm.trans (entries_perm_of_find?_eq same).symm)
    other.pairwise_snapshot

/-- The entries as blocks. -/
def extents (registry : Registry) : List Extent :=
  registry.entries.map fun entry => ⟨entry.1, entry.2⟩

theorem finds_extents (registry : Registry) : Finds registry.find? registry.extents := by
  intro address size
  rw [← mem_entries_iff]
  constructor
  · exact fun present => List.mem_map.mpr ⟨_, present, rfl⟩
  · intro present
    obtain ⟨entry, inEntries, same⟩ := List.mem_map.mp present
    cases same
    exact inEntries

theorem nodup_extents (registry : Registry) : registry.extents.Nodup := by
  have addresses : registry.extents.map Extent.address = registry.entries.map Prod.fst := by
    rw [extents, List.map_map]
    rfl
  exact (addresses ▸ registry.nodup_addresses).of_map Extent.address

theorem blocks_eq (registry : Registry) : registry.blocks = registry.extents.length := by
  rw [blocks_eq_length, extents, List.length_map]

/-- The sum of the sizes, if it is a word. -/
theorem bytes?_eq (registry : Registry) :
    registry.bytes? = Word.ofNat? (Extent.totalSize registry.extents) := by
  rw [bytes?, Word.sum?, Extent.totalSize, extents, List.map_map, List.map_map]
  rfl

theorem exists_bytes
    (bounded : Extent.totalSize registry.extents < UInt64.size) :
    ∃ bytes, registry.bytes? = some bytes ∧
      bytes.toNat = Extent.totalSize registry.extents := by
  refine ⟨UInt64.ofNat (Extent.totalSize registry.extents), ?_,
    UInt64.toNat_ofNat_of_lt' bounded⟩
  rw [bytes?_eq, Word.ofNat?, if_pos bounded]

end Registry

namespace Finds

/-- A lookup determines the blocks that it finds. -/
theorem perm_of_nodup
    {lookup : Address → Option UInt64}
    {blocks others : List Extent}
    (finds : Finds lookup blocks)
    (findsOthers : Finds lookup others)
    (nodup : blocks.Nodup)
    (nodupOthers : others.Nodup) :
    blocks.Perm others := by
  rw [List.perm_ext_iff_of_nodup nodup nodupOthers]
  rintro ⟨address, size⟩
  rw [← finds address size, findsOthers address size]

variable {registry : Registry}
variable {blocks : List Extent}

/-- A registry that finds the blocks of a ledger has these for entries. -/
theorem extents_perm
    (finds : Finds registry.find? blocks)
    (nodup : blocks.Nodup) :
    registry.extents.Perm blocks :=
  registry.finds_extents.perm_of_nodup finds registry.nodup_extents nodup

/-- It counts the blocks of the ledger. -/
theorem blocks_eq
    (finds : Finds registry.find? blocks)
    (nodup : blocks.Nodup) :
    registry.blocks = blocks.length := by
  rw [registry.blocks_eq, (finds.extents_perm nodup).length_eq]

/-- It adds up their sizes. -/
theorem bytes?_eq
    {range : Extent}
    (finds : Finds registry.find? blocks)
    (placed : Placed range blocks) :
    ∃ bytes, registry.bytes? = some bytes ∧ bytes.toNat = Extent.totalSize blocks := by
  have same := Extent.totalSize_perm (finds.extents_perm placed.nodup)
  rw [← same]
  refine registry.exists_bytes ?_
  rw [same]
  exact Nat.lt_of_le_of_lt placed.total range.size.toNat_lt

end Finds
end GuardedHeap
