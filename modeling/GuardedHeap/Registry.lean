import GuardedHeap.Registry.Shard

/-!
# Registries of blocks

A registry holds the sizes of live blocks by their addresses. It is divided
into sixteen shards, and the shard of an address is taken from the high bits of
a multiplicative hash. What a registry tells does not depend on the order of
entries in its shards: `find?_insert` and `find?_erase` say how it changes.
-/

namespace GuardedHeap
namespace Registry

/-- The multiplier of the hash of an address. -/
def multiplier : UInt64 := 0x9E3779B97F4A7C15

/-- The index of the shard of an address: the four high bits of its hash. -/
def shardIndex (address : Address) : Nat :=
  ((address.value * multiplier) >>> 60).toNat

/-- Every address has a shard. -/
theorem shardIndex_lt (address : Address) : shardIndex address < 16 := by
  have := (address.value * multiplier).toNat_lt
  rw [shardIndex, UInt64.toNat_shiftRight, Nat.shiftRight_eq_div_pow]
  exact Nat.div_lt_of_lt_mul this

end Registry

/-- The sizes of live blocks by their addresses. Every entry is in the shard of
its address. -/
structure Registry where
  shards : Vector Shard 16
  placed : ∀ (index : Nat) (inside : index < 16),
    ∀ entry ∈ shards[index].entries.toList, Registry.shardIndex entry.1 = index

namespace Registry

/-- A registry without entries. -/
def empty : Registry :=
  ⟨Vector.replicate 16 {}, by simp⟩

instance : Inhabited Registry := ⟨empty⟩

/-- The shard of an address. -/
def shardOf (registry : Registry) (address : Address) : Shard :=
  registry.shards[(⟨shardIndex address, shardIndex_lt address⟩ : Fin 16)]

/-- Replace the shard of an address by one that holds no more than this shard
and an entry for the address. -/
def setShard
    (registry : Registry)
    (address : Address)
    (shard : Shard)
    (bounded : ∀ entry ∈ shard.entries.toList,
      entry.1 = address ∨ entry ∈ (registry.shardOf address).entries.toList) :
    Registry where
  shards := registry.shards.set (shardIndex address) shard (shardIndex_lt address)
  placed index inside entry present := by
    rw [Vector.getElem_set] at present
    split at present
    · rename_i same
      rcases bounded entry present with equal | before
      · rw [equal, same]
      · rw [← same]
        exact registry.placed _ (shardIndex_lt address) entry before
    · exact registry.placed index inside entry present

/-- The size that is held for an address. -/
def find? (registry : Registry) (address : Address) : Option UInt64 :=
  (registry.shardOf address).find? address

/-- Whether an address is held. -/
def contains (registry : Registry) (address : Address) : Bool :=
  (registry.find? address).isSome

/-- Hold a size for an address. -/
def insert (registry : Registry) (address : Address) (size : UInt64) : Registry :=
  registry.setShard address ((registry.shardOf address).insert address size) fun entry present =>
    ((Shard.mem_insert _ _ _ entry).mp present).imp (congrArg Prod.fst) And.left

/-- Hold nothing for an address. -/
def erase (registry : Registry) (address : Address) : Registry :=
  registry.setShard address ((registry.shardOf address).erase address) fun entry present =>
    Or.inr ((Shard.mem_erase _ _ entry).mp present).1

/-- All entries, shard after shard. -/
def entries (registry : Registry) : List (Address × UInt64) :=
  registry.shards.toList.flatMap fun shard => shard.entries.toList

/-- The number of blocks. -/
def blocks (registry : Registry) : Nat :=
  Word.total (registry.shards.toList.map fun shard => shard.entries.size)

/-- The sum of the sizes of the blocks, if it is a word. -/
def bytes? (registry : Registry) : Option UInt64 :=
  Word.sum? (registry.entries.map Prod.snd)

/-- All entries by rising address. -/
def snapshot (registry : Registry) : List (Address × UInt64) :=
  registry.entries.mergeSort fun left right => left.1.value ≤ right.1.value

@[simp] theorem find?_empty (address : Address) : empty.find? address = none := by
  simp [find?, shardOf, empty, Shard.find?]

theorem shardOf_setShard
    (registry : Registry)
    (address other : Address)
    (shard : Shard)
    (bounded : ∀ entry ∈ shard.entries.toList,
      entry.1 = address ∨ entry ∈ (registry.shardOf address).entries.toList) :
    (registry.setShard address shard bounded).shardOf other =
      if shardIndex other = shardIndex address then shard else registry.shardOf other := by
  simp only [shardOf, setShard, Fin.getElem_fin, Vector.getElem_set]
  simp only [eq_comm]

/-- A registry tells the size that was put in for an address and keeps telling
the others. -/
theorem find?_insert
    (registry : Registry)
    (address other : Address)
    (size : UInt64) :
    (registry.insert address size).find? other =
      if other = address then some size else registry.find? other := by
  rw [find?, insert, shardOf_setShard]
  by_cases sameShard : shardIndex other = shardIndex address
  · have shardEq : registry.shardOf address = registry.shardOf other := by
      simp only [shardOf, sameShard]
    rw [if_pos sameShard, Shard.find?_insert, shardEq, find?]
  · have differs : other ≠ address := fun same => sameShard (by rw [same])
    rw [if_neg sameShard, if_neg differs, find?]

/-- A registry forgets the size for an address and keeps telling the others. -/
theorem find?_erase
    (registry : Registry)
    (address other : Address) :
    (registry.erase address).find? other =
      if other = address then none else registry.find? other := by
  rw [find?, erase, shardOf_setShard]
  by_cases sameShard : shardIndex other = shardIndex address
  · have shardEq : registry.shardOf address = registry.shardOf other := by
      simp only [shardOf, sameShard]
    rw [if_pos sameShard, Shard.find?_erase, shardEq, find?]
  · have differs : other ≠ address := fun same => sameShard (by rw [same])
    rw [if_neg sameShard, if_neg differs, find?]

end Registry
end GuardedHeap
