import GuardedHeap.Address

/-!
# Shards

A shard holds sizes by addresses, one for an address at most, in an array that
is searched from its start. A removed entry is replaced by the last one, so the
order of entries depends on the history. What a shard tells is `find?`, and
`find?_insert` and `find?_erase` give it after each operation.
-/

namespace GuardedHeap

/-- The entries of one part of a registry. No address has two of them. -/
structure Shard where
  entries : Array (Address × UInt64) := #[]
  distinct : (entries.toList.map Prod.fst).Nodup := by simp

namespace Shard

/-- The place of an address among entries. -/
def indexIn? (entries : Array (Address × UInt64)) (address : Address) : Option Nat :=
  entries.findIdx? fun entry => entry.1 == address

theorem indexIn?_eq_none
    {entries : Array (Address × UInt64)}
    {address : Address}
    (absent : indexIn? entries address = none) :
    ∀ entry ∈ entries.toList, entry.1 ≠ address := by
  simpa [indexIn?] using absent

theorem indexIn?_eq_some
    {entries : Array (Address × UInt64)}
    {address : Address}
    {index : Nat}
    (found : indexIn? entries address = some index) :
    ∃ inside : index < entries.toList.length, entries.toList[index].1 = address := by
  rw [indexIn?, Array.findIdx?_eq_some_iff_getElem] at found
  obtain ⟨inside, same, _⟩ := found
  exact ⟨inside, by simpa using same⟩

/-- Moving the last element to a place and dropping the last place removes the
element that was there. -/
theorem dropLast_set_perm
    {α : Type}
    {list : List α}
    {index : Nat}
    {last : α}
    (inside : index < list.length)
    (isLast : list.getLast? = some last) :
    (list[index] :: (list.set index last).dropLast).Perm list := by
  have final : list.length - 1 < list.length := by omega
  have lastElement : list[list.length - 1] = last := by
    rw [List.getLast?_eq_getElem?, List.getElem?_eq_getElem final] at isLast
    exact Option.some.inj isLast
  have swapped := List.set_set_perm inside final
  have split : ((list.set index last).set (list.length - 1) list[index]) =
      (list.set index last).dropLast ++ [list[index]] := by
    apply List.ext_getElem
    · simp only [List.length_set, List.length_append, List.length_dropLast,
        List.length_singleton]
      omega
    · intro place _ _
      by_cases atEnd : place = list.length - 1
      · simp [atEnd]
      · have before : place < list.length - 1 := by
          simp only [List.length_set] at *
          omega
        simp [List.getElem_dropLast, before, Ne.symm atEnd]
  rw [lastElement, split] at swapped
  exact (List.perm_append_singleton _ _).symm.trans swapped

/-- Entries with one for an address replaced keep their addresses. -/
theorem distinct_set
    {entries : Array (Address × UInt64)}
    {address : Address}
    {index : Nat}
    (size : UInt64)
    (distinct : (entries.toList.map Prod.fst).Nodup)
    (found : indexIn? entries address = some index) :
    ((entries.setIfInBounds index (address, size)).toList.map Prod.fst).Nodup := by
  obtain ⟨inside, same⟩ := indexIn?_eq_some found
  have kept : (entries.toList.map Prod.fst).set index address =
      entries.toList.map Prod.fst := by
    rw [← same, ← List.getElem_map Prod.fst]
    · exact List.set_getElem_self _
    · simpa using inside
  rw [Array.toList_setIfInBounds, List.map_set, kept]
  exact distinct

theorem distinct_push
    {entries : Array (Address × UInt64)}
    {address : Address}
    (size : UInt64)
    (distinct : (entries.toList.map Prod.fst).Nodup)
    (absent : indexIn? entries address = none) :
    ((entries.push (address, size)).toList.map Prod.fst).Nodup := by
  rw [Array.toList_push, List.map_append, List.nodup_append]
  refine ⟨distinct, by simp, ?_⟩
  intro held isHeld added isAdded same
  obtain ⟨entry, present, rfl⟩ := List.mem_map.mp isHeld
  simp only [List.map_cons, List.map_nil, List.mem_singleton] at isAdded
  exact indexIn?_eq_none absent entry present (same.trans isAdded)

/-- What is left when an entry is removed, and the entry itself, are the
entries from before. -/
theorem pop_set_perm
    {entries : Array (Address × UInt64)}
    {index : Nat}
    {last : Address × UInt64}
    (inside : index < entries.toList.length)
    (isLast : entries.back? = some last) :
    (entries.toList[index] :: (entries.setIfInBounds index last).pop.toList).Perm
      entries.toList := by
  rw [Array.toList_pop, Array.toList_setIfInBounds]
  refine dropLast_set_perm inside ?_
  rw [List.getLast?_eq_getElem?]
  simpa [Array.back?] using isLast

theorem distinct_pop
    {entries : Array (Address × UInt64)}
    {address : Address}
    {index : Nat}
    {last : Address × UInt64}
    (distinct : (entries.toList.map Prod.fst).Nodup)
    (found : indexIn? entries address = some index)
    (isLast : entries.back? = some last) :
    ((entries.setIfInBounds index last).pop.toList.map Prod.fst).Nodup := by
  obtain ⟨inside, _⟩ := indexIn?_eq_some found
  have all := ((pop_set_perm inside isLast).map Prod.fst).nodup_iff.mpr distinct
  exact (List.nodup_cons.mp all).2

/-- The size that is held for an address. -/
def find? (shard : Shard) (address : Address) : Option UInt64 :=
  (shard.entries.find? fun entry => entry.1 == address).map Prod.snd

/-- Hold a size for an address, in the place of an earlier one. -/
def insert (shard : Shard) (address : Address) (size : UInt64) : Shard :=
  match found : indexIn? shard.entries address with
  | none => ⟨shard.entries.push (address, size), distinct_push size shard.distinct found⟩
  | some index =>
      ⟨shard.entries.setIfInBounds index (address, size),
        distinct_set size shard.distinct found⟩

/-- Remove the entry of an address and move the last entry to its place. -/
def erase (shard : Shard) (address : Address) : Shard :=
  match found : indexIn? shard.entries address with
  | none => shard
  | some index =>
      match isLast : shard.entries.back? with
      | none => shard
      | some last =>
          ⟨(shard.entries.setIfInBounds index last).pop,
            distinct_pop shard.distinct found isLast⟩

/-- A shard tells of exactly the entries that it has. -/
theorem find?_eq_some_iff
    (shard : Shard)
    (address : Address)
    (size : UInt64) :
    shard.find? address = some size ↔ (address, size) ∈ shard.entries.toList := by
  rw [find?, ← Array.find?_toList]
  have distinct := shard.distinct
  generalize shard.entries.toList = entries at distinct
  induction entries with
  | nil => simp
  | cons entry entries inductionHypothesis =>
      obtain ⟨absent, distinct⟩ := List.nodup_cons.mp distinct
      by_cases same : entry.1 = address
      · subst same
        have missing : (entry.1, size) ∉ entries := fun present =>
          absent (List.mem_map.mpr ⟨_, present, rfl⟩)
        simp [missing, Prod.ext_iff, eq_comm]
      · have differs : (address, size) ≠ entry := fun equal =>
          same (congrArg Prod.fst equal).symm
        simp [same, differs, inductionHypothesis distinct]

/-- Two entries of a shard for one address are the same entry. -/
theorem eq_of_mem_of_mem
    {shard : Shard}
    {left right : Address × UInt64}
    (leftPresent : left ∈ shard.entries.toList)
    (rightPresent : right ∈ shard.entries.toList)
    (same : left.1 = right.1) :
    left = right := by
  have leftFound := (shard.find?_eq_some_iff left.1 left.2).mpr leftPresent
  have rightFound := (shard.find?_eq_some_iff right.1 right.2).mpr rightPresent
  rw [same, rightFound] at leftFound
  exact Prod.ext same (Option.some.inj leftFound).symm

theorem mem_insert
    (shard : Shard)
    (address : Address)
    (size : UInt64)
    (entry : Address × UInt64) :
    entry ∈ (shard.insert address size).entries.toList ↔
      entry = (address, size) ∨ entry ∈ shard.entries.toList ∧ entry.1 ≠ address := by
  unfold insert
  split
  · rename_i absent
    have others := indexIn?_eq_none absent
    simp only [Array.toList_push, List.mem_append, List.mem_singleton]
    constructor
    · rintro (present | added)
      · exact Or.inr ⟨present, others entry present⟩
      · exact Or.inl added
    · rintro (added | ⟨present, _⟩)
      · exact Or.inr added
      · exact Or.inl present
  · rename_i index found
    obtain ⟨inside, same⟩ := indexIn?_eq_some found
    let replaced : Shard :=
      ⟨shard.entries.setIfInBounds index (address, size),
        distinct_set size shard.distinct found⟩
    have isReplaced : replaced.entries.toList = shard.entries.toList.set index (address, size) :=
      Array.toList_setIfInBounds
    change entry ∈ replaced.entries.toList ↔ _
    have added : (address, size) ∈ replaced.entries.toList := by
      rw [isReplaced]
      exact List.mem_set inside _
    constructor
    · intro present
      by_cases sameAddress : entry.1 = address
      · exact Or.inl (eq_of_mem_of_mem present added sameAddress)
      · rw [isReplaced] at present
        rcases List.mem_or_eq_of_mem_set present with before | equal
        · exact Or.inr ⟨before, sameAddress⟩
        · exact absurd (congrArg Prod.fst equal) sameAddress
    · rintro (equal | ⟨present, differs⟩)
      · exact equal ▸ added
      · obtain ⟨place, placeInside, rfl⟩ := List.getElem_of_mem present
        have elsewhere : index ≠ place := by
          rintro rfl
          exact differs same
        rw [isReplaced, ← List.getElem_set_ne elsewhere (by simpa using placeInside)]
        exact List.getElem_mem _

/-- A shard tells the size that was put in for an address and keeps telling
the others. -/
theorem find?_insert
    (shard : Shard)
    (address other : Address)
    (size : UInt64) :
    (shard.insert address size).find? other =
      if other = address then some size else shard.find? other := by
  ext found
  rw [find?_eq_some_iff, mem_insert]
  by_cases same : other = address
  · simp [same, Prod.ext_iff, eq_comm]
  · simp [same, find?_eq_some_iff]

theorem mem_erase
    (shard : Shard)
    (address : Address)
    (entry : Address × UInt64) :
    entry ∈ (shard.erase address).entries.toList ↔
      entry ∈ shard.entries.toList ∧ entry.1 ≠ address := by
  unfold erase
  split
  · rename_i absent
    have others := indexIn?_eq_none absent
    exact ⟨fun present => ⟨present, others entry present⟩, And.left⟩
  · rename_i index found
    obtain ⟨inside, same⟩ := indexIn?_eq_some found
    split
    · rename_i noLast
      simp only [Array.back?_eq_none_iff] at noLast
      simp [noLast] at inside
    · rename_i last isLast
      have removed := pop_set_perm inside isLast
      have distinct := (removed.map Prod.fst).nodup_iff.mpr shard.distinct
      obtain ⟨gone, _⟩ := List.nodup_cons.mp distinct
      rw [← removed.mem_iff, List.mem_cons]
      constructor
      · intro present
        refine ⟨Or.inr present, fun sameAddress => gone ?_⟩
        exact List.mem_map.mpr ⟨entry, present, sameAddress.trans same.symm⟩
      · rintro ⟨equal | present, differs⟩
        · exact absurd (equal ▸ same) differs
        · exact present

theorem find?_erase
    (shard : Shard)
    (address other : Address) :
    (shard.erase address).find? other =
      if other = address then none else shard.find? other := by
  ext found
  rw [find?_eq_some_iff, mem_erase]
  by_cases same : other = address
  · simp [same]
  · simp [same, find?_eq_some_iff]

end Shard
end GuardedHeap
