import GuardedHeap.Proofs.Allocator.Within
import GuardedHeap.Proofs.Atomicity
import GuardedHeap.Proofs.Registry.Contents
import GuardedHeap.Proofs.Run.Basic

/-!
# Sums that the arena backs

An arena hands out every byte of its range at most once. What a registry holds was handed out
before, so the sum of its sizes is at most the part of the arena that was used up, however the
registry was reset, whatever was written into memory, and whichever other layers were called
in between: nothing but a block from below enters a registry, and the used part grows by at
least the size of this block.

`World.Supplied` says what a call does to this invariant, and `Stack.supplies` that every
call of every stack does so.
-/

namespace GuardedHeap

namespace Registry

variable {registry other : Registry}
variable {limit more : Nat}
variable {address : Address}
variable {size : UInt64}

/-- What is held when an address is taken out. -/
theorem finds_without (registry : Registry) (address : Address) :
    Finds (registry.erase address).find? (Extent.without registry.extents address) := by
  intro sought size
  rw [find?_erase, Extent.without, List.mem_filter, ← registry.finds_extents sought size]
  by_cases same : sought = address <;> simp [same]

theorem nodup_without (registry : Registry) (address : Address) :
    (Extent.without registry.extents address).Nodup :=
  registry.nodup_extents.filter _

theorem extents_erase_perm (registry : Registry) (address : Address) :
    (registry.erase address).extents.Perm (Extent.without registry.extents address) :=
  (registry.finds_without address).extents_perm (registry.nodup_without address)

/-- A block that is put in takes the place of the one at its address. -/
theorem extents_insert_perm (registry : Registry) (address : Address) (size : UInt64) :
    (registry.insert address size).extents.Perm
      (⟨address, size⟩ :: Extent.without registry.extents address) := by
  have fresh : ∀ other, (⟨address, other⟩ : Extent) ∉ Extent.without registry.extents address := by
    intro other present
    simpa using List.of_mem_filter present
  have finds : Finds (registry.insert address size).find?
      (⟨address, size⟩ :: Extent.without registry.extents address) := by
    apply (registry.finds_without address).insert fresh
    intro sought
    rw [find?_insert, find?_erase]
    by_cases same : sought = address <;> simp [same]
  exact finds.extents_perm (List.nodup_cons.mpr ⟨fresh size, registry.nodup_without address⟩)

/-- The blocks in a registry are not empty, and their sizes sum up to no more than a limit. -/
structure Backed (registry : Registry) (limit : Nat) : Prop where
  positive : ∀ block ∈ registry.extents, 0 < block.size.toNat
  total : Extent.totalSize registry.extents ≤ limit

theorem totalSize_without_le (blocks : List Extent) (address : Address) :
    Extent.totalSize (Extent.without blocks address) ≤ Extent.totalSize blocks := by
  induction blocks with
  | nil => exact Nat.le_refl 0
  | cons block blocks inductionHypothesis =>
      rw [Extent.without, List.filter_cons]
      split
      · exact Nat.add_le_add_left inductionHypothesis _
      · exact Nat.le_trans inductionHypothesis (Nat.le_add_left _ _)

theorem backed_empty (limit : Nat) : empty.Backed limit := by
  have isEmpty : empty.extents = [] := by
    apply List.eq_nil_iff_forall_not_mem.mpr
    intro block present
    have found := (empty.finds_extents block.address block.size).mpr present
    simp at found
  exact ⟨by simp [isEmpty], by simp [isEmpty, Extent.totalSize]⟩

namespace Backed

theorem mono
    (backed : registry.Backed limit)
    (ordered : limit ≤ more) :
    registry.Backed more :=
  ⟨backed.positive, Nat.le_trans backed.total ordered⟩

/-- Only what is found in a registry matters. -/
theorem congr
    (backed : registry.Backed limit)
    (same : ∀ address, other.find? address = registry.find? address) :
    other.Backed limit := by
  have perm : other.extents.Perm registry.extents :=
    (registry.finds_extents.congr same).extents_perm registry.nodup_extents
  refine ⟨fun block present => backed.positive block (perm.mem_iff.mp present), ?_⟩
  rw [Extent.totalSize_perm perm]
  exact backed.total

theorem erase
    (backed : registry.Backed limit)
    (address : Address) :
    (registry.erase address).Backed limit := by
  have perm := registry.extents_erase_perm address
  refine ⟨fun block present => ?_, ?_⟩
  · exact backed.positive block (List.mem_of_mem_filter (perm.mem_iff.mp present))
  · rw [Extent.totalSize_perm perm]
    exact Nat.le_trans (totalSize_without_le _ _) backed.total

/-- A new block needs as much more of the limit as it has bytes. -/
theorem insert
    (backed : registry.Backed limit)
    (nonempty : size ≠ 0)
    (address : Address) :
    (registry.insert address size).Backed (limit + size.toNat) := by
  have perm := registry.extents_insert_perm address size
  refine ⟨fun block present => ?_, ?_⟩
  · rcases List.mem_cons.mp (perm.mem_iff.mp present) with rfl | present
    · exact Word.toNat_pos nonempty
    · exact backed.positive block (List.mem_of_mem_filter present)
  · have := totalSize_without_le registry.extents address
    have := backed.total
    rw [Extent.totalSize_perm perm, Extent.totalSize_cons]
    show size.toNat + _ ≤ _
    omega

/-- A sum within the words is told exactly, and there are no more blocks than bytes. -/
theorem exists_bytes
    (backed : registry.Backed limit)
    (isWord : limit < 0x10000000000000000) :
    ∃ bytes, registry.bytes? = some bytes ∧ registry.blocks ≤ bytes.toNat := by
  obtain ⟨bytes, sum, exact⟩ := registry.exists_bytes (Nat.lt_of_le_of_lt backed.total isWord)
  refine ⟨bytes, sum, ?_⟩
  rw [exact, registry.blocks_eq]
  exact Extent.length_le_totalSize backed.positive

end Backed
end Registry

/-- The books of an arena in the address space: its live regions lie in its range, and so
many regions were handed out and ended that the counts are no more than the bytes used. -/
structure Arena.Balanced (arena : Arena) : Prop where
  small : arena.capacity.toNat < 0x8000000000000000
  bounded : arena.range.stop ≤ 0x10000000000000000
  regions : ∀ address size, arena.sizeAt? address = some size →
    (⟨address, size⟩ : Extent).Within arena.range
  allocations : arena.allocations ≤ arena.next.toNat
  frees : arena.frees + arena.live.size ≤ arena.allocations

namespace Arena.Balanced

variable {arena : Arena}

/-- A new arena has handed out nothing. -/
theorem create
    {base : Address}
    {capacity : UInt64}
    (created : create? base capacity = some arena)
    (bounded : arena.range.stop ≤ 0x10000000000000000) :
    arena.Balanced := by
  have small := toNat_capacity_of_create? created
  obtain ⟨rfl, -⟩ := eq_of_create? created
  refine ⟨small, bounded, fun address size found => ?_, Nat.zero_le _, ?_⟩
  · simp [sizeAt?] at found
  · simp

/-- What an arena will refuse is not in its books. -/
theorem of_credit
    {changed : Arena}
    (balanced : arena.Balanced)
    (same : { changed with credit := arena.credit } = arena) :
    changed.Balanced := by
  have changed_eq : changed = { arena with credit := changed.credit } := by
    rw [← same]
  rw [changed_eq]
  exact ⟨balanced.small, balanced.bounded, balanced.regions, balanced.allocations,
    balanced.frees⟩

/-- A region that is set apart lies in the range and uses up at least one byte. -/
theorem reserve
    {size next : UInt64}
    (balanced : arena.Balanced)
    (nonempty : size ≠ 0)
    (room : arena.nextAfter? size = some next)
    (credit : Option Nat) :
    Balanced { arena with
      next
      live := arena.live.insert arena.next size
      allocations := arena.allocations + 1
      credit } := by
  obtain ⟨fits, behind⟩ := nextAfter?_eq_some balanced.small room
  have positive := Word.toNat_pos nonempty
  refine ⟨balanced.small, balanced.bounded, ?regions, ?allocations, ?frees⟩
  case regions =>
    intro address other found
    have looked := (sizeAt?_insert arena arena.next size address).symm.trans found
    split at looked
    · rename_i here
      cases looked
      have bounded := balanced.bounded
      simp only [Extent.stop, Extent.start, range] at bounded
      have start : (arena.addressOf arena.next).value.toNat =
          arena.base.value.toNat + arena.next.toNat :=
        Address.toNat_add (by omega)
      simp only [here, Extent.Within, Extent.stop, Extent.start, range]
      omega
    · exact balanced.regions address other looked
  case allocations =>
    have := balanced.allocations
    show arena.allocations + 1 ≤ next.toNat
    omega
  case frees =>
    have := balanced.frees
    have grows : (arena.live.insert arena.next size).size ≤ arena.live.size + 1 :=
      Std.TreeMap.size_insert_le
    show arena.frees + (arena.live.insert arena.next size).size ≤ arena.allocations + 1
    omega

theorem erase
    (balanced : arena.Balanced)
    (address : Address) :
    Balanced { arena with live := arena.live.erase (arena.offsetOf address) } where
  small := balanced.small
  bounded := balanced.bounded
  regions other size found := by
    have looked := (sizeAt?_erase arena address other).symm.trans found
    split at looked
    · cases looked
    · exact balanced.regions other size looked
  allocations := balanced.allocations
  frees := Nat.le_trans (Nat.add_le_add_left Std.TreeMap.size_erase_le _) balanced.frees

/-- A region that is ended was live. -/
theorem free
    (balanced : arena.Balanced)
    (address : Address) :
    (arena.free address).Balanced := by
  unfold Arena.free
  cases live : arena.sizeAt? address with
  | none =>
      exact ⟨balanced.small, balanced.bounded, balanced.regions, balanced.allocations,
        balanced.frees⟩
  | some size =>
      have erased := balanced.erase address
      refine ⟨erased.small, erased.bounded, erased.regions, erased.allocations, ?_⟩
      have shrinks := size_erase_of_live live
      have := balanced.frees
      show arena.frees + 1 + (arena.live.erase (arena.offsetOf address)).size ≤ arena.allocations
      omega

end Arena.Balanced

end GuardedHeap
