import GuardedHeap.Proofs.Arena.Outcome
import GuardedHeap.Proofs.Ledger.Placement
import Mathlib.Data.UInt

/-!
# What an arena holds

An arena holds a list of blocks if its table of live regions names exactly these
and they are placed in the part of its range that was handed out. Setting a region
apart adds a block to the list, and ending a region takes one away.
-/

namespace GuardedHeap
namespace Arena

/-- The range of memory of an arena. -/
def range (arena : Arena) : Extent :=
  ⟨arena.base, arena.capacity⟩

/-- An arena in a range whose live regions are the blocks of a list. All blocks
end before the next region, which starts no earlier than the sum of their sizes,
and nothing was freed that was not live. -/
structure Holds (arena : Arena) (range : Extent) (blocks : List Extent) : Prop where
  range_eq : arena.range = range
  nonnull : range.address ≠ .null
  placed : Placed range blocks
  before : ∀ block ∈ blocks, block.stop ≤ range.start + arena.next.toNat
  used : Extent.totalSize blocks ≤ arena.next.toNat
  live : Finds arena.sizeAt? blocks
  valid : arena.invalidFrees = 0

variable {arena changed : Arena}
variable {range block : Extent}
variable {blocks rest : List Extent}

namespace Holds

theorem perm
    (holds : Holds arena range blocks)
    (same : blocks.Perm rest) :
    Holds arena range rest where
  range_eq := holds.range_eq
  nonnull := holds.nonnull
  placed := holds.placed.perm same
  before other present := holds.before other (same.mem_iff.mpr present)
  used := by
    rw [← Extent.totalSize_perm same]
    exact holds.used
  live := holds.live.perm same
  valid := holds.valid

/-- What an arena holds does not depend on its credit. -/
theorem of_credit
    (holds : Holds arena range blocks)
    (same : { changed with credit := arena.credit } = arena) :
    Holds changed range blocks := by
  have changed_eq : changed = { arena with credit := changed.credit } := by
    rw [← same]
  rw [changed_eq]
  exact ⟨holds.range_eq, holds.nonnull, holds.placed, holds.before, holds.used,
    holds.live, holds.valid⟩

end Holds

section Creation

variable {base : Address}
variable {capacity : UInt64}
variable (created : create? base capacity = some arena)

include created

/-- A new arena has handed out nothing. -/
theorem eq_of_create? :
    arena = { base, capacity := max capacity alignment } ∧ capacity ≤ largestCapacity := by
  unfold create? at created
  split at created
  · rename_i small
    cases created
    exact ⟨rfl, small⟩
  · cases created

/-- The capacity of a new arena rounds up to the alignment. -/
theorem capacity_of_create? :
    alignment ≤ arena.capacity ∧ arena.capacity ≤ largestCapacity := by
  obtain ⟨rfl, small⟩ := eq_of_create? created
  have bound : capacity.toNat ≤ largestCapacity.toNat := UInt64.le_iff_toNat_le.mp small
  have least : alignment.toNat ≤ largestCapacity.toNat := by decide
  simp only [UInt64.le_iff_toNat_le, UInt64.toNat_max]
  omega

theorem toNat_capacity_of_create? : arena.capacity.toNat < 0x8000000000000000 := by
  have bound : arena.capacity.toNat ≤ 0x8000000000000000 - 16 :=
    UInt64.le_iff_toNat_le.mp (capacity_of_create? created).2
  omega

/-- A new arena holds nothing. -/
theorem holds_create
    (nonnull : base ≠ .null)
    (bounded : arena.range.stop ≤ 0x10000000000000000) :
    arena.Holds arena.range [] := by
  have small := toNat_capacity_of_create? created
  obtain ⟨rfl, -⟩ := eq_of_create? created
  refine ⟨rfl, nonnull, ⟨bounded, small, ?_, ?_, .nil, Nat.zero_le _⟩, ?_, Nat.zero_le _, ?_, rfl⟩
  · simp
  · simp
  · simp
  · simp [Finds, sizeAt?]

end Creation

section Table

variable {live : Std.TreeMap UInt64 UInt64}
variable {offset size : UInt64}

theorem getElem?_insert
    (live : Std.TreeMap UInt64 UInt64)
    (offset size sought : UInt64) :
    (live.insert offset size)[sought]? = if sought = offset then some size else live[sought]? := by
  rw [Std.TreeMap.getElem?_insert]
  by_cases same : sought = offset
  · simp [same]
  · have differs : ¬ offset = sought := fun equal => same equal.symm
    simp [same, differs]

theorem getElem?_erase
    (live : Std.TreeMap UInt64 UInt64)
    (offset sought : UInt64) :
    (live.erase offset)[sought]? = if sought = offset then none else live[sought]? := by
  rw [Std.TreeMap.getElem?_erase]
  by_cases same : sought = offset
  · simp [same]
  · have differs : ¬ offset = sought := fun equal => same equal.symm
    simp [same, differs]

theorem size_insert_of_fresh
    (fresh : live[offset]? = none)
    (size : UInt64) :
    (live.insert offset size).size = live.size + 1 := by
  have absent : ¬ live.contains offset := by
    rw [Std.TreeMap.contains_eq_isSome_getElem?, fresh]
    simp
  rw [Std.TreeMap.size_insert]
  exact if_neg absent

theorem size_erase_of_live
    (present : live[offset]? = some size) :
    (live.erase offset).size + 1 = live.size := by
  have contained : live.contains offset := by
    rw [Std.TreeMap.contains_eq_isSome_getElem?, present]
    rfl
  have nonempty : live.size ≠ 0 := by
    have := Std.TreeMap.isEmpty_eq_false_of_contains contained
    simpa [Std.TreeMap.isEmpty_eq_size_eq_zero] using this
  rw [Std.TreeMap.size_erase, if_pos contained]
  omega

end Table

/-- An offset is that of one address. -/
theorem offsetOf_eq_iff
    (arena : Arena)
    (address : Address)
    (offset : UInt64) :
    arena.offsetOf address = offset ↔ address = arena.addressOf offset := by
  constructor
  · rintro rfl
    exact (Address.add_offsetFrom address arena.base).symm
  · rintro rfl
    exact Address.offsetFrom_add arena.base offset

theorem sizeAt?_insert
    (arena : Arena)
    (offset size : UInt64)
    (address : Address) :
    ({ arena with live := arena.live.insert offset size } : Arena).sizeAt? address =
      if address = arena.addressOf offset then some size else arena.sizeAt? address := by
  show (arena.live.insert offset size)[arena.offsetOf address]? = _
  rw [getElem?_insert]
  simp only [offsetOf_eq_iff]
  rfl

theorem sizeAt?_erase
    (arena : Arena)
    (block address : Address) :
    ({ arena with live := arena.live.erase (arena.offsetOf block) } : Arena).sizeAt? address =
      if address = block then none else arena.sizeAt? address := by
  show (arena.live.erase (arena.offsetOf block))[arena.offsetOf address]? = _
  rw [getElem?_erase]
  have same : arena.addressOf (arena.offsetOf block) = block :=
    Address.add_offsetFrom block arena.base
  simp only [offsetOf_eq_iff, same]
  rfl

/-- A region that fits ends in the range and before the next one. -/
theorem nextAfter?_eq_some
    {size next : UInt64}
    (small : arena.capacity.toNat < 0x8000000000000000)
    (room : arena.nextAfter? size = some next) :
    arena.next.toNat + size.toNat ≤ arena.capacity.toNat ∧
      arena.next.toNat + size.toNat ≤ next.toNat := by
  unfold nextAfter? at room
  cases added : Word.add? arena.next size with
  | none => simp [added] at room
  | some last =>
      have exact := Word.toNat_of_add?_eq_some added
      simp only [added] at room
      by_cases fits : last ≤ arena.capacity
      · have bounded : last.toNat ≤ arena.capacity.toNat := UInt64.le_iff_toNat_le.mp fits
        simp only [fits, if_true, Word.alignUp?, Option.map_eq_some_iff] at room
        obtain ⟨raised, raisedBy, aligned⟩ := room
        have raise := Word.toNat_of_add?_eq_some raisedBy
        rw [show (15 : UInt64).toNat = 15 from rfl] at raise
        rw [← aligned, UInt64.toNat_mul, UInt64.toNat_div, show (16 : UInt64).toNat = 16 from rfl]
        omega
      · simp [fits] at room

namespace Holds

/-- The next region lies in the range, and the one after it lies behind. -/
theorem next_region
    {size next : UInt64}
    (holds : Holds arena range blocks)
    (nonempty : size ≠ 0)
    (room : arena.nextAfter? size = some next) :
    (arena.addressOf arena.next).value.toNat = range.start + arena.next.toNat ∧
      arena.next.toNat + size.toNat ≤ range.size.toNat ∧
      arena.next.toNat + size.toNat ≤ next.toNat := by
  have base : arena.base = range.address := congrArg Extent.address holds.range_eq
  have capacity : arena.capacity = range.size := congrArg Extent.size holds.range_eq
  obtain ⟨fits, behind⟩ := nextAfter?_eq_some (capacity ▸ holds.placed.small) room
  rw [capacity] at fits
  have bounded := holds.placed.bounded
  have positive := Word.toNat_pos nonempty
  unfold Extent.stop Extent.start at *
  refine ⟨?_, fits, behind⟩
  rw [addressOf, base]
  exact Address.toNat_add (by omega)

/-- Setting a region apart adds a block behind all others. -/
theorem reserve
    {size next : UInt64}
    (holds : Holds arena range blocks)
    (nonempty : size ≠ 0)
    (room : arena.nextAfter? size = some next)
    (allocations : Nat)
    (credit : Option Nat) :
    Holds
      { arena with next, live := arena.live.insert arena.next size, allocations, credit }
      range
      (⟨arena.addressOf arena.next, size⟩ :: blocks) := by
  obtain ⟨start, fits, behind⟩ := holds.next_region nonempty room
  have positive := Word.toNat_pos nonempty
  have total : size.toNat + Extent.totalSize blocks ≤ arena.next.toNat + size.toNat := by
    have := holds.used
    omega
  have newStart : (⟨arena.addressOf arena.next, size⟩ : Extent).start =
      range.start + arena.next.toNat := start
  have newStop : (⟨arena.addressOf arena.next, size⟩ : Extent).stop =
      range.start + arena.next.toNat + size.toNat := congrArg (· + size.toNat) newStart
  have fresh : ∀ other, ⟨arena.addressOf arena.next, other⟩ ∉ blocks := by
    intro other present
    have before := holds.before _ present
    have nonempty := holds.placed.positive _ present
    simp only [Extent.stop, Extent.start] at before nonempty newStart
    omega
  refine ⟨holds.range_eq, holds.nonnull, ?placed, ?before, ?used, ?live,
    holds.valid⟩
  case placed =>
    refine holds.placed.cons ⟨?_, ?_⟩ positive (fun block present => Or.inr ?_) ?_
    · omega
    · unfold Extent.stop at newStop ⊢
      omega
    · rw [newStart]
      exact holds.before block present
    · exact Nat.le_trans total fits
  case before =>
    refine List.forall_mem_cons.mpr ⟨?_, fun block present => ?_⟩
    · show _ ≤ range.start + next.toNat
      omega
    · exact Nat.le_trans (holds.before block present)
        (Nat.add_le_add_left (Nat.le_trans (Nat.le_add_right _ _) behind) _)
  case used =>
    exact Nat.le_trans total behind
  case live => exact holds.live.insert fresh (sizeAt?_insert arena arena.next size)

/-- Ending a live region takes its block away. -/
theorem erase
    (holds : Holds arena range (block :: rest))
    (frees : Nat) :
    Holds
      { arena with live := arena.live.erase (arena.offsetOf block.address), frees }
      range
      rest where
  range_eq := holds.range_eq
  nonnull := holds.nonnull
  placed := holds.placed.tail
  before other present := holds.before other (.tail _ present)
  used := by
    have used := holds.used
    rw [Extent.totalSize_cons] at used
    exact Nat.le_trans (Nat.le_add_left _ _) used
  live := holds.live.erase holds.placed.not_mem_tail (sizeAt?_erase arena block.address)
  valid := holds.valid

end Holds

end Arena
end GuardedHeap
