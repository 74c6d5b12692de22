import GuardedHeap.Guard
import GuardedHeap.Proofs.Guard.Intact
import Mathlib.Data.List.Pairwise

/-!
# Placed blocks

Blocks are placed in a range of memory if they lie in it without touching each
other. A block between guard words lies in its region, sixteen bytes behind the
start and eight before the end, so blocks are placed where their regions are.
Blocks that are placed start at different addresses, at which their sizes can be
looked up.
-/

namespace GuardedHeap

namespace Extent

instance : Std.Symm Apart := ⟨fun _ _ => Apart.symm⟩

/-- The sum of the sizes of blocks. -/
def totalSize (blocks : List Extent) : Nat :=
  Word.total (blocks.map fun block => block.size.toNat)

@[simp] theorem totalSize_cons (block : Extent) (blocks : List Extent) :
    totalSize (block :: blocks) = block.size.toNat + totalSize blocks := rfl

theorem totalSize_perm
    {blocks rest : List Extent}
    (same : blocks.Perm rest) :
    totalSize blocks = totalSize rest := by
  induction same with
  | nil => rfl
  | cons block _ inductionHypothesis =>
      rw [totalSize_cons, totalSize_cons, inductionHypothesis]
  | swap first second blocks =>
      simp only [totalSize_cons]
      exact Nat.add_left_comm _ _ _
  | trans _ _ first second => exact first.trans second

/-- Blocks that are not empty are no more than their bytes. -/
theorem length_le_totalSize
    {blocks : List Extent}
    (positive : ∀ block ∈ blocks, 0 < block.size.toNat) :
    blocks.length ≤ totalSize blocks := by
  induction blocks with
  | nil => exact Nat.le_refl 0
  | cons block blocks inductionHypothesis =>
      have first := positive block (.head _)
      have others := inductionHypothesis fun other present => positive other (.tail _ present)
      rw [List.length_cons, totalSize_cons]
      omega

/-- The region that holds a block and its guard words. -/
def around (block : Extent) : Extent :=
  ⟨block.address.sub Guard.headerBytes, block.size + 24⟩

/-- The region after a number of guarded layers. -/
def outward (depth : Nat) (block : Extent) : Extent :=
  ⟨block.address.sub (UInt64.ofNat (16 * depth)), block.size + UInt64.ofNat (24 * depth)⟩

@[simp] theorem outward_zero (block : Extent) : block.outward 0 = block := by
  simp [outward, Address.sub]

theorem around_outward (depth : Nat) (block : Extent) :
    (block.outward depth).around = block.outward (depth + 1) := by
  have addresses : (block.address.sub (UInt64.ofNat (16 * depth))).sub Guard.headerBytes =
      block.address.sub (UInt64.ofNat (16 * (depth + 1))) := by
    simp only [Address.sub, Nat.mul_add, UInt64.ofNat_add, UInt64.sub_eq_add_neg,
      UInt64.neg_add, UInt64.add_assoc]
    rfl
  have sizes : block.size + UInt64.ofNat (24 * depth) + 24 =
      block.size + UInt64.ofNat (24 * (depth + 1)) := by
    rw [Nat.mul_add, UInt64.ofNat_add, UInt64.add_assoc]
    rfl
  rw [around, outward, addresses, sizes]
  rfl

theorem around_injective : Function.Injective around := by
  rintro ⟨⟨left⟩, leftSize⟩ ⟨⟨right⟩, rightSize⟩ equal
  simp only [around, Address.sub, mk.injEq, Address.mk.injEq, UInt64.sub_left_inj,
    UInt64.add_left_inj] at equal
  rw [equal.1, equal.2]

/-- The region of the block in a region is that region. -/
theorem around_blockOf (region : Address) (size : UInt64) :
    around ⟨Guard.blockOf region, size⟩ = ⟨region, size + 24⟩ := by
  rw [around, Guard.blockOf, Address.sub_add_cancel]

variable {block : Extent}

/-- The region that a guarded layer finds for a block is the one around it. -/
theorem address_around_of_regionOf?
    {region : Address}
    (around : Guard.regionOf? block.address = some region) :
    block.around.address = region := by
  show block.address.sub Guard.headerBytes = region
  rw [← (Guard.toNat_of_regionOf?_eq_some around).2, Guard.blockOf, Address.sub_add_cancel]

/-- Regions are larger than their blocks. -/
theorem totalSize_le_around
    {blocks : List Extent}
    (fits : ∀ block ∈ blocks, Guard.Fits block.size) :
    totalSize blocks ≤ totalSize (blocks.map around) := by
  induction blocks with
  | nil => exact Nat.le_refl 0
  | cons block blocks inductionHypothesis =>
      have first : block.around.size.toNat = block.size.toNat + 24 :=
        (fits block (.head _)).toNat_add
      have others := inductionHypothesis fun other present => fits other (.tail _ present)
      rw [List.map_cons, totalSize_cons, totalSize_cons]
      omega

/-- A block lies sixteen bytes behind the start of its region and eight before
the end. -/
theorem start_around
    (fits : Guard.Fits block.size)
    (bounded : block.around.stop ≤ 0x10000000000000000) :
    block.start = block.around.start + 16 ∧ block.around.stop = block.stop + 8 := by
  have := block.address.value.toNat_lt
  have size := fits.toNat_add
  simp only [stop, start, around, Address.value_sub, UInt64.toNat_sub,
    show Guard.headerBytes.toNat = 16 from rfl] at bounded ⊢
  omega

/-- The guard words of a block lie in its region and outside the block. -/
theorem contains_around_of_inWords
    {address : Address}
    (fits : Guard.Fits block.size)
    (bounded : block.around.stop ≤ 0x10000000000000000)
    (inWords : Guard.InWords block.around.address block.size address) :
    block.around.Contains address ∧ ¬ block.Contains address := by
  obtain ⟨behind, before⟩ := start_around fits bounded
  have header : (Guard.headerOf block.around.address).value.toNat = block.around.start + 8 :=
    Address.toNat_add (by unfold stop start at *; change _ + 8 < _; omega)
  have footer : (Guard.footerOf block.around.address block.size).value.toNat = block.stop := by
    have distance := fits.toNat_headerBytes_add
    rw [Guard.footerOf, Address.toNat_add (by unfold stop start at *; omega), distance]
    unfold stop start at *
    omega
  have region : block.around.address.value.toNat = block.around.start := rfl
  have size : block.stop = block.start + block.size.toNat := rfl
  unfold Contains
  rcases inWords with inSize | inHeader | inFooter
  · rw [Memory.inWord_iff (by omega)] at inSize
    omega
  · rw [Memory.inWord_iff (by omega)] at inHeader
    omega
  · rw [Memory.inWord_iff (by omega)] at inFooter
    omega

/-- The bytes of a block are bytes of its region. -/
theorem Contains.around
    {address : Address}
    (contains : block.Contains address)
    (fits : Guard.Fits block.size)
    (bounded : block.around.stop ≤ 0x10000000000000000) :
    block.around.Contains address := by
  obtain ⟨behind, before⟩ := start_around fits bounded
  unfold Contains at *
  omega

end Extent

/-- Blocks of at least one byte that lie in a range without touching each other,
and the sum of whose sizes is not larger than the range. The range fits into the
address space and takes less than half of it. -/
structure Placed (range : Extent) (blocks : List Extent) : Prop where
  bounded : range.stop ≤ 0x10000000000000000
  small : range.size.toNat < 0x8000000000000000
  inside : ∀ block ∈ blocks, range.start ≤ block.start ∧ block.stop ≤ range.stop
  positive : ∀ block ∈ blocks, 0 < block.size.toNat
  apart : blocks.Pairwise Extent.Apart
  total : Extent.totalSize blocks ≤ range.size.toNat

namespace Placed

variable {range block : Extent}
variable {blocks rest : List Extent}

theorem perm
    (placed : Placed range blocks)
    (same : blocks.Perm rest) :
    Placed range rest where
  bounded := placed.bounded
  small := placed.small
  inside block present := placed.inside block (same.mem_iff.mpr present)
  positive block present := placed.positive block (same.mem_iff.mpr present)
  apart := (same.pairwise_iff Extent.Apart.symm).mp placed.apart
  total := by
    rw [← Extent.totalSize_perm same]
    exact placed.total

theorem cons
    (placed : Placed range blocks)
    (inside : range.start ≤ block.start ∧ block.stop ≤ range.stop)
    (positive : 0 < block.size.toNat)
    (apart : ∀ other ∈ blocks, block.Apart other)
    (total : block.size.toNat + Extent.totalSize blocks ≤ range.size.toNat) :
    Placed range (block :: blocks) where
  bounded := placed.bounded
  small := placed.small
  inside := List.forall_mem_cons.mpr ⟨inside, placed.inside⟩
  positive := List.forall_mem_cons.mpr ⟨positive, placed.positive⟩
  apart := List.pairwise_cons.mpr ⟨apart, placed.apart⟩
  total := total

theorem tail (placed : Placed range (block :: rest)) : Placed range rest where
  bounded := placed.bounded
  small := placed.small
  inside other present := placed.inside other (.tail _ present)
  positive other present := placed.positive other (.tail _ present)
  apart := (List.pairwise_cons.mp placed.apart).2
  total := by
    have total := placed.total
    rw [Extent.totalSize_cons] at total
    omega

theorem stop_le
    (placed : Placed range blocks)
    (present : block ∈ blocks) :
    block.stop ≤ 0x10000000000000000 :=
  Nat.le_trans (placed.inside block present).2 placed.bounded

/-- The block at the head is apart from all others. -/
theorem apart_head
    (placed : Placed range (block :: rest))
    {other : Extent}
    (present : other ∈ rest) :
    block.Apart other :=
  (List.pairwise_cons.mp placed.apart).1 other present

/-- No other block starts where the one at the head does. -/
theorem not_mem_tail
    (placed : Placed range (block :: rest))
    (size : UInt64) :
    ⟨block.address, size⟩ ∉ rest := by
  intro present
  have apart := placed.apart_head present
  have first := placed.positive block (.head _)
  have second := placed.positive _ (.tail _ present)
  simp only [Extent.Apart, Extent.stop, Extent.start] at apart second
  omega

/-- No block is placed twice. -/
theorem nodup (placed : Placed range blocks) : blocks.Nodup := by
  induction blocks with
  | nil => exact List.nodup_nil
  | cons block blocks inductionHypothesis =>
      exact List.nodup_cons.mpr
        ⟨placed.not_mem_tail block.size, inductionHypothesis placed.tail⟩

/-- The bytes of all other blocks are far from the start of the one at the head. -/
theorem far_of_contains
    (placed : Placed range (block :: rest))
    {other : Extent}
    {address : Address}
    (present : other ∈ rest)
    (contains : other.Contains address) :
    block.size.toNat ≤ (address.offsetFrom block.address).toNat :=
  Extent.far_of_not_contains (placed.stop_le (.head _))
    ((placed.apart_head present).symm.not_contains contains)

/-- A block is determined by any address that it contains. -/
theorem eq_of_contains
    (placed : Placed range blocks)
    {first second : Extent}
    {address : Address}
    (firstPresent : first ∈ blocks)
    (secondPresent : second ∈ blocks)
    (inFirst : first.Contains address)
    (inSecond : second.Contains address) :
    first = second := by
  by_contra differs
  have apart : first.Apart second :=
    placed.apart.forall firstPresent secondPresent differs
  exact apart.not_contains inFirst inSecond

/-- There are no more blocks than bytes. -/
theorem length_le (placed : Placed range blocks) : blocks.length ≤ range.size.toNat :=
  Nat.le_trans (Extent.length_le_totalSize placed.positive) placed.total

/-- The guard words of a block are bytes of no block. -/
theorem not_contains_of_inWords
    (placed : Placed range (blocks.map Extent.around))
    (fits : ∀ block ∈ blocks, Guard.Fits block.size)
    {other : Extent}
    {address : Address}
    (present : block ∈ blocks)
    (inWords : Guard.InWords block.around.address block.size address)
    (otherPresent : other ∈ blocks) :
    ¬ other.Contains address := by
  intro contains
  have inAround := Extent.contains_around_of_inWords (fits block present)
    (placed.stop_le (List.mem_map_of_mem present)) inWords
  have inOther := contains.around (fits other otherPresent)
    (placed.stop_le (List.mem_map_of_mem otherPresent))
  have same := placed.eq_of_contains (List.mem_map_of_mem present)
    (List.mem_map_of_mem otherPresent) inAround.1 inOther
  rw [Extent.around_injective same] at inAround
  exact inAround.2 contains

/-- Blocks are placed where their regions are. -/
theorem of_around
    (placed : Placed range (blocks.map Extent.around))
    (fits : ∀ block ∈ blocks, Guard.Fits block.size)
    (positive : ∀ block ∈ blocks, 0 < block.size.toNat) :
    Placed range blocks where
  bounded := placed.bounded
  small := placed.small
  inside block present := by
    have bounds := placed.inside _ (List.mem_map_of_mem present)
    have := Extent.start_around (fits block present)
      (Nat.le_trans bounds.2 placed.bounded)
    omega
  positive := positive
  apart := by
    refine (List.pairwise_map.mp placed.apart).imp_of_mem
      fun {left right} inLeft inRight apart => ?_
    have leftAround := Extent.start_around (fits left inLeft)
      (placed.stop_le (List.mem_map_of_mem inLeft))
    have rightAround := Extent.start_around (fits right inRight)
      (placed.stop_le (List.mem_map_of_mem inRight))
    unfold Extent.Apart at *
    omega
  total := Nat.le_trans (Extent.totalSize_le_around fits) placed.total

end Placed

/-- A lookup that finds the sizes of exactly the blocks of a list. -/
def Finds (lookup : Address → Option UInt64) (blocks : List Extent) : Prop :=
  ∀ address size, lookup address = some size ↔ ⟨address, size⟩ ∈ blocks

namespace Finds

variable {lookup changed : Address → Option UInt64}
variable {blocks rest : List Extent}

theorem congr
    (finds : Finds lookup blocks)
    (same : ∀ address, changed address = lookup address) :
    Finds changed blocks := by
  intro address size
  rw [same]
  exact finds address size

theorem perm
    (finds : Finds lookup blocks)
    (same : blocks.Perm rest) :
    Finds lookup rest := by
  intro address size
  exact (finds address size).trans same.mem_iff

/-- The size of a new block is found at its address. -/
theorem insert
    {block : Extent}
    (finds : Finds lookup blocks)
    (fresh : ∀ size, ⟨block.address, size⟩ ∉ blocks)
    (inserted : ∀ sought, changed sought =
      if sought = block.address then some block.size else lookup sought) :
    Finds changed (block :: blocks) := by
  intro address size
  rw [inserted, List.mem_cons]
  by_cases same : address = block.address
  · subst same
    have absent := fresh size
    obtain ⟨start, length⟩ := block
    simp [absent, eq_comm]
  · have differs : (⟨address, size⟩ : Extent) ≠ block := by
      rintro rfl
      exact same rfl
    rw [if_neg same, finds address size]
    simp [differs]

/-- Nothing is found any more at the address of a block that ended. -/
theorem erase
    {block : Extent}
    (finds : Finds lookup (block :: rest))
    (alone : ∀ size, ⟨block.address, size⟩ ∉ rest)
    (erased : ∀ sought, changed sought =
      if sought = block.address then none else lookup sought) :
    Finds changed rest := by
  intro address size
  rw [erased]
  by_cases same : address = block.address
  · subst same
    simp [alone size]
  · have differs : (⟨address, size⟩ : Extent) ≠ block := by
      rintro rfl
      exact same rfl
    rw [if_neg same, finds address size, List.mem_cons]
    simp [differs]

end Finds

end GuardedHeap
