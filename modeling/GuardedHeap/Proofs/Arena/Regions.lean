import GuardedHeap.Proofs.Arena.Calls

/-!
# The regions of an arena

All live regions of an arena start at multiples of the alignment and end within the capacity and
before the next region, which only ever moves up. So no region touches another, and what is
written into a fresh one was no part of any other, even if a call names an address that was
never handed out.

`Arena.InOrder.perform` says that calls for regions of at least one byte keep this order, and
`Arena.InOrder.effect` what they do to the bytes.
-/

namespace GuardedHeap

namespace Memory

/-- A fresh region in memory: its first bytes are taken over from a source, the others are the
fresh byte, and nothing changes outside of it. -/
structure Renewed
    (before after : Memory)
    (region : Extent)
    (source : Address)
    (taken : Nat) : Prop where
  takenOver : ∀ place : UInt64, place.toNat < taken →
    after.get (region.address.add place) = before.get (source.add place)
  fresh : ∀ place : UInt64, taken ≤ place.toNat → place.toNat < region.size.toNat →
    after.get (region.address.add place) = Arena.freshByte
  others : ∀ address, ¬ region.Contains address → after.get address = before.get address

/-- Filling a region renews all of it. -/
theorem renewed_fill
    (memory : Memory)
    (region : Extent)
    (bounded : region.stop ≤ 0x10000000000000000)
    (source : Address) :
    Renewed memory (memory.fill region.address region.size.toNat Arena.freshByte)
      region source 0 where
  takenOver place inside := absurd inside (Nat.not_lt_zero _)
  fresh place _ inside := by
    apply get_fill_of_near _ _ _ _ _ (Nat.le_of_lt region.size.toNat_lt)
    rw [Address.offsetFrom_add]
    exact inside
  others address outside := get_fill_of_far _ _ _ _ _ (Extent.far_of_not_contains bounded outside)

/-- What is copied into a region from one apart from it is still there after the region was
filled. -/
theorem renewed_copy
    (memory : Memory)
    (region : Extent)
    {source : Address}
    {size : UInt64}
    (bounded : region.stop ≤ 0x10000000000000000)
    (sourceBounded : (⟨source, size⟩ : Extent).stop ≤ 0x10000000000000000)
    (apart : (⟨source, size⟩ : Extent).Apart region) :
    Renewed memory
      ((memory.fill region.address region.size.toNat Arena.freshByte).copy source region.address
        (min size region.size).toNat)
      region source (min size region.size).toNat := by
  have filled := renewed_fill memory region bounded source
  have short : (min size region.size).toNat ≤ region.size.toNat := by
    rw [UInt64.toNat_min]
    exact Nat.min_le_right _ _
  have shorter : (min size region.size).toNat ≤ size.toNat := by
    rw [UInt64.toNat_min]
    exact Nat.min_le_left _ _
  refine ⟨fun place inside => ?taken, fun place behind inside => ?fresh,
    fun address outside => ?others⟩
  case taken =>
    have inSource : (⟨source, size⟩ : Extent).Contains (source.add place) :=
      Extent.contains_add sourceBounded (Nat.lt_of_lt_of_le inside shorter)
    rw [get_copy_of_near _ _ _ (Nat.le_of_lt (UInt64.toNat_lt _)) inside]
    exact filled.others _ (apart.not_contains inSource)
  case fresh =>
    rw [get_copy_of_far _ _ _ _ _ (by rw [Address.offsetFrom_add]; exact behind)]
    exact filled.fresh place (Nat.zero_le _) inside
  case others =>
    have far := Extent.far_of_not_contains bounded outside
    rw [get_copy_of_far _ _ _ _ _ (Nat.le_trans short far)]
    exact filled.others address outside

end Memory

namespace Arena

/-- The order in which an arena keeps its live regions. The buffer lies in the address space.
Live regions are not empty, start at multiples of the alignment, end within the capacity and
before the next region, and do not touch each other. -/
structure InOrder (arena : Arena) : Prop where
  bounded : arena.range.stop ≤ 0x10000000000000000
  small : arena.capacity ≤ largestCapacity
  least : 16 ≤ arena.capacity.toNat
  next_aligned : 16 ∣ arena.next.toNat
  positive : ∀ {offset size : UInt64}, arena.live[offset]? = some size → 0 < size.toNat
  aligned : ∀ {offset size : UInt64}, arena.live[offset]? = some size → 16 ∣ offset.toNat
  within : ∀ {offset size : UInt64}, arena.live[offset]? = some size →
    offset.toNat + size.toNat ≤ arena.capacity.toNat
  before : ∀ {offset size : UInt64}, arena.live[offset]? = some size →
    offset.toNat + size.toNat ≤ arena.next.toNat
  apart : ∀ {left right leftSize rightSize : UInt64},
    arena.live[left]? = some leftSize → arena.live[right]? = some rightSize → left ≠ right →
    left.toNat + leftSize.toNat ≤ right.toNat ∨ right.toNat + rightSize.toNat ≤ left.toNat

variable {arena : Arena}
variable {size next : UInt64}

/-- The next region starts at a multiple of the alignment. -/
theorem aligned_of_nextAfter?_eq_some
    (room : arena.nextAfter? size = some next) :
    16 ∣ next.toNat := by
  unfold nextAfter? at room
  cases added : Word.add? arena.next size with
  | none => simp [added] at room
  | some last =>
      simp only [added] at room
      split at room
      · obtain ⟨raised, -, aligned⟩ := Option.map_eq_some_iff.mp room
        rw [← aligned, UInt64.toNat_mul, UInt64.toNat_div, show (16 : UInt64).toNat = 16 from rfl]
        have := raised.toNat_lt
        omega
      · cases room

namespace InOrder

theorem create
    {base : Address}
    {capacity : UInt64}
    (created : create? base capacity = some arena)
    (bounded : arena.range.stop ≤ 0x10000000000000000) :
    arena.InOrder := by
  have ⟨least, small⟩ := capacity_of_create? created
  obtain ⟨rfl, -⟩ := eq_of_create? created
  exact ⟨bounded, small, UInt64.le_iff_toNat_le.mp least, by simp, by simp, by simp, by simp,
    by simp, by simp⟩

/-- No live region starts where the next one does. -/
theorem next_fresh (inOrder : arena.InOrder) : arena.live[arena.next]? = none := by
  cases found : arena.live[arena.next]? with
  | none => rfl
  | some size =>
      have := inOrder.before found
      have := inOrder.positive found
      omega

theorem offsetOf_ne_next
    (inOrder : arena.InOrder)
    {address : Address}
    (live : arena.sizeAt? address = some size) :
    arena.offsetOf address ≠ arena.next := by
  intro same
  rw [sizeAt?, same, inOrder.next_fresh] at live
  cases live

/-- The next region lies in the buffer, and the one after it lies behind. -/
theorem next_region
    (inOrder : arena.InOrder)
    (nonempty : size ≠ 0)
    (room : arena.nextAfter? size = some next) :
    (⟨arena.addressOf arena.next, size⟩ : Extent).start =
        arena.base.value.toNat + arena.next.toNat ∧
      (⟨arena.addressOf arena.next, size⟩ : Extent).stop ≤ 0x10000000000000000 ∧
      arena.next.toNat + size.toNat ≤ arena.capacity.toNat ∧
      arena.next.toNat + size.toNat ≤ next.toNat := by
  have words : arena.capacity.toNat ≤ 0x8000000000000000 - 16 :=
    UInt64.le_iff_toNat_le.mp inOrder.small
  obtain ⟨fits, behind⟩ := nextAfter?_eq_some (by omega) room
  have positive := Word.toNat_pos nonempty
  have bounded := inOrder.bounded
  simp only [Extent.stop, Extent.start, range] at bounded ⊢
  have start : (arena.addressOf arena.next).value.toNat =
      arena.base.value.toNat + arena.next.toNat :=
    Address.toNat_add (by omega)
  omega

/-- A live region lies in the buffer and before the next one. -/
theorem live_region
    (inOrder : arena.InOrder)
    {address : Address}
    (live : arena.sizeAt? address = some size) :
    (⟨address, size⟩ : Extent).stop ≤ arena.base.value.toNat + arena.next.toNat ∧
      (⟨address, size⟩ : Extent).stop ≤ 0x10000000000000000 := by
  have within := inOrder.within live
  have before := inOrder.before live
  have positive := inOrder.positive live
  have bounded := inOrder.bounded
  simp only [Extent.stop, Extent.start, range] at bounded ⊢
  have start : address.value.toNat = arena.base.value.toNat + (arena.offsetOf address).toNat := by
    rw [← Address.toNat_add (by omega), offsetOf, Address.add_offsetFrom]
  omega

/-- A region that is set apart lies behind all others. -/
theorem reserve
    (inOrder : arena.InOrder)
    (nonempty : size ≠ 0)
    (room : arena.nextAfter? size = some next)
    (allocations : Nat)
    (credit : Option Nat) :
    InOrder
      { arena with next, live := arena.live.insert arena.next size, allocations, credit } := by
  obtain ⟨-, -, fits, behind⟩ := inOrder.next_region nonempty room
  have entries : ∀ {offset other : UInt64},
      (arena.live.insert arena.next size)[offset]? = some other →
        offset = arena.next ∧ other = size ∨ arena.live[offset]? = some other := by
    intro offset other found
    rw [getElem?_insert] at found
    split at found
    · rename_i here
      exact .inl ⟨here, (Option.some.inj found).symm⟩
    · exact .inr found
  refine ⟨inOrder.bounded, inOrder.small, inOrder.least, aligned_of_nextAfter?_eq_some room,
    fun found => ?positive, fun found => ?aligned, fun found => ?within, fun found => ?before,
    fun left right differs => ?apart⟩
  case positive =>
    rcases entries found with ⟨-, rfl⟩ | found
    · exact Word.toNat_pos nonempty
    · exact inOrder.positive found
  case aligned =>
    rcases entries found with ⟨rfl, -⟩ | found
    · exact inOrder.next_aligned
    · exact inOrder.aligned found
  case within =>
    rcases entries found with ⟨rfl, rfl⟩ | found
    · exact fits
    · exact inOrder.within found
  case before =>
    rcases entries found with ⟨rfl, rfl⟩ | found
    · exact behind
    · exact Nat.le_trans (inOrder.before found) (Nat.le_trans (Nat.le_add_right _ _) behind)
  case apart =>
    rcases entries left with ⟨rfl, rfl⟩ | leftOld <;>
      rcases entries right with ⟨rfl, rfl⟩ | rightOld
    · exact absurd rfl differs
    · exact .inr (inOrder.before rightOld)
    · exact .inl (inOrder.before leftOld)
    · exact inOrder.apart leftOld rightOld differs

/-- Ending a region keeps the others in order. -/
theorem erase
    (inOrder : arena.InOrder)
    (offset : UInt64)
    (frees : Nat) :
    InOrder { arena with live := arena.live.erase offset, frees } := by
  have entries : ∀ {other size : UInt64},
      (arena.live.erase offset)[other]? = some size → arena.live[other]? = some size := by
    intro other size found
    rw [getElem?_erase] at found
    split at found
    · cases found
    · exact found
  exact ⟨inOrder.bounded, inOrder.small, inOrder.least, inOrder.next_aligned,
    fun found => inOrder.positive (entries found), fun found => inOrder.aligned (entries found),
    fun found => inOrder.within (entries found), fun found => inOrder.before (entries found),
    fun first second => inOrder.apart (entries first) (entries second)⟩

/-- The order of regions is not about credit and counts. -/
theorem with_counts
    (inOrder : arena.InOrder)
    (invalidFrees : Nat)
    (credit : Option Nat) :
    InOrder { arena with invalidFrees, credit } :=
  ⟨inOrder.bounded, inOrder.small, inOrder.least, inOrder.next_aligned, inOrder.positive,
    inOrder.aligned, inOrder.within, inOrder.before, inOrder.apart⟩

/-- Whatever is called, the live regions stay in order. -/
theorem perform
    (inOrder : arena.InOrder)
    (memory : Memory)
    {call : Allocator.Call}
    (sized : call.Sized) :
    (arena.perform memory call).2.1.InOrder := by
  have outcome := perform_outcome arena memory call
  generalize arena.perform memory call = result at outcome
  cases outcome with
  | refused credit asks => exact inOrder.with_counts _ credit
  | granted credit room => exact inOrder.reserve sized room _ credit
  | moved credit live room => exact (inOrder.reserve sized room _ credit).erase _ arena.frees
  | ended live => exact inOrder.erase _ _
  | stray dead => exact inOrder.with_counts _ arena.credit

end InOrder

/-! ### What a call does to memory -/

/-- What a call does to memory, and which regions it hands out and ends. Only a region that is
handed out changes in memory. It is fresh, but for what a moved region takes along. Where a region
was moved from, and where one was to be ended, none is live. -/
def Effect
    (arena : Arena)
    (memory : Memory) :
    Allocator.Call → Option Address × Arena × Memory → Prop
  | .allocate size, (some address, after, changed) =>
      after.sizeAt? address = some size ∧ memory.Renewed changed ⟨address, size⟩ address 0
  | .reallocate address newSize, (some moved, after, changed) =>
      ∃ size, arena.sizeAt? address = some size ∧ after.sizeAt? moved = some newSize ∧
        after.sizeAt? address = none ∧
        memory.Renewed changed ⟨moved, newSize⟩ address (min size newSize).toNat
  | .free address, (_, after, changed) => after.sizeAt? address = none ∧ changed = memory
  | _, (_, _, changed) => changed = memory

/-- How many invalid frees a call is. -/
def strays (arena : Arena) : Allocator.Call → Nat
  | .free address => if arena.sizeAt? address = none then 1 else 0
  | _ => 0

theorem invalidFrees_perform
    (arena : Arena)
    (memory : Memory)
    (call : Allocator.Call) :
    (arena.perform memory call).2.1.invalidFrees = arena.invalidFrees + arena.strays call := by
  have outcome := perform_outcome arena memory call
  generalize arena.perform memory call = result at outcome
  cases outcome with
  | refused credit asks =>
      have none : arena.strays call = 0 := by
        cases call with
        | free address => exact absurd rfl (asks address)
        | _ => rfl
      rw [none]
      rfl
  | granted credit room => rfl
  | moved credit live room => rfl
  | ended live => simp [strays, live]
  | stray dead => simp [strays, dead]

/-- The next call changes a fresh region at most. -/
theorem InOrder.effect
    (inOrder : arena.InOrder)
    (memory : Memory)
    {call : Allocator.Call}
    (sized : call.Sized) :
    arena.Effect memory call (arena.perform memory call) := by
  have outcome := perform_outcome arena memory call
  generalize arena.perform memory call = result at outcome
  cases outcome with
  | refused credit asks =>
      cases call with
      | free address => exact absurd rfl (asks address)
      | _ => rfl
  | @granted size next credit room =>
      obtain ⟨-, bounded, -, -⟩ := inOrder.next_region sized room
      refine ⟨(sizeAt?_insert arena arena.next size _).trans (if_pos rfl), ?_⟩
      exact Memory.renewed_fill memory ⟨_, size⟩ bounded _
  | @moved address size newSize next credit live room =>
      obtain ⟨start, bounded, -, -⟩ := inOrder.next_region sized room
      obtain ⟨behind, liveBounded⟩ := inOrder.live_region live
      have differs : arena.addressOf arena.next ≠ address := by
        rintro rfl
        exact inOrder.offsetOf_ne_next live (Address.offsetFrom_add _ _)
      have inserted := (sizeAt?_insert arena arena.next newSize _).trans (if_pos rfl)
      have erased :=
        sizeAt?_erase { arena with live := arena.live.insert arena.next newSize } address
      refine ⟨size, live, ?_, ?_, ?_⟩
      · exact (erased _).trans ((if_neg differs).trans inserted)
      · exact (erased address).trans (if_pos rfl)
      · exact Memory.renewed_copy memory ⟨_, newSize⟩ bounded liveBounded
          (.inl (start ▸ behind))
  | @ended address size live => exact ⟨(sizeAt?_erase arena address _).trans (if_pos rfl), rfl⟩
  | stray dead => exact ⟨dead, rfl⟩

end Arena
end GuardedHeap
