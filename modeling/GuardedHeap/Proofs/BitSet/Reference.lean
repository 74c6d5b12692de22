import GuardedHeap.Proofs.BitSet.Packed
import GuardedHeap.Proofs.Access.Framed
import GuardedHeap.Proofs.Allocator.Within
import GuardedHeap.Proofs.Run.Basic
import Mathlib.Algebra.BigOperators.Group.Finset.Basic
import Mathlib.Data.Finset.SymmDiff

/-!
# Bit sets are finite sets

A bit set is compared with a finite set of numbers. Its memory shows the set if the bits that
are on are those of its numbers, so that no bit beyond the size is on. Every request has the
same answer from memory as from the numbers, and the memory that it leaves shows the numbers
that it leaves. The count of all bits that are on is then the count of the numbers.
-/

namespace GuardedHeap

namespace BitSet

/-- What a set answers. -/
inductive Answer
  | done
  | member (isIn : Bool)
  | count (numbers : Nat)
  deriving DecidableEq

namespace Request

/-- Answer a request by the bytes of a set. -/
def perform (set : BitSet) : Request → MemoryM Answer
  | .insert index => do
      set.insert index
      pure .done
  | .toggle index => do
      set.toggle index
      pure .done
  | .erase index => do
      set.erase index
      pure .done
  | .contains index => do pure (.member (← set.contains index))
  | .clear => do
      set.clear
      pure .done
  | .count => do pure (.count (← set.count))

/-- Answer a request by the numbers that are there, and give those that are there then. A
number that is not below the size is refused. -/
def consult (size : UInt64) (numbers : Finset UInt64) :
    Request → Except HeapError (Answer × Finset UInt64)
  | .insert index =>
      if index < size then .ok (.done, Insert.insert index numbers)
      else .error (.outOfBounds index 1 size)
  | .toggle index =>
      if index < size then .ok (.done, symmDiff numbers {index})
      else .error (.outOfBounds index 1 size)
  | .erase index =>
      if index < size then .ok (.done, numbers.erase index)
      else .error (.outOfBounds index 1 size)
  | .contains index =>
      if index < size then .ok (.member (decide (index ∈ numbers)), numbers)
      else .error (.outOfBounds index 1 size)
  | .clear => .ok (.done, ∅)
  | .count => .ok (.count numbers.card, numbers)

end Request

/-- Make requests one after the other, be they refused or not. -/
def performAll (set : BitSet) : List Request → MemoryM Unit
  | [] => pure ()
  | request :: requests => do
      let _ ← Fallible.attempt (request.perform set)
      performAll set requests

/-- The numbers that are there after requests. A refused request changes none. -/
def numbersAfter (size : UInt64) (numbers : Finset UInt64) : List Request → Finset UInt64
  | [] => numbers
  | request :: requests =>
      match request.consult size numbers with
      | .ok (_, changed) => numbersAfter size changed requests
      | .error _ => numbersAfter size numbers requests

/-- Memory shows numbers below the size of a set if the bits of its block that are on are
theirs. -/
structure Shows (set : BitSet) (memory : Memory) (numbers : Finset UInt64) : Prop where
  below : ∀ index ∈ numbers, index < set.size
  bits : ∀ index, set.Spans index → set.isOn memory index = decide (index ∈ numbers)

/-- Memory is as it was outside the block of a set. -/
def KeepsOutside (set : BitSet) (original memory : Memory) : Prop :=
  ∀ address, ¬ set.root.extent.Contains address → memory.get address = original.get address

/-- A request does to memory what it does to numbers: it has the same answer and leaves
memory that shows what is there then, or it is refused for the same cause and leaves memory
as it was. -/
def Request.ActsOn (set : BitSet) (memory : Memory) (numbers : Finset UInt64)
    (request : Request) : Prop :=
  match request.consult set.size numbers with
  | .ok (answer, changed) =>
      ∃ after, request.perform set memory = .ok answer after ∧
        set.Shows after changed ∧ set.KeepsOutside memory after
  | .error error => request.perform set memory = .error (.refused error) memory

end BitSet

namespace Bits

/-- The count of a byte is that of the places where its bits are on. -/
theorem count_eq_card (byte : UInt8) :
    count byte = ((Finset.range 8).filter fun place => byte.toNat.testBit place).card := by
  rw [Finset.card, Finset.filter_val, Finset.range_val, Multiset.range, Multiset.filter_coe,
    Multiset.coe_card, count]
  simp only [Bool.decide_eq_true]

end Bits

namespace BitSet

variable {set : BitSet}
variable {memory : Memory}
variable {numbers : Finset UInt64}

/-- The number whose bit is at a place of a byte. -/
def indexAt (offset place : Nat) : UInt64 :=
  UInt64.ofNat (8 * offset + place)

namespace Packed

variable {offset place : Nat}

/-- Every bit of the block is that of a number. -/
theorem toNat_indexAt
    (packed : set.Packed)
    (inside : offset < set.root.extent.size.toNat)
    (small : place < 8) :
    (indexAt offset place).toNat = 8 * offset + place := by
  have := packed.bytes
  have := packed.raised
  apply UInt64.toNat_ofNat_of_lt'
  show 8 * offset + place < 0x10000000000000000
  omega

theorem byteOf_indexAt
    (packed : set.Packed)
    (inside : offset < set.root.extent.size.toNat)
    (small : place < 8) :
    Bits.byteOf (indexAt offset place) = UInt64.ofNat offset := by
  have below : offset < 0x10000000000000000 :=
    Nat.lt_trans inside set.root.extent.size.toNat_lt
  apply UInt64.toNat_inj.mp
  rw [Bits.toNat_byteOf, packed.toNat_indexAt inside small, UInt64.toNat_ofNat_of_lt' below]
  omega

end Packed

namespace Shows

/-- Every bit of the block is on if its number is there. -/
theorem testBit
    (shown : set.Shows memory numbers)
    (packed : set.Packed)
    {offset place : Nat}
    (inside : offset < set.root.extent.size.toNat)
    (small : place < 8) :
    (memory.get (set.root.extent.address.add (UInt64.ofNat offset))).toNat.testBit place =
      decide (indexAt offset place ∈ numbers) := by
  have index := packed.toNat_indexAt inside small
  have byte := packed.byteOf_indexAt inside small
  have spans : set.Spans (indexAt offset place) := by
    rw [Spans, Bits.toNat_byteOf, index]
    omega
  have rest : (indexAt offset place).toNat % 8 = place := by omega
  rw [← shown.bits _ spans, isOn, byte, rest]

/-- Memories that show the same numbers hold the same bytes in the block. -/
theorem get_eq
    {other : Memory}
    (shown : set.Shows memory numbers)
    (otherShown : set.Shows other numbers)
    (packed : set.Packed)
    {address : Address}
    (inside : set.root.extent.Contains address) :
    memory.get address = other.get address := by
  have near := (Extent.contains_iff_offset_lt packed.bounded address).mp inside
  have place_eq : set.root.extent.address.add
      (UInt64.ofNat (address.offsetFrom set.root.extent.address).toNat) = address := by
    rw [UInt64.ofNat_toNat, Address.add_offsetFrom]
  rw [← place_eq]
  apply UInt8.toNat_inj.mp
  apply Nat.eq_of_testBit_eq
  intro place
  by_cases small : place < 8
  · rw [shown.testBit packed near small, otherShown.testBit packed near small]
  · rw [Bits.testBit_of_not_lt _ small, Bits.testBit_of_not_lt _ small]

/-- In every byte, as many bits are on as there are numbers with this byte. -/
theorem count_byte
    (shown : set.Shows memory numbers)
    (packed : set.Packed)
    {offset : Nat}
    (inside : offset < set.root.extent.size.toNat) :
    Bits.count (memory.get (set.root.extent.address.add (UInt64.ofNat offset))) =
      (numbers.filter fun index => (Bits.byteOf index).toNat = offset).card := by
  rw [Bits.count_eq_card]
  refine Finset.card_nbij' (indexAt offset) (fun index => index.toNat % 8) ?_ ?_ ?_ ?_
  · intro place present
    obtain ⟨small, isOn⟩ := Finset.mem_filter.mp present
    have small := Finset.mem_range.mp small
    have index := packed.toNat_indexAt inside small
    rw [shown.testBit packed inside small] at isOn
    refine Finset.mem_filter.mpr ⟨of_decide_eq_true isOn, ?_⟩
    rw [Bits.toNat_byteOf, index]
    omega
  · intro index present
    obtain ⟨member, byte⟩ := Finset.mem_filter.mp present
    have small : index.toNat % 8 < 8 := Nat.mod_lt _ (by decide)
    have same : indexAt offset (index.toNat % 8) = index := by
      apply UInt64.toNat_inj.mp
      rw [packed.toNat_indexAt inside small]
      rw [Bits.toNat_byteOf] at byte
      omega
    refine Finset.mem_filter.mpr ⟨Finset.mem_range.mpr small, ?_⟩
    rw [shown.testBit packed inside small, same]
    exact decide_eq_true member
  · intro place present
    obtain ⟨small, _⟩ := Finset.mem_filter.mp present
    have small := Finset.mem_range.mp small
    have index := packed.toNat_indexAt inside small
    show (indexAt offset place).toNat % 8 = place
    omega
  · intro index present
    obtain ⟨member, byte⟩ := Finset.mem_filter.mp present
    have small : index.toNat % 8 < 8 := Nat.mod_lt _ (by decide)
    apply UInt64.toNat_inj.mp
    show (indexAt offset (index.toNat % 8)).toNat = index.toNat
    rw [packed.toNat_indexAt inside small]
    rw [Bits.toNat_byteOf] at byte
    omega

/-- As many bits are on as there are numbers. -/
theorem count
    (shown : set.Shows memory numbers)
    (packed : set.Packed) :
    set.count memory = .ok numbers.card memory := by
  have fits : (0 : UInt64).toNat + set.block.size.toNat ≤ set.block.size.toNat :=
    Nat.le_of_eq (Nat.zero_add _)
  have bytes : Word.total ((memory.read (set.block.address.add 0) set.block.size.toNat).map
      Bits.count) = numbers.card := by
    rw [Memory.read_eq_map, List.map_map]
    calc Word.total ((List.range set.block.size.toNat).map (Bits.count ∘ fun offset =>
          memory.get ((set.block.address.add 0).add (UInt64.ofNat offset))))
        = ∑ offset ∈ Finset.range set.root.extent.size.toNat, Bits.count
            (memory.get ((set.block.address.add 0).add (UInt64.ofNat offset))) := rfl
      _ = ∑ offset ∈ Finset.range set.root.extent.size.toNat,
            (numbers.filter fun index => (Bits.byteOf index).toNat = offset).card := by
          apply Finset.sum_congr rfl
          intro offset inside
          rw [Address.add_zero]
          exact shown.count_byte packed (Finset.mem_range.mp inside)
      _ = numbers.card := by
          refine (Finset.card_eq_sum_card_fiberwise fun index member => ?_).symm
          exact Finset.mem_range.mpr (packed.spans (shown.below index member))
  rw [BitSet.count, Fallible.bind_of_ok (packed.inside.read fits memory), bytes]
  rfl

/-- A change at a number, seen in memory, is that of the numbers. -/
theorem update
    (shown : set.Shows memory numbers)
    (packed : set.Packed)
    {index : UInt64}
    (below : index < set.size)
    {change : UInt8 → UInt8 → UInt8}
    {combine : Bool → Bool → Bool}
    (bitwise : Bits.Bitwise change combine)
    {changed : Finset UInt64}
    (members : ∀ other, decide (other ∈ changed) =
      if other = index then combine (decide (index ∈ numbers)) true
      else decide (other ∈ numbers)) :
    ∃ after, set.update change index memory = .ok () after ∧
      set.Shows after changed ∧ set.KeepsOutside memory after := by
  obtain ⟨after, updated, bits, outside⟩ := packed.update below bitwise memory
  refine ⟨after, updated, ⟨fun other present => ?_, fun other spans => ?_⟩, outside⟩
  · by_cases same : other = index
    · rwa [same]
    · have member := members other
      rw [if_neg same, decide_eq_true present] at member
      exact shown.below other (of_decide_eq_true member.symm)
  · rw [bits, members, shown.bits other spans, shown.bits index (packed.spans below)]

theorem clear
    (packed : set.Packed)
    (memory : Memory) :
    ∃ after, set.clear memory = .ok () after ∧ set.Shows after ∅ ∧
      set.KeepsOutside memory after := by
  obtain ⟨after, cleared, off, outside⟩ := packed.clear memory
  refine ⟨after, cleared, ⟨fun index present => ?_, fun index spans => ?_⟩, outside⟩
  · exact absurd present (Finset.notMem_empty index)
  · simpa using off index spans

end Shows

namespace Request

/-- A change of a set by a request follows that of the numbers. -/
theorem actsOn_of_update
    {request : Request}
    {index : UInt64}
    {change : UInt8 → UInt8 → UInt8}
    {combine : Bool → Bool → Bool}
    {changed : Finset UInt64}
    (packed : set.Packed)
    (shown : set.Shows memory numbers)
    (consulted : request.consult set.size numbers =
      if index < set.size then .ok (.done, changed) else .error (.outOfBounds index 1 set.size))
    (performed : request.perform set = do
      set.update change index
      pure .done)
    (bitwise : Bits.Bitwise change combine)
    (members : ∀ other, decide (other ∈ changed) =
      if other = index then combine (decide (index ∈ numbers)) true
      else decide (other ∈ numbers)) :
    request.ActsOn set memory numbers := by
  rw [ActsOn, consulted, performed]
  by_cases below : index < set.size
  · obtain ⟨after, updated, shownAfter⟩ := shown.update packed below bitwise members
    rw [if_pos below]
    exact ⟨after, Fallible.bind_of_ok updated _, shownAfter⟩
  · rw [if_neg below]
    exact Fallible.bind_of_error (update_of_not_lt below change memory) _

/-- Memory that shows a set of numbers answers every request as they do. -/
theorem actsOn
    (packed : set.Packed)
    (shown : set.Shows memory numbers)
    (request : Request) :
    request.ActsOn set memory numbers := by
  cases request with
  | insert index =>
      refine actsOn_of_update packed shown rfl rfl Bits.bitwise_set fun other => ?_
      by_cases same : other = index <;> simp [same]
  | toggle index =>
      refine actsOn_of_update packed shown rfl rfl Bits.bitwise_toggle fun other => ?_
      by_cases same : other = index <;> simp [Finset.mem_symmDiff, same]
  | erase index =>
      refine actsOn_of_update packed shown rfl rfl Bits.bitwise_clear fun other => ?_
      by_cases same : other = index <;> simp [same]
  | contains index =>
      have consulted : (Request.contains index).consult set.size numbers =
          if index < set.size then .ok (.member (decide (index ∈ numbers)), numbers)
          else .error (.outOfBounds index 1 set.size) := rfl
      rw [ActsOn, consulted]
      by_cases below : index < set.size
      · rw [if_pos below, ← shown.bits index (packed.spans below)]
        exact ⟨memory, Fallible.bind_of_ok (packed.contains below memory) _, shown,
          fun _ _ => rfl⟩
      · rw [if_neg below]
        exact Fallible.bind_of_error (contains_of_not_lt below memory) _
  | clear =>
      obtain ⟨after, cleared, shownAfter⟩ := Shows.clear packed memory
      exact ⟨after, Fallible.bind_of_ok cleared _, shownAfter⟩
  | count =>
      exact ⟨memory, Fallible.bind_of_ok (shown.count packed) _, shown, fun _ _ => rfl⟩

end Request

/-- Requests lead from memory that shows numbers to memory that shows those that are there
then. -/
theorem Shows.performAll
    (shown : set.Shows memory numbers)
    (packed : set.Packed)
    (requests : List Request) :
    ∃ after, set.performAll requests memory = .ok () after ∧
      set.Shows after (numbersAfter set.size numbers requests) ∧
      set.KeepsOutside memory after := by
  induction requests generalizing memory numbers with
  | nil => exact ⟨memory, rfl, shown, fun _ _ => rfl⟩
  | cons request requests inductionHypothesis =>
      have acts := request.actsOn packed shown
      unfold Request.ActsOn at acts
      unfold BitSet.performAll numbersAfter
      cases consulted : request.consult set.size numbers with
      | ok result =>
          obtain ⟨answer, changed⟩ := result
          rw [consulted] at acts
          obtain ⟨middle, performed, shownMiddle, keepsMiddle⟩ := acts
          obtain ⟨after, ended, shownAfter, keeps⟩ := inductionHypothesis shownMiddle
          refine ⟨after, ?_, shownAfter, fun address far => ?_⟩
          · rw [Fallible.bind_of_ok (Fallible.attempt_of_ok performed), ended]
          · rw [keeps address far, keepsMiddle address far]
      | error error =>
          rw [consulted] at acts
          obtain ⟨after, ended, rest⟩ := inductionHypothesis shown
          refine ⟨after, ?_, rest⟩
          rw [Fallible.bind_of_ok (Fallible.attempt_of_refused acts), ended]

/-- A set is made if the allocator hands out a block for its bytes, which is cleared. -/
theorem create_of_granted
    {factory : Factory}
    {size bytes : UInt64}
    {address : Address}
    {before granted : World}
    (nonempty : size ≠ 0)
    (rounded : Bits.bytesFor? size = some bytes)
    (allocated : factory.allocator.allocate bytes before = .ok address granted) :
    ∃ set opened, create factory size before = .ok set opened ∧
      set.size = size ∧ set.root.extent = ⟨address, bytes⟩ ∧
      ∃ middle, set.clear middle = .ok () opened.memory := by
  obtain ⟨middle, made⟩ : ∃ middle, factory.allocate bytes before =
      .ok ⟨⟨address, bytes⟩, factory.config.checking, some factory.id⟩ middle := by
    rw [Factory.allocate, Fallible.bind_of_ok allocated]
    exact ⟨_, rfl⟩
  obtain ⟨memory, filled⟩ := Block.fill_whole
    ⟨⟨address, bytes⟩, factory.config.checking, some factory.id⟩ 0 middle.memory
  unfold create
  rw [if_neg nonempty, rounded]
  dsimp only
  rw [Fallible.bind_of_ok made,
    Fallible.bind_of_ok (Fallible.attempt_of_ok (HeapM.onMemory_of_ok filled))]
  exact ⟨_, _, rfl, rfl, rfl, _, filled⟩

/-- No set is made in another way. -/
theorem create_eq_ok
    {factory : Factory}
    {size : UInt64}
    {before opened : World}
    (created : create factory size before = .ok set opened) :
    ∃ bytes address granted,
      size ≠ 0 ∧ Bits.bytesFor? size = some bytes ∧
      factory.allocator.allocate bytes before = .ok address granted ∧
      set.size = size ∧ set.root.extent = ⟨address, bytes⟩ ∧
      ∃ middle, set.clear middle = .ok () opened.memory := by
  by_cases isEmpty : size = 0
  · rw [create, if_pos isEmpty] at created
    cases created
  cases rounded : Bits.bytesFor? size with
  | none =>
      rw [create, if_neg isEmpty, rounded] at created
      cases created
  | some bytes =>
      cases below : factory.allocator.allocate bytes before with
      | error failure after =>
          have refused : factory.allocate bytes before = .error failure after :=
            Fallible.bind_of_error below _
          rw [create, if_neg isEmpty, rounded] at created
          dsimp only at created
          rw [Fallible.bind_of_error refused] at created
          cases created
      | ok address granted =>
          obtain ⟨made, ended, creates, facts⟩ := create_of_granted isEmpty rounded below
          rw [created] at creates
          cases creates
          exact ⟨bytes, address, granted, isEmpty, rfl, below, facts⟩

/-- A set that was made has room for its numbers and shows that there are none. -/
theorem create_packed
    {factory : Factory}
    {size : UInt64}
    {before opened : World}
    (grants : factory.allocator.GrantsBounded before)
    (created : create factory size before = .ok set opened) :
    set.size = size ∧ set.Packed ∧ set.Shows opened.memory ∅ := by
  obtain ⟨bytes, address, granted, nonempty, rounded, allocated, size_eq, extent_eq, middle,
    cleared⟩ := create_eq_ok created
  obtain ⟨raised, added, rfl⟩ := Option.map_eq_some_iff.mp rounded
  have exact := Word.toNat_of_add?_eq_some added
  have packed : set.Packed := by
    refine ⟨?positive, ?raised, ?bytes, ?bounded⟩
    case positive =>
      rw [size_eq]
      exact Word.toNat_pos nonempty
    case raised =>
      rw [size_eq]
      exact exact ▸ raised.toNat_lt
    case bytes =>
      rw [extent_eq, size_eq, UInt64.toNat_div, exact]
      rfl
    case bounded =>
      rw [extent_eq]
      exact grants _ _ _ allocated
  obtain ⟨after, clearedTo, shown, _⟩ := Shows.clear packed middle
  rw [cleared] at clearedTo
  cases clearedTo
  exact ⟨size_eq, packed, shown⟩

/-- A set that was made is a finite set of the numbers below its size, whatever was asked of
it: its bits are those of the numbers that the requests so far put there, no byte outside its
block has changed, and the next request, whatever it is, acts as it does on these numbers. -/
theorem created_acts_as_finite_set
    {factory : Factory}
    {size : UInt64}
    {before opened : World}
    (grants : factory.allocator.GrantsBounded before)
    (created : create factory size before = .ok set opened)
    (requests : List Request) :
    set.size = size ∧
    ∃ reached, set.performAll requests opened.memory = .ok () reached ∧
      set.Shows reached (numbersAfter size ∅ requests) ∧
      set.KeepsOutside opened.memory reached ∧
      ∀ request : Request, request.ActsOn set reached (numbersAfter size ∅ requests) := by
  obtain ⟨rfl, packed, shown⟩ := create_packed grants created
  obtain ⟨reached, performed, shownAfter, keeps⟩ := shown.performAll packed requests
  exact ⟨rfl, reached, performed, shownAfter, keeps, fun request =>
    request.actsOn packed shownAfter⟩

/-- A set of the numbers below thirteen, which has three bits of padding: after a number was
put there, another one turned around and a third one refused, two bits are on. -/
theorem created_acts_as_finite_set_of_thirteen :
    let stack : Stack := .instrumented 0 1 .arena
    let factory : Factory := ⟨stack.allocator, .testing, 1⟩
    let before := World.initial { base := ⟨4096⟩, capacity := 1024 }
    let requests : List Request := [.insert 3, .toggle 12, .insert 13]
    factory.allocator.GrantsBounded before ∧
    ∃ set opened, create factory 13 before = .ok set opened ∧
      ∃ reached, set.performAll requests opened.memory = .ok () reached ∧
        set.KeepsOutside opened.memory reached ∧
        ∃ after, Request.count.perform set reached = .ok (.count 2) after := by
  intro stack factory before requests
  have grants : factory.allocator.GrantsBounded before :=
    @Stack.grantsBounded stack before rfl (by decide) (by decide)
  obtain ⟨granted, allocated⟩ := Stack.instrumented_allocate_of_room 0 1 before
    (by decide : (2 : UInt64) ≠ 0) (by decide) rfl
    (by decide +kernel : before.arena.nextAfter? (2 + 24) = some 32)
  have allocates : factory.allocator.allocate 2 before = _ := allocated
  obtain ⟨set, opened, created, _⟩ := create_of_granted
    (by decide : (13 : UInt64) ≠ 0) (by decide : Bits.bytesFor? 13 = some 2) allocates
  obtain ⟨_, reached, performed, shown, keeps, acts⟩ :=
    created_acts_as_finite_set grants created requests
  obtain ⟨after, counted, _⟩ := acts .count
  have two : (numbersAfter 13 ∅ requests).card = 2 := by decide +kernel
  rw [two] at counted
  exact ⟨grants, set, opened, created, reached, performed, keeps, after, counted⟩

end BitSet
end GuardedHeap
