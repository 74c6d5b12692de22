import GuardedHeap.Proofs.Overflow.Blocks
import GuardedHeap.Proofs.Overflow.Stacks
import GuardedHeap.Workload

/-!
# No overflow in factories

What is made of a root takes one call to the tower below the factory, and one more where the
root is given back. A workload that takes blocks of given sizes sums these up only when it
has got all of them; the arena has then used up at least as many bytes, so the sum is a word.
-/

namespace GuardedHeap

open Fallible (Lasting Leads Steady leads_of_steady steady_exactly steady_ofCheck steady_pure
  steady_refuse)
open World (Sound)

theorem HeapM.exists_memory_of_onMemory
    {α : Type}
    {computation : MemoryM α}
    {value : α}
    {world after : World}
    (succeeds : onMemory computation world = .ok value after) :
    ∃ memory, after = { world with memory } := by
  cases ended : computation world.memory with
  | ok found memory =>
      rw [onMemory_of_ok ended] at succeeds
      cases succeeds
      exact ⟨memory, rfl⟩
  | error failure memory =>
      rw [onMemory_of_error ended] at succeeds
      cases succeeds

/-- A factory over a tower. -/
structure Maker where
  tower : Tower
  config : FactoryConfig
  id : Nat

namespace Maker

variable (maker : Maker)

/-- The factory itself. -/
def factory : Factory :=
  ⟨maker.tower.stack.allocator, maker.config, maker.id⟩

theorem leads_allocate (size : UInt64) :
    Leads Sound 1 (fun root => root.extent.size = size) (maker.factory.allocate size) :=
  (maker.tower.leads_allocate size).then_steady fun _ _ _ =>
    (HeapM.steady_tell _).bind fun _ _ => steady_pure rfl

theorem leads_reallocate (root : Root) (newSize : UInt64) :
    Leads Sound 1 (fun _ => True) (maker.factory.reallocate root newSize) := by
  refine Leads.after_steady (fun _ => steady_ofCheck (maker.factory.checkOrigin root)) fun _ _ => ?_
  exact (maker.tower.leads_reallocate _ newSize).then_steady fun _ _ _ =>
    (HeapM.steady_tell _).bind fun _ _ => steady_pure trivial

theorem leads_free (root : Root) :
    Leads Sound 1 (fun _ => True) (maker.factory.free root) := by
  refine Leads.after_steady (fun _ => steady_ofCheck (maker.factory.checkOrigin root)) fun _ _ => ?_
  exact (maker.tower.leads_free _).then_steady fun _ _ _ => HeapM.steady_tell _

/-- The arena has used up as many bytes as a new root has. -/
theorem used_of_allocate
    {size : UInt64}
    {root : Root}
    {world after : World}
    (backed : world.Backed)
    (allocated : maker.factory.allocate size world = .ok root after) :
    after.Backed ∧
      world.arena.next.toNat + root.extent.size.toNat ≤ after.arena.next.toNat := by
  obtain ⟨address, middle, granted, told⟩ := Fallible.ok_of_bind allocated
  cases told
  have supplies := Stack.supplies maker.tower.overArena maker.tower.distinct
  have supplied := supplies.allocate backed granted
  exact ⟨supplied.backed.of_same rfl rfl, supplied.used⟩

theorem steady_release {calls : Nat} :
    Steady (Sound calls) (fun _ => True) maker.factory.release := by
  unfold Factory.release
  split
  · exact maker.tower.stack.steady_release
  · exact steady_pure trivial

end Maker

/-- The bits in as many bytes as a set needs can be counted. -/
theorem Bits.eight_mul_bytesFor
    {bits bytes : UInt64}
    (needed : bytesFor? bits = some bytes) :
    8 * bytes.toNat < 0x10000000000000000 := by
  obtain ⟨raised, sum, rfl⟩ := Option.map_eq_some_iff.mp needed
  have small := raised.toNat_lt
  rw [UInt64.toNat_div]
  show 8 * (raised.toNat / 8) < _
  omega

namespace BitSet

variable (maker : Maker)

/-- A set that is made can be counted. If its block cannot be cleared, it is given back. -/
theorem leads_create (size : UInt64) :
    Leads Sound 2 Countable (create maker.factory size) := by
  unfold create
  by_cases isEmpty : size = 0
  · rw [if_pos isEmpty]
    exact fun _ _ sound => .refused (Lasting.later (Nat.le_add_right _ _) sound)
  rw [if_neg isEmpty]
  cases needed : Bits.bytesFor? size with
  | none => exact fun _ _ sound => .refused (Lasting.later (Nat.le_add_right _ _) sound)
  | some bytes =>
      show Leads Sound (1 + 1) Countable (maker.factory.allocate bytes >>= _)
      apply (maker.leads_allocate bytes).bind
      intro root size_eq
      have clears : ∀ calls, Steady (Sound calls) (fun _ => True)
          (Fallible.attempt (HeapM.onMemory ((Block.whole root).fill 0))) :=
        fun _ => (HeapM.steady_onMemory (Block.steady_fill 0)).attempt.weaken fun _ _ => trivial
      refine Leads.after_steady clears fun cleared _ => ?_
      cases cleared with
      | error error =>
          exact (maker.leads_free root).then_steady fun _ _ _ => steady_refuse
      | ok done =>
          have countable : Countable ⟨root, size⟩ := by
            show 8 * root.extent.size.toNat < _
            rw [size_eq]
            exact Bits.eight_mul_bytesFor needed
          refine Leads.within (?opens : Leads Sound 0 _ _) (Nat.zero_le 1)
          exact leads_of_steady fun _ =>
            (HeapM.steady_tell _).bind fun _ _ => steady_pure countable

theorem leads_close (set : BitSet) :
    Leads Sound 1 (fun _ => True) (set.close maker.factory) :=
  .after_steady (fun _ => HeapM.steady_tell _) fun _ _ => maker.leads_free set.root

end BitSet

namespace Bloom

variable (maker : Maker)

theorem leads_create (bits : UInt64) (hashes : UInt32) :
    Leads Sound 2 (fun _ => True) (create maker.factory bits hashes) := by
  unfold create
  by_cases noBits : bits = 0
  · rw [if_pos noBits]
    exact fun _ _ sound => .refused (Lasting.later (Nat.le_add_right _ _) sound)
  by_cases noHashes : hashes = 0
  · rw [if_neg noBits, if_pos noHashes]
    exact fun _ _ sound => .refused (Lasting.later (Nat.le_add_right _ _) sound)
  rw [if_neg noBits, if_neg noHashes]
  exact (BitSet.leads_create maker bits).then_steady fun _ _ _ =>
    steady_pure trivial

theorem leads_close (filter : Bloom) :
    Leads Sound 1 (fun _ => True) (filter.close maker.factory) :=
  BitSet.leads_close maker filter.bits

end Bloom

namespace Workload

section Tower

variable (tower : Tower)

theorem leads_takeAll (sizes : List UInt64) :
    Leads Sound sizes.length (fun addresses => addresses.length = sizes.length)
      (takeAll tower.stack.allocator sizes) := by
  induction sizes with
  | nil => exact leads_of_steady fun _ => steady_pure rfl
  | cons size sizes inductionHypothesis =>
      rw [List.length_cons, Nat.add_comm]
      apply (tower.leads_allocate size).bind
      intro address _
      refine inductionHypothesis.then_steady fun addresses sameLength _ =>
        steady_pure ?_
      rw [List.length_cons, sameLength, Nat.add_comm]

theorem leads_freeAll (addresses : List Address) :
    Leads Sound addresses.length (fun _ => True) (freeAll tower.stack.allocator addresses) := by
  induction addresses with
  | nil => exact leads_of_steady fun _ => steady_pure trivial
  | cons address addresses inductionHypothesis =>
      rw [List.length_cons, Nat.add_comm]
      exact (tower.leads_free address).bind fun _ _ => inductionHypothesis

/-- The arena has used up as many bytes as blocks of all sizes have. -/
theorem used_of_takeAll
    {sizes : List UInt64}
    {addresses : List Address}
    {world after : World}
    (backed : world.Backed)
    (taken : takeAll tower.stack.allocator sizes world = .ok addresses after) :
    world.arena.next.toNat + Word.total (sizes.map UInt64.toNat) ≤ after.arena.next.toNat := by
  induction sizes generalizing world addresses with
  | nil =>
      cases taken
      exact Nat.le_refl _
  | cons size sizes inductionHypothesis =>
      obtain ⟨address, middle, granted, rest⟩ := Fallible.ok_of_bind taken
      obtain ⟨others, takenOthers, _⟩ := Fallible.ok_of_bind_pure rest
      have supplies := Stack.supplies tower.overArena tower.distinct
      have supplied := supplies.allocate backed granted
      have used := supplied.used
      have usedByOthers := inductionHypothesis supplied.backed takenOthers
      rw [List.map_cons, Word.total_cons]
      omega

/-- The total of a churn is a word. -/
theorem leads_churn (sizes : List UInt64) :
    Leads Sound (sizes.length + sizes.length) (fun _ => True)
      (churn tower.stack.allocator sizes) := by
  have isWord : ∀ {calls world addresses after}, World.Sound calls world →
      takeAll tower.stack.allocator sizes world = .ok addresses after →
      Word.total (sizes.map UInt64.toNat) < 0x10000000000000000 := by
    intro calls world addresses after sound taken
    have used := used_of_takeAll tower sound.backed taken
    have small := after.arena.next.toNat_lt
    omega
  apply ((leads_takeAll tower sizes).known isWord).bind
  rintro addresses ⟨sameLength, total⟩
  rw [← sameLength, ← List.length_reverse]
  exact (leads_freeAll tower addresses.reverse).then_steady fun _ _ _ =>
    (steady_exactly (if_pos total)).weaken fun _ _ => trivial

end Tower

section Maker

variable (maker : Maker)

theorem leads_makeAll (sizes : List UInt64) :
    Leads Sound sizes.length (fun roots => roots.length = sizes.length)
      (makeAll maker.factory sizes) := by
  induction sizes with
  | nil => exact leads_of_steady fun _ => steady_pure rfl
  | cons size sizes inductionHypothesis =>
      rw [List.length_cons, Nat.add_comm]
      apply (maker.leads_allocate size).bind
      intro root _
      refine Leads.after_steady (fun _ => HeapM.steady_onMemory (Block.steady_fill 0)) fun _ _ => ?_
      refine inductionHypothesis.then_steady fun roots sameLength _ =>
        steady_pure ?_
      rw [List.length_cons, sameLength, Nat.add_comm]

theorem leads_endAll (roots : List Root) :
    Leads Sound roots.length (fun _ => True) (endAll maker.factory roots) := by
  induction roots with
  | nil => exact leads_of_steady fun _ => steady_pure trivial
  | cons root roots inductionHypothesis =>
      rw [List.length_cons, Nat.add_comm]
      exact (maker.leads_free root).bind fun _ _ => inductionHypothesis

/-- The arena has used up as many bytes as all roots have. -/
theorem used_of_makeAll
    {sizes : List UInt64}
    {roots : List Root}
    {world after : World}
    (backed : world.Backed)
    (made : makeAll maker.factory sizes world = .ok roots after) :
    world.arena.next.toNat + Word.total (roots.map fun root => root.extent.size.toNat) ≤
      after.arena.next.toNat := by
  induction sizes generalizing world roots with
  | nil =>
      cases made
      exact Nat.le_refl _
  | cons size sizes inductionHypothesis =>
      obtain ⟨root, middle, allocated, rest⟩ := Fallible.ok_of_bind made
      obtain ⟨_, cleared, filled, rest⟩ := Fallible.ok_of_bind rest
      obtain ⟨others, madeOthers, rfl⟩ := Fallible.ok_of_bind_pure rest
      obtain ⟨backed, used⟩ := maker.used_of_allocate backed allocated
      obtain ⟨memory, rfl⟩ := HeapM.exists_memory_of_onMemory filled
      have cleared : World.Backed { middle with memory } := backed.of_same rfl rfl
      have usedByOthers := inductionHypothesis cleared madeOthers
      rw [List.map_cons, Word.total_cons]
      exact Nat.add_assoc _ _ _ ▸ Nat.le_trans (Nat.add_le_add_right used _) usedByOthers

/-- The total of a churn of blocks is a word. -/
theorem leads_churnBlocks (sizes : List UInt64) :
    Leads Sound (sizes.length + sizes.length) (fun _ => True)
      (churnBlocks maker.factory sizes) := by
  have isWord : ∀ {calls world roots after}, World.Sound calls world →
      makeAll maker.factory sizes world = .ok roots after →
      Word.total ((roots.map fun root => root.extent.size).map UInt64.toNat) <
        0x10000000000000000 := by
    intro calls world roots after sound made
    have used := used_of_makeAll maker sound.backed made
    have small := after.arena.next.toNat_lt
    rw [List.map_map]
    exact Nat.lt_of_le_of_lt (Nat.le_trans (Nat.le_add_left _ _) used) small
  apply ((leads_makeAll maker sizes).known isWord).bind
  rintro roots ⟨sameLength, total⟩
  refine Leads.after_steady (fun _ => steady_exactly (if_pos total)) fun sum _ => ?_
  rw [← sameLength]
  exact (leads_endAll maker roots).then_steady fun _ _ _ => steady_pure trivial

end Maker
end Workload
end GuardedHeap
