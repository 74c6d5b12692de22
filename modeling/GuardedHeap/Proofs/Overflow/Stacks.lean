import GuardedHeap.Proofs.Factory.Outcome
import GuardedHeap.Proofs.Ledger.Release
import GuardedHeap.Proofs.Overflow.Charges
import GuardedHeap.Proofs.Overflow.Steady
import GuardedHeap.Proofs.Overflow.Supply

/-!
# No overflow in stacks

A world is sound after a number of calls if its registries are backed by its arena and
nothing was counted more often than calls were made. Every call of a tower, a stack over the
arena, leads from a sound world to a sound one a call later, whether it succeeds or not.
Resets, looks at registries and releases keep a world sound. None of them overflows: the sum
of what a registry holds is a word, as it is backed by the arena.
-/

namespace GuardedHeap

open Fallible (final Leads Steady leads_of_steady steady_exactly steady_get steady_modify
  steady_ofCheck steady_pure steady_refuse)

namespace World

/-- Registries are backed by the arena, and no counter is above a number of calls. The counters are
natural numbers, and words as long as the number of calls is one. -/
structure Sound (calls : Nat) (world : World) : Prop where
  backed : world.Backed
  invalidFrees : world.arena.invalidFrees ≤ calls
  callCounts : ∀ layer, (world.callCounts.get layer).calls ≤ calls

variable {layers : List Nat}
variable {world after : World}
variable {calls : Nat}

instance : Fallible.Lasting Sound where
  later ordered sound :=
    { backed := sound.backed
      invalidFrees := Nat.le_trans sound.invalidFrees ordered
      callCounts := fun layer => Nat.le_trans (sound.callCounts layer) ordered }

namespace Sound

/-- Memory, tallies and events are not looked at. -/
theorem of_same
    (sound : world.Sound calls)
    (arena : after.arena = world.arena)
    (registries : after.registries = world.registries)
    (callCounts : after.callCounts = world.callCounts) :
    after.Sound calls where
  backed := sound.backed.of_same arena registries
  invalidFrees := arena ▸ sound.invalidFrees
  callCounts := callCounts ▸ sound.callCounts

/-- What the arena will refuse is in no books. -/
theorem of_credit
    (sound : world.Sound calls)
    (credit : Option Nat) :
    Sound calls { world with arena := { world.arena with credit } } where
  backed := sound.backed.of_unchanged (world.unchanged_of_credit credit)
  invalidFrees := sound.invalidFrees
  callCounts := sound.callCounts

theorem charged
    (sound : world.Sound calls)
    (charged : Charged layers world after)
    (backed : after.Backed) :
    after.Sound (calls + 1) where
  backed := backed
  invalidFrees := Nat.le_trans charged.invalidFrees (Nat.succ_le_succ sound.invalidFrees)
  callCounts layer :=
    Nat.le_trans (charged.own layer) (Nat.succ_le_succ (sound.callCounts layer))

end Sound
end World

namespace HeapM

open World (Sound)

variable {α : Type}
variable {calls : Nat}

/-- What is done to memory alone is in no books. -/
theorem steady_onMemory
    {yields : α → Prop}
    {computation : MemoryM α}
    (steady : Steady (fun _ => True) yields computation) :
    Steady (Sound calls) yields (onMemory computation) := by
  intro world sound
  have settled := steady world.memory trivial
  generalize ended : computation world.memory = result at settled
  cases settled with
  | value _ known =>
      rw [onMemory_of_ok ended]
      exact .value (sound.of_same rfl rfl rfl) known
  | refused _ =>
      rw [onMemory_of_error ended]
      exact .refused (sound.of_same rfl rfl rfl)

theorem steady_tell (event : Event) :
    Steady (Sound calls) (fun _ => True) (tell event) :=
  steady_modify fun _ sound => sound.of_same rfl rfl rfl

theorem steady_tallyOf (layer : Nat) :
    Steady (Sound calls) (fun _ => True) (tallyOf layer) :=
  steady_get.map _

theorem steady_setTally (layer : Nat) (tally : Tally) :
    Steady (Sound calls) (fun _ => True) (setTally layer tally) :=
  steady_modify fun _ sound => sound.of_same rfl rfl rfl

/-- Every registry of a sound world has a sum, which is no less than the count of blocks. -/
theorem steady_registryOf (layer : Nat) :
    Steady (Sound calls)
      (fun registry => ∃ bytes, registry.bytes? = some bytes ∧ registry.blocks ≤ bytes.toNat)
      (registryOf layer) :=
  steady_get.bind fun world sound =>
    steady_pure ((sound.backed.registries layer).exists_bytes world.arena.next.toNat_lt)

/-- A call that succeeds only in backed worlds and that is atomic and charged. -/
theorem leads_of_call
    {layers : List Nat}
    {call : HeapM α}
    (supplied : ∀ {before value after}, before.Backed → call before = .ok value after →
      after.Backed)
    (atomic : call.Atomic)
    (charges : ∀ world, World.Charged layers world (final call world)) :
    Leads Sound 1 (fun _ => True) call := by
  intro calls world sound
  cases ended : call world with
  | ok value after =>
      have charged := World.Charged.of_ok charges ended
      exact .value (sound.charged charged (supplied sound.backed ended)) trivial
  | error failure after =>
      obtain ⟨⟨error, rfl⟩, unchanged⟩ := atomic world failure after ended
      have charged := World.Charged.of_error charges ended
      exact .refused (sound.charged charged (sound.backed.of_unchanged unchanged))

end HeapM

namespace Registered

open HeapM (steady_registryOf steady_tell)

variable {calls : Nat}

theorem steady_totals (layer : Nat) :
    Steady (World.Sound calls) (fun totals => totals.1 ≤ totals.2.toNat) (totals layer) := by
  apply (steady_registryOf layer).bind
  rintro registry ⟨bytes, sum, bounded⟩
  apply (steady_exactly sum).bind
  intro found same
  rw [sum] at same
  cases same
  exact steady_pure bounded

theorem steady_reset (layer : Nat) :
    Steady (World.Sound calls) (fun _ => True) (reset layer) :=
  steady_modify fun _ sound =>
    { backed := sound.backed.set_registry (Registry.backed_empty _) layer
      invalidFrees := sound.invalidFrees
      callCounts := sound.callCounts }

theorem steady_release
    {inner : Allocator}
    (owns : Bool)
    (layer : Nat)
    (below : Steady (World.Sound calls) (fun _ => True) (Allocator.releaseOwned owns inner)) :
    Steady (World.Sound calls) (fun _ => True) (release layer owns inner) := by
  apply below.bind
  intro released _
  apply (steady_registryOf layer).bind
  intro registry _
  split
  · exact (steady_ofCheck released).weaken fun _ _ => trivial
  · exact (steady_totals layer).bind fun totals _ =>
      (steady_tell _).bind fun _ _ => steady_refuse

end Registered

namespace Stack

open World (Sound)

variable {calls : Nat}

theorem steady_releaseOwned
    {inner : Allocator}
    (owns : Bool)
    (below : Steady (Sound calls) (fun _ => True) inner.release) :
    Steady (Sound calls) (fun _ => True) (Allocator.releaseOwned owns inner) := by
  cases owns with
  | false => exact steady_pure trivial
  | true => exact below.attempt.weaken fun _ _ => trivial

/-- A release looks at sums and counts, whichever layers own what lies below them. -/
theorem steady_release (stack : Stack) :
    Steady (Sound calls) (fun _ => True) stack.allocator.release := by
  induction stack with
  | raw store => exact steady_pure trivial
  | guarded layer owns inner inductionHypothesis =>
      apply (steady_releaseOwned owns inductionHypothesis).bind
      intro below _
      apply (HeapM.steady_tallyOf layer).bind
      intro tally _
      split
      · exact (steady_ofCheck below).weaken fun _ _ => trivial
      · exact (HeapM.steady_tell _).bind fun _ _ => steady_refuse
  | registered layer owns inner inductionHypothesis =>
      exact Registered.steady_release owns layer (steady_releaseOwned owns inductionHypothesis)
  | counted layer inner inductionHypothesis =>
      have counts : Steady (Sound calls) (fun _ => True)
          (HeapM.modifyCounts layer fun counts =>
            { counts with releases := counts.releases + 1 }) := by
        refine steady_modify fun world sound =>
          ⟨⟨sound.backed.registries, sound.backed.arena⟩, sound.invalidFrees, fun other => ?_⟩
        -- releases are not among the calls that are summed up
        show ((world.callCounts.set layer _).get other).calls ≤ calls
        rw [Table.get_set]
        split
        · exact sound.callCounts layer
        · exact sound.callCounts other
      exact counts.bind fun _ _ => inductionHypothesis

theorem steady_reset (stack : Stack) :
    Steady (Sound calls) (fun _ => True) stack.reset := by
  cases stack with
  | guarded layer owns inner => exact HeapM.steady_setTally layer {}
  | registered layer owns inner => exact Registered.steady_reset layer
  | raw store => exact steady_pure trivial
  | counted layer inner => exact steady_pure trivial

end Stack

/-- A stack over the arena in which no layer lies above itself. -/
structure Tower where
  stack : Stack
  overArena : stack.store = .arena
  distinct : stack.layers.Nodup

namespace Tower

open World (Sound)

variable (tower : Tower)

theorem leads_allocate (size : UInt64) :
    Leads Sound 1 (fun _ => True) (tower.stack.allocator.allocate size) := by
  have supplies := Stack.supplies tower.overArena tower.distinct
  have charges := Stack.charges tower.overArena tower.distinct
  exact HeapM.leads_of_call (fun backed granted => (supplies.allocate backed granted).backed)
    (tower.stack.allocator_atomic.allocate size) (charges.allocate size)

theorem leads_reallocate (address : Address) (newSize : UInt64) :
    Leads Sound 1 (fun _ => True) (tower.stack.allocator.reallocate address newSize) := by
  have supplies := Stack.supplies tower.overArena tower.distinct
  have charges := Stack.charges tower.overArena tower.distinct
  exact HeapM.leads_of_call (fun backed moved => (supplies.reallocate backed moved).backed)
    (tower.stack.allocator_atomic.reallocate address newSize)
    (charges.reallocate address newSize)

theorem leads_free (address : Address) :
    Leads Sound 1 (fun _ => True) (tower.stack.allocator.free address) := by
  have supplies := Stack.supplies tower.overArena tower.distinct
  have charges := Stack.charges tower.overArena tower.distinct
  exact HeapM.leads_of_call (fun backed freed => (supplies.free backed freed).backed)
    (tower.stack.allocator_atomic.free address) (charges.free address)

/-- Every call of a tower leads from a sound world to a sound one. -/
theorem leads_call (call : Allocator.Call) :
    Leads Sound 1 (fun _ => True) (tower.stack.allocator.call call) := by
  cases call with
  | allocate size =>
      exact (tower.leads_allocate size).then_steady
        fun _ _ _ => steady_pure trivial
  | reallocate address newSize =>
      exact (tower.leads_reallocate address newSize).then_steady
        fun _ _ _ => steady_pure trivial
  | free address =>
      exact (tower.leads_free address).then_steady
        fun _ _ _ => steady_pure trivial

end Tower
end GuardedHeap
