import GuardedHeap.Proofs.Run.Resets

/-!
# Balances

A guarded layer adds to its counters what a block takes and takes off what a block gives back, and
a reset sets them to zero while blocks are live. From then on it can take off more than it added,
where it stops at zero, and it can add bytes of a block that it does not count. Still it never
counts more blocks than are live and never more bytes than these have.

What it counts is compared with a balance in natural numbers, which stop at zero, too, and have no
upper end. The counters show the balance all along, so they do not reach around in either direction.
-/

namespace GuardedHeap

open Fallible (answer)

/-- Blocks and bytes counted in natural numbers, as many as were added since the last reset less
those that were taken off. -/
structure Balance where
  blocks : Nat := 0
  bytes : Nat := 0

namespace Balance

variable (balance : Balance)

def granted (size : UInt64) : Balance :=
  ⟨balance.blocks + 1, balance.bytes + size.toNat⟩

/-- One of the two differences is zero. -/
def moved (size newSize : UInt64) : Balance where
  blocks := balance.blocks
  bytes := balance.bytes + (newSize.toNat - size.toNat) - (size.toNat - newSize.toNat)

def ended (size : UInt64) : Balance :=
  ⟨balance.blocks - 1, balance.bytes - size.toNat⟩

end Balance

/-- What a client does with a stack that it also resets: it makes calls, about live blocks where
they succeed, writes into live blocks, and lets the arena fail and recover. The live blocks and the
balance are those after the run. -/
inductive Stack.BalanceRun (stack : Stack) (arena : Arena) : List Extent → Balance → World → Prop
  | start (memory : Memory) :
      BalanceRun stack arena [] {} { World.initial arena with memory }
  | granted
      {live : List Extent}
      {balance : Balance}
      {world after : World}
      {size : UInt64}
      {address : Address}
      (earlier : BalanceRun stack arena live balance world)
      (answered : stack.allocator.allocate size world = .ok address after) :
      BalanceRun stack arena (⟨address, size⟩ :: live) (balance.granted size) after
  | moved
      {live : List Extent}
      {balance : Balance}
      {world after : World}
      {block : Extent}
      {newSize : UInt64}
      {newAddress : Address}
      (earlier : BalanceRun stack arena live balance world)
      (isLive : block ∈ live)
      (answered : stack.allocator.reallocate block.address newSize world = .ok newAddress after) :
      BalanceRun stack arena (⟨newAddress, newSize⟩ :: live.erase block)
        (balance.moved block.size newSize) after
  | ended
      {live : List Extent}
      {balance : Balance}
      {world after : World}
      {block : Extent}
      (earlier : BalanceRun stack arena live balance world)
      (isLive : block ∈ live)
      (answered : stack.allocator.free block.address world = .ok () after) :
      BalanceRun stack arena (live.erase block) (balance.ended block.size) after
  | refused
      {live : List Extent}
      {balance : Balance}
      {world after : World}
      {call : Allocator.Call}
      {failure : Failure HeapError}
      (earlier : BalanceRun stack arena live balance world)
      (answered : stack.allocator.call call world = .error failure after) :
      BalanceRun stack arena live balance after
  | reset
      {live : List Extent}
      {balance : Balance}
      {world after : World}
      (earlier : BalanceRun stack arena live balance world)
      (answered : stack.reset world = .ok () after) :
      BalanceRun stack arena live {} after
  | wrote
      {live : List Extent}
      {balance : Balance}
      {world : World}
      {block : Extent}
      {address : Address}
      (earlier : BalanceRun stack arena live balance world)
      (isLive : block ∈ live)
      (inside : block.Contains address)
      (value : UInt8) :
      BalanceRun stack arena live balance
        { world with memory := world.memory.set address value }
  | limited
      {live : List Extent}
      {balance : Balance}
      {world : World}
      (earlier : BalanceRun stack arena live balance world)
      (count : Nat) :
      BalanceRun stack arena live balance { world with arena := world.arena.failAfter count }
  | recovered
      {live : List Extent}
      {balance : Balance}
      {world : World}
      (earlier : BalanceRun stack arena live balance world) :
      BalanceRun stack arena live balance { world with arena := world.arena.recover }

namespace Guarded

/-- A layer finds all live blocks by their marks, and its counters show a balance that is no more
than there is. -/
structure Balanced
    (layer : Nat)
    (Inner : World → List Extent → Prop)
    (live : List Extent)
    (balance : Balance)
    (world : World) : Prop where
  marked : Marked Inner world live
  blocks : (world.tallies.get layer).blocks.toNat = balance.blocks
  bytes : (world.tallies.get layer).bytes.toNat = balance.bytes
  blocks_le : balance.blocks ≤ live.length
  bytes_le : balance.bytes ≤ Extent.totalSize live

namespace Balanced

variable {inner : Allocator}
variable {layers : List Nat}
variable {range block : Extent}
variable {Inner : World → List Extent → Prop}
variable {layer : Nat}
variable {live rest : List Extent}
variable {balance : Balance}
variable {world after : World}

section Steps

variable (keeps : inner.Keeps layers range Inner)
variable (balanced : Balanced layer Inner live balance world)

include keeps balanced

theorem perm (same : live.Perm rest) : Balanced layer Inner rest balance world where
  marked := balanced.marked.perm keeps same
  blocks := balanced.blocks
  bytes := balanced.bytes
  blocks_le := same.length_eq ▸ balanced.blocks_le
  bytes_le := Extent.totalSize_perm same ▸ balanced.bytes_le

theorem undisturbed (undisturbed : World.Undisturbed (layer :: layers) live world after) :
    Balanced layer Inner live balance after where
  marked := balanced.marked.undisturbed keeps undisturbed.of_cons
  blocks := by rw [undisturbed.tallies layer (.head _), balanced.blocks]
  bytes := by rw [undisturbed.tallies layer (.head _), balanced.bytes]
  blocks_le := balanced.blocks_le
  bytes_le := balanced.bytes_le

end Steps

section Calls

variable (keeps : inner.Keeps layers range Inner)
variable (own : layer ∉ layers)

include keeps own

/-- There is room for the blocks in a range, so none of them is more than a word counts. -/
theorem granted
    {size : UInt64}
    {address : Address}
    (balanced : Balanced layer Inner live balance world)
    (answered : allocate layer inner size world = .ok address after) :
    Balanced layer Inner (⟨address, size⟩ :: live) (balance.granted size) after := by
  obtain ⟨marked, tally, -⟩ := balanced.marked.allocate keeps own answered
  obtain ⟨_, blocks, bytes, blocks_le, bytes_le⟩ := balanced
  have placed := marked.placed keeps
  have length := placed.length_le
  have total := placed.total
  have small := placed.small
  rw [List.length_cons] at length
  rw [Extent.totalSize_cons] at total
  dsimp only at total
  obtain ⟨blocksAfter, bytesAfter⟩ :=
    @Tally.toNat_grant (world.tallies.get layer) size (by omega) (by omega)
  rw [← tally] at blocksAfter bytesAfter
  refine ⟨marked, ?_, ?_, Nat.succ_le_succ blocks_le, ?_⟩
  · rw [blocksAfter, blocks]
    rfl
  · rw [bytesAfter, bytes]
    rfl
  · rw [Extent.totalSize_cons, Balance.granted]
    dsimp only
    omega

/-- A block that grows adds no more than it has, be it counted or not. -/
theorem moved
    {newSize : UInt64}
    {newAddress : Address}
    (balanced : Balanced layer Inner (block :: rest) balance world)
    (answered : reallocate layer inner block.address newSize world = .ok newAddress after) :
    Balanced layer Inner (⟨newAddress, newSize⟩ :: rest) (balance.moved block.size newSize)
      after := by
  obtain ⟨marked, tally, -⟩ := balanced.marked.reallocate keeps own answered
  obtain ⟨_, blocks, bytes, blocks_le, bytes_le⟩ := balanced
  have placed := marked.placed keeps
  have total := placed.total
  have small := placed.small
  rw [Extent.totalSize_cons] at total bytes_le
  dsimp only at total
  obtain ⟨blocksAfter, bytesAfter⟩ :=
    @Tally.toNat_resize (world.tallies.get layer) block.size newSize (by omega)
  rw [← tally] at blocksAfter bytesAfter
  refine ⟨marked, ?_, ?_, blocks_le, ?_⟩
  · rw [blocksAfter, blocks]
    rfl
  · rw [bytesAfter, bytes]
    rfl
  · rw [Extent.totalSize_cons, Balance.moved]
    dsimp only
    omega

/-- A live block ends, and with it goes all that was counted for it. -/
theorem exists_ended (balanced : Balanced layer Inner (block :: rest) balance world) :
    ∃ after, free layer inner block.address world = .ok () after ∧
      Balanced layer Inner rest (balance.ended block.size) after := by
  obtain ⟨after, freed, marked, tally, -⟩ := balanced.marked.free keeps own
  obtain ⟨_, blocks, bytes, blocks_le, bytes_le⟩ := balanced
  obtain ⟨blocksAfter, bytesAfter⟩ := (world.tallies.get layer).toNat_settle block.size
  rw [← tally] at blocksAfter bytesAfter
  rw [Extent.totalSize_cons] at bytes_le
  refine ⟨after, freed, marked, ?_, ?_, Nat.sub_le_of_le_add blocks_le, ?_⟩
  · rw [blocksAfter, blocks]
    rfl
  · rw [bytesAfter, bytes]
    rfl
  · exact Nat.sub_le_iff_le_add'.mpr bytes_le

/-- Nothing is counted after a reset, and the marks stay. -/
theorem reset (balanced : Balanced layer Inner live balance world) :
    Balanced layer Inner live {} { world with tallies := world.tallies.set layer {} } where
  marked := balanced.marked.undisturbed keeps
    (World.undisturbed_setTally world own {} world.events)
  blocks := by
    rw [Table.get_set, if_pos rfl]
    rfl
  bytes := by
    rw [Table.get_set, if_pos rfl]
    rfl
  blocks_le := Nat.zero_le _
  bytes_le := Nat.zero_le _

end Calls

/-- Nothing is counted when nothing is live. -/
theorem tally_of_nil (balanced : Balanced layer Inner [] balance world) :
    world.tallies.get layer = {} := by
  obtain ⟨_, blocks, bytes, blocks_le, bytes_le⟩ := balanced
  generalize world.tallies.get layer = tally at blocks bytes
  obtain ⟨tallyBlocks, tallyBytes⟩ := tally
  have noBlocks : tallyBlocks = 0 :=
    UInt64.toNat_inj.mp (blocks.trans (Nat.eq_zero_of_le_zero blocks_le))
  have noBytes : tallyBytes = 0 :=
    UInt64.toNat_inj.mp (bytes.trans (Nat.eq_zero_of_le_zero bytes_le))
  rw [noBlocks, noBytes]

end Balanced
end Guarded

namespace Stack

variable {layer : Nat}
variable {owns : Bool}
variable {arena : Arena}
variable {live : List Extent}
variable {balance : Balance}
variable {world : World}

namespace BalanceRun

/-- All along a run, the counters show the balance. -/
theorem balanced
    (run : BalanceRun (.guarded layer owns (.raw .arena)) arena live balance world)
    (fresh : arena.Fresh) :
    Guarded.Balanced layer (Raw.Books arena.range) live balance world := by
  have keeps := Raw.keeps arena.range
  have own : layer ∉ [] := List.not_mem_nil
  induction run with
  | start memory =>
      exact ⟨⟨by simp, by simp, by simp, @books_start (.raw .arena) _ fresh memory⟩, rfl, rfl,
        Nat.le_refl 0, Nat.le_refl 0⟩
  | granted earlier answered inductionHypothesis =>
      exact inductionHypothesis.granted keeps own answered
  | moved earlier isLive answered inductionHypothesis =>
      have front := inductionHypothesis.perm keeps (List.perm_cons_erase isLive)
      exact front.moved keeps own answered
  | ended earlier isLive answered inductionHypothesis =>
      have front := inductionHypothesis.perm keeps (List.perm_cons_erase isLive)
      obtain ⟨after, freed, balanced⟩ := front.exists_ended keeps own
      cases freed.symm.trans answered
      exact balanced
  | refused earlier answered inductionHypothesis =>
      have unchanged := (Stack.call_atomic _ _ _ _ _ answered).2
      exact inductionHypothesis.undisturbed keeps (unchanged.undisturbed _ _)
  | reset earlier answered inductionHypothesis =>
      cases answered
      exact inductionHypothesis.reset keeps own
  | wrote earlier isLive inside value inductionHypothesis =>
      exact inductionHypothesis.undisturbed keeps
        (World.undisturbed_write _ isLive inside value)
  | limited earlier count inductionHypothesis | recovered earlier inductionHypothesis =>
      exact inductionHypothesis.undisturbed keeps (World.undisturbed_credit rfl)

/-- Whenever the layer is reset, its counters show the exact balance, which is never more than the
live blocks and their bytes. So a release is silent if no block is live, and when the last live
block ends, which never fails, nothing is counted any more. -/
theorem never_over_reported
    (run : BalanceRun (.guarded layer owns (.raw .arena)) arena live balance world)
    (fresh : arena.Fresh) :
    let stack : Stack := .guarded layer owns (.raw .arena)
    let tally := world.tallies.get layer
    (tally.blocks.toNat = balance.blocks ∧ tally.bytes.toNat = balance.bytes) ∧
      (tally.blocks.toNat ≤ live.length ∧ tally.bytes.toNat ≤ Extent.totalSize live) ∧
      (live = [] → answer stack.allocator.release world = .ok ()) ∧
      ∀ block, live = [block] → ∃ after,
        stack.allocator.free block.address world = .ok () after ∧
          after.tallies.get layer = {} := by
  intro stack tally
  have balanced := run.balanced fresh
  refine ⟨⟨balanced.blocks, balanced.bytes⟩, ⟨?_, ?_⟩, ?_, ?_⟩
  · exact balanced.blocks ▸ balanced.blocks_le
  · exact balanced.bytes ▸ balanced.bytes_le
  · rintro rfl
    rw [silent_iff_of_guarded, balanced.tally_of_nil]
    rfl
  · rintro block rfl
    obtain ⟨after, freed, balancedAfter⟩ :=
      balanced.exists_ended (Raw.keeps arena.range) List.not_mem_nil
    exact ⟨after, freed, balancedAfter.tally_of_nil⟩

/-- A block grows after a reset and ends while another one is live, so that one block too many and
eight bytes too many are taken off. When the other one ends, nothing is counted. -/
theorem never_over_reported_of_grown_block :
    let stack : Stack := .guarded 0 true (.raw .arena)
    let arena : Arena := { base := ⟨4096⟩, capacity := 1024 }
    arena.Fresh ∧ ∃ world, BalanceRun stack arena [⟨⟨4208⟩, 16⟩] ⟨0, 8⟩ world ∧
      (world.tallies.get 0).bytes.toNat ≤ 16 ∧
      ∃ after, stack.allocator.free ⟨4208⟩ world = .ok () after ∧
        after.tallies.get 0 = {} := by
  intro stack arena
  have fresh : arena.Fresh := ⟨⟨⟨4096⟩, 1024, rfl⟩, by decide, by decide⟩
  have answered :
      answer (do
        let first ← stack.allocator.allocate 8
        stack.reset
        let grown ← stack.allocator.reallocate first 32
        let second ← stack.allocator.allocate 16
        stack.allocator.free grown
        pure (first, grown, second)) (World.initial arena) =
          .ok (⟨4112⟩, ⟨4144⟩, ⟨4208⟩) := by
    decide +kernel
  obtain ⟨world, ended⟩ := Fallible.ok_of_answer answered
  obtain ⟨first, _, firstGranted, ended⟩ := Fallible.ok_of_bind ended
  obtain ⟨_, _, reset, ended⟩ := Fallible.ok_of_bind ended
  obtain ⟨grown, _, moved, ended⟩ := Fallible.ok_of_bind ended
  obtain ⟨second, _, secondGranted, ended⟩ := Fallible.ok_of_bind ended
  obtain ⟨_, _, freed, ended⟩ := Fallible.ok_of_bind ended
  cases ended
  have beforeEnd : BalanceRun stack arena [⟨⟨4208⟩, 16⟩, ⟨⟨4144⟩, 32⟩] ⟨1, 40⟩ _ :=
    .granted (.moved (.reset (.granted (.start .zero) firstGranted) reset) (.head _) moved)
      secondGranted
  have run : BalanceRun stack arena [⟨⟨4208⟩, 16⟩] ⟨0, 8⟩ world :=
    .ended beforeEnd (.tail _ (.head _)) freed
  obtain ⟨-, ⟨-, few⟩, -, last⟩ := never_over_reported run fresh
  exact ⟨fresh, world, run, few, last ⟨⟨4208⟩, 16⟩ rfl⟩

end BalanceRun
end Stack
end GuardedHeap
