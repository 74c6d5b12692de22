import GuardedHeap.Proofs.Arena.Holds
import GuardedHeap.Proofs.Ledger.Basic

/-!
# Books of a raw allocator

The books of a raw allocator over an arena are those of the arena. A fresh region
is filled and, when a block moves, written over with the bytes of the block; both
change no byte of another region.
-/

namespace GuardedHeap
namespace Raw

/-- The arena holds exactly the live blocks. -/
def Books (range : Extent) (world : World) (blocks : List Extent) : Prop :=
  world.arena.Holds range blocks

variable {range block : Extent}
variable {blocks rest : List Extent}
variable {world after : World}

theorem Books.allocate
    {size : UInt64}
    {address : Address}
    (books : Books range world blocks)
    (granted : allocate .arena size world = .ok address after) :
    Books range after (⟨address, size⟩ :: blocks) ∧ World.Spares [] blocks world after := by
  cases granted_of_allocate granted with
  | of_room credit events nonempty room =>
      have holds := Arena.Holds.reserve books nonempty room
        (world.arena.allocations + 1) credit
      refine ⟨holds, ⟨fun other present byte contains => ?_, fun _ _ _ => rfl,
        fun _ _ => rfl⟩⟩
      exact Memory.get_fill_of_far _ _ _ _ _ (holds.placed.far_of_contains present contains)

theorem Books.reallocate
    {newSize : UInt64}
    {newAddress : Address}
    (books : Books range world (block :: rest))
    (moved : reallocate .arena block.address newSize world = .ok newAddress after) :
    Books range after (⟨newAddress, newSize⟩ :: rest) ∧ World.Spares [] rest world after ∧
      World.Carries block ⟨newAddress, newSize⟩ world after := by
  cases moved_of_reallocate moved with
  | of_room credit events nonempty live room =>
      have known := (books.live block.address block.size).mpr (.head _)
      rw [known] at live
      cases live
      have holds := Arena.Holds.reserve books nonempty room
        (world.arena.allocations + 1) credit
      have ended := (holds.perm (.swap _ _ _)).erase world.arena.frees
      have short : (min block.size newSize).toNat ≤ newSize.toNat ∧
          (min block.size newSize).toNat ≤ block.size.toNat := by
        rw [UInt64.toNat_min]
        omega
      refine ⟨ended, ⟨fun other present byte contains => ?_, fun _ _ _ => rfl,
        fun _ _ => rfl⟩, fun offset inPrevious inNew => ?_⟩
      · have far := holds.placed.far_of_contains (.tail _ present) contains
        exact (Memory.get_copy_of_far _ _ _ _ _ (Nat.le_trans short.1 far)).trans
          (Memory.get_fill_of_far _ _ _ _ _ far)
      · have contains := Extent.contains_add (books.placed.stop_le (.head _)) inPrevious
        have far := holds.placed.far_of_contains (.head _) contains
        refine (Memory.get_copy_of_near _ _ _ ?_ ?_).trans
          (Memory.get_fill_of_far _ _ _ _ _ far)
        · exact Nat.le_of_lt (UInt64.toNat_lt _)
        · rw [UInt64.toNat_min]
          exact Nat.lt_min.mpr ⟨inPrevious, inNew⟩

/-- No block lies at the null address, where no arena starts. -/
theorem Books.notNull (books : Books range world (block :: rest)) :
    block.address ≠ .null := by
  have inside := (books.placed.inside block (.head _)).1
  have positive : 0 < range.start :=
    Word.toNat_pos fun zero => books.nonnull (congrArg Address.mk zero)
  intro isNull
  have : block.start = 0 := by
    rw [Extent.start, isNull]
    rfl
  omega

theorem Books.free (books : Books range world (block :: rest)) :
    ∃ after, Raw.free .arena block.address world = .ok () after ∧
      Books range after rest ∧ World.Spares [] rest world after := by
  have outcome := free_outcome .arena block.address world
  generalize Raw.free .arena block.address world = result at outcome
  cases outcome with
  | null isNull => exact absurd isNull books.notNull
  | freed events notNull answer =>
      cases answer
      have known := (books.live block.address block.size).mpr (.head _)
      have freed : world.arena.free block.address =
          { world.arena with
            live := world.arena.live.erase (world.arena.offsetOf block.address)
            frees := world.arena.frees + 1 } := by
        rw [Arena.free, known]
      refine ⟨_, rfl, ?_, ⟨fun _ _ _ _ => rfl, fun _ _ _ => rfl, fun _ _ => rfl⟩⟩
      show (world.arena.free block.address).Holds range rest
      rw [freed]
      exact Arena.Holds.erase books _

theorem keeps (range : Extent) :
    (Allocator.raw .arena).Keeps [] range (Books range) where
  perm books same := Arena.Holds.perm books same
  undisturbed books undisturbed := Arena.Holds.of_credit books undisturbed.arena
  placed books := books.placed
  allocate books granted := Books.allocate books granted
  reallocate books moved := Books.reallocate books moved
  free books := Books.free books

end Raw
end GuardedHeap
