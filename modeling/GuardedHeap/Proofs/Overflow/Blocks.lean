import GuardedHeap.Access.CharView
import GuardedHeap.Proofs.BitSet.Reference
import GuardedHeap.Proofs.Overflow.Steady

/-!
# No overflow in blocks

Operations on blocks need no arithmetic that could overflow, as long as the bytes to be
written are counted by a word. A view of characters counts units of two bytes, so every
index that it accepts can be turned into an offset, and a bit set counts at most eight bits
for each of its bytes.
-/

namespace GuardedHeap

open Fallible (Steady steady_pure steady_refuse steady_ofCheck steady_exactly steady_query
  steady_get steady_modify)

namespace Block

variable {block source target left right : Block}

/-- What is read is no longer than what was asked for. -/
theorem steady_read (offset length : UInt64) :
    Steady (fun _ => True) (fun bytes => bytes.length ≤ length.toNat)
      (block.read offset length) := by
  apply steady_query
  intro memory bytes found
  unfold bytesAt at found
  cases located : block.locateRange offset length with
  | error error =>
      rw [located] at found
      cases found
  | ok start? =>
      rw [located] at found
      cases found
      cases start? with
      | none => exact Nat.zero_le _
      | some start => exact Nat.le_of_eq (Memory.length_read ..)

theorem steady_write
    {bytes : List UInt8}
    (sized : bytes.length < 0x10000000000000000)
    (offset : UInt64) :
    Steady (fun _ => True) (fun _ => True) (block.write offset bytes) := by
  apply (steady_exactly (if_pos sized)).bind
  intro length _
  apply (steady_ofCheck _).bind
  intro start? _
  cases start? with
  | none => exact steady_pure trivial
  | some start => exact steady_modify fun _ holds => holds

theorem steady_fill (value : UInt8) :
    Steady (fun _ => True) (fun _ => True) (block.fill value) := by
  apply (steady_ofCheck _).bind
  intro start? _
  cases start? with
  | none => exact steady_pure trivial
  | some start => exact steady_modify fun _ holds => holds

theorem steady_copyTo (sourceOffset targetOffset length : UInt64) :
    Steady (fun _ => True) (fun _ => True)
      (source.copyTo sourceOffset target targetOffset length) := by
  apply (steady_ofCheck _).bind
  intro starts? _
  cases starts? with
  | none => exact steady_pure trivial
  | some starts => exact steady_modify fun _ holds => holds

theorem steady_compareTo (leftOffset rightOffset length : UInt64) :
    Steady (fun _ => True) (fun _ => True)
      (left.compareTo leftOffset right rightOffset length) := by
  apply (steady_ofCheck _).bind
  intro starts? _
  cases starts? with
  | none => exact steady_pure trivial
  | some starts => exact steady_get.map _

theorem steady_getByte (offset : UInt64) :
    Steady (fun _ => True) (fun _ => True) (block.getByte offset) :=
  (steady_read offset 1).map _

end Block

namespace CharView

variable {view : CharView}

/-- Two bytes belong to each unit of a view, so twice its length is no more than its size. -/
theorem two_mul_length_le (view : CharView) :
    view.length.toNat * 2 ≤ view.extent.size.toNat := by
  rw [length, UInt64.toNat_div]
  exact Nat.div_mul_le_self _ _

theorem steady_checkIndex (index limit : UInt64) :
    Steady (fun _ => True) (fun _ => index.toNat < limit.toNat)
      (view.checkIndex index limit) := by
  unfold checkIndex
  split
  · exact steady_refuse
  · rename_i below
    exact steady_pure (UInt64.lt_iff_toNat_lt.mp (UInt64.not_le.mp below))

/-- The offset of a unit that is in the view is a word. -/
theorem steady_unitAt (index : UInt64) :
    Steady (fun _ => True) (fun _ => True) (view.unitAt index) := by
  apply (steady_checkIndex index view.length).bind
  intro _ below
  have scaled : index.toNat * (2 : UInt64).toNat < 0x10000000000000000 := by
    have := view.two_mul_length_le
    have := view.extent.size.toNat_lt
    show index.toNat * 2 < _
    omega
  apply (steady_exactly (if_pos scaled)).bind
  exact fun offset _ => (Block.steady_read offset 2).map _

/-- The length and one is a word, and so are the offset and the size of every part that ends
in the view. -/
theorem steady_subView (first last : UInt64) :
    Steady (fun _ => True) (fun _ => True) (view.subView first last) := by
  have half := view.two_mul_length_le
  have small := view.extent.size.toNat_lt
  have behind : view.length.toNat + (1 : UInt64).toNat < 0x10000000000000000 := by
    show view.length.toNat + 1 < _
    omega
  apply (steady_exactly (if_pos behind)).bind
  intro limit added
  have limit_eq := Word.toNat_of_add?_eq_some added
  apply (steady_checkIndex last limit).bind
  intro _ within
  split
  · exact steady_refuse
  rename_i ordered
  have order := UInt64.le_iff_toNat_le.mp (UInt64.not_lt.mp ordered)
  have rest := UInt64.toNat_sub_of_le _ _ (UInt64.not_lt.mp ordered)
  rw [limit_eq, show (1 : UInt64).toNat = 1 from rfl] at within
  have skipped : first.toNat * (2 : UInt64).toNat < 0x10000000000000000 := by
    show first.toNat * 2 < _
    omega
  have size : (last - first).toNat * (2 : UInt64).toNat < 0x10000000000000000 := by
    show (last - first).toNat * 2 < _
    omega
  apply (steady_exactly (if_pos skipped)).bind
  intro skippedBytes _
  apply (steady_exactly (if_pos size)).bind
  intro sizeBytes _
  split
  · exact steady_refuse
  · rw [map_eq_pure_bind]
    exact (steady_ofCheck _).map _

theorem steady_unitsFrom (index : UInt64) (done : List UInt16) (count : Nat) :
    Steady (fun _ => True) (fun _ => True) (view.unitsFrom index done count) := by
  induction count generalizing index done with
  | zero => exact steady_pure trivial
  | succ count inductionHypothesis =>
      apply (steady_unitAt index).attempt.bind
      intro result _
      cases result with
      | error error => exact steady_pure trivial
      | ok unit => exact inductionHypothesis _ _

theorem steady_text : Steady (fun _ => True) (fun _ => True) view.text := by
  rw [text, map_eq_pure_bind]
  exact (steady_unitsFrom 0 [] _).map _

end CharView

namespace Bits

/-- A byte has at most eight bits that are on. -/
theorem count_le (byte : UInt8) : count byte ≤ 8 :=
  (List.length_filter_le _ _).trans_eq List.length_range

theorem total_count_le (bytes : List UInt8) :
    Word.total (bytes.map count) ≤ 8 * bytes.length := by
  induction bytes with
  | nil => exact Nat.le_refl _
  | cons byte bytes inductionHypothesis =>
      have := count_le byte
      rw [List.map_cons, Word.total_cons, List.length_cons]
      omega

end Bits

namespace BitSet

/-- The sum behind an answer, if it is a word. Only the count of a set is summed up. -/
def Answer.sum? : Answer → Option UInt64
  | .count numbers => Word.ofNat? numbers
  | _ => some 0

/-- A set with so few bytes that the count of their bits is a word. -/
def Countable (set : BitSet) : Prop :=
  8 * set.root.extent.size.toNat < 0x10000000000000000

variable {set : BitSet}

theorem steady_checkIndex (index : UInt64) :
    Steady (fun _ => True) (fun _ => True) (set.checkIndex index) := by
  unfold checkIndex
  split
  · exact steady_refuse
  · exact steady_pure trivial

theorem steady_contains (index : UInt64) :
    Steady (fun _ => True) (fun _ => True) (set.contains index) := by
  apply (steady_checkIndex index).bind
  exact fun _ _ => (Block.steady_getByte _).map _

theorem steady_update (change : UInt8 → UInt8 → UInt8) (index : UInt64) :
    Steady (fun _ => True) (fun _ => True) (set.update change index) := by
  apply (steady_checkIndex index).bind
  intro _ _
  apply (Block.steady_getByte _).bind
  intro byte _
  exact Block.steady_write (Nat.lt_of_sub_eq_succ rfl) _

theorem steady_count (countable : set.Countable) :
    Steady (fun _ => True) (fun count => count < 0x10000000000000000) set.count := by
  apply (Block.steady_read 0 set.block.size).bind
  intro bytes bounded
  apply steady_pure
  calc Word.total (bytes.map Bits.count)
      ≤ 8 * bytes.length := Bits.total_count_le bytes
    _ ≤ 8 * set.block.size.toNat := Nat.mul_le_mul_left 8 bounded
    _ < 0x10000000000000000 := countable

/-- Whatever a set is asked, the sum behind its answer is a word. -/
theorem Request.steady
    (countable : set.Countable)
    (request : Request) :
    Steady (fun _ => True) (fun answer => ∃ sum, answer.sum? = some sum)
      (request.perform set) := by
  have done : ∃ sum, Answer.done.sum? = some sum := ⟨0, rfl⟩
  cases request with
  | insert index => exact (steady_update _ index).bind fun _ _ => steady_pure done
  | toggle index => exact (steady_update _ index).bind fun _ _ => steady_pure done
  | erase index => exact (steady_update _ index).bind fun _ _ => steady_pure done
  | contains index => exact (steady_contains index).bind fun _ _ => steady_pure ⟨0, rfl⟩
  | clear => exact (Block.steady_fill 0).bind fun _ _ => steady_pure done
  | count =>
      exact (steady_count countable).bind fun count isWord => steady_pure ⟨_, if_pos isWord⟩

end BitSet

namespace Bloom

variable {set : BitSet}

theorem steady_insertAll (positions : List UInt64) :
    Steady (fun _ => True) (fun _ => True) (insertAll set positions) := by
  induction positions with
  | nil => exact steady_pure trivial
  | cons position positions inductionHypothesis =>
      exact (BitSet.steady_update _ position).bind fun _ _ => inductionHypothesis

theorem steady_containsAll (positions : List UInt64) :
    Steady (fun _ => True) (fun _ => True) (containsAll set positions) := by
  induction positions with
  | nil => exact steady_pure trivial
  | cons position positions inductionHypothesis =>
      apply (BitSet.steady_contains position).bind
      intro isOn _
      cases isOn with
      | true => exact inductionHypothesis
      | false => exact steady_pure trivial

theorem Request.steady {filter : Bloom} (request : Request) :
    Steady (fun _ => True) (fun _ => True) (request.run filter) := by
  cases request with
  | put word => exact steady_insertAll _
  | contains word => exact (steady_containsAll _).map _
  | clear => exact Block.steady_fill 0

end Bloom
end GuardedHeap
