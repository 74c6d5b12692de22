import GuardedHeap.Error

/-!
# Bounds

The arithmetic of ranges inside ranges. Checked operations refuse arguments
that lead out of an extent; unchecked ones compute modulo the size of the
address space and refuse nothing. Whatever the mode, memory itself is only
touched after `withinRoot` has accepted the range.
-/

namespace GuardedHeap
namespace Extent

/-- Accept a range that lies in a block of a size. -/
def checkSpan (offset length size : UInt64) : Except HeapError Unit :=
  match Word.add? offset length with
  | none => .error (.outOfBounds offset length size)
  | some last =>
      if last ≤ size then .ok () else .error (.outOfBounds offset length size)

/-- The address at an offset. The offset right behind the extent is checked to
be the last one. -/
def addressAt (extent : Extent) (checked : Bool) (offset : UInt64) :
    Except HeapError Address :=
  if checked ∧ extent.size < offset then
    .error (.outOfBounds offset 0 extent.size)
  else .ok (extent.address.add offset)

/-- The offset of an address. -/
def offsetOf (extent : Extent) (checked : Bool) (address : Address) :
    Except HeapError UInt64 :=
  let offset := address.offsetFrom extent.address
  if checked then
    match address.offsetFrom? extent.address with
    | none => .error (.outOfBounds offset 0 extent.size)
    | some distance =>
        if distance ≤ extent.size then .ok distance
        else .error (.outOfBounds offset 0 extent.size)
  else .ok offset

/-- The bytes from an address to the end of the extent. -/
def available (extent : Extent) (checked : Bool) (address : Address) :
    Except HeapError UInt64 :=
  (extent.offsetOf checked address).map fun offset => extent.size - offset

/-- The part of `size` bytes at an offset. -/
def slice (extent : Extent) (checked : Bool) (offset size : UInt64) :
    Except HeapError Extent :=
  let part : Extent := ⟨extent.address.add offset, size⟩
  if checked then (checkSpan offset size extent.size).map fun _ => part
  else .ok part

/-- The last `size` bytes. -/
def sliceLast (extent : Extent) (checked : Bool) (size : UInt64) :
    Except HeapError Extent :=
  if checked ∧ extent.size < size then .error (.outOfBounds 0 size extent.size)
  else .ok ⟨extent.address.add (extent.size - size), size⟩

/-- Accept a range of memory that lies in a root. -/
def withinRoot (root : Extent) (start : Address) (length : UInt64) :
    Except HeapError Unit :=
  let offset := start.offsetFrom root.address
  match start.offsetFrom? root.address with
  | none => .error (.outOfBounds offset length root.size)
  | some distance => checkSpan distance length root.size

/-- A range is accepted exactly if its end, computed without wrapping, is not
behind the size. -/
theorem checkSpan_eq_ok_iff (offset length size : UInt64) :
    checkSpan offset length size = .ok () ↔
      offset.toNat + length.toNat ≤ size.toNat := by
  unfold checkSpan
  cases added : Word.add? offset length with
  | none =>
      simp only [Word.add?, ite_eq_right_iff, reduceCtorEq, imp_false] at added
      have := size.toNat_lt
      have : UInt64.size = 2 ^ 64 := rfl
      simp only [reduceCtorEq, false_iff]
      omega
  | some last =>
      have exact := Word.toNat_of_add?_eq_some added
      by_cases fits : last ≤ size
      · simp only [fits, if_true, true_iff]
        rw [← exact]
        exact UInt64.le_iff_toNat_le.mp fits
      · simp only [fits, if_false, reduceCtorEq, false_iff]
        rw [← exact]
        exact fun ordered => fits (UInt64.le_iff_toNat_le.mpr ordered)

end Extent
end GuardedHeap
