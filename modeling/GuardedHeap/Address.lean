import GuardedHeap.Hex
import GuardedHeap.Word

/-!
# Addresses and extents

An address is a word that names a byte of memory. An extent is a range of
memory, given by its first address and its size. Address arithmetic either
wraps around at the end of the address space or gives nothing there.
-/

namespace GuardedHeap

/-- The name of a byte of memory. -/
structure Address where
  value : UInt64
  deriving DecidableEq, Hashable, Inhabited

namespace Address

/-- The address that names no block. -/
def null : Address := ⟨0⟩

/-- The null address is recognised by its value. -/
def isNull (address : Address) : Bool :=
  address.value == 0

/-- Move forward, if that stays in the address space. -/
def add? (address : Address) (offset : UInt64) : Option Address :=
  (Word.add? address.value offset).map Address.mk

/-- Move backward, if that stays in the address space. -/
def sub? (address : Address) (offset : UInt64) : Option Address :=
  (Word.sub? address.value offset).map Address.mk

/-- Move forward, wrapping around. -/
def add (address : Address) (offset : UInt64) : Address :=
  ⟨address.value + offset⟩

/-- Move backward, wrapping around. -/
def sub (address : Address) (offset : UInt64) : Address :=
  ⟨address.value - offset⟩

/-- The distance from a base that does not lie behind the address. -/
def offsetFrom? (address base : Address) : Option UInt64 :=
  Word.sub? address.value base.value

/-- The distance from a base, wrapping around. -/
def offsetFrom (address base : Address) : UInt64 :=
  address.value - base.value

/-- Addresses are ordered by their values. -/
def compare (left right : Address) : Ordering :=
  Ord.compare left.value right.value

/-- An address is shown with its base and all sixteen digits. -/
def text (address : Address) : String :=
  "0x" ++ Hex.padded 16 address.value.toNat

instance : ToString Address := ⟨text⟩

@[simp] theorem value_add (address : Address) (offset : UInt64) :
    (address.add offset).value = address.value + offset := rfl

@[simp] theorem value_sub (address : Address) (offset : UInt64) :
    (address.sub offset).value = address.value - offset := rfl

@[simp] theorem add_zero (address : Address) : address.add 0 = address := by
  simp [add]

/-- Moving forward twice moves by the sum. -/
theorem add_add (address : Address) (first second : UInt64) :
    (address.add first).add second = address.add (first + second) := by
  simp [add, UInt64.add_assoc]

/-- Moving forward and back is no move. -/
@[simp] theorem sub_add_cancel (address : Address) (offset : UInt64) :
    (address.add offset).sub offset = address := by
  simp [add, sub]

/-- Moving back and forward is no move. -/
@[simp] theorem add_sub_cancel (address : Address) (offset : UInt64) :
    (address.sub offset).add offset = address := by
  simp [add, sub]

/-- The wrapping distance leads from the base to the address. -/
@[simp] theorem add_offsetFrom (address base : Address) :
    base.add (address.offsetFrom base) = address := by
  simp only [add, offsetFrom]
  congr 1
  rw [UInt64.add_comm, UInt64.sub_add_cancel]

end Address

/-- A range of memory. -/
structure Extent where
  address : Address
  size : UInt64
  deriving DecidableEq, Hashable, Inhabited

namespace Extent

/-- An extent is shown as its address in brackets and its size. -/
def text (extent : Extent) : String :=
  s!"[{extent.address}]/{extent.size}"

instance : ToString Extent := ⟨text⟩

end Extent
end GuardedHeap
