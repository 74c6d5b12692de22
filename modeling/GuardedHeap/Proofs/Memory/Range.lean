import GuardedHeap.Memory.Overlay

/-!
# Ranges of memory

An extent is read here as the range of addresses from its first byte on, without
wrapping around. Writing is confined to the range that is written: `get_write_of_far`
keeps the bytes at a distance, and `get_write_add` gives those inside.
-/

namespace GuardedHeap
namespace Extent

/-- The first address of a range as a number. -/
def start (extent : Extent) : Nat :=
  extent.address.value.toNat

/-- The number behind the last address of a range. -/
def stop (extent : Extent) : Nat :=
  extent.start + extent.size.toNat

/-- An address lies in a range. -/
def Contains (extent : Extent) (address : Address) : Prop :=
  extent.start ≤ address.value.toNat ∧ address.value.toNat < extent.stop

instance (extent : Extent) (address : Address) : Decidable (extent.Contains address) :=
  inferInstanceAs (Decidable (_ ∧ _))

/-- Two ranges have no address in common because one ends before the other
starts. -/
def Apart (left right : Extent) : Prop :=
  left.stop ≤ right.start ∨ right.stop ≤ left.start

instance (left right : Extent) : Decidable (left.Apart right) :=
  inferInstanceAs (Decidable (_ ∨ _))

theorem Apart.symm {left right : Extent} (apart : left.Apart right) : right.Apart left :=
  Or.symm apart

theorem Apart.not_contains
    {left right : Extent}
    {address : Address}
    (apart : left.Apart right)
    (contains : left.Contains address) :
    ¬ right.Contains address := by
  rcases apart with apart | apart <;> rcases contains with ⟨_, _⟩ <;> rintro ⟨_, _⟩ <;> omega

end Extent

namespace Address

/-- The distance between two addresses whose order is known. -/
theorem toNat_offsetFrom_of_le
    {address base : Address}
    (ordered : base.value.toNat ≤ address.value.toNat) :
    (address.offsetFrom base).toNat = address.value.toNat - base.value.toNat := by
  rw [offsetFrom, UInt64.toNat_sub_of_le _ _ (UInt64.le_iff_toNat_le.mpr ordered)]

theorem toNat_offsetFrom_of_lt
    {address base : Address}
    (ordered : address.value.toNat < base.value.toNat) :
    (address.offsetFrom base).toNat =
      0x10000000000000000 + address.value.toNat - base.value.toNat := by
  have := base.value.toNat_lt
  rw [offsetFrom, UInt64.toNat_sub]
  omega

@[simp] theorem offsetFrom_add (base : Address) (offset : UInt64) :
    (base.add offset).offsetFrom base = offset := by
  rw [offsetFrom, value_add, UInt64.add_comm, UInt64.add_sub_cancel]

/-- An address moved without wrapping around. -/
theorem toNat_add
    {base : Address}
    {offset : UInt64}
    (fits : base.value.toNat + offset.toNat < 0x10000000000000000) :
    (base.add offset).value.toNat = base.value.toNat + offset.toNat := by
  rw [value_add, UInt64.toNat_add]
  omega

end Address

namespace Extent

/-- In a range that does not wrap around, an address lies near the start. -/
theorem contains_iff_offset_lt
    {extent : Extent}
    (fits : extent.stop ≤ 0x10000000000000000)
    (address : Address) :
    extent.Contains address ↔
      (address.offsetFrom extent.address).toNat < extent.size.toNat := by
  have := address.value.toNat_lt
  unfold stop start at fits
  unfold Contains stop start
  by_cases ordered : extent.address.value.toNat ≤ address.value.toNat
  · rw [Address.toNat_offsetFrom_of_le ordered]
    omega
  · rw [Address.toNat_offsetFrom_of_lt (by omega)]
    omega

/-- An address outside of a range lies at least its size away from its start. -/
theorem far_of_not_contains
    {extent : Extent}
    {address : Address}
    (fits : extent.stop ≤ 0x10000000000000000)
    (outside : ¬ extent.Contains address) :
    extent.size.toNat ≤ (address.offsetFrom extent.address).toNat := by
  rw [contains_iff_offset_lt fits] at outside
  exact Nat.le_of_not_lt outside

theorem contains_add
    {extent : Extent}
    (fits : extent.stop ≤ 0x10000000000000000)
    {offset : UInt64}
    (inside : offset.toNat < extent.size.toNat) :
    extent.Contains (extent.address.add offset) := by
  rw [contains_iff_offset_lt fits, Address.offsetFrom_add]
  exact inside

end Extent

namespace Memory

/-- Writing keeps the bytes that lie at least as far from the start as bytes are
written. -/
theorem get_write_of_far
    (memory : Memory)
    (start address : Address)
    (bytes : List UInt8)
    (far : bytes.length ≤ (address.offsetFrom start).toNat) :
    (memory.write start bytes).get address = memory.get address := by
  have short : bytes.length ≤ 0x10000000000000000 :=
    Nat.le_of_lt (Nat.lt_of_le_of_lt far (address.offsetFrom start).toNat_lt)
  rw [get_write, overlay_apply _ _ _ _ short, List.getElem?_eq_none far]
  rfl

/-- A byte after writing depends on that byte before and on what is written. -/
theorem get_write_congr
    {left right : Memory}
    {address : Address}
    (same : left.get address = right.get address)
    (start : Address)
    (bytes : List UInt8) :
    (left.write start bytes).get address = (right.write start bytes).get address := by
  rw [get_write, get_write]
  suffices general : ∀ (bytes : List UInt8) (start : Address) (old new : Address → UInt8),
      old address = new address →
        overlay old start bytes address = overlay new start bytes address from
    general bytes start left.get right.get same
  intro bytes
  induction bytes with
  | nil => exact fun _ _ _ same => same
  | cons byte bytes inductionHypothesis =>
      intro start old new same
      exact inductionHypothesis _ _ _ (by rw [same])

theorem get_fill_congr
    {left right : Memory}
    {address : Address}
    (same : left.get address = right.get address)
    (start : Address)
    (count : Nat)
    (value : UInt8) :
    (left.fill start count value).get address = (right.fill start count value).get address := by
  rw [get_fill, get_fill, ← get_write, ← get_write]
  exact get_write_congr same start _

/-- Filling keeps the bytes that lie at least as far from the start as bytes are
filled. -/
theorem get_fill_of_far
    (memory : Memory)
    (start address : Address)
    (count : Nat)
    (value : UInt8)
    (far : count ≤ (address.offsetFrom start).toNat) :
    (memory.fill start count value).get address = memory.get address := by
  have behind : (List.replicate count value).length ≤ (address.offsetFrom start).toNat := by
    simpa using far
  rw [get_fill, ← get_write, get_write_of_far _ _ _ _ behind]

/-- The bytes that were written are found at their places. -/
theorem get_write_of_near
    (memory : Memory)
    (start address : Address)
    (bytes : List UInt8)
    (short : bytes.length ≤ 0x10000000000000000)
    (near : (address.offsetFrom start).toNat < bytes.length) :
    (memory.write start bytes).get address = bytes[(address.offsetFrom start).toNat] := by
  rw [get_write, overlay_apply _ _ _ _ short, List.getElem?_eq_getElem near]
  rfl

/-- Every byte of the range that was filled is the one that it was filled with. -/
theorem get_fill_of_near
    (memory : Memory)
    (start address : Address)
    (count : Nat)
    (value : UInt8)
    (short : count ≤ 0x10000000000000000)
    (near : (address.offsetFrom start).toNat < count) :
    (memory.fill start count value).get address = value := by
  rw [get_fill, ← get_write,
    get_write_of_near _ _ _ _ (by simpa using short) (by simpa using near)]
  exact List.getElem_replicate _

theorem getElem_read
    (memory : Memory)
    (start : Address)
    (count place : Nat)
    (inside : place < (memory.read start count).length) :
    (memory.read start count)[place] = memory.get (start.add (UInt64.ofNat place)) := by
  simp [read_eq_map]

/-- What is read depends on the bytes of the range alone. -/
theorem read_eq_of_near
    {left right : Memory}
    {start : Address}
    {count : Nat}
    (short : count ≤ 0x10000000000000000)
    (same : ∀ address, (address.offsetFrom start).toNat < count →
      left.get address = right.get address) :
    left.read start count = right.read start count := by
  rw [read_eq_map, read_eq_map]
  apply List.map_congr_left
  intro place present
  have inside : place < count := List.mem_range.mp present
  have isWord : place < 0x10000000000000000 := Nat.lt_of_lt_of_le inside short
  apply same
  rw [Address.offsetFrom_add, UInt64.toNat_ofNat_of_lt' isWord]
  exact inside

/-- Copying keeps the bytes that lie at least as far from the target as bytes
are copied. -/
theorem get_copy_of_far
    (memory : Memory)
    (source target address : Address)
    (count : Nat)
    (far : count ≤ (address.offsetFrom target).toNat) :
    (memory.copy source target count).get address = memory.get address :=
  get_write_of_far _ _ _ _ (by simpa using far)

/-- The copied bytes are those that were at the source. -/
theorem get_copy_of_near
    (memory : Memory)
    (source target : Address)
    {count : Nat}
    (short : count ≤ 0x10000000000000000)
    {offset : UInt64}
    (near : offset.toNat < count) :
    (memory.copy source target count).get (target.add offset) =
      memory.get (source.add offset) := by
  rw [copy, get_write_of_near _ _ _ _ (by simpa using short) (by simpa using near),
    getElem_read]
  simp

end Memory
end GuardedHeap
