import GuardedHeap.Proofs.Block.Inside

/-!
# Checked blocks

A checked block that ends before the address space does accepts exactly the arguments that
stay in it, and refuses all others as out of bounds, without effect. What is cut out of it
lies in it, so all of this goes on for parts of parts, and no operation touches a byte outside
the blocks that it is about: a checked block acts as if it were a root of its own.
-/

namespace GuardedHeap

/-- An error that tells of arguments out of bounds. -/
def HeapError.OutOfBounds (error : HeapError) : Prop :=
  ∃ offset length size, error = .outOfBounds offset length size

/-- A check passes exactly under a condition, and is otherwise out of bounds. -/
structure Decides {α : Type} (check : Except HeapError α) (condition : Prop) : Prop where
  passes_iff : (∃ value, check = .ok value) ↔ condition
  refuses : ∀ error, check = .error error → error.OutOfBounds

namespace Decides

variable {α β : Type}
variable {check : Except HeapError α}
variable {condition : Prop}

theorem of_ok
    {value : α}
    (passes : check = .ok value)
    (holds : condition) :
    Decides check condition :=
  ⟨iff_of_true ⟨value, passes⟩ holds, fun error refused => by rw [passes] at refused; cases refused⟩

theorem of_error
    {offset length size : UInt64}
    (refused : check = .error (.outOfBounds offset length size))
    (fails : ¬ condition) :
    Decides check condition := by
  refine ⟨iff_of_false ?_ fails, ?_⟩
  · rintro ⟨value, passes⟩
    rw [passes] at refused
    cases refused
  · intro error same
    rw [refused] at same
    cases same
    exact ⟨offset, length, size, rfl⟩

/-- Changing the value of a check does not change when it passes. -/
theorem map
    (decides : Decides check condition)
    (change : α → β) :
    Decides (check.map change) condition := by
  cases check with
  | ok value => exact .of_ok rfl (decides.passes_iff.mp ⟨value, rfl⟩)
  | error error =>
      obtain ⟨offset, length, size, rfl⟩ := decides.refuses error rfl
      refine .of_error rfl fun holds => ?_
      obtain ⟨value, passes⟩ := decides.passes_iff.mpr holds
      cases passes

end Decides

namespace Extent

/-- A range lies in another one. -/
def Within (inner outer : Extent) : Prop :=
  outer.start ≤ inner.start ∧ inner.stop ≤ outer.stop

theorem Within.refl (extent : Extent) : extent.Within extent :=
  ⟨Nat.le_refl _, Nat.le_refl _⟩

theorem Within.trans
    {inner middle outer : Extent}
    (first : inner.Within middle)
    (second : middle.Within outer) :
    inner.Within outer :=
  ⟨Nat.le_trans second.1 first.1, Nat.le_trans first.2 second.2⟩

/-- A range that is not accepted is out of bounds. -/
theorem checkSpan_of_not_fits
    {offset length size : UInt64}
    (outside : ¬ offset.toNat + length.toNat ≤ size.toNat) :
    checkSpan offset length size = .error (.outOfBounds offset length size) := by
  rw [← checkSpan_eq_ok_iff] at outside
  unfold checkSpan at *
  split at outside
  · rfl
  · split at outside
    · exact absurd rfl outside
    · rename_i large
      rw [if_neg large]

theorem decides_checkSpan (offset length size : UInt64) :
    Decides (checkSpan offset length size) (offset.toNat + length.toNat ≤ size.toNat) := by
  by_cases fits : offset.toNat + length.toNat ≤ size.toNat
  · exact .of_ok ((checkSpan_eq_ok_iff _ _ _).mpr fits) fits
  · exact .of_error (checkSpan_of_not_fits fits) fits

/-- A part of an extent that ends before the address space does lies in the extent. -/
theorem within_of_part
    {extent : Extent}
    {offset length : UInt64}
    (bounded : extent.stop < 0x10000000000000000)
    (fits : offset.toNat + length.toNat ≤ extent.size.toNat) :
    (⟨extent.address.add offset, length⟩ : Extent).Within extent := by
  have starts : (extent.address.add offset).value.toNat =
      extent.address.value.toNat + offset.toNat := Address.toNat_add (by
    unfold stop start at bounded
    omega)
  unfold Within stop start
  dsimp only
  omega

end Extent

namespace Block

/-- A block that checks its arguments, lies in its root and ends before the address space
does. -/
structure Strict (block : Block) : Prop where
  checked : block.checked = true
  inside : block.extent.Within block.root.extent
  bounded : block.root.extent.stop < 0x10000000000000000

/-- A range of a block lies in the block. -/
def Spans (block : Block) (offset length : UInt64) : Prop :=
  offset.toNat + length.toNat ≤ block.size.toNat

theorem strict_whole
    {root : Root}
    (checked : root.checked = true)
    (bounded : root.extent.stop < 0x10000000000000000) :
    (whole root).Strict :=
  ⟨checked, .refl _, bounded⟩

namespace Strict

variable {block part : Block}
variable {offset length size : UInt64}

section Arithmetic

variable (strict : block.Strict)

include strict

theorem ends : block.extent.stop < 0x10000000000000000 :=
  Nat.lt_of_le_of_lt strict.inside.2 strict.bounded

/-- A range of addresses in the block makes a block of the same root strict. -/
theorem of_within
    (sameRoot : part.root = block.root)
    (within : part.extent.Within block.extent) :
    part.Strict := by
  refine ⟨?_, ?_, ?_⟩
  · rw [Block.checked, sameRoot]
    exact strict.checked
  · rw [sameRoot]
    exact within.trans strict.inside
  · rw [sameRoot]
    exact strict.bounded

omit strict in
theorem addressAt_of_fits (fits : offset.toNat ≤ block.size.toNat) :
    block.addressAt offset = .ok (block.extent.address.add offset) := by
  have notBehind : ¬ block.extent.size < offset := fun behind =>
    Nat.not_le.mpr (UInt64.lt_iff_toNat_lt.mp behind) fits
  exact if_neg fun both => notBehind both.2

theorem decides_addressAt (offset : UInt64) :
    Decides (block.addressAt offset) (offset.toNat ≤ block.size.toNat) := by
  by_cases fits : offset.toNat ≤ block.size.toNat
  case pos => exact .of_ok (addressAt_of_fits fits) fits
  case neg =>
    have behind : block.extent.size < offset :=
      UInt64.lt_iff_toNat_lt.mpr (Nat.lt_of_not_le fits)
    exact .of_error (if_pos ⟨strict.checked, behind⟩) fits

/-- The offset of an address in the block, or right behind it. -/
theorem offsetOf_of_fits
    {address : Address}
    (after : block.extent.start ≤ address.value.toNat)
    (before : address.value.toNat ≤ block.extent.stop) :
    block.offsetOf address = .ok (address.offsetFrom block.extent.address) := by
  have distance : address.offsetFrom? block.extent.address =
      some (address.offsetFrom block.extent.address) :=
    (Extent.offsetFrom?_eq_some_iff _ _ _).mpr ⟨after, rfl⟩
  have close : address.offsetFrom block.extent.address ≤ block.extent.size := by
    rw [UInt64.le_iff_toNat_le, Address.toNat_offsetFrom_of_le after]
    unfold Extent.stop Extent.start at before
    omega
  rw [offsetOf, Extent.offsetOf, strict.checked]
  simp only [distance, if_true, if_pos close]

theorem decides_offsetOf (address : Address) :
    Decides (block.offsetOf address)
      (block.extent.start ≤ address.value.toNat ∧ address.value.toNat ≤ block.extent.stop) := by
  by_cases fits : block.extent.start ≤ address.value.toNat ∧
      address.value.toNat ≤ block.extent.stop
  case pos => exact .of_ok (strict.offsetOf_of_fits fits.1 fits.2) fits
  case neg =>
    have refused : block.offsetOf address =
        .error (.outOfBounds (address.offsetFrom block.extent.address) 0 block.extent.size) := by
      rw [offsetOf, Extent.offsetOf, strict.checked]
      simp only [if_true]
      cases found : address.offsetFrom? block.extent.address with
      | none => rfl
      | some distance =>
          obtain ⟨after, rfl⟩ := (Extent.offsetFrom?_eq_some_iff _ _ _).mp found
          have far : ¬ address.offsetFrom block.extent.address ≤ block.extent.size := by
            rw [UInt64.le_iff_toNat_le, Address.toNat_offsetFrom_of_le after]
            unfold Extent.stop Extent.start at fits
            omega
          simp only [if_neg far]
    exact .of_error refused fits

theorem decides_available (address : Address) :
    Decides (block.available address)
      (block.extent.start ≤ address.value.toNat ∧ address.value.toNat ≤ block.extent.stop) :=
  (strict.decides_offsetOf address).map _

theorem decides_slice (offset size : UInt64) :
    Decides (block.slice offset size) (block.Spans offset size) := by
  rw [slice, Extent.slice, strict.checked]
  exact ((Extent.decides_checkSpan offset size block.extent.size).map _).map _

theorem decides_sliceLast (size : UInt64) :
    Decides (block.sliceLast size) (size.toNat ≤ block.size.toNat) := by
  refine Decides.map ?_ _
  by_cases fits : size.toNat ≤ block.size.toNat
  case pos =>
    have notLarge : ¬ block.extent.size < size := fun large =>
      Nat.not_le.mpr (UInt64.lt_iff_toNat_lt.mp large) fits
    exact .of_ok (if_neg fun both => notLarge both.2) fits
  case neg =>
    have large : block.extent.size < size := UInt64.lt_iff_toNat_lt.mpr (Nat.lt_of_not_le fits)
    exact .of_error (if_pos ⟨strict.checked, large⟩) fits

/-- Going to an offset and asking for it gives it back, also right behind the block. -/
theorem offsetOf_addressAt (fits : offset.toNat ≤ block.size.toNat) :
    (do block.offsetOf (← block.addressAt offset)) = .ok offset := by
  have ends := strict.ends
  unfold Extent.stop Extent.start at ends
  unfold size at fits
  have starts : (block.extent.address.add offset).value.toNat =
      block.extent.address.value.toNat + offset.toNat := Address.toNat_add (by omega)
  have found : block.offsetOf (block.extent.address.add offset) =
      .ok ((block.extent.address.add offset).offsetFrom block.extent.address) :=
    strict.offsetOf_of_fits (by unfold Extent.start; omega)
      (by unfold Extent.stop Extent.start; omega)
  rw [Address.offsetFrom_add] at found
  rw [addressAt_of_fits fits]
  exact found

/-- What is left behind an offset is the rest of the block. -/
theorem available_addressAt (fits : offset.toNat ≤ block.size.toNat) :
    (do block.available (← block.addressAt offset)) = .ok (block.size - offset) := by
  have found := strict.offsetOf_addressAt fits
  rw [addressAt_of_fits fits] at found ⊢
  show (block.offsetOf _).map _ = _
  rw [show block.offsetOf _ = .ok offset from found]
  rfl

end Arithmetic

section Parts

theorem slice_eq_ok
    (strict : block.Strict)
    (cut : block.slice offset size = .ok part) :
    block.Spans offset size ∧ part.extent = ⟨block.extent.address.add offset, size⟩ := by
  obtain ⟨rfl, spans⟩ := eq_of_slice cut
  exact ⟨spans strict.checked, rfl⟩

theorem sliceLast_eq_ok
    (strict : block.Strict)
    (cut : block.sliceLast size = .ok part) :
    size.toNat ≤ block.size.toNat ∧
      part.extent = ⟨block.extent.address.add (block.extent.size - size), size⟩ := by
  obtain ⟨rfl, fits⟩ := eq_of_sliceLast cut
  exact ⟨fits strict.checked, rfl⟩

/-- What is cut out of a block lies in it. -/
theorem within_of_slice
    (strict : block.Strict)
    (cut : block.slice offset size = .ok part) :
    part.extent.Within block.extent := by
  obtain ⟨spans, same⟩ := strict.slice_eq_ok cut
  rw [same]
  exact Extent.within_of_part strict.ends spans

theorem within_of_sliceLast
    (strict : block.Strict)
    (cut : block.sliceLast size = .ok part) :
    part.extent.Within block.extent := by
  obtain ⟨fits, same⟩ := strict.sliceLast_eq_ok cut
  have exact : (block.extent.size - size).toNat = block.extent.size.toNat - size.toNat :=
    UInt64.toNat_sub_of_le _ _ (UInt64.le_iff_toNat_le.mpr fits)
  rw [same]
  refine Extent.within_of_part strict.ends ?_
  rw [exact]
  exact Nat.le_of_eq (Nat.sub_add_cancel fits)

end Parts

end Strict

/-- What is reached from a block by cutting parts out of parts. -/
inductive PartOf (block : Block) : Block → Prop
  | whole : PartOf block block
  | slice
      {outer part : Block}
      {offset size : UInt64}
      (reached : PartOf block outer)
      (cut : outer.slice offset size = .ok part) :
      PartOf block part
  | first
      {outer part : Block}
      {size : UInt64}
      (reached : PartOf block outer)
      (cut : outer.sliceFirst size = .ok part) :
      PartOf block part
  | last
      {outer part : Block}
      {size : UInt64}
      (reached : PartOf block outer)
      (cut : outer.sliceLast size = .ok part) :
      PartOf block part

/-- The views of a root are what is reached from the root. -/
theorem ViewOf.partOf
    {root : Root}
    {block : Block}
    (view : ViewOf root block) :
    PartOf (.whole root) block := by
  induction view with
  | whole => exact .whole
  | slice outer cut reached => exact reached.slice cut
  | first outer cut reached => exact reached.first cut
  | last outer cut reached => exact reached.last cut

/-- What is reached from a checked block lies in it, and is checked as the block is. -/
theorem PartOf.within
    {block part : Block}
    (reached : PartOf block part)
    (strict : block.Strict) :
    part.Strict ∧ part.extent.Within block.extent := by
  induction reached with
  | whole => exact ⟨strict, .refl _⟩
  | slice _ cut outer | first _ cut outer =>
      obtain ⟨outerStrict, within⟩ := outer
      have inOuter := outerStrict.within_of_slice cut
      exact ⟨outerStrict.of_within (root_of_slice cut) inOuter, inOuter.trans within⟩
  | last _ cut outer =>
      obtain ⟨outerStrict, within⟩ := outer
      have inOuter := outerStrict.within_of_sliceLast cut
      exact ⟨outerStrict.of_within (root_of_sliceLast cut) inOuter, inOuter.trans within⟩

/-- A view of a checked root that ends before the address space does. -/
def OfCheckedRoot (block : Block) : Prop :=
  ∃ root, ViewOf root block ∧ root.checked = true ∧
    root.extent.stop < 0x10000000000000000

theorem OfCheckedRoot.strict
    {block : Block}
    (checked : block.OfCheckedRoot) :
    block.Strict := by
  obtain ⟨root, view, isChecked, bounded⟩ := checked
  exact (view.partOf.within (strict_whole isChecked bounded)).1

end Block
end GuardedHeap
