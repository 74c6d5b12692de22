import GuardedHeap.Access.CharView
import GuardedHeap.Proofs.Block.Flattened
import GuardedHeap.Proofs.Overflow.Blocks

/-!
# Narrower views of characters

A range of the code units of a view is a view again, and its units are those of the view, counted
from the first one of the range. It is not cut out of the view but out of the root, at a distance
that is made from addresses: the one of the view from its root, which wraps around, and twice the
index of the first unit behind it. That comes to the same if the distance of the view and its
size add up to a word. In checked mode they always do, as the view lies in its root.
-/

namespace GuardedHeap

namespace Block.PartAt

variable {block part : Block}
variable {distance offset length : UInt64}

/-- A range for which there is room in a part is found where it is found as a range of the
block, or refused for the same cause. -/
theorem locateRange_eq_of_fits
    (partAt : block.PartAt distance part)
    (lies : distance.toNat + part.size.toNat ≤ block.size.toNat)
    (fits : offset.toNat + length.toNat ≤ part.size.toNat) :
    part.locateRange offset length = block.locateRange (distance + offset) length := by
  have := block.size.toNat_lt
  have inPart := (Extent.checkSpan_eq_ok_iff offset length part.size).mpr fits
  have inBlock : Extent.checkSpan (distance + offset) length block.size = .ok () := by
    rw [Extent.checkSpan_eq_ok_iff, UInt64.toNat_add]
    omega
  simp only [locateRange, checkRange, partAt.checked_eq, partAt.locate_eq, inPart, inBlock]

/-- What is read from a range for which there is room in a part is read from the block. -/
theorem read_eq_of_fits
    (partAt : block.PartAt distance part)
    (lies : distance.toNat + part.size.toNat ≤ block.size.toNat)
    (fits : offset.toNat + length.toNat ≤ part.size.toNat) :
    part.read offset length = block.read (distance + offset) length := by
  simp only [Block.read, bytesAt, partAt.locateRange_eq_of_fits lies fits]

end Block.PartAt

namespace CharView

variable {view : CharView}
variable {first last index : UInt64}

/-- The distance of a view from its root, wrapping around. -/
def base (view : CharView) : UInt64 :=
  view.extent.address.offsetFrom view.root.extent.address

/-- The code units from `first` up to but not including `last`, without a check. -/
def range (view : CharView) (first last : UInt64) : CharView :=
  ⟨view.root, ⟨view.extent.address.add (first * 2), (last - first) * 2⟩⟩

/-- A view that ends before distances from its root start again at zero, and in its root if that
is checked. -/
structure Straight (view : CharView) : Prop where
  isWord : view.base.toNat + view.extent.size.toNat < 0x10000000000000000
  lies : view.root.checked = true →
    view.base.toNat + view.extent.size.toNat ≤ view.root.extent.size.toNat

/-- What was cut out of a checked root is straight, and so is what was cut out of any root if it
ends before the distances start again. -/
theorem Straight.of_cutAll
    {root : Root}
    {cuts : List Block.Cut}
    {distance : UInt64}
    {block : Block}
    (reached : (Block.whole root).cutAll cuts = .ok (block, distance))
    (isWord : root.checked = false →
      (ofBlock block).base.toNat + block.size.toNat < 0x10000000000000000) :
    (ofBlock block).Straight := by
  have partAt := Block.PartAt.of_cutAll reached
  have base_eq : (ofBlock block).base = distance := by
    show block.address.value - block.root.extent.address.value = distance
    rw [partAt.address_eq, partAt.root_eq]
    show root.extent.address.value + distance - root.extent.address.value = distance
    rw [UInt64.add_comm, UInt64.add_sub_cancel]
  have lies : root.checked = true →
      (ofBlock block).base.toNat + block.size.toNat ≤ root.extent.size.toNat := by
    intro checked
    rw [base_eq]
    exact partAt.lies checked
  refine ⟨?_, fun checked => ?_⟩
  · cases mode : root.checked with
    | false => exact isWord mode
    | true => exact Nat.lt_of_le_of_lt (lies mode) root.extent.size.toNat_lt
  · have same : block.root = root := partAt.root_eq
    show _ ≤ block.root.extent.size.toNat
    rw [same]
    exact lies (same ▸ checked)

/-! ### Ranges of units -/

/-- Twice a small index is a word. -/
theorem mul?_two (fits : index.toNat * 2 < 0x10000000000000000) :
    Word.mul? index 2 = some (index * 2) :=
  if_pos fits

theorem toNat_mul_two (fits : index.toNat * 2 < 0x10000000000000000) :
    (index * 2).toNat = index.toNat * 2 := by
  rw [UInt64.toNat_mul]
  exact Nat.mod_eq_of_lt fits

section Ranges

variable (ordered : first ≤ last)
variable (within : last ≤ view.length)

include ordered within

/-- The bytes before a range and those of the range are bytes of the view. -/
theorem toNat_range :
    (first * 2).toNat = first.toNat * 2 ∧
      ((last - first) * 2).toNat = (last.toNat - first.toNat) * 2 ∧
      first.toNat ≤ last.toNat ∧ last.toNat * 2 ≤ view.extent.size.toNat := by
  have half := view.two_mul_length_le
  have := view.extent.size.toNat_lt
  have order := UInt64.le_iff_toNat_le.mp ordered
  have room := UInt64.le_iff_toNat_le.mp within
  have rest := UInt64.toNat_sub_of_le _ _ ordered
  rw [toNat_mul_two (by omega), toNat_mul_two (by omega), rest]
  exact ⟨rfl, rfl, order, by omega⟩

theorem length_range : (view.range first last).length = last - first := by
  obtain ⟨_, size, order, _⟩ := toNat_range ordered within
  apply UInt64.toNat_inj.mp
  rw [UInt64.toNat_sub_of_le _ _ ordered]
  show (((last - first) * 2) / 2).toNat = _
  rw [UInt64.toNat_div, size]
  exact Nat.mul_div_cancel _ (by decide)

/-- A range of a straight view is as far behind it as its units are. -/
theorem Straight.base_range (straight : view.Straight) :
    (view.range first last).base.toNat = view.base.toNat + first.toNat * 2 := by
  obtain ⟨skipped, _, order, room⟩ := toNat_range ordered within
  have isWord := straight.isWord
  have base_eq : (view.range first last).base = view.base + first * 2 := by
    simp only [base, range, Address.offsetFrom, Address.add, UInt64.sub_eq_add_neg]
    rw [UInt64.add_assoc, UInt64.add_assoc, UInt64.add_comm (first * 2)]
  rw [base_eq, UInt64.toNat_add, skipped]
  omega

theorem Straight.range (straight : view.Straight) : (view.range first last).Straight := by
  have base_eq := straight.base_range ordered within
  obtain ⟨_, size, order, room⟩ := toNat_range ordered within
  have size_eq : (view.range first last).extent.size.toNat = (last.toNat - first.toNat) * 2 :=
    size
  refine ⟨?_, fun checked => ?_⟩
  · have := straight.isWord
    omega
  · have : view.base.toNat + view.extent.size.toNat ≤ view.root.extent.size.toNat :=
      straight.lies checked
    show _ ≤ view.root.extent.size.toNat
    omega

/-- A range is a part of the block behind the view. -/
theorem partAt_range : view.block.PartAt (first * 2) (view.range first last).block where
  root_eq := rfl
  address_eq := rfl
  lies _ := by
    obtain ⟨skipped, size, order, room⟩ := toNat_range ordered within
    show (first * 2).toNat + ((last - first) * 2).toNat ≤ view.extent.size.toNat
    omega

end Ranges

/-! ### Making views -/

theorem checkIndex_of_lt
    {limit : UInt64}
    (below : index < limit)
    (memory : Memory) :
    view.checkIndex index limit memory = .ok () memory := by
  rw [checkIndex, if_neg (UInt64.not_le.mpr below)]
  rfl

theorem checkIndex_of_le
    {limit : UInt64}
    (behind : limit ≤ index)
    (memory : Memory) :
    view.checkIndex index limit memory =
      .error (.refused (.outOfBounds index 1 view.length)) memory := by
  rw [checkIndex, if_pos behind]
  rfl

/-- One more than the length of a view is a word. -/
theorem add?_length_one (view : CharView) :
    Word.add? view.length 1 = some (view.length + 1) ∧
      (view.length + 1).toNat = view.length.toNat + 1 := by
  have half := view.two_mul_length_le
  have := view.extent.size.toNat_lt
  have one : (1 : UInt64).toNat = 1 := rfl
  have small : view.length.toNat + (1 : UInt64).toNat < UInt64.size := by
    unfold UInt64.size
    omega
  have added : Word.add? view.length 1 = some (view.length + 1) := if_pos small
  exact ⟨added, Word.toNat_of_add?_eq_some added⟩

/-- A range that ends behind the view is refused, in whatever order its ends are. -/
theorem subView_of_behind
    (behind : view.length < last)
    (memory : Memory) :
    view.subView first last memory =
      .error (.refused (.outOfBounds last 1 view.length)) memory := by
  obtain ⟨added, limit⟩ := view.add?_length_one
  have ends : view.length + 1 ≤ last := by
    rw [UInt64.le_iff_toNat_le, limit]
    exact UInt64.lt_iff_toNat_lt.mp behind
  rw [subView, added, Fallible.bind_of_ok (Fallible.exactly_some _ memory),
    Fallible.bind_of_error (checkIndex_of_le ends memory)]

/-- A range that ends in the view but before it starts is refused. -/
theorem subView_of_reversed
    (within : last ≤ view.length)
    (reversed : last < first)
    (memory : Memory) :
    view.subView first last memory =
      .error (.refused (.invalidArgument
        s!"start index {first} is greater than end index {last}")) memory := by
  obtain ⟨added, limit⟩ := view.add?_length_one
  have ends : last < view.length + 1 := by
    rw [UInt64.lt_iff_toNat_lt, limit]
    exact Nat.lt_succ_of_le (UInt64.le_iff_toNat_le.mp within)
  rw [subView, added, Fallible.bind_of_ok (Fallible.exactly_some _ memory),
    Fallible.bind_of_ok (checkIndex_of_lt ends memory), if_pos reversed]
  rfl

/-- The root of a straight view accepts the range of bytes that belongs to a range of units. -/
theorem Straight.slice_eq
    (straight : view.Straight)
    (ordered : first ≤ last)
    (within : last ≤ view.length) :
    (Block.whole view.root).slice (view.base + first * 2) ((last - first) * 2) =
      .ok (view.range first last).block := by
  obtain ⟨skipped, size, order, room⟩ := toNat_range ordered within
  have address_eq : view.root.extent.address.add (view.base + first * 2) =
      view.extent.address.add (first * 2) := by
    rw [← Address.add_add, base, Address.add_offsetFrom]
  have part_eq : view.root.extent.slice view.root.checked (view.base + first * 2)
      ((last - first) * 2) = .ok (view.range first last).extent := by
    unfold Extent.slice
    rw [address_eq]
    cases mode : view.root.checked with
    | false => rfl
    | true =>
        have lies := straight.lies mode
        have spans : Extent.checkSpan (view.base + first * 2) ((last - first) * 2)
            view.root.extent.size = .ok () := by
          have := view.root.extent.size.toNat_lt
          rw [Extent.checkSpan_eq_ok_iff, UInt64.toNat_add]
          omega
        rw [if_pos rfl, spans]
        rfl
  show (view.root.extent.slice view.root.checked _ _).map _ = _
  rw [part_eq]
  rfl

/-- A range of a straight view is made if it is in order and ends in the view. -/
theorem Straight.subView_eq
    (straight : view.Straight)
    (ordered : first ≤ last)
    (within : last ≤ view.length)
    (memory : Memory) :
    view.subView first last memory = .ok (view.range first last) memory := by
  obtain ⟨added, limit⟩ := view.add?_length_one
  obtain ⟨skipped, _, order, room⟩ := toNat_range ordered within
  have isWord := straight.isWord
  have rest := UInt64.toNat_sub_of_le _ _ ordered
  have ends : last < view.length + 1 := by
    rw [UInt64.lt_iff_toNat_lt, limit]
    exact Nat.lt_succ_of_le (UInt64.le_iff_toNat_le.mp within)
  have moved : Word.add? view.base (first * 2) = some (view.base + first * 2) := by
    apply if_pos
    show _ < 0x10000000000000000
    omega
  rw [subView, added, Fallible.bind_of_ok (Fallible.exactly_some _ memory),
    Fallible.bind_of_ok (checkIndex_of_lt ends memory), if_neg (UInt64.not_lt.mpr ordered)]
  dsimp only
  rw [mul?_two (by omega), mul?_two (by omega),
    Fallible.bind_of_ok (Fallible.exactly_some _ memory),
    Fallible.bind_of_ok (Fallible.exactly_some _ memory),
    show Word.add? (view.extent.address.offsetFrom view.root.extent.address) (first * 2) = _
      from moved]
  show (ofBlock <$> Fallible.ofCheck ((Block.whole view.root).slice _ _)) memory = _
  rw [straight.slice_eq ordered within]
  rfl

/-! ### Units -/

/-- The units of a range are those of the view, counted from the first one of the range. -/
theorem unitAt_range
    (ordered : first ≤ last)
    (within : last ≤ view.length)
    (inRange : index < last - first) :
    (view.range first last).unitAt index = view.unitAt (first + index) := by
  funext memory
  obtain ⟨skipped, size, order, room⟩ := toNat_range ordered within
  have rest := UInt64.toNat_sub_of_le _ _ ordered
  have below := UInt64.lt_iff_toNat_lt.mp inRange
  have small := view.extent.size.toNat_lt
  have place : (first + index).toNat = first.toNat + index.toNat := by
    rw [UInt64.toNat_add]
    omega
  have doubled : (index * 2).toNat = index.toNat * 2 := toNat_mul_two (by omega)
  have inPart : index < (view.range first last).length := by
    rwa [length_range ordered within]
  have inView : first + index < view.length := by
    rw [UInt64.lt_iff_toNat_lt]
    have := UInt64.le_iff_toNat_le.mp within
    omega
  have scaled : first * 2 + index * 2 = (first + index) * 2 := (UInt64.add_mul ..).symm
  have same : (view.range first last).block.read (index * 2) 2 =
      view.block.read ((first + index) * 2) 2 := by
    rw [← scaled]
    apply (partAt_range ordered within).read_eq_of_fits
    · show (first * 2).toNat + ((last - first) * 2).toNat ≤ view.extent.size.toNat
      omega
    · show (index * 2).toNat + 2 ≤ ((last - first) * 2).toNat
      omega
  rw [unitAt, unitAt, Fallible.bind_of_ok (checkIndex_of_lt inPart memory),
    Fallible.bind_of_ok (checkIndex_of_lt inView memory), mul?_two (by omega),
    mul?_two (by omega), Fallible.bind_of_ok (Fallible.exactly_some _ memory),
    Fallible.bind_of_ok (Fallible.exactly_some _ memory), same]

/-- Ranges of ranges are ranges. -/
theorem range_range (view : CharView) (first last first' last' : UInt64) :
    (view.range first last).range first' last' = view.range (first + first') (first + last') := by
  have skipped : first * 2 + first' * 2 = (first + first') * 2 := (UInt64.add_mul ..).symm
  have rest : first + last' - (first + first') = last' - first' := by
    grind
  simp only [range, Address.add_add, skipped, rest]

/-! ### Views index into views -/

/-- What a range of a view is, however it was made: as many units as are in the range, each of
which is read, or refused, as the unit of the view is, and ranges that are those of the view. -/
structure RangeOf (view : CharView) (first last : UInt64) (part : CharView) : Prop where
  length : part.length.toNat + first.toNat = last.toNat
  unit_eq : ∀ index memory, index < last - first →
    part.unitAt index memory = view.unitAt (first + index) memory
  unit_behind : ∀ index memory, last - first ≤ index →
    part.unitAt index memory = .error (.refused (.outOfBounds index 1 part.length)) memory
  nested : ∀ first' last' memory, first' ≤ last' → last' ≤ last - first →
    ∃ inner, part.subView first' last' memory = .ok inner memory ∧
      view.subView (first + first') (first + last') memory = .ok inner memory

/-- A view makes the ranges that are in order and end in it, and no other ones. -/
structure Indexed (view : CharView) : Prop where
  made_iff : ∀ first last memory,
    (∃ part, view.subView first last memory = .ok part memory) ↔
      first ≤ last ∧ last ≤ view.length
  behind : ∀ first last memory, view.length < last →
    view.subView first last memory = .error (.refused (.outOfBounds last 1 view.length)) memory
  reversed : ∀ first last memory, last ≤ view.length → last < first →
    ∃ text, view.subView first last memory = .error (.refused (.invalidArgument text)) memory
  rangeOf : ∀ first last memory part after, view.subView first last memory = .ok part after →
    view.RangeOf first last part

/-- A range that was made is one that is in order and ends in the view. -/
theorem ordered_of_subView
    {part : CharView}
    {memory after : Memory}
    (made : view.subView first last memory = .ok part after) :
    first ≤ last ∧ last ≤ view.length := by
  have within : last ≤ view.length := by
    by_contra behind
    rw [subView_of_behind (UInt64.not_le.mp behind)] at made
    cases made
  have ordered : first ≤ last := by
    by_contra reversed
    rw [subView_of_reversed within (UInt64.not_le.mp reversed)] at made
    cases made
  exact ⟨ordered, within⟩

/-- The end of a range of a range is a word, as it is no more than the end of the range. -/
theorem add_le_of_le_sub
    (ordered : first ≤ last)
    (room : index ≤ last - first) :
    (first + index).toNat = first.toNat + index.toNat ∧ first + index ≤ last := by
  have order := UInt64.le_iff_toNat_le.mp ordered
  have rest := UInt64.toNat_sub_of_le _ _ ordered
  have below := UInt64.le_iff_toNat_le.mp room
  have := last.toNat_lt
  have exact : (first + index).toNat = first.toNat + index.toNat := by
    rw [UInt64.toNat_add]
    omega
  refine ⟨exact, ?_⟩
  rw [UInt64.le_iff_toNat_le, exact]
  omega

theorem Straight.rangeOf
    (straight : view.Straight)
    (ordered : first ≤ last)
    (within : last ≤ view.length) :
    view.RangeOf first last (view.range first last) where
  length := by
    rw [length_range ordered within, UInt64.toNat_sub_of_le _ _ ordered]
    exact Nat.sub_add_cancel (UInt64.le_iff_toNat_le.mp ordered)
  unit_eq index memory inRange := by rw [unitAt_range ordered within inRange]
  unit_behind index memory behind := by
    rw [← length_range ordered within] at behind
    rw [unitAt, Fallible.bind_of_error (checkIndex_of_le behind memory)]
  nested first' last' memory ordered' within' := by
    obtain ⟨start, _⟩ := add_le_of_le_sub ordered (UInt64.le_trans ordered' within')
    obtain ⟨stop, inRange⟩ := add_le_of_le_sub ordered within'
    have order : first + first' ≤ first + last' := by
      rw [UInt64.le_iff_toNat_le, start, stop]
      exact Nat.add_le_add_left (UInt64.le_iff_toNat_le.mp ordered') _
    refine ⟨view.range (first + first') (first + last'), ?_, ?_⟩
    · rw [← view.range_range first last]
      apply (straight.range ordered within).subView_eq ordered'
      rwa [length_range ordered within]
    · exact straight.subView_eq order (UInt64.le_trans inRange within) memory

/-- Ranges index into their view: whatever was cut out of a root, if it ends before the distances
from the root start again, which in checked mode it always does, its code units are seen through
every range of them, through ranges of ranges too, and through nothing else. -/
theorem ranges_index_into_view
    {root : Root}
    {cuts : List Block.Cut}
    {distance : UInt64}
    {block : Block}
    (reached : (Block.whole root).cutAll cuts = .ok (block, distance))
    (isWord : root.checked = false →
      (block.address.offsetFrom root.extent.address).toNat + block.size.toNat <
        0x10000000000000000) :
    (ofBlock block).Indexed := by
  have same : block.root = root := (Block.PartAt.of_cutAll reached).root_eq
  have straight : (ofBlock block).Straight := by
    apply Straight.of_cutAll reached
    rwa [base, show (ofBlock block).root = root from same]
  refine ⟨fun first last memory => ⟨?_, ?_⟩, fun first last memory behind => ?_,
    fun first last memory within reversed => ?_, fun first last memory part after made => ?_⟩
  · rintro ⟨part, made⟩
    exact ordered_of_subView made
  · rintro ⟨ordered, within⟩
    exact ⟨_, straight.subView_eq ordered within memory⟩
  · exact subView_of_behind behind memory
  · exact ⟨_, subView_of_reversed within reversed memory⟩
  · obtain ⟨ordered, within⟩ := ordered_of_subView made
    rw [straight.subView_eq ordered within] at made
    cases made
    exact straight.rangeOf ordered within

/-- A view of nine bytes that ends behind its root. It has four units, the third of which is
refused, and so is the second one of the range behind its first unit. -/
theorem ranges_index_into_view_of_long_view :
    let root : Root := ⟨⟨⟨0x1000⟩, 16⟩, false, none⟩
    let view : CharView := ⟨root, ⟨⟨0x100B⟩, 9⟩⟩
    (Block.whole root).cutAll [.slice 11 9] = .ok (view.block, 11) ∧ view.Indexed ∧
      ∀ memory, ∃ part, view.subView 1 4 memory = .ok part memory ∧
        part.length.toNat + 1 = 4 ∧
        part.unitAt 1 memory = .error (.refused (.outOfBounds 15 2 16)) memory := by
  intro root view
  have reached : (Block.whole ⟨⟨⟨0x1000⟩, 16⟩, false, none⟩).cutAll [.slice 11 9] =
      .ok (.view ⟨⟨⟨0x1000⟩, 16⟩, false, none⟩ ⟨⟨0x100B⟩, 9⟩, 11) := rfl
  have indexed : view.Indexed := ranges_index_into_view reached fun _ => by decide
  refine ⟨reached, indexed, fun memory => ?_⟩
  obtain ⟨part, made⟩ := (indexed.made_iff 1 4 memory).mpr (by decide)
  have rangeOf := indexed.rangeOf 1 4 memory part memory made
  refine ⟨part, made, rangeOf.length, ?_⟩
  have outside : view.block.locateRange 4 2 = .error (.outOfBounds 15 2 16) := by
    decide +kernel
  rw [rangeOf.unit_eq 1 memory (by decide), unitAt,
    Fallible.bind_of_ok (checkIndex_of_lt (by decide) memory), mul?_two (by decide),
    Fallible.bind_of_ok (Fallible.exactly_some _ memory)]
  apply Fallible.bind_of_error
  show Block.read view.block 4 2 memory = _
  rw [Block.read, Fallible.query, Block.bytesAt, outside]
  rfl

end CharView
end GuardedHeap
