import GuardedHeap.Proofs.Block.Confinement
import GuardedHeap.Proofs.Memory.Followed

/-!
# Loosened blocks

A block that checks less than another one with the same place accepts whatever the other one
does and gives the same: the checks of arguments only ever reject. This goes for the
arithmetic of blocks, for the ranges that are located in memory, and so for all that is read
and written.
-/

namespace GuardedHeap

/-- It is enough to compare a check with what is left of it without the checks of arguments. -/
theorem weaker_of_unchecked
    {α : Type}
    {strict loose : Bool}
    (check : Bool → Except HeapError α)
    (unchecked : Weaker (check true) (check false))
    (less : loose = true → strict = true) :
    Weaker (check strict) (check loose) := by
  cases loose with
  | true => simpa [less] using Weaker.refl (check true)
  | false =>
      cases strict with
      | true => exact unchecked
      | false => exact .refl _

namespace Extent

section Weaker

variable {strict loose : Bool}
variable (extent : Extent)
variable (less : loose = true → strict = true)

include less

theorem weaker_addressAt (offset : UInt64) :
    Weaker (extent.addressAt strict offset) (extent.addressAt loose offset) := by
  apply weaker_of_unchecked (extent.addressAt · offset) _ less
  intro address passes
  by_cases behind : extent.size < offset
  · simp [addressAt, behind] at passes
  · simpa [addressAt, behind] using passes

theorem weaker_offsetOf (address : Address) :
    Weaker (extent.offsetOf strict address) (extent.offsetOf loose address) := by
  apply weaker_of_unchecked (extent.offsetOf · address) _ less
  intro offset passes
  cases found : address.offsetFrom? extent.address with
  | none => simp [offsetOf, found] at passes
  | some distance =>
      -- The distance that does not wrap around is the one that may.
      obtain ⟨-, exact⟩ := (offsetFrom?_eq_some_iff _ _ _).mp found
      by_cases close : distance ≤ extent.size
      · simpa [offsetOf, found, close, ← exact] using passes
      · simp [offsetOf, found, close] at passes

theorem weaker_available (address : Address) :
    Weaker (extent.available strict address) (extent.available loose address) :=
  (extent.weaker_offsetOf less address).map _

theorem weaker_slice (offset size : UInt64) :
    Weaker (extent.slice strict offset size) (extent.slice loose offset size) := by
  apply weaker_of_unchecked (extent.slice · offset size) _ less
  intro part passes
  cases span : checkSpan offset size extent.size with
  | error error => simp [slice, span, Except.map] at passes
  | ok _ => simpa [slice, span, Except.map] using passes

theorem weaker_sliceLast (size : UInt64) :
    Weaker (extent.sliceLast strict size) (extent.sliceLast loose size) := by
  apply weaker_of_unchecked (extent.sliceLast · size) _ less
  intro part passes
  by_cases large : extent.size < size
  · simp [sliceLast, large] at passes
  · simpa [sliceLast, large] using passes

end Weaker

end Extent

namespace Block

/-- A block of the same place, in a root of the same place, that checks no more. -/
structure LoosenedTo (strict loose : Block) : Prop where
  extent_eq : loose.extent = strict.extent
  rootExtent_eq : loose.root.extent = strict.root.extent
  less : loose.checked = true → strict.checked = true

namespace LoosenedTo

theorem refl (block : Block) : block.LoosenedTo block :=
  ⟨rfl, rfl, id⟩

theorem of_root
    {strict loose : Root}
    (sameExtent : loose.extent = strict.extent)
    (less : loose.checked = true → strict.checked = true) :
    (whole strict).LoosenedTo (whole loose) :=
  ⟨sameExtent, sameExtent, less⟩

variable {strict loose source looseSource target looseTarget : Block}
variable (loosened : strict.LoosenedTo loose)

include loosened

theorem size_eq : loose.size = strict.size :=
  congrArg Extent.size loosened.extent_eq

theorem address_eq : loose.address = strict.address :=
  congrArg Extent.address loosened.extent_eq

/-- The same range of addresses in both blocks. -/
theorem part (extent : Extent) :
    (view strict.root extent).LoosenedTo (view loose.root extent) :=
  ⟨rfl, loosened.rootExtent_eq, loosened.less⟩

/-- Where a range is found in the one block, it is found in the other one too. -/
theorem part_of_weaker
    {range looseRange : Except HeapError Extent}
    {part : Block}
    (weaker : Weaker range looseRange)
    (cut : range.map (view strict.root) = .ok part) :
    ∃ loosePart, looseRange.map (view loose.root) = .ok loosePart ∧
      part.LoosenedTo loosePart := by
  cases found : range with
  | error error => simp [found, Except.map] at cut
  | ok extent =>
      obtain rfl : view strict.root extent = part := by simpa [found, Except.map] using cut
      refine ⟨view loose.root extent, ?_, loosened.part extent⟩
      simp [weaker extent found, Except.map]

theorem weaker_addressAt (offset : UInt64) :
    Weaker (strict.addressAt offset) (loose.addressAt offset) := by
  unfold Block.addressAt
  rw [loosened.extent_eq]
  exact strict.extent.weaker_addressAt loosened.less offset

theorem weaker_offsetOf (address : Address) :
    Weaker (strict.offsetOf address) (loose.offsetOf address) := by
  unfold Block.offsetOf
  rw [loosened.extent_eq]
  exact strict.extent.weaker_offsetOf loosened.less address

theorem weaker_available (address : Address) :
    Weaker (strict.available address) (loose.available address) := by
  unfold Block.available
  rw [loosened.extent_eq]
  exact strict.extent.weaker_available loosened.less address

/-- What is cut out of the one block is cut out of the other one too. -/
theorem slice
    {offset size : UInt64}
    {part : Block}
    (cut : strict.slice offset size = .ok part) :
    ∃ loosePart, loose.slice offset size = .ok loosePart ∧ part.LoosenedTo loosePart := by
  have weaker := strict.extent.weaker_slice loosened.less offset size
  rw [Block.slice, loosened.extent_eq]
  exact loosened.part_of_weaker weaker cut

theorem sliceLast
    {size : UInt64}
    {part : Block}
    (cut : strict.sliceLast size = .ok part) :
    ∃ loosePart, loose.sliceLast size = .ok loosePart ∧ part.LoosenedTo loosePart := by
  have weaker := strict.extent.weaker_sliceLast loosened.less size
  rw [Block.sliceLast, loosened.extent_eq]
  exact loosened.part_of_weaker weaker cut

/-- Where memory is touched is not a matter of the mode. -/
theorem locate_eq (offset length : UInt64) :
    loose.locate offset length = strict.locate offset length := by
  simp only [locate, loosened.address_eq, loosened.rootExtent_eq]

theorem weaker_checkRange (offset length : UInt64) :
    Weaker (strict.checkRange offset length) (loose.checkRange offset length) := by
  unfold checkRange
  rw [loosened.size_eq]
  apply weaker_of_unchecked
    (fun checked => if checked then Extent.checkSpan offset length strict.size else .ok ())
    _ loosened.less
  intro _ _
  rfl

theorem weaker_locateRange (offset length : UInt64) :
    Weaker (strict.locateRange offset length) (loose.locateRange offset length) := by
  unfold locateRange
  rw [loosened.locate_eq]
  exact (loosened.weaker_checkRange offset length).bind fun _ => .refl _

omit loosened

section Both

variable (fromSource : source.LoosenedTo looseSource)
variable (fromTarget : target.LoosenedTo looseTarget)

include fromSource fromTarget

theorem weaker_locateBoth (sourceOffset targetOffset length : UInt64) :
    Weaker (source.locateBoth sourceOffset target targetOffset length)
      (looseSource.locateBoth sourceOffset looseTarget targetOffset length) := by
  have each : looseSource.locateEach sourceOffset looseTarget targetOffset length =
      source.locateEach sourceOffset target targetOffset length := by
    simp only [locateEach, fromSource.locate_eq, fromTarget.locate_eq]
  have less : (looseSource.checked || looseTarget.checked) = true →
      (source.checked || target.checked) = true := by
    simp only [Bool.or_eq_true]
    exact Or.imp fromSource.less fromTarget.less
  unfold locateBoth
  rw [each, fromSource.size_eq, fromTarget.size_eq]
  apply weaker_of_unchecked (fun checked => do
    if checked then
      Extent.checkSpan sourceOffset length source.size
      Extent.checkSpan targetOffset length target.size
    source.locateEach sourceOffset target targetOffset length) _ less
  exact (Weaker.without _ _).trans (Weaker.without _ _)

end Both

end LoosenedTo

/-! ### Reading and writing -/

section Follows

open Fallible (Follows)

section Located

variable {block loose source looseSource target looseTarget : Block}
variable {offset looseOffset sourceOffset looseSourceOffset : UInt64}
variable {targetOffset looseTargetOffset length : UInt64}

/-- What is read where ranges are located is read wherever they are located with less. -/
theorem follows_read_of_weaker
    (weak : Weaker (block.locateRange offset length) (loose.locateRange looseOffset length)) :
    Follows Eq Eq (block.read offset length) (loose.read looseOffset length) :=
  Fallible.follows_query fun _ => weak.map _

theorem follows_write_of_weaker
    (weak : ∀ length,
      Weaker (block.locateRange offset length) (loose.locateRange looseOffset length))
    (bytes : List UInt8) :
    Follows Eq Eq (block.write offset bytes) (loose.write looseOffset bytes) := by
  apply (Fallible.follows_exactly _).bind
  rintro length _ rfl
  apply (Fallible.follows_weaker (weak length)).bind
  rintro start _ rfl
  exact Fallible.follows_self _

theorem follows_copyTo_of_weaker
    (weak : Weaker (source.locateBoth sourceOffset target targetOffset length)
      (looseSource.locateBoth looseSourceOffset looseTarget looseTargetOffset length)) :
    Follows Eq Eq (source.copyTo sourceOffset target targetOffset length)
      (looseSource.copyTo looseSourceOffset looseTarget looseTargetOffset length) := by
  apply (Fallible.follows_weaker weak).bind
  rintro starts _ rfl
  exact Fallible.follows_self _

theorem follows_compareTo_of_weaker
    (weak : Weaker (source.locateBoth sourceOffset target targetOffset length)
      (looseSource.locateBoth looseSourceOffset looseTarget looseTargetOffset length)) :
    Follows Eq Eq (source.compareTo sourceOffset target targetOffset length)
      (looseSource.compareTo looseSourceOffset looseTarget looseTargetOffset length) := by
  apply (Fallible.follows_weaker weak).bind
  rintro starts _ rfl
  exact Fallible.follows_self _

end Located

variable {strict loose source looseSource target looseTarget : Block}

theorem LoosenedTo.follows_fill
    (loosened : strict.LoosenedTo loose)
    (value : UInt8) :
    Follows Eq Eq (strict.fill value) (loose.fill value) := by
  simp only [fill, loosened.size_eq, loosened.locate_eq]
  exact Fallible.follows_self _

theorem LoosenedTo.follows_copyTo
    (fromSource : source.LoosenedTo looseSource)
    (fromTarget : target.LoosenedTo looseTarget)
    (sourceOffset targetOffset length : UInt64) :
    Follows Eq Eq (source.copyTo sourceOffset target targetOffset length)
      (looseSource.copyTo sourceOffset looseTarget targetOffset length) :=
  follows_copyTo_of_weaker (fromSource.weaker_locateBoth fromTarget _ _ _)

theorem LoosenedTo.follows_compareTo
    (fromLeft : source.LoosenedTo looseSource)
    (fromRight : target.LoosenedTo looseTarget)
    (leftOffset rightOffset length : UInt64) :
    Follows Eq Eq (source.compareTo leftOffset target rightOffset length)
      (looseSource.compareTo leftOffset looseTarget rightOffset length) :=
  follows_compareTo_of_weaker (fromLeft.weaker_locateBoth fromRight _ _ _)

theorem LoosenedTo.follows_copyAllTo
    (fromSource : source.LoosenedTo looseSource)
    (fromTarget : target.LoosenedTo looseTarget) :
    Follows Eq Eq (source.copyAllTo target) (looseSource.copyAllTo looseTarget) := by
  unfold copyAllTo
  rw [fromSource.size_eq]
  exact fromSource.follows_copyTo fromTarget _ _ _

theorem LoosenedTo.follows_compareAll
    (fromLeft : source.LoosenedTo looseSource)
    (fromRight : target.LoosenedTo looseTarget) :
    Follows Eq Eq (source.compareAll target) (looseSource.compareAll looseTarget) := by
  unfold compareAll
  rw [fromLeft.size_eq]
  exact fromLeft.follows_compareTo fromRight _ _ _

theorem LoosenedTo.follows_read
    (loosened : strict.LoosenedTo loose)
    (offset length : UInt64) :
    Follows Eq Eq (strict.read offset length) (loose.read offset length) :=
  follows_read_of_weaker (loosened.weaker_locateRange offset length)

theorem LoosenedTo.follows_write
    (loosened : strict.LoosenedTo loose)
    (offset : UInt64)
    (bytes : List UInt8) :
    Follows Eq Eq (strict.write offset bytes) (loose.write offset bytes) :=
  follows_write_of_weaker (fun length => loosened.weaker_locateRange offset length) bytes

end Follows

end Block
end GuardedHeap
