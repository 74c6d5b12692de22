import GuardedHeap.Proofs.Block.Inside
import GuardedHeap.Proofs.Block.Loosened

/-!
# Flat views

Views are cut out of views, but none is further from its root than one step: whatever was cut
out of what, a view is a range of addresses of the root that starts at a distance from it. The
distance is the sum of the offsets at which the parts were cut out, modulo the size of the
address space, as parts of an unchecked block may start anywhere.

What is done at an offset of a view is what is done at that distance behind the offset in the
root. In unchecked mode this goes for all that comes of it, errors included, and in checked mode
for all that succeeds. So views that overlap see what is written through each other.
-/

namespace GuardedHeap
namespace Block

/-- A way to cut a part out of a block. -/
inductive Cut
  | slice (offset size : UInt64)
  | first (size : UInt64)
  | last (size : UInt64)
  deriving DecidableEq

namespace Cut

/-- Cut a part out of a block. -/
def perform (block : Block) : Cut → Except HeapError Block
  | .slice offset size => block.slice offset size
  | .first size => block.sliceFirst size
  | .last size => block.sliceLast size

/-- The offset at which a part starts in a block of some size. -/
def offset (outer : UInt64) : Cut → UInt64
  | .slice offset _ => offset
  | .first _ => 0
  | .last size => outer - size

end Cut

/-- Cut parts out of parts of a block, and add up the offsets at which they start. -/
def cutAll (block : Block) : List Cut → Except HeapError (Block × UInt64)
  | [] => .ok (block, 0)
  | cut :: cuts => do
      let part ← cut.perform block
      let (last, rest) ← part.cutAll cuts
      pure (last, cut.offset block.size + rest)

/-- A part of a block that starts at a distance from it. The part of a checked block lies in the
block. -/
structure PartAt (block : Block) (distance : UInt64) (part : Block) : Prop where
  root_eq : part.root = block.root
  address_eq : part.address = block.address.add distance
  lies : block.checked = true → distance.toNat + part.size.toNat ≤ block.size.toNat

/-! ### Cutting -/

section Cutting

variable {block part view : Block}
variable {offset size distance rest : UInt64}

namespace PartAt

theorem refl (block : Block) : block.PartAt 0 block :=
  ⟨rfl, (Address.add_zero _).symm, fun _ => Nat.le_of_eq (Nat.zero_add _)⟩

theorem checked_eq (partAt : block.PartAt distance part) : part.checked = block.checked :=
  congrArg Root.checked partAt.root_eq

/-- Distances of parts of parts are added up. -/
theorem trans
    (outer : block.PartAt distance part)
    (inner : part.PartAt rest view) :
    block.PartAt (distance + rest) view where
  root_eq := inner.root_eq.trans outer.root_eq
  address_eq := by rw [inner.address_eq, outer.address_eq, Address.add_add]
  lies checked := by
    have first := outer.lies checked
    have second := inner.lies (outer.checked_eq.trans checked)
    have := block.size.toNat_lt
    rw [UInt64.toNat_add]
    omega

theorem of_slice (cut : block.slice offset size = .ok part) : block.PartAt offset part := by
  obtain ⟨rfl, spans⟩ := eq_of_slice cut
  exact ⟨rfl, rfl, spans⟩

theorem of_sliceLast
    (cut : block.sliceLast size = .ok part) :
    block.PartAt (block.size - size) part := by
  obtain ⟨rfl, fits⟩ := eq_of_sliceLast cut
  refine ⟨rfl, rfl, fun checked => ?_⟩
  rw [UInt64.toNat_sub_of_le _ _ (UInt64.le_iff_toNat_le.mpr (fits checked))]
  exact Nat.le_of_eq (Nat.sub_add_cancel (fits checked))

/-- Each way to cut a part out gives a part at the offset. -/
theorem of_perform
    {cut : Cut}
    (performed : cut.perform block = .ok part) :
    block.PartAt (cut.offset block.size) part := by
  cases cut with
  | slice offset size => exact of_slice performed
  | first size => exact of_slice performed
  | last size => exact of_sliceLast performed

end PartAt

/-- What is cut out of a block is a part of the root of the block. -/
theorem parent?_of_perform
    {cut : Cut}
    (performed : cut.perform block = .ok part) :
    part.parent? = some block.root := by
  cases cut with
  | slice offset size => rw [(eq_of_slice performed).1]; rfl
  | first size => rw [(eq_of_slice performed).1]; rfl
  | last size => rw [(eq_of_sliceLast performed).1]; rfl

/-- Cutting parts out of parts is to cut out the first and go on with it. -/
theorem cutAll_cons
    {cut : Cut}
    {cuts : List Cut}
    (reached : block.cutAll (cut :: cuts) = .ok (view, distance)) :
    ∃ part rest, cut.perform block = .ok part ∧ part.cutAll cuts = .ok (view, rest) ∧
      distance = cut.offset block.size + rest := by
  unfold cutAll at reached
  cases performed : cut.perform block with
  | error error =>
      rw [performed] at reached
      cases reached
  | ok part =>
      rw [performed] at reached
      change (do
        let (last, rest) ← part.cutAll cuts
        pure (last, cut.offset block.size + rest)) = _ at reached
      cases others : part.cutAll cuts with
      | error error =>
          rw [others] at reached
          cases reached
      | ok found =>
          rw [others] at reached
          cases reached
          exact ⟨part, found.2, rfl, others, rfl⟩

/-- Cutting parts out of parts gives a part at the sum of the offsets. -/
theorem PartAt.of_cutAll
    {cuts : List Cut}
    (reached : block.cutAll cuts = .ok (view, distance)) :
    block.PartAt distance view := by
  induction cuts generalizing block distance with
  | nil =>
      cases reached
      exact .refl _
  | cons cut cuts inductionHypothesis =>
      obtain ⟨part, rest, performed, others, rfl⟩ := cutAll_cons reached
      exact (PartAt.of_perform performed).trans (inductionHypothesis others)

/-- However often parts are cut out of parts, the last one is a part of the root. -/
theorem parent?_of_cutAll
    {cuts : List Cut}
    (reached : block.cutAll cuts = .ok (view, distance)) :
    view.parent? = if cuts = [] then block.parent? else some block.root := by
  induction cuts generalizing block distance with
  | nil =>
      cases reached
      rfl
  | cons cut cuts inductionHypothesis =>
      obtain ⟨part, rest, performed, others, rfl⟩ := cutAll_cons reached
      rw [inductionHypothesis others, parent?_of_perform performed,
        (PartAt.of_perform performed).root_eq, ite_self, if_neg (List.cons_ne_nil _ _)]

end Cutting

/-! ### Places in memory -/

namespace PartAt

section Located

variable {block part : Block}
variable {distance : UInt64}

/-- A range of a part is found where it is found as a range of the block. -/
theorem locate_eq
    (partAt : block.PartAt distance part)
    (offset length : UInt64) :
    part.locate offset length = block.locate (distance + offset) length := by
  simp only [locate, partAt.root_eq, partAt.address_eq, Address.add_add]

theorem locateRange_eq
    (partAt : block.PartAt distance part)
    (unchecked : block.checked = false)
    (offset length : UInt64) :
    part.locateRange offset length = block.locateRange (distance + offset) length := by
  unfold locateRange checkRange
  rw [partAt.checked_eq, unchecked, partAt.locate_eq]
  rfl

/-- A range of a part that lies in its block lies in the block. -/
theorem weaker_checkSpan
    (lies : distance.toNat + part.size.toNat ≤ block.size.toNat)
    (offset length : UInt64) :
    Weaker (Extent.checkSpan offset length part.size)
      (Extent.checkSpan (distance + offset) length block.size) := by
  intro _ passes
  have fits := (Extent.checkSpan_eq_ok_iff _ _ _).mp passes
  have := block.size.toNat_lt
  rw [Extent.checkSpan_eq_ok_iff, UInt64.toNat_add]
  omega

theorem weaker_locateRange
    (partAt : block.PartAt distance part)
    (offset length : UInt64) :
    Weaker (part.locateRange offset length) (block.locateRange (distance + offset) length) := by
  cases mode : block.checked with
  | false =>
      rw [partAt.locateRange_eq mode]
      exact .refl _
  | true =>
      unfold locateRange checkRange
      rw [partAt.checked_eq, mode, partAt.locate_eq]
      exact (weaker_checkSpan (partAt.lies mode) offset length).bind fun _ => .refl _

end Located

section LocatedBoth

variable {source sourcePart target targetPart : Block}
variable {sourceDistance targetDistance : UInt64}
variable (fromSource : source.PartAt sourceDistance sourcePart)
variable (fromTarget : target.PartAt targetDistance targetPart)

include fromSource fromTarget

theorem locateEach_eq (sourceOffset targetOffset length : UInt64) :
    sourcePart.locateEach sourceOffset targetPart targetOffset length =
      source.locateEach (sourceDistance + sourceOffset) target (targetDistance + targetOffset)
        length := by
  simp only [locateEach, fromSource.locate_eq, fromTarget.locate_eq]

theorem locateBoth_eq
    (uncheckedSource : source.checked = false)
    (uncheckedTarget : target.checked = false)
    (sourceOffset targetOffset length : UInt64) :
    sourcePart.locateBoth sourceOffset targetPart targetOffset length =
      source.locateBoth (sourceDistance + sourceOffset) target (targetDistance + targetOffset)
        length := by
  simp only [locateBoth, fromSource.checked_eq, fromTarget.checked_eq, uncheckedSource,
    uncheckedTarget, fromSource.locateEach_eq fromTarget]
  rfl

/-- If one of the blocks is checked, the ranges of both are. -/
theorem weaker_locateBoth
    (sourceLies : sourceDistance.toNat + sourcePart.size.toNat ≤ source.size.toNat)
    (targetLies : targetDistance.toNat + targetPart.size.toNat ≤ target.size.toNat)
    (sourceOffset targetOffset length : UInt64) :
    Weaker (sourcePart.locateBoth sourceOffset targetPart targetOffset length)
      (source.locateBoth (sourceDistance + sourceOffset) target (targetDistance + targetOffset)
        length) := by
  unfold locateBoth
  rw [fromSource.checked_eq, fromTarget.checked_eq, fromSource.locateEach_eq fromTarget]
  cases source.checked || target.checked with
  | false => exact .refl _
  | true =>
      apply (weaker_checkSpan sourceLies sourceOffset length).bind
      intro _
      exact (weaker_checkSpan targetLies targetOffset length).bind fun _ => .refl _

end LocatedBoth

end PartAt

/-! ### Reading and writing -/

/-- What is done with a block at an offset, be it with the block alone or with another one. -/
inductive Access
  | read (length : UInt64)
  | write (bytes : List UInt8)
  | getByte
  | putByte (value : UInt8)
  | copyTo (target : Block) (targetOffset length : UInt64)
  | copyFrom (source : Block) (sourceOffset length : UInt64)
  | compareTo (right : Block) (rightOffset length : UInt64)
  | compareFrom (left : Block) (leftOffset length : UInt64)

namespace Access

/-- Do it with a block, at an offset. -/
def on (block : Block) (offset : UInt64) : Access → Operation
  | .read length => .read block offset length
  | .write bytes => .write block offset bytes
  | .getByte => .getByte block offset
  | .putByte value => .putByte block offset value
  | .copyTo target targetOffset length => .copyTo block offset target targetOffset length
  | .copyFrom source sourceOffset length => .copyTo source sourceOffset block offset length
  | .compareTo right rightOffset length => .compareTo block offset right rightOffset length
  | .compareFrom left leftOffset length => .compareTo left leftOffset block offset length

/-- The other block with which it is done. -/
def other? : Access → Option Block
  | .read _ | .write _ | .getByte | .putByte _ => none
  | .copyTo target .. => some target
  | .copyFrom source .. => some source
  | .compareTo right .. => some right
  | .compareFrom left .. => some left

end Access

namespace PartAt

section Unchecked

variable {block part source sourcePart target targetPart : Block}
variable {distance sourceDistance targetDistance : UInt64}

theorem read_eq
    (partAt : block.PartAt distance part)
    (unchecked : block.checked = false)
    (offset length : UInt64) :
    part.read offset length = block.read (distance + offset) length := by
  simp only [Block.read, bytesAt, partAt.locateRange_eq unchecked]

theorem write_eq
    (partAt : block.PartAt distance part)
    (unchecked : block.checked = false)
    (offset : UInt64)
    (bytes : List UInt8) :
    part.write offset bytes = block.write (distance + offset) bytes := by
  simp only [Block.write, partAt.locateRange_eq unchecked]

theorem copyTo_eq
    (fromSource : source.PartAt sourceDistance sourcePart)
    (fromTarget : target.PartAt targetDistance targetPart)
    (uncheckedSource : source.checked = false)
    (uncheckedTarget : target.checked = false)
    (sourceOffset targetOffset length : UInt64) :
    sourcePart.copyTo sourceOffset targetPart targetOffset length =
      source.copyTo (sourceDistance + sourceOffset) target (targetDistance + targetOffset)
        length := by
  simp only [copyTo, fromSource.locateBoth_eq fromTarget uncheckedSource uncheckedTarget]

theorem compareTo_eq
    (fromLeft : source.PartAt sourceDistance sourcePart)
    (fromRight : target.PartAt targetDistance targetPart)
    (uncheckedLeft : source.checked = false)
    (uncheckedRight : target.checked = false)
    (leftOffset rightOffset length : UInt64) :
    sourcePart.compareTo leftOffset targetPart rightOffset length =
      source.compareTo (sourceDistance + leftOffset) target (targetDistance + rightOffset)
        length := by
  simp only [compareTo, fromLeft.locateBoth_eq fromRight uncheckedLeft uncheckedRight]

/-- Whatever is done with a part of an unchecked block is done with the block. -/
theorem run_eq
    (partAt : block.PartAt distance part)
    (unchecked : block.checked = false)
    (access : Access)
    (beside : ∀ other ∈ access.other?, other.checked = false)
    (offset : UInt64) :
    (access.on part offset).run = (access.on block (distance + offset)).run := by
  cases access with
  | read length => simp only [Access.on, Operation.run, partAt.read_eq unchecked]
  | write bytes => simp only [Access.on, Operation.run, partAt.write_eq unchecked]
  | getByte => simp only [Access.on, Operation.run, getByte, partAt.read_eq unchecked]
  | putByte value => simp only [Access.on, Operation.run, putByte, partAt.write_eq unchecked]
  | copyTo target targetOffset length =>
      simp only [Access.on, Operation.run,
        partAt.copyTo_eq (.refl target) unchecked (beside target rfl), UInt64.zero_add]
  | copyFrom source sourceOffset length =>
      simp only [Access.on, Operation.run,
        (refl source).copyTo_eq partAt (beside source rfl) unchecked, UInt64.zero_add]
  | compareTo right rightOffset length =>
      simp only [Access.on, Operation.run,
        partAt.compareTo_eq (.refl right) unchecked (beside right rfl), UInt64.zero_add]
  | compareFrom left leftOffset length =>
      simp only [Access.on, Operation.run,
        (refl left).compareTo_eq partAt (beside left rfl) unchecked, UInt64.zero_add]

end Unchecked

section Checked

open Fallible (Follows)

variable {block part : Block}
variable {distance : UInt64}

/-- Whatever succeeds with a part that lies in its block succeeds with the block, and does the
same. -/
theorem follows_run
    (partAt : block.PartAt distance part)
    (lies : distance.toNat + part.size.toNat ≤ block.size.toNat)
    (access : Access)
    (offset : UInt64) :
    Follows Eq Eq (access.on part offset).run (access.on block (distance + offset)).run := by
  have whole (other : Block) : (0 : UInt64).toNat + other.size.toNat ≤ other.size.toNat :=
    Nat.le_of_eq (Nat.zero_add _)
  have before (other : Block) (otherOffset length : UInt64) :=
    partAt.weaker_locateBoth (.refl other) lies (whole other) offset otherOffset length
  have behind (other : Block) (otherOffset length : UInt64) :=
    (refl other).weaker_locateBoth partAt (whole other) lies otherOffset offset length
  simp only [UInt64.zero_add] at before behind
  cases access with
  | read length => exact (follows_read_of_weaker (partAt.weaker_locateRange _ _)).map _
  | write bytes =>
      exact (follows_write_of_weaker (partAt.weaker_locateRange offset) bytes).map _
  | getByte =>
      exact ((follows_read_of_weaker (partAt.weaker_locateRange _ _)).map _).map _
  | putByte value =>
      exact (follows_write_of_weaker (partAt.weaker_locateRange offset) [value]).map _
  | copyTo target targetOffset length =>
      exact (follows_copyTo_of_weaker (before target targetOffset length)).map _
  | copyFrom source sourceOffset length =>
      exact (follows_copyTo_of_weaker (behind source sourceOffset length)).map _
  | compareTo right rightOffset length =>
      exact (follows_compareTo_of_weaker (before right rightOffset length)).map _
  | compareFrom left leftOffset length =>
      exact (follows_compareTo_of_weaker (behind left leftOffset length)).map _

end Checked

end PartAt

/-! ### Views of one root -/

/-- A view stands for a range of a root that starts at a distance from it. With an unchecked root,
whatever is done with the view gives what it gives with the root, errors included. With a checked
root, this goes for what succeeds. -/
structure FlatAt (root : Root) (distance : UInt64) (view : Block) : Prop where
  root_eq : view.root = root
  checked_eq : view.checked = root.checked
  address_eq : view.address = root.extent.address.add distance
  unchecked : root.checked = false →
    ∀ (access : Access) (offset : UInt64), (∀ other ∈ access.other?, other.checked = false) →
      (access.on view offset).run = (access.on (.whole root) (distance + offset)).run
  checked : root.checked = true →
    ∀ (access : Access) (offset : UInt64) (memory : Memory) answer after,
      (access.on view offset).run memory = .ok answer after →
        (access.on (.whole root) (distance + offset)).run memory = .ok answer after

/-- Bytes that were written through one view are read through another one, all of them or a part
of them, at every place of the other view that is as far from the start of the root. In checked
mode they have to lie in the other view, and a part that does not start with the first of the
bytes is read by itself only if the root ends within the address space. -/
def SeenThrough (distance : UInt64) (view : Block) (distance' : UInt64) (other : Block) : Prop :=
  ∀ offset bytes memory after, view.write offset bytes memory = .ok () after →
    ∀ skipped length place : UInt64, skipped.toNat + length.toNat ≤ bytes.length →
      distance' + place = distance + offset + skipped →
      (other.checked = true → place.toNat + length.toNat ≤ other.size.toNat) →
      (skipped = 0 ∨ other.Rooted) →
        other.read place length after =
          .ok ((bytes.drop skipped.toNat).take length.toNat) after

theorem PartAt.flatAt
    {root : Root}
    {distance : UInt64}
    {view : Block}
    (partAt : (whole root).PartAt distance view) :
    FlatAt root distance view where
  root_eq := partAt.root_eq
  checked_eq := partAt.checked_eq
  address_eq := partAt.address_eq
  unchecked mode access offset beside := partAt.run_eq mode access beside offset
  checked mode access offset memory answer after succeeds := by
    obtain ⟨answer', after', follows, rfl, rfl⟩ :=
      partAt.follows_run (partAt.lies mode) access offset memory memory rfl answer after succeeds
    exact follows

theorem PartAt.seenThrough
    {block part other : Block}
    {distance distance' : UInt64}
    (first : block.PartAt distance part)
    (second : block.PartAt distance' other) :
    SeenThrough distance part distance' other := by
  intro offset bytes memory after written skipped length place fits same inOther reachable
  obtain ⟨isWord, holds, range⟩ := ok_of_write written
  have address : other.address.add place = (part.address.add offset).add skipped := by
    rw [first.address_eq, second.address_eq, Address.add_add, Address.add_add, Address.add_add,
      same, UInt64.add_assoc]
  have found := holds.read_part fits
  rw [UInt64.ofNat_toNat, ← address] at found
  rw [← found]
  apply read_of_locateRange
  rw [locateRange_eq_ok_iff, locate_eq_ok_iff]
  refine ⟨inOther, ?_, rfl⟩
  by_cases isEmpty : length = 0
  case pos => exact .inl isEmpty
  case neg =>
    have positive := Word.toNat_pos isEmpty
    have within := range.resolve_left fun none => by
      rw [none, List.length_nil] at fits
      omega
    rw [Extent.withinRoot_eq_ok_iff, UInt64.toNat_ofNat_of_lt' isWord] at within
    -- What was written starts behind the start of the root, but where the root leads around the
    -- address space, a part of it may start before.
    have starts : ((part.address.add offset).add skipped).value.toNat =
        (part.address.add offset).value.toNat + skipped.toNat := by
      obtain rfl | rooted := reachable
      · rw [Address.add_zero, UInt64.toNat_zero, Nat.add_zero]
      · have ends := within.2
        unfold Rooted at rooted
        rw [second.root_eq, ← first.root_eq] at rooted
        exact Address.toNat_add (by omega)
    rw [address, Extent.withinRoot_eq_ok_iff, second.root_eq, ← first.root_eq, starts]
    exact .inr (by omega)

/-- Views flatten: a view that is reached from a root by cutting parts out of parts is a view of
the root itself, and stands for the range of it that starts at the sum of all offsets. Views
that are reached in other ways see what is written through it, and so does the root, which is
reached without cutting. -/
theorem views_flatten
    {root : Root}
    {cuts : List Cut}
    {distance : UInt64}
    {view : Block}
    (reached : (whole root).cutAll cuts = .ok (view, distance)) :
    (cuts ≠ [] → view.parent? = some root) ∧ FlatAt root distance view ∧
      ∀ others distance' other, (whole root).cutAll others = .ok (other, distance') →
        SeenThrough distance view distance' other := by
  have partAt := PartAt.of_cutAll reached
  refine ⟨fun isCut => ?_, partAt.flatAt, fun others distance' other alsoReached => ?_⟩
  · rw [parent?_of_cutAll reached, if_neg isCut]
    rfl
  · exact partAt.seenThrough (.of_cutAll alsoReached)

/-- A part that starts before its root and ends behind it, and the last bytes of this part, which
start in the root. What is written through them is read through the first bytes of the root. -/
theorem views_flatten_of_wide_view :
    let root : Root := ⟨⟨⟨0x1000⟩, 16⟩, false, none⟩
    let view : Block := .view root ⟨⟨0x1004⟩, 20⟩
    let other : Block := .view root ⟨⟨0x1000⟩, 8⟩
    (whole root).cutAll [.slice 0xFFFFFFFFFFFFFFF8 32, .last 20] = .ok (view, 4) ∧
      (whole root).cutAll [.first 8] = .ok (other, 0) ∧
      view.parent? = some root ∧ FlatAt root 4 view ∧
      ∀ memory, ∃ after, view.write 2 [1, 2, 3] memory = .ok () after ∧
        other.read 7 1 after = .ok [2] after := by
  intro root view other
  have reached : (whole ⟨⟨⟨0x1000⟩, 16⟩, false, none⟩).cutAll
      [.slice 0xFFFFFFFFFFFFFFF8 32, .last 20] =
        .ok (.view ⟨⟨⟨0x1000⟩, 16⟩, false, none⟩ ⟨⟨0x1004⟩, 20⟩, 4) := by rfl
  have alsoReached : (whole root).cutAll [.first 8] = .ok (other, 0) := by rfl
  have rooted : other.Rooted := by
    unfold Rooted
    decide
  obtain ⟨parent, flat, seen⟩ := views_flatten reached
  refine ⟨reached, alsoReached, parent (List.cons_ne_nil _ _), flat, fun memory => ?_⟩
  have written : (Block.view ⟨⟨⟨0x1000⟩, 16⟩, false, none⟩ ⟨⟨0x1004⟩, 20⟩).write 2 [1, 2, 3]
      memory = .ok () (memory.write ⟨0x1006⟩ [1, 2, 3]) := by rfl
  exact ⟨_, written, seen _ 0 other alsoReached 2 [1, 2, 3] memory _ written 1 1 7 (by decide)
    (by decide) (by rintro ⟨⟩) (.inr rooted)⟩

end Block
end GuardedHeap
