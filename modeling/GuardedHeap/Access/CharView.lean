import GuardedHeap.Block.Transfer
import GuardedHeap.Text.Units

/-!
# Views of characters

A block seen as a sequence of code units, two bytes each, least significant
byte first. An odd last byte belongs to no unit. Narrower views are again views
of the root.
-/

namespace GuardedHeap

/-- A block seen as code units. -/
structure CharView where
  root : Root
  extent : Extent
  deriving Inhabited

namespace CharView

/-- The code units of a block. -/
def ofBlock (block : Block) : CharView :=
  ⟨block.root, block.extent⟩

/-- The block behind a view. -/
def block (view : CharView) : Block :=
  .view view.root view.extent

/-- The number of code units. -/
def length (view : CharView) : UInt64 :=
  view.extent.size / 2

/-- Whether there are no code units. -/
def isEmpty (view : CharView) : Bool :=
  view.length == 0

/-- Refuse an index at or behind a limit. -/
def checkIndex (view : CharView) (index limit : UInt64) : MemoryM Unit :=
  if limit ≤ index then Fallible.refuse (.outOfBounds index 1 view.length) else pure ()

/-- The code unit at an index. -/
def unitAt (view : CharView) (index : UInt64) : MemoryM UInt16 := do
  view.checkIndex index view.length
  let offset ← Fallible.exactly (Word.mul? index 2)
  let bytes ← view.block.read offset 2
  pure (UInt16.ofNat (Word.ofLittleEndian bytes))

/-- The view of the units from `first` up to but not including `last`. -/
def subView (view : CharView) (first last : UInt64) : MemoryM CharView := do
  view.checkIndex last (← Fallible.exactly (Word.add? view.length 1))
  if last < first then
    Fallible.refuse
      (.invalidArgument s!"start index {first} is greater than end index {last}")
  let base := view.extent.address.offsetFrom view.root.extent.address
  let skipped ← Fallible.exactly (Word.mul? first 2)
  let size ← Fallible.exactly (Word.mul? (last - first) 2)
  match Word.add? base skipped with
  | none => Fallible.refuse (.outOfBounds base skipped view.root.extent.size)
  | some offset =>
      ofBlock <$> Fallible.ofCheck ((Block.whole view.root).slice offset size)

/-- The code units from an index on, up to a count or to the first one that
cannot be read, after those that were `done` before, last first. -/
def unitsFrom (view : CharView) (index : UInt64) (done : List UInt16) :
    Nat → MemoryM (List UInt16)
  | 0 => pure done.reverse
  | count + 1 => do
      match ← Fallible.attempt (view.unitAt index) with
      | .error _ => pure done.reverse
      | .ok unit => view.unitsFrom (index + 1) (unit :: done) count

/-- The code units of a view, up to the first one that cannot be read. -/
def units (view : CharView) : MemoryM (List UInt16) :=
  view.unitsFrom 0 [] view.length.toNat

/-- The text of a view, with the replacement character for surrogates that are
not part of a pair. -/
def text (view : CharView) : MemoryM (List Char) :=
  Text.ofUnitsLossy <$> view.units

end CharView
end GuardedHeap
