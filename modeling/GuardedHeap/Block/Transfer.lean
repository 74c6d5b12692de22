import GuardedHeap.Block.Basic
import GuardedHeap.World

/-!
# Moving bytes

Reading, writing, filling, copying and comparing blocks. Each operation first
decides, from the blocks and its arguments alone, which ranges of memory it
will touch, and refuses without any effect if one of them leaves its root.
Operations of no bytes touch nothing.
-/

namespace GuardedHeap
namespace Block

/-- Where a range of a block starts in memory, once it is known to lie in the
root. A range of no bytes starts nowhere. -/
def locate (block : Block) (offset length : UInt64) : Except HeapError (Option Address) :=
  if length = 0 then .ok none
  else
    let start := block.address.add offset
    (block.root.extent.withinRoot start length).map fun _ => some start

/-- Accept a range of a checked block. -/
def checkRange (block : Block) (offset length : UInt64) : Except HeapError Unit :=
  if block.checked then Extent.checkSpan offset length block.size else .ok ()

/-- Where the ranges of two blocks start in memory. -/
def locateEach
    (source : Block)
    (sourceOffset : UInt64)
    (target : Block)
    (targetOffset length : UInt64) :
    Except HeapError (Option (Address × Address)) := do
  let sourceStart ← source.locate sourceOffset length
  let targetStart ← target.locate targetOffset length
  match sourceStart, targetStart with
  | some sourceStart, some targetStart => pure (some (sourceStart, targetStart))
  | _, _ => pure none

/-- Where the ranges of two blocks start in memory. If one of the blocks is
checked, both ranges are. -/
def locateBoth
    (source : Block)
    (sourceOffset : UInt64)
    (target : Block)
    (targetOffset length : UInt64) :
    Except HeapError (Option (Address × Address)) := do
  if source.checked || target.checked then
    Extent.checkSpan sourceOffset length source.size
    Extent.checkSpan targetOffset length target.size
  source.locateEach sourceOffset target targetOffset length

/-- Where a range that is to be read or written starts in memory. -/
def locateRange (block : Block) (offset length : UInt64) :
    Except HeapError (Option Address) := do
  block.checkRange offset length
  block.locate offset length

/-- Compare two lists of bytes, the first difference deciding. -/
def compareBytes : List UInt8 → List UInt8 → Ordering
  | [], [] => .eq
  | [], _ :: _ => .lt
  | _ :: _, [] => .gt
  | left :: lefts, right :: rights => (compare left right).then (compareBytes lefts rights)

/-- The bytes of a range of a block in memory. -/
def bytesAt (block : Block) (memory : Memory) (offset length : UInt64) :
    Except HeapError (List UInt8) :=
  (block.locateRange offset length).map fun start =>
    match start with
    | none => []
    | some start => memory.read start length.toNat

/-- Read a range of a block. -/
def read (block : Block) (offset length : UInt64) : MemoryM (List UInt8) :=
  Fallible.query fun memory => block.bytesAt memory offset length

/-- Write bytes into a block. -/
def write (block : Block) (offset : UInt64) (bytes : List UInt8) : MemoryM Unit := do
  let length ← Fallible.exactly (Word.ofNat? bytes.length)
  match ← Fallible.ofCheck (block.locateRange offset length) with
  | none => pure ()
  | some start => modify fun memory => memory.write start bytes

/-- Read one byte of a block. -/
def getByte (block : Block) (offset : UInt64) : MemoryM UInt8 := do
  pure ((← block.read offset 1).headD 0)

/-- Write one byte of a block. -/
def putByte (block : Block) (offset : UInt64) (value : UInt8) : MemoryM Unit :=
  block.write offset [value]

/-- Replace all bytes of a block. -/
def fill (block : Block) (value : UInt8) : MemoryM Unit := do
  match ← Fallible.ofCheck (block.locate 0 block.size) with
  | none => pure ()
  | some start => modify fun memory => memory.fill start block.size.toNat value

/-- Copy bytes of one block into another one; the ranges may overlap. -/
def copyTo
    (source : Block)
    (sourceOffset : UInt64)
    (target : Block)
    (targetOffset length : UInt64) :
    MemoryM Unit := do
  match ← Fallible.ofCheck (source.locateBoth sourceOffset target targetOffset length) with
  | none => pure ()
  | some (sourceStart, targetStart) =>
      modify fun memory => memory.copy sourceStart targetStart length.toNat

/-- Copy the first bytes of one block to the start of another one. -/
def copyPrefixTo (source target : Block) (length : UInt64) : MemoryM Unit :=
  source.copyTo 0 target 0 length

/-- Copy all bytes of one block to the start of another one. -/
def copyAllTo (source target : Block) : MemoryM Unit :=
  source.copyPrefixTo target source.size

/-- Compare bytes of two blocks. -/
def compareTo
    (left : Block)
    (leftOffset : UInt64)
    (right : Block)
    (rightOffset length : UInt64) :
    MemoryM Ordering := do
  match ← Fallible.ofCheck (left.locateBoth leftOffset right rightOffset length) with
  | none => pure .eq
  | some (leftStart, rightStart) => do
      let memory ← get
      pure (compareBytes (memory.read leftStart length.toNat)
        (memory.read rightStart length.toNat))

/-- Compare the first bytes of two blocks. -/
def comparePrefix (left right : Block) (length : UInt64) : MemoryM Ordering :=
  left.compareTo 0 right 0 length

/-- Compare all bytes of a block with as many of another one. -/
def compareAll (left right : Block) : MemoryM Ordering :=
  left.comparePrefix right left.size

end Block
end GuardedHeap
