import GuardedHeap.Access.Output
import GuardedHeap.Block.Transfer

/-!
# Cursors

A cursor is a position in a block at which values are read and written, and
which each of them moves behind itself. It never stands behind the end of its
block. What needs more bytes than are left is refused without effect; only bare
code units are written one by one up to the end.
-/

namespace GuardedHeap

/-- A position in a block. -/
structure Cursor where
  block : Block
  offset : UInt64
  deriving Inhabited

/-- A computation on a cursor and on memory. -/
abbrev CursorM := Fallible AccessError (Cursor × Memory)

namespace Cursor

/-- A cursor at the start of a block. -/
def start (block : Block) : Cursor :=
  ⟨block, 0⟩

/-- The cursor itself. -/
def current : CursorM Cursor := do
  pure (← get).1

/-- Stand at an offset. -/
def moveTo (offset : UInt64) : CursorM Unit :=
  modify fun (cursor, memory) => ({ cursor with offset }, memory)

/-- Run a computation on memory for a cursor. -/
def onMemory {α : Type} (computation : MemoryM α) : CursorM α := fun (cursor, memory) =>
  match computation memory with
  | .ok value memory => .ok value (cursor, memory)
  | .error failure memory => .error (failure.map .memory) (cursor, memory)

/-- The count of bytes behind the cursor. -/
def available : CursorM UInt64 := do
  let cursor ← current
  Fallible.exactly (Word.sub? cursor.block.size cursor.offset)

/-- Stand at an offset, at most at the end of the block. -/
def setOffset (offset : UInt64) : CursorM Unit := do
  let size := (← current).block.size
  if size < offset then
    Fallible.refuse (.memory (.outOfBounds offset 0 size))
  else moveTo offset

/-- Move by a signed distance. -/
def shift (distance : Int64) : CursorM Unit := do
  let cursor ← current
  match Word.shift? cursor.offset distance with
  | none =>
      Fallible.refuse
        (.memory (.outOfBounds cursor.offset (Word.magnitude distance) cursor.block.size))
  | some target => setOffset target

/-- Move forward over bytes that were read or written. -/
def advance (count : UInt64) : CursorM Unit := do
  moveTo (← Fallible.exactly (Word.add? (← current).offset count))

/-- Move forward, at most to the end of the block, and tell how far. -/
def skip (count : UInt64) : CursorM UInt64 := do
  let skipped := min count (← available)
  advance skipped
  pure skipped

/-- Refuse what needs more bytes than are left. -/
def ensure (needed : UInt64) : CursorM Unit := do
  let available ← available
  if available < needed then
    Fallible.refuse (.endOfBlock needed available)

/-- Read bytes. -/
def readBytes (count : UInt64) : CursorM (List UInt8) := do
  ensure count
  let cursor ← current
  let bytes ← onMemory (cursor.block.read cursor.offset count)
  advance count
  pure bytes

/-- Read a number, most significant byte first. -/
def readNumber (width : UInt64) : CursorM Nat := do
  pure (Word.ofBigEndian (← readBytes width))

/-- Read encoded text after its count of bytes. Whatever is wrong with it, the
cursor then stands where it stood. -/
def readCounted : CursorM (List Char) := do
  let cursor ← current
  let body : CursorM (List Char) := do
    let length ← readNumber 2
    let bytes ← readBytes (UInt64.ofNat length)
    match Text.decode bytes with
    | .error error => Fallible.refuse (.ofCoding error)
    | .ok text => pure text
  match ← Fallible.attempt body with
  | .error error =>
      moveTo cursor.offset
      Fallible.refuse error
  | .ok text => pure text

/-- Read a value of a type. Every byte but zero is a true value. -/
def read : DatumType → CursorM Datum
  | .uint8 => do pure (.uint8 (UInt8.ofNat (← readNumber 1)))
  | .int8 => do pure (.int8 (UInt8.ofNat (← readNumber 1)).toInt8)
  | .bool => do pure (.bool ((← readNumber 1) != 0))
  | .uint16 => do pure (.uint16 (UInt16.ofNat (← readNumber 2)))
  | .int16 => do pure (.int16 (UInt16.ofNat (← readNumber 2)).toInt16)
  | .codeUnit => do pure (.codeUnit (UInt16.ofNat (← readNumber 2)))
  | .uint32 => do pure (.uint32 (UInt32.ofNat (← readNumber 4)))
  | .int32 => do pure (.int32 (UInt32.ofNat (← readNumber 4)).toInt32)
  | .uint64 => do pure (.uint64 (UInt64.ofNat (← readNumber 8)))
  | .int64 => do pure (.int64 (UInt64.ofNat (← readNumber 8)).toInt64)
  | .float32 => do pure (.float32 (UInt32.ofNat (← readNumber 4)))
  | .float64 => do pure (.float64 (UInt64.ofNat (← readNumber 8)))
  | .bytes count => do pure (.bytes (← readBytes count))
  | .counted => do pure (.counted (← readCounted))

/-- Write bytes. -/
def writeBytes (bytes : List UInt8) : CursorM Unit := do
  let count ← Fallible.exactly (Word.ofNat? bytes.length)
  ensure count
  let cursor ← current
  onMemory (cursor.block.write cursor.offset bytes)
  advance count

instance : Output (Cursor × Memory) where
  writeBytes := writeBytes

/-- Write encoded text after its count of bytes, all of it or nothing. -/
def writeCounted (text : List Char) : CursorM Unit := do
  match Text.encode text with
  | .error error => Fallible.refuse (.ofCoding error)
  | .ok body =>
      ensure (← Fallible.exactly (Word.ofNat? (2 + body.length)))
      writeBytes (Word.bigEndian 2 body.length)
      writeBytes body

/-- Write a value. -/
def write : Datum → CursorM Unit
  | .counted text => writeCounted text
  | datum => Output.write datum

end Cursor
end GuardedHeap
