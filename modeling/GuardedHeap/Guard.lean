import GuardedHeap.Error
import GuardedHeap.Fallible
import GuardedHeap.Memory.Basic

/-!
# Guard words

A guarded block lies between three words. Sixteen bytes before it stands its
size, eight bytes before it the header stamp, and right behind it, aligned or
not, the footer stamp. When the block ends, all three words are overwritten by
the cleanup value, by which a second end is recognised.

All operations here take the address of the size word, which is the address of
the region that holds the block and its guard words.
-/

namespace GuardedHeap
namespace Guard

/-- The bytes of the guard words before a block. -/
def headerBytes : UInt64 := 16

/-- The bytes of the guard word behind a block. -/
def footerBytes : UInt64 := 8

/-- The word right before an intact block. -/
def headerStamp : UInt64 := 0xEF0123456789ABCD

/-- The word right behind an intact block. -/
def footerStamp : UInt64 := 0xEDCBA9876543210F

/-- The word that replaces the guard words of a block that ended. -/
def cleanup : UInt64 := 0xFFFFFFFFFFFFFFFF

/-- The largest size that a size word can hold. -/
def largestSize : UInt64 := 0x7FFFFFFFFFFFFFFF

/-- The size of the region for a block of a size, if that is a word. -/
def regionSize? (size : UInt64) : Option UInt64 :=
  Word.add? size (headerBytes + footerBytes)

/-- The address of the block in a region. -/
def blockOf (region : Address) : Address :=
  region.add headerBytes

/-- The address of the region around a block, if it does not lie before the
address space. -/
def regionOf? (block : Address) : Option Address :=
  block.sub? headerBytes

/-- The address of the header stamp of a region. -/
def headerOf (region : Address) : Address :=
  region.add 8

/-- The address of the footer stamp of a region, if the distance to it is a
word. -/
def footerOf? (region : Address) (size : UInt64) : Option Address :=
  (Word.add? headerBytes size).map region.add

/-- Replace the three words around a block: its size word, its header, and its
footer, which stands at an address of its own. -/
def mark
    (memory : Memory)
    (region footer : Address)
    (sizeWord headerWord footerWord : UInt64) :
    Memory :=
  ((memory.writeWord region sizeWord).writeWord (headerOf region) headerWord).writeWord
    footer footerWord

/-- Put the guard words around a block. -/
def store (memory : Memory) (region footer : Address) (size : UInt64) : Memory :=
  mark memory region footer size headerStamp footerStamp

/-- Overwrite the guard words of a block that ends. -/
def clear (memory : Memory) (region footer : Address) : Memory :=
  mark memory region footer cleanup cleanup cleanup

/-- The size of the block in a region whose guard words are intact. The size
word is judged first, then the header stamp, then the footer stamp. -/
def fetch (memory : Memory) (region : Address) : Except (Failure HeapError) UInt64 :=
  let block := blockOf region
  let size := memory.readWord region
  let header := memory.readWord (headerOf region)
  if size = cleanup ∧ header = cleanup then
    .error (.refused (.doubleFree block))
  else if size = 0 ∨ largestSize < size then
    .error (.refused (.corrupted block .size largestSize size))
  else if header ≠ headerStamp then
    .error (.refused (.corrupted block .header headerStamp header))
  else
    match footerOf? region size with
    | none => .error .overflow
    | some footer =>
        let found := memory.readWord footer
        if found ≠ footerStamp then
          .error (.refused (.corrupted block .footer footerStamp found))
        else .ok size

end Guard
end GuardedHeap
