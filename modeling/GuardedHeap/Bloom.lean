import GuardedHeap.BitSet

/-!
# Bloom filters

A filter remembers words by turning on bits. Two hashes of a word give the
first of its positions and the distance from each to the next; the distance is
odd, so that in a filter whose size is a power of two no position comes back
before all others have come. A word whose positions are not all on was never
put into the filter.
-/

namespace GuardedHeap

/-- A filter with a number of positions for each word. -/
structure Bloom where
  bits : BitSet
  hashes : UInt32
  deriving Inhabited

namespace Bloom

/-- What tells the first hash of a word from the second one. -/
def primarySeed : UInt64 := 0x9E3779B97F4A7C15

/-- What tells the second hash of a word from the first one. -/
def secondarySeed : UInt64 := 0xD1B54A32D192ED03

/-- Spread the bits of a word over the whole word. -/
def mix (word : UInt64) : UInt64 :=
  let word := (word ^^^ (word >>> 30)) * 0xBF58476D1CE4E5B9
  let word := (word ^^^ (word >>> 27)) * 0x94D049BB133111EB
  word ^^^ (word >>> 31)

/-- The hash that gives the first position of a word. -/
def primaryHash (word : UInt64) : UInt64 :=
  mix (word ^^^ primarySeed)

/-- The odd hash that gives the distance between positions of a word. -/
def secondaryHash (word : UInt64) : UInt64 :=
  mix (word ^^^ secondarySeed) ||| 1

/-- The positions of a word below a size. -/
def positionsIn (size : UInt64) (hashes : Nat) (word : UInt64) : List UInt64 :=
  let first := primaryHash word
  let distance := secondaryHash word
  (List.range hashes).map fun step => (first + UInt64.ofNat step * distance) % size

/-- Make a filter in which no word was put. -/
def create (factory : Factory) (bits : UInt64) (hashes : UInt32) : HeapM Bloom := do
  if bits = 0 then Fallible.refuse .emptySize
  if hashes = 0 then
    Fallible.refuse (.invalidArgument "count of hashes must be greater than 0")
  let set ← BitSet.create factory bits
  pure ⟨set, hashes⟩

/-- The positions of a word. -/
def positions (filter : Bloom) (word : UInt64) : List UInt64 :=
  positionsIn filter.bits.size filter.hashes.toNat word

/-- Turn positions on. -/
def insertAll (set : BitSet) : List UInt64 → MemoryM Unit
  | [] => pure ()
  | position :: positions => do
      set.insert position
      insertAll set positions

/-- Whether positions are all on. -/
def containsAll (set : BitSet) : List UInt64 → MemoryM Bool
  | [] => pure true
  | position :: positions => do
      if ← set.contains position then containsAll set positions else pure false

/-- Put a word into the filter. -/
def put (filter : Bloom) (word : UInt64) : MemoryM Unit :=
  insertAll filter.bits (filter.positions word)

/-- Whether a word may have been put into the filter. -/
def contains (filter : Bloom) (word : UInt64) : MemoryM Bool :=
  containsAll filter.bits (filter.positions word)

/-- Forget all words. -/
def clear (filter : Bloom) : MemoryM Unit :=
  filter.bits.clear

/-- Give the block of a filter back. -/
def close (filter : Bloom) (factory : Factory) : HeapM Unit :=
  filter.bits.close factory

end Bloom
end GuardedHeap
