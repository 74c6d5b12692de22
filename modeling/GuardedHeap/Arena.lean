import GuardedHeap.Memory.Basic

/-!
# Bump arenas

An arena hands out regions of a fixed range of memory, one after the other. A
region starts at a multiple of sixteen from the base and is never handed out
again, so the bytes of a freed region stay as they were. Fresh regions are
filled with `freshByte`.

An arena can be told to fail: with a credit, only that many more attempts to
get a region can succeed. An attempt uses up credit whether or not the region
still fits.
-/

namespace GuardedHeap

/-- The bookkeeping of a bump arena. -/
structure Arena where
  base : Address
  capacity : UInt64
  next : UInt64 := 0
  live : Std.TreeMap UInt64 UInt64 := ∅
  allocations : Nat := 0
  frees : Nat := 0
  invalidFrees : Nat := 0
  credit : Option Nat := none

namespace Arena

/-- The byte that fills fresh regions. -/
def freshByte : UInt8 := 0xA5

/-- The alignment of regions, and the least capacity of an arena. -/
def alignment : UInt64 := 16

/-- The capacity of an arena for which none is asked. -/
def defaultCapacity : UInt64 := 64 * 1024 * 1024

/-- The largest capacity that rounds up to the alignment within the positive
signed words. -/
def largestCapacity : UInt64 := 0x8000000000000000 - alignment

/-- An empty arena of at least the asked capacity. A capacity that no region of
memory can have gives none. -/
def create? (base : Address) (capacity : UInt64) : Option Arena :=
  if capacity ≤ largestCapacity then
    some { base, capacity := max capacity alignment }
  else none

/-- Let only `count` more attempts succeed. -/
def failAfter (arena : Arena) (count : Nat) : Arena :=
  { arena with credit := some count }

/-- Let attempts succeed as long as regions fit. -/
def recover (arena : Arena) : Arena :=
  { arena with credit := none }

/-- The address of an offset. -/
def addressOf (arena : Arena) (offset : UInt64) : Address :=
  arena.base.add offset

/-- The offset of an address, wrapping around for those before the base. -/
def offsetOf (arena : Arena) (address : Address) : UInt64 :=
  address.offsetFrom arena.base

/-- The size of the live region at an address. -/
def sizeAt? (arena : Arena) (address : Address) : Option UInt64 :=
  arena.live[arena.offsetOf address]?

/-- Where the region after the next one would start, if the next one fits. -/
def nextAfter? (arena : Arena) (size : UInt64) : Option UInt64 :=
  match Word.add? arena.next size with
  | none => none
  | some last => if last ≤ arena.capacity then Word.alignUp? last else none

/-- Use up one unit of credit. An arena without credit left cannot pay. -/
def pay? (arena : Arena) : Option Arena :=
  match arena.credit with
  | none => some arena
  | some 0 => none
  | some (left + 1) => some { arena with credit := some left }

/-- Set the next region apart and give its offset. -/
def reserve (arena : Arena) (size : UInt64) : Option UInt64 × Arena :=
  match arena.pay? with
  | none => (none, arena)
  | some arena =>
      match arena.nextAfter? size with
      | none => (none, arena)
      | some next =>
          (some arena.next,
            { arena with
              next
              live := arena.live.insert arena.next size
              allocations := arena.allocations + 1 })

/-- Hand out the next region, filled with the fresh byte. -/
def allocate
    (arena : Arena)
    (memory : Memory)
    (size : UInt64) :
    Option Address × Arena × Memory :=
  match arena.reserve size with
  | (none, arena) => (none, arena, memory)
  | (some offset, arena) =>
      let address := arena.addressOf offset
      (some address, arena, memory.fill address size.toNat freshByte)

/-- Move a live region to a fresh one and keep as many of its bytes as fit. An
address that is not live is no attempt. -/
def reallocate
    (arena : Arena)
    (memory : Memory)
    (address : Address)
    (newSize : UInt64) :
    Option Address × Arena × Memory :=
  match arena.sizeAt? address with
  | none => (none, arena, memory)
  | some size =>
      match arena.allocate memory newSize with
      | (none, arena, memory) => (none, arena, memory)
      | (some moved, arena, memory) =>
          (some moved,
            { arena with live := arena.live.erase (arena.offsetOf address) },
            memory.copy address moved (min size newSize).toNat)

/-- End a region. Freeing an address that is not live is only counted. -/
def free (arena : Arena) (address : Address) : Arena :=
  match arena.sizeAt? address with
  | none => { arena with invalidFrees := arena.invalidFrees + 1 }
  | some _ =>
      { arena with
        live := arena.live.erase (arena.offsetOf address)
        frees := arena.frees + 1 }

/-- The arena described by its capacity, the bytes used and its live regions. -/
def text (arena : Arena) : String :=
  s!"FakePlatform \x7b capacity: {arena.capacity}, used: {arena.next}, " ++
    s!"live: {arena.live.size} \x7d"

end Arena
end GuardedHeap
