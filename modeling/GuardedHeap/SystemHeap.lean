import GuardedHeap.Memory.Basic

/-!
# The system's own heap

The heap of the machine hands out memory without a bound that this library
could see, except that no request may reach the largest signed word. The
addresses that it gives and the contents of fresh memory are its own affair;
here each region gets addresses of its own, so live regions are disjoint.
-/

namespace GuardedHeap

/-- The bookkeeping of the system's heap. -/
structure SystemHeap where
  next : Address
  live : Std.TreeMap UInt64 UInt64

namespace SystemHeap

/-- A heap from which nothing was taken. Its regions start far behind those of
any arena in use. -/
def fresh : SystemHeap :=
  ⟨⟨0x0000600000000000⟩, ∅⟩

instance : Inhabited SystemHeap := ⟨fresh⟩

/-- The least size that is always refused. -/
def sizeLimit : UInt64 := 0x7FFFFFFFFFFFFFFF

/-- The distance between the starts of a region and of the one after it. -/
def stride (size : UInt64) : UInt64 :=
  (size / 16 + 2) * 16

/-- Hand out a region. -/
def allocate
    (heap : SystemHeap)
    (memory : Memory)
    (size : UInt64) :
    Option Address × SystemHeap × Memory :=
  if size < sizeLimit then
    (some heap.next,
      ⟨heap.next.add (stride size), heap.live.insert heap.next.value size⟩, memory)
  else (none, heap, memory)

/-- End a region. -/
def free (heap : SystemHeap) (address : Address) : SystemHeap :=
  { heap with live := heap.live.erase address.value }

/-- Move a region and keep as many of its bytes as fit. -/
def reallocate
    (heap : SystemHeap)
    (memory : Memory)
    (address : Address)
    (newSize : UInt64) :
    Option Address × SystemHeap × Memory :=
  let size := heap.live[address.value]?.getD 0
  match heap.allocate memory newSize with
  | (none, heap, memory) => (none, heap, memory)
  | (some moved, heap, memory) =>
      (some moved, heap.free address, memory.copy address moved (min size newSize).toNat)

end SystemHeap
end GuardedHeap
