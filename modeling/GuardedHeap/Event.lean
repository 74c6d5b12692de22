import GuardedHeap.Error

/-!
# Events

What the heap tells while it works: every call that succeeded, and the two
things that are worth a warning, a counter that would fall below zero and a
release that finds live blocks.
-/

namespace GuardedHeap

/-- How much an event matters. -/
inductive Level
  | trace
  | warn
  deriving DecidableEq

namespace Level

/-- The name of a level. -/
def text : Level → String
  | .trace => "TRACE"
  | .warn => "WARN"

end Level

/-- The two counters of a guarded layer. -/
inductive Counter
  | blocks
  | bytes
  deriving DecidableEq

namespace Counter

/-- The name of a counter. -/
def text : Counter → String
  | .blocks => "blocks"
  | .bytes => "bytes"

end Counter

/-- What the heap tells while it works. -/
inductive Event
  | rawAllocated (block : Extent)
  | rawReallocated (previous : Address) (block : Extent)
  | rawFreed (address : Address)
  | guardedAllocated (block : Extent)
  | guardedReallocated (previous block : Extent)
  | guardedFreed (block : Extent)
  | counterUnderflow (counter : Counter) (previous amount : UInt64)
  | guardedLeak (blocks bytes : Nat)
  | registeredAllocated (block : Extent)
  | registeredReallocated (previous block : Extent)
  | registeredFreed (block : Extent)
  | registeredLeak (blocks bytes : Nat)
  | factoryAllocated (factory : Nat) (block : Extent)
  | factoryReallocated (factory : Nat) (previous block : Extent)
  | factoryFreed (factory : Nat) (block : Extent)
  | bitSetOpened (bits : UInt64) (block : Extent)
  | bitSetClosing (bits : UInt64) (block : Extent)
  deriving DecidableEq

namespace Event

/-- The level of an event. -/
def level : Event → Level
  | .counterUnderflow .. => .warn
  | .guardedLeak .. => .warn
  | .registeredLeak .. => .warn
  | _ => .trace

/-- The wording of an event. -/
def message : Event → String
  | .rawAllocated block => s!"raw: {block.size} bytes allocated at [{block.address}]"
  | .rawReallocated previous block =>
      s!"raw: [{previous}] reallocated to {block.size} bytes at [{block.address}]"
  | .rawFreed address => s!"raw: [{address}] freed"
  | .guardedAllocated block => s!"{block.size} bytes are allocated at [{block.address}]"
  | .guardedReallocated previous block =>
      s!"{previous.size} bytes at [{previous.address}] are reallocated to " ++
        s!"{block.size} bytes at [{block.address}]"
  | .guardedFreed block => s!"{block.size} bytes at [{block.address}] are freed"
  | .counterUnderflow counter previous amount =>
      s!"defensive allocator {counter.text} counter underflow: " ++
        s!"{previous} - {amount}, clamped to 0"
  | .guardedLeak blocks bytes =>
      s!"defensive allocator released with {blocks} live blocks ({bytes} bytes)"
  | .registeredAllocated block => s!"registry: {block} allocated"
  | .registeredReallocated previous block => s!"registry: {previous} -> {block}"
  | .registeredFreed block => s!"registry: {block} freed"
  | .registeredLeak blocks bytes =>
      s!"registry allocator released with {blocks} live blocks ({bytes} bytes)"
  | .factoryAllocated factory block => s!"factory {factory}: allocated {block}"
  | .factoryReallocated factory previous block =>
      s!"factory {factory}: reallocated {previous} to {block}"
  | .factoryFreed factory block => s!"factory {factory}: freed {block}"
  | .bitSetOpened bits block => s!"bit set of {bits} bits in {block}"
  | .bitSetClosing bits block => s!"closing bit set of {bits} bits in {block}"

/-- An event as one line: its level and its wording. -/
def text (event : Event) : String :=
  s!"{event.level.text} {event.message}"

end Event
end GuardedHeap
