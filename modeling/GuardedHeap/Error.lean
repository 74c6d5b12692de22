import GuardedHeap.Address

/-!
# Errors

The causes for which the heap refuses a call, and their wording.
-/

namespace GuardedHeap

/-- The three guard words around a block. -/
inductive GuardRegion
  | size
  | header
  | footer
  deriving DecidableEq

namespace GuardRegion

/-- The name of a guard word in messages. -/
def text : GuardRegion → String
  | .size => "size"
  | .header => "header"
  | .footer => "footer"

end GuardRegion

/-- Why the heap refuses a call. -/
inductive HeapError
  | invalidArgument (reason : String)
  | outOfResources (requested : UInt64)
  | unknownAddress (address : Address)
  | doubleFree (address : Address)
  | corrupted (address : Address) (region : GuardRegion) (expected actual : UInt64)
  | outOfBounds (offset length size : UInt64)
  | invalidOperation (reason : String)
  | leakDetected (blocks bytes : Nat)
  deriving DecidableEq

namespace HeapError

/-- A block of no bytes is asked for. -/
def emptySize : HeapError :=
  .invalidArgument "size must be greater than 0"

/-- The address that an error is about, if it is about one. -/
def address? : HeapError → Option Address
  | .unknownAddress address => some address
  | .doubleFree address => some address
  | .corrupted address _ _ _ => some address
  | _ => none

/-- A guard word in messages, with its base and all digits. -/
def wordText (word : UInt64) : String :=
  "0x" ++ Hex.padded 16 word.toNat

/-- The wording of an error. -/
def message : HeapError → String
  | .invalidArgument reason => s!"invalid argument: {reason}"
  | .outOfResources requested =>
      s!"out of resources: unable to allocate {requested} bytes"
  | .unknownAddress address =>
      s!"block [{address}] is not registered in the allocation registry"
  | .doubleFree address => s!"block [{address}] has already been freed"
  | .corrupted address .size _ actual =>
      s!"block size is invalid on [{address}]: {wordText actual}. " ++
        "Block has been freed or corrupted"
  | .corrupted address region expected actual =>
      s!"{region.text} protection error: {wordText actual} " ++
        s!"(must be {wordText expected}) for [{address}]"
  | .outOfBounds offset length size =>
      s!"out of bounds: offset {offset} + length {length} exceeds block size {size}"
  | .invalidOperation reason => s!"invalid operation: {reason}"
  | .leakDetected blocks bytes =>
      s!"there are {blocks} unreleased memory blocks ({bytes} bytes). You have a memory leak"

end HeapError

end GuardedHeap
