import GuardedHeap.Error
import GuardedHeap.Text.Encoding

/-!
# Errors of access

The causes for which values are not written to or read from blocks.
-/

namespace GuardedHeap

/-- Why an access is refused. -/
inductive AccessError
  | endOfBlock (needed available : UInt64)
  | malformedText (reason : String)
  | memory (error : HeapError)
  deriving DecidableEq

namespace AccessError

/-- An error of coding as a cause for refusing an access. -/
def ofCoding (error : Text.CodingError) : AccessError :=
  .malformedText error.reason

/-- The wording of an error. -/
def message : AccessError → String
  | .endOfBlock needed available =>
      s!"end of block: {needed} bytes needed, {available} available"
  | .malformedText reason => s!"malformed UTF data: {reason}"
  | .memory error => s!"memory access failed: {error.message}"

/-- The error behind an error, if there is one. -/
def source? : AccessError → Option HeapError
  | .memory error => some error
  | _ => none

end AccessError
end GuardedHeap
