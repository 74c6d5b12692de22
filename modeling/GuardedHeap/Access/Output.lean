import GuardedHeap.Access.Datum
import GuardedHeap.World

/-!
# Outputs

An output accepts portions of bytes in order. Writing a value to an output that
knows nothing else writes the portions of the value until one is refused.

Two outputs are kept here: a sink holds what it is given up to a limit, and a
measure only adds up sizes.
-/

namespace GuardedHeap

/-- States that accept bytes. -/
class Output (σ : Type) where
  writeBytes : List UInt8 → Fallible AccessError σ Unit

namespace Output

variable {σ : Type} [Output σ]

/-- Write portions of bytes until one is refused. -/
def writePieces : List (List UInt8) → Fallible AccessError σ Unit
  | [] => pure ()
  | piece :: pieces => do
      writeBytes piece
      writePieces pieces

/-- Write the portions of a value. -/
def write (datum : Datum) : Fallible AccessError σ Unit := do
  writePieces (← Fallible.ofCheck datum.pieces)

end Output

/-- A holder of bytes with a limit. -/
structure Sink where
  limit : UInt64
  held : Array UInt8 := #[]

namespace Sink

/-- The count of bytes that still fit. -/
def available (sink : Sink) : UInt64 :=
  sink.limit - UInt64.ofNat sink.held.size

/-- Hold more bytes if all of them fit. -/
instance : Output Sink where
  writeBytes bytes := do
    let sink ← get
    let count ← Fallible.exactly (Word.ofNat? bytes.length)
    if sink.available < count then
      Fallible.refuse (.endOfBlock count sink.available)
    else set { sink with held := sink.held ++ bytes.toArray }

end Sink

/-- The sum of the sizes of values. -/
structure Measure where
  size : UInt64 := 0
  deriving DecidableEq, Inhabited

namespace Measure

/-- Add a size; the sum is held at the largest word. -/
def add (count : UInt64) : Fallible AccessError Measure Unit :=
  modify fun measure => ⟨Word.saturatingAdd measure.size count⟩

instance : Output Measure where
  writeBytes bytes := do
    add (← Fallible.exactly (Word.ofNat? bytes.length))

/-- Add the size of a value. Of unsigned numbers, of floating-point numbers and of texts it is known
without their bytes; what else there is comes as one of these, or by its bytes. -/
def write (datum : Datum) : Fallible AccessError Measure Unit :=
  match datum.carrier with
  | .uint8 _ => add 1
  | .uint16 _ => add 2
  | .uint32 _ | .float32 _ => add 4
  | .uint64 _ | .float64 _ => add 8
  | .units text => do
      add (← Fallible.exactly (Word.ofNat? (2 * (Text.units text).length)))
  | .counted text =>
      match Text.encodedLength text with
      | .error error => Fallible.refuse (.ofCoding error)
      | .ok length => do
          add (← Fallible.exactly (Word.ofNat? (2 + length)))
  | plain => Output.write plain

/-- Start again from nothing. -/
def reset : Fallible AccessError Measure Unit :=
  set ({} : Measure)

end Measure
end GuardedHeap
