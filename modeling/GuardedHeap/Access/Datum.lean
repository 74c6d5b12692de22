import GuardedHeap.Access.Error
import GuardedHeap.Word

/-!
# Typed values

The values that are written to and read from byte sequences. Numbers stand
with their most significant byte first, and floating-point numbers as their
bits. There are two forms of text: its bare code units, and encoded text after
its count of bytes.

What a value looks like in bytes is said once, by `pieces`: the portions of
bytes that are written one after the other.
-/

namespace GuardedHeap

/-- A value that can be written. -/
inductive Datum
  | uint8 (value : UInt8)
  | int8 (value : Int8)
  | bool (value : Bool)
  | uint16 (value : UInt16)
  | int16 (value : Int16)
  | codeUnit (value : UInt16)
  | uint32 (value : UInt32)
  | int32 (value : Int32)
  | uint64 (value : UInt64)
  | int64 (value : Int64)
  | float32 (bits : UInt32)
  | float64 (bits : UInt64)
  | bytes (value : List UInt8)
  | units (text : List Char)
  | counted (text : List Char)
  deriving DecidableEq

namespace Datum

/-- A portion that holds a number. -/
def number (width value : Nat) : Except AccessError (List (List UInt8)) :=
  .ok [Word.bigEndian width value]

/-- The portions of bytes of a value. -/
def pieces : Datum → Except AccessError (List (List UInt8))
  | .uint8 value => number 1 value.toNat
  | .int8 value => number 1 value.toUInt8.toNat
  | .bool value => number 1 value.toNat
  | .uint16 value => number 2 value.toNat
  | .int16 value => number 2 value.toUInt16.toNat
  | .codeUnit value => number 2 value.toNat
  | .uint32 value => number 4 value.toNat
  | .int32 value => number 4 value.toUInt32.toNat
  | .uint64 value => number 8 value.toNat
  | .int64 value => number 8 value.toUInt64.toNat
  | .float32 bits => number 4 bits.toNat
  | .float64 bits => number 8 bits.toNat
  | .bytes value => .ok [value]
  | .units text => .ok ((Text.units text).map fun unit => Word.bigEndian 2 unit.toNat)
  | .counted text =>
      match Text.encode text with
      | .error error => .error (.ofCoding error)
      | .ok body => .ok [Word.bigEndian 2 body.length, body]

/-- The value as which another one is written: a truth value as an unsigned byte, and a code unit as
an unsigned number of two bytes. -/
def carrier : Datum → Datum
  | .bool value => .uint8 value.toUInt8
  | .codeUnit value => .uint16 value
  | datum => datum

end Datum

/-- The types of values that can be read. -/
inductive DatumType
  | uint8
  | int8
  | bool
  | uint16
  | int16
  | codeUnit
  | uint32
  | int32
  | uint64
  | int64
  | float32
  | float64
  | bytes (count : UInt64)
  | counted
  deriving DecidableEq

namespace Datum

/-- The type by which a value is read back. Bare code units are read back as
their bytes. -/
def type : Datum → DatumType
  | .uint8 _ => .uint8
  | .int8 _ => .int8
  | .bool _ => .bool
  | .uint16 _ => .uint16
  | .int16 _ => .int16
  | .codeUnit _ => .codeUnit
  | .uint32 _ => .uint32
  | .int32 _ => .int32
  | .uint64 _ => .uint64
  | .int64 _ => .int64
  | .float32 _ => .float32
  | .float64 _ => .float64
  | .bytes value => .bytes (UInt64.ofNat value.length)
  | .units text => .bytes (UInt64.ofNat (2 * (Text.units text).length))
  | .counted _ => .counted

end Datum
end GuardedHeap
