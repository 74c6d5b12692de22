/-!
# Hexadecimal text

Numbers written in base sixteen with lower-case digits. A `Layout` says how a
number is placed in a field: whether the base is announced by `0x`, how wide
the field is, and what fills it on which side. Filling with zeros goes between
the announced base and the digits and overrules the alignment.
-/

namespace GuardedHeap
namespace Hex

/-- The digits of a number, without leading zeros. -/
def digits (value : Nat) : String :=
  String.ofList (Nat.toDigits 16 value)

/-- The digits of a number after enough zeros to make `width` characters. -/
def padded (width value : Nat) : String :=
  let written := digits value
  String.ofList (List.replicate (width - written.length) '0') ++ written

/-- Bytes as two digits each. -/
def ofBytes (bytes : List UInt8) : String :=
  String.join (bytes.map fun byte => padded 2 byte.toNat)

/-- The value of a digit of either case. -/
def digitValue? (digit : Char) : Option Nat :=
  if '0' ≤ digit ∧ digit ≤ '9' then some (digit.toNat - 48)
  else if 'a' ≤ digit ∧ digit ≤ 'f' then some (digit.toNat - 87)
  else if 'A' ≤ digit ∧ digit ≤ 'F' then some (digit.toNat - 55)
  else none

/-- The bytes that pairs of digits spell, behind those that were `done` before,
last first. -/
def bytesOnto? (done : List UInt8) : List Char → Option (List UInt8)
  | [] => some done
  | [_] => none
  | high :: low :: rest =>
      match digitValue? high, digitValue? low with
      | some high, some low => bytesOnto? (UInt8.ofNat (high * 16 + low) :: done) rest
      | _, _ => none

/-- The bytes that pairs of digits spell. -/
def toBytes? (digits : List Char) : Option (List UInt8) :=
  (bytesOnto? [] digits).map List.reverse

/-- The side of a field on which a number stands. -/
inductive Alignment
  | left
  | center
  | right
  deriving DecidableEq

/-- How a number is placed in a field. -/
structure Layout where
  showBase : Bool := false
  zeroFill : Bool := false
  width : Nat := 0
  filler : Char := ' '
  alignment : Alignment := .right

/-- Text placed in a field of at least `width` characters. An odd filler goes
after centered text. -/
def align (alignment : Alignment) (filler : Char) (width : Nat) (text : String) : String :=
  let missing := width - text.length
  let before :=
    match alignment with
    | .left => 0
    | .center => missing / 2
    | .right => missing
  String.ofList (List.replicate before filler) ++ text ++
    String.ofList (List.replicate (missing - before) filler)

/-- A number written by a layout. -/
def render (layout : Layout) (value : Nat) : String :=
  let base := if layout.showBase then "0x" else ""
  if layout.zeroFill then
    base ++ padded (layout.width - base.length) value
  else
    align layout.alignment layout.filler layout.width (base ++ digits value)

end Hex
end GuardedHeap
