import GuardedHeap.Hex
import GuardedHeap.Text.Units
import GuardedHeap.Word

/-!
# Encoded text

Text as bytes in the form that counted strings use. Each code unit is written
by itself: one from 1 to 127 in one byte, zero and those below 2048 in two,
all others, halves of pairs included, in three. No byte of encoded text is
zero, and the count of bytes has to fit in sixteen bits.

Decoding takes any first byte that announces the right number of bytes, so it
also accepts longer forms than encoding writes.
-/

namespace GuardedHeap
namespace Text

/-- Why text is not encoded or bytes are not decoded. -/
inductive CodingError
  | tooLong (length : Nat)
  | malformed (index : Nat) (byte : UInt8)
  | incomplete
  | unpaired
  deriving DecidableEq

namespace CodingError

/-- The wording of an error. -/
def reason : CodingError → String
  | .tooLong length => s!"encoded string too long: {length} bytes"
  | .malformed index byte =>
      s!"malformed input around byte {index}: 0x{Hex.padded 2 byte.toNat}"
  | .incomplete => "partial character at end of input"
  | .unpaired => "invalid utf-16: lone surrogate found"

end CodingError

/-- The largest count of bytes of encoded text. -/
def largestLength : Nat := 0xFFFF

/-- The count of bytes of an encoded code unit. -/
def unitLength (unit : UInt16) : Nat :=
  if unit = 0 then 2
  else if unit < 0x80 then 1
  else if unit < 0x800 then 2
  else 3

/-- A byte that continues a code unit with six of its bits. -/
def continuation (bits : Nat) : UInt8 :=
  UInt8.ofNat (0x80 + bits % 0x40)

/-- The bytes of an encoded code unit. -/
def encodeUnit (unit : UInt16) : List UInt8 :=
  let code := unit.toNat
  match unitLength unit with
  | 1 => [UInt8.ofNat code]
  | 2 => [UInt8.ofNat (0xC0 + code / 0x40), continuation code]
  | _ =>
      [UInt8.ofNat (0xE0 + code / 0x1000), continuation (code / 0x40), continuation code]

/-- The count of bytes of encoded text, whether or not it fits. -/
def totalLength (text : List Char) : Nat :=
  Word.total ((units text).map unitLength)

/-- The count of bytes of encoded text. -/
def encodedLength (text : List Char) : Except CodingError Nat :=
  if totalLength text ≤ largestLength then .ok (totalLength text)
  else .error (.tooLong (totalLength text))

/-- Encoded text. -/
def encode (text : List Char) : Except CodingError (List UInt8) :=
  (encodedLength text).map fun _ => (units text).flatMap encodeUnit

/-- The number of bytes that a first byte announces. -/
inductive Lead
  | one
  | two
  | three
  | invalid
  deriving DecidableEq

namespace Lead

/-- The number of bytes that a first byte announces by its four high bits. -/
def ofByte (byte : UInt8) : Lead :=
  if byte < 0x80 then .one
  else if byte < 0xC0 then .invalid
  else if byte < 0xE0 then .two
  else if byte < 0xF0 then .three
  else .invalid

end Lead

/-- Whether a byte continues a code unit. -/
def isContinuation (byte : UInt8) : Bool :=
  0x80 ≤ byte && byte < 0xC0

/-- The code unit of two bytes. -/
def unitOfTwo (lead second : UInt8) : UInt16 :=
  UInt16.ofNat (lead.toNat % 0x20 * 0x40 + second.toNat % 0x40)

/-- The code unit of three bytes. -/
def unitOfThree (lead second third : UInt8) : UInt16 :=
  UInt16.ofNat
    (lead.toNat % 0x10 * 0x1000 + second.toNat % 0x40 * 0x40 + third.toNat % 0x40)

/-- The code units of bytes, the first of which has an index, written behind
those that were `done` before, last first. -/
def decodeBytesOnto
    (index : Nat)
    (done : List UInt16) :
    List UInt8 → Except CodingError (List UInt16)
  | [] => .ok done
  | lead :: rest =>
      match Lead.ofByte lead, rest with
      | .one, rest => decodeBytesOnto (index + 1) (UInt16.ofNat lead.toNat :: done) rest
      | .two, [] => .error .incomplete
      | .two, second :: rest =>
          if isContinuation second then
            decodeBytesOnto (index + 2) (unitOfTwo lead second :: done) rest
          else .error (.malformed (index + 1) second)
      | .three, [] => .error .incomplete
      | .three, [second] =>
          if isContinuation second then .error .incomplete
          else .error (.malformed (index + 1) second)
      | .three, second :: third :: rest =>
          if isContinuation second then
            if isContinuation third then
              decodeBytesOnto (index + 3) (unitOfThree lead second third :: done) rest
            else .error (.malformed (index + 2) third)
          else .error (.malformed (index + 1) second)
      | .invalid, _ => .error (.malformed index lead)

/-- The code units of bytes. -/
def decodeBytes (bytes : List UInt8) : Except CodingError (List UInt16) :=
  (decodeBytesOnto 0 [] bytes).map List.reverse

/-- Decoded text. -/
def decode (bytes : List UInt8) : Except CodingError (List Char) :=
  match decodeBytes bytes with
  | .error error => .error error
  | .ok units =>
      match ofUnits? units with
      | none => .error .unpaired
      | some text => .ok text

end Text
end GuardedHeap
