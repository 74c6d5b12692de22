/-!
# Code units

Text as a sequence of code units of sixteen bits. A character of the first
plane is one unit; any other one is a pair, a high surrogate followed by a low
one. A surrogate that is not part of a pair stands for no character.
-/

namespace GuardedHeap
namespace Text

/-- The first unit of a pair. -/
def isHigh (unit : UInt16) : Bool :=
  0xD800 ≤ unit && unit < 0xDC00

/-- The second unit of a pair. -/
def isLow (unit : UInt16) : Bool :=
  0xDC00 ≤ unit && unit < 0xE000

/-- The code units of a character. -/
def unitsOfChar (char : Char) : List UInt16 :=
  let code := char.toNat
  if code < 0x10000 then [UInt16.ofNat code]
  else
    [UInt16.ofNat (0xD800 + (code - 0x10000) / 0x400),
      UInt16.ofNat (0xDC00 + (code - 0x10000) % 0x400)]

/-- The code units of text. -/
def units (text : List Char) : List UInt16 :=
  text.flatMap unitsOfChar

/-- The character of a pair. -/
def pairChar (high low : UInt16) : Char :=
  Char.ofNat (0x10000 + (high.toNat - 0xD800) * 0x400 + (low.toNat - 0xDC00))

/-- The characters of code units, with nothing in the place of a surrogate that
is not part of a pair, written behind those that were `done` before, last
first. -/
def decodeOnto (done : List (Option Char)) : List UInt16 → List (Option Char)
  | [] => done
  | [unit] =>
      if isHigh unit || isLow unit then none :: done
      else some (Char.ofNat unit.toNat) :: done
  | unit :: next :: rest =>
      if isHigh unit then
        if isLow next then decodeOnto (some (pairChar unit next) :: done) rest
        else decodeOnto (none :: done) (next :: rest)
      else if isLow unit then decodeOnto (none :: done) (next :: rest)
      else decodeOnto (some (Char.ofNat unit.toNat) :: done) (next :: rest)

/-- The characters of code units, with nothing in the place of a surrogate that
is not part of a pair. -/
def decodeUnits (units : List UInt16) : List (Option Char) :=
  (decodeOnto [] units).reverse

/-- The text of code units that are all part of characters. -/
def ofUnits? (units : List UInt16) : Option (List Char) :=
  (decodeUnits units).mapM id

/-- The character that stands for what is none. -/
def replacement : Char := Char.ofNat 0xFFFD

/-- The text of any code units, with the replacement character for surrogates
that are not part of a pair. -/
def ofUnitsLossy (units : List UInt16) : List Char :=
  (decodeUnits units).map fun char => char.getD replacement

end Text
end GuardedHeap
