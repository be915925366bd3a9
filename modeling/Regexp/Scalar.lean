/-!
# Fixed classes of characters

The small classes of characters that patterns, anchors and printed text refer to
and that no table is needed for.

## Main definitions

* `Scalar.isLineTerminator` — the characters that end a line.
* `Scalar.isControl`, `Scalar.isBlank`, `Scalar.isNoncharacter` — controls,
  white space and noncharacters.
* `Scalar.digit?` — the value of a digit.
-/

namespace Regexp.Scalar

/-- Whether the code point of a character lies between two numbers, the ends
included. -/
def isBetween (lo hi : Nat) (c : Char) : Bool := lo ≤ c.toNat && c.toNat ≤ hi

/-- Line feed, carriage return, line separator and paragraph separator end a
line. -/
def isLineTerminator (c : Char) : Bool :=
  c = '\n' || c = '\r' || c = '\u2028' || c = '\u2029'

/-- The control characters: the C0 controls, delete and the C1 controls. -/
def isControl (c : Char) : Bool := isBetween 0 0x1F c || isBetween 0x7F 0x9F c

/-- The characters with the property White_Space. -/
def isBlank (c : Char) : Bool :=
  isBetween 0x09 0x0D c || c = ' ' || c.toNat = 0x85 || c.toNat = 0xA0 || c.toNat = 0x1680 ||
    isBetween 0x2000 0x200A c || isBetween 0x2028 0x2029 c || c.toNat = 0x202F ||
    c.toNat = 0x205F || c.toNat = 0x3000

/-- The noncharacters: the last two code points of each plane, and U+FDD0 to
U+FDEF. -/
def isNoncharacter (c : Char) : Bool := c.toNat % 0x10000 ≥ 0xFFFE || isBetween 0xFDD0 0xFDEF c

/-- The ASCII punctuation characters. -/
def isAsciiPunctuation (c : Char) : Bool :=
  isBetween 0x21 0x2F c || isBetween 0x3A 0x40 c || isBetween 0x5B 0x60 c || isBetween 0x7B 0x7E c

/-- The value of a digit of a base up to sixteen, in either case. -/
def digit? (base : Nat) (c : Char) : Option Nat :=
  let value? :=
    if isBetween 0x30 0x39 c then some (c.toNat - 0x30)
    else if isBetween 0x41 0x46 c then some (c.toNat - 0x41 + 10)
    else if isBetween 0x61 0x66 c then some (c.toNat - 0x61 + 10)
    else none
  value?.filter (· < base)

end Regexp.Scalar
