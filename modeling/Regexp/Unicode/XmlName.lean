import Regexp.CharSet

/-!
# Characters of XML names

## Main definitions

* `XmlName.startChars` — the characters that may begin a name.
* `XmlName.chars` — the characters that may occur in a name.
-/

namespace Regexp.XmlName

/-- The set of the characters between pairs of code points. -/
def ofPairs (pairs : List (Nat × Nat)) : CharSet :=
  .ofRanges (pairs.map fun (lo, hi) => .ofEnds (Char.ofNat lo) (Char.ofNat hi))

/-- The characters that may begin a name. -/
def startChars : CharSet := ofPairs [
  (0x3A, 0x3A), (0x41, 0x5A), (0x5F, 0x5F), (0x61, 0x7A), (0xC0, 0xD6), (0xD8, 0xF6),
  (0xF8, 0x2FF), (0x370, 0x37D), (0x37F, 0x1FFF), (0x200C, 0x200D), (0x2070, 0x218F),
  (0x2C00, 0x2FEF), (0x3001, 0xD7FF), (0xF900, 0xFDCF), (0xFDF0, 0xFFFD), (0x10000, 0xEFFFF)]

/-- The characters that may occur in a name. -/
def chars : CharSet :=
  startChars.union <| ofPairs [
    (0x2D, 0x2E), (0x30, 0x39), (0xB7, 0xB7), (0x300, 0x36F), (0x203F, 0x2040)]

end Regexp.XmlName
