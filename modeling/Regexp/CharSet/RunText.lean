import Regexp.CharSet

/-!
# Sets of characters in written form

The properties of Unicode are sets with hundreds of ranges.  They are written
down as texts of hexadecimal numbers, each of which is the distance from the
character after one change of membership to the next change, and are read by
`CharSet.ofRunText`.

A distance cannot be wrong.  Whatever the numbers are, the places that they lead
to ascend, and what lies past the last character is cut off (`CharSet.ofRuns`),
so that no sequence of numbers is malformed and reading cannot fail.  Any
character but a digit separates numbers.
-/

namespace Regexp.CharSet

/-- The value of a lower case hexadecimal digit. -/
def runDigit? (c : Char) : Option Nat :=
  if '0' ≤ c && c ≤ '9' then some (c.toNat - '0'.toNat)
  else if 'a' ≤ c && c ≤ 'f' then some (c.toNat - 'a'.toNat + 10)
  else none

/-- The hexadecimal numbers of a text, which may start with further digits of a
number. -/
def runNumbers : Option Nat → List Char → List Nat
  | none, [] => []
  | some n, [] => [n]
  | current, c :: cs =>
    match runDigit? c, current with
    | some d, none => runNumbers (some d) cs
    | some d, some n => runNumbers (some (16 * n + d)) cs
    | none, none => runNumbers none cs
    | none, some n => n :: runNumbers none cs

/-- The set that a text of distances describes. -/
def ofRunText (text : String) : CharSet := .ofRuns (runNumbers none text.toList)

end Regexp.CharSet
