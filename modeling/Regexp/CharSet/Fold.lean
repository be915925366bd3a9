import Regexp.CharSet
import Regexp.Unicode.Case

/-!
# Case closure of a set of characters

Two characters are the same up to case if they have the same representative,
`Case.foldKey`.  The closure of a set, `CharSet.caseFold`, adds to it every
character that is the same up to case as some member.

It takes two passes over the characters that are not their own representative.
The first adds the representatives of members (`CharSet.addFoldKeys`), the
second all characters whose representative is then a member
(`CharSet.addVariants`).  A character that is its own representative needs no
entry in the table: it is added by the first pass, if a character that it
represents is a member.  Only characters that are missing are added, so a closed
set costs two passes of membership tests and no changes.

`RangeSet.caseFold` computes the same closure in another way, on lists of ranges
with a sorted table, and `Regexp.Proofs.RangeAlgebra` shows that the results
have the same ranges.
-/

namespace Regexp.CharSet

/-- A set with the representatives of its members added, so that any two
characters which are the same up to case have theirs in it if one of them is a
member. -/
def addFoldKeys (s : CharSet) : CharSet :=
  s.union <| ofChars <| Case.variants.filterMap fun (key, c) =>
    if s.contains c && !s.contains key then some key else none

/-- A set with every character added whose representative is a member. -/
def addVariants (s : CharSet) : CharSet :=
  s.union <| ofChars <| Case.variants.filterMap fun (key, c) =>
    if s.contains key && !s.contains c then some c else none

/-- The closure of a set under simple case folding: its members, their
representatives, and all characters that have one of these. -/
def caseFold (s : CharSet) : CharSet := s.addFoldKeys.addVariants

end Regexp.CharSet
