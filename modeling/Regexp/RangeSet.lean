import Regexp.BinarySearch
import Regexp.CharSet
import Regexp.Unicode.Case

/-!
# Sets of characters as lists of ranges

A set of characters can be kept as the list of its ranges, in ascending order
and with a character between any two of them.  This is the form in which sets
are usually written down, and each operation on it is one pass over the ranges.
Nothing in the type says that the ranges are in this form: every operation has
to leave them so, and most of them are right only if they find them so.

* `RangeSet.compact` brings any list of ranges into the form: it sorts the
  ranges and merges each of them with the last one before it if they overlap or
  touch (`CharRange.touches`).  Sets are built from lists in any order, and grow
  by one range or by those of another set, with `compact` at the end.
* `RangeSet.negate` walks over the gaps.  What it carries along is the first
  character that may be in the next gap, which does not exist behind the last of
  all characters.
* `RangeSet.subtract` walks over two sets at once.  `RangeSet.cut` takes away
  from one range what the other set has of it, and leaves those ranges of the
  other set that may reach into the next one.
* `RangeSet.intersect` takes away what is in the complement of the other set.
* `RangeSet.contains` looks for a character by binary search.
* `RangeSet.caseFold` adds all characters that differ from a member at most in
  case.  The table it reads lists every character that is not its own
  representative, sorted by representative, so that the characters with one
  representative stand side by side.

## Main definitions

* `Scalar.next?`, `Scalar.previous?` — the neighbours of a character.
* `RangeSet` — a set as a list of ranges, with the operations above.
* `Case.foldTable` — the table of case folding.

## Design notes

Surrogate code points are not characters, so that U+D7FF and U+E000 are
neighbours.  Sizes are counted with code points nevertheless, and a range that
spans the surrogates does not count them (`CharRange.len`).

The sets of patterns and programs are boundary lists (`CharSet`), on which the
Boolean operations are merges of numbers and every list has the right form.  The
two kinds of sets agree on all operations.
-/

namespace Regexp

/-! ### Neighbours -/

namespace Scalar

/-- The greatest of all characters. -/
def greatest : Char := Char.ofNat 0x10FFFF

/-- The character with a code point, unless that is a surrogate or too large.
No character has such a code point. -/
def ofCodePoint? (n : Nat) : Option Char := if n.isValidChar then some (Char.ofNat n) else none

/-- The character behind a character, across the surrogates.  There is none
behind the greatest one. -/
def next? (c : Char) : Option Char :=
  if c = '\uD7FF' then some '\uE000'
  else if c = greatest then none
  else ofCodePoint? (c.toNat + 1)

/-- The character in front of a character, across the surrogates.  There is none
in front of the first one. -/
def previous? (c : Char) : Option Char :=
  if c = '\uE000' then some '\uD7FF'
  else if c = '\x00' then none
  else ofCodePoint? (c.toNat - 1)

/-- Whether a pair of characters stands in front of another one, or is the same,
in the order of the first characters and then of the second ones. -/
def pairLe (p q : Char × Char) : Bool := p.1 < q.1 || (p.1 = q.1 && p.2 ≤ q.2)

end Scalar

/-! ### Ranges -/

namespace CharRange

/-- The number of members, as the sum over the ranges.  Ranges that overlap
would count twice. -/
def len (r : CharRange) : Nat :=
  let n := r.last.toNat - r.first.toNat + 1
  if r.first ≤ '\uD7FF' && '\uE000' ≤ r.last then n - 0x800 else n

/-- The first and the last character of a range, by which ranges are sorted. -/
def ends (r : CharRange) : Char × Char := (r.first, r.last)

/-- Whether a range that begins no earlier than another one overlaps it or
begins right behind it. -/
def touches (r r' : CharRange) : Bool :=
  match Scalar.next? r.last with
  | none => true
  | some after => r'.first ≤ after

/-- A range that goes on to a character, if it does not reach it before. -/
def extendTo (r : CharRange) (c : Char) : CharRange :=
  if h : r.last < c then
    have hle : r.last ≤ c := (Char.le_total _ _).resolve_right (Char.not_le.mpr h)
    ⟨r.first, c, Char.le_trans r.first_le_last hle⟩
  else r

/-- Where a range lies, seen from a character: in front of it, around it or
behind it. -/
def compare (c : Char) (r : CharRange) : Ordering :=
  if r.last < c then .lt else if c < r.first then .gt else .eq

end CharRange

/-! ### Sets -/

/-- A set of characters as a list of ranges.  Any list is allowed by the type;
the form that the operations need and leave behind is `RangeSet.IsCanonical` in
the theory of this module. -/
structure RangeSet where
  ranges : List CharRange
  deriving DecidableEq, Repr

namespace RangeSet

/-- One more range for those that are merged so far, of which the last one
stands in front.  A range that touches the last one makes it longer, if it
reaches further, and others begin a new one. -/
def mergeInto : List CharRange → CharRange → List CharRange
  | [], r => [r]
  | last :: merged, r =>
    if last.touches r then last.extendTo r.last :: merged else r :: last :: merged

/-- The set with its ranges sorted, and those that overlap or touch merged.  Of
one range or none there is nothing to sort. -/
def compact (s : RangeSet) : RangeSet :=
  if s.ranges.length ≤ 1 then s
  else
    let sorted := s.ranges.mergeSort fun r r' => Scalar.pairLe r.ends r'.ends
    ⟨(sorted.foldl mergeInto []).reverse⟩

/-- The set with some ranges, which may be in any order and overlap. -/
def ofRanges (rs : List CharRange) : RangeSet := compact ⟨rs⟩

/-- The set without members. -/
def empty : RangeSet := ⟨[]⟩

/-- The set of all characters. -/
def full : RangeSet := ⟨[.ofEnds '\x00' Scalar.greatest]⟩

/-- The set of one character. -/
def single (c : Char) : RangeSet := ⟨[.ofEnds c c]⟩

/-- The number of members. -/
def len (s : RangeSet) : Nat := s.ranges.foldr (fun r n => r.len + n) 0

/-- The set with the characters between two ends added, which may come in either
order. -/
def pushRange (s : RangeSet) (a b : Char) : RangeSet := compact ⟨s.ranges ++ [.ofEnds a b]⟩

/-- The set with one character added. -/
def pushChar (s : RangeSet) (c : Char) : RangeSet := s.pushRange c c

/-- The set with the members of another one added.  The ranges of both are put
together and brought into the form again. -/
def union (s t : RangeSet) : RangeSet := compact ⟨s.ranges ++ t.ranges⟩

/-- The gap between the first character that may be in it and a range, if there
is a gap. -/
def gapBefore (next : Option Char) (r : CharRange) : List CharRange :=
  match next with
  | none => []
  | some start =>
    if start < r.first then
      match Scalar.previous? r.first with
      | some stop => [.ofEnds start stop]
      | none => []
    else []

/-- The gaps between ranges and the one behind them, from the first character on
that may be in a gap. -/
def gaps (next : Option Char) : List CharRange → List CharRange
  | [] =>
    match next with
    | some start => [.ofEnds start Scalar.greatest]
    | none => []
  | r :: rs => gapBefore next r ++ gaps (Scalar.next? r.last) rs

/-- The characters that are not in a set.  The gaps before, between and behind
its ranges are the ranges of the complement. -/
def negate (s : RangeSet) : RangeSet := ⟨gaps (some '\x00') s.ranges⟩

/-- The part of a range in front of another one that reaches into it, if there
is one. -/
def partBefore (r sub : CharRange) : List CharRange :=
  if r.first < sub.first then
    match Scalar.previous? sub.first with
    | some stop => [.ofEnds r.first stop]
    | none => []
  else []

/-- The part of a range behind another one that reaches into it, if there is
one. -/
def partBehind (r sub : CharRange) : Option CharRange :=
  if sub.last < r.last then (Scalar.next? sub.last).map fun start => .ofEnds start r.last
  else none

/-- What is left of a range once others have been taken away that are in
ascending order: the parts in front of them, the part behind them, and those of
them that may reach further than the range.  A range of the other set is dropped
once the current one lies behind it. -/
def cut : Option CharRange → List CharRange → List CharRange × Option CharRange × List CharRange
  | none, theirs => ([], none, theirs)
  | some r, [] => ([], some r, [])
  | some r, sub :: theirs =>
    if sub.last < r.first then cut (some r) theirs
    else if r.last < sub.first then ([], some r, sub :: theirs)
    else if sub.last ≤ r.last then
      let (parts, left, theirs) := cut (partBehind r sub) theirs
      (partBefore r sub ++ parts, left, theirs)
    else (partBefore r sub, partBehind r sub, sub :: theirs)

/-- What is left of the ranges of one list once those of another one have been
taken away. -/
def cutAll : List CharRange → List CharRange → List CharRange
  | [], _ => []
  | r :: ours, theirs =>
    let (parts, left, theirs) := cut (some r) theirs
    parts ++ left.toList ++ cutAll ours theirs

/-- The members of the first set that are not in the second, by one pass over
both lists of ranges. -/
def subtract (s t : RangeSet) : RangeSet := ⟨cutAll s.ranges t.ranges⟩

/-- The members of both sets: what is left once the complement of the second set
has been taken away from the first. -/
def intersect (s t : RangeSet) : RangeSet := s.subtract t.negate

/-- Whether a character is in a set, by binary search for a range that is
neither in front of the character nor behind it. -/
def contains (s : RangeSet) (c : Char) : Bool :=
  (BinarySearch.find (CharRange.compare c) s.ranges).isOk

end RangeSet

/-! ### Case folding -/

namespace Case

/-- Those of several characters that are not their own representatives, each
behind its representative, and sorted by it.  Characters with one representative
are sorted among themselves. -/
def foldPairs (chars : List Char) : List (Char × Char) :=
  (chars.filterMap fun c => if foldKey c = c then none else some (foldKey c, c)).mergeSort
    Scalar.pairLe

/-- The characters with code points below a number, in ascending order.
Surrogates are passed over. -/
def charsBelow (n : Nat) : List Char := (List.range n).filterMap Scalar.ofCodePoint?

/-- The pairs of all characters.  The table is made when it is first asked for. -/
def foldTable : Thunk (List (Char × Char)) := Thunk.mk fun _ => foldPairs (charsBelow 0x110000)

end Case

namespace RangeSet

/-- The ranges of a representative and of the characters that a table lists with
it. -/
def rangesOfKey (pairs : List (Char × Char)) (key : Char) : List CharRange :=
  let behind := pairs.drop (BinarySearch.partitionPoint (fun p => p.1 < key) pairs)
  .ofEnds key key :: (behind.takeWhile (·.1 = key)).map fun p => .ofEnds p.2 p.2

/-- The representatives in a table that are members or are listed with one.
They come in the order of the table, so that leaving out repetitions in a row
leaves out all. -/
def keysHit (s : RangeSet) (pairs : List (Char × Char)) : List Char :=
  ((pairs.filter fun p => s.contains p.1 || s.contains p.2).map (·.1)).eraseReps

/-- The closure of a set under simple case folding: with each representative
that is hit, the representative itself and all characters that the table lists
with it are added as ranges, and everything is merged at the end. -/
def caseFold (s : RangeSet) : RangeSet :=
  let pairs := Case.foldTable.get
  compact ⟨(s.keysHit pairs).foldl (fun ranges key => ranges ++ rangesOfKey pairs key) s.ranges⟩

end RangeSet

end Regexp
