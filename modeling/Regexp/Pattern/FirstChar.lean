import Regexp.CharSet.Fold
import Regexp.Pattern

/-!
# First characters

Which characters a match can begin with.  The analysis walks over the pattern
and collects characters until it is clear that a match has begun; what is
collected only ever grows, so that it can be passed along from part to part.

`FirstChar` is what is known after a part of a pattern: that every match of it
begins with a collected character, that a match of it is empty or begins with
one, so that what follows counts as well, or that nothing is known.  A sequence
goes on while a part may be empty (`Pattern.firstCharSeq`), and alternatives are
all visited (`FirstChar.either`).  A lookaround reads nothing that a match
begins with; a reference or a dot could begin with almost anything, and ends the
analysis.

## Main definitions

* `FirstChar` — what is known after a part of a pattern.
* `Pattern.firstChar` — the analysis.
-/

namespace Regexp

/-- What is known about the first character of a match after a part of a
pattern.  The characters themselves are collected apart from it. -/
inductive FirstChar where
  /-- Every match of the part begins with a collected character. -/
  | terminal
  /-- A match of the part is empty or begins with a collected character. -/
  | continues
  /-- Nothing is known. -/
  | any
  deriving DecidableEq, Repr

namespace FirstChar

/-- What is known after one of two parts. -/
def either : FirstChar → FirstChar → FirstChar
  | any, _ => any
  | _, any => any
  | terminal, terminal => terminal
  | _, _ => continues

end FirstChar

namespace Pattern

/-- A character, with its variants if case does not matter. -/
def firstOf (opts : Options) (c : Char) : CharSet :=
  if opts.caseInsensitive then (CharSet.single c).caseFold else .single c

/-- The characters that a class can match at most.  For a complement no variants
are added to the set, which can only make the complement larger. -/
def firstOfClass (opts : Options) (set : CharSet) (negated : Bool) : CharSet :=
  if negated then set.compl else if opts.caseInsensitive then set.caseFold else set

mutual

/-- What is known about the first character of a match, and the collected
characters with the new ones added.  Where nothing is known the collected
characters have no meaning. -/
def firstChar (opts : Options) : Pattern → CharSet → FirstChar × CharSet
  | .char c, seen => (.terminal, seen.union (firstOf opts c))
  | .string [], seen => (.continues, seen)
  | .string (c :: _), seen => (.terminal, seen.union (firstOf opts c))
  | .charClass set negated, seen => (.terminal, seen.union (firstOfClass opts set negated))
  | .dot, seen | .backref _, seen => (.any, seen)
  | .empty, seen | .anchor _, seen | .look _ _, seen => (.continues, seen)
  | .concat items, seen => firstCharSeq opts items seen
  | .union [], seen => (.continues, seen)
  | .union (p :: ps), seen =>
    match firstChar opts p seen with
    | (.any, seen) => (.any, seen)
    | (known, seen) => firstCharAlt opts ps known seen
  | .repetition body min _ _, seen =>
    match firstChar opts body seen with
    | (.terminal, seen) => (if min > 0 then .terminal else .continues, seen)
    | found => found
  | .group _ body, seen => firstChar opts body seen
  | .independent body, seen => firstChar opts body seen
  | .modifier add remove body, seen => firstChar (opts.modify add remove) body seen
  | .ifGroup _ yes none, seen | .ifLook _ yes none, seen =>
    match firstChar opts yes seen with
    | (.any, seen) => (.any, seen)
    | (_, seen) => (.continues, seen)
  | .ifGroup _ yes (some no), seen | .ifLook _ yes (some no), seen =>
    match firstChar opts yes seen with
    | (.any, seen) => (.any, seen)
    | (known, seen) =>
      match firstChar opts no seen with
      | (known', seen) => (known.either known', seen)
  termination_by structural p => p

/-- The analysis of patterns in sequence: parts that may be empty let the next
ones have a say. -/
def firstCharSeq (opts : Options) : List Pattern → CharSet → FirstChar × CharSet
  | [], seen => (.continues, seen)
  | p :: ps, seen =>
    match firstChar opts p seen with
    | (.continues, seen) => firstCharSeq opts ps seen
    | found => found
  termination_by structural ps => ps

/-- The analysis of further alternatives, given what is known after the earlier
ones. -/
def firstCharAlt (opts : Options) :
    List Pattern → FirstChar → CharSet → FirstChar × CharSet
  | [], known, seen => (known, seen)
  | p :: ps, known, seen =>
    match firstChar opts p seen with
    | (.any, seen) => (.any, seen)
    | (known', seen) => firstCharAlt opts ps (known.either known') seen
  termination_by structural ps => ps

end

end Pattern

end Regexp
