import Regexp.Pattern.FirstChar
import Regexp.Pattern.Measure
import Regexp.Program.Compile
import Regexp.Search.Literal

/-!
# Search strategies

What a search is told about a pattern beforehand: its program, and what each
match is known to have.  All of it is computed from the pattern and its options
alone, once, and used for every text.

Each part is optional, and without it a search makes more attempts and finds the
same.  The options that turn shortcuts off do so here, by leaving out the
literal or the first characters, so that `Search.run` need not know of them;
under XML Schema rules neither is of use, because there is only one attempt.  A
literal of a single character is not worth a search of its own, and one that is
the whole program makes the search for a required literal superfluous.

## Main definitions

* `Strategy` — a program with what is known about its matches.
* `Strategy.firstCharsOf`, `Strategy.requiredOf` — the characters that a match
  can begin with, and a literal that each match contains.
* `Strategy.ofPattern` — the strategy for a pattern under its options.
-/

namespace Regexp

/-- A program with what is known about its matches. -/
structure Strategy where
  program : Program
  /-- The least number of characters of a match. -/
  minLen : Nat
  /-- The characters that a match can begin with, if they are used. -/
  firstChars : Option CharSet
  /-- A literal that each match contains, if one is looked for. -/
  required : Option Literal
  /-- The literal that is the whole pattern, if it is one and is looked for. -/
  whole : Option Literal
  /-- Whether the program begins with a greedy repetition of any character. -/
  dotStar : Bool

namespace Strategy

/-- The characters that a match can begin with, if each match begins with one of
them. -/
def firstCharsOf (p : Pattern) (opts : Options) : Option CharSet :=
  if opts.noFirstChars || opts.xmlSchema then none
  else
    match p.firstChar opts .empty with
    | (.terminal, set) => some set
    | _ => none

/-- A literal of two characters or more that each match contains.  It is looked
for under the options in effect where it stands. -/
def requiredOf (p : Pattern) (opts : Options) : Option Literal :=
  match p.fixedString opts with
  | some (chars, here) =>
    if chars.length ≥ 2 then some (.ofChars chars here.caseInsensitive) else none
  | none => none

/-- The strategy for a pattern under its options. -/
def ofPattern (p : Pattern) (opts : Options) : Strategy :=
  let program := Program.ofPattern p
  let scans := !opts.noLiteralScan && !opts.xmlSchema
  { program := program
    minLen := p.minLen
    firstChars := firstCharsOf p opts
    required := if scans && program.fixedLiteral.isNone then requiredOf p opts else none
    whole :=
      if scans then program.fixedLiteral.map (.ofChars · opts.caseInsensitive) else none
    dotStar := program.startsWithDotStar }

end Strategy

end Regexp
