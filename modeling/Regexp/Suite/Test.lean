import Regexp.Span.Text
import Regexp.Text.Escape

/-!
# Tests of a suite

A test names a pattern, an input and what a search of the input should find.
Offsets count characters of the input.

What a test expects can be written in several ways, by whether there is a match,
by its span or by the spans of its groups, and these may contradict each other
or the input.  `TestSpec.flaw?` is the first reason for which the parts of a
test do not fit together; without one, each of `TestSpec.expectsMatch`,
`TestSpec.expectedSpan` and `TestSpec.expectedCaptures` has an answer or leaves
open what the test does not ask for.

## Main definitions

* `TestSpec` — a test as it is written.
* `SuiteTest` — a test with its full name.
* `TestSpec.flaw?` — the first reason for which the parts of a test do not fit
  together.
* `TestSpec.expectsMatch`, `TestSpec.expectedSpan`, `TestSpec.expectedCaptures`
  — what a test expects.
-/

namespace Regexp

/-- The spans of the groups of a match, the whole match first. -/
abbrev GroupSpans := List (Option Span)

/-- The span of the whole match. -/
def GroupSpans.whole (groups : GroupSpans) : Option Span := groups.head?.join

/-- A test as it is written.  What is expected may be given in part. -/
structure TestSpec where
  /-- The name, which may be empty. -/
  name : String := ""
  pattern : String
  input : String
  /-- The option letters for the pattern. -/
  options : String := ""
  /-- The part of the input to search, if it is not all of it. -/
  range : Option Span := none
  isMatch : Option Bool := none
  span : Option Span := none
  captures : Option GroupSpans := none
  /-- Whether the pattern should build. -/
  compiles : Bool := true
  /-- Whether the input is written with escapes. -/
  unescape : Bool := false
  deriving DecidableEq

/-- A test with its full name, whose input is free of escapes.  The full name
has the name of the file's group in it. -/
structure SuiteTest extends TestSpec where
  fullName : String
  deriving DecidableEq

/-- Why the parts of a test do not fit together.  Only the first reason is told. -/
inductive TestError where
  /-- Spans are given though no match is expected. -/
  | spansWithoutMatch
  /-- Nothing is expected. -/
  | nothingExpected
  /-- The first group of the captures, the whole match, is not set. -/
  | wholeUnset
  /-- The span is not that of the first group of the captures. -/
  | spansDiffer
  /-- The part to search is not one of the input. -/
  | rangeInvalid (range : Span)
  /-- A span is not one of the input. -/
  | spanInvalid (span : Span)
  deriving DecidableEq

/-- The text of the reason. -/
def TestError.message : TestError → String
  | spansWithoutMatch => "a test that does not match cannot have spans"
  | nothingExpected => "one of 'match', 'span' or 'captures' must be set"
  | wholeUnset => "the first group of 'captures' must be set"
  | spansDiffer => "'span' and the first group of 'captures' differ"
  | rangeInvalid range => "range " ++ range.rangeText ++ " is invalid for the input"
  | spanInvalid span => "span " ++ span.pairText ++ " is invalid for the input"

namespace TestSpec

/-- A test with the full name that a group gives it, where `number` stands for a
missing name. -/
def inGroup (t : TestSpec) (group : String) (number : Nat) : SuiteTest :=
  let name := if t.name.isEmpty then toString number else t.name
  { t with
    name := name
    input := if t.unescape then String.ofList (Escape.decode t.input.toList) else t.input
    fullName := group ++ "/" ++ name }

/-- Whether spans are given. -/
def hasSpans (t : TestSpec) : Bool := t.span.isSome || t.captures.isSome

/-- All spans that are given. -/
def spans (t : TestSpec) : List Span := t.span.toList ++ (t.captures.getD []).filterMap id

/-- Whether a span is one of the input.  Its ends are in order and do not lie
behind the input. -/
def fits (t : TestSpec) (s : Span) : Bool := s.start ≤ s.stop && s.stop ≤ t.input.length

/-- The first reason for which the parts of a test do not fit together. -/
def flaw? (t : TestSpec) : Option TestError :=
  if t.isMatch = some false && t.hasSpans then some .spansWithoutMatch
  else if t.compiles && t.isMatch.isNone && !t.hasSpans then some .nothingExpected
  else if t.captures.any (·.whole.isNone) then some .wholeUnset
  else if t.span.isSome && t.captures.any (·.whole != t.span) then some .spansDiffer
  else
    match t.range.filter (!t.fits ·), t.spans.find? (!t.fits ·) with
    | some range, _ => some (.rangeInvalid range)
    | none, some span => some (.spanInvalid span)
    | none, none => none

/-- Whether a match is expected, which goes without saying if spans are given. -/
def expectsMatch (t : TestSpec) : Bool := t.isMatch.getD t.hasSpans

/-- The span that is expected, if one is given; no span at all if no match is
expected. -/
def expectedSpan (t : TestSpec) : Option (Option Span) :=
  if !t.expectsMatch then some none
  else
    match t.span, t.captures with
    | some span, _ => some (some span)
    | none, some groups => some groups.whole
    | none, none => none

/-- The captures that are expected, if they are given; none at all if no match
is expected. -/
def expectedCaptures (t : TestSpec) : Option (Option GroupSpans) :=
  if !t.expectsMatch then some none else t.captures.map some

end TestSpec

end Regexp
