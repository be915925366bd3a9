import Regexp.Scalar

/-!
# Test filters

A filter is a list of texts with commas between them.  A test runs if its full
name contains one of them; a text with a minus sign before it excludes the tests
that contain it.  The last text that a full name contains decides
(`TestFilter.skips`), so that later texts make exceptions to earlier ones.

Blanks around a text do not count, and neither do empty texts
(`TestFilter.term?`).  A test whose name contains none of the texts is left out
if there is a text that asks for tests, and runs if all texts exclude some.

## Main definitions

* `TestFilter` — a filter.
* `TestFilter.parse` — reading a filter.
* `TestFilter.skips` — whether a test is left out.
-/

namespace Regexp

/-- A text of a filter. -/
structure FilterTerm where
  /-- Whether tests that contain the text are left out. -/
  excludes : Bool
  text : List Char
  deriving DecidableEq

/-- A filter. -/
abbrev TestFilter := List FilterTerm

namespace TestFilter

/-- The parts of a text between commas. -/
def splitAtCommas : List Char → List (List Char)
  | [] => [[]]
  | ',' :: cs => [] :: splitAtCommas cs
  | c :: cs =>
    match splitAtCommas cs with
    | [] => [[c]]
    | part :: parts => (c :: part) :: parts

/-- A text without the blanks at its ends. -/
def trim (s : List Char) : List Char :=
  ((s.dropWhile Scalar.isBlank).reverse.dropWhile Scalar.isBlank).reverse

/-- The text of a filter that a part stands for, unless it is empty. -/
def term? (part : List Char) : Option FilterTerm :=
  match trim part with
  | [] => none
  | '-' :: text => some ⟨true, text⟩
  | text => some ⟨false, text⟩

/-- The filter that a text stands for. -/
def parse (s : String) : TestFilter := (splitAtCommas s.toList).filterMap term?

/-- Whether a text occurs in another one. -/
def occursIn (text : List Char) : List Char → Bool
  | [] => text.isEmpty
  | c :: cs => text.isPrefixOf (c :: cs) || occursIn text cs

/-- Whether a test is left out.  The last text of the filter that occurs in the
full name decides; if none does, the test is left out just if the filter names
tests to be run. -/
def skips (filter : TestFilter) (fullName : String) : Bool :=
  match filter.reverse.find? (occursIn ·.text fullName.toList) with
  | some term => term.excludes
  | none => filter.any (!·.excludes)

end TestFilter

end Regexp
