import Regexp.Regex
import Regexp.Suite.Collection
import Regexp.Suite.Report

/-!
# Running a suite

A test is run by building its pattern under its options and searching its input
once, with captures.  The input is searched as a buffer, because a test counts
characters.  What the search has found is reported under three names, as the
answer, as the captures and as the span of the match, so that the report can
hold each of them against what the test expects.  A pattern that cannot be built
and a search that fails end the trial before there are results.

## Main definitions

* `SuiteTest.run` — the trial of a test: its pattern is built and its input
  searched.
-/

namespace Regexp.SuiteTest

/-- The three results of a search. -/
def resultsOf (isMatch : Bool) (caps : Captures) : List TestResult :=
  [⟨"matches", .matched isMatch⟩,
    ⟨"captures", .captures (if isMatch then some caps.groups else none)⟩,
    ⟨"span", .span (caps.group? 0)⟩]

/-- The trial of a test. -/
def run (t : SuiteTest) : Trial :=
  match Regex.ofLetters t.pattern t.options with
  | .error e => .compileError e.message
  | .ok r =>
    let target := Target.bufferOfString t.input
    match r.search target (t.range.getD target.span) (some r.captures) with
    | (.error e, _, _) => .searchPanic e.message
    | (.ok isMatch, _, caps) => .results (resultsOf isMatch (caps.getD .empty))

end Regexp.SuiteTest
