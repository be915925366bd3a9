import Regexp.Suite.Filter
import Regexp.Suite.Test
import Regexp.Text.Quoted

/-!
# Reports of test runs

What was found for each test is held against what the test expects; a report
tells about every failure.

A trial is what happened when a test was run: it has results, or it was skipped,
or something went wrong before there were any (`Trial`).  Each result is judged
on its own (`Trial.judge`), and the first objection to it is the cause of its
failure (`Finding.objection?`).  `Tally` collects the judgements in the order in
which tests were run, and `Tally.report?` writes them down; without a failure
there is nothing to report.

## Main definitions

* `Trial` — what happened when a test was run.
* `Finding.objection?`, `Trial.judge` — what is held against a result.
* `Failure` — a test that failed, and why.
* `Tally` — the counts and the failures of a run.
* `Tally.report?` — the text about the failures, if there are any.
-/

namespace Regexp

/-- What one search of a test has found. -/
inductive Finding where
  /-- Whether there is a match. -/
  | matched (isMatch : Bool)
  /-- The span of the match, if there is one. -/
  | span (found : Option Span)
  /-- The groups of the match, if there is one. -/
  | captures (found : Option GroupSpans)
  deriving DecidableEq

/-- What one search of a test has found, under a name that may be empty.  A test
can be run in several ways, which the names tell apart. -/
structure TestResult where
  name : String := ""
  finding : Finding
  deriving DecidableEq

/-- What happened when a test was run. -/
inductive Trial where
  /-- The pattern was refused. -/
  | compileError (text : String)
  /-- Building the pattern broke down. -/
  | compilePanic (text : String)
  /-- Searching broke down. -/
  | searchPanic (text : String)
  /-- The searches were made. -/
  | results (results : List TestResult)
  deriving DecidableEq

/-- Why a test failed. -/
inductive FailureCause where
  /-- There was a match and none was expected, or the other way round. -/
  | isMatch
  /-- Another span was expected. -/
  | span (found : Option Span)
  /-- Other captures were expected. -/
  | captures (found : Option GroupSpans)
  /-- The pattern should not have built. -/
  | noCompileError
  /-- The pattern should have built. -/
  | compileError (text : String)
  /-- Something broke down. -/
  | panic (during text : String)
  deriving DecidableEq

/-- A test that failed, the name of the search that failed, and why.  A test can
fail more than once. -/
structure Failure where
  test : SuiteTest
  resultName : String
  cause : FailureCause
  deriving DecidableEq

/-- The counts and the failures of a run.  Failures are listed in the order of
the tests. -/
structure Tally where
  passed : Nat
  skipped : Nat
  failures : List Failure

/-! ### Judgement -/

/-- Why what a search has found is not what a test expects, if it is not. -/
def Finding.objection? (t : TestSpec) : Finding → Option FailureCause
  | matched isMatch => if isMatch = t.expectsMatch then none else some .isMatch
  | span found =>
    match t.expectedSpan with
    | some expected => if expected = found then none else some (.span found)
    | none => if found.isSome = t.expectsMatch then none else some .isMatch
  | captures found =>
    match t.expectedCaptures, t.expectedSpan with
    | some expected, _ => if expected = found then none else some (.captures found)
    | none, some expected =>
      let whole := found.bind GroupSpans.whole
      if expected = whole then none else some (.span whole)
    | none, none => if found.isSome = t.expectsMatch then none else some .isMatch

/-- For each result of a trial, or for the trial as a whole, the failure if it
is one.  If the pattern should not have built, its results are one failure
together. -/
def Trial.judge (t : SuiteTest) : Trial → List (Option Failure)
  | compilePanic text => [some ⟨t, "", .panic "compiling" text⟩]
  | compileError text => [if t.compiles then some ⟨t, "", .compileError text⟩ else none]
  | searchPanic text =>
    [some ⟨t, "", if t.compiles then .panic "searching" text else .noCompileError⟩]
  | results rs =>
    if t.compiles then
      rs.map fun r => (r.finding.objection? t.toTestSpec).map fun cause => ⟨t, r.name, cause⟩
    else [some ⟨t, "", .noCompileError⟩]

namespace Tally

/-- The tally of no tests. -/
def empty : Tally := ⟨0, 0, []⟩

/-- The tally with a judgement on one more result. -/
def addVerdict (tally : Tally) : Option Failure → Tally
  | none => { tally with passed := tally.passed + 1 }
  | some failure => { tally with failures := tally.failures ++ [failure] }

/-- The tally with one more test.  A test that is left out is counted as such,
and is not run. -/
def addTest (filter : TestFilter) (run : SuiteTest → Trial) (tally : Tally) (t : SuiteTest) :
    Tally :=
  if filter.skips t.fullName then { tally with skipped := tally.skipped + 1 }
  else ((run t).judge t).foldl addVerdict tally

/-- The tally of tests that a filter lets through. -/
def ofTests (filter : TestFilter) (run : SuiteTest → Trial) (tests : List SuiteTest) : Tally :=
  tests.foldl (addTest filter run) empty

end Tally

/-! ### Texts -/

/-- The text of captures that may be missing. -/
def GroupSpans.optionText : Option GroupSpans → String
  | some groups => "Some(Captures([" ++ ", ".intercalate (groups.map Span.optionText) ++ "]))"
  | none => "None"

/-- The text of what was expected and of what was found. -/
def FailureCause.comparison (what expected found : String) : String :=
  "did not find expected " ++ what ++ "\nexpected: " ++ expected ++ "\n     got: " ++ found

/-- The text of the reason for which a test failed. -/
def FailureCause.message (t : TestSpec) : FailureCause → String
  | isMatch =>
    if t.expectsMatch then "expected match, but none found"
    else "expected no match, but found a match"
  | span found =>
    comparison "match" (Span.optionText t.expectedSpan.join) (Span.optionText found)
  | captures found =>
    comparison "captures" (GroupSpans.optionText t.expectedCaptures.join)
      (GroupSpans.optionText found)
  | noCompileError => "expected regex to NOT compile, but it did"
  | compileError text => "expected regex to compile, failed: " ++ text
  | panic during text => "got unexpected panic while " ++ during ++ ":\n" ++ text

/-- The text about one failure. -/
def Failure.message (f : Failure) : String :=
  let result := if f.resultName.isEmpty then "" else " (" ++ f.resultName ++ ")"
  let range := match f.test.range with
    | some range => "\nrange:       " ++ range.rangeText
    | none => ""
  f.test.fullName ++ result ++ ": " ++ f.cause.message f.test.toTestSpec ++
    "\npattern:     " ++ Quoted.encode f.test.pattern ++
    "\noptions:     " ++ Quoted.encode f.test.options ++
    "\ninput:       \"" ++ String.ofList (Escape.encode f.test.input.toList) ++ "\"" ++ range

namespace Tally

/-- The line above and below the failures. -/
def rule : String := String.ofList (List.replicate 79 '~')

/-- The advice at the end of a report. -/
def advice : String :=
  "Set the REGEX_TEST environment variable to filter tests, \n" ++
    "e.g., REGEX_TEST=foo,-foo2 runs every test whose name contains \n" ++
    "foo but not foo2\n\n"

/-- The text about the failures of a run, if there are any.  It begins with the
counts and ends with the advice. -/
def report? (tally : Tally) : Option String :=
  if tally.failures.isEmpty then none
  else
    let failures := "\n\n".intercalate (tally.failures.map Failure.message)
    some <|
      "found " ++ toString tally.failures.length ++ " failures (" ++ toString tally.passed ++
        " passed, " ++ toString tally.skipped ++ " skipped):\n" ++ rule ++ "\n" ++
        String.ofList (TestFilter.trim failures.toList) ++ "\n" ++ rule ++ "\n\n" ++ advice

end Tally

end Regexp
