import Regexp.Suite.Test

/-!
# Collections of tests

Tests come in files, and a collection is what several files add up to.  The full
name of a test tells it apart from all others, and a file with a name that was
seen before is refused (`Collection.load`), like one with a test whose parts do
not fit together.

A file is taken as a whole or not at all, but the names of its tests are seen
one by one, up to the test that makes the file be refused
(`Collection.register`).  They stay seen.  How the text of a file is decoded is
not said here: `SuiteFile` is a file as it is decoded, or the reason for which
its text is not that of a file of tests.

## Main definitions

* `Collection` — the tests loaded so far, and the full names seen so far.
* `Collection.load` — the collection with the tests of one more file.
* `LoadError` — why a file is refused.
* `SuiteFile`, `Collection.loadFile` — a file that may not be one of tests, and
  loading it.
-/

namespace Regexp

/-- The tests loaded so far, and the full names seen so far.  The names of tests
of a file that was refused may be among those that were seen. -/
structure Collection where
  tests : List SuiteTest
  seen : List String

/-- Why a file is refused. -/
inductive LoadError where
  /-- The parts of a test do not fit together. -/
  | invalid (fullName : String) (flaw : TestError)
  /-- A test has the full name of an earlier one. -/
  | duplicate (fullName : String)
  deriving DecidableEq

/-- The text of the reason. -/
def LoadError.message : LoadError → String
  | invalid fullName flaw => "error loading test '" ++ fullName ++ "': " ++ flaw.message
  | duplicate fullName => "found duplicate tests for name '" ++ fullName ++ "'"

/-- A file as it is decoded: the group that its tests are loaded for, and the
tests, or the reason for which its text is not that of a file of tests. -/
structure SuiteFile (ε : Type) where
  group : String
  specs : Except ε (List TestSpec)

/-- Why a file is not loaded.  Decoding is left to others, and so is the reason
if it fails. -/
inductive LoadFailure (ε : Type) where
  /-- Its text cannot be decoded. -/
  | undecodable (reason : ε)
  /-- It is refused because of one of its tests. -/
  | refused (reason : LoadError)
  deriving DecidableEq

namespace Collection

/-- The collection without tests. -/
def empty : Collection := ⟨[], []⟩

/-- The tests of a group with their full names; those without a name are
numbered from `number`. -/
def named (group : String) (number : Nat) : List TestSpec → List SuiteTest
  | [] => []
  | t :: ts =>
    t.inGroup group number :: named group (if t.name.isEmpty then number + 1 else number) ts

/-- The full names seen after tests, and the reason for refusing one of them.
The names of the tests in front of that one stay among those that were seen. -/
def register (seen : List String) : List SuiteTest → List String × Option LoadError
  | [] => (seen, none)
  | t :: ts =>
    match t.flaw? with
    | some flaw => (seen, some (.invalid t.fullName flaw))
    | none =>
      if seen.contains t.fullName then (seen, some (.duplicate t.fullName))
      else register (t.fullName :: seen) ts

/-- The collection with the tests of one more file, and the reason if the file
is refused.  A file is loaded as a whole or not at all. -/
def load (c : Collection) (group : String) (specs : List TestSpec) :
    Collection × Option LoadError :=
  let tests := named group 1 specs
  match register c.seen tests with
  | (seen, none) => (⟨c.tests ++ tests, seen⟩, none)
  | (seen, some e) => (⟨c.tests, seen⟩, some e)

/-- The collection with the tests of a file, and the reason if it is not loaded.
Nothing changes if it cannot be decoded. -/
def loadFile {ε : Type} (c : Collection) (f : SuiteFile ε) : Collection × Option (LoadFailure ε) :=
  match f.specs with
  | .error reason => (c, some (.undecodable reason))
  | .ok specs =>
    let (c, e) := c.load f.group specs
    (c, e.map .refused)

end Collection

end Regexp
