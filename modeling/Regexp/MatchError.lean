/-!
# Failures of a search

A search fails if the span is not one of the text, or if the machine comes to an
operation that asks for a group without slots.  The second kind says which group
was asked for, and for how many there are slots.

## Main definitions

* `MatchError` — why a search has no answer.
* `MatchError.message` — the text of a failure.
-/

namespace Regexp

/-- Why a search has no answer. -/
inductive MatchError where
  /-- The pattern refers to a group that it does not have. -/
  | invalidGroup (group groupLen : Nat)
  /-- The span to search does not fit the text. -/
  | invalidSpan (start stop : Nat)
  deriving DecidableEq, Repr

/-- The text of a failure. -/
def MatchError.message : MatchError → String
  | .invalidGroup group groupLen =>
    "pattern refers to group " ++ toString group ++ ", but it only has " ++ toString groupLen ++
      " groups"
  | .invalidSpan start stop =>
    "invalid search span " ++ toString start ++ ".." ++ toString stop ++ " for the given target"

end Regexp
