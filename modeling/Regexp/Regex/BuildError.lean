import Regexp.Options
import Regexp.Pattern.ParseError

/-!
# Failures to build a regular expression

A regular expression is not built if its text is no pattern of the dialect, or
if a letter names no option.  The cause is kept as it is, and the text of the
failure is made from that of the cause.

## Main definitions

* `BuildError` — why a regular expression cannot be built.
* `BuildError.detail`, `BuildError.message` — the texts of the cause and of the
  failure.
-/

namespace Regexp

/-- Why a regular expression cannot be built. -/
inductive BuildError where
  /-- The pattern cannot be read. -/
  | pattern (e : ParseError)
  /-- An option letter names no option. -/
  | options (e : UnknownOption)

namespace BuildError

/-- The text of the cause. -/
def detail : BuildError → String
  | pattern e => e.message
  | options e => e.message

/-- The text of the failure. -/
def message : BuildError → String
  | pattern _ => "error parsing pattern"
  | options e => "invalid options: " ++ e.message

end BuildError

end Regexp
