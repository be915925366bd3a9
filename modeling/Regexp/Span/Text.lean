import Regexp.Span

/-!
# Texts of spans

## Main definitions

* `Span.pairText`, `Span.rangeText` — a span in a report.
* `Span.optionText` — a span that may be missing.
* `Span.inputText` — the span that a search is given.
-/

namespace Regexp.Span

/-- A span as a pair of offsets. -/
def pairText (s : Span) : String := "(" ++ toString s.start ++ ", " ++ toString s.stop ++ ")"

/-- A span as a range of offsets. -/
def rangeText (s : Span) : String := toString s.start ++ ".." ++ toString s.stop

/-- A span that may be missing. -/
def optionText : Option Span → String
  | some s => "Some(" ++ s.pairText ++ ")"
  | none => "None"

/-- The span that a search is given. -/
def inputText (s : Span) : String :=
  "Input \x7b span: Span \x7b start: " ++ toString s.start ++ ", end: " ++ toString s.stop ++
    " \x7d \x7d"

end Regexp.Span
