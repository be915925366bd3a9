/-!
# Spans

A span is the part of a text between two offsets.  Offsets are natural numbers
here, but there is a largest one, `maxOffset`, and it takes the place of a
missing value where an offset is recorded: `slotValue` keeps all others.  Counts
stop at the same number, `saturatingAdd` and `saturatingMul`.

## Main definitions

* `Span` — the offsets from a start up to a stop.
* `maxOffset`, `slotValue` — the largest offset, and the offsets that a slot can
  hold.
* `saturatingAdd`, `saturatingMul` — sums and products of counts.
-/

namespace Regexp

/-- The offsets from `start` up to `stop`. -/
structure Span where
  start : Nat
  stop : Nat
  deriving DecidableEq, Repr, Inhabited

namespace Span

/-- Whether no offset lies in a span. -/
def isEmpty (s : Span) : Bool := s.start ≥ s.stop

/-- The number of offsets in a span. -/
def length (s : Span) : Nat := s.stop - s.start

end Span

/-- The largest value of an offset, a length or a count. -/
def maxOffset : Nat := 0xFFFFFFFFFFFFFFFF

/-- The value of a slot that holds an offset: the largest offset marks a slot
that is not set, so it cannot be held. -/
def slotValue (offset : Nat) : Option Nat := if offset < maxOffset then some offset else none

/-- The sum of two counts, at most the largest count. -/
def saturatingAdd (a b : Nat) : Nat := min (a + b) maxOffset

/-- The product of two counts, at most the largest count. -/
def saturatingMul (a b : Nat) : Nat := min (a * b) maxOffset

end Regexp
