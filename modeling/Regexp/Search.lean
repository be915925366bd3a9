import Regexp.Machine
import Regexp.Search.Strategy

/-!
# Searches

A search looks for the leftmost offset of a span at which a match attempt
succeeds.  Attempts are expensive, and a `Strategy` knows some things about all
matches of a pattern; so a search makes attempts only where a match can begin,
and none at all if there is no match for another reason.

## The order of the shortcuts

`Search.run` asks in this order.

* A span that is shorter than the shortest match has no match.
* Under XML Schema rules a match takes the whole span, so there is one attempt,
  at its start, and whether it ends where the span ends is decided by the
  machine.
* If the whole pattern is a literal, its leftmost occurrence is the match, and
  no attempt is made.
* If each match contains a literal that does not occur in the span, there is no
  match.
* Otherwise attempts are made (`Search.byAttempts`).

## Attempts

A pattern that begins with a greedy repetition of any character matches at the
start of a line if it matches anywhere on it.  So it is tried at the starts of
lines only (`Search.lineStart`), or just at the start of the span if the
repetition does not stop at the ends of lines.  Other patterns are tried where
the next character is one that a match can begin with (`Search.canBegin`).  Both
are filters on the characters on either side of an offset, and `Search.scan` is
one loop for both: it hands the cache and the slots of one attempt on to the
next one, and ends with the first answer that is not the absence of a match.
The last offset that is tried leaves room for the shortest match.

Slots are only those of the last attempt, and after an attempt that fails they
are whatever it left.  That this can never be seen is not said here but shown in
`Regexp.Proofs.Reuse`.

## Main definitions

* `Search` — a strategy with the text, the span and the options of a search.
* `Search.attempt`, `Search.scan` — one attempt, and the attempts at the offsets
  that pass a filter.
* `Search.run` — the search.
-/

namespace Regexp

/-- A strategy with the text, the span and the options of a search. -/
structure Search where
  strategy : Strategy
  target : Target
  span : Span
  opts : Options

/-- What a search leaves behind.  The slots are those of the attempt that has
found the match, if there is one. -/
structure SearchResult where
  /-- The span of the match, if there is one. -/
  answer : Except MatchError (Option Span)
  slots : Option Slots
  cache : Cache

namespace Search

variable (s : Search)

/-- Whether a span lies within a text and does not cut a character.  This is the
only condition on which a search is refused before it begins. -/
def isValidSpan (t : Target) (span : Span) : Bool :=
  span.start ≤ span.stop && t.span.start ≤ span.start && span.stop ≤ t.span.stop &&
    t.isBoundary span.start && t.isBoundary span.stop

/-- A match attempt at an offset.  Its answer is the span of the match, which
begins there. -/
def attempt (cache : Cache) (slots : Option Slots) (offset : Nat) : SearchResult :=
  let a : Attempt := ⟨s.strategy.program, s.target, s.span, s.opts.xmlSchema⟩
  let r := a.run cache s.opts slots offset
  { answer := r.answer.map fun stop => stop.map fun stop => ⟨offset, stop⟩
    slots := r.slots
    cache := r.cache }

/-- The attempts from an offset to the last offset at which a match has room, at
those offsets where the character before, if any, and the character behind, if
any, pass a filter.  An error ends the scan like a match. -/
def scan (last : Nat) (filter : (before behind : Option Char) → Bool) (before : Option Char)
    (cache : Cache) (slots : Option Slots) (offset : Nat) : SearchResult :=
  let behind := (s.target.charAfter offset s.span.stop).map (·.1)
  let r := if filter before behind then s.attempt cache slots offset else ⟨.ok none, slots, cache⟩
  match r.answer with
  | .ok none =>
    match _h : s.target.charAfter offset s.span.stop with
    | some (c, next) =>
      if next ≤ last then scan last filter (some c) r.cache r.slots next else r
    | none => r
  | _ => r
  termination_by s.span.stop - offset
  decreasing_by
    have := Target.charAfter_bounds _h
    omega

/-- Whether a line starts behind a character, or at the start of the span.  What
stands behind the offset does not matter. -/
def lineStart (before _behind : Option Char) : Bool :=
  match before with
  | some c => Scalar.isLineTerminator c
  | none => true

/-- Whether a match can begin with a character; without known first characters
it always can. -/
def canBegin (firstChars : Option CharSet) (_before behind : Option Char) : Bool :=
  match firstChars, behind with
  | some set, some c => set.contains c
  | some _, none => false
  | none, _ => true

/-- The search by attempts, once there is room for a match.  A repetition that
also reads the ends of lines needs a single attempt. -/
def byAttempts (cache : Cache) (slots : Option Slots) : SearchResult :=
  let last := s.span.stop - s.strategy.minLen
  if s.strategy.dotStar then
    if s.opts.singleLine then s.attempt cache slots s.span.start
    else s.scan last lineStart none cache slots s.span.start
  else s.scan last (canBegin s.strategy.firstChars) none cache slots s.span.start

/-- The search for the leftmost match in a valid span, with all that the
strategy knows. -/
def run (cache : Cache) (slots : Option Slots) : SearchResult :=
  if s.span.length < s.strategy.minLen then ⟨.ok none, slots, cache⟩
  else if s.opts.xmlSchema then s.attempt cache slots s.span.start
  else
    match s.strategy.whole, s.strategy.required with
    | some literal, _ => ⟨.ok (literal.find? s.target s.span), slots, cache⟩
    | none, some literal =>
      if (literal.find? s.target s.span).isNone then ⟨.ok none, slots, cache⟩
      else s.byAttempts cache slots
    | none, none => s.byAttempts cache slots

end Search

end Regexp
