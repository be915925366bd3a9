import Regexp.Captures
import Regexp.Pattern.Parser
import Regexp.Pattern.Printer
import Regexp.Pool
import Regexp.Regex.BuildError
import Regexp.Search

/-!
# Regular expressions

A regular expression is a pattern with its text and its options.  Building one
reads the text, or takes a tree as it is (`Regex.ofText`, `Regex.ofPattern`); it
is not compiled until it is needed.  The first search makes the strategy for it,
which is kept (`Regex.prepare`).  What is kept is never looked at to decide
anything, it only saves work: `Regex.strategy` is the same before and after.

## Searches

A search changes three things, and all of them are part of its result,
`RegexSearch`: the regular expression, which then has its strategy; the cache,
which holds what the last attempt left; and the captures, if the caller asked
for any.  The span is checked first, and a search with a span that is not one of
the text leaves everything as it was.

`Regex.searchWith` gives slots to the search if there are captures to fill, and
also if the pattern depends on what its groups captured and could not be matched
without.  The captures that are handed in are never read: the slots are made
anew with the number of groups of this pattern.  When there is no match they are
cleared, and when there is one, group zero is set to its span, which no slot of
the machine records.

`Regex.search` takes a cache from the pool of the regular expression and puts it
back.  A search that fails loses its cache.

## Main definitions

* `Regex` — a regular expression.
* `Regex.ofText`, `Regex.ofLetters`, `Regex.ofPattern` — building one.
* `Regex.searchWith` — a search with a cache of the caller's.
* `Regex.search` — a search with a cache from the expression's own pool.
-/

namespace Regexp

/-- A regular expression.  The strategy is a function of the pattern and the
options, and the pool holds nothing that decides about an answer; so the first
three fields are what the expression is. -/
structure Regex where
  /-- The text of the pattern. -/
  text : String
  pattern : Pattern
  opts : Options
  /-- The strategy, once a search has made it. -/
  strategy? : Option Strategy
  /-- The caches for searches that bring none of their own. -/
  pool : Pool Cache

/-- What a search leaves behind: its answer, and everything that it was given
and may have changed. -/
structure RegexSearch where
  /-- Whether there is a match. -/
  answer : Except MatchError Bool
  regex : Regex
  cache : Cache
  caps : Option Captures

namespace Regex

/-- A regular expression of which nothing is known yet.  Its strategy is made by
the first search. -/
def ofParts (text : String) (pattern : Pattern) (opts : Options) : Regex :=
  ⟨text, pattern, opts, none, .ofCreate fun _ => .empty⟩

/-- The regular expression of a tree, which is not checked.  Its text is the
printed tree. -/
def ofPattern (pattern : Pattern) (opts : Options) : Regex :=
  ofParts (pattern.print opts) pattern opts

/-- The regular expression of a text, unless the text cannot be read. -/
def ofText (text : String) (opts : Options) (nestLimit : Nat := Pattern.defaultNestLimit) :
    Except BuildError Regex :=
  match Pattern.parse opts text nestLimit with
  | .ok pattern => .ok (ofParts text pattern opts)
  | .error e => .error (.pattern e)

/-- The regular expression of a text under the options that letters name. -/
def ofLetters (text letters : String) : Except BuildError Regex :=
  match Options.parse letters with
  | .ok opts => ofText text opts
  | .error e => .error (.options e)

/-- The number of groups, the whole match included.  It depends on the pattern
alone. -/
def groupLen (r : Regex) : Nat := r.pattern.groupLen

/-- Captures for a search, with room for all groups and none of them set. -/
def captures (r : Regex) : Captures := .ofGroupLen r.groupLen

/-- The text of the tree, which need not be the text it was read from. -/
def display (r : Regex) : String := r.pattern.print r.opts

/-- What tells regular expressions apart: the text and the options, and nothing
that was made from them. -/
def key (r : Regex) : String × Options := (r.text, r.opts)

/-- Another regular expression of the same pattern, with what is known of it.
It has a pool of its own, which is empty. -/
def clone (r : Regex) : Regex := { r with pool := .ofCreate fun _ => .empty }

/-- The strategy, which is made if it has not been made yet. -/
def strategy (r : Regex) : Strategy := r.strategy?.getD (.ofPattern r.pattern r.opts)

/-- The regular expression with its strategy made.  A strategy that was made
before is kept. -/
def prepare (r : Regex) : Regex := { r with strategy? := some r.strategy }

/-- Whether the strategy has been made, and its program has any operations. -/
def isPrepared (r : Regex) : Bool :=
  match r.strategy? with
  | some s => !s.program.ops.isEmpty
  | none => false

/-- A search with a cache, and with captures for the groups of the match if
there are any.  A pattern that depends on what its groups captured gets slots of
its own if there are none.  The captures that are brought along only tell that
captures are wanted. -/
def searchWith (r : Regex) (cache : Cache) (t : Target) (span : Span) (caps : Option Captures) :
    RegexSearch :=
  if Search.isValidSpan t span then
    let r := r.prepare
    let s : Search := ⟨r.strategy, t, span, r.opts⟩
    match caps with
    | some _ =>
      let result := s.run cache (some (Captures.ofGroupLen r.groupLen).slots)
      let caps : Captures := ⟨result.slots.getD #[]⟩
      match result.answer with
      | .error e => ⟨.error e, r, result.cache, some caps⟩
      | .ok none => ⟨.ok false, r, result.cache, some caps.clear⟩
      | .ok (some span) => ⟨.ok true, r, result.cache, some (caps.setGroup 0 span)⟩
    | none =>
      let slots :=
        if r.pattern.hasReferences then some (Captures.ofGroupLen r.groupLen).slots else none
      let result := s.run cache slots
      ⟨result.answer.map Option.isSome, r, result.cache, none⟩
  else ⟨.error (.invalidSpan span.start span.stop), r, cache, caps⟩

/-- A search with a cache from the pool.  A search that fails loses its cache,
so that the next one may have to make another. -/
def search (r : Regex) (t : Target) (span : Span) (caps : Option Captures) :
    Except MatchError Bool × Regex × Option Captures :=
  let (cache, pool) := r.pool.take
  let result := { r with pool := pool }.searchWith cache t span caps
  let r := match result.answer with
    | .ok _ => { result.regex with pool := result.regex.pool.put result.cache }
    | .error _ => result.regex
  (result.answer, r, result.caps)

end Regex

end Regexp
