import Regexp.Pattern.ParseError
import Regexp.Scalar

/-!
# Reading from a pattern

A reader takes the rest of the text and leaves a part of it.  What it leaves is
shorter, or at least not longer, and the result says so: this is why loops of
readers end.

There are two kinds of results, `Parser.Consumed` for something that has been
read and `Parser.Scanned` for something that may be empty, and each carries the
proof about the length of the rest as a field.  When one reader goes on where
another one stopped, the lengths have to be put together.  This is done by a few
functions on results (`Parser.Consumed.after`, `Parser.Consumed.behind`,
`Parser.Scanned.following`), so that the readers themselves hold no arithmetic
and read like those of a grammar.

Blanks and comments count only where the options say so.  `Parser.skip` is the
text without those in front, and it is called where a construct may be preceded
by them.

## Main definitions

* `Parser.Failure` — a cause with the rest of the text at which it was noticed.
* `Parser.Consumed`, `Parser.Scanned` — a value with the rest of the text after
  it.
* `Parser.Consumed.behind`, `Parser.Consumed.closedBy` — results seen from
  further back, and with a closing mark.
* `Parser.skip` — the text after blanks and comments.
* `Parser.splitAfter` — the text up to and after a mark.
-/

namespace Regexp.Pattern.Parser

/-- A failure while reading: its cause, and the rest of the text where it was
noticed.  The offset of the failure is what the rest leaves of the text. -/
structure Failure where
  cause : ParseError.Cause
  rest : List Char

/-- A value with the rest of the text after it, where something has been read.
That the rest is shorter is part of the result, and readers that call themselves
on it need no other reason to end. -/
structure Consumed (α : Type) (input : List Char) where
  value : α
  rest : List Char
  lt : rest.length < input.length

/-- A value with the rest of the text after it, where the rest may be all of the
text. -/
structure Scanned (α : Type) (input : List Char) where
  value : α
  rest : List Char
  le : rest.length ≤ input.length

/-- The result of reading something, or a failure. -/
abbrev Reads (α : Type) (input : List Char) : Type := Except Failure (Consumed α input)

/-- The result of reading something that may be empty, or a failure. -/
abbrev Scans (α : Type) (input : List Char) : Type := Except Failure (Scanned α input)

/-- The failure with a cause at a rest of the text.  The offset is found from
the rest at the end. -/
def fail {α : Type} (cause : ParseError.Cause) (rest : List Char) : Except Failure α :=
  .error ⟨cause, rest⟩

namespace Consumed

variable {α β : Type} {c : Char} {input rest : List Char}

/-- The result of reading one character. -/
def one (value : α) : Consumed α (c :: rest) := ⟨value, rest, Nat.lt_succ_self _⟩

/-- The result of reading with another value. -/
def map (f : α → β) (r : Consumed α input) : Consumed β input := ⟨f r.value, r.rest, r.lt⟩

/-- The result of reading that starts further on, as one from the start.  What
lies between has been read before. -/
def after {middle : List Char} (r : Consumed α middle) (h : middle.length ≤ input.length) :
    Consumed α input :=
  ⟨r.value, r.rest, Nat.lt_of_lt_of_le r.lt h⟩

/-- The result of reading that starts after a character, as one that starts at
it. -/
def behind (r : Consumed α rest) : Consumed α (c :: rest) := r.after (Nat.le_succ _)

/-- The result of reading with a mark after it, if the mark is there.  The mark
is read as well. -/
def closedBy (mark : Char) : Consumed α input → Option (Consumed α input)
  | ⟨_, [], _⟩ => none
  | ⟨value, c :: rest, h⟩ =>
    if c = mark then some ⟨value, rest, Nat.lt_of_succ_lt h⟩ else none

/-- The result of reading something, where that may be empty. -/
def toScanned (r : Consumed α input) : Scanned α input := ⟨r.value, r.rest, Nat.le_of_lt r.lt⟩

end Consumed

namespace Scanned

variable {α β : Type} {c : Char} {input rest : List Char}

/-- The result of reading nothing. -/
def none (value : α) : Scanned α input := ⟨value, input, Nat.le_refl _⟩

/-- The result of reading one character. -/
def one (value : α) : Scanned α (c :: rest) := ⟨value, rest, Nat.le_succ _⟩

/-- The result of reading with another value. -/
def map (f : α → β) (r : Scanned α input) : Scanned β input := ⟨f r.value, r.rest, r.le⟩

/-- The result of reading that starts where something was read, as one from the
start. -/
def following {middle : List Char} (r : Scanned α middle) (h : middle.length < input.length) :
    Consumed α input :=
  ⟨r.value, r.rest, Nat.lt_of_le_of_lt r.le h⟩

/-- The result of reading that starts further on, as one from the start. -/
def after {middle : List Char} (r : Scanned α middle) (h : middle.length ≤ input.length) :
    Scanned α input :=
  ⟨r.value, r.rest, Nat.le_trans r.le h⟩

/-- The result of reading that starts after a character, as one that starts at
it. -/
def behind (r : Scanned α rest) : Consumed α (c :: rest) := r.following (Nat.lt_succ_self _)

end Scanned

/-- The rest of a text after blanks and comments; a comment begins with a number
sign and ends with its line.  The flag tells whether the walk is in a comment. -/
def skipFrom (inComment : Bool) : List Char → List Char
  | [] => []
  | c :: cs =>
    if inComment then skipFrom (!Scalar.isLineTerminator c) cs
    else if Scalar.isBlank c then skipFrom false cs
    else if c = '#' then skipFrom true cs
    else c :: cs

theorem length_skipFrom_le (inComment : Bool) (s : List Char) :
    (skipFrom inComment s).length ≤ s.length := by
  induction s generalizing inComment with
  | nil => simp [skipFrom]
  | cons c cs ih =>
    unfold skipFrom
    repeat' split
    · exact Nat.le_succ_of_le (ih _)
    · exact Nat.le_succ_of_le (ih _)
    · exact Nat.le_succ_of_le (ih _)
    · exact Nat.le_refl _

/-- The rest of a text after what does not count where blanks are skipped.
Elsewhere everything counts. -/
def skip (extended : Bool) (s : List Char) : List Char := if extended then skipFrom false s else s

theorem length_skip_le (extended : Bool) (s : List Char) :
    (skip extended s).length ≤ s.length := by
  unfold skip
  split
  · exact length_skipFrom_le _ _
  · exact Nat.le_refl _

/-- The text up to two characters in sequence, and the text after them, if they
occur at all. -/
def splitAfter (a b : Char) : (s : List Char) → Option (Consumed (List Char) s)
  | [] => none
  | [_] => none
  | c :: d :: rest =>
    if c = a && d = b then some (Consumed.one []).behind
    else (splitAfter a b (d :: rest)).map fun r => (r.map (c :: ·)).behind

end Regexp.Pattern.Parser
