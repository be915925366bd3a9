import Regexp.Target
import Regexp.Unicode.Word

/-!
# Anchors

An anchor is a condition on an offset of a text that no character is read for.
It sees only the span that is searched, whose ends are the ends of the text to
it (`Anchor.holds`).

Anchors for lines look for line terminators on either side, and the one for the
end of the text also accepts a last line terminator before it, where a carriage
return and a line feed count as one (`Anchor.atFinalTerminator`).  Anchors for
words compare the types of the characters on both sides.  Characters that are
ignored are passed over on the way back (`Anchor.lastType`), and outside of the
span there are only separators.  Each anchor for words treats an empty span and
the ends of the span in a branch of its own.

## Main definitions

* `Anchor` — the nine anchors.
* `Anchor.letter` — the character that names an anchor in a pattern.
* `Anchor.typeBefore`, `Anchor.typeAfter` — the word types on both sides of an
  offset.
* `Anchor.holds` — whether an anchor holds at an offset.
-/

namespace Regexp

/-- A condition on the text around an offset. -/
inductive Anchor where
  /-- The start of the text, or of a line of it that is not empty at its end. -/
  | startLine
  /-- The end of the text or of its last line, or of any line. -/
  | endLine
  /-- The start of the text. -/
  | startText
  /-- The end of the text or of its last line. -/
  | endTextOrLine
  /-- The end of the text. -/
  | endText
  /-- A place between characters of different word types. -/
  | wordBoundary
  /-- A place that is no word boundary. -/
  | notWordBoundary
  /-- The start of a word. -/
  | wordStart
  /-- The end of a word. -/
  | wordEnd
  deriving DecidableEq, Repr

namespace Anchor

/-- The character that names an anchor in a pattern. -/
def letter : Anchor → Char
  | startLine => '^'
  | endLine => '$'
  | startText => 'A'
  | endTextOrLine => 'Z'
  | endText => 'z'
  | wordBoundary => 'b'
  | notWordBoundary => 'B'
  | wordStart => '<'
  | wordEnd => '>'

/-- Every anchor. -/
def all : List Anchor :=
  [startLine, endLine, startText, endTextOrLine, endText, wordBoundary, notWordBoundary,
    wordStart, wordEnd]

/-- The anchor that a character names, if it names one. -/
def ofLetter? (c : Char) : Option Anchor := all.find? (·.letter = c)

/-- Whether a line terminator ends at an offset, and does not begin before
`start`. -/
def afterTerminator (t : Target) (start offset : Nat) : Bool :=
  match t.charBefore offset start with
  | some (c, _) => Scalar.isLineTerminator c
  | none => false

/-- Whether a line terminator starts at an offset, and does not end behind
`limit`. -/
def beforeTerminator (t : Target) (limit offset : Nat) : Bool :=
  match t.charAfter offset limit with
  | some (c, _) => Scalar.isLineTerminator c
  | none => false

/-- Whether an offset is the limit, or only a line terminator or a carriage
return and a line feed lie between the two. -/
def atFinalTerminator (t : Target) (limit offset : Nat) : Bool :=
  offset = limit ||
    match t.charAfter offset limit with
    | some (c, next) =>
      if next = limit then Scalar.isLineTerminator c
      else c = '\r' && t.charAfter next limit = some ('\n', limit)
    | none => false

/-- The word type of the character that starts at an offset; outside of the span
there are only separators. -/
def typeAfter (opts : Options) (t : Target) (s : Span) (offset : Nat) : WordType :=
  if offset < s.start then .other
  else match t.charAfter offset s.stop with
    | some (c, _) => .of opts c
    | none => .other

/-- The word type of the last character before an offset that is not ignored.
The walk goes backward over what is ignored, and ends at the start of the span. -/
def lastType (opts : Options) (t : Target) (start offset : Nat) : WordType :=
  match _h : t.charBefore offset start with
  | some (c, prev) =>
    match WordType.of opts c with
    | .ignored => lastType opts t start prev
    | type => type
  | none => .other
  termination_by offset
  decreasing_by exact (Target.charBefore_bounds _h).2

/-- The word type before an offset of the span.  Offsets behind the span are
taken as its end. -/
def typeBefore (opts : Options) (t : Target) (s : Span) (offset : Nat) : WordType :=
  lastType opts t s.start (min offset s.stop)

/-- Whether an anchor holds at an offset of a text when a span of it is
searched.  The ends of the span count as ends of the text, and what lies beyond
them is not looked at. -/
def holds (a : Anchor) (t : Target) (s : Span) (offset : Nat) (opts : Options) : Bool :=
  match a with
  | startLine =>
    offset = s.start ||
      (opts.multiLine && offset > s.start && offset < s.stop && afterTerminator t s.start offset)
  | endLine =>
    if opts.multiLine then offset = s.stop || beforeTerminator t s.stop offset
    else atFinalTerminator t s.stop offset
  | startText => offset = s.start
  | endTextOrLine => atFinalTerminator t s.stop offset
  | endText => offset = s.stop
  | wordBoundary =>
    s.start ≠ s.stop && typeAfter opts t s offset ≠ .ignored &&
      typeAfter opts t s offset ≠ typeBefore opts t s offset
  | notWordBoundary =>
    s.start = s.stop || typeAfter opts t s offset = .ignored ||
      typeAfter opts t s offset = typeBefore opts t s offset
  | wordStart =>
    s.start ≠ s.stop && offset ≠ s.stop && typeAfter opts t s offset = .letter &&
      typeBefore opts t s offset = .other
  | wordEnd =>
    s.start ≠ s.stop && offset ≠ s.start && typeAfter opts t s offset = .other &&
      typeBefore opts t s offset = .letter

end Anchor

end Regexp
