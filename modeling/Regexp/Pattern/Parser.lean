import Regexp.Pattern
import Regexp.Pattern.Parser.Class

/-!
# Patterns from text

The text of a pattern is read into a tree.  The options decide the dialect: the
dialect of XML Schema has neither anchors nor references, and all its groups
capture.

## What makes reading end

Within a group every reader leaves less of the text than it was given, or at
least not more, and says so in the type of its result (`Parser.Consumed`,
`Parser.Scanned`).  Groups are where readers call each other in a circle, from
`Parser.group` through `Parser.alternation`, `Parser.branch` and `Parser.atom`
back to it.  Only groups make the text nest, so all other readers take the
reader for groups as an argument (`Parser.GroupReader`), and the recursion of
`Parser.groupWithin` goes down the number of groups that may still be opened
around each other.  The limit on nesting is thus what makes reading end; it is
not there for the proof, since a text that nests deeper is refused.

Because the reader for groups is an argument, what is true of the readers can be
shown one by one: if the groups inside are read rightly, so is this construct.
`Parser.groupWithin` then needs one induction.

## What is known of the groups

`Parser.Ledger` counts the groups opened so far and lists the references in the
order of the text.  References are checked at the end
(`Parser.Ledger.undefined?`), since a group may be referred to before it is
opened.  Every reader that can meet a group takes the ledger and returns it with
its tree, `Parser.Piece`.

## Failures

A failure holds the rest of the text at which it was noticed, from which its
place is computed at the very end (`Pattern.parse`), in bytes.  No reader counts
offsets.

## Main definitions

* `Parser.atom`, `Parser.quantified` — one construct, and its quantifier.
* `Parser.branch`, `Parser.branches`, `Parser.alternation` — sequences and
  alternatives.
* `Parser.group`, `Parser.groupWithin` — groups.
* `Pattern.parse` — the pattern that a text denotes, or the failure to read it.
-/

namespace Regexp.Pattern

namespace Parser

/-- What is known of the groups so far.  It is handed from each construct to the
next, because the number of a group depends on all that was read before it. -/
structure Ledger where
  /-- The number of capturing groups opened. -/
  groups : Nat := 0
  /-- The groups referred to, each with the rest of the text at its reference,
  the last one first. -/
  references : List (Nat × List Char) := []

/-- The ledger with one more reference.  The rest of the text is kept with it,
so that a failure can point to where it stands. -/
def Ledger.refer (l : Ledger) (group : Nat) (rest : List Char) : Ledger :=
  { l with references := (group, rest) :: l.references }

/-- A pattern and what is known of the groups after it.  The ledger is handed on
from one construct to the next. -/
abbrev Piece : Type := Pattern × Ledger

/-- A reader for groups, which starts at an opening parenthesis.  The readers
below take one as an argument, so that only `groupWithin` has to do with the
limit on nesting. -/
abbrev GroupReader : Type := Options → Ledger → (s : List Char) → Reads Piece s

/-! ### Numbers and flags -/

/-- The largest count of a repetition. -/
def maxCount : Nat := 0xFFFFFFFF

/-- A number in decimal digits, or nothing if there are no digits.  A number
that is too large to be a count is a failure. -/
def count? (s : List Char) : Scans (Option Nat) s :=
  let digits := s.takeWhile Char.isDigit
  let n := numberOf 10 digits
  if n > maxCount then fail .countTooLarge s
  else .ok ⟨if digits.isEmpty then none else some n, s.drop digits.length, by
    rw [List.length_drop]
    exact Nat.sub_le _ _⟩

/-- The options that a group may set and clear.  All others hold for the whole
pattern. -/
def groupFlags : List Char := ['i', 'm', 's', 'x', 'u', 'w']

/-- The change of options that letters write, and whether a colon ended them.
Without a colon the change is for what follows the group. -/
structure Flags where
  add : Options := {}
  remove : Options := {}
  colon : Bool := false

/-- Option letters up to a colon or a closing parenthesis; those after a hyphen
are cleared.  A second hyphen is taken for a letter that names no option. -/
def flags (s : List Char) (acc : Flags) (negated : Bool) : Reads Flags s :=
  match s with
  | [] => fail .flagsUnclosed s
  | c :: rest =>
    let continued (r : Reads Flags rest) : Reads Flags (c :: rest) := r.map Consumed.behind
    if c = ':' || c = ')' then .ok (.one { acc with colon := c = ':' })
    else if c = '-' && !negated then continued (flags rest acc true)
    else if groupFlags.contains c then
      let o := (Options.ofLetter? c).getD {}
      continued <| flags rest
        (if negated then { acc with remove := acc.remove.union o }
          else { acc with add := acc.add.union o })
        negated
    else fail (.flagUnknown c) s

/-- The change of options that stands at the start of a group, if there is one:
a group of its own with nothing but option letters in it. -/
def leadingFlags (opts : Options) (s : List Char) :
    Except Failure (Option (Consumed Flags s)) :=
  match s with
  | '(' :: '?' :: c :: rest =>
    if !opts.xmlSchema && (c = '-' || groupFlags.contains c) then
      (flags (c :: rest) {} false).map fun r =>
        if r.value.colon then none
        else some (r.after (by
          simp only [List.length_cons]
          omega))
    else .ok none
  | _ => .ok none

/-! ### Quantifiers -/

/-- The bounds of a repetition in braces.  The text starts after the opening
brace, and `start` is the text from the brace on. -/
def bounds (start s : List Char) : Reads (Nat × Option Nat) s := do
  let ⟨min?, rest, h⟩ ← count? s
  match min? with
  | none => fail .countMalformed rest
  | some min =>
    let close (max : Option Nat) (t : List Char) (ht : t.length ≤ s.length) :
        Reads (Nat × Option Nat) s :=
      match t, ht with
      | '\x7d' :: rest, ht =>
        if max.any (min > ·) then fail .countReversed start
        else .ok ⟨(min, max), rest, ht⟩
      | t, _ => fail .countMalformed t
    match rest, h with
    | ',' :: rest, h => do
      let ⟨max?, rest, h'⟩ ← count? rest
      close max? rest (Nat.le_trans h' (Nat.le_of_succ_le h))
    | rest, h => close (some min) rest h

/-- The bounds of a quantifier, if there is one.  Whether it is greedy is not
read yet. -/
def quantifier? (s : List Char) :
    Except Failure (Option (Consumed (Nat × Option Nat) s)) :=
  match s with
  | '*' :: _ => .ok (some (.one (0, none)))
  | '+' :: _ => .ok (some (.one (1, none)))
  | '?' :: _ => .ok (some (.one (0, some 1)))
  | '\x7b' :: rest => (bounds ('\x7b' :: rest) rest).map fun r => some r.behind
  | _ => .ok none

/-- Whether a text starts with a quantifier.  An opening brace counts as the
start of one, whatever follows. -/
def startsQuantifier : List Char → Bool
  | c :: _ => c = '*' || c = '+' || c = '?' || c = '\x7b'
  | [] => false

/-- An atom with the quantifier after it, if there is one.  What is skipped
before the quantifier is gone in either case, and a second quantifier is a
failure. -/
def quantified (opts : Options) (atom : Pattern) (s : List Char) : Scans Pattern s := do
  match ← quantifier? (skip opts.extended s) with
  | none => .ok ⟨atom, skip opts.extended s, length_skip_le _ _⟩
  | some ⟨(min, max), rest, h⟩ =>
    let hs := length_skip_le opts.extended s
    let close (greedy : Bool) (t : List Char) (ht : t.length ≤ s.length) : Scans Pattern s :=
      let t' := skip opts.extended t
      if startsQuantifier t' then fail .repetitionMissing t'
      else .ok ⟨.repetition atom min max greedy, t', Nat.le_trans (length_skip_le _ _) ht⟩
    match rest, h with
    | '?' :: rest, h =>
      if opts.xmlSchema then fail .notInXmlSchema ('?' :: rest)
      else close false rest (by
        simp only [List.length_cons] at h
        omega)
    | rest, h => close true rest (by omega)

/-! ### Escapes outside of classes -/

/-- A character that is not a mark, followed by marks. -/
def combiningSequence : Pattern :=
  let marks := GeneralCategory.union GeneralCategory.markCategories
  .group none <| .seq
    [.charClass marks.compl false, .repetition (.charClass marks false) 0 none true]

/-- The signs that join the letter after them to a grapheme. -/
def viramas : List Char :=
  ['\u094D', '\u09CD', '\u0A4D', '\u0ACD', '\u0B4D', '\u0BCD', '\u0C4D', '\u0CCD', '\u0D4D',
    '\u0E3A', '\u0F84']

/-- A base character, if there is one, followed by characters that combine with
it. -/
def grapheme : Pattern :=
  let marks := GeneralCategory.union GeneralCategory.markCategories
  let combiners := (marks.addRange '\u1160' '\u11FF').addRange '\uFF9E' '\uFF9F'
  let base := (GeneralCategory.union
    (GeneralCategory.markCategories ++ GeneralCategory.otherCategories)).compl
  let letters := GeneralCategory.union GeneralCategory.letterCategories
  let joined := seq [.charClass (.ofChars viramas) false, .charClass letters false]
  .group none <| .seq
    [.repetition (.charClass base false) 0 (some 1) true,
      .repetition (.alt [joined, .charClass combiners false]) 0 none true]

/-- The anchor that a letter stands for after a backslash.  The two line anchors
are written without one. -/
def escapedAnchor? (c : Char) : Option Anchor :=
  if c = '^' || c = '$' then none else Anchor.ofLetter? c

/-- An escape outside of classes, read from its backslash on: a reference, an
anchor, a class or a character. -/
def escape (opts : Options) (ledger : Ledger) (s : List Char) : Reads Piece s :=
  match s with
  | [] => fail .escapeUnfinished s
  | [_] => fail .escapeUnfinished s
  | backslash :: c :: rest => do
    let one (p : Pattern) (ledger : Ledger) : Reads Piece (backslash :: c :: rest) :=
      .ok (Consumed.one (p, ledger)).behind
    let character : Reads Piece (backslash :: c :: rest) :=
      (charEscape opts (backslash :: c :: rest) (c :: rest)).map fun r =>
        (r.map fun d => (.char d, ledger)).behind
    match ← classEscape opts (c :: rest) with
    | some r => .ok (r.map fun set => (.charClass set false, ledger)).behind
    | none =>
      if opts.xmlSchema then character
      else match escapedAnchor? c with
        | some a => one (.anchor a) ledger
        | none =>
          match Scalar.digit? 10 c with
          | some n => one (.backref n) (ledger.refer n (backslash :: c :: rest))
          | none =>
            if c = 'X' then one combiningSequence ledger
            else if c = 'g' then one grapheme ledger
            else character

/-! ### Sequences and alternatives -/

/-- The class that a dot stands for in the dialect of XML Schema: all characters
but line feed and carriage return. -/
def schemaDot : Pattern := .charClass (.ofChars ['\n', '\r']) true

/-- One construct without its quantifier.  A character that is no construct
stands for itself, and a quantifier with nothing before it is a failure, as are
two closing brackets in the dialect of XML Schema. -/
def atom (group : GroupReader) (opts : Options) (ledger : Ledger) (s : List Char) :
    Reads Piece s :=
  match s with
  | [] => fail .repetitionMissing s
  | c :: rest =>
    let one (p : Pattern) : Reads Piece (c :: rest) := .ok (.one (p, ledger))
    if c = '(' then group opts ledger (c :: rest)
    else if c = '[' then
      (bracketClass opts (c :: rest)).map fun r =>
        r.map fun k => (.charClass k.set k.negated, ledger)
    else if c = '\\' then escape opts ledger (c :: rest)
    else if startsQuantifier (c :: rest) then fail .repetitionMissing s
    else if (c = ']' || c = '\x7d') && opts.xmlSchema then fail .notInXmlSchema s
    else if c = '.' then one (if opts.xmlSchema then schemaDot else .dot)
    else if c = '^' && !opts.xmlSchema then one (.anchor .startLine)
    else if c = '$' && !opts.xmlSchema then one (.anchor .endLine)
    else one (.char c)

/-- Whether a text goes on with another construct of a sequence.  A bar or a
closing parenthesis ends it, and so does the end of the text. -/
def continuesBranch : List Char → Bool
  | [] => false
  | c :: _ => c ≠ '|' && c ≠ ')'

/-- The constructs of a sequence, after those in `items`, the last of them
first.  What is skipped is skipped before each of them. -/
def branchItems (group : GroupReader) (opts : Options) (ledger : Ledger) (s : List Char)
    (items : List Pattern) : Scans Piece s :=
  let t := skip opts.extended s
  let ht : t.length ≤ s.length := length_skip_le _ _
  if continuesBranch t then do
    let ⟨(p, ledger), rest, h⟩ ← atom group opts ledger t
    let ⟨p, rest, h'⟩ ← quantified opts p rest
    let r ← branchItems group opts ledger rest (p :: items)
    .ok ⟨r.value, r.rest, by
      have := r.le
      omega⟩
  else .ok ⟨(.seq items.reverse, ledger), t, ht⟩
  termination_by s.length
  decreasing_by omega

/-- A sequence. -/
def branch (group : GroupReader) (opts : Options) (ledger : Ledger) (s : List Char) :
    Scans Piece s :=
  branchItems group opts ledger s []

/-- The alternatives after those in `alternatives`, the last of them first, each
after a bar. -/
def moreBranches (group : GroupReader) (opts : Options) (ledger : Ledger) (s : List Char)
    (alternatives : List Pattern) : Scans (List Pattern × Ledger) s :=
  match s with
  | '|' :: rest => do
    let ⟨(p, ledger), rest, h⟩ ← branch group opts ledger rest
    let r ← moreBranches group opts ledger rest (p :: alternatives)
    .ok ⟨r.value, r.rest, by
      have := r.le
      simp only [List.length_cons]
      omega⟩
  | _ => .ok (.none (alternatives.reverse, ledger))
  termination_by s.length
  decreasing_by
    simp only [List.length_cons]
    omega

/-- Alternatives with bars between them. -/
def branches (group : GroupReader) (opts : Options) (ledger : Ledger) (s : List Char) :
    Scans (List Pattern × Ledger) s := do
  let ⟨(p, ledger), rest, h⟩ ← branch group opts ledger s
  let r ← moreBranches group opts ledger rest [p]
  .ok (r.after h)

/-- The contents of a group or of the whole pattern, which may start with a
change of options.  Such a change holds up to the end of the contents, and
stands in the tree as a modifier around all of them. -/
def alternation (group : GroupReader) (opts : Options) (ledger : Ledger) (s : List Char) :
    Scans Piece s := do
  match ← leadingFlags opts s with
  | none =>
    let r ← branches group opts ledger s
    .ok (r.map fun (ps, ledger) => (.alt ps, ledger))
  | some ⟨flags, rest, h⟩ =>
    let r ← branches group (opts.modify flags.add flags.remove) ledger rest
    let r := r.map fun (ps, ledger) => (.modifier flags.add flags.remove (.alt ps), ledger)
    .ok (r.following h).toScanned

/-! ### Groups -/

/-- The contents of a group under a construct that has them as its body.  Most
groups are read in this way and differ in the construct only. -/
def wrapped (group : GroupReader) (opts : Options) (ledger : Ledger) (s : List Char)
    (wrap : Pattern → Pattern) : Scans Piece s := do
  let r ← alternation group opts ledger s
  .ok (r.map fun (p, ledger) => (wrap p, ledger))

/-- The text up to a closing parenthesis, which is passed over as a comment.  It
is read as the empty pattern. -/
def comment (ledger : Ledger) (s : List Char) : Scans Piece s :=
  .ok ⟨(.empty, ledger), s.dropWhile (· ≠ ')'), (List.dropWhile_suffix _).sublist.length_le⟩

/-- A group with changed options. The text starts at the option letters. -/
def modifierGroup (group : GroupReader) (opts : Options) (ledger : Ledger) (start s : List Char) :
    Scans Piece s := do
  let ⟨flags, rest, h⟩ ← flags s {} false
  if flags.colon then
    let r ← wrapped group (opts.modify flags.add flags.remove) ledger rest
      (.modifier flags.add flags.remove)
    .ok (r.following h).toScanned
  else fail .flagsMisplaced start

/-- The condition of a conditional: whether a group has taken part, or a
lookaround. -/
inductive Condition where
  | group (n : Nat)
  | look (test : Pattern)

/-- The conditional with given branches. -/
def Condition.choose (c : Condition) (yes : Pattern) (no : Option Pattern) : Pattern :=
  match c with
  | .group n => .ifGroup n yes no
  | .look test => .ifLook test yes no

/-- The condition of a conditional, which is the number of a group or a
lookaround in parentheses.  The text starts at the opening parenthesis. -/
def condition (group : GroupReader) (opts : Options) (ledger : Ledger) (s : List Char) :
    Reads (Condition × Ledger) s :=
  match s with
  | [] => fail .conditionInvalid s
  | paren :: body =>
    let digits := body.takeWhile Char.isDigit
    let n := numberOf 10 digits
    if body.head? = some '?' then do
      let ⟨(p, ledger), rest, h⟩ ← group opts ledger (paren :: body)
      match p with
      | .look _ _ => .ok ⟨(.look p, ledger), rest, h⟩
      | _ => fail .conditionInvalid s
    else if n = 0 || n > maxCount then fail .conditionInvalid s
    else match h : body.drop digits.length with
      | ')' :: rest => .ok ⟨(.group n, ledger.refer n s), rest, by
          have := congrArg List.length h
          simp only [List.length_drop, List.length_cons] at this ⊢
          omega⟩
      | _ => fail .conditionInvalid s

/-- A conditional: a condition and one or two branches.  If there are more, the
failure is at `start`, where the group was opened. -/
def conditional (group : GroupReader) (opts : Options) (ledger : Ledger) (start s : List Char) :
    Scans Piece s := do
  let ⟨(c, ledger), rest, h⟩ ← condition group opts ledger s
  let ⟨(ps, ledger), rest, h'⟩ ← branches group opts ledger rest
  match ps with
  | [yes] => .ok ⟨(c.choose yes none, ledger), rest, by omega⟩
  | [yes, no] => .ok ⟨(c.choose yes (some no), ledger), rest, by omega⟩
  | _ => fail .conditionInvalid start

/-- The contents of a group after `(?`, without its closing parenthesis.  The
text from the opening parenthesis on is `start`. -/
def specialGroup (group : GroupReader) (opts : Options) (ledger : Ledger) (start s : List Char) :
    Scans Piece s :=
  match s with
  | [] => fail .groupUnclosed start
  | c :: rest =>
    let body (wrap : Pattern → Pattern) : Scans Piece (c :: rest) :=
      (wrapped group opts ledger rest wrap).map fun r => r.behind.toScanned
    if c = ':' then body (.group none)
    else if c = '=' then body (.look .ahead)
    else if c = '!' then body (.look .notAhead)
    else if c = '<' then
      match rest with
      | d :: rest' =>
        let lookbehind (kind : LookKind) : Scans Piece (c :: d :: rest') :=
          (wrapped group opts ledger rest' (.look kind)).map fun r => r.after (by
            simp only [List.length_cons]
            omega)
        if d = '=' then lookbehind .behind
        else if d = '!' then lookbehind .notBehind
        else fail (.flagUnknown '<') (d :: rest')
      | [] => fail (.flagUnknown '<') []
    else if c = '>' then body .independent
    else if c = '#' then comment ledger (c :: rest)
    else if c = '[' then
      (classOperation opts (c :: rest)).map fun r =>
        r.map fun set => (.charClass set false, ledger)
    else if c = '(' then conditional group opts ledger start (c :: rest)
    else modifierGroup group opts ledger start (c :: rest)

/-- The contents of a group after its opening parenthesis.  A group that
captures gets its number before its contents are read. -/
def groupBody (group : GroupReader) (opts : Options) (ledger : Ledger) (start s : List Char) :
    Scans Piece s :=
  match s with
  | '?' :: rest =>
    if opts.xmlSchema then fail .notInXmlSchema s
    else (specialGroup group opts ledger start rest).map fun r => r.behind.toScanned
  | s =>
    let index := ledger.groups + 1
    wrapped group opts { ledger with groups := index } s (.group (some index))

/-- A group, read from its opening parenthesis on with a reader for the groups
inside of it. -/
def group (inner : GroupReader) : GroupReader := fun opts ledger s =>
  match s with
  | [] => fail .groupUnclosed s
  | paren :: body => do
    let ⟨piece, rest, h⟩ ← groupBody inner opts ledger (paren :: body) body
    match rest, h with
    | ')' :: rest, h => .ok ⟨piece, rest, Nat.lt_succ_of_le (Nat.le_of_succ_le h)⟩
    | _, _ => fail .groupUnclosed (paren :: body)

/-- A group with at most `budget` groups around each other, counting itself.
The budget makes the recursion structural; it is the limit on nesting and no
device of its own. -/
def groupWithin (limit : Nat) :
    (budget : Nat) → Options → Ledger → (s : List Char) → Reads Piece s
  | 0, _, _, s => fail (.nestedTooDeep limit) s
  | budget + 1, opts, ledger, s => group (groupWithin limit budget) opts ledger s

/-- The first reference, in the order of the text, to a group that is not there.
It can only be told when all groups have been counted. -/
def Ledger.undefined? (l : Ledger) : Option (Nat × List Char) :=
  l.references.reverse.find? fun r => r.1 = 0 || r.1 > l.groups

/-- A whole text, in which each group that is referred to has to be there.  What
is left over can only begin with a closing parenthesis. -/
def whole (opts : Options) (limit : Nat) (s : List Char) : Except Failure Pattern := do
  let r ← alternation (groupWithin limit limit) opts {} s
  if r.rest.isEmpty then
    match r.value.2.undefined? with
    | some (n, rest) => fail (.groupUndefined n) rest
    | none => .ok r.value.1
  else fail .groupUnopened r.rest

end Parser

/-- The number of bytes of a text in UTF-8. -/
def utf8Length (s : List Char) : Nat := s.foldr (fun c n => c.utf8Size + n) 0

/-- The limit on nesting that is in force when none is given. -/
def defaultNestLimit : Nat := 250

/-- The pattern that a text denotes under the given options.  A failure tells
the byte offset in the text. -/
def parse (opts : Options) (text : String) (nestLimit : Nat := defaultNestLimit) :
    Except ParseError Pattern :=
  match Parser.whole opts nestLimit text.toList with
  | .ok p => .ok p
  | .error f => .error ⟨f.cause, utf8Length text.toList - utf8Length f.rest⟩

end Regexp.Pattern
