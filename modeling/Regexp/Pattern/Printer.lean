import Regexp.Pattern
import Regexp.Text.Numeral

/-!
# Patterns as text

The text of a pattern is written so that reading it gives a pattern that matches
the same texts.  It depends on the options in force around the pattern, because
a blank is written by its code point where blanks would not count.

## Where groups are added

A tree may hold alternatives inside of a sequence and a repetition of a
sequence, and text may not.  So groups without an index are added around
alternatives inside of a sequence (`Pattern.guardUnion`) and around everything
but an atom that is repeated (`Pattern.isAtom`).  A group that the tree has is
written as it is, with or without an index.  Reading the text may thus give a
tree with more groups than were written; these have no index, and no operations
in a program.

## Characters and classes

Characters with a meaning are written after a backslash, and those that cannot
be seen by their code points (`Pattern.printPlain`).  Outside and inside of a
class different characters have a meaning (`Pattern.printChar`,
`Pattern.printClassChar`).  A class is written as its ranges.  A class without
characters has no text of its own, so the complement of the class of all
characters is written for it (`Pattern.printClass`).

## Main definitions

* `Pattern.print` — the text of a pattern, given the options in force around it.
* `Pattern.printChar`, `Pattern.printClass` — the text of a character and of a
  class.
* `Pattern.printItems`, `Pattern.printAlternatives` — the text of sequences and
  of alternatives.
-/

namespace Regexp.Pattern

/-- The characters with a meaning in patterns, which are written after a
backslash. -/
def specialChars : List Char :=
  ['\\', '|', '*', '+', '?', '(', ')', '[', ']', '\x7b', '\x7d', '.', '^', '$']

/-- The characters with a meaning in classes, which are written after a
backslash. -/
def specialClassChars : List Char := ['\\', '[', ']', '^', '-', ',']

/-- The text of a character by its code point, in hexadecimal digits.  The
dialect of XML Schema does not know it. -/
def printCodePoint (c : Char) : List Char :=
  ['\\', 'x', '\x7b'] ++ Numeral.hex c.toNat ++ ['\x7d']

/-- The text of a character that has no meaning of its own: itself, unless it
cannot be seen.  Control characters, blanks other than the space and
noncharacters are written by an escape. -/
def printPlain (c : Char) : List Char :=
  if c = '\t' then ['\\', 't']
  else if c = '\n' then ['\\', 'n']
  else if c = '\r' then ['\\', 'r']
  else if c = '\x0C' then ['\\', 'f']
  else if c = '\x1B' then ['\\', 'e']
  else if Scalar.isControl c || (Scalar.isBlank c && c ≠ ' ') || Scalar.isNoncharacter c then
    printCodePoint c
  else [c]

/-- The text of a character outside of classes.  A space and a number sign are
written by an escape only where they would be skipped. -/
def printChar (opts : Options) (c : Char) : List Char :=
  if specialChars.contains c then ['\\', c]
  else if c = '#' && opts.extended then ['\\', '#']
  else if c = ' ' && opts.extended then printCodePoint ' '
  else printPlain c

/-- The text of a character inside of a class, where other characters have a
meaning than outside. -/
def printClassChar (c : Char) : List Char :=
  if specialClassChars.contains c then ['\\', c] else printPlain c

/-- The text of a range inside of a class, which for one character is the
character. -/
def printRange (r : CharRange) : List Char :=
  if r.first = r.last then printClassChar r.first
  else printClassChar r.first ++ ['-'] ++ printClassChar r.last

/-- The text of a class.  A class without characters has no text, and the
complement of the full class is written for it. -/
def printClass (set : CharSet) (negated : Bool) : List Char :=
  let (set, negated) := if set.isEmpty then (CharSet.full, !negated) else (set, negated)
  ['['] ++ (if negated then ['^'] else []) ++ set.ranges.flatMap printRange ++ [']']

/-- The text of an anchor. -/
def printAnchor : Anchor → List Char
  | .startLine => ['^']
  | .endLine => ['$']
  | a => ['\\', a.letter]

/-- The text of a quantifier, in the short form where there is one. -/
def printQuantifier (min : Nat) (max : Option Nat) (greedy : Bool) : List Char :=
  let count :=
    match min, max with
    | 0, none => ['*']
    | 1, none => ['+']
    | 0, some 1 => ['?']
    | n, none => ['\x7b'] ++ Numeral.decimal n ++ [',', '\x7d']
    | n, some m =>
      if n = m then ['\x7b'] ++ Numeral.decimal n ++ ['\x7d']
      else ['\x7b'] ++ Numeral.decimal n ++ [','] ++ Numeral.decimal m ++ ['\x7d']
  count ++ if greedy then [] else ['?']

/-- The text of the change of options of a modifier group.  There is no hyphen
if nothing is removed. -/
def printFlags (add remove : Options) : List Char :=
  add.letterList ++ if remove.isEmpty then [] else '-' :: remove.letterList

/-- Whether a quantifier after the text of a pattern applies to all of it.  A
string and a sequence are none, and get a group around them. -/
def isAtom : Pattern → Bool
  | .char _ | .dot | .charClass _ _ | .backref _ | .group _ _ | .look _ _ | .independent _
  | .modifier _ _ _ | .ifGroup _ _ _ | .ifLook _ _ _ => true
  | .empty | .string _ | .anchor _ | .concat _ | .union _ | .repetition _ _ _ _ => false

/-- A text in a group without index, so that it is read as one construct. -/
def inGroup (text : List Char) : List Char := ['(', '?', ':'] ++ text ++ [')']

/-- The text of a pattern where alternatives must be in a group, because a bar
would otherwise divide what is around them. -/
def guardUnion (p : Pattern) (text : List Char) : List Char :=
  match p with
  | .union _ => inGroup text
  | _ => text

mutual

/-- The text of a pattern, given the options in force around it.  The body of a
group that changes options is written under the options around the group. -/
def printChars (opts : Options) : Pattern → List Char
  | .empty => []
  | .char c => printChar opts c
  | .string s => s.flatMap (printChar opts)
  | .dot => ['.']
  | .charClass set negated => printClass set negated
  | .anchor a => printAnchor a
  | .concat items => printItems opts items
  | .union alternatives => printAlternatives opts alternatives
  | .repetition body min max greedy =>
    (if body.isAtom then printChars opts body else inGroup (printChars opts body)) ++
      printQuantifier min max greedy
  | .group (some _) body => ['('] ++ printChars opts body ++ [')']
  | .group none body => inGroup (printChars opts body)
  | .backref n => '\\' :: Numeral.decimal n
  | .look kind body => ['(', '?'] ++ kind.sign.toList ++ printChars opts body ++ [')']
  | .independent body => ['(', '?', '>'] ++ printChars opts body ++ [')']
  | .modifier add remove body =>
    ['(', '?'] ++ printFlags add remove ++ [':'] ++ printChars opts body ++ [')']
  | .ifGroup n yes none =>
    ['(', '?', '('] ++ Numeral.decimal n ++ [')'] ++ guardUnion yes (printChars opts yes) ++ [')']
  | .ifGroup n yes (some no) =>
    ['(', '?', '('] ++ Numeral.decimal n ++ [')'] ++ guardUnion yes (printChars opts yes) ++
      ['|'] ++ guardUnion no (printChars opts no) ++ [')']
  | .ifLook test yes none =>
    ['(', '?'] ++ printChars opts test ++ guardUnion yes (printChars opts yes) ++ [')']
  | .ifLook test yes (some no) =>
    ['(', '?'] ++ printChars opts test ++ guardUnion yes (printChars opts yes) ++
      ['|'] ++ guardUnion no (printChars opts no) ++ [')']
  termination_by structural p => p

/-- The text of patterns in sequence. -/
def printItems (opts : Options) : List Pattern → List Char
  | [] => []
  | p :: ps => guardUnion p (printChars opts p) ++ printItems opts ps
  termination_by structural ps => ps

/-- The text of alternatives. -/
def printAlternatives (opts : Options) : List Pattern → List Char
  | [] => []
  | [p] => printChars opts p
  | p :: ps => printChars opts p ++ ['|'] ++ printAlternatives opts ps
  termination_by structural ps => ps

end

/-- The text of a pattern.  The options are those that it is to be read under. -/
def print (p : Pattern) (opts : Options) : String := String.ofList (printChars opts p)

end Regexp.Pattern
