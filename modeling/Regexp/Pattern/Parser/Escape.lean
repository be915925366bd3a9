import Regexp.Options
import Regexp.Pattern.Parser.Basic
import Regexp.Unicode.Property
import Regexp.Unicode.Word
import Regexp.Unicode.XmlName

/-!
# Escapes

An escape is a backslash with what follows it.  It stands for one character, for
a class of characters, or, outside of classes, for more than that.  The first
two kinds are read here, since they are the same inside and outside of classes.

All readers here start after the backslash.  They are given the text from the
backslash on as well, since most failures are noticed there and not at the
letter.  `Parser.classEscape` is asked first and answers with nothing if the
escape is of another kind; `Parser.charEscape` is asked last and refuses what is
no escape at all.  Which letters stand for a class, and for which one, depends
on the options (`Parser.shorthand`); an upper case letter stands for the
complement.

## Main definitions

* `Parser.charEscape` — an escape for one character.
* `Parser.classEscape` — an escape for a class, if there is one.
* `Parser.shorthand` — the class that a letter stands for under given options.
* `Parser.property` — a property name in braces, as the set it denotes.
-/

namespace Regexp.Pattern.Parser

/-- The set of the characters in ranges of ASCII. -/
def asciiSet (ranges : List (Char × Char)) : CharSet :=
  .ofRanges (ranges.map fun (a, b) => .ofEnds a b)

/-- Whether a character forms a control character when it follows `\c`. -/
def isControlLetter (c : Char) : Bool := '@' ≤ c && c ≤ '_'

/-- The number that digits of a base write. -/
def numberOf (base : Nat) (digits : List Char) : Nat :=
  digits.foldl (fun n c => n * base + (Scalar.digit? base c).getD 0) 0

/-- A character by at least `min` and at most `max` hexadecimal digits of its
code point, if it is the code point of a character. -/
def hexChar (min max : Nat) (start s : List Char) : Scans Char s :=
  let digits := (s.take max).takeWhile fun c => (Scalar.digit? 16 c).isSome
  let n := numberOf 16 digits
  if digits.length < min then fail .hexInvalid start
  else if n.isValidChar then
    .ok ⟨Char.ofNat n, s.drop digits.length, by rw [List.length_drop]; exact Nat.sub_le _ _⟩
  else fail .hexInvalid start

/-- A character by its code point: one to six digits in braces, or two digits. -/
def codePointChar (start s : List Char) : Scans Char s :=
  match s with
  | '\x7b' :: digits => do
    let ⟨c, rest, h⟩ ← hexChar 1 6 start digits
    match rest, h with
    | '\x7d' :: rest, h => .ok ⟨c, rest, by
        simp only [List.length_cons] at h ⊢
        omega⟩
    | _, _ => fail .hexInvalid start
  | digits => hexChar 2 2 start digits

/-- A control character by the letter that is 64 places after it. -/
def controlChar (start s : List Char) : Scans Char s :=
  match s with
  | letter :: _ =>
    if isControlLetter letter then
      .ok (.one (Char.ofNat (letter.toNat - '@'.toNat)))
    else fail (.escapeUnknown 'c') start
  | [] => fail (.escapeUnknown 'c') start

/-- The characters that stand for themselves after a backslash in every dialect. -/
def escapableChars : List Char :=
  ['\\', '|', '.', '?', '*', '+', '(', ')', '\x7b', '\x7d', '-', '[', ']', '^']

/-- An escape for one character.  The text from the backslash on is `start`, to
which failures point, and `s` is what stands behind the backslash. -/
def charEscape (opts : Options) (start s : List Char) : Reads Char s :=
  match s with
  | [] => fail .escapeUnfinished start
  | c :: rest =>
    let one (d : Char) : Reads Char (c :: rest) := .ok (.one d)
    let further (r : Scans Char rest) : Reads Char (c :: rest) := r.map Scanned.behind
    if c = 'n' then one '\n'
    else if c = 'r' then one '\r'
    else if c = 't' then one '\t'
    else if escapableChars.contains c then one c
    else if opts.xmlSchema then fail (.escapeUnknown c) start
    else if c = 'f' then one '\x0C'
    else if c = 'e' then one '\x1B'
    else if c = 'x' then further (codePointChar start rest)
    else if c = 'u' then further (hexChar 4 4 start rest)
    else if c = 'v' then further (hexChar 6 6 start rest)
    else if c = 'c' then further (controlChar start rest)
    else if Scalar.isAsciiPunctuation c || c = ' ' then one c
    else fail (.escapeUnknown c) start

/-- The class that a letter stands for after a backslash.  It depends on the
dialect, and on whether classes are those of Unicode or of ASCII. -/
def shorthand (opts : Options) (letter : Char) : CharSet :=
  match letter with
  | 'd' =>
    if opts.xmlSchema || opts.unicodeClasses then GeneralCategory.decimalNumber.members
    else asciiSet [('0', '9')]
  | 'w' =>
    if opts.xmlSchema then
      (GeneralCategory.union (GeneralCategory.punctuationCategories ++
        GeneralCategory.separatorCategories ++ GeneralCategory.otherCategories)).compl
    else if opts.unicodeClasses then Word.chars
    else asciiSet [('0', '9'), ('A', 'Z'), ('_', '_'), ('a', 'z')]
  | 's' =>
    if opts.xmlSchema then asciiSet [(' ', ' '), ('\t', '\n'), ('\r', '\r')]
    else if opts.unicodeClasses then BinaryProperty.whiteSpace.members
    else asciiSet [(' ', ' '), ('\t', '\n'), ('\x0C', '\r')]
  | 'i' => XmlName.startChars
  | _ => XmlName.chars

/-- A property name in braces, as the set it denotes.  The failures for braces
that are missing and for a name that is not known are different ones. -/
def property (s : List Char) : Reads CharSet s :=
  match s with
  | '\x7b' :: body =>
    let name := body.takeWhile (· ≠ '\x7d')
    match h : body.drop name.length with
    | [] => fail .propertyMalformed s
    | _ :: rest =>
      if name.isEmpty then fail .propertyMalformed s
      else match Property.find? name with
        | some set => .ok ⟨set, rest, by
            have := congrArg List.length h
            simp only [List.length_drop, List.length_cons] at this ⊢
            omega⟩
        | none => fail .propertyUnknown s
  | _ => fail .propertyMalformed s

/-- An escape for a class, or nothing if the escape is of another kind.  The
text starts with the letter of the escape, and an upper case letter stands for
the complement. -/
def classEscape (opts : Options) (s : List Char) : Except Failure (Option (Consumed CharSet s)) :=
  match s with
  | [] => .ok none
  | c :: rest =>
    let isControl := c = 'c' && !opts.xmlSchema && (rest.head?.map isControlLetter).getD false
    let signed (set : CharSet) : CharSet := if c.isUpper then set.compl else set
    let letter := c.toLower
    if isControl then .ok none
    else if ['d', 'w', 's', 'i', 'c'].contains letter then
      .ok (some (.one (signed (shorthand opts letter))))
    else if letter = 'p' then
      (property rest).map fun r => some (r.map signed).behind
    else .ok none

end Regexp.Pattern.Parser
