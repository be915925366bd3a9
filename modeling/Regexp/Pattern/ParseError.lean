import Regexp.Text.Numeral

/-!
# Failures to read a pattern

A failure has a cause and a place, which is the byte offset in the text of the
pattern at which it was noticed.  Causes are values and not texts, so that
readers can be compared by the cause for which they fail; the text is made at
the very end (`ParseError.message`).

## Main definitions

* `ParseError.Cause` — what is wrong with the text of a pattern.
* `ParseError` — a cause with the byte offset at which it was noticed.
* `ParseError.message` — the text of a failure.
-/

namespace Regexp

/-- What is wrong with the text of a pattern.  There is one cause for each
message. -/
inductive ParseError.Cause where
  /-- The pattern ends inside of an escape. -/
  | escapeUnfinished
  /-- An escape has no meaning. -/
  | escapeUnknown (c : Char)
  /-- A hexadecimal escape has too few digits or names no character. -/
  | hexInvalid
  /-- A property escape names no known set. -/
  | propertyUnknown
  /-- A property escape has no name in braces. -/
  | propertyMalformed
  /-- A group is opened and not closed. -/
  | groupUnclosed
  /-- A parenthesis closes no group. -/
  | groupUnopened
  /-- A group form or an option letter has no meaning. -/
  | flagUnknown (c : Char)
  /-- The pattern ends among the option letters of a group. -/
  | flagsUnclosed
  /-- A group that only sets options is not at the start of a group. -/
  | flagsMisplaced
  /-- A class is opened and not closed. -/
  | classUnclosed
  /-- A class has no items. -/
  | classEmpty
  /-- A range of a class has its ends in the wrong order. -/
  | rangeReversed
  /-- An end of a range is a set of characters. -/
  | rangeEndNotChar
  /-- A named class has no known name. -/
  | posixUnknown
  /-- An operation on classes lacks an operator or an operand. -/
  | classOperationInvalid
  /-- A quantifier has nothing to repeat. -/
  | repetitionMissing
  /-- A counted repetition lacks a number or its end. -/
  | countMalformed
  /-- A counted repetition has its bounds in the wrong order. -/
  | countReversed
  /-- A count has too many digits. -/
  | countTooLarge
  /-- A reference names no group of the pattern. -/
  | groupUndefined (n : Nat)
  /-- A conditional has no condition or too many branches. -/
  | conditionInvalid
  /-- A construct does not belong to the dialect of XML Schema. -/
  | notInXmlSchema
  /-- Groups are nested deeper than the limit. -/
  | nestedTooDeep (limit : Nat)
  deriving DecidableEq, Repr

/-- A failure to read a pattern. -/
structure ParseError where
  cause : ParseError.Cause
  /-- The byte offset of the place in the pattern at which the failure was
  noticed. -/
  offset : Nat
  deriving DecidableEq, Repr

namespace ParseError

/-- The text of a number. -/
def numeral (n : Nat) : String := String.ofList (Numeral.decimal n)

/-- The text of a cause. -/
def Cause.message : Cause → String
  | escapeUnfinished => "incomplete escape sequence"
  | escapeUnknown c => "unrecognized escape sequence '\\" ++ String.singleton c ++ "'"
  | hexInvalid => "invalid hexadecimal escape"
  | propertyUnknown => "unknown Unicode property"
  | propertyMalformed => "expected a braced Unicode property name"
  | groupUnclosed => "unclosed group"
  | groupUnopened => "unopened group"
  | flagUnknown c => "unrecognized group flag '" ++ String.singleton c ++ "'"
  | flagsUnclosed => "expected ':' after group flags"
  | flagsMisplaced => "option group must be at the start of a group"
  | classUnclosed => "unclosed character class"
  | classEmpty => "empty character class"
  | rangeReversed => "invalid character class range, start > end"
  | rangeEndNotChar => "invalid range boundary, must be a literal"
  | posixUnknown => "unknown POSIX class name"
  | classOperationInvalid => "invalid character class operation"
  | repetitionMissing => "repetition operator missing expression"
  | countMalformed => "unclosed or malformed counted repetition"
  | countReversed => "invalid repetition count range, the start must be <= the end"
  | countTooLarge => "repetition count is too large"
  | groupUndefined n => "backreference to undefined group " ++ numeral n
  | conditionInvalid => "invalid conditional"
  | notInXmlSchema => "construct is not allowed in XML Schema regular expressions"
  | nestedTooDeep limit =>
    "exceed the maximum number of nested groups (" ++ numeral limit ++ ")"

/-- The text of a failure. -/
def message (e : ParseError) : String :=
  "error at offset " ++ numeral e.offset ++ ": " ++ e.cause.message

end ParseError

end Regexp
