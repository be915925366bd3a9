import Regexp.Options
import Regexp.Scalar
import Regexp.Unicode.BinaryProperty
import Regexp.Unicode.GeneralCategory

/-!
# Words

Which characters make up words, for the class escapes and for the word anchors.

## Main definitions

* `Word.chars` — the word characters of Unicode.
* `WordType` — the part that a character plays at the edge of a word.
* `WordType.of` — the type of a character under given options.
-/

namespace Regexp

namespace Word

/-- The word characters of Unicode: letters and the like, marks, decimal digits,
connector punctuation and the join controls. -/
def chars : CharSet :=
  GeneralCategory.union <|
    [BinaryProperty.alphabetic, BinaryProperty.joinControl, GeneralCategory.decimalNumber,
      GeneralCategory.connectorPunctuation] ++ GeneralCategory.markCategories

/-- The characters that the general category makes part of a word: letters,
numbers and spacing marks. -/
def categoryLetters : CharSet :=
  GeneralCategory.union <|
    [GeneralCategory.letterNumber, GeneralCategory.decimalNumber, GeneralCategory.otherNumber,
      GeneralCategory.spacingMark] ++ GeneralCategory.letterCategories

/-- The characters that the general category makes invisible: format characters
and the marks that take no space. -/
def categoryIgnored : CharSet :=
  GeneralCategory.union
    [GeneralCategory.format, GeneralCategory.nonspacingMark, GeneralCategory.enclosingMark]

/-- The word characters of ASCII. -/
def isAsciiWord (c : Char) : Bool := c.isAlphanum || c = '_'

end Word

/-- The part that a character plays at the edge of a word. -/
inductive WordType where
  /-- The character is invisible. -/
  | ignored
  /-- The character is part of a word. -/
  | letter
  /-- The character separates words. -/
  | other
  deriving DecidableEq, Repr

namespace WordType

/-- The type of a character by its general category.  Of the characters that
have neither kind of category, controls are ignored, but for those from the tab
to the carriage return. -/
def ofCategory (c : Char) : WordType :=
  if Word.categoryLetters.contains c then .letter
  else if Word.categoryIgnored.contains c then .ignored
  else if Scalar.isControl c && !Scalar.isBetween 0x09 0x0D c then .ignored
  else .other

/-- The type of a character: by general category, or by membership in the word
characters of Unicode or of ASCII. -/
def of (opts : Options) (c : Char) : WordType :=
  if opts.unicodeWords then ofCategory c
  else if (if opts.unicodeClasses then Word.chars.contains c else Word.isAsciiWord c) then .letter
  else .other

end WordType

end Regexp
