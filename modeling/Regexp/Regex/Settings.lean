import Regexp.Regex

/-!
# Settings

The settings for building regular expressions, each of which may be left open.
Settings can be laid over others (`Settings.overrideWith`), and what is left
open in the upper ones is taken from the lower ones; only when an expression is
built is what is open filled in.

## Main definitions

* `Settings` — the settings.
* `Settings.options` — the options that settings stand for.
* `Settings.overrideWith` — settings with others over them.
* `Settings.build`, `Settings.buildPattern` — building a regular expression.
-/

namespace Regexp

/-- The settings for building regular expressions; a setting that is left open
has its default.  The two that turn a shortcut of the search off are named for
the shortcut. -/
structure Settings where
  caseInsensitive : Option Bool := none
  multiLine : Option Bool := none
  singleLine : Option Bool := none
  extended : Option Bool := none
  unicodeClasses : Option Bool := none
  unicodeWords : Option Bool := none
  /-- Whether the search looks for required literals, which is the default. -/
  literalScan : Option Bool := none
  /-- Whether the search filters by first characters, which is the default. -/
  firstChars : Option Bool := none
  xmlSchema : Option Bool := none
  commaSeparates : Option Bool := none
  nestLimit : Option Nat := none
  deriving DecidableEq, Repr

namespace Settings

/-- Settings with all that options decide. -/
def ofOptions (o : Options) : Settings where
  caseInsensitive := some o.caseInsensitive
  multiLine := some o.multiLine
  singleLine := some o.singleLine
  extended := some o.extended
  unicodeClasses := some o.unicodeClasses
  unicodeWords := some o.unicodeWords
  literalScan := some !o.noLiteralScan
  firstChars := some !o.noFirstChars
  xmlSchema := some o.xmlSchema
  commaSeparates := some o.commaSeparates

/-- The options that settings stand for. -/
def options (s : Settings) : Options where
  caseInsensitive := s.caseInsensitive.getD false
  multiLine := s.multiLine.getD false
  singleLine := s.singleLine.getD false
  extended := s.extended.getD false
  unicodeClasses := s.unicodeClasses.getD false
  unicodeWords := s.unicodeWords.getD false
  noLiteralScan := !s.literalScan.getD true
  noFirstChars := !s.firstChars.getD true
  xmlSchema := s.xmlSchema.getD false
  commaSeparates := s.commaSeparates.getD false

/-- The values of the ten settings that are on or off. -/
def flags (s : Settings) : List Bool :=
  [s.caseInsensitive.getD false, s.multiLine.getD false, s.singleLine.getD false,
    s.extended.getD false, s.unicodeClasses.getD false, s.unicodeWords.getD false,
    s.literalScan.getD true, s.firstChars.getD true, s.xmlSchema.getD false,
    s.commaSeparates.getD false]

/-- Settings with others over them; what the others leave open stays as it is. -/
def overrideWith (s o : Settings) : Settings where
  caseInsensitive := o.caseInsensitive.or s.caseInsensitive
  multiLine := o.multiLine.or s.multiLine
  singleLine := o.singleLine.or s.singleLine
  extended := o.extended.or s.extended
  unicodeClasses := o.unicodeClasses.or s.unicodeClasses
  unicodeWords := o.unicodeWords.or s.unicodeWords
  literalScan := o.literalScan.or s.literalScan
  firstChars := o.firstChars.or s.firstChars
  xmlSchema := o.xmlSchema.or s.xmlSchema
  commaSeparates := o.commaSeparates.or s.commaSeparates
  nestLimit := o.nestLimit.or s.nestLimit

/-- The regular expression of a text. -/
def build (s : Settings) (text : String) : Except BuildError Regex :=
  Regex.ofText text s.options (s.nestLimit.getD Pattern.defaultNestLimit)

/-- The regular expression of a tree. -/
def buildPattern (s : Settings) (p : Pattern) : Regex := Regex.ofPattern p s.options

/-! ### Laws -/

@[simp] theorem options_ofOptions (o : Options) : (ofOptions o).options = o := by
  cases o
  simp [options, ofOptions]

end Settings

end Regexp
