/-!
# Pattern options

An option changes how a pattern is read, compiled or searched for.  A set of
options is written as a string of letters such as `imX`, in any order
(`Options.parse`); it is printed in one canonical order (`Options.letters`).

A set is a record of ten truth values, and every operation works field by field:
`Options.zipWith` is the one combination of two sets, and union, intersection
and difference are `||`, `&&` and their like applied to it.  So a law about sets
of options is settled by the laws of `Bool`, field by field.  `Options.modify`
is what a group with changed options does to those around it.  It adds first and
removes then, so that an option that is in both parts is not set inside of the
group.

## Main definitions

* `Options` — a set of the ten options.
* `Options.parse`, `Options.letters` — reading and printing a set as letters.
* `Options.union`, `Options.inter`, `Options.diff`, `Options.assign` — the set
  operations.
* `Options.modify` — the options in force inside of a group.
-/

namespace Regexp

/-- A set of pattern options. -/
structure Options where
  /-- Letters match without regard to case (`i`). -/
  caseInsensitive : Bool := false
  /-- The line anchors match at every line boundary (`m`). -/
  multiLine : Bool := false
  /-- The dot matches line terminators too (`s`). -/
  singleLine : Bool := false
  /-- Blanks and comments in the pattern are skipped (`x`). -/
  extended : Bool := false
  /-- The class escapes and the word anchors follow Unicode (`u`). -/
  unicodeClasses : Bool := false
  /-- Word boundaries follow the general category (`w`). -/
  unicodeWords : Bool := false
  /-- The search does not look for required literals (`F`). -/
  noLiteralScan : Bool := false
  /-- The search does not filter by first characters (`H`). -/
  noFirstChars : Bool := false
  /-- The dialect and the whole-span search of XML Schema (`X`). -/
  xmlSchema : Bool := false
  /-- A comma inside a bracketed class separates its items (`,`). -/
  commaSeparates : Bool := false
  deriving DecidableEq, Repr, Inhabited

/-- The failure to read an option letter.  Only the first letter that names no
option is told. -/
structure UnknownOption where
  /-- The letter that names no option. -/
  letter : Char
  deriving DecidableEq, Repr

/-- The text of the failure. -/
def UnknownOption.message (e : UnknownOption) : String :=
  "unknown option: '" ++ String.singleton e.letter ++ "'"

namespace Options

/-- The set without options. -/
def empty : Options := {}

/-- Combination of two sets, option by option.  All operations on two sets are
made with it. -/
def zipWith (f : Bool → Bool → Bool) (a b : Options) : Options where
  caseInsensitive := f a.caseInsensitive b.caseInsensitive
  multiLine := f a.multiLine b.multiLine
  singleLine := f a.singleLine b.singleLine
  extended := f a.extended b.extended
  unicodeClasses := f a.unicodeClasses b.unicodeClasses
  unicodeWords := f a.unicodeWords b.unicodeWords
  noLiteralScan := f a.noLiteralScan b.noLiteralScan
  noFirstChars := f a.noFirstChars b.noFirstChars
  xmlSchema := f a.xmlSchema b.xmlSchema
  commaSeparates := f a.commaSeparates b.commaSeparates

/-- The options in either set. -/
def union (a b : Options) : Options := zipWith (· || ·) a b

/-- The options in both sets. -/
def inter (a b : Options) : Options := zipWith (· && ·) a b

/-- The options in the first set and not in the second. -/
def diff (a b : Options) : Options := zipWith (fun x y => x && !y) a b

/-- Whether every option of the second set is in the first, which is always so
for the set without options. -/
def contains (a b : Options) : Bool := a.inter b = b

/-- Whether no option is set. -/
def isEmpty (a : Options) : Bool := a = empty

/-- The first set with every option of the second one set, or cleared.  Other
options are left as they are. -/
def assign (a b : Options) (on : Bool) : Options := if on then a.union b else a.diff b

/-- The options in force inside a group that adds some and then removes some.
An option that is named twice is removed. -/
def modify (a add remove : Options) : Options := (a.union add).diff remove

/-- The set of the one option that a letter names. -/
def ofLetter? (letter : Char) : Option Options :=
  match letter with
  | 'i' => some { caseInsensitive := true }
  | 'm' => some { multiLine := true }
  | 's' => some { singleLine := true }
  | 'x' => some { extended := true }
  | 'u' => some { unicodeClasses := true }
  | 'w' => some { unicodeWords := true }
  | 'F' => some { noLiteralScan := true }
  | 'H' => some { noFirstChars := true }
  | 'X' => some { xmlSchema := true }
  | ',' => some { commaSeparates := true }
  | _ => none

/-- The set named by a list of letters; the first letter that names no option is
the failure. -/
def parseLetters : List Char → Options → Except UnknownOption Options
  | [], acc => .ok acc
  | c :: cs, acc =>
    match ofLetter? c with
    | some o => parseLetters cs (acc.union o)
    | none => .error ⟨c⟩

/-- The set named by a text of letters, in any order and with repetitions. -/
def parse (text : String) : Except UnknownOption Options := parseLetters text.toList empty

/-- The letters of a set in canonical order.  This is the order in which they
are declared. -/
def letterList (o : Options) : List Char :=
  [(o.caseInsensitive, 'i'), (o.multiLine, 'm'), (o.singleLine, 's'), (o.extended, 'x'),
    (o.unicodeClasses, 'u'), (o.unicodeWords, 'w'), (o.noLiteralScan, 'F'),
    (o.noFirstChars, 'H'), (o.xmlSchema, 'X'), (o.commaSeparates, ',')].filterMap
    fun (on, letter) => if on then some letter else none

/-- The canonical text of a set, with one letter for each of its options. -/
def letters (o : Options) : String := String.ofList o.letterList

end Options

end Regexp
