import Regexp.Pattern.Parser

/-!
# Reading from a pattern by its bytes

The readers of patterns take the rest of the text as a list, so they cannot look
at a place that is not there.  A program that keeps the text and the byte offset
of its next character can: it may move the offset past the end or into a
character, go round a loop without moving at all, or enter a routine again where
the routine already runs.  Here the readers are written in this way, with
everything that can go wrong as a result of its own.

## Walks

A `Cursor.Walk` is a computation with an offset in its state, and the pattern,
the options and the limit on nesting around it.  It ends with a value or early
(`Cursor.Halt`), with the failure that a text deserves or with one of the faults
that no text should come to.  The faults arise in three steps only.

* `Cursor.moveTo` is the only step that changes the offset, and it goes wrong
  where no character starts.
* `Cursor.loop` goes wrong after a round that did not move on.
* `Cursor.enter` goes wrong where the same routine was entered before, at this
  offset or a later one, and still runs.

Together they leave no room for a walk that does not end, apart from how deep
groups and classes nest.  The levels that may still be opened are numbers given
from outside, and running out of these is a fault as well.  It would be no less
a fault if a limit on nesting were checked too late.

## What is the same

The trees are made as the readers on lists make them; what differs is how the
text is looked at, and in which order.  Some routines read a part of the text,
find that it is not for them, and put the offset back, which a reader on lists
does by reading something else from the same list.

## Main definitions

* `Cursor.Halt` — the ways in which a walk over the text ends early.
* `Cursor.Walk` — a walk over the text, which has an offset and moves it.
* `Cursor.moveTo`, `Cursor.loop`, `Cursor.enter` — the steps that can go wrong.
* `Cursor.groupOf`, `Cursor.groupWithin` — one more level of groups, and all
  levels.
* `Cursor.parse` — the pattern that a text denotes, read by its bytes.
-/

namespace Regexp.Pattern

/-! ### Parts of a text by bytes -/

/-- The rest of a text from a byte offset on, if a character starts there or the
text ends. -/
def textFrom? : List Char → Nat → Option (List Char)
  | s, 0 => some s
  | [], _ + 1 => none
  | c :: s, n + 1 => if c.utf8Size ≤ n + 1 then textFrom? s (n + 1 - c.utf8Size) else none

/-- The text up to a byte offset, if a character starts there or the text ends. -/
def textUpTo? : List Char → Nat → Option (List Char)
  | _, 0 => some []
  | [], _ + 1 => none
  | c :: s, n + 1 =>
    if c.utf8Size ≤ n + 1 then (textUpTo? s (n + 1 - c.utf8Size)).map (c :: ·) else none

/-- The byte offset at which a text has a part for the first time, counted from
where the text begins. -/
def findText? (part : List Char) : List Char → Option Nat
  | [] => if part.isEmpty then some 0 else none
  | c :: s =>
    if part.isPrefixOf (c :: s) then some 0 else (findText? part s).map (c.utf8Size + ·)

namespace Cursor

/-! ### Walks -/

/-- The routines that call each other in a circle.  Those that are not listed
are in no circle but by way of these. -/
inductive Routine where
  | alternation
  | branches
  | branch
  | atom
  | group
  | specialGroup
  | look
  | modifierGroup
  | conditional
  | bracketClass
  deriving DecidableEq

/-- What does not change while a pattern is read: its characters, and how many
groups may stand around each other. -/
structure Source where
  pattern : List Char
  nestLimit : Nat

/-- What does change. -/
structure State where
  /-- The byte offset of the next character. -/
  pos : Nat
  /-- The options in effect at the offset. -/
  opts : Options
  /-- The number of groups around the offset. -/
  depth : Nat := 0
  /-- The number of capturing groups opened. -/
  groups : Nat := 0
  /-- The groups referred to, each with the offset of the reference. -/
  references : List (Nat × Nat) := []
  /-- The routines that have been entered and not left, each with the offset at
  which it was entered, the last one first. -/
  calls : List (Routine × Nat) := []

/-- The state at the start of a text. -/
def State.initial (opts : Options) : State := { pos := 0, opts }

/-- The ways in which a walk ends early.  Only the first one says something of
the pattern; the others are faults of the walk. -/
inductive Halt where
  /-- The pattern cannot be read. -/
  | failure (e : ParseError)
  /-- An offset is beyond the text or inside of a character. -/
  | fault
  /-- A loop or a routine has come back to where it was. -/
  | stalled
  /-- There are no more levels to open. -/
  | exhausted

/-- A walk over a text.  It reads the source, changes the state, and ends with a
value or early. -/
def Walk (α : Type) : Type := Source → State → Except Halt (α × State)

variable {α β : Type}

/-- A walk, and another one from where it stops.  If the first ends early, so do
both. -/
def Walk.andThen (w : Walk α) (k : α → Walk β) : Walk β := fun src σ =>
  match w src σ with
  | .ok (a, σ') => k a src σ'
  | .error h => .error h

instance : Monad Walk where
  pure a := fun _ σ => .ok (a, σ)
  bind := Walk.andThen

/-- The walk that ends early. -/
def halt (h : Halt) : Walk α := fun _ _ => .error h

/-- What is read, and the limit on nesting. -/
def source : Walk Source := fun src σ => .ok (src, σ)

/-- The offset. -/
def here : Walk Nat := fun _ σ => .ok (σ.pos, σ)

/-- The options in effect. -/
def options : Walk Options := fun _ σ => .ok (σ.opts, σ)

/-- The rest of the pattern from an offset on.  There is none where no character
starts, which is a fault. -/
def slice (n : Nat) : Walk (List Char) := fun src σ =>
  match textFrom? src.pattern n with
  | some s => .ok (s, σ)
  | none => .error .fault

/-- Moves the offset to where a character starts or the pattern ends.  All that
moves the offset does it by this. -/
def moveTo (n : Nat) : Walk Unit := fun src σ =>
  match textFrom? src.pattern n with
  | some _ => .ok ((), { σ with pos := n })
  | none => .error .fault

/-- The next character, if there is one, without moving past it. -/
def char : Walk (Option Char) := do
  let s ← slice (← here)
  return s.head?

/-- Moves past the next character, if there is one, by as many bytes as it
takes. -/
def bump : Walk Unit := do
  match ← char with
  | some c => moveTo ((← here) + c.utf8Size)
  | none => return ()

/-- Whether the pattern is at its end. -/
def isEof : Walk Bool := do
  return utf8Length (← source).pattern ≤ (← here)

/-- Whether the pattern goes on with a text. -/
def peekIs (text : List Char) : Walk Bool := do
  let s ← slice (← here)
  return text.isPrefixOf s

/-- Reports that the pattern cannot be read, for a reason that lies at an
offset. -/
def failAt (n : Nat) (cause : ParseError.Cause) : Walk α := halt (.failure ⟨cause, n⟩)

/-- Reports that the pattern cannot be read any further. -/
def failHere (cause : ParseError.Cause) : Walk α := do failAt (← here) cause

/-- A walk whose failures are reported for another reason and at another offset.
Faults stay what they are. -/
def orFailAt (n : Nat) (cause : ParseError.Cause) (w : Walk α) : Walk α := fun src σ =>
  match w src σ with
  | .error (.failure _) => .error (.failure ⟨cause, n⟩)
  | result => result

/-- The rounds of a loop.  A round ends with the value of the whole loop, or
with what the next round starts from. -/
def rounds (round : β → Walk (β ⊕ α)) (start : β) (src : Source) (σ : State) :
    Except Halt (α × State) :=
  match round start src σ with
  | .error h => .error h
  | .ok (.inr a, σ') => .ok (a, σ')
  | .ok (.inl next, σ') =>
    if σ.pos < σ'.pos ∧ σ'.pos ≤ utf8Length src.pattern then rounds round next src σ'
    else .error .stalled
  termination_by utf8Length src.pattern - σ.pos

/-- A loop.  Its rounds have to move on, except for the one that ends it. -/
def loop (round : β → Walk (β ⊕ α)) (start : β) : Walk α := fun src σ => rounds round start src σ

/-- Whether a routine runs that was entered at an offset or later.  Entering it
again would be a circle without progress. -/
def runsFrom (calls : List (Routine × Nat)) (r : Routine) (n : Nat) : Bool :=
  calls.any fun call => call.1 = r && n ≤ call.2

/-- The state in a routine that is entered, where the call is noted with its
offset. -/
def State.entered (σ : State) (r : Routine) (n : Nat) : State :=
  { σ with calls := (r, n) :: σ.calls }

/-- A call of a routine, which is noted while it runs and forgotten when it
returns.  It is a fault to enter where the routine runs already. -/
def enter (r : Routine) (w : Walk α) : Walk α := fun src σ =>
  if runsFrom σ.calls r σ.pos then .error .stalled
  else (w src (σ.entered r σ.pos)).map fun result =>
    (result.1, { result.2 with calls := σ.calls })

/-- The state under changed options; nothing else is changed. -/
def State.under (σ : State) (f : Parser.Flags) : State :=
  { σ with opts := σ.opts.modify f.add f.remove }

/-- A walk under changed options.  The options from before are put back behind
it. -/
def under (f : Parser.Flags) (w : Walk α) : Walk α := fun src σ =>
  (w src (σ.under f)).map fun result => (result.1, { result.2 with opts := σ.opts })

/-- The state with one more group around the offset. -/
def State.deeper (σ : State) : State := { σ with depth := σ.depth + 1 }

/-- Counts one more group around the offset, and is the number of these. -/
def deepen : Walk Nat := fun _ σ => .ok (σ.depth + 1, σ.deeper)

/-- Counts one group less. -/
def surface : Walk Unit := fun _ σ => .ok ((), { σ with depth := σ.depth - 1 })

/-- Opens a capturing group, and is its number. -/
def openGroup : Walk Nat := fun _ σ => .ok (σ.groups + 1, { σ with groups := σ.groups + 1 })

/-- Notes a reference to a group, which is checked when all groups have been
opened. -/
def refer (group n : Nat) : Walk Unit := fun _ σ =>
  .ok ((), { σ with references := σ.references ++ [(group, n)] })

/-! ### Blanks, numbers and flags -/

def commentRound (_ : Unit) : Walk (Unit ⊕ Unit) := do
  match ← char with
  | none => return .inr ()
  | some c =>
    bump
    return if Scalar.isLineTerminator c then .inr () else .inl ()

def blankRound (_ : Unit) : Walk (Unit ⊕ Unit) := do
  match ← char with
  | none => return .inr ()
  | some c =>
    if Scalar.isBlank c then
      bump
      return .inl ()
    else if c = '#' then
      loop commentRound ()
      return .inl ()
    else return .inr ()

/-- Moves past blanks and comments, where these are skipped. -/
def skipSpace : Walk Unit := do
  if (← options).extended then loop blankRound ()
  else return ()

def decimalRound (start : Nat) (n : Option Nat) : Walk (Option Nat ⊕ Option Nat) := do
  match (← char).bind (Scalar.digit? 10) with
  | none => return .inr n
  | some d =>
    let next := n.getD 0 * 10 + d
    if next > Parser.maxCount then failAt start .countTooLarge
    else
      bump
      return .inl (some next)

/-- A number in decimal digits, or nothing if there are no digits. -/
def decimal : Walk (Option Nat) := do
  loop (decimalRound (← here)) none

def flagsRound : Parser.Flags × Bool → Walk ((Parser.Flags × Bool) ⊕ Parser.Flags)
  | (acc, negated) => do
    match ← char with
    | none => failHere .flagsUnclosed
    | some c =>
      if c = ':' || c = ')' then
        bump
        return .inr { acc with colon := c = ':' }
      else if c = '-' && !negated then
        bump
        return .inl (acc, true)
      else if Parser.groupFlags.contains c then
        match Options.ofLetter? c with
        | none => failHere (.flagUnknown c)
        | some o =>
          bump
          return .inl (if negated then { acc with remove := acc.remove.union o }
            else { acc with add := acc.add.union o }, negated)
      else failHere (.flagUnknown c)

/-- Option letters up to and with a colon or a closing parenthesis.  It begins
with nothing to set or to clear, and before a hyphen. -/
def flags : Walk Parser.Flags := loop flagsRound ({}, false)

/-- Whether a character can be the first of option letters. -/
def startsFlags : Option Char → Bool
  | some c => c = '-' || Parser.groupFlags.contains c
  | none => false

/-- The change of options that a group at the offset makes, if it does nothing
else.  Otherwise the offset is put back. -/
def leadingFlags : Walk (Option Parser.Flags) := do
  if (← options).xmlSchema || !(← peekIs ['(', '?']) then return none
  else
    let start ← here
    moveTo (start + 2)
    if startsFlags (← char) then
      let f ← flags
      if f.colon then
        moveTo start
        return none
      else return some f
    else
      moveTo start
      return none

/-! ### Quantifiers -/

/-- The end of bounds in braces that start at `start`. -/
def boundsEnd (start min : Nat) (max : Option Nat) : Walk (Nat × Option Nat) := do
  if (← char) = some '\x7d' then
    bump
    if max.any (min > ·) then failAt start .countReversed
    else return (min, max)
  else failHere .countMalformed

/-- The bounds of a repetition in braces, from the opening brace on. -/
def bounds : Walk (Nat × Option Nat) := do
  let start ← here
  bump
  match ← decimal with
  | none => failHere .countMalformed
  | some min =>
    if (← char) = some ',' then
      bump
      boundsEnd start min (← decimal)
    else boundsEnd start min (some min)

/-- The bounds of a quantifier, if there is one. -/
def quantifier? : Walk (Option (Nat × Option Nat)) := do
  let c ← char
  if c = some '*' then
    bump
    return some (0, none)
  else if c = some '+' then
    bump
    return some (1, none)
  else if c = some '?' then
    bump
    return some (0, some 1)
  else if c = some '\x7b' then return some (← bounds)
  else return none

/-- Whether a quantifier is greedy, by what follows it. -/
def greediness : Walk Bool := do
  if (← char) = some '?' then
    if (← options).xmlSchema then failHere .notInXmlSchema
    else
      bump
      return false
  else return true

/-- A repetition after its quantifier, behind which there is no other one.  It
skips blanks and comments before it looks for one. -/
def repeated (atom : Pattern) (min : Nat) (max : Option Nat) (greedy : Bool) : Walk Pattern := do
  skipSpace
  if Parser.startsQuantifier (← char).toList then failHere .repetitionMissing
  else return .repetition atom min max greedy

/-- An atom with the quantifier after it, if there is one.  Blanks and comments
may stand between them where these are skipped. -/
def quantified (atom : Pattern) : Walk Pattern := do
  skipSpace
  match ← quantifier? with
  | none => return atom
  | some (min, max) => repeated atom min max (← greediness)

/-! ### Escapes -/

def hexRound (most : Nat) : Nat × Nat → Walk ((Nat × Nat) ⊕ (Nat × Nat))
  | (value, count) => do
    if count < most then
      match (← char).bind (Scalar.digit? 16) with
      | none => return .inr (value, count)
      | some d =>
        bump
        return .inl (value * 16 + d, count + 1)
    else return .inr (value, count)

/-- A character by at least `least` and at most `most` hexadecimal digits of its
code point. -/
def hexChar (least most start : Nat) : Walk Char := do
  let (value, count) ← loop (hexRound most) (0, 0)
  if count < least then failAt start .hexInvalid
  else if value.isValidChar then return Char.ofNat value
  else failAt start .hexInvalid

/-- A character by its code point: one to six digits in braces, or two digits. -/
def codePointChar (start : Nat) : Walk Char := do
  if (← char) = some '\x7b' then
    bump
    let c ← hexChar 1 6 start
    if (← char) = some '\x7d' then
      bump
      return c
    else failAt start .hexInvalid
  else hexChar 2 2 start

/-- A control character by the letter that is 64 places after it. -/
def controlChar (start : Nat) : Walk Char := do
  match ← char with
  | some letter =>
    if Parser.isControlLetter letter then
      bump
      return Char.ofNat (letter.toNat - '@'.toNat)
    else failAt start (.escapeUnknown 'c')
  | none => failAt start (.escapeUnknown 'c')

/-- An escape for one character.  The offset is after the backslash, which is at
`start`. -/
def charEscape (start : Nat) : Walk Char := do
  match ← char with
  | none => failAt start .escapeUnfinished
  | some c =>
    bump
    if c = 'n' then return '\n'
    else if c = 'r' then return '\r'
    else if c = 't' then return '\t'
    else if Parser.escapableChars.contains c then return c
    else if (← options).xmlSchema then failAt start (.escapeUnknown c)
    else if c = 'f' then return '\x0C'
    else if c = 'e' then return '\x1B'
    else if c = 'x' then codePointChar start
    else if c = 'u' then hexChar 4 4 start
    else if c = 'v' then hexChar 6 6 start
    else if c = 'c' then controlChar start
    else if Scalar.isAsciiPunctuation c || c = ' ' then return c
    else failAt start (.escapeUnknown c)

def nameRound (start : Nat) (name : List Char) : Walk (List Char ⊕ List Char) := do
  match ← char with
  | none => failAt start .propertyMalformed
  | some c =>
    if c = '\x7d' then return .inr name
    else
      bump
      return .inl (name ++ [c])

/-- A property name in braces, as the set it denotes.  An unknown name is
reported at the opening brace. -/
def property : Walk CharSet := do
  let start ← here
  if (← char) = some '\x7b' then
    bump
    let name ← loop (nameRound start) []
    bump
    if name.isEmpty then failAt start .propertyMalformed
    else match Property.find? name with
      | some set => return set
      | none => failAt start .propertyUnknown
  else failHere .propertyMalformed

/-- Whether the letter `c` at the offset begins an escape for a control
character. -/
def isControlEscape (c : Char) : Walk Bool := do
  if c = 'c' && !(← options).xmlSchema then
    let s ← slice ((← here) + 1)
    return (s.head?.map Parser.isControlLetter).getD false
  else return false

/-- An escape for a class with its letter `c` at the offset, or nothing if the
escape is of another kind. -/
def classEscape (c : Char) : Walk (Option CharSet) := do
  let isControl ← isControlEscape c
  let signed (set : CharSet) : CharSet := if c.isUpper then set.compl else set
  let letter := c.toLower
  if isControl then return none
  else if ['d', 'w', 's', 'i', 'c'].contains letter then
    bump
    return some (signed (Parser.shorthand (← options) letter))
  else if letter = 'p' then
    bump
    return some (signed (← property))
  else return none

/-- An escape outside of classes, from its backslash on. -/
def escape : Walk Pattern := do
  let start ← here
  bump
  match ← char with
  | none => failAt start .escapeUnfinished
  | some c =>
    match ← classEscape c with
    | some set => return .charClass set false
    | none =>
      if (← options).xmlSchema then return .char (← charEscape start)
      else match Parser.escapedAnchor? c with
        | some a =>
          bump
          return .anchor a
        | none =>
          match Scalar.digit? 10 c with
          | some n =>
            bump
            refer n start
            return .backref n
          | none =>
            if c = 'X' then
              bump
              return Parser.combiningSequence
            else if c = 'g' then
              bump
              return Parser.grapheme
            else return .char (← charEscape start)

/-! ### Bracketed classes -/

/-- One item of a class. -/
def classItem : Walk Parser.ClassItem := do
  let start ← here
  match ← char with
  | none => failHere .classUnclosed
  | some c =>
    if c = '\\' then
      bump
      match ← char with
      | none => failAt start .escapeUnfinished
      | some d =>
        match ← classEscape d with
        | some set => return .set set
        | none => return .char (← charEscape start)
    else
      bump
      return .char c

/-- Whether a hyphen at the offset makes a range. -/
def startsRange : Walk Bool := do
  let c ← char
  let closes ← peekIs ['-', ']']
  let opens ← peekIs ['-', '[']
  return c = some '-' && !closes && !opens && (← here) + 1 < utf8Length (← source).pattern

/-- One item of a class, or a range between two characters. -/
def classRange : Walk CharSet := do
  let start ← here
  match ← classItem with
  | .set set => return set
  | .char lo =>
    if ← startsRange then
      bump
      match ← classItem with
      | .set _ => failAt start .rangeEndNotChar
      | .char hi =>
        if hi < lo then failAt start .rangeReversed
        else return .ofRange (.ofEnds lo hi)
    else return .single lo

/-- The text up to an offset in another text, where it is a fault to end inside
of a character. -/
def sliceUpTo (s : List Char) (n : Nat) : Walk (List Char) :=
  match textUpTo? s n with
  | some t => pure t
  | none => halt .fault

/-- A named class, from `[:` up to and with `:]`. -/
def posixClass : Walk CharSet := do
  let start ← here
  let s ← slice (start + 2)
  match findText? [':', ']'] s with
  | none => failHere .posixUnknown
  | some stop =>
    let text ← sliceUpTo s stop
    let (negated, name) :=
      match text with
      | '^' :: name => (true, name)
      | name => (false, name)
    match Parser.posixRanges? name with
    | none => failAt start .posixUnknown
    | some ranges =>
      let set := Parser.asciiSet ranges
      moveTo (start + (2 + stop + 2))
      return if negated then set.compl else set

/-- Moves past a caret, and is whether there was one. -/
def caret : Walk Bool := do
  if (← char) = some '^' then
    bump
    return true
  else return false

section

variable (inner : Walk Parser.BracketClass)

/-- An item of a class, or the end of the class. The class starts at `start`. -/
def classRound (start : Nat) (negated : Bool) :
    Bool × CharSet → Walk ((Bool × CharSet) ⊕ Parser.BracketClass)
  | (first, set) => do
    match ← char with
    | none => failAt start .classUnclosed
    | some c =>
      let opts ← options
      let subtracts ← peekIs ['-', '[']
      let isNamed ← peekIs ['[', ':']
      if c = ']' && first && opts.xmlSchema then failHere .classEmpty
      else if c = ']' && !first then
        bump
        return .inr ⟨set, negated⟩
      else if subtracts then
        if first then failHere .classEmpty
        else
          bump
          let other ← inner
          if (← char) = some ']' then
            bump
            let own := Parser.BracketClass.members ⟨set, negated⟩
            return .inr ⟨own.diff other.members, false⟩
          else failAt start .classUnclosed
      else if c = '[' && opts.xmlSchema then failHere .notInXmlSchema
      else if isNamed then return .inl (false, set.union (← posixClass))
      else if c = ',' && opts.commaSeparates then
        bump
        return .inl (false, set)
      else return .inl (false, set.union (← classRange))

/-- A class from its opening bracket on, given a walk for the class inside of
it. -/
def bracketClassOf : Walk Parser.BracketClass := enter .bracketClass do
  let start ← here
  bump
  let negated ← caret
  loop (classRound inner start negated) (true, .empty)

end

/-- A class with at most so many classes around each other. -/
def bracketClassWithin : Nat → Walk Parser.BracketClass
  | 0 => halt .exhausted
  | levels + 1 => bracketClassOf (bracketClassWithin levels)

/-- A class.  No more classes can stand around each other than the pattern has
characters. -/
def bracketClass : Walk Parser.BracketClass := do
  bracketClassWithin (← source).pattern.length

/-- An operator with the class after it, or the closing parenthesis, which is
left to be read. -/
def operandRound (set : CharSet) : Walk (CharSet ⊕ CharSet) := do
  let c ← char
  if c = some ')' then return .inr set
  else match c.bind Parser.classOperator? with
    | none => failHere .classOperationInvalid
    | some op =>
      bump
      if (← char) = some '[' then
        let other ← bracketClass
        return .inl (op set other.members)
      else failHere .classOperationInvalid

/-- Classes with operators between them.  They are applied from the left to the
right. -/
def classOperation : Walk CharSet := do
  let k ← bracketClass
  loop operandRound k.members

/-! ### Sequences, alternatives and groups -/

section

variable (inner : Walk Pattern)

/-- One construct without its quantifier, given a walk for groups.  What has no
meaning of its own stands for itself. -/
def atom : Walk Pattern := enter .atom do
  match ← char with
  | none => failHere .repetitionMissing
  | some c =>
    let opts ← options
    if c = '(' then inner
    else if c = '[' then
      let k ← bracketClass
      return .charClass k.set k.negated
    else if c = '\\' then escape
    else if Parser.startsQuantifier [c] then failHere .repetitionMissing
    else if (c = ']' || c = '\x7d') && opts.xmlSchema then failHere .notInXmlSchema
    else
      bump
      return if c = '.' then if opts.xmlSchema then Parser.schemaDot else .dot
        else if c = '^' && !opts.xmlSchema then .anchor .startLine
        else if c = '$' && !opts.xmlSchema then .anchor .endLine
        else .char c

/-- A construct with its quantifier, or the end of a sequence.  The constructs
are collected in reverse. -/
def branchRound (items : List Pattern) : Walk (List Pattern ⊕ Pattern) := do
  skipSpace
  if Parser.continuesBranch (← char).toList then
    let p ← atom inner
    let p ← quantified p
    return .inl (p :: items)
  else return .inr (.seq items.reverse)

/-- A sequence. -/
def branch : Walk Pattern := enter .branch do
  loop (branchRound inner) []

/-- A bar with the sequence after it, or the end of the alternatives, which are
put back in order there. -/
def branchesRound (alternatives : List Pattern) : Walk (List Pattern ⊕ List Pattern) := do
  if (← char) = some '|' then
    bump
    let p ← branch inner
    return .inl (p :: alternatives)
  else return .inr alternatives.reverse

/-- Alternatives with bars between them. -/
def branches : Walk (List Pattern) := enter .branches do
  let p ← branch inner
  loop (branchesRound inner) [p]

/-- The contents of a group or of the whole pattern, which may start with a
change of options. -/
def alternation : Walk Pattern := enter .alternation do
  match ← leadingFlags with
  | none => return .alt (← branches inner)
  | some f => return .modifier f.add f.remove (.alt (← under f (branches inner)))

/-- A lookaround. -/
def look (kind : LookKind) : Walk Pattern := enter .look do
  return .look kind (← alternation inner)

/-- A group with changed options, from the option letters on.  Without a colon
it would be a change for what follows, which cannot stand here. -/
def modifierGroup (start : Nat) : Walk Pattern := enter .modifierGroup do
  let f ← flags
  if f.colon then return .modifier f.add f.remove (← under f (alternation inner))
  else failAt start .flagsMisplaced

/-- The condition of a conditional, after its opening parenthesis, which is at
`start`.  A lookaround is read from the parenthesis on. -/
def condition (start : Nat) : Walk Parser.Condition := do
  match ← char with
  | none => failAt start .conditionInvalid
  | some c =>
    if c.isDigit then
      let n := (← orFailAt start .conditionInvalid decimal).getD 0
      if n = 0 then failAt start .conditionInvalid
      else if (← char) = some ')' then
        bump
        refer n start
        return .group n
      else failAt start .conditionInvalid
    else if c = '?' then
      moveTo start
      match ← inner with
      | .look kind body => return .look (.look kind body)
      | _ => failAt start .conditionInvalid
    else failAt start .conditionInvalid

/-- A conditional, from the parenthesis of its condition on.  It has one branch
or two. -/
def conditional (start : Nat) : Walk Pattern := enter .conditional do
  let conditionStart ← here
  bump
  let c ← condition inner conditionStart
  match ← branches inner with
  | [yes] => return c.choose yes none
  | [yes, no] => return c.choose yes (some no)
  | _ => failAt start .conditionInvalid

def commentEndRound (_ : Unit) : Walk (Unit ⊕ Unit) := do
  match ← char with
  | none => return .inr ()
  | some c =>
    if c = ')' then return .inr ()
    else
      bump
      return .inl ()

/-- The contents of a group after `(?`, without its closing parenthesis.  The
group starts at `start`. -/
def specialGroup (start : Nat) : Walk Pattern := enter .specialGroup do
  match ← char with
  | none => failAt start .groupUnclosed
  | some c =>
    if c = ':' then
      bump
      return .group none (← alternation inner)
    else if c = '=' then
      bump
      look inner .ahead
    else if c = '!' then
      bump
      look inner .notAhead
    else if c = '<' then
      bump
      let d ← char
      if d = some '=' then
        bump
        look inner .behind
      else if d = some '!' then
        bump
        look inner .notBehind
      else failHere (.flagUnknown '<')
    else if c = '>' then
      bump
      return .independent (← alternation inner)
    else if c = '#' then
      loop commentEndRound ()
      return .empty
    else if c = '[' then return .charClass (← classOperation) false
    else if c = '(' then conditional inner start
    else modifierGroup inner start

/-- The contents of a group after its opening parenthesis, which is at `start`. -/
def groupBody (start : Nat) : Walk Pattern := do
  if (← char) = some '?' then
    if (← options).xmlSchema then failHere .notInXmlSchema
    else
      bump
      specialGroup inner start
  else
    let index ← openGroup
    return .group (some index) (← alternation inner)

/-- A group from its opening parenthesis on, given a walk for the groups inside
of it. -/
def groupOf : Walk Pattern := enter .group do
  let start ← here
  let depth ← deepen
  let limit := (← source).nestLimit
  if limit < depth then failHere (.nestedTooDeep limit)
  else
    bump
    let p ← groupBody inner start
    if (← char) = some ')' then
      bump
      surface
      return p
    else failAt start .groupUnclosed

end

/-- A group with at most so many groups around each other. -/
def groupWithin : Nat → Walk Pattern
  | 0 => halt .exhausted
  | levels + 1 => groupOf (groupWithin levels)

/-- The first reference to a group that is not there: no group has the number
zero, or one above the number of groups. -/
def undefined? : Walk (Option (Nat × Nat)) := fun _ σ =>
  .ok (σ.references.find? fun r => r.1 = 0 || r.1 > σ.groups, σ)

/-- A whole text.  It has to end where its contents do, and all references have
to be to groups of the pattern. -/
def whole : Walk Pattern := do
  let p ← alternation (groupWithin (← source).pattern.length)
  if ← isEof then
    match ← undefined? with
    | some (n, start) => failAt start (.groupUndefined n)
    | none => return p
  else failHere .groupUnopened

/-- The pattern that a text denotes under the given options, read by the bytes
of the text. -/
def parse (opts : Options) (text : String) (nestLimit : Nat := defaultNestLimit) :
    Except Halt Pattern :=
  (whole ⟨text.toList, nestLimit⟩ (.initial opts)).map (·.1)

end Cursor

end Regexp.Pattern
