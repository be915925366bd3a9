import Regexp.Pattern.Parser.Escape

/-!
# Bracketed classes

A class lists characters, ranges, escapes and named classes in brackets.  A
class in brackets may be taken away from it at its end, and such a class may
have one taken away from it in turn; this is the only way in which classes nest,
and the text gets shorter with each bracket.

Whether a class is negated is kept apart from its set, `BracketClass`, because a
class on its own is compiled with the set as it is written, while a class that
is an operand of another operation takes part with the characters that it has
(`BracketClass.members`).

A hyphen makes a range only behind a character.  In front of a bracket, at the
end of the pattern and behind a set it stands for itself (`Parser.startsRange`);
a range that ends with a set, or with a smaller character than it begins with,
is refused (`Parser.classRange`).

## Main definitions

* `BracketClass` — the set of a class and whether it is negated.
* `Parser.classItems` — the items of a class.
* `Parser.bracketClass` — reads a class from its bracket on.
* `Parser.classOperation` — reads several classes with operators between them.
-/

namespace Regexp.Pattern.Parser

/-- A class as it is written: a set of characters, or all others.  The caret is
kept apart from the set, because without regard to case the set is folded before
the complement is taken. -/
structure BracketClass where
  set : CharSet
  negated : Bool

/-- The set of the characters that a class has. -/
def BracketClass.members (k : BracketClass) : CharSet := if k.negated then k.set.compl else k.set

/-- A character or a set of characters in a class. -/
inductive ClassItem where
  | char (c : Char)
  | set (s : CharSet)

/-- One item of a class. -/
def classItem (opts : Options) (s : List Char) : Reads ClassItem s :=
  match s with
  | [] => fail .classUnclosed s
  | '\\' :: rest =>
    if rest.isEmpty then fail .escapeUnfinished s
    else do
      match ← classEscape opts rest with
      | some r => .ok (r.map .set).behind
      | none =>
        let r ← charEscape opts s rest
        .ok (r.map .char).behind
  | c :: _ => .ok (.one (.char c))

/-- Whether a text goes on with a hyphen that makes a range, which one before a
bracket and one at the end of the pattern do not. -/
def startsRange : List Char → Bool
  | '-' :: c :: _ => c ≠ ']' && c ≠ '['
  | _ => false

/-- One item of a class, or a range between two characters.  A set, such as that
of a property, cannot be the end of a range, and behind one a hyphen is an item
of its own. -/
def classRange (opts : Options) (s : List Char) : Reads CharSet s := do
  let ⟨item, rest, h⟩ ← classItem opts s
  match item with
  | .set set => .ok ⟨set, rest, h⟩
  | .char lo =>
    if startsRange rest then
      match rest, h with
      | [], h => .ok ⟨.single lo, [], h⟩
      | _ :: rest, h =>
        let ⟨item, rest, h'⟩ ← classItem opts rest
        match item with
        | .set _ => fail .rangeEndNotChar s
        | .char hi =>
          if hi < lo then fail .rangeReversed s
          else .ok ⟨.ofRange (.ofEnds lo hi), rest, by
            simp only [List.length_cons] at h
            omega⟩
    else .ok ⟨.single lo, rest, h⟩

/-- The ASCII characters of a named class. -/
def posixRanges? (name : List Char) : Option (List (Char × Char)) :=
  match String.ofList name with
  | "alnum" => some [('0', '9'), ('A', 'Z'), ('a', 'z')]
  | "alpha" => some [('A', 'Z'), ('a', 'z')]
  | "ascii" => some [('\x00', '\x7F')]
  | "blank" => some [('\t', '\t'), (' ', ' ')]
  | "cntrl" => some [('\x00', '\x1F'), ('\x7F', '\x7F')]
  | "digit" => some [('0', '9')]
  | "graph" => some [('!', '~')]
  | "lower" => some [('a', 'z')]
  | "print" => some [(' ', '~')]
  | "punct" => some [('!', '/'), (':', '@'), ('[', '\x60'), ('\x7b', '~')]
  | "space" => some [('\t', '\r'), (' ', ' ')]
  | "upper" => some [('A', 'Z')]
  | "word" => some [('0', '9'), ('A', 'Z'), ('_', '_'), ('a', 'z')]
  | "xdigit" => some [('0', '9'), ('A', 'F'), ('a', 'f')]
  | _ => none

/-- A named class between `[:` and `:]`, where a caret before the name stands
for the complement.  The text starts after `[:`, and `start` is the text from
there on, to which a failure points. -/
def posixClass (start s : List Char) : Reads CharSet s :=
  match splitAfter ':' ']' s with
  | none => fail .posixUnknown start
  | some r =>
    let (negated, name) :=
      match r.value with
      | '^' :: name => (true, name)
      | name => (false, name)
    match posixRanges? name with
    | none => fail .posixUnknown start
    | some ranges =>
      let set := asciiSet ranges
      .ok (r.map fun _ => if negated then set.compl else set)

/-- The text after a caret, if there is one. -/
def afterCaret (s : List Char) : Scanned Bool s :=
  match s with
  | '^' :: _ => .one true
  | _ => .none false

/-- The items of a class up to its closing bracket, added to those in `set`.
The text from the opening bracket on is `start`; `first` tells that no item has
been read, so that a bracket in the first place stands for itself outside of the
dialect of XML Schema. -/
def classItems (opts : Options) (start : List Char) (negated : Bool) (s : List Char)
    (first : Bool) (set : CharSet) : Reads BracketClass s :=
  match s with
  | [] => fail .classUnclosed start
  | c :: rest =>
    if c = ']' && first && opts.xmlSchema then fail .classEmpty s
    else if c = ']' && !first then .ok (.one ⟨set, negated⟩)
    else if c = '-' && rest.head? = some '[' then
      if first then fail .classEmpty s
      else
        match rest with
        | [] => fail .classUnclosed start
        | bracket :: body => do
          let ⟨otherNegated, items, h⟩ := afterCaret body
          let r ← classItems opts (bracket :: body) otherNegated items true .empty
          match r.closedBy ']' with
          | some r =>
            let own := BracketClass.members ⟨set, negated⟩
            .ok ((r.map fun other => ⟨own.diff other.members, false⟩).after h).behind.behind
          | none => fail .classUnclosed start
    else if c = '[' && opts.xmlSchema then fail .notInXmlSchema s
    else if c = '[' && rest.head? = some ':' then
      match rest with
      | [] => fail .classUnclosed start
      | _ :: body => do
        let ⟨named, rest, h⟩ ← posixClass s body
        let r ← classItems opts start negated rest false (set.union named)
        .ok (r.after (by
          simp only [List.length_cons]
          omega))
    else if c = ',' && opts.commaSeparates then do
      let r ← classItems opts start negated rest false set
      .ok r.behind
    else do
      let ⟨more, rest, h⟩ ← classRange opts (c :: rest)
      let r ← classItems opts start negated rest false (set.union more)
      .ok (r.after (Nat.le_of_lt h))
  termination_by s.length
  decreasing_by
    all_goals simp only [List.length_cons] at *; omega

/-- A class, read from its opening bracket on. -/
def bracketClass (opts : Options) (s : List Char) : Reads BracketClass s :=
  match s with
  | [] => fail .classUnclosed s
  | bracket :: body => do
    let ⟨negated, items, h⟩ := afterCaret body
    let r ← classItems opts (bracket :: body) negated items true .empty
    .ok (r.after (Nat.le_succ_of_le h))

/-- An operation between classes, by the character that stands for it. -/
def classOperator? (c : Char) : Option (CharSet → CharSet → CharSet) :=
  match c with
  | '-' => some CharSet.diff
  | '+' => some CharSet.union
  | '&' => some CharSet.inter
  | _ => none

/-- The further operands of an operation on classes, up to a closing
parenthesis.  Operations are carried out from left to right. -/
def classOperands (opts : Options) (s : List Char) (set : CharSet) : Scans CharSet s :=
  match s with
  | ')' :: _ => .ok (.none set)
  | c :: '[' :: body =>
    match classOperator? c with
    | none => fail .classOperationInvalid (c :: '[' :: body)
    | some op => do
      let ⟨other, rest, h⟩ ← bracketClass opts ('[' :: body)
      let r ← classOperands opts rest (op set other.members)
      .ok ⟨r.value, r.rest, by
        have := r.le
        simp only [List.length_cons] at h ⊢
        omega⟩
  | c :: rest =>
    fail .classOperationInvalid (if (classOperator? c).isSome then rest else c :: rest)
  | [] => fail .classOperationInvalid []
  termination_by s.length
  decreasing_by
    simp only [List.length_cons] at *
    omega

/-- Classes with operators between them, up to a closing parenthesis, as the set
of the characters of the result. -/
def classOperation (opts : Options) (s : List Char) : Scans CharSet s := do
  let ⟨k, rest, h⟩ ← bracketClass opts s
  let r ← classOperands opts rest k.members
  .ok (r.following h).toScanned

end Regexp.Pattern.Parser
