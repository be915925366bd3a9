import Regexp.Pattern

/-!
# Programs

A program is an array of operations linked by index.  An operation that can be
followed by another one has a link to it, and a missing link is the end of the
program, or of the part of it that another operation runs on its own.  The
bodies of lookarounds, of independent groups and of modifiers are such parts:
they lie in the same array, and end with a missing link of their own.

## Links go down

Every link of an operation goes to one with a smaller index, except for the link
from a closure to its body (`Op.Linked`).  Programs are made from their ends, so
this costs nothing, and it is what all reasoning about runs begins with: a walk
along the links ends, unless it enters closures again and again.  The proof is a
field of `Program`, together with the proof that the first link leads to an
operation, because nothing else can be run.  A closure's body may lie anywhere
in the array, since it is made after the place of the closure has been taken and
leads back to it.

`Atom` collects the operations that read text or test an offset and then go on,
so that the machine has one rule for them all; the other constructors of `Op`
choose a way, record an end of a group, or begin a match within the match.

## What programs tell about matches

`Program.fixedLiteral` and `Program.startsWithDotStar` look at the first
operations only.  A search uses them for shortcuts: a program that consists of
one literal needs no attempts at all, and one that begins with a greedy
repetition of any character need not be tried in the middle of a line.  They are
functions of the program and not of the pattern, because different patterns have
the same program.

## Main definitions

* `Atom` — the operations that read text or test an offset.
* `Op` — the operations.
* `Op.Linked`, `Link.Below` — that links go down.
* `Program` — the operations with the start, and with the proof that they are
  linked downward.
* `Program.fixedLiteral`, `Program.startsWithDotStar` — what the first
  operations say about every match.
* `Program.listing` — a program as text.
-/

namespace Regexp

/-- The index of the operation to go on with, or none at the end of the program
or of a body. -/
abbrev Link := Option Nat

/-- An operation that reads text or tests an offset. -/
inductive Atom where
  /-- One character. -/
  | char (c : Char)
  /-- Several characters in sequence. -/
  | string (chars : List Char)
  /-- A character of a set, or one that is not in it.  Without regard to case
  the set is `folded`, if that is another one. -/
  | range (set : CharSet) (folded : Option CharSet) (negated : Bool)
  /-- Any character, except for line terminators outside of single line mode. -/
  | dot
  /-- A condition on the offset. -/
  | anchor (a : Anchor)
  /-- A copy of the text that a group captured. -/
  | backref (group : Nat)
  deriving DecidableEq

/-- One of the two ends of a group. -/
inductive Edge where
  | start
  | stop
  deriving DecidableEq, Repr

/-- The slot that holds an end of a group. -/
def Edge.slot (group : Nat) : Edge → Nat
  | start => 2 * group
  | stop => 2 * group + 1

/-- An operation.  Operations that lead to a single link have it as their last
argument; a body of its own is named `child`. -/
inductive Op where
  /-- Reads text or tests the offset. -/
  | atom (a : Atom) (next : Link)
  /-- Tries several ways in order; each already leads to what follows. -/
  | union (alternates : List Link)
  /-- Repeats a body that leads back to the closure.  The number tells closures
  apart. -/
  | closure (id child : Nat) (greedy : Bool) (next : Link)
  /-- Tries a body, which leads to what follows, or leaves it out. -/
  | question (child : Link) (greedy : Bool) (next : Link)
  /-- Records an end of a group. -/
  | mark (group : Nat) (edge : Edge) (next : Link)
  /-- Runs a body to decide a lookaround. -/
  | look (kind : LookKind) (child next : Link)
  /-- Runs a body of which only the first match counts. -/
  | independent (child next : Link)
  /-- Runs a body under changed options; only its first match counts. -/
  | modifier (add remove : Options) (child next : Link)
  /-- Chooses by whether a group has captured something. -/
  | ifGroup (group : Nat) (yes no : Link)
  /-- Chooses by whether a body matches. -/
  | ifLook (test yes no : Link)
  /-- Never matches. -/
  | fail
  deriving DecidableEq

namespace Op

/-- The one operation that follows, for operations that have only one.  Those
that choose between several have none. -/
def next : Op → Link
  | atom _ next | closure _ _ _ next | question _ _ next | mark _ _ next | look _ _ next
  | independent _ next | modifier _ _ _ next => next
  | union _ | ifGroup _ _ _ | ifLook _ _ _ | fail => none

/-- The word for an operation in a listing. -/
def word : Op → String
  | atom (.char _) _ => "Char"
  | atom (.string _) _ => "String"
  | atom (.range _ _ _) _ => "Range"
  | atom .dot _ => "Dot"
  | atom (.anchor _) _ => "Anchor"
  | atom (.backref _) _ => "Backref"
  | union _ => "Union"
  | closure _ _ _ _ => "Closure"
  | question _ _ _ => "Question"
  | mark _ .start _ => "CaptureStart"
  | mark _ .stop _ => "CaptureEnd"
  | look _ _ _ => "Look"
  | independent _ _ => "Independent"
  | modifier _ _ _ _ => "Modifier"
  | ifGroup _ _ _ | ifLook _ _ _ => "Condition"
  | fail => "Fail"

end Op

/-! ### Links -/

/-- Whether a link goes to an operation below an index, if it goes anywhere.  A
missing link is below every index, since it leads nowhere. -/
abbrev Link.Below (link : Link) (n : Nat) : Prop := ∀ i ∈ link, i < n

/-- Whether the links of the operation with index `i` go down, among `size`
operations and `closureLen` closures; only a closure's body may lie anywhere.
The body of a lookaround or of a group goes down as well. -/
def Op.Linked (i size closureLen : Nat) : Op → Prop
  | .atom _ next | .mark _ _ next => Link.Below next i
  | .union alternates => ∀ link ∈ alternates, Link.Below link i
  | .closure id child _ next => id < closureLen ∧ child < size ∧ Link.Below next i
  | .question child _ next | .look _ child next | .independent child next
  | .modifier _ _ child next => Link.Below child i ∧ Link.Below next i
  | .ifGroup _ yes no => Link.Below yes i ∧ Link.Below no i
  | .ifLook test yes no => Link.Below test i ∧ Link.Below yes i ∧ Link.Below no i
  | .fail => True

/-- Whether all operations are linked downward. -/
abbrev Op.AllLinked (ops : Array Op) (closureLen : Nat) : Prop :=
  ∀ (i : Nat) (op : Op), ops[i]? = some op → op.Linked i ops.size closureLen

theorem Link.below_none {n : Nat} : Link.Below none n := nofun

theorem Link.below_some {i n : Nat} (h : i < n) : Link.Below (some i) n := by
  intro j hj
  cases hj
  exact h

theorem Op.Linked.mono {op : Op} {i size size' closureLen closureLen' : Nat}
    (h : op.Linked i size closureLen) (hs : size ≤ size') (hc : closureLen ≤ closureLen') :
    op.Linked i size' closureLen' := by
  cases op with
  | closure id child greedy next =>
    obtain ⟨h₁, h₂, h₃⟩ := h
    exact ⟨by omega, by omega, h₃⟩
  | _ => exact h

theorem Link.Below.mono {link : Link} {m n : Nat} (h : link.Below m) (hmn : m ≤ n) :
    link.Below n := fun i hi => Nat.lt_of_lt_of_le (h i hi) hmn

/-- A program: its operations, the first one to run, and the number of its
closures.  The proofs that it carries are what the machine needs in order not to
get stuck at a link. -/
structure Program where
  ops : Array Op
  start : Link
  closureLen : Nat
  linked : Op.AllLinked ops closureLen
  start_below : Link.Below start ops.size

namespace Program

/-- The number of indices that operations can have, and the number of indices of
closures. -/
def indexLimit : Nat := 0xFFFFFFFF

/-- A number as an index, if there are so many. -/
def index? (n : Nat) : Option Nat := if n < indexLimit then some n else none

/-- The literal that is the whole program, if it is one: a single operation that
reads characters and leads to the end. -/
def fixedLiteral (p : Program) : Option (List Char) :=
  match p.start.bind (p.ops[·]?) with
  | some (.atom (.char c) none) => some [c]
  | some (.atom (.string chars) none) => some chars
  | _ => none

/-- Whether the program begins with a greedy repetition of any character.  Its
closure has to come first, and the body has to lead straight back to it. -/
def startsWithDotStar (p : Program) : Bool :=
  match p.start.bind (p.ops[·]?) with
  | some (.closure _ child true _) =>
    match p.ops[child]? with
    | some (.atom .dot next) => next = p.start
    | _ => false
  | _ => false

/-- The line of a listing for an operation: a mark at the first operation of the
program, the index in six digits and the word for the operation. -/
def listingLine (p : Program) (i : Nat) (op : Op) : String :=
  let digits := toString i
  let zeros := String.ofList (List.replicate (6 - digits.length) '0')
  (if p.start = some i then ">" else " ") ++ zeros ++ digits ++ ": " ++ op.word

/-- The lines of a program's listing: a head, a line for each operation, and the
number of closures. -/
def listing (p : Program) : List String :=
  ["backtrack::Program("] ++ (p.ops.toList.zipIdx.map fun (op, i) => p.listingLine i op) ++
    ["closures: " ++ toString p.closureLen, ")"]

end Program

end Regexp
