import Regexp.Anchor
import Regexp.CharSet

/-!
# Patterns

A pattern is a tree of constructs.  Any tree is a pattern: sequences may be
nested or hold empty parts, and a reference may name a group that the tree does
not have.  Whoever builds trees by hand may do so, and compiling, printing and
measuring are defined for all of them.

## Normal form

The trees that are read from text are built with `Pattern.seq`, `Pattern.alt`
and `Pattern.literal`, and are simpler than trees need be.  A sequence has at
least two parts, none of them empty and none of them a sequence, and no two
literals stand side by side: the characters of `abc` become one string, which is
compared at once.  `Pattern.seq` comes to this form in two passes.
`Pattern.parts` opens what is nested and drops what is empty, and
`Pattern.joinLiterals` walks over the parts with the characters that are still
to be joined, the last of them first.  A repetition in between keeps literals
apart, since it belongs to the character before it only.

## Main definitions

* `Pattern` — the trees.
* `LookKind` — the four kinds of lookaround.
* `Pattern.seq` — a sequence in normal form, where neighbouring literals are
  joined.
* `Pattern.alt`, `Pattern.literal` — a choice and a literal text.

## Main statements

* `Pattern.forall_mem_joinLiterals` — what holds of all parts and of all
  literals holds when literals are joined.  All facts about trees that are read
  from text go through it.
-/

namespace Regexp

/-- A kind of lookaround: the direction in which the text is looked at, and
whether the body is to match there or not. -/
inductive LookKind where
  | ahead
  | notAhead
  | behind
  | notBehind
  deriving DecidableEq, Repr

namespace LookKind

/-- Whether the text before the offset is looked at. -/
def isBehind : LookKind → Bool
  | behind | notBehind => true
  | ahead | notAhead => false

/-- Whether the lookaround holds when its body does not match. -/
def isNegated : LookKind → Bool
  | notAhead | notBehind => true
  | ahead | behind => false

/-- The characters after `(?` that begin a lookaround of the kind. -/
def sign : LookKind → String
  | ahead => "="
  | notAhead => "!"
  | behind => "<="
  | notBehind => "<!"

end LookKind

/-- A pattern. -/
inductive Pattern where
  /-- Matches nothing but the empty text. -/
  | empty
  /-- One character. -/
  | char (c : Char)
  /-- Several characters in sequence. -/
  | string (chars : List Char)
  /-- Any character, except for line terminators outside of single line mode. -/
  | dot
  /-- A character of a set, or one that is not in it. -/
  | charClass (set : CharSet) (negated : Bool)
  /-- A condition on the offset. -/
  | anchor (a : Anchor)
  /-- Patterns one after the other. -/
  | concat (items : List Pattern)
  /-- One of several patterns, the earlier ones first. -/
  | union (alternatives : List Pattern)
  /-- A pattern several times in sequence, as often or as seldom as possible. -/
  | repetition (body : Pattern) (min : Nat) (max : Option Nat) (greedy : Bool)
  /-- A group, which captures the text it matches if it has an index. -/
  | group (index : Option Nat) (body : Pattern)
  /-- A copy of the text that a group captured. -/
  | backref (group : Nat)
  /-- A condition on the text after or before the offset. -/
  | look (kind : LookKind) (body : Pattern)
  /-- A pattern that keeps to its first way of matching. -/
  | independent (body : Pattern)
  /-- A pattern under changed options. -/
  | modifier (add remove : Options) (body : Pattern)
  /-- A choice by whether a group has captured something. -/
  | ifGroup (group : Nat) (yes : Pattern) (no : Option Pattern)
  /-- A choice by whether a lookaround holds. -/
  | ifLook (test yes : Pattern) (no : Option Pattern)
  deriving Inhabited

namespace Pattern

/-! ### Sequences -/

mutual

/-- The parts of a pattern that is read as a sequence: nested sequences are
opened, and empty parts are dropped. -/
def parts : Pattern → List Pattern
  | .empty => []
  | .concat items => partsOfAll items
  | p => [p]
  termination_by structural p => p

/-- The parts of several patterns in sequence. -/
def partsOfAll : List Pattern → List Pattern
  | [] => []
  | p :: ps => p.parts ++ partsOfAll ps
  termination_by structural ps => ps

end

/-- Pending characters, the last of them first, as one literal in front of other
parts.  A single one is a character and not a string. -/
def consLiteral (pending : List Char) (rest : List Pattern) : List Pattern :=
  match pending with
  | [] => rest
  | [c] => .char c :: rest
  | _ => .string pending.reverse :: rest

/-- The parts of a sequence with neighbouring characters and strings joined into
literals, where the characters `pending` come first, the last of them first. -/
def joinLiterals (pending : List Char) : List Pattern → List Pattern
  | [] => consLiteral pending []
  | .char c :: ps => joinLiterals (c :: pending) ps
  | .string s :: ps => joinLiterals (s.reverse ++ pending) ps
  | p :: ps => consLiteral pending (p :: joinLiterals [] ps)

/-- The sequence of parts, which is no sequence if there are fewer than two. -/
def ofParts : List Pattern → Pattern
  | [] => .empty
  | [p] => p
  | ps => .concat ps

/-- Patterns in sequence, in normal form: without empty parts, without sequences
inside the sequence and with neighbouring literals joined.  Sequences are made
in no other way by a reader, so that two trees for one text do not differ in how
their parts are nested. -/
def seq (items : List Pattern) : Pattern := ofParts (joinLiterals [] (partsOfAll items))

/-- A choice between patterns, which is no choice if there is only one.  Choices
within choices are left as they are. -/
def alt : List Pattern → Pattern
  | [p] => p
  | ps => .union ps

/-- The pattern that matches a text literally. -/
def literal (text : List Char) : Pattern := seq (text.map .char)

/-! ### What holds of all parts -/

section

variable {P : Pattern → Prop} {ps : List Pattern} (hchar : ∀ c, P (.char c))
  (hstring : ∀ s : List Char, 2 ≤ s.length → P (.string s))

include hchar hstring

theorem forall_mem_consLiteral (pending : List Char) (h : ∀ p ∈ ps, P p) :
    ∀ p ∈ consLiteral pending ps, P p := by
  match pending with
  | [] => exact h
  | [c] => exact List.forall_mem_cons.mpr ⟨hchar c, h⟩
  | c :: d :: cs => exact List.forall_mem_cons.mpr ⟨hstring _ (by simp), h⟩

/-- What holds of all parts and of all literals holds when literals are joined. -/
theorem forall_mem_joinLiterals (pending : List Char) (h : ∀ p ∈ ps, P p) :
    ∀ p ∈ joinLiterals pending ps, P p := by
  fun_induction joinLiterals pending ps with
  | case1 pending => exact forall_mem_consLiteral hchar hstring pending h
  | case2 _ _ _ ih | case3 _ _ _ ih => exact ih (List.forall_mem_cons.mp h).2
  | case4 pending _ _ _ _ ih =>
    obtain ⟨hp, hps⟩ := List.forall_mem_cons.mp h
    exact forall_mem_consLiteral hchar hstring pending (List.forall_mem_cons.mpr ⟨hp, ih hps⟩)

end

end Pattern

end Regexp
