import Regexp.CharSet.Fold
import Regexp.Program

/-!
# Programs of patterns

Each pattern is compiled together with the operation that follows it
(`Pattern.emit`), so that a sequence is compiled from its last part to its
first.  An emitter takes the link to what follows and the operations made so
far, `Builder`, and gives the link to its own first operation and the operations
with its own.  Nothing that has been made is changed again, but for one place in
each closure.

## Direction

A lookbehind walks backward over the text, and so does everything in its body.
A sequence in the body is then compiled in the opposite order, and the ends of a
group change places: the operation that is run first records the end of the
group when the walk is backward.  The direction is an argument of `Pattern.emit`
and does not show in the operations, except that each lookaround has its own.

## Repetitions

A repetition with an upper bound is unrolled: `X{2,4}` is compiled like
`XX(X(X)?)?`, with copies of the body (`Emitter.copies`) in front of optional
parts each of which ends in what follows the whole repetition
(`Emitter.optionals`).  A repetition without an upper bound is unrolled up to
its lower bound and ends in a closure.  The place of the closure is taken before
its body is compiled (`Builder.reserve`), because the body leads back to it, and
is filled in afterwards (`Builder.patch`).  A body without operations leads
straight back to the closure (`Emitter.closure`).

`Emitter.repetition` does not look at the body.  It takes any emitter and makes
one of it, so that what is true of repetitions can be shown once, and not for
each kind of body.

## The proof that links go down

`Builder.Extends` is what an emitter does to operations that are linked
downward: it adds linked ones and returns a link to one of them all.  It is
reflexive and transitive, so the lemmas for sequences, alternatives and
repetitions compose it from that of their parts, and `Pattern.emit_linked` is
one induction over patterns with one case for each constructor.
`Program.ofPattern` needs it to make a program at all.

## Main definitions

* `Builder`, `Emitter` — the operations made so far, and ways to add to them.
* `Emitter.repetition` — a repetition of any body.
* `Pattern.emit`, `Pattern.emitSeq`, `Pattern.emitAll` — the operations of
  patterns.
* `Program.ofPattern` — the program of a pattern.
-/

namespace Regexp

/-- The operations made so far, and the number of closures among them.  Links
and numbers of closures that were given out stay as they are while operations
are added. -/
structure Builder where
  ops : Array Op
  closureLen : Nat

namespace Builder

/-- The builder without operations. -/
def empty : Builder := ⟨#[], 0⟩

/-- The link to a new operation, and the operations with the new one.  It comes
after all others. -/
def push (b : Builder) (op : Op) : Link × Builder :=
  (some b.ops.size, { b with ops := b.ops.push op })

/-- The operations with a place taken for a closure that is not known yet.
Until then an operation that never matches stands there. -/
def reserve (b : Builder) : Builder := ⟨b.ops.push .fail, b.closureLen + 1⟩

/-- The operations with another one at an index.  This is done once for each
closure, when its body is known. -/
def patch (b : Builder) (i : Nat) (op : Op) : Builder :=
  { b with ops := b.ops.setIfInBounds i op }

end Builder

/-- A way to add operations that lead to a link.  Patterns are compiled to
emitters, and so are the parts of a repetition. -/
abbrev Emitter := Link → Builder → Link × Builder

namespace Emitter

/-- A body several times in sequence.  The last copy is made first, and each of
the others leads to the one made before it. -/
def copies (body : Emitter) : Nat → Emitter
  | 0, tail, b => (tail, b)
  | n + 1, tail, b =>
    let (link, b) := body tail b
    copies body n link b

/-- A body at most so often, each time within the optional part before, where
`next` follows.  All of the parts can be left for `next`, and the innermost one
is made first. -/
def optionals (body : Emitter) (greedy : Bool) (next : Link) : Nat → Emitter
  | 0, tail, b => (tail, b)
  | n + 1, tail, b =>
    let (child, b) := body tail b
    let (link, b) := b.push (.question child greedy next)
    optionals body greedy next n link b

/-- A body any number of times.  A body without operations leads straight back
to the closure, which then is its own body. -/
def closure (body : Emitter) (greedy : Bool) : Emitter := fun next b =>
  let i := b.ops.size
  let id := b.closureLen
  let (child, b) := body (some i) b.reserve
  (some i, b.patch i (.closure id (child.getD i) greedy next))

/-- A body as often as the bounds of a repetition say: what has to be there, and
behind it what may be. -/
def repetition (body : Emitter) (min : Nat) (max : Option Nat) (greedy : Bool) : Emitter :=
  fun next b =>
    let (tail, b) := match max with
      | some max => optionals body greedy next (max - min) next b
      | none => closure body greedy next b
    copies body min tail b

end Emitter

namespace Pattern

/-- The set that a class operation uses without regard to case, if it is another
one. -/
def foldedSet (set : CharSet) : Option CharSet :=
  if set.caseFold = set then none else some set.caseFold

mutual

/-- The link to the first operation of a pattern that is followed by `next`, and
the operations with those of the pattern.  `reverse` tells that the text will be
walked over backward, as in a lookbehind. -/
def emit (reverse : Bool) : Pattern → Emitter
  | .empty, next, b => (next, b)
  | .char c, next, b => b.push (.atom (.char c) next)
  | .string s, next, b => b.push (.atom (.string s) next)
  | .dot, next, b => b.push (.atom .dot next)
  | .charClass set negated, next, b => b.push (.atom (.range set (foldedSet set) negated) next)
  | .anchor a, next, b => b.push (.atom (.anchor a) next)
  | .backref n, next, b => b.push (.atom (.backref n) next)
  | .concat items, next, b => emitSeq reverse items next b
  | .union alternatives, next, b =>
    let (links, b) := emitAll reverse alternatives next b
    b.push (.union links)
  | .repetition body min max greedy, next, b =>
    Emitter.repetition (emit reverse body) min max greedy next b
  | .group none body, next, b => emit reverse body next b
  | .group (some n) body, next, b =>
    let (first, last) := if reverse then (Edge.stop, Edge.start) else (Edge.start, Edge.stop)
    let (link, b) := b.push (.mark n last next)
    let (link, b) := emit reverse body link b
    b.push (.mark n first link)
  | .look kind body, next, b =>
    let (child, b) := emit kind.isBehind body none b
    b.push (.look kind child next)
  | .independent body, next, b =>
    let (child, b) := emit reverse body none b
    b.push (.independent child next)
  | .modifier add remove body, next, b =>
    let (child, b) := emit reverse body none b
    b.push (.modifier add remove child next)
  | .ifGroup n yes none, next, b =>
    let (yes, b) := emit reverse yes next b
    b.push (.ifGroup n yes next)
  | .ifGroup n yes (some no), next, b =>
    let (yes, b) := emit reverse yes next b
    let (no, b) := emit reverse no next b
    b.push (.ifGroup n yes no)
  | .ifLook test yes none, next, b =>
    let (test, b) := emit reverse test none b
    let (yes, b) := emit reverse yes next b
    b.push (.ifLook test yes next)
  | .ifLook test yes (some no), next, b =>
    let (test, b) := emit reverse test none b
    let (yes, b) := emit reverse yes next b
    let (no, b) := emit reverse no next b
    b.push (.ifLook test yes no)
  termination_by structural p => p

/-- The operations of patterns in sequence, which are made in the order opposite
to that in which they run. -/
def emitSeq (reverse : Bool) : List Pattern → Emitter
  | [], next, b => (next, b)
  | p :: ps, next, b =>
    if reverse then
      let (link, b) := emit reverse p next b
      emitSeq reverse ps link b
    else
      let (link, b) := emitSeq reverse ps next b
      emit reverse p link b
  termination_by structural ps => ps

/-- The links to the first operations of several patterns that are each followed
by `next`. -/
def emitAll (reverse : Bool) : List Pattern → Link → Builder → List Link × Builder
  | [], _, b => ([], b)
  | p :: ps, next, b =>
    let (link, b) := emit reverse p next b
    let (links, b) := emitAll reverse ps next b
    (link :: links, b)
  termination_by structural ps => ps

end

end Pattern

/-! ### Links go down -/

namespace Builder

/-- Whether all operations made so far are linked downward. -/
abbrev Linked (b : Builder) : Prop := Op.AllLinked b.ops b.closureLen

/-- What an emitter does to linked operations: it adds linked ones and returns a
link to one of them all.  This composes, and each lemma about an emitter is
stated with it. -/
structure Extends (b : Builder) (r : Link × Builder) : Prop where
  linked : r.2.Linked
  size_le : b.ops.size ≤ r.2.ops.size
  closureLen_le : b.closureLen ≤ r.2.closureLen
  below : r.1.Below r.2.ops.size

theorem Extends.refl {b : Builder} {next : Link} (h : b.Linked) (hn : next.Below b.ops.size) :
    b.Extends (next, b) := ⟨h, Nat.le_refl _, Nat.le_refl _, hn⟩

theorem Extends.trans {b : Builder} {r s : Link × Builder} (h : b.Extends r)
    (h' : r.2.Extends s) : b.Extends s :=
  ⟨h'.linked, Nat.le_trans h.size_le h'.size_le, Nat.le_trans h.closureLen_le h'.closureLen_le,
    h'.below⟩

theorem push_linked {b : Builder} (op : Op) (h : b.Linked)
    (hop : op.Linked b.ops.size b.ops.size b.closureLen) : b.Extends (b.push op) where
  linked i op' hi := by
    simp only [push, Array.getElem?_push] at hi
    split at hi
    · cases hi
      subst_vars
      exact hop.mono (by simp [push]) (Nat.le_refl _)
    · exact (h i op' hi).mono (by simp [push]) (Nat.le_refl _)
  size_le := by simp [push]
  closureLen_le := Nat.le_refl _
  below i hi := by
    simp only [push, Option.mem_some_iff] at hi
    simp [push, ← hi]

theorem reserve_linked {b : Builder} (h : b.Linked) : b.reserve.Linked := by
  intro i op hi
  simp only [reserve, Array.getElem?_push] at hi
  split at hi
  · cases hi
    trivial
  · exact (h i op hi).mono (by simp [reserve]) (by simp [reserve])

theorem patch_linked {b : Builder} {i : Nat} {op : Op} (h : b.Linked)
    (hop : op.Linked i b.ops.size b.closureLen) : (b.patch i op).Linked := by
  intro j op' hj
  simp only [patch, Array.getElem?_setIfInBounds] at hj
  simp only [patch, Array.size_setIfInBounds]
  split at hj
  · split at hj
    · cases hj
      subst_vars
      exact hop
    · simp at hj
  · exact h j op' hj

end Builder

/-- Whether an emitter keeps operations linked downward, if it is given a link
to one of them. -/
abbrev Emitter.Linked (e : Emitter) : Prop :=
  ∀ next b, Builder.Linked b → Link.Below next b.ops.size → b.Extends (e next b)

namespace Emitter

variable {body : Emitter}

theorem copies_linked (h : body.Linked) (n : Nat) : (copies body n).Linked := by
  intro tail b hb ht
  induction n generalizing tail b with
  | zero => exact .refl hb ht
  | succ n ih =>
    have hx := h tail b hb ht
    exact hx.trans (ih _ _ hx.linked hx.below)

theorem optionals_linked (h : body.Linked) (greedy : Bool) {next : Link} (n : Nat) (tail : Link)
    (b : Builder) (hb : b.Linked) (hn : next.Below b.ops.size) (ht : tail.Below b.ops.size) :
    b.Extends (optionals body greedy next n tail b) := by
  induction n generalizing tail b with
  | zero => exact .refl hb ht
  | succ n ih =>
    have hx := h tail b hb ht
    have hn' := hn.mono hx.size_le
    have hy := Builder.push_linked (.question _ greedy next) hx.linked ⟨hx.below, hn'⟩
    exact hx.trans (hy.trans (ih _ _ hy.linked (hn'.mono hy.size_le) hy.below))

theorem closure_linked (h : body.Linked) (greedy : Bool) : (closure body greedy).Linked := by
  intro next b hb hn
  have hi : Link.Below (some b.ops.size) b.reserve.ops.size := by
    intro i hi
    simp only [Option.mem_some_iff] at hi
    simp [Builder.reserve, ← hi]
  have hx := h _ _ (Builder.reserve_linked hb) hi
  have hsize : b.ops.size < (body (some b.ops.size) b.reserve).2.ops.size :=
    Nat.lt_of_lt_of_le (by simp [Builder.reserve]) hx.size_le
  have hlen : b.closureLen < (body (some b.ops.size) b.reserve).2.closureLen :=
    Nat.lt_of_lt_of_le (by simp [Builder.reserve]) hx.closureLen_le
  refine ⟨Builder.patch_linked hx.linked ⟨hlen, ?_, hn⟩, ?_, ?_, ?_⟩
  · cases hc : (body (some b.ops.size) b.reserve).1 with
    | none => exact hsize
    | some i => exact hx.below i hc
  · simp only [closure, Builder.patch, Array.size_setIfInBounds]
    omega
  · simp only [closure, Builder.patch]
    omega
  · intro i hi
    simp only [closure, Option.mem_some_iff] at hi
    simp only [closure, Builder.patch, Array.size_setIfInBounds]
    omega

theorem repetition_linked (h : body.Linked) (min : Nat) (max : Option Nat) (greedy : Bool) :
    (repetition body min max greedy).Linked := by
  intro next b hb hn
  cases max with
  | none =>
    have hx := closure_linked h greedy next b hb hn
    exact hx.trans (copies_linked h min _ _ hx.linked hx.below)
  | some max =>
    have hx := optionals_linked h greedy (max - min) next b hb hn hn
    exact hx.trans (copies_linked h min _ _ hx.linked hx.below)

end Emitter

namespace Pattern

mutual

theorem emit_linked (reverse : Bool) : (p : Pattern) → (emit reverse p).Linked
  | .empty, next, b, hb, hn => .refl hb hn
  | .char _, next, b, hb, hn => Builder.push_linked _ hb hn
  | .string _, next, b, hb, hn => Builder.push_linked _ hb hn
  | .dot, next, b, hb, hn => Builder.push_linked _ hb hn
  | .charClass _ _, next, b, hb, hn => Builder.push_linked _ hb hn
  | .anchor _, next, b, hb, hn => Builder.push_linked _ hb hn
  | .backref _, next, b, hb, hn => Builder.push_linked _ hb hn
  | .concat items, next, b, hb, hn => emitSeq_linked reverse items next b hb hn
  | .union alternatives, next, b, hb, hn => by
    obtain ⟨hl, hs, hc, hbelow⟩ := emitAll_linked reverse alternatives next b hb hn
    exact .trans ⟨hl, hs, hc, Link.below_none⟩ (r := (none, _)) (Builder.push_linked _ hl hbelow)
  | .repetition body min max greedy, next, b, hb, hn =>
    Emitter.repetition_linked (emit_linked reverse body) min max greedy next b hb hn
  | .group none body, next, b, hb, hn => emit_linked reverse body next b hb hn
  | .group (some n) body, next, b, hb, hn => by
    cases reverse with
    | false =>
      have hx := Builder.push_linked (.mark n .stop next) hb hn
      have hy := emit_linked false body _ _ hx.linked hx.below
      exact hx.trans (hy.trans (Builder.push_linked _ hy.linked hy.below))
    | true =>
      have hx := Builder.push_linked (.mark n .start next) hb hn
      have hy := emit_linked true body _ _ hx.linked hx.below
      exact hx.trans (hy.trans (Builder.push_linked _ hy.linked hy.below))
  | .look kind body, next, b, hb, hn => by
    have hx := emit_linked kind.isBehind body none b hb Link.below_none
    exact hx.trans (Builder.push_linked _ hx.linked ⟨hx.below, hn.mono hx.size_le⟩)
  | .independent body, next, b, hb, hn => by
    have hx := emit_linked reverse body none b hb Link.below_none
    exact hx.trans (Builder.push_linked _ hx.linked ⟨hx.below, hn.mono hx.size_le⟩)
  | .modifier add remove body, next, b, hb, hn => by
    have hx := emit_linked reverse body none b hb Link.below_none
    exact hx.trans (Builder.push_linked _ hx.linked ⟨hx.below, hn.mono hx.size_le⟩)
  | .ifGroup n yes none, next, b, hb, hn => by
    have hx := emit_linked reverse yes next b hb hn
    exact hx.trans (Builder.push_linked _ hx.linked ⟨hx.below, hn.mono hx.size_le⟩)
  | .ifGroup n yes (some no), next, b, hb, hn => by
    have hx := emit_linked reverse yes next b hb hn
    have hy := emit_linked reverse no next _ hx.linked (hn.mono hx.size_le)
    exact hx.trans (hy.trans (Builder.push_linked _ hy.linked
      ⟨hx.below.mono hy.size_le, hy.below⟩))
  | .ifLook test yes none, next, b, hb, hn => by
    have hx := emit_linked reverse test none b hb Link.below_none
    have hn' := hn.mono hx.size_le
    have hy := emit_linked reverse yes next _ hx.linked hn'
    exact hx.trans (hy.trans (Builder.push_linked _ hy.linked
      ⟨hx.below.mono hy.size_le, hy.below, hn'.mono hy.size_le⟩))
  | .ifLook test yes (some no), next, b, hb, hn => by
    have hx := emit_linked reverse test none b hb Link.below_none
    have hn' := hn.mono hx.size_le
    have hy := emit_linked reverse yes next _ hx.linked hn'
    have hz := emit_linked reverse no next _ hy.linked (hn'.mono hy.size_le)
    exact hx.trans (hy.trans (hz.trans (Builder.push_linked _ hz.linked
      ⟨(hx.below.mono hy.size_le).mono hz.size_le, hy.below.mono hz.size_le, hz.below⟩)))
  termination_by structural p => p

theorem emitSeq_linked (reverse : Bool) : (ps : List Pattern) → (emitSeq reverse ps).Linked
  | [], next, b, hb, hn => .refl hb hn
  | p :: ps, next, b, hb, hn => by
    cases reverse with
    | true =>
      have hx := emit_linked true p next b hb hn
      exact hx.trans (emitSeq_linked true ps _ _ hx.linked hx.below)
    | false =>
      have hx := emitSeq_linked false ps next b hb hn
      exact hx.trans (emit_linked false p _ _ hx.linked hx.below)
  termination_by structural ps => ps

theorem emitAll_linked (reverse : Bool) : (ps : List Pattern) → (next : Link) → (b : Builder) →
    b.Linked → next.Below b.ops.size →
    let r := emitAll reverse ps next b
    r.2.Linked ∧ b.ops.size ≤ r.2.ops.size ∧ b.closureLen ≤ r.2.closureLen ∧
      ∀ link ∈ r.1, Link.Below link r.2.ops.size
  | [], next, b, hb, hn => ⟨hb, Nat.le_refl _, Nat.le_refl _, by simp [emitAll]⟩
  | p :: ps, next, b, hb, hn => by
    have hx := emit_linked reverse p next b hb hn
    obtain ⟨hl, hs, hc, hbelow⟩ :=
      emitAll_linked reverse ps next _ hx.linked (hn.mono hx.size_le)
    refine ⟨hl, Nat.le_trans hx.size_le hs, Nat.le_trans hx.closureLen_le hc, ?_⟩
    intro link hlink
    rcases List.mem_cons.mp hlink with rfl | hlink
    · exact hx.below.mono hs
    · exact hbelow link hlink
  termination_by structural ps => ps

end

end Pattern

namespace Program

/-- The operations of a whole pattern, which is read forward and with nothing
behind it. -/
def build (p : Pattern) : Link × Builder := p.emit false none .empty

theorem build_extends (p : Pattern) : Builder.empty.Extends (build p) :=
  Pattern.emit_linked false p none .empty (fun i op h => by simp [Builder.empty] at h)
    Link.below_none

/-- The program of the operations that an emitter has added to none. -/
def ofExtends (r : Link × Builder) (h : Builder.empty.Extends r) : Program where
  ops := r.2.ops
  start := r.1
  closureLen := r.2.closureLen
  linked := h.linked
  start_below := h.below

/-- The program of a pattern. -/
def ofPattern (p : Pattern) : Program := ofExtends (build p) (build_extends p)

end Program

end Regexp
