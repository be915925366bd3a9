import Mathlib.Data.Set.Insert
import Regexp.Program.Compile

/-!
# How programs grow

What holds of the operations that a pattern is compiled to, wherever in a larger
pattern it stands.  The statements are about whole programs: no two closures
have the same number, each operation belongs to the body of one other operation
or to none, each operation was emitted by some part of the pattern.  But they
hold because of the order in which an emitter works, and can only be shown by
following it.

## Following an emitter once

`Builder.Grows` lists the ways in which operations are added: one operation, an
operation behind the body that it has, a closure around its body.
`Pattern.emit_grows` is the one induction over patterns, and says that a pattern
adds operations in these ways only.  Each of the statements above is then an
induction on `Builder.Grows`, with three cases, and a change to how some
construct is compiled touches `Pattern.emit_grows` alone.

A set of links is carried along: those that are in scope, which lead to
operations of the same body.  A body begins with an empty scope, and after it
the scope is what it was before.  This is all that is needed to give each
operation an owner (`Builder.Grows.exists_owns`).

What is known of an operation when it is emitted may be any predicate, which may
also depend on the builders between which the body was made.  `Pattern.Emits` is
the strongest one: it names the part of the pattern that has emitted the
operation.

## Features

`Feature` is what a pattern, or an operation, asks of a machine beyond reading
text and trying branches:  lookarounds, references, and so on.  Classes of
patterns are described by the features that they may have (`Pattern.IsPlain`),
and `Program.feature_mem` takes a condition on the pattern to its operations.

## Main definitions

* `Feature`, `Pattern.features` — what a pattern asks of a machine beyond
  reading text.
* `Pattern.Emits` — an operation, and the part of a pattern that emits it.
* `Builder.Grows` — the ways in which operations are added.
* `Program.Owned` — an owner for each operation: the operation in whose body it
  lies.

## Main statements

* `Pattern.emit_grows` — a pattern adds operations in these ways only.
* `Program.closure_unique` — no two closures have the same number.
* `Program.exists_owned` — the operations of a program have owners.
* `Program.exists_part` — a part of the pattern emits an operation.
-/

namespace Regexp

/-! ### Features -/

/-- What a pattern or an operation asks of a machine beyond reading text and
trying branches.  Patterns are classified by these, and programs need no others
than their patterns do. -/
inductive Feature where
  /-- A copy of what a group captured. -/
  | reference (group : ℕ)
  /-- A choice by whether a group captured something. -/
  | groupTest (group : ℕ)
  /-- A lookaround. -/
  | lookaround
  /-- A choice by whether a body matches. -/
  | conditional
  /-- A body that keeps to its first way of matching. -/
  | independent
  /-- A body under changed options. -/
  | modifier
  deriving DecidableEq

/-- The feature that an operation needs, if it needs one.  Operations that read,
test, choose or record need none. -/
def Op.feature? : Op → Option Feature
  | atom (.backref group) _ => some (.reference group)
  | ifGroup group _ _ => some (.groupTest group)
  | look _ _ _ => some .lookaround
  | ifLook _ _ _ => some .conditional
  | independent _ _ => some .independent
  | modifier _ _ _ _ => some .modifier
  | _ => none

namespace Pattern

mutual

/-- The features that a pattern needs, in the order of its parts.  A feature
that is needed twice is listed twice. -/
def features : Pattern → List Feature
  | .backref n => [.reference n]
  | .concat items => featuresAll items
  | .union alternatives => featuresAll alternatives
  | .repetition body _ _ _ => features body
  | .group _ body => features body
  | .look _ body => .lookaround :: features body
  | .independent body => .independent :: features body
  | .modifier _ _ body => .modifier :: features body
  | .ifGroup n yes none => .groupTest n :: features yes
  | .ifGroup n yes (some no) => .groupTest n :: (features yes ++ features no)
  | .ifLook test yes none => .conditional :: (features test ++ features yes)
  | .ifLook test yes (some no) => .conditional :: (features test ++ features yes ++ features no)
  | _ => []
  termination_by structural p => p

/-- The features that several patterns need. -/
def featuresAll : List Pattern → List Feature
  | [] => []
  | p :: ps => features p ++ featuresAll ps
  termination_by structural ps => ps

end

/-- Whether a pattern only reads text, tests offsets, repeats, groups and offers
choices. -/
def IsPlain (p : Pattern) : Prop := p.features = []

mutual

/-- The parts of a pattern, with the pattern itself.  A part that occurs twice
is listed twice. -/
def subpatterns : Pattern → List Pattern
  | .concat items => .concat items :: subpatternsAll items
  | .union alternatives => .union alternatives :: subpatternsAll alternatives
  | .repetition body min max greedy => .repetition body min max greedy :: subpatterns body
  | .group index body => .group index body :: subpatterns body
  | .look kind body => .look kind body :: subpatterns body
  | .independent body => .independent body :: subpatterns body
  | .modifier add remove body => .modifier add remove body :: subpatterns body
  | .ifGroup n yes none => .ifGroup n yes none :: subpatterns yes
  | .ifGroup n yes (some no) => .ifGroup n yes (some no) :: (subpatterns yes ++ subpatterns no)
  | .ifLook test yes none => .ifLook test yes none :: (subpatterns test ++ subpatterns yes)
  | .ifLook test yes (some no) =>
    .ifLook test yes (some no) :: (subpatterns test ++ subpatterns yes ++ subpatterns no)
  | p => [p]
  termination_by structural p => p

/-- The parts of several patterns. -/
def subpatternsAll : List Pattern → List Pattern
  | [] => []
  | p :: ps => subpatterns p ++ subpatternsAll ps
  termination_by structural ps => ps

end

/-- The parts of one of several patterns are parts of them all. -/
theorem subpatterns_subset_all {p : Pattern} {ps : List Pattern} (h : p ∈ ps) :
    p.subpatterns ⊆ subpatternsAll ps := by
  induction ps with
  | nil => cases h
  | cons q ps ih =>
    rcases List.mem_cons.mp h with rfl | h
    · exact List.subset_append_left _ _
    · exact List.subset_append_of_subset_right _ (ih h)

/-- What holds of the parts of each of several patterns holds of all their
parts. -/
theorem forall_mem_subpatternsAll {P : Pattern → Prop} {ps : List Pattern}
    (h : ∀ p ∈ ps, ∀ q ∈ p.subpatterns, P q) : ∀ q ∈ subpatternsAll ps, P q := by
  induction ps with
  | nil => nofun
  | cons p ps ih =>
    obtain ⟨hp, hps⟩ := List.forall_mem_cons.mp h
    exact List.forall_mem_append.mpr ⟨hp, ih hps⟩

mutual

/-- A part of a pattern needs no more features, so what is known of the features
of the whole holds for the part. -/
theorem features_subset : (p : Pattern) → ∀ q ∈ p.subpatterns, q.features ⊆ p.features
  | .empty | .char _ | .string _ | .dot | .charClass _ _ | .anchor _ | .backref _ =>
    List.forall_mem_singleton.mpr (List.Subset.refl _)
  | .concat items => List.forall_mem_cons.mpr ⟨List.Subset.refl _, featuresAll_subset items⟩
  | .union alternatives =>
    List.forall_mem_cons.mpr ⟨List.Subset.refl _, featuresAll_subset alternatives⟩
  | .repetition body _ _ _ | .group _ body =>
    List.forall_mem_cons.mpr ⟨List.Subset.refl _, features_subset body⟩
  | .look _ body | .independent body | .modifier _ _ body | .ifGroup _ body none =>
    List.forall_mem_cons.mpr ⟨List.Subset.refl _, fun q hq =>
      List.Subset.trans (features_subset body q hq) (List.subset_cons_self _ _)⟩
  | .ifGroup _ yes (some no) =>
    List.forall_mem_cons.mpr ⟨List.Subset.refl _, List.forall_mem_append.mpr
      ⟨fun q hq f hf => by simp [features, features_subset yes q hq hf],
        fun q hq f hf => by simp [features, features_subset no q hq hf]⟩⟩
  | .ifLook test yes none =>
    List.forall_mem_cons.mpr ⟨List.Subset.refl _, List.forall_mem_append.mpr
      ⟨fun q hq f hf => by simp [features, features_subset test q hq hf],
        fun q hq f hf => by simp [features, features_subset yes q hq hf]⟩⟩
  | .ifLook test yes (some no) =>
    List.forall_mem_cons.mpr ⟨List.Subset.refl _, List.forall_mem_append.mpr
      ⟨List.forall_mem_append.mpr
        ⟨fun q hq f hf => by simp [features, features_subset test q hq hf],
          fun q hq f hf => by simp [features, features_subset yes q hq hf]⟩,
        fun q hq f hf => by simp [features, features_subset no q hq hf]⟩⟩
  termination_by structural p => p

theorem featuresAll_subset : (ps : List Pattern) →
    ∀ q ∈ subpatternsAll ps, q.features ⊆ featuresAll ps
  | [] => fun _ hq => absurd hq List.not_mem_nil
  | p :: ps =>
    List.forall_mem_append.mpr
      ⟨fun q hq => List.Subset.trans (features_subset p q hq) (List.subset_append_left _ _),
        fun q hq => List.Subset.trans (featuresAll_subset ps q hq) (List.subset_append_right _ _)⟩
  termination_by structural ps => ps

end

/-- Whether a part of a pattern emits an operation itself.  If the operation has
a body of its own, then the body was made between two builders.  A part may emit
several operations, as a repetition does, or none. -/
inductive Emits (b b' : Builder) : Pattern → Op → Prop
  | char {c next} : Emits b b' (.char c) (.atom (.char c) next)
  | string {cs next} : Emits b b' (.string cs) (.atom (.string cs) next)
  | dot {next} : Emits b b' .dot (.atom .dot next)
  | charClass {set negated next} :
    Emits b b' (.charClass set negated) (.atom (.range set (foldedSet set) negated) next)
  | anchor {a next} : Emits b b' (.anchor a) (.atom (.anchor a) next)
  | backref {group next} : Emits b b' (.backref group) (.atom (.backref group) next)
  | union {ps links} : Emits b b' (.union ps) (.union links)
  | question {body min max greedy child next} :
    Emits b b' (.repetition body min max greedy) (.question child greedy next)
  | closure {body min max greedy id child next} :
    Emits b b' (.repetition body min max greedy) (.closure id child greedy next)
  | mark {group body edge next} : Emits b b' (.group (some group) body) (.mark group edge next)
  | ifGroup {group yes no link link'} :
    Emits b b' (.ifGroup group yes no) (.ifGroup group link link')
  | look {kind body child next} (h : emit kind.isBehind body none b = (child, b')) :
    Emits b b' (.look kind body) (.look kind child next)
  | independent {reverse body child next} (h : emit reverse body none b = (child, b')) :
    Emits b b' (.independent body) (.independent child next)
  | modifier {reverse add remove body child next} (h : emit reverse body none b = (child, b')) :
    Emits b b' (.modifier add remove body) (.modifier add remove child next)
  | ifLook {reverse test yes no child link link'} (h : emit reverse test none b = (child, b')) :
    Emits b b' (.ifLook test yes no) (.ifLook child link link')

/-- A part that emits an operation has the feature of the operation.  Parts emit
nothing on behalf of others. -/
theorem Emits.feature_mem {b b' : Builder} {q : Pattern} {op : Op} {f : Feature}
    (h : Emits b b' q op) (hf : op.feature? = some f) : f ∈ q.features := by
  cases h with
  | ifGroup =>
    rename_i no _ _
    cases hf
    cases no <;> exact List.mem_cons_self
  | ifLook =>
    rename_i no _ _ _ _
    cases hf
    cases no <;> exact List.mem_cons_self
  | backref | look | independent | modifier =>
    cases hf
    exact List.mem_cons_self
  | _ => cases hf

/-- Whether an operation was emitted by one of some patterns. -/
def EmittedByOneOf (qs : List Pattern) (b b' : Builder) (op : Op) : Prop :=
  ∃ q ∈ qs, Emits b b' q op

end Pattern

/-! ### Growth -/

namespace Op

/-- The links of an operation to others of the same body.  The link to a body of
its own is not one of them (`child?`), as a path does not go on there. -/
def links : Op → List Link
  | atom _ next | mark _ _ next | look _ _ next | independent _ next | modifier _ _ _ next => [next]
  | union alternates => alternates
  | closure _ child _ next => [some child, next]
  | question child _ next => [child, next]
  | ifGroup _ yes no | ifLook _ yes no => [yes, no]
  | fail => []

/-- The link of an operation to a body of its own.  The body of a closure is
none, as it leads back to the closure. -/
def child? : Op → Option Link
  | look _ child _ | independent child _ | modifier _ _ child _ | ifLook child _ _ => some child
  | _ => none

/-- Whether an operation is a closure. -/
def isClosure : Op → Bool
  | closure _ _ _ _ => true
  | _ => false

end Op

/-- Whether a program has the operations that were added to some of its own, at
the indices at which they were added. -/
def Agrees (ops : Array Op) (b b' : Builder) : Prop :=
  ∀ k, b.ops.size ≤ k → k < b'.ops.size → ops[k]? = b'.ops[k]?

theorem agrees_self {ops : Array Op} {b : Builder} : Agrees ops b b :=
  fun _ hk hlt => absurd hlt hk.not_gt

/-- What agrees with some operations agrees with more of them.  More operations
may be added, and none replaced. -/
theorem Agrees.mono {ops ops' : Array Op} {b b' : Builder}
    (hkeeps : ∀ k < ops.size, ops'[k]? = ops[k]?) (h : Agrees ops b b') : Agrees ops' b b' := by
  intro k hk hlt
  have hsize := (Array.getElem?_eq_some_iff.mp
    ((h k hk hlt).trans (Array.getElem?_eq_getElem hlt))).1
  rw [hkeeps k hsize, h k hk hlt]

namespace Builder

/-- The ways in which operations are added that all satisfy `P`, with the links
that are in scope before and after.  What `P` says of an operation may depend on
the builders between which its body was made. -/
inductive Grows (P : Builder → Builder → Op → Prop) : Set Link → Builder → Set Link → Builder → Prop
  | refl {S b} : Grows P S b S b
  | trans {S b S₁ b₁ S₂ b₂} (h : Grows P S b S₁ b₁) (h' : Grows P S₁ b₁ S₂ b₂) :
    Grows P S b S₂ b₂
  /-- An operation without a body of its own. -/
  | push {S b op} (hP : P b b op) (hlinks : ∀ l ∈ op.links, l ∈ S) (hbody : op.child? = none)
    (hclosure : op.isClosure = false) : Grows P S b (insert (some b.ops.size) S) (b.push op).2
  /-- An operation with a body of its own, which was made first. -/
  | body {S b T b₁ S₁ b₂ op child} (inner : Grows P {none} b T b₁) (hchild : child ∈ T)
    (outer : Grows P S b₁ S₁ b₂) (hP : P b b₁ op) (hlinks : ∀ l ∈ op.links, l ∈ S₁)
    (hbody : op.child? = some child) :
    Grows P S b (insert (some b₂.ops.size) S₁) (b₂.push op).2
  /-- A closure, whose place was taken before its body was made.  Only that
  place is in scope in the body, and nothing else leads into the body. -/
  | closure {S b T b₁ child greedy next}
    (inner : Grows P {some b.ops.size} b.reserve T b₁) (hchild : child ∈ T)
    (hnext : next ∈ S)
    (hP : P b b (.closure b.closureLen (child.getD b.ops.size) greedy next)) :
    Grows P S b (insert (some b.ops.size) S)
      (b₁.patch b.ops.size (.closure b.closureLen (child.getD b.ops.size) greedy next))

namespace Grows

variable {P Q : Builder → Builder → Op → Prop} {S S₁ S₂ T : Set Link} {b b₁ b₂ : Builder}

/-- What the operations satisfy may be weakened.  Most properties are proved of
what was emitted, `EmittedByOneOf`, and follow from it. -/
theorem mono (hPQ : ∀ b b' op, P b b' op → Q b b' op) (h : Grows P S b S₁ b₁) :
    Grows Q S b S₁ b₁ := by
  induction h with
  | refl => exact .refl
  | trans _ _ ih ih' => exact ih.trans ih'
  | push hP hlinks hbody hclosure => exact .push (hPQ _ _ _ hP) hlinks hbody hclosure
  | body _ hchild _ hP hlinks hbody ih ih' => exact .body ih hchild ih' (hPQ _ _ _ hP) hlinks hbody
  | closure _ hchild hnext hP ih => exact .closure ih hchild hnext (hPQ _ _ _ hP)

/-- Links stay in scope.  What can be led to before can be led to afterward. -/
theorem subset (h : Grows P S b S₁ b₁) : S ⊆ S₁ := by
  induction h with
  | refl => exact subset_rfl
  | trans _ _ ih ih' => exact ih.trans ih'
  | push => exact Set.subset_insert _ _
  | body _ _ _ _ _ _ _ ih' => exact ih'.trans (Set.subset_insert _ _)
  | closure => exact Set.subset_insert _ _

end Grows

/-- What is known of the operations that are added: those made before stay,
closures get new numbers, each its own, and all satisfy `P` for builders between
which the same operations were added. -/
structure Added (P : Builder → Builder → Op → Prop) (b b' : Builder) : Prop where
  size_le : b.ops.size ≤ b'.ops.size
  closureLen_le : b.closureLen ≤ b'.closureLen
  keeps : ∀ j < b.ops.size, b'.ops[j]? = b.ops[j]?
  satisfies : ∀ j op, b.ops.size ≤ j → b'.ops[j]? = some op →
    ∃ c c', b.ops.size ≤ c.ops.size ∧ Agrees b'.ops c c' ∧ P c c' op
  numbers : ∀ j id child greedy next, b.ops.size ≤ j →
    b'.ops[j]? = some (.closure id child greedy next) → b.closureLen ≤ id ∧ id < b'.closureLen
  unique : ∀ j j' id child child' greedy greedy' next next', b.ops.size ≤ j → b.ops.size ≤ j' →
    b'.ops[j]? = some (.closure id child greedy next) →
    b'.ops[j']? = some (.closure id child' greedy' next') → j = j'

namespace Added

variable {P : Builder → Builder → Op → Prop} {b b₁ b₂ c c' : Builder}

theorem refl : Added P b b where
  size_le := le_rfl
  closureLen_le := le_rfl
  keeps _ _ := rfl
  satisfies j op hj h := absurd (Array.getElem?_eq_some_iff.mp h).1 (by omega)
  numbers j _ _ _ _ hj h := absurd (Array.getElem?_eq_some_iff.mp h).1 (by omega)
  unique j _ _ _ _ _ _ _ _ hj _ h := absurd (Array.getElem?_eq_some_iff.mp h).1 (by omega)

theorem trans (h : Added P b b₁) (h' : Added P b₁ b₂) : Added P b b₂ where
  size_le := h.size_le.trans h'.size_le
  closureLen_le := h.closureLen_le.trans h'.closureLen_le
  keeps j hj := (h'.keeps j (hj.trans_le h.size_le)).trans (h.keeps j hj)
  satisfies j op hj hop := by
    rcases lt_or_ge j b₁.ops.size with hlt | hge
    · obtain ⟨c, c', hc, hagrees, hP⟩ := h.satisfies j op hj ((h'.keeps j hlt).symm.trans hop)
      exact ⟨c, c', hc, hagrees.mono h'.keeps, hP⟩
    · obtain ⟨c, c', hc, hagrees, hP⟩ := h'.satisfies j op hge hop
      exact ⟨c, c', h.size_le.trans hc, hagrees, hP⟩
  numbers j id child greedy next hj hop := by
    have := h.closureLen_le
    have := h'.closureLen_le
    rcases lt_or_ge j b₁.ops.size with hlt | hge
    · have := h.numbers j _ _ _ _ hj ((h'.keeps j hlt).symm.trans hop)
      omega
    · have := h'.numbers j _ _ _ _ hge hop
      omega
  unique j j' id child child' greedy greedy' next next' hj hj' hop hop' := by
    rcases lt_or_ge j b₁.ops.size with hlt | hge <;> rcases lt_or_ge j' b₁.ops.size with hlt' | hge'
    · exact h.unique j j' _ _ _ _ _ _ _ hj hj' ((h'.keeps j hlt).symm.trans hop)
        ((h'.keeps j' hlt').symm.trans hop')
    · have := h.numbers j _ _ _ _ hj ((h'.keeps j hlt).symm.trans hop)
      have := h'.numbers j' _ _ _ _ hge' hop'
      omega
    · have := h'.numbers j _ _ _ _ hge hop
      have := h.numbers j' _ _ _ _ hj' ((h'.keeps j' hlt').symm.trans hop')
      omega
    · exact h'.unique j j' _ _ _ _ _ _ _ hge hge' hop hop'

/-- One more operation, whose body is among those that were made so far. -/
theorem snoc {op : Op} (h : Added P b b₁) (hP : P c c' op) (hc : b.ops.size ≤ c.ops.size)
    (hagrees : Agrees b₁.ops c c') (hclosure : op.isClosure = false) :
    Added P b (b₁.push op).2 := by
  have hold : ∀ j < b₁.ops.size, (b₁.push op).2.ops[j]? = b₁.ops[j]? := by
    intro j hj
    simp only [Builder.push, Array.getElem?_push]
    rw [if_neg (by omega)]
  have hcases : ∀ (j : ℕ) (op' : Op), (b₁.push op).2.ops[j]? = some op' →
      b₁.ops[j]? = some op' ∨ op' = op := by
    intro j op' hop
    simp only [Builder.push, Array.getElem?_push] at hop
    split at hop
    · exact .inr (Option.some.inj hop).symm
    · exact .inl hop
  -- Only an operation that is a closure has a number, and the new one is none.
  have hclosures : ∀ {j id child : ℕ} {greedy : Bool} {next : Link},
      (b₁.push op).2.ops[j]? = some (.closure id child greedy next) →
        b₁.ops[j]? = some (.closure id child greedy next) := by
    intro j id child greedy next hop
    refine (hcases j _ hop).resolve_right ?_
    rintro rfl
    cases hclosure
  refine ⟨h.size_le.trans (by simp [Builder.push]), h.closureLen_le, ?_, ?_, ?_, ?_⟩
  · intro j hj
    rw [hold j (hj.trans_le h.size_le), h.keeps j hj]
  · intro j op' hj hop
    rcases hcases j op' hop with hop | rfl
    · obtain ⟨d, d', hd, hagrees', hP'⟩ := h.satisfies j op' hj hop
      exact ⟨d, d', hd, hagrees'.mono hold, hP'⟩
    · exact ⟨c, c', hc, hagrees.mono hold, hP⟩
  · intro j id child greedy next hj hop
    exact h.numbers j id child greedy next hj (hclosures hop)
  · intro j j' id child child' greedy greedy' next next' hj hj' hop hop'
    exact h.unique j j' id _ _ _ _ _ _ hj hj' (hclosures hop) (hclosures hop')

theorem push {op : Op} (hP : P b b op) (hclosure : op.isClosure = false) :
    Added P b (b.push op).2 := refl.snoc hP le_rfl agrees_self hclosure

theorem closure {child : ℕ} {greedy : Bool} {next : Link} (h : Added P b.reserve b₁)
    (hP : P b b (.closure b.closureLen child greedy next)) :
    Added P b (b₁.patch b.ops.size (.closure b.closureLen child greedy next)) := by
  have hsize : b.ops.size < b₁.ops.size := by
    have := h.size_le
    simp only [reserve, Array.size_push] at this
    omega
  have hlen : b.closureLen < b₁.closureLen := h.closureLen_le
  -- An operation at or behind the closure's place is the closure, or it was made for its body.
  have hcases : ∀ j op, b.ops.size ≤ j →
      (b₁.patch b.ops.size (.closure b.closureLen child greedy next)).ops[j]? = some op →
      j = b.ops.size ∧ op = .closure b.closureLen child greedy next ∨
        b.reserve.ops.size ≤ j ∧ b₁.ops[j]? = some op := by
    intro j op hj hop
    simp only [patch, Array.getElem?_setIfInBounds] at hop
    rcases hj.eq_or_lt with rfl | hlt
    · rw [if_pos rfl, if_pos hsize] at hop
      exact .inl ⟨rfl, (Option.some.inj hop).symm⟩
    · rw [if_neg (by omega)] at hop
      exact .inr ⟨by simp only [reserve, Array.size_push]; omega, hop⟩
  refine ⟨by simpa [patch] using hsize.le, hlen.le, ?_, ?_, ?_, ?_⟩
  · intro j hj
    simp only [patch, Array.getElem?_setIfInBounds]
    rw [if_neg (by omega), h.keeps j (by simp [reserve]; omega)]
    simp only [reserve, Array.getElem?_push]
    rw [if_neg (by omega)]
  · intro j op hj hop
    rcases hcases j op hj hop with ⟨-, rfl⟩ | ⟨hj, hop⟩
    · exact ⟨b, b, le_rfl, agrees_self, hP⟩
    · obtain ⟨c, c', hc, hagrees, hP⟩ := h.satisfies j op hj hop
      simp only [reserve, Array.size_push] at hc
      refine ⟨c, c', by omega, fun k hk hlt => ?_, hP⟩
      simp only [patch, Array.getElem?_setIfInBounds]
      rw [if_neg (by omega), hagrees k hk hlt]
  · intro j id child' greedy' next' hj hop
    rcases hcases j _ hj hop with ⟨-, heq⟩ | ⟨hj, hop⟩
    · cases heq
      exact ⟨le_rfl, hlen⟩
    · have := h.numbers j _ _ _ _ hj hop
      simp only [reserve] at this
      exact ⟨by omega, this.2⟩
  · intro j j' id child₁ child₂ greedy₁ greedy₂ next₁ next₂ hj hj' hop hop'
    rcases hcases j _ hj hop with ⟨rfl, heq⟩ | ⟨hj, hop⟩ <;>
      rcases hcases j' _ hj' hop' with ⟨rfl, heq'⟩ | ⟨hj', hop'⟩
    · rfl
    · cases heq
      have := (h.numbers j' _ _ _ _ hj' hop').1
      simp only [reserve] at this
      omega
    · cases heq'
      have := (h.numbers j _ _ _ _ hj hop).1
      simp only [reserve] at this
      omega
    · exact h.unique j j' _ _ _ _ _ _ _ hj hj' hop hop'

end Added

variable {P : Builder → Builder → Op → Prop} {S S₁ : Set Link} {b b₁ : Builder}

/-- What a builder has added, it agrees with. -/
theorem agrees_ops (b b' : Builder) : Agrees b'.ops b b' := fun _ _ _ => rfl

theorem Grows.added (h : Grows P S b S₁ b₁) : Added P b b₁ := by
  induction h with
  | refl => exact .refl
  | trans _ _ ih ih' => exact ih.trans ih'
  | push hP _ _ hclosure => exact .push hP hclosure
  | @body S b T b₁ S₁ b₂ op child _ _ _ hP _ hbody ih ih' =>
    exact (ih.trans ih').snoc hP le_rfl ((agrees_ops b b₁).mono ih'.keeps)
      (by cases op <;> simp_all [Op.child?, Op.isClosure])
  | closure _ _ _ hP ih => exact ih.closure hP

/-! ### Owners -/

/-- Whether the operations from an index on have owners: links lead to
operations of the same owner, and an operation owns the body that it has. -/
def Owns (own : ℕ → ℕ) (first : ℕ) (b : Builder) : Prop :=
  ∀ k op, first ≤ k → b.ops[k]? = some op →
    k < own k ∧ (∀ j, some j ∈ op.links → j < b.ops.size ∧ own j = own k) ∧
      ∀ j, op.child? = some (some j) → j < b.ops.size ∧ own j = k

/-- Whether links lead to operations with the owner `o`, so that a new operation
with these links has it as well. -/
def OwnsScope (own : ℕ → ℕ) (o : ℕ) (S : Set Link) (b : Builder) : Prop :=
  ∀ j, some j ∈ S → j < b.ops.size ∧ own j = o

variable {own own' : ℕ → ℕ} {o first : ℕ} {b₂ : Builder}

theorem Owns.congr (heq : ∀ j < b.ops.size, own' j = own j) (h : b.Owns own first) :
    b.Owns own' first := by
  intro k op hk hop
  obtain ⟨hlt, hlinks, hchild⟩ := h k op hk hop
  have hsize := (Array.getElem?_eq_some_iff.mp hop).1
  refine ⟨by rwa [heq k hsize], fun j hj => ?_, fun j hj => ?_⟩
  · obtain ⟨hjlt, hjown⟩ := hlinks j hj
    exact ⟨hjlt, by rw [heq j hjlt, heq k hsize, hjown]⟩
  · obtain ⟨hjlt, hjown⟩ := hchild j hj
    exact ⟨hjlt, by rw [heq j hjlt, hjown]⟩

theorem Owns.trans (ha : Added P b₁ b₂) (h : b₁.Owns own first) (h' : b₂.Owns own b₁.ops.size) :
    b₂.Owns own first := by
  intro k op hk hop
  rcases lt_or_ge k b₁.ops.size with hlt | hge
  · obtain ⟨hown, hlinks, hchild⟩ := h k op hk ((ha.keeps k hlt).symm.trans hop)
    exact ⟨hown, fun j hj => ⟨(hlinks j hj).1.trans_le ha.size_le, (hlinks j hj).2⟩,
      fun j hj => ⟨(hchild j hj).1.trans_le ha.size_le, (hchild j hj).2⟩⟩
  · exact h' k op hge hop

theorem OwnsScope.mono (ha : Added P b b₁) (heq : ∀ j < b.ops.size, own' j = own j)
    (h : b.OwnsScope own o S) : b₁.OwnsScope own' o S := by
  intro j hj
  obtain ⟨hlt, hown⟩ := h j hj
  exact ⟨hlt.trans_le ha.size_le, by rw [heq j hlt, hown]⟩

theorem OwnsScope.insert {k : ℕ} (h : b.OwnsScope own o S) (hlt : k < b.ops.size)
    (hown : own k = o) : b.OwnsScope own o (insert (some k) S) := by
  rintro j (hj | hj)
  · cases hj
    exact ⟨hlt, hown⟩
  · exact h j hj

/-- An operation that is put into the place kept for it belongs to the owner of
the place. -/
theorem Owns.patch {op : Op} {p : ℕ} (h : b.Owns own (p + 1)) (hp : p < b.ops.size)
    (hown : p < own p) (hlinks : ∀ j, some j ∈ op.links → j < b.ops.size ∧ own j = own p)
    (hchild : op.child? = none) : (b.patch p op).Owns own p := by
  have hsize : (b.patch p op).ops.size = b.ops.size := by simp [Builder.patch]
  intro k op' hk hop
  rw [hsize]
  simp only [Builder.patch, Array.getElem?_setIfInBounds] at hop
  rcases hk.eq_or_lt with rfl | hlt
  · rw [if_pos rfl, if_pos hp] at hop
    cases hop
    exact ⟨hown, hlinks, by simp [hchild]⟩
  · rw [if_neg hlt.ne] at hop
    exact h k op' hlt hop

/-- A new operation that has an owner.  Its body, if it has one, must be owned
by the operation itself. -/
theorem exists_owns_push {op : Op} (hscope : b.OwnsScope own o S) (ho : b.ops.size < o)
    (hlinks : ∀ l ∈ op.links, l ∈ S)
    (hchild : ∀ j, op.child? = some (some j) → j < b.ops.size ∧ own j = b.ops.size) :
    ∃ own', (∀ j < b.ops.size, own' j = own j) ∧
      (b.push op).2.OwnsScope own' o (insert (some b.ops.size) S) ∧
      (b.push op).2.Owns own' b.ops.size := by
  have heq : ∀ j < b.ops.size, Function.update own b.ops.size o j = own j := by
    intro j hj
    rw [Function.update_of_ne (by omega)]
  refine ⟨Function.update own b.ops.size o, heq, ?_, ?_⟩
  · rintro j (hj | hj)
    · cases hj
      simp [Builder.push]
    · obtain ⟨hlt, hown⟩ := hscope j hj
      exact ⟨by simp only [Builder.push, Array.size_push]; omega, by rw [heq j hlt, hown]⟩
  · intro k op' hk hop
    simp only [Builder.push, Array.getElem?_push] at hop
    split at hop
    · subst_vars
      cases hop
      simp only [Builder.push, Array.size_push, Function.update_self]
      refine ⟨ho, fun j hj => ?_, fun j hj => ?_⟩
      · obtain ⟨hlt, hown⟩ := hscope j (hlinks _ hj)
        exact ⟨by omega, by rw [heq j hlt, hown]⟩
      · obtain ⟨hlt, hown⟩ := hchild j hj
        exact ⟨by omega, by rw [heq j hlt, hown]⟩
    · exact absurd (Array.getElem?_eq_some_iff.mp hop).1 (by omega)

/-- The operations that are added get owners, and they belong to the owner of
those that were in scope. -/
theorem Grows.exists_owns (h : Grows P S b S₁ b₁) (own : ℕ → ℕ) (o : ℕ) (ho : b₁.ops.size ≤ o)
    (hscope : b.OwnsScope own o S) :
    ∃ own', (∀ j < b.ops.size, own' j = own j) ∧ b₁.OwnsScope own' o S₁ ∧
      b₁.Owns own' b.ops.size := by
  induction h generalizing own o with
  | refl =>
    refine ⟨own, fun _ _ => rfl, hscope, fun k op hk hop => ?_⟩
    exact absurd (Array.getElem?_eq_some_iff.mp hop).1 (by omega)
  | trans h h' ih ih' =>
    obtain ⟨own₁, heq₁, hscope₁, howns₁⟩ := ih own o (h'.added.size_le.trans ho) hscope
    obtain ⟨own₂, heq₂, hscope₂, howns₂⟩ := ih' own₁ o ho hscope₁
    refine ⟨own₂, fun j hj => ?_, hscope₂, (howns₁.congr heq₂).trans h'.added howns₂⟩
    rw [heq₂ j (hj.trans_le h.added.size_le), heq₁ j hj]
  | push _ hlinks hbody _ =>
    refine exists_owns_push hscope (by simpa [Builder.push, Nat.succ_le_iff] using ho) hlinks ?_
    simp [hbody]
  | @body S b T b₁ S₁ b₂ op child inner hchild outer hP hlinks hbody ih ih' =>
    -- The body belongs to the operation that comes after all of it.
    have hsize : b₁.ops.size ≤ b₂.ops.size := outer.added.size_le
    have ho : b₂.ops.size < o := by simpa [Builder.push, Nat.succ_le_iff] using ho
    obtain ⟨own₁, heq₁, hscope₁, howns₁⟩ := ih own b₂.ops.size hsize (by rintro j (hj | hj))
    obtain ⟨own₂, heq₂, hscope₂, howns₂⟩ :=
      ih' own₁ o ho.le (hscope.mono inner.added heq₁)
    obtain ⟨own₃, heq₃, hscope₃, howns₃⟩ := exists_owns_push hscope₂ ho hlinks (by
      intro j hj
      obtain rfl : child = some j := by simpa [hbody] using hj
      obtain ⟨hlt, hown⟩ := hscope₁ j hchild
      exact ⟨hlt.trans_le hsize, by rw [heq₂ j hlt, hown]⟩)
    refine ⟨own₃, fun j hj => ?_, hscope₃, ?_⟩
    · have hlt := hj.trans_le inner.added.size_le
      rw [heq₃ j (hlt.trans_le hsize), heq₂ j hlt, heq₁ j hj]
    · have hclosure : op.isClosure = false := by cases op <;> simp_all [Op.child?, Op.isClosure]
      exact (((howns₁.congr heq₂).trans outer.added howns₂).congr heq₃).trans
        (.push (P := fun _ _ _ => True) trivial hclosure) howns₃
  | @closure S b T b₁ child greedy next inner hchild hnext hP ih =>
    have hadded := inner.added.closure hP
    have hreserve : b.reserve.ops.size = b.ops.size + 1 := by simp [reserve]
    have hsize := inner.added.size_le
    have hpatch : (b₁.patch b.ops.size
        (.closure b.closureLen (child.getD b.ops.size) greedy next)).ops.size = b₁.ops.size := by
      simp [patch]
    rw [hpatch] at ho
    -- The body may lead back to the closure, so its place has its owner before the body is made.
    obtain ⟨own₁, heq₁, hscope₁, howns₁⟩ := ih (Function.update own b.ops.size o) o ho (by
      rintro j hj
      cases hj
      exact ⟨by omega, Function.update_self _ _ _⟩)
    have hself : own₁ b.ops.size = o := by rw [heq₁ _ (by omega), Function.update_self]
    have heq : ∀ j < b.ops.size, own₁ j = own j := by
      intro j hj
      rw [heq₁ j (by omega), Function.update_of_ne (by omega)]
    refine ⟨own₁, heq, (hscope.mono hadded heq).insert (by omega) hself, ?_⟩
    refine (hreserve ▸ howns₁).patch (by omega) (by omega) (fun j hj => ?_) rfl
    rw [hself]
    rcases List.mem_cons.mp hj with hj | hj
    · cases hj
      cases child with
      | none => exact ⟨by simp only [Option.getD_none]; omega, hself⟩
      | some c => exact hscope₁ c hchild
    · obtain rfl := List.mem_singleton.mp hj
      obtain ⟨hlt, hown⟩ := hscope j hnext
      exact ⟨by omega, by rw [heq j hlt, hown]⟩

end Builder

/-! ### What emitters do -/

/-- Whether an emitter only adds operations in the ways in which programs grow.
This is shown once for every emitter, and all that is known of programs by their
structure comes from `Builder.Grows` by induction. -/
def Emitter.Grows (P : Builder → Builder → Op → Prop) (e : Emitter) : Prop :=
  ∀ next b S, next ∈ S → ∃ S', Builder.Grows P S b S' (e next b).2 ∧ (e next b).1 ∈ S'

namespace Emitter

variable {P Q : Builder → Builder → Op → Prop} {e body : Emitter}

theorem Grows.mono (hPQ : ∀ b b' op, P b b' op → Q b b' op) (h : e.Grows P) : e.Grows Q := by
  intro next b S hn
  obtain ⟨S', h, hlink⟩ := h next b S hn
  exact ⟨S', h.mono hPQ, hlink⟩

/-- An emitter adds operations to those made so far. -/
theorem Grows.added (h : e.Grows P) (next : Link) (b : Builder) :
    Builder.Added P b (e next b).2 := by
  obtain ⟨S, h, -⟩ := h next b {next} rfl
  exact h.added

theorem copies_grows (h : body.Grows P) (n : ℕ) : (copies body n).Grows P := by
  induction n with
  | zero => exact fun next b S hn => ⟨S, .refl, hn⟩
  | succ n ih =>
    intro next b S hn
    obtain ⟨S₁, h₁, hlink⟩ := h next b S hn
    obtain ⟨S₂, h₂, hlink'⟩ := ih _ _ S₁ hlink
    exact ⟨S₂, h₁.trans h₂, hlink'⟩

theorem optionals_grows (h : body.Grows P) (greedy : Bool) {next : Link}
    (hP : ∀ b child, P b b (.question child greedy next)) (n : ℕ) (tail : Link) (b : Builder)
    (S : Set Link) (hn : next ∈ S) (ht : tail ∈ S) :
    ∃ S', Builder.Grows P S b S' (optionals body greedy next n tail b).2 ∧
      (optionals body greedy next n tail b).1 ∈ S' := by
  induction n generalizing tail b S with
  | zero => exact ⟨S, .refl, ht⟩
  | succ n ih =>
    obtain ⟨S₁, h₁, hlink⟩ := h tail b S ht
    have hn₁ := h₁.subset hn
    have h₂ := Builder.Grows.push (b := (body tail b).2) (hP _ (body tail b).1) (S := S₁)
      (by simp [Op.links, hlink, hn₁]) rfl rfl
    obtain ⟨S₃, h₃, hlink₃⟩ := ih (some (body tail b).2.ops.size) _ _ (h₂.subset hn₁)
      (Set.mem_insert _ _)
    exact ⟨S₃, (h₁.trans h₂).trans h₃, hlink₃⟩

theorem closure_grows (h : body.Grows P) (greedy : Bool)
    (hP : ∀ b id child next, P b b (.closure id child greedy next)) :
    (closure body greedy).Grows P := by
  intro next b S hn
  obtain ⟨T, hT, hchild⟩ := h (some b.ops.size) b.reserve {some b.ops.size} rfl
  exact ⟨_, .closure hT hchild hn (hP _ _ _ _), Set.mem_insert _ _⟩

theorem repetition_grows (h : body.Grows P) (min : ℕ) (max : Option ℕ) (greedy : Bool)
    (hquestion : ∀ b child next, P b b (.question child greedy next))
    (hclosure : ∀ b id child next, P b b (.closure id child greedy next)) :
    (repetition body min max greedy).Grows P := by
  intro next b S hn
  cases max with
  | none =>
    obtain ⟨S₁, h₁, hlink⟩ := closure_grows h greedy hclosure next b S hn
    obtain ⟨S₂, h₂, hlink₂⟩ := copies_grows h min _ _ S₁ hlink
    exact ⟨S₂, h₁.trans h₂, hlink₂⟩
  | some max =>
    obtain ⟨S₁, h₁, hlink⟩ :=
      optionals_grows h greedy (fun b child => hquestion b child next) (max - min) next b S hn hn
    obtain ⟨S₂, h₂, hlink₂⟩ := copies_grows h min _ _ S₁ hlink
    exact ⟨S₂, h₁.trans h₂, hlink₂⟩

/-- One new operation without a body of its own, which leads to what follows. -/
theorem push_grows {op : Link → Op} (hP : ∀ b next, P b b (op next))
    (hlinks : ∀ next, (op next).links = [next]) (hbody : ∀ next, (op next).child? = none)
    (hclosure : ∀ next, (op next).isClosure = false) :
    Grows P fun next b => b.push (op next) := by
  intro next b S hn
  exact ⟨_, .push (hP b next) (by simp [hlinks, hn]) (hbody next) (hclosure next),
    Set.mem_insert _ _⟩

end Emitter

namespace Pattern

variable {P : Builder → Builder → Op → Prop} {qs : List Pattern}

/-- An operation behind the body that it has.  The body is made first, with
nothing behind it. -/
theorem body_grows {body : Emitter} (h : body.Grows P) {op : Link → Link → Op}
    (hP : ∀ b next, P b (body none b).2 (op (body none b).1 next))
    (hlinks : ∀ child next, (op child next).links = [next])
    (hbody : ∀ child next, (op child next).child? = some child) :
    Emitter.Grows P fun next b => (body none b).2.push (op (body none b).1 next) := by
  intro next b S hn
  obtain ⟨T, hT, hchild⟩ := h none b {none} rfl
  exact ⟨_, .body hT hchild .refl (hP _ _) (by simp [hlinks, hn]) (hbody _ _),
    Set.mem_insert _ _⟩

/-- An operation that reads or tests text. -/
theorem atom_grows {q : Pattern} {atom : Atom} (hqs : q.subpatterns ⊆ qs)
    (hq : q ∈ q.subpatterns) (h : ∀ b next, Emits b b q (.atom atom next)) :
    Emitter.Grows (EmittedByOneOf qs) fun next b => b.push (.atom atom next) :=
  Emitter.push_grows (fun b next => ⟨q, hqs hq, h b next⟩) (fun _ => rfl) (fun _ => rfl)
    fun _ => rfl

mutual

/-- A pattern adds operations in the ways in which programs grow, and its parts
emit them. -/
theorem emit_grows (reverse : Bool) : (p : Pattern) → p.subpatterns ⊆ qs →
    (emit reverse p).Grows (EmittedByOneOf qs)
  | .empty, _ => fun _ _ S hn => ⟨S, .refl, hn⟩
  | .char _, hqs => atom_grows hqs List.mem_cons_self fun _ _ => .char
  | .string _, hqs => atom_grows hqs List.mem_cons_self fun _ _ => .string
  | .dot, hqs => atom_grows hqs List.mem_cons_self fun _ _ => .dot
  | .charClass _ _, hqs => atom_grows hqs List.mem_cons_self fun _ _ => .charClass
  | .anchor _, hqs => atom_grows hqs List.mem_cons_self fun _ _ => .anchor
  | .backref _, hqs => atom_grows hqs List.mem_cons_self fun _ _ => .backref
  | .concat items, hqs => emitSeq_grows reverse items (List.cons_subset.mp hqs).2
  | .union alternatives, hqs => by
    intro next b S hn
    obtain ⟨S', h, hlinks⟩ :=
      emitAll_grows reverse alternatives (List.cons_subset.mp hqs).2 next b S hn
    exact ⟨_, h.trans (.push ⟨_, hqs List.mem_cons_self, .union⟩ hlinks rfl rfl),
      Set.mem_insert _ _⟩
  | .repetition body min max greedy, hqs =>
    Emitter.repetition_grows (emit_grows reverse body (List.cons_subset.mp hqs).2) min max greedy
      (fun _ _ _ => ⟨_, hqs List.mem_cons_self, .question⟩)
      fun _ _ _ _ => ⟨_, hqs List.mem_cons_self, .closure⟩
  | .group none body, hqs => emit_grows reverse body (List.cons_subset.mp hqs).2
  | .group (some n) body, hqs => by
    intro next b S hn
    obtain ⟨S₁, h₁, hlink⟩ :=
      emit_grows reverse body (List.cons_subset.mp hqs).2 _ _ _ (Set.mem_insert _ _)
    have hmark : ∀ b edge next, EmittedByOneOf qs b b (.mark n edge next) := fun _ _ _ =>
      ⟨_, hqs List.mem_cons_self, .mark⟩
    exact ⟨_, (Builder.Grows.push (hmark _ _ _) (by simp [Op.links, hn]) rfl rfl).trans
      (h₁.trans (.push (hmark _ _ _) (List.forall_mem_singleton.mpr hlink) rfl rfl)),
      Set.mem_insert _ _⟩
  | .look kind body, hqs =>
    body_grows (emit_grows kind.isBehind body (List.cons_subset.mp hqs).2)
      (fun _ _ => ⟨_, hqs List.mem_cons_self, .look rfl⟩) (fun _ _ => rfl) fun _ _ => rfl
  | .independent body, hqs =>
    body_grows (emit_grows reverse body (List.cons_subset.mp hqs).2)
      (fun _ _ => ⟨_, hqs List.mem_cons_self, .independent rfl⟩) (fun _ _ => rfl)
      fun _ _ => rfl
  | .modifier add remove body, hqs =>
    body_grows (emit_grows reverse body (List.cons_subset.mp hqs).2)
      (fun _ _ => ⟨_, hqs List.mem_cons_self, .modifier rfl⟩) (fun _ _ => rfl) fun _ _ => rfl
  | .ifGroup n yes none, hqs => by
    intro next b S hn
    obtain ⟨S₁, h₁, hyes⟩ := emit_grows reverse yes (List.cons_subset.mp hqs).2 next b S hn
    exact ⟨_, h₁.trans (.push ⟨_, hqs List.mem_cons_self, .ifGroup⟩
      (by simp [Op.links, hyes, h₁.subset hn]) rfl rfl), Set.mem_insert _ _⟩
  | .ifGroup n yes (some no), hqs => by
    intro next b S hn
    obtain ⟨hyesqs, hnoqs⟩ := List.append_subset.mp (List.cons_subset.mp hqs).2
    obtain ⟨S₁, h₁, hyes⟩ := emit_grows reverse yes hyesqs next b S hn
    obtain ⟨S₂, h₂, hno⟩ := emit_grows reverse no hnoqs next _ S₁ (h₁.subset hn)
    exact ⟨_, (h₁.trans h₂).trans (.push ⟨_, hqs List.mem_cons_self, .ifGroup⟩
      (by simp [Op.links, h₂.subset hyes, hno]) rfl rfl), Set.mem_insert _ _⟩
  | .ifLook test yes none, hqs => by
    intro next b S hn
    obtain ⟨htestqs, hyesqs⟩ := List.append_subset.mp (List.cons_subset.mp hqs).2
    obtain ⟨T, hT, htest⟩ := emit_grows reverse test htestqs none b {none} rfl
    obtain ⟨S₁, h₁, hyes⟩ := emit_grows reverse yes hyesqs next _ S hn
    exact ⟨_, .body hT htest h₁ ⟨_, hqs List.mem_cons_self, .ifLook rfl⟩
      (by simp [Op.links, hyes, h₁.subset hn]) rfl, Set.mem_insert _ _⟩
  | .ifLook test yes (some no), hqs => by
    intro next b S hn
    obtain ⟨hqs', hnoqs⟩ := List.append_subset.mp (List.cons_subset.mp hqs).2
    obtain ⟨htestqs, hyesqs⟩ := List.append_subset.mp hqs'
    obtain ⟨T, hT, htest⟩ := emit_grows reverse test htestqs none b {none} rfl
    obtain ⟨S₁, h₁, hyes⟩ := emit_grows reverse yes hyesqs next _ S hn
    obtain ⟨S₂, h₂, hno⟩ := emit_grows reverse no hnoqs next _ S₁ (h₁.subset hn)
    exact ⟨_, .body hT htest (h₁.trans h₂) ⟨_, hqs List.mem_cons_self, .ifLook rfl⟩
      (by simp [Op.links, h₂.subset hyes, hno]) rfl, Set.mem_insert _ _⟩
  termination_by structural p => p

theorem emitSeq_grows (reverse : Bool) : (ps : List Pattern) → subpatternsAll ps ⊆ qs →
    (emitSeq reverse ps).Grows (EmittedByOneOf qs)
  | [], _ => fun _ _ S hn => ⟨S, .refl, hn⟩
  | p :: ps, hqs => by
    intro next b S hn
    obtain ⟨hpqs, hpsqs⟩ := List.append_subset.mp hqs
    have hp := emit_grows reverse p hpqs
    have hps := emitSeq_grows reverse ps hpsqs
    cases reverse with
    | true =>
      obtain ⟨S₁, h₁, hlink⟩ := hp next b S hn
      obtain ⟨S₂, h₂, hlink₂⟩ := hps _ _ S₁ hlink
      exact ⟨S₂, h₁.trans h₂, hlink₂⟩
    | false =>
      obtain ⟨S₁, h₁, hlink⟩ := hps next b S hn
      obtain ⟨S₂, h₂, hlink₂⟩ := hp _ _ S₁ hlink
      exact ⟨S₂, h₁.trans h₂, hlink₂⟩
  termination_by structural ps => ps

theorem emitAll_grows (reverse : Bool) : (ps : List Pattern) → subpatternsAll ps ⊆ qs →
    ∀ (next : Link) (b : Builder) (S : Set Link), next ∈ S →
      ∃ S', Builder.Grows (EmittedByOneOf qs) S b S' (emitAll reverse ps next b).2 ∧
        ∀ l ∈ (emitAll reverse ps next b).1, l ∈ S'
  | [], _, _, _, S, _ => ⟨S, .refl, by simp [emitAll]⟩
  | p :: ps, hqs, next, b, S, hn => by
    obtain ⟨hpqs, hpsqs⟩ := List.append_subset.mp hqs
    obtain ⟨S₁, h₁, hlink⟩ := emit_grows reverse p hpqs next b S hn
    obtain ⟨S₂, h₂, hlinks⟩ := emitAll_grows reverse ps hpsqs next _ S₁ (h₁.subset hn)
    refine ⟨S₂, h₁.trans h₂, fun l hl => ?_⟩
    rcases List.mem_cons.mp hl with rfl | hl
    · exact h₂.subset hlink
    · exact hlinks l hl
  termination_by structural ps => ps

end

theorem IsPlain.reference_notMem {p : Pattern} (hp : p.IsPlain) (n : ℕ) :
    .reference n ∉ p.features := by
  rw [hp]
  exact List.not_mem_nil

/-- A plain pattern adds operations without features, whatever it is added to. -/
theorem IsPlain.added {p : Pattern} (hp : p.IsPlain) (reverse : Bool) (next : Link) (b : Builder) :
    Builder.Added (fun _ _ op => op.feature? = none) b (p.emit reverse next b).2 := by
  refine ((p.emit_grows reverse (List.Subset.refl _)).mono fun c c' op hemits => ?_).added next b
  rw [Option.eq_none_iff_forall_ne_some]
  intro f hf
  obtain ⟨q, hq, hemits⟩ := hemits
  have hmem := p.features_subset q hq (hemits.feature_mem hf)
  rw [hp] at hmem
  cases hmem

end Pattern

/-! ### Programs of patterns -/

namespace Program

/-- An owner for each operation: the operation in whose body it lies, or a
number above them all.  Bodies are made before the operation that has them, so
an owner comes after what it owns. -/
structure Owned (p : Program) (own : ℕ → ℕ) : Prop where
  lt : ∀ k op, p.ops[k]? = some op → k < own k
  links : ∀ k op j, p.ops[k]? = some op → some j ∈ op.links → own j = own k
  child : ∀ k op j, p.ops[k]? = some op → op.child? = some (some j) → own j = k

variable (p : Pattern)

theorem ofPattern_grows : ∃ S, Builder.Grows (Pattern.EmittedByOneOf p.subpatterns) {none} .empty S
    (build p).2 ∧ (build p).1 ∈ S :=
  p.emit_grows false (List.Subset.refl _) none .empty {none} rfl

/-- A part of the pattern emits an operation, and the program has all of its
body. -/
theorem exists_part {k : ℕ} {op : Op} (hop : (ofPattern p).ops[k]? = some op) :
    ∃ q ∈ p.subpatterns, ∃ b b', Agrees (ofPattern p).ops b b' ∧ Pattern.Emits b b' q op := by
  obtain ⟨S, h, -⟩ := ofPattern_grows p
  obtain ⟨b, b', -, hagrees, q, hq, hemits⟩ := h.added.satisfies k op (Nat.zero_le k) hop
  exact ⟨q, hq, b, b', hagrees, hemits⟩

/-- An operation asks for no more than the pattern does.  Hence a program can be
run if its pattern can be searched. -/
theorem feature_mem {k : ℕ} {op : Op} {f : Feature} (hop : (ofPattern p).ops[k]? = some op)
    (hf : op.feature? = some f) : f ∈ p.features := by
  obtain ⟨q, hq, b, b', -, hemits⟩ := exists_part p hop
  exact p.features_subset q hq (hemits.feature_mem hf)

/-- A class operation has the folded set of its set. -/
theorem folded_eq {k : ℕ} {set : CharSet} {folded : Option CharSet} {negated : Bool} {next : Link}
    (hop : (ofPattern p).ops[k]? = some (.atom (.range set folded negated) next)) :
    folded = Pattern.foldedSet set := by
  obtain ⟨q, -, b, b', -, hemits⟩ := exists_part p hop
  cases hemits
  rfl

/-- A plain pattern has operations without features. -/
theorem feature?_eq_none {p : Pattern} (hp : p.IsPlain) (k : ℕ) (op : Op)
    (hop : (ofPattern p).ops[k]? = some op) : op.feature? = none := by
  obtain ⟨_, _, -, -, hplain⟩ := (hp.added false none .empty).satisfies k op (Nat.zero_le k) hop
  exact hplain

/-- No two closures have the same number, so that the marks of one say nothing
of another. -/
theorem closure_unique {k k' id child child' : ℕ} {greedy greedy' : Bool} {next next' : Link}
    (hop : (ofPattern p).ops[k]? = some (.closure id child greedy next))
    (hop' : (ofPattern p).ops[k']? = some (.closure id child' greedy' next')) : k = k' := by
  obtain ⟨S, h, -⟩ := ofPattern_grows p
  exact h.added.unique k k' id _ _ _ _ _ _ (Nat.zero_le k) (Nat.zero_le k') hop hop'

/-- The operations of a program have owners, and the first one belongs to the
program. -/
theorem exists_owned : ∃ own, (ofPattern p).Owned own ∧
    ∀ k, (ofPattern p).start = some k → own k = (ofPattern p).ops.size := by
  obtain ⟨S, h, hstart⟩ := ofPattern_grows p
  obtain ⟨own, -, hscope, howns⟩ := h.exists_owns id (build p).2.ops.size le_rfl
    (by rintro j (hj | hj))
  refine ⟨own, ⟨fun k op hop => (howns k op (Nat.zero_le k) hop).1, fun k op j hop hj =>
    ((howns k op (Nat.zero_le k) hop).2.1 j hj).2, fun k op j hop hj =>
    ((howns k op (Nat.zero_le k) hop).2.2 j hj).2⟩, fun k hk => ?_⟩
  rw [ofPattern, ofExtends] at hk
  exact (hscope k (by rwa [← hk])).2

end Program

end Regexp
