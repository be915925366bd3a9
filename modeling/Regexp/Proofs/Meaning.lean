import Regexp.Proofs.Conveyance
import Regexp.Proofs.Derivation

/-!
# The meaning of patterns

What a pattern does to places, once it is known what atoms, ends of groups and
tests do to them.  Places may be offsets, or offsets with what was recorded on
the way, so that one proof about emitters serves for all that is said of
patterns.

## Three layers

A `Meaning` gives the single operations: to which places an atom leads, what
recording an end of a group does, when a group counts as captured, and how a
lookaround gets back to where it began.  `Pattern.Walks` builds the meaning of a
pattern from it, in the direction of the walk, and mentions no program.  `Obeys`
is about moves through a program: from an operation with a given meaning they
lead just where that meaning says.

`Pattern.emit_conveys` joins the second and the third layer.  If moves obey,
then from the first operation of a pattern they lead to what follows the pattern
through exactly what the pattern does.  It is an induction over patterns with
the lemmas of `Regexp.Proofs.Conveyance` for sequences, choices and loops, and a
lemma for each kind of match within the match (`Obeys.look`, `Obeys.inner`,
`Obeys.ifLook`).

To use all this for a new kind of path one has to give a meaning and to show
that the moves obey it, operation by operation; nothing has to be said of
emitters again.

## Matches within the match

How a match within the match may end is told by paths through its body
(`Concludes`).  If it is not `strict`, it may always be taken to have failed.
Moves may also leave open what happens at such a match; then they are told of
flat patterns only, which have none (`Pattern.IsFlat`, `Told`).

## Main definitions

* `Meaning` — what atoms, ends of groups and tests do to places.
* `Pattern.Walks` — what a pattern does to places, in the direction of the walk.
* `Obeys` — moves through a program that have a meaning.

## Main statements

* `Pattern.emit_conveys` — the operations of a pattern convey through what the
  pattern does.
-/

namespace Regexp

variable {X : Type}

/-- What single operations do to places.  A place is an offset, or an offset
with slots, or whatever a statement has to keep track of; the structure of
patterns is the same for all of these, and is dealt with once. -/
structure Meaning (X : Type) where
  /-- The places that count. -/
  good : X → Prop
  /-- What an atom reads. -/
  read : Mode → Atom → X → X → Prop
  /-- What it is to record an end of a group. -/
  mark : ℕ → Edge → X → X → Prop
  /-- Whether a group may be found to have captured something, or to have
  captured nothing. -/
  test : ℕ → Bool → X → Prop
  /-- The first place as it is after a lookaround from there that ended at the
  second one. -/
  back : X → X → X
  good_read : ∀ {m atom x y}, good x → read m atom x y → good y
  good_mark : ∀ {group edge x y}, good x → mark group edge x y → good y
  good_back : ∀ {x y}, good x → good y → good (back x y)

/-- Whether a feature is a match within the match, which has an end of its own
before the operation goes on. -/
def Feature.isNested : Feature → Bool
  | reference _ | groupTest _ => false
  | lookaround | conditional | independent | modifier => true

namespace Pattern

/-- Whether a pattern has no match within the match.  It may still refer to
groups, by references and by conditions. -/
def IsFlat (p : Pattern) : Prop := ∀ f ∈ p.features, f.isNested = false

section

variable (D : Meaning X) (strict : Bool)

mutual

/-- Whether a pattern leads from a place to a place, in the direction of the
walk.  It is to a `Meaning` what `Derives` is to a text, and by `emit_conveys`
the operations of a pattern lead just there. -/
def Walks (m : Mode) : Pattern → X → X → Prop
  | .empty, x, y => x = y
  | .char c, x, y => D.read m (.char c) x y
  | .string s, x, y => D.read m (.string s) x y
  | .dot, x, y => D.read m .dot x y
  | .charClass set negated, x, y => D.read m (.range set (foldedSet set) negated) x y
  | .anchor a, x, y => D.read m (.anchor a) x y
  | .backref n, x, y => D.read m (.backref n) x y
  | .concat items, x, y => WalksSeq m items x y
  | .union alternatives, x, y => WalksOne m alternatives x y
  | .repetition body min max _, x, y => ∃ n, min ≤ n ∧ (∀ b, max = some b → n ≤ min ∨ n ≤ b) ∧
      Repeats (Walks m body) n x y
  | .group none body, x, y => Walks m body x y
  | .group (some n) body, x, y =>
    ∃ x' y', D.mark n (if m.reverse then .stop else .start) x x' ∧ Walks m body x' y' ∧
      D.mark n (if m.reverse then .start else .stop) y' y
  | .look kind body, x, y =>
    if kind.isNegated then
      Verdict strict true (∃ e, Walks ⟨kind.isBehind, m.opts⟩ body x e) ∧ x = y
    else ∃ e, Walks ⟨kind.isBehind, m.opts⟩ body x e ∧ D.back x e = y
  | .independent body, x, y => Walks m body x y
  | .modifier add remove body, x, y => Walks ⟨m.reverse, m.opts.modify add remove⟩ body x y
  | .ifGroup n yes none, x, y => D.test n true x ∧ Walks m yes x y ∨ D.test n false x ∧ x = y
  | .ifGroup n yes (some no), x, y =>
    D.test n true x ∧ Walks m yes x y ∨ D.test n false x ∧ Walks m no x y
  | .ifLook test yes none, x, y =>
    (∃ e, Walks m test x e ∧ Walks m yes (D.back x e) y) ∨
      Verdict strict true (∃ e, Walks m test x e) ∧ x = y
  | .ifLook test yes (some no), x, y =>
    (∃ e, Walks m test x e ∧ Walks m yes (D.back x e) y) ∨
      Verdict strict true (∃ e, Walks m test x e) ∧ Walks m no x y
  termination_by structural p => p

/-- Whether patterns in sequence lead from a place to a place; a walk backward
comes to the last of them first. -/
def WalksSeq (m : Mode) : List Pattern → X → X → Prop
  | [], x, y => x = y
  | p :: ps, x, y =>
    if m.reverse then ∃ z, WalksSeq m ps x z ∧ Walks m p z y
    else ∃ z, Walks m p x z ∧ WalksSeq m ps z y
  termination_by structural ps => ps

/-- Whether one of several patterns leads from a place to a place. -/
def WalksOne (m : Mode) : List Pattern → X → X → Prop
  | [], _, _ => False
  | p :: ps, x, y => Walks m p x y ∨ WalksOne m ps x y
  termination_by structural ps => ps

end

end

section

variable {D : Meaning X} {strict : Bool} {m : Mode} {p : Pattern} {ps : List Pattern} {x y : X}

theorem walks_look {kind : LookKind} : Walks D strict m (.look kind p) x y ↔
    if kind.isNegated then
      Verdict strict true (∃ e, Walks D strict ⟨kind.isBehind, m.opts⟩ p x e) ∧ x = y
    else ∃ e, Walks D strict ⟨kind.isBehind, m.opts⟩ p x e ∧ D.back x e = y := Iff.rfl

theorem walksSeq_cons : WalksSeq D strict m (p :: ps) x y ↔
    if m.reverse then ∃ z, WalksSeq D strict m ps x z ∧ Walks D strict m p z y
    else ∃ z, Walks D strict m p x z ∧ WalksSeq D strict m ps z y := Iff.rfl

end

end Pattern

/-! ### Moves with a meaning -/

/-- How a match within the match may end: at a place where a path through its
body ends, or without a match if there is no such path, or in any case unless
this is `strict`. -/
def Concludes (M : Moves X) (strict : Bool) (child : Link) (x : X) : Option X → Prop
  | some y => ∃ n, Leads M n child x y
  | none => Pattern.Verdict strict true (∃ y n, Leads M n child x y)

/-- Where an operation goes on after the match within the match that it began at
a place has ended.  A lookaround goes back to the place it was at, but for what
`back` takes over from the other one. -/
def Op.sequel? (back : X → X → X) (op : Op) (x : X) (stop : Option X) : Option (Link × X) :=
  match op with
  | .look kind _ next =>
    if stop.isSome = kind.isNegated then none else some (next, (stop.map (back x)).getD x)
  | .independent _ next | .modifier _ _ _ next => stop.map (next, ·)
  | .ifLook _ yes no =>
    match stop with
    | some y => some (yes, back x y)
    | none => some (no, x)
  | _ => none

/-- Whether the moves through some operations have a meaning, where matches
within the match may be left out of account unless they are `nested`.  There is
one clause for each kind of operation that is not a choice, and choices are as
`Moves.Branching` has them. -/
structure Obeys (D : Meaning X) (ops : Array Op) (strict nested : Bool) (M : Mode → Moves X) :
    Prop where
  branching : ∀ m, (M m).Branching ops
  read : ∀ {m k atom next x l y}, ops[k]? = some (.atom atom next) → D.good x →
    (M m k x l y ↔ l = next ∧ D.read m atom x y)
  mark : ∀ {m k group edge next x l y}, ops[k]? = some (.mark group edge next) → D.good x →
    (M m k x l y ↔ l = next ∧ D.mark group edge x y)
  test : ∀ {m k group yes no x l y}, ops[k]? = some (.ifGroup group yes no) → D.good x →
    (M m k x l y ↔ ∃ b : Bool, l = (if b then yes else no) ∧ D.test group b x ∧ y = x)
  body : ∀ {m k op child m' x l y}, nested = true → ops[k]? = some op →
    op.body? m = some (child, m') → D.good x → (M m k x l y ↔
      ∃ stop, Concludes (M m') strict child x stop ∧ op.sequel? D.back x stop = some (l, y))

namespace Conveys

variable {M : Moves X} {good : X → Prop} {strict : Bool} {child : Link} {W : X → X → Prop} {x : X}

/-- A match within the match fails if there is no way through its body, and for
certain only then. -/
theorem verdict_iff (h : Conveys M good strict [child] none W) (hx : good x) :
    Pattern.Verdict strict true (∃ y n, Leads M n child x y) ↔
      Pattern.Verdict strict true (∃ y, W x y) := by
  refine forall_congr' fun hs => not_congr ⟨?_, ?_⟩
  · rintro ⟨y, n, hr⟩
    exact ⟨y, h.of_leads hx hr⟩
  · rintro ⟨y, hy⟩
    exact ⟨y, h.exists_leads hs hx hy⟩

end Conveys

namespace Obeys

variable {D : Meaning X} {ops : Array Op} {strict nested : Bool} {M : Mode → Moves X}
  {m m' : Mode} {k : ℕ} {op : Op} {child next : Link} {W Y N : X → X → Prop}

section

variable (h : Obeys D ops strict nested M) (hn : nested = true)

include h hn

/-- A lookaround. -/
theorem look {kind : LookKind} (hop : ops[k]? = some (.look kind child next))
    (hbody : Conveys (M ⟨kind.isBehind, m.opts⟩) D.good strict [child] none W) :
    Conveys (M m) D.good strict [some k] next fun x y =>
      if kind.isNegated then Pattern.Verdict strict true (∃ e, W x e) ∧ x = y
      else ∃ e, W x e ∧ D.back x e = y := by
  have hmove : ∀ {x l y}, D.good x → (M m k x l y ↔ ∃ stop,
      Concludes (M ⟨kind.isBehind, m.opts⟩) strict child x stop ∧
        (Op.look kind child next).sequel? D.back x stop = some (l, y)) := h.body hn hop rfl
  refine .of_next ?_ ?_ ?_
  · intro x l y hx move
    obtain ⟨stop, hstop, hgo⟩ := (hmove hx).mp move
    cases hneg : kind.isNegated with
    | true =>
      cases stop with
      | some e => simp [Op.sequel?, hneg] at hgo
      | none =>
        simp only [Op.sequel?, hneg, Option.isSome_none, Bool.false_eq_true, if_false,
          Option.map_none, Option.getD_none, Option.some.injEq, Prod.mk.injEq] at hgo
        obtain ⟨rfl, rfl⟩ := hgo
        exact ⟨rfl, (hbody.verdict_iff hx).mp hstop, rfl⟩
    | false =>
      cases stop with
      | none => simp [Op.sequel?, hneg] at hgo
      | some e =>
        simp only [Op.sequel?, hneg, Option.isSome_some, Bool.true_eq_false, if_false,
          Option.map_some, Option.getD_some, Option.some.injEq, Prod.mk.injEq] at hgo
        obtain ⟨rfl, rfl⟩ := hgo
        obtain ⟨n, hr⟩ := hstop
        exact ⟨rfl, e, hbody.of_leads hx hr, rfl⟩
  · intro hs x y hx hy
    refine (hmove hx).mpr ?_
    cases hneg : kind.isNegated with
    | true =>
      simp only [hneg, if_true] at hy
      obtain ⟨hverdict, rfl⟩ := hy
      exact ⟨none, (hbody.verdict_iff hx).mpr hverdict, by simp [Op.sequel?, hneg]⟩
    | false =>
      simp only [hneg, Bool.false_eq_true, if_false] at hy
      obtain ⟨e, he, rfl⟩ := hy
      exact ⟨some e, hbody.exists_leads hs hx he, by simp [Op.sequel?, hneg]⟩
  · intro x y hx hy
    split at hy
    · exact hy.2 ▸ hx
    · obtain ⟨e, he, rfl⟩ := hy
      exact D.good_back hx (hbody.keeps x e hx he)

/-- An operation that goes on where its body ends. -/
theorem inner (hop : ops[k]? = some op) (hb : op.body? m = some (child, m'))
    (hgo : ∀ x stop, op.sequel? D.back x stop = stop.map (next, ·))
    (hbody : Conveys (M m') D.good strict [child] none W) :
    Conveys (M m) D.good strict [some k] next W := by
  refine .of_next ?_ ?_ hbody.keeps
  · intro x l y hx move
    obtain ⟨stop, hstop, hsome⟩ := (h.body hn hop hb hx).mp move
    rw [hgo] at hsome
    obtain ⟨e, rfl, heq⟩ := Option.map_eq_some_iff.mp hsome
    cases heq
    obtain ⟨n, hr⟩ := hstop
    exact ⟨rfl, hbody.of_leads hx hr⟩
  · intro hs x y hx hy
    exact (h.body hn hop hb hx).mpr
      ⟨some y, hbody.exists_leads hs hx hy, by rw [hgo, Option.map_some]⟩

/-- A choice by whether a body matches. -/
theorem ifLook {yes no : Link} (hop : ops[k]? = some (.ifLook child yes no))
    (hbody : Conveys (M m) D.good strict [child] none W)
    (hyes : Conveys (M m) D.good strict [yes] next Y)
    (hno : Conveys (M m) D.good strict [no] next N) :
    Conveys (M m) D.good strict [some k] next fun x y =>
      (∃ e, W x e ∧ Y (D.back x e) y) ∨ Pattern.Verdict strict true (∃ e, W x e) ∧ N x y := by
  have hmove : ∀ {x l y}, D.good x → (M m k x l y ↔ ∃ stop,
      Concludes (M m) strict child x stop ∧
        (Op.ifLook child yes no).sequel? D.back x stop = some (l, y)) := h.body hn hop rfl
  have hchoice : Conveys (M m) D.good strict [some k] next fun x y => ∃ (b : Bool) (z : X),
      (if b then ∃ e, W x e ∧ z = D.back x e
        else Pattern.Verdict strict true (∃ e, W x e) ∧ z = x) ∧ (if b then Y else N) z y := by
    refine .of_moves (fun b => if b then yes else no) (fun x l y hx move => ?_)
      (fun hs b x y hx hy => ?_) (fun b x y hx hy => ?_) fun b => ?_
    · obtain ⟨stop, hstop, hgo⟩ := (hmove hx).mp move
      cases stop with
      | some e =>
        cases hgo
        obtain ⟨n, hr⟩ := hstop
        exact ⟨true, rfl, e, hbody.of_leads hx hr, rfl⟩
      | none =>
        cases hgo
        exact ⟨false, rfl, (hbody.verdict_iff hx).mp hstop, rfl⟩
    · refine (hmove hx).mpr ?_
      cases b with
      | true =>
        obtain ⟨e, he, rfl⟩ := hy
        exact ⟨some e, hbody.exists_leads hs hx he, rfl⟩
      | false =>
        obtain ⟨hverdict, rfl⟩ := hy
        exact ⟨none, (hbody.verdict_iff hx).mpr hverdict, rfl⟩
    · cases b with
      | true =>
        obtain ⟨e, he, rfl⟩ := hy
        exact D.good_back hx (hbody.keeps x e hx he)
      | false => exact hy.2 ▸ hx
    · cases b with
      | true => exact hyes
      | false => exact hno
  refine hchoice.congr_rel fun x y => ?_
  simp only [Bool.exists_bool, Bool.false_eq_true, if_false, if_true, and_assoc]
  grind

end

/-- A choice by whether a group has captured something. -/
theorem ifGroup (h : Obeys D ops strict nested M) {group : ℕ} {yes no : Link}
    (hop : ops[k]? = some (.ifGroup group yes no))
    (hyes : Conveys (M m) D.good strict [yes] next Y)
    (hno : Conveys (M m) D.good strict [no] next N) :
    Conveys (M m) D.good strict [some k] next fun x y =>
      D.test group true x ∧ Y x y ∨ D.test group false x ∧ N x y := by
  have hchoice : Conveys (M m) D.good strict [some k] next fun x y => ∃ (b : Bool) (z : X),
      (D.test group b x ∧ z = x) ∧ (if b then Y else N) z y := by
    refine .of_moves (fun b => if b then yes else no) (fun x l y hx => (h.test hop hx).mp)
      (fun _ b x y hx hy => (h.test hop hx).mpr ⟨b, rfl, hy⟩) (fun b x y hx hy => hy.2 ▸ hx)
      fun b => ?_
    cases b with
    | true => exact hyes
    | false => exact hno
  refine hchoice.congr_rel fun x y => ?_
  simp only [Bool.exists_bool, Bool.false_eq_true, if_false, if_true, and_assoc]
  grind

end Obeys

/-! ### Emitters -/

namespace Pattern

/-- A pattern adds operations, whatever they are. -/
theorem emit_grows_any (reverse : Bool) (p : Pattern) : (emit reverse p).Grows fun _ _ _ => True :=
  (emit_grows reverse p (List.Subset.refl _)).mono fun _ _ _ _ => trivial

/-- Whether features may be met by moves that are told of matches within the
match only if these are `nested`. -/
abbrev Told (nested : Bool) (fs : List Feature) : Prop :=
  nested = false → ∀ f ∈ fs, f.isNested = false

theorem Told.mono {nested : Bool} {fs gs : List Feature} (hsub : fs ⊆ gs) (h : Told nested gs) :
    Told nested fs := fun hn f hf => h hn f (hsub hf)

theorem IsPlain.told {p : Pattern} (hp : p.IsPlain) : Told false p.features := by
  intro _ f hf
  rw [hp] at hf
  cases hf

/-- Moves are told of all matches within the match, if there is one. -/
theorem Told.nested_eq {nested : Bool} {f : Feature} {fs : List Feature}
    (h : Told nested (f :: fs)) (hf : f.isNested = true) : nested = true := by
  by_contra hn
  have := h (by simpa using hn) f List.mem_cons_self
  rw [hf] at this
  cases this

end Pattern

section

variable {D : Meaning X} {ops : Array Op} {strict nested : Bool} {M : Mode → Moves X}

/-- An atom. -/
theorem Obeys.atom (h : Obeys D ops strict nested M) (m : Mode) (atom : Atom) :
    Emitter.Conveys ops (M m) D.good strict (fun next b => b.push (.atom atom next))
      (D.read m atom) :=
  .push (fun _ => rfl) (fun _ => rfl) (fun _ => rfl) (fun _ _ _ _ _ hop hx => h.read hop hx)
    fun _ _ => D.good_read

theorem Obeys.edge (h : Obeys D ops strict nested M) (m : Mode) (group : ℕ) (edge : Edge) :
    Emitter.Conveys ops (M m) D.good strict (fun next b => b.push (.mark group edge next))
      (D.mark group edge) :=
  .push (fun _ => rfl) (fun _ => rfl) (fun _ => rfl) (fun _ _ _ _ _ hop hx => h.mark hop hx)
    fun _ _ => D.good_mark

/-- An operation with a body of its own. -/
theorem Emitter.Conveys.inner {m m' : Mode} {e : Emitter} {op : Link → Link → Op}
    {W W' : X → X → Prop} (he : e.Conveys ops (M m') D.good strict W)
    (hlinks : ∀ child next, (op child next).links = [next])
    (hbody : ∀ child next, (op child next).child? = some child)
    (hconveys : ∀ k child next, ops[k]? = some (op child next) →
      Regexp.Conveys (M m') D.good strict [child] none W →
        Regexp.Conveys (M m) D.good strict [some k] next W') :
    Emitter.Conveys ops (M m) D.good strict
      (fun next b => (e none b).2.push (op (e none b).1 next)) W' where
  grows := Pattern.body_grows he.grows (fun _ _ => trivial) hlinks hbody
  conveys next b hb :=
    hconveys _ _ next (hb.right (he.grows.added none b)).push (he.conveys none b hb.init)

namespace Pattern

mutual

/-- The operations of a pattern convey through what the pattern does to places. -/
theorem emit_conveys (h : Obeys D ops strict nested M) (hgood : ∃ x, D.good x) :
    (p : Pattern) → Told nested p.features → (m : Mode) →
    (emit m.reverse p).Conveys ops (M m) D.good strict (Walks D strict m p)
  | .empty, _, _ => .refl
  | .char _, _, m => h.atom m _
  | .string _, _, m => h.atom m _
  | .dot, _, m => h.atom m _
  | .charClass _ _, _, m => h.atom m _
  | .anchor _, _, m => h.atom m _
  | .backref _, _, m => h.atom m _
  | .concat items, hp, m => emitSeq_conveys h hgood items hp m
  | .union alternatives, hp, m => by
    refine ⟨emit_grows_any m.reverse (.union alternatives), fun next b hb => ?_⟩
    obtain ⟨S, hgrows, -⟩ := emitAll_grows m.reverse alternatives (List.Subset.refl _)
      next b {next} rfl
    exact .choose (h.branching m) (hb.right hgrows.added).push rfl
      (emitAll_conveys h hgood alternatives hp m next b hb.init)
  | .repetition body min max greedy, hp, m =>
    (emit_conveys h hgood body hp m).repetition (h.branching m) hgood min max greedy
  | .group none body, hp, m => emit_conveys h hgood body hp m
  | .group (some n) body, hp, m => by
    have hbody := emit_conveys h hgood body hp m
    have hmarks := (h.edge m n (if m.reverse then .stop else .start)).seq
      (hbody.seq (h.edge m n (if m.reverse then .start else .stop)))
    have hgroup : Emitter.Conveys ops (M m) D.good strict _
        (Walks D strict m (.group (some n) body)) :=
      hmarks.congr fun x y _ => exists_congr fun x' => by
        rw [← exists_and_left]
    obtain ⟨reverse, opts⟩ := m
    cases reverse <;> exact hgroup
  | .look kind body, hp, m =>
    (emit_conveys h hgood body (hp.mono (List.subset_cons_self _ _)) ⟨kind.isBehind, m.opts⟩).inner
      (fun _ _ => rfl) (fun _ _ => rfl) fun _ _ _ hop hbody =>
        h.look (hp.nested_eq rfl) hop hbody
  | .independent body, hp, m =>
    (emit_conveys h hgood body (hp.mono (List.subset_cons_self _ _)) m).inner (fun _ _ => rfl)
      (fun _ _ => rfl) fun _ _ _ hop hbody =>
        h.inner (hp.nested_eq rfl) hop rfl (fun _ _ => rfl) hbody
  | .modifier add remove body, hp, m =>
    (emit_conveys h hgood body (hp.mono (List.subset_cons_self _ _))
      ⟨m.reverse, m.opts.modify add remove⟩).inner (fun _ _ => rfl) (fun _ _ => rfl)
        fun _ _ _ hop hbody => h.inner (hp.nested_eq rfl) hop rfl (fun _ _ => rfl) hbody
  | .ifGroup n yes none, hp, m => by
    have hyes := emit_conveys h hgood yes (hp.mono (List.subset_cons_self _ _)) m
    refine ⟨emit_grows_any m.reverse (.ifGroup n yes none), fun next b hb => ?_⟩
    have hadded := hyes.grows.added next b
    exact h.ifGroup (hb.right hadded).push (hyes.conveys next b hb.init) .refl
  | .ifGroup n yes (some no), hp, m => by
    have hyes := emit_conveys h hgood yes (hp.mono fun f hf => by simp [features, hf]) m
    have hno := emit_conveys h hgood no (hp.mono fun f hf => by simp [features, hf]) m
    refine ⟨emit_grows_any m.reverse (.ifGroup n yes (some no)), fun next b hb => ?_⟩
    have hadded := hyes.grows.added next b
    have hadded' := hno.grows.added next (emit m.reverse yes next b).2
    have hlast := hb.init
    exact h.ifGroup (hb.right (hadded.trans hadded')).push
      (hyes.conveys next b (hlast.left hadded')) (hno.conveys next _ (hlast.right hadded))
  | .ifLook test yes none, hp, m => by
    have htest := emit_conveys h hgood test (hp.mono fun f hf => by simp [features, hf]) m
    have hyes := emit_conveys h hgood yes (hp.mono fun f hf => by simp [features, hf]) m
    refine ⟨emit_grows_any m.reverse (.ifLook test yes none), fun next b hb => ?_⟩
    have hadded := htest.grows.added none b
    have hadded' := hyes.grows.added next (emit m.reverse test none b).2
    have hlast := hb.init
    exact h.ifLook (hp.nested_eq rfl) (hb.right (hadded.trans hadded')).push
      (htest.conveys none b (hlast.left hadded')) (hyes.conveys next _ (hlast.right hadded)) .refl
  | .ifLook test yes (some no), hp, m => by
    have htest := emit_conveys h hgood test (hp.mono fun f hf => by simp [features, hf]) m
    have hyes := emit_conveys h hgood yes (hp.mono fun f hf => by simp [features, hf]) m
    have hno := emit_conveys h hgood no (hp.mono fun f hf => by simp [features, hf]) m
    refine ⟨emit_grows_any m.reverse (.ifLook test yes (some no)), ?_⟩
    intro next b hb
    have hadded := htest.grows.added none b
    have hadded' := hyes.grows.added next (emit m.reverse test none b).2
    -- The three parts are emitted one after the other, and the operation comes after all of them.
    have hadded'' :=
      hno.grows.added next (emit m.reverse yes next (emit m.reverse test none b).2).2
    have hlast := hb.init
    have hmid := hlast.left hadded''
    exact h.ifLook (hp.nested_eq rfl) (hb.right ((hadded.trans hadded').trans hadded'')).push
      (htest.conveys none b (hmid.left hadded')) (hyes.conveys next _ (hmid.right hadded))
      (hno.conveys next _ (hlast.right (hadded.trans hadded')))
  termination_by structural p => p

theorem emitSeq_conveys (h : Obeys D ops strict nested M) (hgood : ∃ x, D.good x) :
    (ps : List Pattern) → Told nested (featuresAll ps) → (m : Mode) →
    (emitSeq m.reverse ps).Conveys ops (M m) D.good strict (WalksSeq D strict m ps)
  | [], _, _ => .refl
  | p :: ps, hp, m => by
    have hfirst := emit_conveys h hgood p (hp.mono fun f hf => by simp [featuresAll, hf]) m
    have hrest := emitSeq_conveys h hgood ps (hp.mono fun f hf => by simp [featuresAll, hf]) m
    obtain ⟨reverse, opts⟩ := m
    cases reverse with
    | false => exact hfirst.seq hrest
    | true => exact hrest.seq hfirst
  termination_by structural ps => ps

theorem emitAll_conveys (h : Obeys D ops strict nested M) (hgood : ∃ x, D.good x) :
    (ps : List Pattern) → Told nested (featuresAll ps) → (m : Mode) →
    ∀ (next : Link) (b : Builder), Agrees ops b (emitAll m.reverse ps next b).2 →
    Conveys (M m) D.good strict (emitAll m.reverse ps next b).1 next (WalksOne D strict m ps)
  | [], _, _, _, _, _ => .nil
  | p :: ps, hp, m, next, b, hb => by
    have hfirst := emit_conveys h hgood p (hp.mono fun f hf => by simp [featuresAll, hf]) m
    obtain ⟨S, hgrows, -⟩ := emitAll_grows m.reverse ps (List.Subset.refl _) next
      (emit m.reverse p next b).2 {next} rfl
    have hrest := emitAll_conveys h hgood ps (hp.mono fun f hf => by simp [featuresAll, hf]) m
      next (emit m.reverse p next b).2 (hb.right (hfirst.grows.added next b))
    exact (hfirst.conveys next b (hb.left hgrows.added)).cons hrest
  termination_by structural ps => ps

end

end Pattern

end

end Regexp
