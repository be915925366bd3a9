import Mathlib.Data.List.Basic
import Mathlib.Logic.Function.Iterate
import Regexp.Proofs.Growth

/-!
# Counted repetition

A repetition with bounds is compiled to the very operations of its body written
out: as many copies as it needs, and then the copies that it may have, each
within the optional part before it, or a loop without bounds.  The statement is
an equation between programs, so whatever is true of patterns without counted
repetition is true of all of them, as far as programs go.

The compiler counts in loops that hand on the link and the operations made so
far.  Such a loop is an iteration of one step (`Emitter.copies_eq_iterate`,
`Emitter.optionals_eq_iterate`), and an iteration can be taken apart at either
end.  Written out, the same copies are nested the other way round: the part that
the loop makes first is the innermost one, because it is made from what follows
the repetition.  So the induction has to take off the last round of the loop,
and iterations make this possible.

A walk backward comes to the last part of a sequence first, so the expansion of
a repetition depends on the direction, by `Pattern.inOrder`.  The parts of a
sequence that the walk comes to later are compiled earlier,
`Pattern.emitSeq_inOrder_append`, and with this lemma the rest of the proof does
not mention the direction.

## Main definitions

* `Pattern.inOrder` — the parts of a sequence, given in the order of the walk.
* `Pattern.optional` — a body at most so often, each time within the optional
  part before.
* `Pattern.expansion` — what a repetition stands for.
* `Pattern.unrolled` — a pattern in which all repetitions are written out.

## Main statements

* `Emitter.copies_eq_iterate`, `Emitter.optionals_eq_iterate` — the loops of the
  compiler, as iterations of one step.
* `Pattern.emitSeq_inOrder_append` — a sequence is compiled after what the walk
  comes to later.
* `Pattern.emit_repetition_expanded` — counted repetition is its expansion.
* `Program.exists_unrolled` — repetitions may be written out everywhere in a
  pattern.
-/

namespace Regexp

/-! ### Loops of the compiler -/

namespace Emitter

variable (body : Emitter) (greedy : Bool) (next : Link) (n : ℕ) (r : Link × Builder)

/-- Copies are an iteration of the body. -/
theorem copies_eq_iterate :
    copies body n r.1 r.2 = (fun r : Link × Builder => body r.1 r.2)^[n] r := by
  induction n generalizing r with
  | zero => rfl
  | succ n ih =>
    rw [Function.iterate_succ_apply]
    exact ih (body r.1 r.2)

/-- The last copy is made from the others. -/
theorem copies_succ :
    copies body (n + 1) r.1 r.2 = body (copies body n r.1 r.2).1 (copies body n r.1 r.2).2 := by
  rw [copies_eq_iterate, copies_eq_iterate, Function.iterate_succ_apply']

/-- One optional part, which leads to what the parts made before it lead to.  It
is one round of the loop that makes them. -/
def optionalStep (r : Link × Builder) : Link × Builder :=
  (body r.1 r.2).2.push (.question (body r.1 r.2).1 greedy next)

/-- Optional parts are an iteration of one of them. -/
theorem optionals_eq_iterate :
    optionals body greedy next n r.1 r.2 = (optionalStep body greedy next)^[n] r := by
  induction n generalizing r with
  | zero => rfl
  | succ n ih =>
    rw [Function.iterate_succ_apply]
    exact ih (optionalStep body greedy next r)

/-- The outermost optional part is made last, from the others. -/
theorem optionals_succ : optionals body greedy next (n + 1) r.1 r.2 =
    optionalStep body greedy next (optionals body greedy next n r.1 r.2) := by
  rw [optionals_eq_iterate, optionals_eq_iterate, Function.iterate_succ_apply']

end Emitter

/-! ### Expansion -/

namespace Pattern

variable (reverse : Bool) (p : Pattern) (ps qs : List Pattern) (greedy : Bool) (n : ℕ)
  (next : Link) (b : Builder)

/-- The parts of a sequence, given in the order in which the walk comes to them:
a walk backward comes to the last part first. -/
def inOrder : List Pattern := if reverse then ps.reverse else ps

/-- A pattern at most so often, each time within the optional part before, so
that no part is left out in the middle. -/
def optional : ℕ → Pattern
  | 0 => .empty
  | n + 1 => .repetition (.concat (inOrder reverse [p, optional n])) 0 (some 1) greedy

/-- In the order of the text, the patterns of a sequence are compiled one after
the other for a walk backward. -/
theorem emitSeq_append : emitSeq true (ps ++ qs) next b =
    emitSeq true qs (emitSeq true ps next b).1 (emitSeq true ps next b).2 := by
  induction ps generalizing next b with
  | nil => rfl
  | cons q ps ih => exact ih (emit true q next b).1 (emit true q next b).2

/-- The part that the walk comes to first is compiled last, from the others. -/
theorem emitSeq_inOrder_cons : emitSeq reverse (inOrder reverse (p :: ps)) next b =
    emit reverse p (emitSeq reverse (inOrder reverse ps) next b).1
      (emitSeq reverse (inOrder reverse ps) next b).2 := by
  cases reverse with
  | false => rfl
  | true =>
    show emitSeq true (p :: ps).reverse next b = _
    rw [List.reverse_cons, emitSeq_append]
    rfl

/-- What the walk comes to later is compiled earlier. -/
theorem emitSeq_inOrder_append : emitSeq reverse (inOrder reverse (ps ++ qs)) next b =
    emitSeq reverse (inOrder reverse ps) (emitSeq reverse (inOrder reverse qs) next b).1
      (emitSeq reverse (inOrder reverse qs) next b).2 := by
  induction ps with
  | nil => cases reverse <;> rfl
  | cons p ps ih => rw [List.cons_append, emitSeq_inOrder_cons, emitSeq_inOrder_cons, ih]

/-- Copies of a pattern are a sequence. -/
theorem emitSeq_replicate : emitSeq reverse (inOrder reverse (List.replicate n p)) next b =
    Emitter.copies (emit reverse p) n next b := by
  induction n with
  | zero => cases reverse <;> rfl
  | succ n ih =>
    rw [List.replicate_succ, emitSeq_inOrder_cons, ih]
    exact (Emitter.copies_succ (emit reverse p) n (next, b)).symm

/-- Optional parts are nested: the one that is made last leads to the others. -/
theorem emit_optional : emit reverse (optional reverse p greedy n) next b =
    Emitter.optionals (emit reverse p) greedy next n next b := by
  induction n with
  | zero => rfl
  | succ n ih =>
    have hbody : emitSeq reverse (inOrder reverse [p, optional reverse p greedy n]) next b =
        emit reverse p (emit reverse (optional reverse p greedy n) next b).1
          (emit reverse (optional reverse p greedy n) next b).2 := by
      rw [emitSeq_inOrder_cons]
      cases reverse <;> rfl
    have hstep : emit reverse (optional reverse p greedy (n + 1)) next b =
        ((emitSeq reverse (inOrder reverse [p, optional reverse p greedy n]) next b).2.push
          (.question (emitSeq reverse (inOrder reverse [p, optional reverse p greedy n]) next b).1
            greedy next)) := rfl
    rw [hstep, hbody, ih]
    exact (Emitter.optionals_succ (emit reverse p) greedy next n (next, b)).symm

/-- What a repetition stands for: the copies that it needs, and then those that
it may have. -/
def expansion (min : ℕ) (max : Option ℕ) : Pattern :=
  .concat <| inOrder reverse <| List.replicate min p ++
    [match max with
      | some max => optional reverse p greedy (max - min)
      | none => .repetition p 0 none greedy]

/-- A repetition is compiled to the operations of its expansion, whatever
follows and whatever was compiled before. -/
theorem emit_repetition_eq_expansion (min : ℕ) (max : Option ℕ) :
    emit reverse (.repetition p min max greedy) next b =
      emit reverse (expansion reverse p greedy min max) next b := by
  have hexpansion : ∀ q, emit reverse
      (.concat (inOrder reverse (List.replicate min p ++ [q]))) next b =
        Emitter.copies (emit reverse p) min (emit reverse q next b).1
          (emit reverse q next b).2 := by
    intro q
    show emitSeq reverse (inOrder reverse (List.replicate min p ++ [q])) next b = _
    rw [emitSeq_inOrder_append, emitSeq_replicate]
    cases reverse <;> rfl
  cases max with
  | some max =>
    rw [expansion, hexpansion, emit_optional]
    rfl
  | none =>
    rw [expansion, hexpansion]
    rfl

/-- **Counted repetition is its expansion**, with an upper bound and without:
copies, then nested optional parts that all lead to what follows the repetition,
or a loop.  The operations are the same ones in the same places, in either
direction of the walk. -/
theorem emit_repetition_expanded :
    (∀ m, emit reverse (.repetition p n (some m) greedy) next b =
      emit reverse (.concat <| inOrder reverse <|
        List.replicate n p ++ [optional reverse p greedy (m - n)]) next b) ∧
    emit reverse (.repetition p n none greedy) next b =
      emit reverse (.concat <| inOrder reverse <|
        List.replicate n p ++ [.repetition p 0 none greedy]) next b := by
  constructor
  · intro m
    exact emit_repetition_eq_expansion reverse p greedy next b n (some m)
  · exact emit_repetition_eq_expansion reverse p greedy next b n none

/-- A body two to five times: `XX(X(X(X)?)?)?`. -/
example (x : Pattern) : expansion false x true 2 (some 5) =
    .concat [x, x, .repetition (.concat [x, .repetition (.concat [x,
      .repetition (.concat [x, .empty]) 0 (some 1) true]) 0 (some 1) true]) 0 (some 1) true] := rfl

/-! ### Whole patterns -/

mutual

/-- A pattern in which all repetitions are written out, those in bodies as well.
A body that is repeated is then there several times. -/
def unrolled (reverse : Bool) : Pattern → Pattern
  | .concat items => .concat (unrolledAll reverse items)
  | .union alternatives => .union (unrolledAll reverse alternatives)
  | .repetition body min max greedy => expansion reverse (unrolled reverse body) greedy min max
  | .group index body => .group index (unrolled reverse body)
  | .look kind body => .look kind (unrolled kind.isBehind body)
  | .independent body => .independent (unrolled reverse body)
  | .modifier add remove body => .modifier add remove (unrolled reverse body)
  | .ifGroup n yes none => .ifGroup n (unrolled reverse yes) none
  | .ifGroup n yes (some no) => .ifGroup n (unrolled reverse yes) (some (unrolled reverse no))
  | .ifLook test yes none => .ifLook (unrolled reverse test) (unrolled reverse yes) none
  | .ifLook test yes (some no) =>
    .ifLook (unrolled reverse test) (unrolled reverse yes) (some (unrolled reverse no))
  | p => p
  termination_by structural p => p

/-- Several patterns in which all repetitions are written out. -/
def unrolledAll (reverse : Bool) : List Pattern → List Pattern
  | [] => []
  | p :: ps => unrolled reverse p :: unrolledAll reverse ps
  termination_by structural ps => ps

end

mutual

theorem emit_unrolled (reverse : Bool) : (p : Pattern) →
    emit reverse (unrolled reverse p) = emit reverse p
  | .empty | .char _ | .string _ | .dot | .charClass _ _ | .anchor _ | .backref _ => rfl
  | .concat items => emitSeq_unrolled reverse items
  | .union alternatives => by
    funext next b
    simp only [unrolled, emit, emitAll_unrolled reverse alternatives]
  | .repetition body min max greedy => by
    funext next b
    rw [unrolled, ← emit_repetition_eq_expansion]
    simp only [emit, emit_unrolled reverse body]
  | .group none body => emit_unrolled reverse body
  | .group (some n) body => by
    funext next b
    simp only [unrolled, emit, emit_unrolled reverse body]
  | .look kind body => by
    funext next b
    simp only [unrolled, emit, emit_unrolled kind.isBehind body]
  | .independent body | .modifier _ _ body => by
    funext next b
    simp only [unrolled, emit, emit_unrolled reverse body]
  | .ifGroup n yes none => by
    funext next b
    simp only [unrolled, emit, emit_unrolled reverse yes]
  | .ifGroup n yes (some no) => by
    funext next b
    simp only [unrolled, emit, emit_unrolled reverse yes, emit_unrolled reverse no]
  | .ifLook test yes none => by
    funext next b
    simp only [unrolled, emit, emit_unrolled reverse test, emit_unrolled reverse yes]
  | .ifLook test yes (some no) => by
    funext next b
    simp only [unrolled, emit, emit_unrolled reverse test, emit_unrolled reverse yes,
      emit_unrolled reverse no]
  termination_by structural p => p

theorem emitSeq_unrolled (reverse : Bool) : (ps : List Pattern) →
    emitSeq reverse (unrolledAll reverse ps) = emitSeq reverse ps
  | [] => rfl
  | p :: ps => by
    funext next b
    simp only [unrolledAll, emitSeq, emit_unrolled reverse p, emitSeq_unrolled reverse ps]
  termination_by structural ps => ps

theorem emitAll_unrolled (reverse : Bool) : (ps : List Pattern) →
    emitAll reverse (unrolledAll reverse ps) = emitAll reverse ps
  | [] => rfl
  | p :: ps => by
    funext next b
    simp only [unrolledAll, emitAll, emit_unrolled reverse p, emitAll_unrolled reverse ps]
  termination_by structural ps => ps

end

/-- Whether a pattern is no repetition, an optional part or a loop without
bounds.  The machine has operations for these two only. -/
def IsOptionOrLoop : Pattern → Prop
  | .repetition _ min max _ => min = 0 ∧ (max = some 1 ∨ max = none)
  | _ => True

theorem mem_inOrder {q : Pattern} : q ∈ inOrder reverse ps ↔ q ∈ ps := by
  cases reverse with
  | false => rfl
  | true => exact List.mem_reverse

section

variable {p : Pattern} (hp : ∀ q ∈ p.subpatterns, q.IsOptionOrLoop)

include hp

theorem optional_isOptionOrLoop :
    ∀ q ∈ (optional reverse p greedy n).subpatterns, q.IsOptionOrLoop := by
  induction n with
  | zero => exact List.forall_mem_singleton.mpr trivial
  | succ n ih =>
    have hparts : ∀ r ∈ inOrder reverse [p, optional reverse p greedy n],
        ∀ q ∈ r.subpatterns, q.IsOptionOrLoop := by
      intro r hr
      rcases List.mem_pair.mp ((mem_inOrder reverse _).mp hr) with rfl | rfl
      · exact hp
      · exact ih
    exact List.forall_mem_cons.mpr ⟨⟨rfl, .inl rfl⟩,
      List.forall_mem_cons.mpr ⟨trivial, forall_mem_subpatternsAll hparts⟩⟩

theorem expansion_isOptionOrLoop (min : ℕ) (max : Option ℕ) :
    ∀ q ∈ (expansion reverse p greedy min max).subpatterns, q.IsOptionOrLoop := by
  refine List.forall_mem_cons.mpr ⟨trivial, forall_mem_subpatternsAll fun r hr => ?_⟩
  rcases List.mem_append.mp ((mem_inOrder reverse _).mp hr) with hr | hr
  · obtain rfl := List.eq_of_mem_replicate hr
    exact hp
  · obtain rfl := List.mem_singleton.mp hr
    cases max with
    | some max => exact optional_isOptionOrLoop reverse greedy (max - min) hp
    | none => exact List.forall_mem_cons.mpr ⟨⟨rfl, .inr rfl⟩, hp⟩

end

mutual

theorem unrolled_isOptionOrLoop (reverse : Bool) : (p : Pattern) →
    ∀ q ∈ (unrolled reverse p).subpatterns, q.IsOptionOrLoop
  | .empty | .char _ | .string _ | .dot | .charClass _ _ | .anchor _ | .backref _ =>
    List.forall_mem_singleton.mpr trivial
  | .concat items => List.forall_mem_cons.mpr ⟨trivial, unrolledAll_isOptionOrLoop reverse items⟩
  | .union alternatives =>
    List.forall_mem_cons.mpr ⟨trivial, unrolledAll_isOptionOrLoop reverse alternatives⟩
  | .repetition body min max greedy =>
    expansion_isOptionOrLoop reverse greedy (unrolled_isOptionOrLoop reverse body) min max
  | .look kind body =>
    List.forall_mem_cons.mpr ⟨trivial, unrolled_isOptionOrLoop kind.isBehind body⟩
  | .group _ body | .independent body | .modifier _ _ body | .ifGroup _ body none =>
    List.forall_mem_cons.mpr ⟨trivial, unrolled_isOptionOrLoop reverse body⟩
  | .ifGroup _ yes (some no) =>
    List.forall_mem_cons.mpr ⟨trivial, List.forall_mem_append.mpr
      ⟨unrolled_isOptionOrLoop reverse yes, unrolled_isOptionOrLoop reverse no⟩⟩
  | .ifLook test yes none =>
    List.forall_mem_cons.mpr ⟨trivial, List.forall_mem_append.mpr
      ⟨unrolled_isOptionOrLoop reverse test, unrolled_isOptionOrLoop reverse yes⟩⟩
  | .ifLook test yes (some no) =>
    List.forall_mem_cons.mpr ⟨trivial, List.forall_mem_append.mpr
      ⟨List.forall_mem_append.mpr
        ⟨unrolled_isOptionOrLoop reverse test, unrolled_isOptionOrLoop reverse yes⟩,
        unrolled_isOptionOrLoop reverse no⟩⟩
  termination_by structural p => p

theorem unrolledAll_isOptionOrLoop (reverse : Bool) : (ps : List Pattern) →
    ∀ q ∈ subpatternsAll (unrolledAll reverse ps), q.IsOptionOrLoop
  | [] => nofun
  | p :: ps => List.forall_mem_append.mpr
    ⟨unrolled_isOptionOrLoop reverse p, unrolledAll_isOptionOrLoop reverse ps⟩
  termination_by structural ps => ps

end

end Pattern

/-- **Every program is that of a pattern whose repetitions are optional parts
and loops.**  So counts need not be considered in what is said of programs. -/
theorem Program.exists_unrolled (p : Pattern) :
    ∃ q : Pattern, (∀ r ∈ q.subpatterns, r.IsOptionOrLoop) ∧ ofPattern q = ofPattern p := by
  refine ⟨p.unrolled false, p.unrolled_isOptionOrLoop false, ?_⟩
  have hbuild : build (p.unrolled false) = build p := by
    rw [build, build, Pattern.emit_unrolled]
  simp only [ofPattern, hbuild]

end Regexp
