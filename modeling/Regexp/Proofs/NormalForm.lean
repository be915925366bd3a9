import Mathlib.Logic.Relation
import Regexp.Proofs.Rereading
import Regexp.Proofs.Threading
import Regexp.Proofs.Transfer

/-!
# Sequences in normal form

A sequence is flattened, its empty parts are dropped and its neighbouring
literals are joined.  It does not matter whether this is done to the whole of it
or first to its pieces, and it does not change what is derived.

## A homomorphism

Patterns in sequence are put together by `Pattern.seq`, and the result may be
put into a sequence again.  That nothing depends on the order in which this
happens is `Pattern.seq_append`.  Joining is where it could go wrong: a piece
that was brought into normal form begins or ends with a literal which is one
construct now, and in the whole it has to be taken apart and joined with its
neighbour.  What was joined in front may be joined again, also with literals on
either side, and so may what was joined behind
(`Pattern.joinLiterals_joinLiterals_append`,
`Pattern.joinLiterals_append_joinLiterals`).

## A loop

A program that flattens a sequence keeps a stack of what is still to be read,
and the characters of the literal that is not finished.  `Pattern.Flattening` is
its state, and what it comes to is a function of the state that a round does not
change (`Pattern.Flattening.result_step`); so at the end it has made the
sequence in normal form, `Pattern.Flattening.run_eq_seq`.

## Readings

There are several accounts of what a pattern derives: between offsets, with the
captures of groups, and over all that a machine records.  A normal form should
change none of them.  All that is needed of an account is that a sequence is
composed of its parts and a string of its characters (`Pattern.IsSequential`),
and `Pattern.IsSequential.seq` is then the same proof for all of them.  A walk
backward comes to the last part first, so for what a machine does the parts are
composed in the order of the text (`Pattern.Spans`).

## Main definitions

* `Pattern.Flattening`, `Pattern.Flattening.run` — the state of a loop over a
  stack of patterns, and the loop.
* `Pattern.IsNormal` — lists of patterns that stand in a sequence in normal
  form.
* `Pattern.IsSequential` — readings under which a sequence is composed of its
  parts and a string of its characters.
* `Pattern.Spans` — what a pattern leads over, told in the order of the text in
  either direction.

## Main statements

* `Pattern.seq_append` — a sequence of sequences in normal form is the sequence
  of all their parts.
* `Pattern.Flattening.run_eq_seq` — the loop makes the sequence in normal form.
* `Pattern.IsSequential.seq` — no sequential reading tells a sequence from its
  normal form.
* `Pattern.seq_normalizes` — all of it together.
-/

namespace Regexp.Pattern

variable {p : Pattern} {ps qs items : List Pattern}

/-! ### Parts -/

/-- Whether a pattern is neither empty nor a sequence, and so can stand in a
sequence in normal form. -/
def isPart : Pattern → Bool
  | .empty | .concat _ => false
  | _ => true

theorem parts_of_isPart (h : p.isPart = true) : p.parts = [p] := by
  cases p with
  | empty | concat => cases h
  | _ => rfl

theorem partsOfAll_of_isPart (h : ∀ p ∈ ps, p.isPart = true) : partsOfAll ps = ps := by
  induction ps with
  | nil => rfl
  | cons p ps ih =>
    obtain ⟨hp, hps⟩ := List.forall_mem_cons.mp h
    rw [partsOfAll, parts_of_isPart hp, ih hps, List.singleton_append]

mutual

/-- What a pattern is taken apart into is neither empty nor a sequence. -/
theorem isPart_of_mem_parts : (p : Pattern) → ∀ q ∈ p.parts, q.isPart = true
  | .empty => nofun
  | .concat items => isPart_of_mem_partsOfAll items
  | .char _ | .string _ | .dot | .charClass _ _ | .anchor _ | .union _ | .repetition _ _ _ _
  | .group _ _ | .backref _ | .look _ _ | .independent _ | .modifier _ _ _ | .ifGroup _ _ _
  | .ifLook _ _ _ => List.forall_mem_singleton.mpr rfl
  termination_by structural p => p

theorem isPart_of_mem_partsOfAll : (ps : List Pattern) → ∀ q ∈ partsOfAll ps, q.isPart = true
  | [] => nofun
  | p :: ps =>
    List.forall_mem_append.mpr ⟨isPart_of_mem_parts p, isPart_of_mem_partsOfAll ps⟩
  termination_by structural ps => ps

end

/-- So is what their literals are joined to. -/
theorem isPart_of_mem_joined (ps : List Pattern) :
    ∀ p ∈ joinLiterals [] (partsOfAll ps), p.isPart = true :=
  forall_mem_joinLiterals (fun _ => rfl) (fun _ _ => rfl) [] (isPart_of_mem_partsOfAll ps)

/-- The parts of a sequence of parts are these parts, whether there is one of
them or many. -/
theorem parts_ofParts (h : ∀ p ∈ ps, p.isPart = true) : (ofParts ps).parts = ps := by
  rw [ofParts.eq_def]
  split
  · rfl
  · exact parts_of_isPart (h _ List.mem_cons_self)
  · exact partsOfAll_of_isPart h

theorem parts_seq (ps : List Pattern) : (seq ps).parts = joinLiterals [] (partsOfAll ps) :=
  parts_ofParts (isPart_of_mem_joined ps)

/-! ### Joining again -/

theorem consLiteral_append (pending : List Char) :
    consLiteral pending ps ++ qs = consLiteral pending (ps ++ qs) := by
  rw [consLiteral.eq_def, consLiteral.eq_def]
  split <;> rfl

/-- A literal that was made of pending characters is taken apart again, so
joining may be done in steps. -/
theorem joinLiterals_consLiteral (pending pending' : List Char) :
    joinLiterals pending (consLiteral pending' ps) = joinLiterals (pending' ++ pending) ps := by
  rw [consLiteral.eq_def]
  split
  · rfl
  · rfl
  · rw [joinLiterals, List.reverse_reverse]

/-- **What was joined in front may be joined again**, also with literals on
either side. -/
theorem joinLiterals_joinLiterals_append (pending pending' : List Char) :
    joinLiterals pending (joinLiterals pending' ps ++ qs) =
      joinLiterals (pending' ++ pending) (ps ++ qs) := by
  fun_induction joinLiterals pending' ps generalizing pending with
  | case1 pending' => rw [consLiteral_append, joinLiterals_consLiteral]
  | case2 pending' c ps ih => rw [ih, List.cons_append, List.cons_append, joinLiterals]
  | case3 pending' s ps ih => rw [ih, List.cons_append, joinLiterals, List.append_assoc]
  | case4 pending' p ps hchar hstring ih =>
    have hp : p.isLiteral = false := isLiteral_eq_false hchar hstring
    rw [consLiteral_append, joinLiterals_consLiteral, List.cons_append, List.cons_append,
      joinLiterals_cons _ hp, joinLiterals_cons _ hp, ih, List.nil_append]

theorem joinLiterals_joinLiterals (pending pending' : List Char) :
    joinLiterals pending (joinLiterals pending' ps) = joinLiterals (pending' ++ pending) ps := by
  have h : joinLiterals pending (joinLiterals pending' ps ++ []) =
      joinLiterals (pending' ++ pending) (ps ++ []) :=
    joinLiterals_joinLiterals_append pending pending'
  rwa [List.append_nil, List.append_nil] at h

/-- So may what was joined behind. -/
theorem joinLiterals_append_joinLiterals (pending : List Char) :
    joinLiterals pending (ps ++ joinLiterals [] qs) = joinLiterals pending (ps ++ qs) := by
  induction ps generalizing pending with
  | nil => exact joinLiterals_joinLiterals pending []
  | cons p ps ih =>
    cases hp : p.isLiteral with
    | false =>
      rw [List.cons_append, List.cons_append, joinLiterals_cons _ hp, joinLiterals_cons _ hp, ih]
    | true =>
      cases p with
      | char c => exact ih (c :: pending)
      | string s => exact ih (s.reverse ++ pending)
      | _ => cases hp

/-- **A sequence of two sequences in normal form is the sequence of all their
parts.** -/
theorem seq_append (ps qs : List Pattern) : seq [seq ps, seq qs] = seq (ps ++ qs) := by
  have hparts : partsOfAll [seq ps, seq qs] =
      joinLiterals [] (partsOfAll ps) ++ joinLiterals [] (partsOfAll qs) := by
    rw [partsOfAll, partsOfAll, partsOfAll, parts_seq, parts_seq, List.append_nil]
  rw [seq, hparts, joinLiterals_joinLiterals_append, joinLiterals_append_joinLiterals,
    List.nil_append, ← partsOfAll_append, seq]

/-! ### The loop -/

/-- The state of a loop that flattens a sequence.  The loop has a stack, so that
sequences within sequences need no recursion. -/
structure Flattening where
  /-- The patterns that are still to be read, the next one first. -/
  stack : List Pattern
  /-- The characters that were read after the last part. -/
  literal : List Char
  /-- The parts that are finished. -/
  flat : List Pattern

namespace Flattening

variable {f f' : Flattening}

/-- The finished parts and the literal, which becomes a part of its own unless
it is empty. -/
def flushed (f : Flattening) : List Pattern :=
  match f.literal with
  | [] => f.flat
  | [c] => f.flat ++ [.char c]
  | cs => f.flat ++ [.string cs]

/-- One round of the loop, unless there is nothing left to read.  A literal is
gathered until something else comes. -/
def step (f : Flattening) : Option Flattening :=
  match f.stack with
  | [] => none
  | .empty :: stack => some ⟨stack, f.literal, f.flat⟩
  | .concat items :: stack => some ⟨items ++ stack, f.literal, f.flat⟩
  | .char c :: stack => some ⟨stack, f.literal ++ [c], f.flat⟩
  | .string cs :: stack => some ⟨stack, f.literal ++ cs, f.flat⟩
  | p :: stack => some ⟨stack, [], f.flushed ++ [p]⟩

theorem sizeOf_append (ps qs : List Pattern) :
    sizeOf (ps ++ qs) + 1 = sizeOf ps + sizeOf qs := by
  induction ps with
  | nil => simp [Nat.add_comm]
  | cons p ps ih => simp; omega

/-- Each round leaves less to read.  A sequence on the stack is replaced by its
parts, which are smaller together. -/
theorem sizeOf_stack_lt (h : f.step = some f') : sizeOf f'.stack < sizeOf f.stack := by
  obtain ⟨stack, literal, flat⟩ := f
  cases stack with
  | nil => cases h
  | cons p stack =>
    cases p with
    | concat items =>
      cases h
      have := sizeOf_append items stack
      simp
      omega
    | _ =>
      cases h
      simp

/-- The rounds of the loop, and the sequence of the parts in the end. -/
def run (f : Flattening) : Pattern :=
  match _h : f.step with
  | some f' => f'.run
  | none => ofParts f.flushed
  termination_by sizeOf f.stack
  decreasing_by exact sizeOf_stack_lt _h

/-- The parts that the loop comes to.  The literal is read forward here, and it
is pending in reverse order where literals are joined. -/
def result (f : Flattening) : List Pattern :=
  f.flat ++ joinLiterals f.literal.reverse (partsOfAll f.stack)

theorem flushed_eq (f : Flattening) : f.flushed = f.flat ++ consLiteral f.literal.reverse [] := by
  obtain ⟨stack, _ | ⟨c, _ | ⟨d, cs⟩⟩, flat⟩ := f
  · exact (List.append_nil flat).symm
  · rfl
  · rw [consLiteral_string (by simp)]
    rfl

/-- A part that is no literal finishes the literal before it. -/
theorem result_flushed (stack : List Pattern) (literal : List Char) (flat : List Pattern)
    (hpart : p.isPart = true) (hp : p.isLiteral = false) :
    result ⟨stack, [], flushed ⟨p :: stack, literal, flat⟩ ++ [p]⟩ =
      result ⟨p :: stack, literal, flat⟩ := by
  have hparts : partsOfAll (p :: stack) = p :: partsOfAll stack := by
    rw [partsOfAll, parts_of_isPart hpart, List.singleton_append]
  rw [result, result, flushed_eq, hparts, joinLiterals_cons _ hp, List.append_assoc,
    List.append_assoc, ← List.append_assoc (consLiteral _ _), consLiteral_append,
    consLiteral_append]
  rfl

/-- **A round does not change what the loop comes to.** -/
theorem result_step (h : f.step = some f') : f'.result = f.result := by
  obtain ⟨stack, literal, flat⟩ := f
  cases stack with
  | nil => cases h
  | cons p stack =>
    cases p with
    | empty =>
      cases h
      rfl
    | concat items =>
      cases h
      rw [result, result, partsOfAll_append, partsOfAll, parts]
    | char c =>
      cases h
      rw [result, List.reverse_append]
      rfl
    | string cs =>
      cases h
      rw [result, List.reverse_append]
      rfl
    | _ =>
      cases h
      exact result_flushed stack literal flat rfl rfl

theorem run_eq (f : Flattening) : f.run = ofParts f.result := by
  fun_induction run f with
  | case1 f f' h ih => rw [ih, result_step h]
  | case2 f h =>
    obtain ⟨_ | ⟨p, stack⟩, literal, flat⟩ := f
    · rw [flushed_eq]
      rfl
    · cases p <;> cases h

/-- **The loop makes the sequence in normal form.** -/
theorem run_eq_seq (ps : List Pattern) : run ⟨ps, [], []⟩ = seq ps := run_eq _

end Flattening

/-! ### Normal forms -/

/-- Whether patterns stand in a sequence in normal form: at least two, none of
them empty or a sequence, and no two literals side by side. -/
structure IsNormal (items : List Pattern) : Prop where
  two_le : 2 ≤ items.length
  ne_empty : ∀ p ∈ items, p ≠ .empty
  ne_concat : ∀ p ∈ items, ∀ ps, p ≠ .concat ps
  isChain : items.IsChain fun p q => ¬ (p.isLiteral = true ∧ q.isLiteral = true)

/-- A sequence in normal form, if it is a sequence.  Otherwise there are fewer
than two parts. -/
theorem isNormal_of_seq (h : seq ps = .concat items) : IsNormal items := by
  have hparts := isPart_of_mem_joined ps
  have hchain := isChain_joinLiterals [] (partsOfAll ps)
  rw [seq, ofParts.eq_def] at h
  split at h
  · cases h
  · -- The only part is not a sequence itself.
    rename_i p heq
    have hp := hparts p (heq ▸ List.mem_cons_self)
    rw [h] at hp
    cases hp
  · rename_i hnil hone
    cases h
    refine ⟨two_le_length hnil hone, ?_, ?_, hchain⟩
    · rintro p hp rfl
      cases hparts _ hp
    · rintro p hp ps rfl
      cases hparts _ hp

/-! ### Readings -/

open Relation (Comp)

/-- Whether patterns are read as relations so that a sequence is composed of its
parts, and a string of its characters.  Nothing else is needed to see that the
normal form is read alike, `IsSequential.seq`. -/
structure IsSequential {X : Type} (R : Pattern → X → X → Prop) : Prop where
  empty : R .empty = Eq
  concat_nil : R (.concat []) = Eq
  concat_cons : ∀ p ps, R (.concat (p :: ps)) = Comp (R p) (R (.concat ps))
  char : ∀ c, R (.char c) = R (.string [c])
  string_nil : R (.string []) = Eq
  string_append : ∀ cs ds, R (.string (cs ++ ds)) = Comp (R (.string cs)) (R (.string ds))

namespace IsSequential

variable {X : Type} {R : Pattern → X → X → Prop} (h : IsSequential R)

include h

theorem concat_singleton : R (.concat [p]) = R p := by
  rw [h.concat_cons, h.concat_nil, Relation.comp_eq]

theorem concat_append : R (.concat (ps ++ qs)) = Comp (R (.concat ps)) (R (.concat qs)) := by
  induction ps with
  | nil => rw [h.concat_nil, Relation.eq_comp, List.nil_append]
  | cons p ps ih => rw [List.cons_append, h.concat_cons, h.concat_cons, ih, Relation.comp_assoc]

mutual

theorem concat_parts : (p : Pattern) → R (.concat p.parts) = R p
  | .empty => h.concat_nil.trans h.empty.symm
  | .concat items => concat_partsOfAll items
  | .char _ | .string _ | .dot | .charClass _ _ | .anchor _ | .union _ | .repetition _ _ _ _
  | .group _ _ | .backref _ | .look _ _ | .independent _ | .modifier _ _ _ | .ifGroup _ _ _
  | .ifLook _ _ _ => h.concat_singleton
  termination_by structural p => p

theorem concat_partsOfAll : (ps : List Pattern) → R (.concat (partsOfAll ps)) = R (.concat ps)
  | [] => rfl
  | p :: ps => by
    rw [partsOfAll, h.concat_append, concat_parts p, concat_partsOfAll ps, h.concat_cons]
  termination_by structural ps => ps

end

/-- Pending characters are read in front of the rest, also if there are none. -/
theorem concat_consLiteral (pending : List Char) :
    R (.concat (consLiteral pending ps)) = Comp (R (.string pending.reverse)) (R (.concat ps)) := by
  rw [consLiteral.eq_def]
  split
  · rw [List.reverse_nil, h.string_nil, Relation.eq_comp]
  · rw [h.concat_cons, h.char]
    rfl
  · rw [h.concat_cons]

theorem concat_joinLiterals (pending : List Char) :
    R (.concat (joinLiterals pending ps)) =
      Comp (R (.string pending.reverse)) (R (.concat ps)) := by
  fun_induction joinLiterals pending ps with
  | case1 pending => exact h.concat_consLiteral pending
  | case2 pending c ps ih =>
    rw [ih, List.reverse_cons, h.string_append, h.concat_cons, h.char, Relation.comp_assoc]
  | case3 pending s ps ih =>
    rw [ih, List.reverse_append, List.reverse_reverse, h.string_append, h.concat_cons,
      Relation.comp_assoc]
  | case4 pending p ps _ _ ih =>
    rw [h.concat_consLiteral, h.concat_cons, ih, List.reverse_nil, h.string_nil, Relation.eq_comp,
      h.concat_cons]

theorem ofParts (ps : List Pattern) : R (ofParts ps) = R (.concat ps) := by
  rw [ofParts.eq_def]
  split
  · rw [h.empty, h.concat_nil]
  · rw [h.concat_singleton]
  · rfl

/-- **A sequence is read as its normal form is.** -/
theorem seq (ps : List Pattern) : R (seq ps) = R (.concat ps) := by
  rw [Pattern.seq, h.ofParts, h.concat_joinLiterals, List.reverse_nil, h.string_nil,
    Relation.eq_comp, h.concat_partsOfAll]

end IsSequential

section

variable (t : Target) (s : Span) (opts : Options)

theorem isSequential_derives (strict reverse : Bool) :
    IsSequential (Derives t s strict reverse opts) where
  empty := rfl
  concat_nil := rfl
  concat_cons _ _ := rfl
  char _ := rfl
  string_nil := rfl
  string_append _ _ := funext fun _ => funext fun _ => propext Target.spells_append

theorem isSequential_threads (nonempty : Bool) : IsSequential (Threads t s nonempty opts) := by
  have hstring : ∀ cs x y, Threads t s nonempty opts (.string cs) x y ↔
      y.captured = x.captured ∧ t.Spells s opts.caseInsensitive x.offset cs y.offset :=
    fun _ _ _ => Iff.rfl
  have hstay : ∀ x y : Stage, y.captured = x.captured ∧ x.offset = y.offset ↔ x = y := by
    rintro ⟨i, captured⟩ ⟨j, captured'⟩
    simp [and_comm, eq_comm]
  refine ⟨?_, rfl, fun _ _ => rfl, fun _ => rfl, ?_, fun cs ds => ?_⟩
  · ext x y
    exact hstay x y
  · ext x y
    exact hstay x y
  · ext x y
    simp only [Comp, hstring, Target.spells_append]
    constructor
    · rintro ⟨hcaptured, k, hcs, hds⟩
      exact ⟨⟨k, x.captured⟩, ⟨rfl, hcs⟩, hcaptured, hds⟩
    · rintro ⟨z, ⟨hz, hcs⟩, hy, hds⟩
      exact ⟨hy.trans hz, z.offset, hcs, hds⟩

end

section

variable {a : Attempt} {strict : Bool} {m : Mode}

/-- Whether a pattern leads over the part between two places in the span, with
all that is recorded on the way, in the direction of the walk. -/
def Spans (a : Attempt) (strict : Bool) (m : Mode) (p : Pattern)
    (x y : {x : Place // a.InSpan x.offset}) : Prop :=
  if m.reverse then Walks (.places a) strict m p y x else Walks (.places a) strict m p x y

theorem inSpan_of_walks (ht : a.OnText) {x y : Place} (hx : a.InSpan x.offset)
    (h : Walks (.places a) strict m p x y) : a.InSpan y.offset :=
  Walks.good Meaning.places_over ht hx h

theorem spans_stay {x y : {x : Place // a.InSpan x.offset}} :
    (if m.reverse then y.1 = x.1 else x.1 = y.1) ↔ x = y := by
  split
  · rw [eq_comm, Subtype.ext_iff]
  · rw [Subtype.ext_iff]

/-- The first part stands in front in either direction; the walk comes to it
first or last. -/
theorem spans_concat_cons (ht : a.OnText) {x y : {x : Place // a.InSpan x.offset}} :
    Spans a strict m (.concat (p :: ps)) x y ↔
      ∃ z, Spans a strict m p x z ∧ Spans a strict m (.concat ps) z y := by
  have hcons : ∀ x y, Walks (.places a) strict m (.concat (p :: ps)) x y ↔
      if m.reverse then
        ∃ z, Walks (.places a) strict m (.concat ps) x z ∧ Walks (.places a) strict m p z y
      else ∃ z, Walks (.places a) strict m p x z ∧ Walks (.places a) strict m (.concat ps) z y :=
    fun _ _ => walksSeq_cons
  simp only [Spans]
  split
  · rename_i hreverse
    rw [hcons, if_pos hreverse]
    constructor
    · rintro ⟨z, hps, hp⟩
      exact ⟨⟨z, inSpan_of_walks ht y.2 hps⟩, hp, hps⟩
    · rintro ⟨z, hp, hps⟩
      exact ⟨z, hps, hp⟩
  · rename_i hreverse
    rw [hcons, if_neg hreverse]
    constructor
    · rintro ⟨z, hp, hps⟩
      exact ⟨⟨z, inSpan_of_walks ht x.2 hp⟩, hp, hps⟩
    · rintro ⟨z, hp, hps⟩
      exact ⟨z, hp, hps⟩

theorem spans_string (ht : a.OnText) {cs : List Char} {x y : {x : Place // a.InSpan x.offset}} :
    Spans a strict m (.string cs) x y ↔ x.1.slots = y.1.slots ∧
      a.target.Spells a.span m.opts.caseInsensitive x.1.offset cs y.1.offset := by
  have hread : ∀ x y : Place, a.InSpan x.offset → (Walks (.places a) strict m (.string cs) x y ↔
      y.slots = x.slots ∧ Walk m.reverse (fun i j =>
        a.target.Spells a.span m.opts.caseInsensitive i cs j) x.offset y.offset) :=
    fun x y hx => and_comm.trans (and_congr_right' (Attempt.read_string_iff ht hx))
  rw [Spans]
  split
  · rename_i hreverse
    rw [hread _ _ y.2, hreverse, walk_true]
  · rename_i hreverse
    rw [hread _ _ x.2, eq_false_of_ne_true hreverse, walk_false]
    exact and_congr_left' eq_comm

theorem spans_char (ht : a.OnText) {c : Char} {x y : {x : Place // a.InSpan x.offset}} :
    Spans a strict m (.char c) x y ↔ Spans a strict m (.string [c]) x y := by
  have hread : ∀ x y : Place, a.InSpan x.offset → (Walks (.places a) strict m (.char c) x y ↔
      Walks (.places a) strict m (.string [c]) x y) := fun x y hx =>
    and_congr_left' ((Attempt.read_char_iff ht hx).trans (Attempt.read_string_iff ht hx).symm)
  rw [Spans, Spans, hread _ _ x.2, hread _ _ y.2]

theorem isSequential_spans (ht : a.OnText) : IsSequential (Spans a strict m) := by
  refine ⟨?_, ?_, fun p ps => ?_, fun c => ?_, ?_, fun cs ds => ?_⟩
  · ext x y
    exact spans_stay
  · ext x y
    exact spans_stay
  · ext x y
    exact spans_concat_cons ht
  · ext x y
    exact spans_char ht
  · ext ⟨⟨i, sl⟩, hi⟩ ⟨⟨j, sl'⟩, hj⟩
    rw [spans_string ht]
    simp [Target.Spells, and_comm]
  · ext x y
    simp only [Comp, spans_string ht, Target.spells_append]
    constructor
    · rintro ⟨hslots, k, hcs, hds⟩
      have hk : a.InSpan k := hcs.bounds x.2.1 x.2.2
      exact ⟨⟨⟨k, x.1.slots⟩, hk⟩, ⟨rfl, hcs⟩, hslots, hds⟩
    · rintro ⟨z, ⟨hz, hcs⟩, hy, hds⟩
      exact ⟨hz.trans hy, z.1.offset, hcs, hds⟩

/-- A walk through a sequence is one through its normal form, with the same
captures. -/
theorem walks_seq (ht : a.OnText) {x y : Place} (hx : a.InSpan x.offset) :
    Walks (.places a) strict m (seq ps) x y ↔ Walks (.places a) strict m (.concat ps) x y := by
  have hspans : Spans a strict m (seq ps) = Spans a strict m (.concat ps) :=
    (isSequential_spans ht).seq ps
  have hwalks : ∀ p, Walks (.places a) strict m p x y ↔
      ∃ hy : a.InSpan y.offset, if m.reverse then Spans a strict m p ⟨y, hy⟩ ⟨x, hx⟩
        else Spans a strict m p ⟨x, hx⟩ ⟨y, hy⟩ := by
    intro p
    simp only [Spans]
    cases m.reverse <;> exact ⟨fun h => ⟨inSpan_of_walks ht hx h, h⟩, fun ⟨_, h⟩ => h⟩
  rw [hwalks, hwalks, hspans]

end

/-- **A sequence in normal form is a sequence of its parts, whichever way it is
made.**  The loop over a stack makes it; it is the same whether the pieces are
brought into normal form first or not; if it is a sequence, it has at least two
parts, none of them empty or a sequence, and no two literals side by side; and
it has the derivations of the plain sequence: between offsets, with the captures
of groups, and over all that a machine records, in both directions. -/
theorem seq_normalizes (xs ys : List Pattern) :
    Flattening.run ⟨xs, [], []⟩ = seq xs ∧
      seq [seq xs, seq ys] = seq (xs ++ ys) ∧
      (∀ items, seq xs = .concat items → IsNormal items) ∧
      (∀ t s strict reverse opts i j, Derives t s strict reverse opts (seq xs) i j ↔
        Derives t s strict reverse opts (.concat xs) i j) ∧
      (∀ t s nonempty opts x y, Threads t s nonempty opts (seq xs) x y ↔
        Threads t s nonempty opts (.concat xs) x y) ∧
      ∀ a : Attempt, a.OnText → ∀ strict m x y, a.InSpan x.offset →
        (Walks (.places a) strict m (seq xs) x y ↔
          Walks (.places a) strict m (.concat xs) x y) := by
  refine ⟨Flattening.run_eq_seq xs, seq_append xs ys, fun items => isNormal_of_seq, ?_, ?_, ?_⟩
  · intro t s strict reverse opts i j
    rw [(isSequential_derives t s opts strict reverse).seq]
  · intro t s nonempty opts x y
    rw [(isSequential_threads t s opts nonempty).seq]
  · intro a ht strict m x y hx
    exact walks_seq ht hx

/-- A literal goes on from one sequence to the next, past parts that are empty. -/
example : seq [seq [.char 'a', .concat [.dot, .string ['b']]], .empty,
    seq [.string [], .concat [.concat [], .string ['c', 'd']], .char 'e']] =
      .concat [.char 'a', .dot, .string ['b', 'c', 'd', 'e']] := rfl

end Regexp.Pattern
