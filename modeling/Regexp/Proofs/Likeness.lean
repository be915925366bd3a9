import Mathlib
import Regexp.Proofs.Reading
import Regexp.Proofs.RoundTrip

/-!
# Programs that are alike

The program of a pattern and that of the pattern which its text is read as have
the same operations, except that a class operation may have another set with the
same effect.

Equality is too much to ask for.  A negated class without characters is written
as the class of all characters, and the operation that results has another set
and another sign.  `Op.Alike` allows for this and nothing else: two class
operations are alike if they accept the same characters, with regard to case and
without it, which is what the machine asks of them (`Atom.accepts`).

The proof goes along the compiler.  `Emitter.Alike` says that two emitters add
operations that are alike to operations that are alike, and return the same
link; since indices are the same on both sides, all that depends on them is
equal and not only alike.  `Pattern.emit_reread` is then an induction over the
pattern, with what it is read again as on the other side (`Pattern.reread`).
The groups without an index that are added in the text emit nothing, and a part
that was repeated is repeated within such a group.

## Main definitions

* `Atom.accepts` — whether a class operation accepts a character.
* `Op.Alike`, `Program.Alike` — operations and programs that only differ in the
  sets of classes that accept the same characters.

## Main statements

* `Pattern.ofPattern_reread` — what a pattern is read again as has a program
  alike.
* `Pattern.parse_print` — the text of a pattern is read as one with a program
  alike.
-/

namespace Regexp

/-! ### Operations -/

/-- Whether a class operation accepts a character, without regard to case or
with it.  This is the test with which `Attempt.read` reads a character for the
operation. -/
def Atom.accepts (set : CharSet) (folded : Option CharSet) (negated fold : Bool) (c : Char) :
    Bool := (if fold then folded.getD set else set).contains c != negated

/-- Operations that are equal, or that are classes which accept the same
characters. -/
inductive Op.Alike : Op → Op → Prop
  | refl (op : Op) : Alike op op
  | range {set set' : CharSet} {folded folded' : Option CharSet} {negated negated' : Bool}
    (next : Link)
    (h : ∀ fold c,
      Atom.accepts set folded negated fold c = Atom.accepts set' folded' negated' fold c) :
    Alike (.atom (.range set folded negated) next) (.atom (.range set' folded' negated') next)

/-- Whether operations at the same indices are alike, among equally many. -/
structure Op.AllAlike (ops ops' : Array Op) : Prop where
  size_eq : ops.size = ops'.size
  alike : ∀ {i : ℕ} {op op' : Op}, ops[i]? = some op → ops'[i]? = some op' → op.Alike op'

/-- Whether two programs are the same but for classes that accept the same
characters.  A search cannot tell them apart. -/
structure Program.Alike (p q : Program) : Prop where
  start_eq : p.start = q.start
  closureLen_eq : p.closureLen = q.closureLen
  ops_alike : Op.AllAlike p.ops q.ops

/-- The class that is written for another one accepts the same characters. -/
theorem accepts_writtenClass (set : CharSet) (negated fold : Bool) (c : Char) :
    Atom.accepts (Pattern.writtenClass set negated).1
      (Pattern.foldedSet (Pattern.writtenClass set negated).1)
      (Pattern.writtenClass set negated).2 fold c =
        Atom.accepts set (Pattern.foldedSet set) negated fold c := by
  rw [Pattern.writtenClass]
  split
  · rename_i hempty
    have hnone : (if fold then (Pattern.foldedSet set).getD set else set).contains c = false := by
      rw [Bool.eq_false_iff, ne_eq, Attempt.contains_classSet]
      rintro ⟨d, hd, -⟩
      rw [CharSet.contains_of_isEmpty hempty] at hd
      cases hd
    have hall : (if fold then (Pattern.foldedSet .full).getD .full else .full).contains c = true :=
      (Attempt.contains_classSet _ _ _).mpr
        ⟨c, CharSet.contains_full c, by cases fold <;> simp [Case.charsMatch]⟩
    simp [Atom.accepts, hnone, hall]
  · rfl

/-! ### Builders -/

namespace Builder

/-- Whether two builders have made operations that are alike. -/
structure Alike (b b' : Builder) : Prop where
  closureLen_eq : b.closureLen = b'.closureLen
  ops_alike : Op.AllAlike b.ops b'.ops

variable {b b' : Builder} {op op' : Op}

theorem Alike.refl (b : Builder) : b.Alike b :=
  ⟨rfl, rfl, fun h h' => by cases h.symm.trans h'; exact .refl _⟩

/-- A link and a builder, and others that are alike. -/
def SameLink (r r' : Link × Builder) : Prop := r.1 = r'.1 ∧ r.2.Alike r'.2

/-- What is done after either of them leads to likeness again. -/
theorem SameLink.bind {r r' : Link × Builder} {f f' : Emitter} (h : SameLink r r')
    (hf : ∀ link b b', b.Alike b' → SameLink (f link b) (f' link b')) :
    SameLink (f r.1 r.2) (f' r'.1 r'.2) := h.1 ▸ hf r.1 _ _ h.2

theorem Alike.push (h : b.Alike b') (hop : op.Alike op') : SameLink (b.push op) (b'.push op') := by
  refine ⟨congrArg some h.ops_alike.size_eq, h.closureLen_eq, ?_, ?_⟩
  · simp [Builder.push, h.ops_alike.size_eq]
  · intro i o o' ho ho'
    simp only [Builder.push, Array.getElem?_push, h.ops_alike.size_eq] at ho ho'
    split at ho
    · rw [if_pos ‹_›] at ho'
      cases ho
      cases ho'
      exact hop
    · rw [if_neg ‹_›] at ho'
      exact h.ops_alike.alike ho ho'

theorem Alike.reserve (h : b.Alike b') : b.reserve.Alike b'.reserve :=
  ⟨congrArg (· + 1) h.closureLen_eq, (h.push (.refl .fail)).2.ops_alike⟩

theorem Alike.patch (h : b.Alike b') (i : ℕ) (op : Op) : (b.patch i op).Alike (b'.patch i op) := by
  refine ⟨h.closureLen_eq, ?_, ?_⟩
  · simp [Builder.patch, h.ops_alike.size_eq]
  · intro j o o' ho ho'
    simp only [Builder.patch, Array.getElem?_setIfInBounds, h.ops_alike.size_eq] at ho ho'
    split at ho
    · rw [if_pos ‹_›] at ho'
      split at ho
      · rw [if_pos ‹_›] at ho'
        cases ho
        cases ho'
        exact .refl _
      · cases ho
    · rw [if_neg ‹_›] at ho'
      exact h.ops_alike.alike ho ho'

end Builder

/-! ### Emitters -/

namespace Emitter

open Builder (SameLink)

/-- Whether two emitters add operations that are alike to such. -/
def Alike (e e' : Emitter) : Prop :=
  ∀ next b b', Builder.Alike b b' → SameLink (e next b) (e' next b')

variable {e e' : Emitter} {b b' : Builder}

theorem Alike.copies (h : e.Alike e') (n : ℕ) : (copies e n).Alike (copies e' n) := by
  induction n with
  | zero => exact fun _ _ _ hb => ⟨rfl, hb⟩
  | succ n ih => exact fun tail b b' hb => (h tail b b' hb).bind ih

theorem Alike.optionals (h : e.Alike e') (greedy : Bool) (next : Link) (n : ℕ) :
    (optionals e greedy next n).Alike (optionals e' greedy next n) := by
  induction n with
  | zero => exact fun _ _ _ hb => ⟨rfl, hb⟩
  | succ n ih =>
    exact fun tail b b' hb => (h tail b b' hb).bind fun child b b' hb =>
      (hb.push (.refl (.question child greedy next))).bind ih

theorem Alike.closure (h : e.Alike e') (greedy : Bool) :
    (closure e greedy).Alike (closure e' greedy) := by
  intro next b b' hb
  obtain ⟨hlink, hbody⟩ := h (some b.ops.size) _ _ hb.reserve
  refine ⟨congrArg some hb.ops_alike.size_eq, ?_⟩
  have hpatched := hbody.patch b.ops.size
    (.closure b.closureLen ((e (some b.ops.size) b.reserve).1.getD b.ops.size) greedy next)
  show (Builder.patch _ _ _).Alike (Builder.patch _ _ _)
  rw [← hb.closureLen_eq, ← hb.ops_alike.size_eq, ← hlink]
  exact hpatched

theorem Alike.repetition (h : e.Alike e') (min : ℕ) (max : Option ℕ) (greedy : Bool) :
    (repetition e min max greedy).Alike (repetition e' min max greedy) := by
  intro next b b' hb
  cases max with
  | none => exact (h.closure greedy next b b' hb).bind (h.copies min)
  | some max => exact (h.optionals greedy next (max - min) next b b' hb).bind (h.copies min)

end Emitter

/-! ### Patterns -/

namespace Pattern

open Builder (SameLink)

mutual

/-- **A pattern and what it is read again as** emit operations that are alike.
A class may have become the complement of another one, and a group without a
number emits nothing. -/
theorem emit_reread (reverse : Bool) : (p : Pattern) →
    Emitter.Alike (emit reverse p) (emit reverse p.reread)
  | .empty => fun _ _ _ hb => ⟨rfl, hb⟩
  | .char _ | .string _ | .dot | .anchor _ | .backref _ => fun _ _ _ hb => hb.push (.refl _)
  | .charClass set negated => fun next _ _ hb =>
    hb.push (.range next fun fold c => (accepts_writtenClass set negated fold c).symm)
  | .concat items => emitSeq_reread reverse items
  | .union alternatives => fun next b b' hb => by
    obtain ⟨hlinks, hb⟩ := emitAll_reread reverse alternatives next b b' hb
    show SameLink (Builder.push _ (.union _)) (Builder.push _ (.union _))
    rw [hlinks]
    exact hb.push (.refl _)
  | .repetition body min max greedy => by
    -- A group without an index emits what its body emits.
    have h : Emitter.Alike (emit reverse body) (emit reverse
        (if body.isAtom then body.reread else .group none body.reread)) := by
      split <;> exact emit_reread reverse body
    exact h.repetition min max greedy
  | .group none body => emit_reread reverse body
  | .group (some n) body => fun next b b' hb => by
    have hmarks : ∀ first last, Emitter.Alike
        (fun next b =>
          let (link, b) := b.push (.mark n last next)
          let (link, b) := emit reverse body link b
          b.push (.mark n first link))
        (fun next b =>
          let (link, b) := b.push (.mark n last next)
          let (link, b) := emit reverse body.reread link b
          b.push (.mark n first link)) := fun first last next b b' hb =>
      (hb.push (.refl (.mark n last next))).bind fun link b b' hb =>
        (emit_reread reverse body link b b' hb).bind fun link b b' hb =>
          hb.push (.refl (.mark n first link))
    cases reverse
    · exact hmarks .start .stop next b b' hb
    · exact hmarks .stop .start next b b' hb
  | .look kind body => fun next b b' hb =>
    (emit_reread kind.isBehind body none b b' hb).bind fun child b b' hb =>
      hb.push (.refl (.look kind child next))
  | .independent body => fun next b b' hb =>
    (emit_reread reverse body none b b' hb).bind fun child b b' hb =>
      hb.push (.refl (.independent child next))
  | .modifier add remove body => fun next b b' hb =>
    (emit_reread reverse body none b b' hb).bind fun child b b' hb =>
      hb.push (.refl (.modifier add remove child next))
  | .ifGroup n yes none => fun next b b' hb =>
    (emit_reread reverse yes next b b' hb).bind fun yes b b' hb =>
      hb.push (.refl (.ifGroup n yes next))
  | .ifGroup n yes (some no) => fun next b b' hb =>
    (emit_reread reverse yes next b b' hb).bind fun yes b b' hb =>
      (emit_reread reverse no next b b' hb).bind fun no b b' hb =>
        hb.push (.refl (.ifGroup n yes no))
  | .ifLook test yes none => fun next b b' hb =>
    (emit_reread reverse test none b b' hb).bind fun test b b' hb =>
      (emit_reread reverse yes next b b' hb).bind fun yes b b' hb =>
        hb.push (.refl (.ifLook test yes next))
  | .ifLook test yes (some no) => fun next b b' hb =>
    (emit_reread reverse test none b b' hb).bind fun test b b' hb =>
      (emit_reread reverse yes next b b' hb).bind fun yes b b' hb =>
        (emit_reread reverse no next b b' hb).bind fun no b b' hb =>
          hb.push (.refl (.ifLook test yes no))
  termination_by structural p => p

theorem emitSeq_reread (reverse : Bool) : (ps : List Pattern) →
    Emitter.Alike (emitSeq reverse ps) (emitSeq reverse (rereadAll ps))
  | [] => fun _ _ _ hb => ⟨rfl, hb⟩
  | p :: ps => by
    cases reverse with
    | true => exact fun next b b' hb =>
      (emit_reread true p next b b' hb).bind (emitSeq_reread true ps)
    | false => exact fun next b b' hb =>
      (emitSeq_reread false ps next b b' hb).bind (emit_reread false p)
  termination_by structural ps => ps

theorem emitAll_reread (reverse : Bool) : (ps : List Pattern) → (next : Link) → (b b' : Builder) →
    b.Alike b' → (emitAll reverse ps next b).1 = (emitAll reverse (rereadAll ps) next b').1 ∧
      (emitAll reverse ps next b).2.Alike (emitAll reverse (rereadAll ps) next b').2
  | [] => fun _ _ _ hb => ⟨rfl, hb⟩
  | p :: ps => fun next b b' hb => by
    obtain ⟨hlink, hb⟩ := emit_reread reverse p next b b' hb
    obtain ⟨hlinks, hb⟩ := emitAll_reread reverse ps next _ _ hb
    exact ⟨congrArg₂ List.cons hlink hlinks, hb⟩
  termination_by structural ps => ps

end

/-- **What a pattern is read again as** has a program alike. -/
theorem ofPattern_reread (p : Pattern) : (Program.ofPattern p).Alike (.ofPattern p.reread) := by
  obtain ⟨hstart, hclosures, hops⟩ := emit_reread false p none .empty .empty (.refl _)
  exact ⟨hstart, hclosures, hops⟩

/-- **The text of a pattern that was read is read again, as one with a program
alike**, under any limit on nesting that the text is too short to reach.  Each
change of options in the pattern has to name an option, since there is no text
for one that does not, and none may set the option that makes blanks disappear:
they are only escaped where they disappear under the options of the whole. -/
theorem parse_print {opts : Options} {text : String} {limit : ℕ} {p : Pattern}
    (hX : opts.xmlSchema = false) (h : parse opts text limit = .ok p)
    (hmodifier : ∀ add remove body, .modifier add remove body ∈ p.subpatterns →
      (add ≠ .empty ∨ remove ≠ .empty) ∧ add.extended = false) :
    ∃ q, (∀ limit', (p.print opts).length ≤ limit' → parse opts (p.print opts) limit' = .ok q) ∧
      (Program.ofPattern p).Alike (.ofPattern q) := by
  refine ⟨p.reread, fun limit' hlimit => parse_print_eq hX h hmodifier ?_, ofPattern_reread p⟩
  rwa [print, String.length_ofList] at hlimit

/-- A class without characters and an anchor that is repeated, both of which are
written in another way than they were read. -/
theorem parse_print_emptyClass :
    let opts : Options := { extended := true }
    let p : Pattern := .union [.concat [.group (some 1) (.char 'a'),
      .modifier { caseInsensitive := true } { multiLine := true }
        (.concat [.repetition (.anchor .startLine) 1 none true, .charClass .empty false])],
      .backref 1]
    parse opts "(a) (?i-m: ^+ (?[b]-[b])) | \\1" 3 = .ok p ∧
      p.print opts = "(a)(?i-m:(?:^)+[^\\x\x7b0\x7d-\\x\x7b10FFFF\x7d])|\\1" ∧
      ∃ q, parse opts (p.print opts) 50 = .ok q ∧ (Program.ofPattern p).Alike (.ofPattern q) := by
  intro opts p
  have hp : parse opts "(a) (?i-m: ^+ (?[b]-[b])) | \\1" 3 = .ok p := by cbv
  have htext : p.print opts = "(a)(?i-m:(?:^)+[^\\x\x7b0\x7d-\\x\x7b10FFFF\x7d])|\\1" := by cbv
  have hmodifier : ∀ add remove body, .modifier add remove body ∈ p.subpatterns →
      (add ≠ .empty ∨ remove ≠ .empty) ∧ add.extended = false := by
    intro add remove body h
    obtain ⟨rfl, rfl, -⟩ : add = { caseInsensitive := true } ∧ remove = { multiLine := true } ∧
        body = _ := by simpa [p, subpatterns, subpatternsAll] using h
    decide
  obtain ⟨q, hq, halike⟩ := parse_print rfl hp hmodifier
  exact ⟨hp, htext, q, hq 50 (by rw [htext]; decide), halike⟩

end Pattern

end Regexp
