import Regexp.Proofs.Meaning
import Regexp.Proofs.Path
import Regexp.Proofs.Reading

/-!
# Paths and derivations

A path through the operations of a pattern is a derivation of the pattern.  On
the one side there are links, indices and a direction of walk; on the other side
there is a relation between two offsets of a text, by recursion on the pattern.
Between them stands the meaning of patterns (`Pattern.Walks`), which is already
a recursion on the pattern but still goes in the direction of the walk.

## From meaning to derivations

`Pattern.Walks.derives` is the induction over patterns.  It holds for any kind
of places for which atoms read what stands in the text (`Meaning.Over`), so it
serves for places that are offsets as well as for those with slots.  A walk
backward comes to the last part of a sequence first (`walk_cons`), and decides a
lookaround where it comes to it (`walk_look`); once these two are stated, the
cases of the induction are the same in both directions.

## And back

The other direction needs that the matches within the match are `strict`, and
that no reference asks for what a group has captured:
`Pattern.walks_iff_derives` is for places that are nothing but offsets, where
both can be told.  A pattern that asks of no text that it does not match has
strict derivations even if the walk was not strict (`Pattern.Affirms`), since
only a negative answer can be wrong.

## Main definitions

* `Meaning.Over` — a meaning in which atoms read what stands in a text.
* `Meaning.offsets` — the meaning in which a place is an offset and nothing
  more.
* `Pattern.Affirms` — patterns without negative lookarounds and without
  conditions on lookarounds.

## Main statements

* `Pattern.Walks.derives` — where a pattern leads, it has a derivation.
* `Pattern.walks_iff_derives` — it leads nowhere else, if nothing asks for what
  was recorded.
* `Attempt.derives_of_reaches`, `Attempt.reaches_iff_derives` — the paths of a
  program are derivations of its pattern, and all of them if it has no
  references.
-/

namespace Regexp

variable {X : Type} {a : Attempt}

/-! ### Where patterns lead -/

/-- Whether atoms read what stands in the text of an attempt, and nothing else
goes on to another offset.  Then where a pattern leads over this meaning it has
a derivation, `Walks.derives`, whatever else the places hold. -/
structure Meaning.Over (D : Meaning X) (a : Attempt) (pos : X → ℕ) : Prop where
  good_iff : ∀ {x}, D.good x ↔ a.InSpan (pos x)
  read : ∀ {m atom x y}, D.read m atom x y →
    ∃ sl, a.read atom m.opts m.reverse (pos x) sl = .ok (some (pos y))
  mark : ∀ {group edge x y}, D.mark group edge x y → pos x = pos y
  back : ∀ {x y}, pos (D.back x y) = pos x

/-- Whether features ask for no reference, where that matters.  A reference
reads what was captured, while a derivation allows for any text, so that a
`strict` derivation may be without a walk. -/
abbrev NoReferences (strict : Bool) (fs : List Feature) : Prop :=
  strict = true → ∀ g, .reference g ∉ fs

namespace Pattern

mutual

/-- Whether a pattern asks of no text that it does not match: at no depth does
it have a negative lookaround or a conditional on a lookaround. -/
def Affirms : Pattern → Prop
  | .concat items => AffirmsAll items
  | .union alternatives => AffirmsAll alternatives
  | .repetition body _ _ _ => Affirms body
  | .group _ body => Affirms body
  | .look kind body => kind.isNegated = false ∧ Affirms body
  | .independent body => Affirms body
  | .modifier _ _ body => Affirms body
  | .ifGroup _ yes none => Affirms yes
  | .ifGroup _ yes (some no) => Affirms yes ∧ Affirms no
  | .ifLook _ _ _ => False
  | _ => True
  termination_by structural p => p

/-- Whether several patterns ask of no text that they do not match. -/
def AffirmsAll : List Pattern → Prop
  | [] => True
  | p :: ps => Affirms p ∧ AffirmsAll ps
  termination_by structural ps => ps

end

/-- A derivation stays in the span, in the direction of the walk. -/
theorem walk_derives_inSpan {p : Pattern} {strict reverse reverse' : Bool} {opts : Options}
    {i j : ℕ} (hi : a.InSpan i)
    (h : Walk reverse (Derives a.target a.span strict reverse' opts p) i j) : a.InSpan j := by
  have htext : Walk reverse (HasText a.target a.span p.minLen) i j := by
    cases reverse <;> exact h.hasText
  exact HasText.walk_bounds htext hi

/-! ### Derivations in the direction of a walk -/

section

variable {t : Target} {s : Span} {strict reverse : Bool} {opts : Options} {i j : ℕ} {p : Pattern}

theorem walk_empty : Walk reverse (Derives t s strict reverse opts .empty) i j ↔ i = j := by
  cases reverse with
  | false => exact Iff.rfl
  | true => exact eq_comm

theorem walk_repetition {min : ℕ} {max : Option ℕ} {greedy : Bool} :
    Walk reverse (Derives t s strict reverse opts (.repetition p min max greedy)) i j ↔
      ∃ n, min ≤ n ∧ (∀ b, max = some b → n ≤ min ∨ n ≤ b) ∧
        Times (Walk reverse (Derives t s strict reverse opts p)) n i j := by
  simp only [← walk_times]
  cases reverse <;> exact Iff.rfl

/-- A lookaround is decided where the walk comes to it, and the walk stays
there.  It reads its body in a direction of its own. -/
theorem walk_look {kind : LookKind} :
    Walk reverse (Derives t s strict reverse opts (.look kind p)) i j ↔
      i = j ∧ Verdict strict kind.isNegated
        (∃ e, Walk kind.isBehind (Derives t s strict kind.isBehind opts p) i e) := by
  cases reverse with
  | false => exact Iff.rfl
  | true =>
    rw [walk_true, Derives]
    grind

theorem walk_ifGroup_none {n : ℕ} :
    Walk reverse (Derives t s strict reverse opts (.ifGroup n p none)) i j ↔
      Walk reverse (Derives t s strict reverse opts p) i j ∨ i = j := by
  cases reverse with
  | false => exact Iff.rfl
  | true => exact or_congr_right eq_comm

theorem walk_ifGroup_some {n : ℕ} {q : Pattern} :
    Walk reverse (Derives t s strict reverse opts (.ifGroup n p (some q))) i j ↔
      Walk reverse (Derives t s strict reverse opts p) i j ∨
        Walk reverse (Derives t s strict reverse opts q) i j := by
  cases reverse <;> exact Iff.rfl

/-- The condition of a conditional is decided where the walk comes to it.  If it
fails, the conditional matches nothing of the text. -/
theorem walk_ifLook_none {test : Pattern} :
    Walk reverse (Derives t s strict reverse opts (.ifLook test p none)) i j ↔
      (∃ e, Walk reverse (Derives t s strict reverse opts test) i e) ∧
          Walk reverse (Derives t s strict reverse opts p) i j ∨
        Verdict strict true (∃ e, Walk reverse (Derives t s strict reverse opts test) i e) ∧
          i = j := by
  cases reverse with
  | false => exact Iff.rfl
  | true => exact or_congr_right (and_congr_right fun _ => eq_comm)

theorem walk_ifLook_some {test q : Pattern} :
    Walk reverse (Derives t s strict reverse opts (.ifLook test p (some q))) i j ↔
      (∃ e, Walk reverse (Derives t s strict reverse opts test) i e) ∧
          Walk reverse (Derives t s strict reverse opts p) i j ∨
        Verdict strict true (∃ e, Walk reverse (Derives t s strict reverse opts test) i e) ∧
          Walk reverse (Derives t s strict reverse opts q) i j := by
  cases reverse <;> exact Iff.rfl

theorem walk_nil : Walk reverse (DerivesSeq t s strict reverse opts []) i j ↔ i = j := by
  cases reverse with
  | false => exact Iff.rfl
  | true => exact eq_comm

/-- A walk backward comes to the last part of a sequence first. -/
theorem walk_cons {ps : List Pattern} :
    Walk reverse (DerivesSeq t s strict reverse opts (p :: ps)) i j ↔
      if reverse then
        ∃ k, Walk reverse (DerivesSeq t s strict reverse opts ps) i k ∧
          Walk reverse (Derives t s strict reverse opts p) k j
      else
        ∃ k, Walk reverse (Derives t s strict reverse opts p) i k ∧
          Walk reverse (DerivesSeq t s strict reverse opts ps) k j := by
  cases reverse with
  | false => exact Iff.rfl
  | true => exact exists_congr fun k => and_comm

theorem walk_one_nil : ¬ Walk reverse (DerivesOne t s strict reverse opts []) i j := by
  cases reverse <;> exact id

theorem walk_one_cons {ps : List Pattern} :
    Walk reverse (DerivesOne t s strict reverse opts (p :: ps)) i j ↔
      Walk reverse (Derives t s strict reverse opts p) i j ∨
        Walk reverse (DerivesOne t s strict reverse opts ps) i j := by
  cases reverse <;> exact Iff.rfl

end

/-- A derivation of a sequence stays in the span. -/
theorem walk_seq_inSpan {ps : List Pattern} {strict reverse reverse' : Bool} {opts : Options}
    {i j : ℕ} (hi : a.InSpan i)
    (h : Walk reverse (DerivesSeq a.target a.span strict reverse' opts ps) i j) : a.InSpan j := by
  have hconcat : Walk reverse (Derives a.target a.span strict reverse' opts (.concat ps)) i j := by
    cases reverse <;> exact h
  exact walk_derives_inSpan hi hconcat

/-! ### Derivations of what a pattern does -/

section

variable {D : Meaning X} {pos : X → ℕ} {strict strict' : Bool}

mutual

/-- Where a pattern leads, it has a derivation.  The derivation may be a strict
one if the pattern asks of no text that it does not match. -/
theorem Walks.derives (hD : D.Over a pos) (ht : a.OnText) :
    (p : Pattern) → (strict = true → p.Affirms) → (m : Mode) → (x y : X) → D.good x →
    Walks D strict' m p x y →
    Walk m.reverse (Derives a.target a.span strict m.reverse m.opts p) (pos x) (pos y)
  | .empty, _, _, _, _, _, h => walk_empty.mpr (congrArg pos h)
  | .char _, _, _, _, _, hx, h =>
    have ⟨_, h⟩ := hD.read h
    (Attempt.read_char_iff ht (hD.good_iff.mp hx)).mp h
  | .string _, _, _, _, _, hx, h =>
    have ⟨_, h⟩ := hD.read h
    (Attempt.read_string_iff ht (hD.good_iff.mp hx)).mp h
  | .dot, _, _, _, _, hx, h =>
    have ⟨_, h⟩ := hD.read h
    (Attempt.read_dot_iff ht (hD.good_iff.mp hx)).mp h
  | .charClass _ _, _, _, _, _, hx, h =>
    have ⟨_, h⟩ := hD.read h
    (Attempt.read_range_iff ht (hD.good_iff.mp hx)).mp h
  | .anchor _, _, _, _, _, _, h =>
    have ⟨_, h⟩ := hD.read h
    Attempt.read_anchor_iff.mp h
  | .backref _, _, _, _, _, hx, h =>
    have ⟨_, h⟩ := hD.read h
    Attempt.hasText_of_read_backref ht (hD.good_iff.mp hx) h
  | .concat items, hp, m, x, y, hx, h => WalksSeq.derives hD ht items hp m x y hx h
  | .union alternatives, hp, m, x, y, hx, h => WalksOne.derives hD ht alternatives hp m x y hx h
  | .repetition body min max greedy, hp, m, x, y, hx, h => by
    obtain ⟨n, hmin, hmax, h⟩ := h
    -- The bounds are for the number of all rounds, so they are put aside before the induction.
    refine walk_repetition.mpr ⟨n, hmin, hmax, ?_⟩
    clear hmin hmax
    induction n generalizing x with
    | zero => exact congrArg pos h
    | succ n ih =>
      obtain ⟨z, hz, h⟩ := h
      have hz := Walks.derives hD ht body hp m x z hx hz
      have hinSpan := walk_derives_inSpan (hD.good_iff.mp hx) hz
      exact ⟨pos z, hz, ih z (hD.good_iff.mpr hinSpan) h⟩
  | .group none body, hp, m, x, y, hx, h => Walks.derives hD ht body hp m x y hx h
  | .group (some n) body, hp, m, x, y, hx, h => by
    obtain ⟨x', y', hmark, h, hmark'⟩ := h
    have h := Walks.derives hD ht body hp m x' y' (D.good_mark hx hmark) h
    rwa [← hD.mark hmark, hD.mark hmark'] at h
  | .look kind body, hp, m, x, y, hx, h => by
    rw [walks_look] at h
    refine walk_look.mpr ?_
    split at h
    · rename_i hneg
      obtain ⟨-, rfl⟩ := h
      refine ⟨rfl, ?_⟩
      rw [Verdict, if_pos hneg]
      intro hs
      exact absurd (hp hs).1 (by simp [hneg])
    · rename_i hneg
      obtain ⟨e, he, rfl⟩ := h
      refine ⟨hD.back.symm, ?_⟩
      rw [Verdict, if_neg hneg]
      exact ⟨pos e, Walks.derives hD ht body (fun hs => (hp hs).2) _ x e hx he⟩
  | .independent body, hp, m, x, y, hx, h => Walks.derives hD ht body hp m x y hx h
  | .modifier add remove body, hp, m, x, y, hx, h =>
    Walks.derives hD ht body hp ⟨m.reverse, m.opts.modify add remove⟩ x y hx h
  | .ifGroup n yes none, hp, m, x, y, hx, h =>
    walk_ifGroup_none.mpr
      (h.imp (fun h => Walks.derives hD ht yes hp m x y hx h.2) fun h => congrArg pos h.2)
  | .ifGroup n yes (some no), hp, m, x, y, hx, h =>
    walk_ifGroup_some.mpr
      (h.imp (fun h => Walks.derives hD ht yes (fun hs => (hp hs).1) m x y hx h.2)
        fun h => Walks.derives hD ht no (fun hs => (hp hs).2) m x y hx h.2)
  | .ifLook test yes none, hp, m, x, y, hx, h => by
    refine walk_ifLook_none.mpr ?_
    rcases h with ⟨e, he, h⟩ | ⟨-, rfl⟩
    · have he := Walks.derives hD ht test (fun hs => (hp hs).elim) m x e hx he
      have hgood := hD.good_iff.mpr (walk_derives_inSpan (hD.good_iff.mp hx) he)
      have h := Walks.derives hD ht yes (fun hs => (hp hs).elim) m _ y (D.good_back hx hgood) h
      exact .inl ⟨⟨pos e, he⟩, hD.back ▸ h⟩
    · exact .inr ⟨fun hs => (hp hs).elim, rfl⟩
  | .ifLook test yes (some no), hp, m, x, y, hx, h => by
    refine walk_ifLook_some.mpr ?_
    rcases h with ⟨e, he, h⟩ | ⟨-, h⟩
    · have he := Walks.derives hD ht test (fun hs => (hp hs).elim) m x e hx he
      have hgood := hD.good_iff.mpr (walk_derives_inSpan (hD.good_iff.mp hx) he)
      have h := Walks.derives hD ht yes (fun hs => (hp hs).elim) m _ y (D.good_back hx hgood) h
      exact .inl ⟨⟨pos e, he⟩, hD.back ▸ h⟩
    · exact .inr ⟨fun hs => (hp hs).elim,
        Walks.derives hD ht no (fun hs => (hp hs).elim) m x y hx h⟩
  termination_by structural p => p

theorem WalksSeq.derives (hD : D.Over a pos) (ht : a.OnText) :
    (ps : List Pattern) → (strict = true → AffirmsAll ps) → (m : Mode) → (x y : X) → D.good x →
    WalksSeq D strict' m ps x y →
    Walk m.reverse (DerivesSeq a.target a.span strict m.reverse m.opts ps) (pos x) (pos y)
  | [], _, _, _, _, _, h => walk_nil.mpr (congrArg pos h)
  | p :: ps, hp, m, x, y, hx, h => by
    rw [walksSeq_cons] at h
    refine walk_cons.mpr ?_
    split at h
    · rename_i hreverse
      obtain ⟨z, hz, h⟩ := h
      have hz := WalksSeq.derives hD ht ps (fun hs => (hp hs).2) m x z hx hz
      have hgood := hD.good_iff.mpr (walk_seq_inSpan (hD.good_iff.mp hx) hz)
      rw [if_pos hreverse]
      exact ⟨pos z, hz, Walks.derives hD ht p (fun hs => (hp hs).1) m z y hgood h⟩
    · rename_i hreverse
      obtain ⟨z, hz, h⟩ := h
      have hz := Walks.derives hD ht p (fun hs => (hp hs).1) m x z hx hz
      have hgood := hD.good_iff.mpr (walk_derives_inSpan (hD.good_iff.mp hx) hz)
      rw [if_neg hreverse]
      exact ⟨pos z, hz, WalksSeq.derives hD ht ps (fun hs => (hp hs).2) m z y hgood h⟩
  termination_by structural ps => ps

theorem WalksOne.derives (hD : D.Over a pos) (ht : a.OnText) :
    (ps : List Pattern) → (strict = true → AffirmsAll ps) → (m : Mode) → (x y : X) → D.good x →
    WalksOne D strict' m ps x y →
    Walk m.reverse (DerivesOne a.target a.span strict m.reverse m.opts ps) (pos x) (pos y)
  | [], _, _, _, _, _, h => h.elim
  | p :: ps, hp, m, x, y, hx, h =>
    walk_one_cons.mpr
      (h.imp (Walks.derives hD ht p (fun hs => (hp hs).1) m x y hx)
        (WalksOne.derives hD ht ps (fun hs => (hp hs).2) m x y hx))
  termination_by structural ps => ps

end

variable {m : Mode} {p : Pattern} {ps : List Pattern} {x y : X}

/-- A pattern leads from good places to good places.  For offsets these are the
ones in the span. -/
theorem Walks.good (hD : D.Over a pos) (ht : a.OnText) (hx : D.good x)
    (h : Walks D strict' m p x y) : D.good y := by
  have hderives : Walk m.reverse (Derives a.target a.span false m.reverse m.opts p) (pos x)
      (pos y) := h.derives hD ht p (by simp) m x y hx
  exact hD.good_iff.mpr (walk_derives_inSpan (hD.good_iff.mp hx) hderives)

theorem WalksSeq.good (hD : D.Over a pos) (ht : a.OnText) (hx : D.good x)
    (h : WalksSeq D strict' m ps x y) : D.good y :=
  Walks.good hD ht (p := .concat ps) hx h

end

end Pattern

/-! ### Offsets -/

/-- The meaning in which a place is an offset and nothing more, so that an atom
may read whatever may have been captured, and a group may be found to have
captured something or nothing.  What leads somewhere in this meaning is what
`Pattern.Derives` says. -/
def Meaning.offsets (a : Attempt) : Meaning ℕ where
  good := a.InSpan
  read m atom i j := ∃ sl, a.read atom m.opts m.reverse i sl = .ok (some j)
  mark _ _ i j := i = j
  test _ _ _ := True
  back i _ := i
  good_read hi h := Attempt.read_inSpan hi h.choose_spec
  good_mark hi h := h ▸ hi
  good_back hi _ := hi

theorem Meaning.offsets_over : (Meaning.offsets a).Over a id where
  good_iff := Iff.rfl
  read h := h
  mark h := h
  back := rfl

/-- A condition leaves the walk at the offset where it was decided. -/
@[simp] theorem Meaning.offsets_back (i j : ℕ) : (Meaning.offsets a).back i j = i := rfl

namespace Pattern

variable {i j : ℕ}

/-- What relations agree on in a span, they agree on when they are repeated. -/
theorem repeats_iff_times {W R : ℕ → ℕ → Prop} (hWR : ∀ i j, a.InSpan i → (W i j ↔ R i j))
    (hR : ∀ i j, a.InSpan i → R i j → a.InSpan j) {n : ℕ} (hi : a.InSpan i) :
    Repeats W n i j ↔ Times R n i j := by
  induction n generalizing i with
  | zero => exact Iff.rfl
  | succ n ih =>
    refine exists_congr fun k => ?_
    rw [hWR i k hi]
    exact and_congr_right fun hk => ih (hR i k hi hk)

mutual

/-- If nothing asks for what was recorded, a pattern leads just where it has
derivations. -/
theorem walks_iff_derives (ht : a.OnText) :
    (p : Pattern) → (∀ g, .reference g ∉ p.features) → (m : Mode) → (i j : ℕ) → a.InSpan i →
    (Walks (.offsets a) true m p i j ↔
      Walk m.reverse (Derives a.target a.span true m.reverse m.opts p) i j)
  | .empty, _, _, _, _, _ => walk_empty.symm
  | .char _, _, _, _, _, hi =>
    ⟨fun ⟨_, h⟩ => (Attempt.read_char_iff ht hi).mp h,
      fun h => ⟨none, (Attempt.read_char_iff ht hi).mpr h⟩⟩
  | .string _, _, _, _, _, hi =>
    ⟨fun ⟨_, h⟩ => (Attempt.read_string_iff ht hi).mp h,
      fun h => ⟨none, (Attempt.read_string_iff ht hi).mpr h⟩⟩
  | .dot, _, _, _, _, hi =>
    ⟨fun ⟨_, h⟩ => (Attempt.read_dot_iff ht hi).mp h,
      fun h => ⟨none, (Attempt.read_dot_iff ht hi).mpr h⟩⟩
  | .charClass _ _, _, _, _, _, hi =>
    ⟨fun ⟨_, h⟩ => (Attempt.read_range_iff ht hi).mp h,
      fun h => ⟨none, (Attempt.read_range_iff ht hi).mpr h⟩⟩
  | .anchor _, _, _, _, _, _ =>
    ⟨fun ⟨_, h⟩ => Attempt.read_anchor_iff.mp h, fun h => ⟨none, Attempt.read_anchor_iff.mpr h⟩⟩
  | .backref g, hp, _, _, _, _ => absurd List.mem_cons_self (hp g)
  | .concat items, hp, m, i, j, hi => walksSeq_iff_derives ht items hp m i j hi
  | .union alternatives, hp, m, i, j, hi => walksOne_iff_derives ht alternatives hp m i j hi
  | .repetition body min max greedy, hp, m, i, j, hi => by
    rw [walk_repetition]
    refine exists_congr fun n => and_congr_right fun _ => and_congr_right fun _ => ?_
    exact repeats_iff_times (walks_iff_derives ht body hp m)
      (fun i j hi => walk_derives_inSpan hi) hi
  | .group none body, hp, m, i, j, hi => walks_iff_derives ht body hp m i j hi
  | .group (some n) body, hp, m, i, j, hi => by
    refine Iff.trans ?_ (walks_iff_derives ht body hp m i j hi)
    constructor
    · rintro ⟨_, _, rfl, h, rfl⟩
      exact h
    · intro h
      exact ⟨i, j, rfl, h, rfl⟩
  | .look kind body, hp, m, i, j, hi => by
    have hbody : (∃ e, Walks (.offsets a) true ⟨kind.isBehind, m.opts⟩ body i e) ↔
        ∃ e, Walk kind.isBehind (Derives a.target a.span true kind.isBehind m.opts body) i e :=
      exists_congr fun e => walks_iff_derives ht body (fun g hg => hp g (List.mem_cons_of_mem _ hg))
        ⟨kind.isBehind, m.opts⟩ i e hi
    rw [walk_look, ← hbody, walks_look]
    cases kind.isNegated with
    | true => exact and_comm
    | false =>
      simp only [Bool.false_eq_true, if_false, Meaning.offsets_back, exists_and_right]
      exact and_comm
  | .independent body, hp, m, i, j, hi =>
    walks_iff_derives ht body (fun g hg => hp g (List.mem_cons_of_mem _ hg)) m i j hi
  | .modifier add remove body, hp, m, i, j, hi =>
    walks_iff_derives ht body (fun g hg => hp g (List.mem_cons_of_mem _ hg))
      ⟨m.reverse, m.opts.modify add remove⟩ i j hi
  | .ifGroup n yes none, hp, m, i, j, hi => by
    rw [walk_ifGroup_none,
      ← walks_iff_derives ht yes (fun g hg => hp g (List.mem_cons_of_mem _ hg)) m i j hi]
    exact or_congr (true_and _).to_iff (true_and _).to_iff
  | .ifGroup n yes (some no), hp, m, i, j, hi => by
    rw [walk_ifGroup_some,
      ← walks_iff_derives ht yes (fun g hg => hp g (by simp [features, hg])) m i j hi,
      ← walks_iff_derives ht no (fun g hg => hp g (by simp [features, hg])) m i j hi]
    exact or_congr (true_and _).to_iff (true_and _).to_iff
  | .ifLook test yes none, hp, m, i, j, hi => by
    have htest : (∃ e, Walks (.offsets a) true m test i e) ↔
        ∃ e, Walk m.reverse (Derives a.target a.span true m.reverse m.opts test) i e :=
      exists_congr fun e =>
        walks_iff_derives ht test (fun g hg => hp g (by simp [features, hg])) m i e hi
    rw [walk_ifLook_none, ← htest,
      ← walks_iff_derives ht yes (fun g hg => hp g (by simp [features, hg])) m i j hi]
    refine or_congr_left ?_
    simp only [Meaning.offsets_back, exists_and_right]
  | .ifLook test yes (some no), hp, m, i, j, hi => by
    have htest : (∃ e, Walks (.offsets a) true m test i e) ↔
        ∃ e, Walk m.reverse (Derives a.target a.span true m.reverse m.opts test) i e :=
      exists_congr fun e =>
        walks_iff_derives ht test (fun g hg => hp g (by simp [features, hg])) m i e hi
    rw [walk_ifLook_some, ← htest,
      ← walks_iff_derives ht yes (fun g hg => hp g (by simp [features, hg])) m i j hi,
      ← walks_iff_derives ht no (fun g hg => hp g (by simp [features, hg])) m i j hi]
    refine or_congr_left ?_
    simp only [Meaning.offsets_back, exists_and_right]
  termination_by structural p => p

theorem walksSeq_iff_derives (ht : a.OnText) :
    (ps : List Pattern) → (∀ g, .reference g ∉ featuresAll ps) → (m : Mode) → (i j : ℕ) →
    a.InSpan i →
    (WalksSeq (.offsets a) true m ps i j ↔
      Walk m.reverse (DerivesSeq a.target a.span true m.reverse m.opts ps) i j)
  | [], _, _, _, _, _ => walk_nil.symm
  | p :: ps, hp, m, i, j, hi => by
    have hp' := walks_iff_derives ht p (fun g hg => hp g (by simp [featuresAll, hg])) m
    have hps := walksSeq_iff_derives ht ps (fun g hg => hp g (by simp [featuresAll, hg])) m
    rw [walk_cons, walksSeq_cons]
    split
    · refine exists_congr fun k => ?_
      rw [hps i k hi]
      exact and_congr_right fun hk => hp' k j (walk_seq_inSpan hi hk)
    · refine exists_congr fun k => ?_
      rw [hp' i k hi]
      exact and_congr_right fun hk => hps k j (walk_derives_inSpan hi hk)
  termination_by structural ps => ps

theorem walksOne_iff_derives (ht : a.OnText) :
    (ps : List Pattern) → (∀ g, .reference g ∉ featuresAll ps) → (m : Mode) → (i j : ℕ) →
    a.InSpan i →
    (WalksOne (.offsets a) true m ps i j ↔
      Walk m.reverse (DerivesOne a.target a.span true m.reverse m.opts ps) i j)
  | [], _, _, _, _, _ => (iff_of_false walk_one_nil id).symm
  | p :: ps, hp, m, i, j, hi => by
    rw [walk_one_cons,
      ← walks_iff_derives ht p (fun g hg => hp g (by simp [featuresAll, hg])) m i j hi,
      ← walksOne_iff_derives ht ps (fun g hg => hp g (by simp [featuresAll, hg])) m i j hi]
    exact Iff.rfl
  termination_by structural ps => ps

end

end Pattern

/-! ### Programs -/

section

variable {O : Endings} {avoid : Set (ℕ × ℕ)} {m : Mode} {n i e : ℕ} {link : Link} {own : ℕ → ℕ}
  {strict : Bool}

/-- The paths through a program and a text are paths between offsets, with the
moves that the ends of bodies allow. -/
theorem reaches_iff_leads :
    Reaches a O avoid m n link i e ↔ Leads (Move a O avoid m) n link i e := by
  constructor
  · intro h
    induction h with
    | done => exact .done
    | step move _ ih => exact .step move ih
  · intro h
    induction h with
    | done => exact .done
    | step move _ ih => exact .step move ih

/-- A path goes on after a match within the match as that may end. -/
theorem move_body_iff {k : ℕ} {op : Op} {child : Link} {m' : Mode} {j : ℕ}
    (hop : a.program.ops[k]? = some op) (hb : op.body? m = some (child, m')) :
    Move a O avoid m k i link j ↔ ∃ stop, O k m i stop ∧ op.resume? i stop = some (.go j link) := by
  rw [move_iff hop]
  cases op <;> first | exact Iff.rfl | simp [Op.body?] at hb

/-- A match within the match goes on at an offset, if no more is asked of a
place. -/
theorem Op.resume?_iff_sequel? {op : Op} {stop : Option ℕ} {l : Link} {j : ℕ} :
    op.resume? i stop = some (.go j l) ↔ op.sequel? (fun i _ => i) i stop = some (l, j) := by
  cases op with
  | look kind child next =>
    simp only [Op.resume?, Op.sequel?]
    split
    · simp
    · cases stop <;> simp [and_comm]
  | independent child next | modifier add remove child next =>
    cases stop <;> simp [Op.resume?, Op.sequel?, and_comm]
  | ifLook test yes no => cases stop <;> simp [Op.resume?, Op.sequel?, and_comm]
  | _ => simp [Op.resume?, Op.sequel?]

/-- A match within the match ends as a path through its body does, or fails if
there is no path. -/
theorem ends_iff_concludes (hown : a.program.Owned own) {k : ℕ} {op : Op} {child : Link} {m' : Mode}
    {stop : Option ℕ} (hop : a.program.ops[k]? = some op) (hb : op.body? m = some (child, m')) :
    Ends a strict k m i stop ↔ Concludes (Move a (Ends a strict) ∅ m') strict child i stop := by
  have hbody : ∀ j, BodyReaches a (Ends a strict) ∅ k m i j ↔
      ∃ n, Leads (Move a (Ends a strict) ∅ m') n child i j := by
    intro j
    simp only [← reaches_iff_leads]
    constructor
    · rintro ⟨op', child', m'', n, hop', hb', h⟩
      cases hop.symm.trans hop'
      cases hb.symm.trans hb'
      exact ⟨n, h⟩
    · rintro ⟨n, h⟩
      exact ⟨op, child, m', n, hop, hb, h⟩
  cases stop with
  | some j => rw [ends_some_iff hown, hbody, Concludes]
  | none =>
    rw [ends_none_iff hown, Concludes, Pattern.Verdict, if_pos rfl]
    simp only [hbody]

/-- Paths between offsets obey, whatever the ends of matches within the match. -/
theorem obeys_offsets_flat :
    Obeys (.offsets a) a.program.ops strict false fun m => Move a O ∅ m where
  branching m k op i l j hop hkind := by
    rw [move_iff hop]
    cases op <;> simp_all [Op.isChoice, Op.isClosure]
  read hop _ := move_iff hop
  mark hop _ := (move_iff hop).trans (and_congr_right fun _ => eq_comm)
  test hop _ := by
    rw [move_iff hop]
    simp only [Bool.exists_bool, Bool.false_eq_true, if_false, if_true, Meaning.offsets]
    grind
  body hn := by cases hn

/-- Paths between offsets obey, if matches within the match end where paths
through their bodies do. -/
theorem obeys_offsets (hown : a.program.Owned own) :
    Obeys (.offsets a) a.program.ops strict true fun m => Move a (Ends a strict) ∅ m := by
  have hflat : Obeys (.offsets a) a.program.ops strict false fun m => Move a (Ends a strict) ∅ m :=
    obeys_offsets_flat
  refine ⟨hflat.branching, hflat.read, hflat.mark, hflat.test, fun _ hop hb _ => ?_⟩
  rw [move_body_iff hop hb]
  refine exists_congr fun stop => ?_
  rw [ends_iff_concludes hown hop hb, Op.resume?_iff_sequel?]
  exact Iff.rfl

/-- A program obeys from its start to its end.  It conveys just where its
pattern leads. -/
theorem start_conveys {X : Type} {D : Meaning X} {strict nested : Bool} {M : Mode → Moves X}
    {p : Pattern} (h : Obeys D a.program.ops strict nested M) (hgood : ∃ x, D.good x)
    (hprogram : a.program = .ofPattern p) (hp : Pattern.Told nested p.features) (opts : Options) :
    Conveys (M ⟨false, opts⟩) D.good strict [a.program.start] none
      (p.Walks D strict ⟨false, opts⟩) := by
  have hagrees : Agrees a.program.ops .empty (p.emit false none .empty).2 := by
    rw [hprogram]
    exact fun _ _ _ => rfl
  have hstart : a.program.start = (p.emit false none .empty).1 := by
    rw [hprogram]
    rfl
  rw [hstart]
  exact (Pattern.emit_conveys h hgood p hp ⟨false, opts⟩).conveys none .empty hagrees

end

namespace Attempt

variable {p : Pattern} {opts : Options} {i j : ℕ}

/-- The paths of a program are derivations of its pattern.  No construct is left
out, references and lookarounds included. -/
theorem derives_of_reaches (ht : a.OnText) (hprogram : a.program = .ofPattern p) (hi : a.InSpan i)
    {n : ℕ} (h : Reaches a (Ends a false) ∅ ⟨false, opts⟩ n a.program.start i j) :
    Pattern.Derives a.target a.span false false opts p i j := by
  obtain ⟨own, hown, -⟩ := Program.exists_owned p
  rw [← hprogram] at hown
  have hobeys : Obeys (.offsets a) a.program.ops false true _ := obeys_offsets hown
  have hconveys := start_conveys hobeys ⟨i, hi⟩ hprogram (by simp) opts
  have hwalks := hconveys.of_leads hi (reaches_iff_leads.mp h)
  exact hwalks.derives Meaning.offsets_over ht p (by simp) ⟨false, opts⟩ i j hi

/-- The paths of a program are just the derivations of its pattern, if it has no
references. -/
theorem reaches_iff_derives (ht : a.OnText) (hprogram : a.program = .ofPattern p)
    (hp : ∀ g, .reference g ∉ p.features) (hi : a.InSpan i) :
    (∃ n, Reaches a (Ends a true) ∅ ⟨false, opts⟩ n a.program.start i j) ↔
      Pattern.Derives a.target a.span true false opts p i j := by
  obtain ⟨own, hown, -⟩ := Program.exists_owned p
  rw [← hprogram] at hown
  have hobeys : Obeys (.offsets a) a.program.ops true true _ := obeys_offsets hown
  have hconveys := start_conveys hobeys ⟨i, hi⟩ hprogram (by simp) opts
  have hderives := Pattern.walks_iff_derives ht p hp ⟨false, opts⟩ i j hi
  rw [walk_false] at hderives
  rw [← hderives]
  constructor
  · rintro ⟨n, h⟩
    exact hconveys.of_leads hi (reaches_iff_leads.mp h)
  · intro h
    obtain ⟨n, h⟩ := hconveys.exists_leads rfl hi h
    exact ⟨n, reaches_iff_leads.mpr h⟩

end Attempt

end Regexp
