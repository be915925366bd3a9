import Regexp.Proofs.Genuine
import Regexp.Proofs.Lookaround
import Regexp.Proofs.Safety

/-!
# Lookbehinds

The body of a lookbehind is compiled the other way round, and a machine walks
backward over the text to match it.  It comes to the same parts of the text as
the pattern does forward: a lookbehind holds at an offset exactly if its body
has a derivation that ends there.

## One direction for derivations

A derivation has a direction only where a lookaround is the condition of a
conditional, since it is decided where the walk comes to it.  Without these the
direction makes no difference, `Pattern.derives_reverse_iff`, and for a body
with none of them the derivation that the machine follows from its end is the
one that a reader has in mind from its beginning.

## Groups that are recorded backward

A group is recorded end first when its body is matched backward, and a loop may
record it again and again, so in between its start can be behind its end.  What
holds at all times is that nothing has been recorded before the offset of the
walk (`Place.StopsAhead`), so that the order is right again when the start of
the group is recorded (`Place.StopsAhead.inOrder_record`).  `GoesBack` carries
both along a walk, and it follows that no group is left whose start is behind
its end, which would make it count as unset.

## A lookaround that stands alone

`Attempt.run_look` is for lookarounds of both directions with a plain body: in a
pattern that consists of one lookaround nothing can have been marked before, so
that its verdict is right.  `Attempt.run_behind` puts it together with the two
parts above.

## Main statements

* `Pattern.derives_reverse_iff` — a pattern derives the same in both directions.
* `Pattern.Walks.goesBack` — a plain pattern goes back without disorder.
* `Attempt.run_look` — a lookaround that stands alone decides whether its body
  has a derivation.
* `Attempt.run_behind` — a lookbehind decides whether something before it is
  derived forward.
-/

namespace Regexp

namespace Pattern

/-! ### The direction of a derivation -/

section

variable {t : Target} {s : Span} {strict : Bool}

mutual

/-- A pattern without conditionals on lookarounds derives the same, whichever
way the text is walked over. -/
theorem derives_reverse_iff : (p : Pattern) → .conditional ∉ p.features → (reverse : Bool) →
    (opts : Options) → (i j : ℕ) →
      (Derives t s strict reverse opts p i j ↔ Derives t s strict false opts p i j)
  | .empty, _, _, _, _, _ | .char _, _, _, _, _, _ | .string _, _, _, _, _, _
  | .dot, _, _, _, _, _ | .charClass _ _, _, _, _, _, _ | .anchor _, _, _, _, _, _
  | .backref _, _, _, _, _, _ | .look _ _, _, _, _, _, _ => Iff.rfl
  | .concat items, hp, reverse, opts, i, j => derivesSeq_reverse_iff items hp reverse opts i j
  | .union alternatives, hp, reverse, opts, i, j =>
    derivesOne_reverse_iff alternatives hp reverse opts i j
  | .repetition body _ _ _, hp, reverse, opts, _, _ =>
    exists_congr fun _ => and_congr_right fun _ => and_congr_right fun _ =>
      times_congr (derives_reverse_iff body hp reverse opts)
  | .group _ body, hp, reverse, opts, i, j => derives_reverse_iff body hp reverse opts i j
  | .independent body, hp, reverse, opts, i, j =>
    derives_reverse_iff body (fun h => hp (List.mem_cons_of_mem _ h)) reverse opts i j
  | .modifier add remove body, hp, reverse, opts, i, j =>
    derives_reverse_iff body (fun h => hp (List.mem_cons_of_mem _ h)) reverse
      (opts.modify add remove) i j
  | .ifGroup _ yes none, hp, reverse, opts, i, j =>
    or_congr_left
      (derives_reverse_iff yes (fun h => hp (List.mem_cons_of_mem _ h)) reverse opts i j)
  | .ifGroup _ yes (some no), hp, reverse, opts, i, j =>
    or_congr
      (derives_reverse_iff yes (fun h => hp (List.mem_cons_of_mem _ (List.mem_append_left _ h)))
        reverse opts i j)
      (derives_reverse_iff no (fun h => hp (List.mem_cons_of_mem _ (List.mem_append_right _ h)))
        reverse opts i j)
  | .ifLook _ _ none, hp, _, _, _, _ | .ifLook _ _ (some _), hp, _, _, _, _ =>
    absurd List.mem_cons_self hp
  termination_by structural p => p

theorem derivesSeq_reverse_iff : (ps : List Pattern) → .conditional ∉ featuresAll ps →
    (reverse : Bool) → (opts : Options) → (i j : ℕ) →
      (DerivesSeq t s strict reverse opts ps i j ↔ DerivesSeq t s strict false opts ps i j)
  | [], _, _, _, _, _ => Iff.rfl
  | p :: ps, hp, reverse, opts, i, j =>
    exists_congr fun k => and_congr
      (derives_reverse_iff p (fun h => hp (List.mem_append_left _ h)) reverse opts i k)
      (derivesSeq_reverse_iff ps (fun h => hp (List.mem_append_right _ h)) reverse opts k j)
  termination_by structural ps => ps

theorem derivesOne_reverse_iff : (ps : List Pattern) → .conditional ∉ featuresAll ps →
    (reverse : Bool) → (opts : Options) → (i j : ℕ) →
      (DerivesOne t s strict reverse opts ps i j ↔ DerivesOne t s strict false opts ps i j)
  | [], _, _, _, _, _ => Iff.rfl
  | p :: ps, hp, reverse, opts, i, j =>
    or_congr (derives_reverse_iff p (fun h => hp (List.mem_append_left _ h)) reverse opts i j)
      (derivesOne_reverse_iff ps (fun h => hp (List.mem_append_right _ h)) reverse opts i j)
  termination_by structural ps => ps

end

end

end Pattern

/-! ### Groups that are recorded backward -/

namespace Place

variable {x y : Place} {n n' : ℕ} {slot : ℕ}

/-- Whether a group stops where a place is or behind it, if an end is recorded.
A walk backward records the end of a group before its start, and has it ahead
from then on. -/
def StopsAhead (n : ℕ) (x : Place) : Prop := ∀ j, x.recorded n .stop = some j → x.offset ≤ j

/-- Whether a group starts before it stops, if both are recorded. -/
def InOrder (n : ℕ) (x : Place) : Prop :=
  ∀ i j, x.recorded n .start = some i → x.recorded n .stop = some j → i ≤ j

/-- What is recorded in a slot is the offset of the place, if anything is. -/
theorem eq_offset_of_record {edge : Edge} {i : ℕ}
    (h : (x.record (edge.slot n)).recorded n edge = some i) : i = x.offset := by
  unfold recorded record recordIn at h
  cases hslots : x.slots with
  | none => simp [hslots] at h
  | some slots =>
    simp only [hslots, Option.map_some, Option.bind_some, Array.getElem?_setIfInBounds,
      ↓reduceIte] at h
    split at h
    · simp only [Option.join_some, slotValue] at h
      split at h
      · exact (Option.some.inj h).symm
      · cases h
    · cases h

theorem StopsAhead.record (h : x.StopsAhead n) (edge : Edge) (n' : ℕ) :
    (x.record (edge.slot n')).StopsAhead n := by
  intro j hj
  by_cases heq : n = n' ∧ Edge.stop = edge
  · obtain ⟨rfl, rfl⟩ := heq
    exact (eq_offset_of_record hj).ge
  · rw [recorded_record_of_ne heq] at hj
    exact h j hj

/-- After the start of a group has been recorded, the group starts before it
stops. -/
theorem StopsAhead.inOrder_record (h : x.StopsAhead n) :
    (x.record (Edge.start.slot n)).InOrder n := by
  intro i j hi hj
  rw [eq_offset_of_record hi]
  rw [recorded_record_of_ne (by simp)] at hj
  exact h j hj

/-- The ends of one group do not touch the others. -/
theorem InOrder.record_of_ne (h : x.InOrder n) (hne : n ≠ n') (edge : Edge) :
    (x.record (edge.slot n')).InOrder n := by
  intro i j hi hj
  rw [recorded_record_of_ne (fun heq => hne heq.1)] at hi hj
  exact h i j hi hj

end Place

/-- Whether a walk backward goes on well between two places: it goes down, a
group that stopped ahead stops ahead, and one that was in order is in order.
The order of a group can only be kept together with where it stops, as its start
is recorded later. -/
structure GoesBack (n : ℕ) (x y : Place) : Prop where
  le : y.offset ≤ x.offset
  stopsAhead : x.StopsAhead n → y.StopsAhead n
  inOrder : x.StopsAhead n → x.InOrder n → y.InOrder n

namespace GoesBack

variable {x y z : Place} {n : ℕ}

theorem of_slots_eq (hslots : y.slots = x.slots) (hle : y.offset ≤ x.offset) :
    GoesBack n x y where
  le := hle
  stopsAhead h j hj := by
    rw [Place.recorded, hslots] at hj
    exact hle.trans (h j hj)
  inOrder _ h i j hi hj := by
    rw [Place.recorded, hslots] at hi hj
    exact h i j hi hj

theorem trans (h : GoesBack n x y) (h' : GoesBack n y z) : GoesBack n x z where
  le := h'.le.trans h.le
  stopsAhead hx := h'.stopsAhead (h.stopsAhead hx)
  inOrder hx hx' := h'.inOrder (h.stopsAhead hx) (h.inOrder hx hx')

theorem repeats {W : Place → Place → Prop} {good : Place → Prop}
    (hW : ∀ x y, good x → W x y → GoesBack n x y) (hgood : ∀ x y, good x → W x y → good y) {m : ℕ}
    (hx : good x) (h : Repeats W m x y) : GoesBack n x y := by
  induction m generalizing x with
  | zero => exact h ▸ .of_slots_eq rfl le_rfl
  | succ m ih =>
    obtain ⟨z, hz, h⟩ := h
    exact (hW x z hx hz).trans (ih (hgood x z hx hz) h)

/-- A group whose end is recorded before its start. -/
theorem group {n' : ℕ} (h : GoesBack n (x.record (Edge.stop.slot n')) y) :
    GoesBack n x (y.record (Edge.start.slot n')) where
  le := h.le
  stopsAhead hx := (h.stopsAhead (hx.record .stop n')).record .start n'
  inOrder hx hx' := by
    have hx := hx.record .stop n'
    by_cases hne : n = n'
    · subst hne
      exact (h.stopsAhead hx).inOrder_record
    · exact (h.inOrder hx (hx'.record_of_ne hne .stop)).record_of_ne hne .start

/-- An atom walks backward and records nothing. -/
theorem of_read {a : Attempt} (ht : a.OnText) {atom : Atom} {opts : Options}
    (hx : a.InSpan x.offset) (h : (Meaning.places a).read ⟨true, opts⟩ atom x y) :
    GoesBack n x y := by
  obtain ⟨w, hspells, -⟩ := Attempt.hasText_of_read ht hx h.1
  exact .of_slots_eq h.2 hspells.le

end GoesBack

namespace Pattern

variable {a : Attempt}

mutual

/-- A plain pattern goes back well. -/
theorem Walks.goesBack (ht : a.OnText) (n : ℕ) (opts : Options) :
    (p : Pattern) → p.IsPlain → (x y : Place) → a.InSpan x.offset →
    Walks (.places a) false ⟨true, opts⟩ p x y → GoesBack n x y
  | .empty, _, _, _, _, h => h ▸ .of_slots_eq rfl le_rfl
  | .char _, _, _, _, hx, h => .of_read ht hx h
  | .string _, _, _, _, hx, h => .of_read ht hx h
  | .dot, _, _, _, hx, h => .of_read ht hx h
  | .charClass _ _, _, _, _, hx, h => .of_read ht hx h
  | .anchor _, _, _, _, hx, h => .of_read ht hx h
  | .concat items, hp, x, y, hx, h => WalksSeq.goesBack ht n opts items hp x y hx h
  | .union alternatives, hp, x, y, hx, h => WalksOne.goesBack ht n opts alternatives hp x y hx h
  | .repetition body _ _ _, hp, _, _, hx, ⟨_, _, _, h⟩ =>
    GoesBack.repeats (Walks.goesBack ht n opts body hp)
      (fun x _ (hx : a.InSpan x.offset) h => h.good Meaning.places_over ht hx) hx h
  | .group none body, hp, x, y, hx, h => Walks.goesBack ht n opts body hp x y hx h
  | .group (some n') body, hp, x, y, hx, h => by
    obtain ⟨x', y', rfl, h, rfl⟩ := h
    have hx' : a.InSpan (x.record (Edge.stop.slot n')).offset := hx
    exact (Walks.goesBack ht n opts body hp _ y' hx' h).group
  | .ifGroup _ _ none, hp, _, _, _, _ | .ifGroup _ _ (some _), hp, _, _, _, _
  | .ifLook _ _ none, hp, _, _, _, _ | .ifLook _ _ (some _), hp, _, _, _, _
  | .backref _, hp, _, _, _, _ | .look _ _, hp, _, _, _, _ | .independent _, hp, _, _, _, _
  | .modifier _ _ _, hp, _, _, _, _ => absurd hp (List.cons_ne_nil _ _)
  termination_by structural p => p

theorem WalksSeq.goesBack (ht : a.OnText) (n : ℕ) (opts : Options) :
    (ps : List Pattern) → featuresAll ps = [] → (x y : Place) → a.InSpan x.offset →
    WalksSeq (.places a) false ⟨true, opts⟩ ps x y → GoesBack n x y
  | [], _, _, _, _, h => h ▸ .of_slots_eq rfl le_rfl
  | p :: ps, hp, x, y, hx, h => by
    obtain ⟨hp, hps⟩ := List.append_eq_nil_iff.mp hp
    obtain ⟨z, hz, h⟩ := h
    exact (WalksSeq.goesBack ht n opts ps hps x z hx hz).trans
      (Walks.goesBack ht n opts p hp z y (hz.good Meaning.places_over ht hx) h)
  termination_by structural ps => ps

theorem WalksOne.goesBack (ht : a.OnText) (n : ℕ) (opts : Options) :
    (ps : List Pattern) → featuresAll ps = [] → (x y : Place) → a.InSpan x.offset →
    WalksOne (.places a) false ⟨true, opts⟩ ps x y → GoesBack n x y
  | [], _, _, _, _, h => h.elim
  | p :: ps, hp, x, y, hx, h => by
    obtain ⟨hp, hps⟩ := List.append_eq_nil_iff.mp hp
    exact h.elim (Walks.goesBack ht n opts p hp x y hx) (WalksOne.goesBack ht n opts ps hps x y hx)
  termination_by structural ps => ps

end

end Pattern

/-! ### A lookaround that stands alone -/

section

variable {p : Pattern} {kind : LookKind} {a : Attempt}

/-- The lookaround comes after its body. -/
theorem Program.ofPattern_look (kind : LookKind) (p : Pattern) :
    (ofPattern (.look kind p)).start = some (p.emit kind.isBehind none .empty).2.ops.size ∧
      (ofPattern (.look kind p)).ops = (p.emit kind.isBehind none .empty).2.ops.push
        (.look kind (p.emit kind.isBehind none .empty).1 none) := ⟨rfl, rfl⟩

variable (hprogram : a.program = .ofPattern (.look kind p))

include hprogram

theorem ops_of_look : a.program.ops[(p.emit kind.isBehind none .empty).2.ops.size]? =
    some (.look kind (p.emit kind.isBehind none .empty).1 none) := by
  rw [hprogram, (Program.ofPattern_look kind p).2]
  exact Array.getElem?_push_size

/-- The lookaround has the operations of its body. -/
theorem looksFor_of_look :
    a.program.LooksFor (p.emit kind.isBehind none .empty).2.ops.size kind p := by
  refine ⟨.empty, _, _, none, ops_of_look hprogram, rfl, fun k _ hk => ?_⟩
  rw [hprogram, (Program.ofPattern_look kind p).2, Array.getElem?_push, if_neg hk.ne]

/-- There is no match within the match of a plain body. -/
theorem undisturbed_of_look (hp : p.IsPlain) {k : ℕ}
    (hk : k < (p.emit kind.isBehind none .empty).2.ops.size) (m : Mode) (i : ℕ) (V : Marks) :
    Undisturbed a k m i V := by
  rintro ⟨j, op, child, m', n, hop, hb, -⟩
  rw [hprogram, (Program.ofPattern_look kind p).2, Array.getElem?_push, if_neg hk.ne] at hop
  obtain ⟨_, _, -, -, hplain⟩ :=
    (hp.added kind.isBehind none .empty).satisfies k op (Nat.zero_le k) hop
  cases op <;> simp_all [Op.feature?, Op.body?]

/-- The operations of a lookaround with a plain body are steady. -/
theorem isSteady_of_look (hp : p.IsPlain) (k : ℕ) (op : Op) (hop : a.program.ops[k]? = some op) :
    op.isSteady = true := by
  have hsteady : (Pattern.look kind p).IsSteady := by
    intro f hf
    rw [Pattern.features, show p.features = [] from hp] at hf
    exact .inl (List.mem_singleton.mp hf)
  rw [hprogram] at hop
  exact hsteady.op hop

/-- The exploration of the body ends at an offset exactly if the body has a
derivation. -/
theorem Explores.look_body (hp : p.IsPlain) (ht : a.OnText) {opts : Options} {offset : ℕ}
    (ho : a.InSpan offset) {sl : Option Slots} {V₁ : Marks} {r₁ : Discovery}
    (h : Explores a (fun _ _ _ _ => True) false ⟨kind.isBehind, opts⟩ ∅
      [(p.emit kind.isBehind none .empty).1] offset sl V₁ r₁) :
    ∃ stop sl₁, r₁.ending? sl = some (stop, sl₁) ∧ (stop.isSome = true ↔ ∃ j,
      Walk kind.isBehind (Pattern.Derives a.target a.span true kind.isBehind opts p) offset j) := by
  obtain ⟨own, hown, -⟩ := Program.exists_owned (.look kind p)
  rw [← hprogram] at hown
  have hunique : a.program.ClosuresUnique := by
    rw [hprogram]
    exact fun _ _ _ _ _ _ _ _ _ => Program.closure_unique _
  have hop := ops_of_look hprogram
  have hsteady := isSteady_of_look hprogram hp
  have hlinks := linksIn_body (m := ⟨false, opts⟩) hown hop rfl
  have htells := (h.restrict hown hlinks).white_path hown hsteady hunique
    (fun k m i V hk => undisturbed_of_look hprogram hp hk.2 m i V) hlinks
  rw [← (looksFor_of_look hprogram).bodyReaches_iff (m := ⟨false, opts⟩) ht hown
    (by simp [NoReferences, show p.features = [] from hp]) ho]
  cases r₁ with
  | matched e sl₁ =>
    obtain ⟨-, n, l, hl, hpath⟩ := htells
    obtain rfl := List.mem_singleton.mp hl
    have hreaches : ∃ j, BodyReaches a (Ends a true) ∅ _ ⟨false, opts⟩ offset j :=
      ⟨e, _, _, _, n, hop, rfl, by simpa using hpath⟩
    exact ⟨some e, sl₁, rfl, iff_of_true rfl hreaches⟩
  | failed =>
    refine ⟨none, sl, rfl, iff_of_false Bool.false_ne_true ?_⟩
    rintro ⟨j, op', child', m', n, hop', hb', hpath⟩
    cases hop.symm.trans hop'
    cases hb'
    exact htells.links_dead _ List.mem_cons_self n j (by simp [Accepts]) (by simpa using hpath)
  | refused e => exact absurd rfl (h.ne_refused hsteady e)

end

namespace Attempt

variable {p : Pattern}

/-- **A lookaround that stands alone decides whether its plain body has a
derivation**, ahead or behind, and it matches nothing. -/
theorem run_look (hp : p.IsPlain) (kind : LookKind) {t : Target} {span : Span}
    (ht : OnText ⟨.ofPattern (.look kind p), t, span, false⟩) (cache : Cache) (opts : Options)
    (slots : Option Slots) {offset : ℕ}
    (ho : InSpan ⟨.ofPattern (.look kind p), t, span, false⟩ offset) :
    let found := ∃ j, Walk kind.isBehind
      (Pattern.Derives t span true kind.isBehind opts p) offset j
    let answer := (run ⟨.ofPattern (.look kind p), t, span, false⟩ cache opts slots offset).answer
    (found ↔ kind.isNegated = false) ∧ answer = .ok (some offset) ∨
      ¬(found ↔ kind.isNegated = false) ∧ answer = .ok none := by
  intro found answer
  set a : Attempt := ⟨.ofPattern (.look kind p), t, span, false⟩ with ha
  obtain ⟨r, ⟨V', he⟩, hreports⟩ := a.exists_discovers cache opts slots ho
  have hop : a.program.ops[(p.emit kind.isBehind none .empty).2.ops.size]? = _ :=
    ops_of_look (a := a) rfl
  obtain ⟨-, V₁, r₁, hbody, hcases⟩ := Explores.of_body he hop rfl
  obtain ⟨stop, sl₁, hstop, hiff⟩ := hbody.look_body (a := a) rfl hp ht ho
  have hverdict : (found ↔ kind.isNegated = false) ↔ stop.isSome ≠ kind.isNegated := by
    rw [← show stop.isSome = true ↔ found from hiff]
    cases stop.isSome <;> cases kind.isNegated <;> simp
  rw [hverdict]
  rcases hcases with ⟨stop', sl', j, link, hstop', hgo, hrest⟩ |
    ⟨stop', sl', hstop', hgo, -, rfl⟩ | ⟨e, rfl, -⟩
  · cases hstop.symm.trans hstop'
    rw [Op.resume?] at hgo
    split at hgo
    · cases hgo
    · cases hgo
      cases hrest with
      | accept => exact .inl ⟨‹_›, hreports.1⟩
      | short hwhole => cases hwhole
  · cases hstop.symm.trans hstop'
    rw [Op.resume?] at hgo
    split at hgo
    · exact .inr ⟨not_not.mpr ‹_›, hreports.1⟩
    · cases hgo
  · cases hstop

/-- A lookbehind with a plain body leaves no group that stops before it starts. -/
theorem inOrder_of_behind (hp : p.IsPlain) {t : Target} {span : Span}
    (ht : OnText ⟨.ofPattern (.look .behind p), t, span, false⟩) (cache : Cache) (opts : Options)
    (slots : Option Slots) {offset e : ℕ}
    (ho : InSpan ⟨.ofPattern (.look .behind p), t, span, false⟩ offset)
    (hanswer : (run ⟨.ofPattern (.look .behind p), t, span, false⟩ cache opts slots offset).answer =
      .ok (some e)) (n : ℕ) :
    Place.InOrder n ⟨e,
      (run ⟨.ofPattern (.look .behind p), t, span, false⟩ cache opts slots offset).slots⟩ := by
  set a : Attempt := ⟨.ofPattern (.look .behind p), t, span, false⟩ with ha
  obtain ⟨r, hr, hreports⟩ := a.exists_discovers cache opts slots ho
  rw [hreports.answer_iff] at hanswer
  cases r with
  | matched e' sl' =>
    obtain ⟨z, hwalks, hback⟩ := hr.walks rfl ho
    have hgoes := Pattern.Walks.goesBack ht n opts p hp ⟨offset, fresh slots⟩ z ho hwalks
    have hfresh : Place.InOrder n ⟨offset, fresh slots⟩ := by
      intro i j hi
      cases recorded_fresh.symm.trans hi
    have hstops : Place.StopsAhead n ⟨offset, fresh slots⟩ := by
      intro j hj
      cases recorded_fresh.symm.trans hj
    have hinOrder := hgoes.inOrder hstops hfresh
    rw [hreports.2, ← show z.slots = sl' from congrArg Place.slots hback]
    exact hinOrder
  | _ => cases hanswer

/-- **A lookbehind decides whether its body has a forward derivation that ends
at the offset.**  A positive one succeeds exactly if there is one, and a
negative one exactly if there is none; neither matches any text.  When a
positive one has succeeded, no group stops before it starts. -/
theorem run_behind (hp : p.IsPlain) (t : Target) (ht : t.IsGenuine) (span : Span)
    (hspan : Search.isValidSpan t span = true) (cache : Cache) (opts : Options)
    (slots : Option Slots) (offset : ℕ) (hstart : span.start ≤ offset)
    (hstop : offset ≤ span.stop) :
    let found := ∃ q, span.start ≤ q ∧ q ≤ offset ∧
      Pattern.Derives t span true false opts p q offset
    let behind := run ⟨.ofPattern (.look .behind p), t, span, false⟩ cache opts slots offset
    let notBehind := run ⟨.ofPattern (.look .notBehind p), t, span, false⟩ cache opts slots offset
    (behind.answer = .ok (some offset) ↔ found) ∧ (behind.answer = .ok none ↔ ¬found) ∧
      (notBehind.answer = .ok (some offset) ↔ ¬found) ∧ (notBehind.answer = .ok none ↔ found) ∧
        (found → ∀ captures : Captures, behind.slots = some captures.slots → ∀ n i j,
          captures.start? n = some i → captures.stop? n = some j → i ≤ j) := by
  intro found behind notBehind
  have hderives : (∃ j, Walk true (Pattern.Derives t span true true opts p) offset j) ↔ found := by
    refine exists_congr fun q => ?_
    rw [walk_true, Pattern.derives_reverse_iff p (by simp [show p.features = [] from hp])]
    refine ⟨fun h => ⟨?_, h.le, h⟩, fun h => h.2.2⟩
    have htext : Walk true (Pattern.HasText t span p.minLen) offset q := h.hasText
    exact (Pattern.HasText.walk_bounds htext ⟨hstart, hstop⟩).1
  have htext : ∀ kind, OnText ⟨.ofPattern (.look kind p), t, span, false⟩ := fun _ =>
    Search.onText_of_valid ht hspan _ _
  have hbehind : found ∧ behind.answer = .ok (some offset) ∨ ¬found ∧ behind.answer = .ok none := by
    have h := run_look hp .behind (htext .behind) cache opts slots ⟨hstart, hstop⟩
    simpa only [LookKind.isBehind, LookKind.isNegated, hderives, iff_true] using h
  have hnotBehind : ¬found ∧ notBehind.answer = .ok (some offset) ∨
      found ∧ notBehind.answer = .ok none := by
    have h := run_look hp .notBehind (htext .notBehind) cache opts slots ⟨hstart, hstop⟩
    simpa only [LookKind.isBehind, LookKind.isNegated, hderives, reduceCtorEq, iff_false,
      not_not] using h
  refine ⟨?_, ?_, ?_, ?_, fun hfound captures hcaptures n => ?_⟩
  · rcases hbehind with ⟨hfound, h⟩ | ⟨hfound, h⟩ <;> simp [h, hfound]
  · rcases hbehind with ⟨hfound, h⟩ | ⟨hfound, h⟩ <;> simp [h, hfound]
  · rcases hnotBehind with ⟨hfound, h⟩ | ⟨hfound, h⟩ <;> simp [h, hfound]
  · rcases hnotBehind with ⟨hfound, h⟩ | ⟨hfound, h⟩ <;> simp [h, hfound]
  · have hanswer := (hbehind.resolve_right fun h => h.1 hfound).2
    have hinOrder := inOrder_of_behind hp (htext .behind) cache opts slots ⟨hstart, hstop⟩ hanswer n
    rw [show (run _ cache opts slots offset).slots = _ from hcaptures] at hinOrder
    exact hinOrder

/-- `(?<=a(b*))` and `(?<!a(b*))` at the end of `xabb`. -/
theorem run_behind_loop :
    let p : Pattern := .concat [.char 'a', .group (some 1) (.repetition (.char 'b') 0 none true)]
    let behind := run ⟨.ofPattern (.look .behind p), .bufferOfString "xabb", ⟨0, 4⟩, false⟩ .empty
      .empty (some (.replicate 4 none)) 4
    let notBehind := run ⟨.ofPattern (.look .notBehind p), .bufferOfString "xabb", ⟨0, 4⟩, false⟩
      .empty .empty (some (.replicate 4 none)) 4
    behind.answer = .ok (some 4) ∧ behind.slots = some #[none, none, some 2, some 4] ∧ 2 ≤ 4 ∧
      (∃ q, 0 ≤ q ∧ q ≤ 4 ∧
        Pattern.Derives (.bufferOfString "xabb") ⟨0, 4⟩ true false .empty p q 4) ∧
      notBehind.answer = .ok none := by
  intro p behind notBehind
  have hanswer : behind.answer = .ok (some 4) := by cbv
  have hslots : behind.slots = some #[none, none, some 2, some 4] := by cbv
  have hp : p.IsPlain := rfl
  obtain ⟨hbehind, -, -, hnotBehind, hcaptures⟩ := run_behind hp (.bufferOfString "xabb") trivial
    ⟨0, 4⟩ (by decide) .empty .empty (some (.replicate 4 none)) 4 (by decide) (by decide)
  have hfound := hbehind.mp hanswer
  exact ⟨hanswer, hslots, hcaptures hfound ⟨_⟩ hslots 1 2 4 rfl rfl, hfound, hnotBehind.mpr hfound⟩

end Attempt

end Regexp
