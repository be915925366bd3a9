import Mathlib.Data.List.Permutation
import Regexp.Proofs.Nested
import Regexp.Proofs.Recognition

/-!
# Verdicts on lookarounds

Marks are kept when a lookaround has been decided, so they may close its body
when it is looked at again.  Then the machine takes a body to have failed that
has a match, and what it takes for the verdict depends on what was tried before.
It is tempting to say that an attempt decides whether its pattern has a
derivation; `Attempt.not_verdicts_of_lookarounds_loop` is a short pattern for
which it does not.  This module says exactly when it does.

## When a verdict is right

`Attempt.JudgesRightly` is about one lookaround at one state: if the machine
comes to it there, it finds a match within the match (`Attempt.Finds`) exactly
if the body of the lookaround has a derivation from there.  The negation in a
negative lookaround plays no part in this, since it concerns what is made of the
verdict and not the verdict.

What can go wrong is told by marks (`Undisturbed`): a path leads through the
body, but none that avoids the closures that were entered before.  At a state at
which everything inside of the body is undisturbed, `Attempt.finds_iff` says
that the machine finds a match exactly if a path avoids the marks, and
`Program.LooksFor.bodyReaches_iff` that the paths through the body are the
derivations of the body.  So a verdict is right if and only if the body is
undisturbed there.  For lookarounds in the body of one another this is an
induction, on the index of the operation, because bodies come before the
operations that run them.

## Which patterns are covered

Those in which the verdicts of lookarounds are the only thing that is not plain
(`Pattern.LooksOnly`):  lookarounds, and conditionals on them, anywhere in each
other.  A conditional decides its lookaround before either of its branches, and
no loop of the pattern comes between (`undisturbed_ifLook`).

## Main definitions

* `Pattern.LooksOnly` — patterns of plain constructs, lookarounds and
  conditionals on them.
* `Attempt.Finds` — the machine finds a match within the match.
* `Attempt.JudgesRightly` — it finds one exactly if the body of the lookaround
  has a derivation.

## Main statements

* `Program.LooksFor.bodyReaches_iff` — the paths through a body are the
  derivations of the body.
* `Attempt.judgesRightly_iff_undisturbed` — all verdicts are right exactly if no
  body is disturbed.
* `Attempt.verdicts_of_lookarounds` — then an attempt decides whether its
  pattern has a derivation.
-/

namespace Regexp

variable {a : Attempt} {watch : ℕ → Mode → ℕ → Marks → Prop} {top : Bool} {m m' : Mode}
  {V V' : Marks} {links : List Link} {i k o : ℕ} {sl : Option Slots} {r : Discovery}
  {own : ℕ → ℕ} {op : Op} {child : Link}

/-- The matches within the match that an exploration meets come before the owner
of its links. -/
theorem Explores.restrict (hown : a.program.Owned own)
    (h : Explores a watch top m V links i sl V' r) (hlinks : ∀ l ∈ links, LinkIn own o l) :
    Explores a (fun k m i V => watch k m i V ∧ k < o) top m V links i sl V' r := by
  -- The owner varies: in a body it is the operation, which comes before the owner outside.
  induction h generalizing o with
  | accept h => exact .accept h
  | short h hi => exact .short h hi
  | read hop hread _ ih => exact .read hop hread (ih (linksIn_links hown hlinks hop))
  | unread hop hread => exact .unread hop hread
  | unreadable hop hread => exact .unreadable hop hread
  | choose hop hc _ ih => exact .choose hop hc (ih (linksIn_branches hown hlinks hop))
  | reenter hop hV => exact .reenter hop hV
  | enter hop hV _ ih => exact .enter hop hV (ih (linksIn_branches hown hlinks hop))
  | mark hop _ ih => exact .mark hop (ih (linksIn_links hown hlinks hop))
  | test hop hg _ ih => exact .test hop hg (ih (linksIn_test hown hlinks hop))
  | untestable hop hg => exact .untestable hop hg
  | fail hop => exact .fail hop
  | @resume _ _ _ k _ _ _ _ _ _ _ _ _ _ _ _ _ hop hb hw _ hr hgo _ ihb ih =>
    have hlt : k < o := own_eq_of_links hlinks ▸ hown.lt k _ hop
    refine .resume hop hb ⟨hw, hlt⟩ ?_ hr hgo (ih (linksIn_resume hown hlinks hop hgo))
    exact (ihb (linksIn_body hown hop hb)).mono fun _ _ _ _ h => ⟨h.1, h.2.trans hlt⟩
  | @abandon _ _ _ k _ _ _ _ _ _ _ _ _ hop hb hw _ hr hgo ihb =>
    have hlt : k < o := own_eq_of_links hlinks ▸ hown.lt k _ hop
    refine .abandon hop hb ⟨hw, hlt⟩ ?_ hr hgo
    exact (ihb (linksIn_body hown hop hb)).mono fun _ _ _ _ h => ⟨h.1, h.2.trans hlt⟩
  | @refuse _ _ _ k _ _ _ _ _ _ _ hop hb hw _ ihb =>
    have hlt : k < o := own_eq_of_links hlinks ▸ hown.lt k _ hop
    refine .refuse hop hb ⟨hw, hlt⟩ ?_
    exact (ihb (linksIn_body hown hop hb)).mono fun _ _ _ _ h => ⟨h.1, h.2.trans hlt⟩
  | nil => exact .nil
  | first _ hr ih => exact .first (ih (linksIn_head hlinks)) hr
  | later _ _ ih ih' => exact .later (ih (linksIn_head hlinks)) (ih' (linksIn_tail hlinks))

/-! ### Bodies -/

/-- Whether a pattern has no constructs beyond plain ones, lookarounds and
conditionals on lookarounds.  Lookarounds may lie within each other. -/
structure Pattern.LooksOnly (p : Pattern) : Prop where
  steady : p.IsSteady
  test : ∀ test yes no, .ifLook test yes no ∈ p.subpatterns → ∃ kind body, test = .look kind body

/-- The body of a lookaround has no references. -/
theorem Pattern.LooksOnly.noReferences {p body : Pattern} {kind : LookKind} (hp : p.LooksOnly)
    (h : .look kind body ∈ p.subpatterns) : NoReferences true body.features := by
  intro _ g hg
  exact hp.steady.reference_notMem g (p.features_subset _ h (List.mem_cons_of_mem _ hg))

namespace Program

/-- Whether the operation at an index is a lookaround that has the operations of
a body: somewhere in the program are those that `Pattern.emit` makes of it, and
the operation leads to their first. -/
def LooksFor (program : Program) (k : ℕ) (kind : LookKind) (body : Pattern) : Prop :=
  ∃ b b' child next, program.ops[k]? = some (.look kind child next) ∧
    body.emit kind.isBehind none b = (child, b') ∧ Agrees program.ops b b'

/-- The lookarounds of a program have the bodies of those of its pattern. -/
theorem exists_looksFor {p : Pattern} {kind : LookKind} {next : Link}
    (hprogram : a.program = .ofPattern p) (hop : a.program.ops[k]? = some (.look kind child next)) :
    ∃ body, .look kind body ∈ p.subpatterns ∧ a.program.LooksFor k kind body := by
  rw [hprogram] at hop ⊢
  obtain ⟨q, hq, b, b', hagrees, hemits⟩ := exists_part p hop
  cases hemits with
  | look hemit => exact ⟨_, hq, b, b', child, next, hop, hemit, hagrees⟩

/-- The paths through the body of a lookaround are the derivations of the body. -/
theorem LooksFor.bodyReaches_iff {kind : LookKind} {body : Pattern}
    (h : a.program.LooksFor k kind body) (ht : a.OnText) (hown : a.program.Owned own)
    (hbody : NoReferences true body.features) (hi : a.InSpan i) :
    (∃ j, BodyReaches a (Ends a true) ∅ k m i j) ↔ ∃ j, Walk kind.isBehind
      (Pattern.Derives a.target a.span true kind.isBehind m.opts body) i j := by
  obtain ⟨b, b', child, next, hop, hemit, hagrees⟩ := h
  have hobeys : Obeys (.offsets a) a.program.ops true true _ := obeys_offsets hown
  have hconveys := (Pattern.emit_conveys hobeys ⟨i, hi⟩ body (by simp)
    ⟨kind.isBehind, m.opts⟩).conveys none b (by rwa [hemit])
  rw [hemit] at hconveys
  refine exists_congr fun j => ?_
  rw [← ends_some_iff hown, ends_iff_concludes hown hop rfl,
    ← Pattern.walks_iff_derives ht body (hbody rfl) ⟨kind.isBehind, m.opts⟩ i j hi]
  exact ⟨fun ⟨n, hr⟩ => hconveys.of_leads hi hr, hconveys.exists_leads rfl hi⟩

end Program

/-- A path through a conditional on a lookaround meets no closure before it
comes to the lookaround, and none after. -/
theorem undisturbed_ifLook {p : Pattern} {yes no : Link} (hp : p.LooksOnly)
    (hprogram : a.program = .ofPattern p)
    (hop : a.program.ops[k]? = some (.ifLook child yes no)) : Undisturbed a k m i V := by
  have hop' := hop
  rw [hprogram] at hop'
  obtain ⟨q, hq, b, b', hagrees, hemits⟩ := Program.exists_part p hop'
  cases hemits with
  | ifLook hemit =>
    obtain ⟨kind, body, rfl⟩ := hp.test _ _ _ hq
    cases hemit
    have hadded := (body.emit_grows_any kind.isBehind).added none b
    have hlook : a.program.ops[(body.emit kind.isBehind none b).2.ops.size]? =
        some (.look kind (body.emit kind.isBehind none b).1 none) := by
      rw [hprogram]
      exact (hagrees.right hadded).push
    rintro ⟨j, op, child', m', n, hop', hb, hpath⟩
    cases hop.symm.trans hop'
    cases hb
    cases hpath with
    | step move rest =>
      obtain ⟨stop, hends, hgo⟩ := (move_iff hlook).mp move
      obtain rfl := List.mem_singleton.mp (Op.resume?_mem_links hgo)
      cases rest
      exact ⟨_, _, _, _, 1, hop, rfl, .step (.resume hlook rfl hends hgo) .done⟩

namespace Attempt

variable {s s' s₀ s₁ : State}

/-! ### Right verdicts -/

variable (a) in
/-- Whether the machine finds a match within the match that it begins at a
state: it comes to the end of the program before the frame for it is taken from
the stack.  The negation of a lookaround has no part in this. -/
def Finds (s : State) : Prop :=
  ∃ s₁ V' stop sl, a.step s = .next s₁ ∧ a.Settles s₁.stack s₁ V' (.matched stop sl)

variable (a) in
/-- Whether the machine, if it comes to a lookaround of a pattern at a state,
finds a match within the match exactly if the body of the lookaround has a
derivation from there, ahead or behind.  Of a state at any other operation it
says nothing. -/
def JudgesRightly (p : Pattern) (s : State) : Prop :=
  ∀ k kind child next, s.control = .run (some k) →
    a.program.ops[k]? = some (.look kind child next) →
      ∃ body, .look kind body ∈ p.subpatterns ∧ a.program.LooksFor k kind body ∧
        (a.Finds s ↔ ∃ j, Walk kind.isBehind
          (Pattern.Derives a.target a.span true kind.isBehind s.opts body) s.offset j)

section

variable (hown : a.program.Owned own) (hunique : a.program.ClosuresUnique)
  (hsteady : ∀ (k : ℕ) (op : Op), a.program.ops[k]? = some op → op.isSteady = true)
  (hs₀ : s₀.Valid a)

include hown hunique hsteady hs₀

/-- At a state where the machine begins a match within the match, and where
those inside of it are undisturbed, it finds a match exactly if a path through
the body avoids the marks. -/
theorem finds_iff (hw : a.Within [] s₀ s) (hV : a.Shows s V) (hc : s.control = .run (some k))
    (hinner : ∀ k' < k, ∀ m i V, a.Visits s₀ k' m i V → Undisturbed a k' m i V)
    (hop : a.program.ops[k]? = some op) (hb : op.body? s.mode = some (child, m')) :
    a.Finds s ↔ ∃ j, BodyReaches a (Ends a true) ↑V k s.mode s.offset j := by
  obtain ⟨s₁, V₁, r₁, hstep, hd, hstack, he, hr⟩ :=
    explores_of_begin (hw.valid hs₀) hw hV hc hop hb
  have hlinks := linksIn_body hown hop hb
  have htells := (he.restrict hown hlinks).white_path hown hsteady hunique
    (fun k' m i V h => hinner k' h.2 m i V h.1) hlinks
  cases r₁ with
  | matched stop sl =>
    obtain ⟨-, n, l, hl, hpath⟩ := htells
    obtain rfl := List.mem_singleton.mp hl
    exact ⟨fun _ => ⟨stop, op, _, m', n, hop, hb, hpath⟩, fun _ => ⟨s₁, V₁, stop, sl, hstep, hr⟩⟩
  | failed =>
    constructor
    · rintro ⟨s₂, V₂, stop, sl, hstep', hr'⟩
      cases hstep.symm.trans hstep'
      rw [hstack] at hr hr'
      cases hr.stop_unique hd hr' rfl rfl
    · rintro ⟨j, op', child', m'', n, hop', hb', hpath⟩
      cases hop.symm.trans hop'
      cases hb.symm.trans hb'
      exact absurd hpath (htells.links_dead _ List.mem_cons_self n j (by simp [Accepts]))
  | refused e => exact absurd rfl (he.ne_refused hsteady e)

/-- There, it finds a match just when there is one exactly if the body is
undisturbed. -/
theorem finds_right_iff (hw : a.Within [] s₀ s) (hV : a.Shows s V)
    (hc : s.control = .run (some k))
    (hinner : ∀ k' < k, ∀ m i V, a.Visits s₀ k' m i V → Undisturbed a k' m i V)
    (hop : a.program.ops[k]? = some op) (hb : op.body? s.mode = some (child, m')) :
    (a.Finds s ↔ ∃ j, BodyReaches a (Ends a true) ∅ k s.mode s.offset j) ↔
      Undisturbed a k s.mode s.offset V := by
  rw [finds_iff hown hunique hsteady hs₀ hw hV hc hinner hop hb]
  constructor
  · intro h hj
    exact h.mpr hj
  · intro h
    refine ⟨?_, h⟩
    rintro ⟨j, op, child, m', n, hop, hb, hpath⟩
    exact ⟨j, op, child, m', n, hop, hb, hpath.mono (Set.empty_subset _)⟩

end

section

variable {p : Pattern} (hp : p.LooksOnly) (ht : a.OnText) (hprogram : a.program = .ofPattern p)

include hp ht hprogram

/-- The verdict on one lookaround. -/
theorem judgesRightly_iff {kind : LookKind} {next : Link} (hs₀ : s₀.Valid a)
    (hw : a.Within [] s₀ s) (hV : a.Shows s V) (hc : s.control = .run (some k))
    (hinner : ∀ k' < k, ∀ m i V, a.Visits s₀ k' m i V → Undisturbed a k' m i V)
    (hop : a.program.ops[k]? = some (.look kind child next)) :
    a.JudgesRightly p s ↔ Undisturbed a k s.mode s.offset V := by
  obtain ⟨own, hown, -⟩ := Program.exists_owned p
  rw [← hprogram] at hown
  have hunique : a.program.ClosuresUnique := by
    rw [hprogram]
    exact fun _ _ _ _ _ _ _ _ _ => Program.closure_unique p
  have hsteady : ∀ (k : ℕ) (op : Op), a.program.ops[k]? = some op → op.isSteady = true := by
    rw [hprogram]
    exact fun k op => hp.steady.op
  have hpaths : ∀ body, .look kind body ∈ p.subpatterns → a.program.LooksFor k kind body →
      ((∃ j, BodyReaches a (Ends a true) ∅ k s.mode s.offset j) ↔ ∃ j, Walk kind.isBehind
        (Pattern.Derives a.target a.span true kind.isBehind s.opts body) s.offset j) :=
    fun body hmem hlooks =>
      hlooks.bodyReaches_iff ht hown (hp.noReferences hmem) (hw.valid hs₀).offset_mem
  rw [← finds_right_iff hown hunique hsteady hs₀ hw hV hc hinner hop rfl]
  constructor
  · intro h
    obtain ⟨body, hmem, hlooks, hfinds⟩ := h k kind child next hc hop
    rw [hfinds, hpaths body hmem hlooks]
  · intro h k' kind' child' next' hc' hop'
    cases hc.symm.trans hc'
    cases hop.symm.trans hop'
    obtain ⟨body, hmem, hlooks⟩ := Program.exists_looksFor hprogram hop
    exact ⟨body, hmem, hlooks, by rw [h, hpaths body hmem hlooks]⟩

/-- All verdicts are right exactly if no body is disturbed. -/
theorem judgesRightly_iff_undisturbed (hs₀ : s₀.Valid a) :
    (∀ s, a.Within [] s₀ s → a.JudgesRightly p s) ↔
      ∀ k m i V, a.Visits s₀ k m i V → Undisturbed a k m i V := by
  constructor
  · intro h k
    -- The bodies inside of a body come before its operation.
    induction k using Nat.strong_induction_on with
    | _ k ih =>
      rintro m i V ⟨s, hw, hc, rfl, rfl, hV⟩
      intro hj
      obtain ⟨j, op, child, m', n, hop, hb, hpath⟩ := hj
      have hbody : ∃ j, BodyReaches a (Ends a true) ∅ k s.mode s.offset j :=
        ⟨j, op, child, m', n, hop, hb, hpath⟩
      cases op with
      | look kind child next =>
        exact (judgesRightly_iff hp ht hprogram hs₀ hw hV hc ih hop).mp (h s hw) hbody
      | ifLook child yes no => exact undisturbed_ifLook hp hprogram hop hbody
      | independent | modifier =>
        rw [hprogram] at hop
        have := hp.steady.op hop
        cases this
      | _ => cases hb
  · intro h s hw k kind child next hc hop
    obtain ⟨V, hV⟩ := a.exists_shows s
    have hvisit : a.Visits s₀ k s.mode s.offset V := ⟨s, hw, hc, rfl, rfl, hV⟩
    exact (judgesRightly_iff hp ht hprogram hs₀ hw hV hc (fun k' _ => h k') hop).mpr
      (h k _ _ V hvisit) k kind child next hc hop

end

/-! ### Attempts -/

/-- **An attempt is right about its lookarounds exactly if no body is
disturbed**, and then it succeeds if and only if its pattern has a derivation.
A body is disturbed if a path leads through it, but none that avoids the
closures that were entered before. -/
theorem verdicts_of_lookarounds {p : Pattern} (hp : p.LooksOnly) (t : Target) (span : Span)
    (ht : OnText ⟨.ofPattern p, t, span, false⟩) (cache : Cache) (opts : Options)
    (slots : Option Slots) (offset : ℕ) (ho : InSpan ⟨.ofPattern p, t, span, false⟩ offset) :
    let a : Attempt := ⟨.ofPattern p, t, span, false⟩
    let s₀ := a.start cache opts slots offset
    let undisturbed := ∀ k m i V, a.Visits s₀ k m i V → Undisturbed a k m i V
    ((∀ s, a.Within [] s₀ s → a.JudgesRightly p s) ↔ undisturbed) ∧
      (undisturbed → ((∃ e, (a.run cache opts slots offset).answer = .ok (some e)) ↔
        ∃ e, Pattern.Derives t span true false opts p offset e)) := by
  intro a s₀ undisturbed
  refine ⟨judgesRightly_iff_undisturbed hp ht rfl (start_valid ho), fun h => ?_⟩
  rcases run_of_undisturbed hp.steady ht rfl cache opts slots ho h with
    ⟨e, -, hderives, hanswer⟩ | ⟨hanswer, hnone⟩
  · exact ⟨fun _ => ⟨e, hderives⟩, fun _ => ⟨e, hanswer⟩⟩
  · constructor
    · rintro ⟨e, he⟩
      cases hanswer.symm.trans he
    · rintro ⟨e, he⟩
      exact absurd he (hnone e fun _ h => by cases h)

/-- A lookahead that is looked at twice, with a loop in its body and a way
around it: `(?:a|a)(?=b*c|b)d` on `abe`.  When it is looked at again, the loop
has been entered, and the `b` that is taken instead is the one that was taken
before. -/
theorem verdicts_of_lookarounds_detour :
    let p : Pattern := .concat [.union [.char 'a', .char 'a'], .look .ahead (.union
      [.concat [.repetition (.char 'b') 0 none true, .char 'c'], .char 'b']), .char 'd']
    let a : Attempt := ⟨.ofPattern p, .bufferOfString "abe", ⟨0, 3⟩, false⟩
    (∀ s, a.Within [] (a.start .empty .empty none 0) s → a.JudgesRightly p s) ∧
      ¬ ∃ e, Pattern.Derives (.bufferOfString "abe") ⟨0, 3⟩ true false .empty p 0 e := by
  intro p a
  have hp : p.LooksOnly := by
    refine ⟨?_, ?_⟩
    · simp [p, Pattern.IsSteady, Pattern.features, Pattern.featuresAll]
    · simp [p, Pattern.subpatterns, Pattern.subpatternsAll]
  have hlook : a.program.ops[6]? = some (.look .ahead (some 5) (some 0)) := rfl
  have hunion : a.program.ops[5]? = some (.union [some 2, some 4]) := rfl
  have hchar : a.program.ops[4]? = some (.atom (.char 'b') none) := rfl
  have honly : ∀ k < a.program.ops.size, k ≠ 6 →
      (a.program.ops[k]?.bind (Op.body? ⟨false, .empty⟩)).isSome = false := by decide +kernel
  have hruns : a.holdsAlong (fun s => s.reverse = false ∧ s.opts = .empty ∧
      (s.control = .run (some 6) → s.offset = 1)) 30 (a.start .empty .empty none 0) = true := by
    decide +kernel
  have hanswer : (Attempt.run ⟨.ofPattern p, .bufferOfString "abe", ⟨0, 3⟩, false⟩ .empty .empty
      none 0).answer = .ok none := by cbv
  obtain ⟨hright, hderives⟩ := verdicts_of_lookarounds hp (.bufferOfString "abe") ⟨0, 3⟩
    ⟨trivial, rfl, rfl⟩ .empty .empty none 0 (by decide)
  have hundisturbed : ∀ k m i V, a.Visits (a.start .empty .empty none 0) k m i V →
      Undisturbed a k m i V := by
    rintro k m i V hvisit ⟨j, op, child, m', n, hop, hb, -⟩
    obtain ⟨rfl, rfl, rfl⟩ := hvisit.of_only honly hruns hop hb
    have hread : a.read (.char 'b') .empty false 1 none = .ok (some 2) := rfl
    exact ⟨2, _, _, _, 2, hlook, rfl, .step (.choose hunion rfl (.tail _ (.head _)))
      (.step (.read hchar hread) .done)⟩
  refine ⟨hright.mpr hundisturbed, ?_⟩
  rw [← hderives hundisturbed, hanswer]
  simp

/-- A lookahead that is looked at twice, with a loop in its body:
`(?:a|a)(?!b*c)` on `abc`.  When it is looked at again, the loop has been
entered, and the text behind is not found. -/
theorem not_verdicts_of_lookarounds_loop :
    let p : Pattern := .concat [.union [.char 'a', .char 'a'],
      .look .notAhead (.concat [.repetition (.char 'b') 0 none true, .char 'c'])]
    (Attempt.run ⟨.ofPattern p, .bufferOfString "abc", ⟨0, 3⟩, false⟩ .empty .empty none 0).answer =
        .ok (some 1) ∧
      ¬ ∃ e, Pattern.Derives (.bufferOfString "abc") ⟨0, 3⟩ true false .empty p 0 e := by
  intro p
  refine ⟨by cbv, ?_⟩
  have hchar : ∀ k c, ['a', 'b', 'c'][k]? = some c →
      (Target.bufferOfString "abc").HasChar ⟨0, 3⟩ k c (k + 1) := by
    intro k c hk
    have := (List.getElem?_eq_some_iff.mp hk).1
    exact ⟨k, hk, rfl, rfl, Nat.zero_le k, Nat.succ_le_of_lt this⟩
  rintro ⟨e, i, hunion, _, ⟨rfl, hlook⟩, rfl⟩
  obtain ⟨d, i', hd, -, rfl⟩ : Target.Spells _ _ false 0 ['a'] i :=
    hunion.elim id (·.elim id False.elim)
  obtain ⟨k, hk, hplace, rfl, -⟩ := hd
  obtain rfl : 0 = k := hplace
  refine hlook rfl ⟨3, 2, ⟨1, by simp, by simp, 2, ?_, rfl⟩, 3, ?_, rfl⟩
  · exact Target.spells_singleton.mpr ⟨'b', hchar 1 'b' rfl, by decide⟩
  · exact Target.spells_singleton.mpr ⟨'c', hchar 2 'c' rfl, by decide⟩

end Attempt

end Regexp
