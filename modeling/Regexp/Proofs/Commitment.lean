import Mathlib.Data.List.Permutation
import Regexp.Proofs.Nested
import Regexp.Proofs.Recognition
import Regexp.Proofs.Relocation

/-!
# Commitment

An independent group and a modifier keep to the first way in which their body
matches.  Marks stay when a group has been left, so they may turn the body to
another way when the group is entered again: the group then keeps to that one.
This module compares what a group does with what its body does alone, and says
exactly when they are the same.

## A body alone

What a body does alone is the answer of an attempt for the body as a pattern of
its own, with an unused cache (`Attempt.alone`), and a group commits to it if
each match within the match that the machine begins there ends in the same way
(`Attempt.CommitsTo`).  An attempt for the body alone runs another program.
`Program.Surrounds` describes the program of the sequence as one that holds the
operations of the body somewhere, and `Program.Surrounds.alone_iff` moves the
exploration of the body from one program to the other, with the indices and the
numbers of closures shifted.  What the slots hold does not matter to a plain
body.

## Untouched groups

The marks touch a group if its body ends elsewhere than it would with no marks
at all (`Untouched`).  They may touch it although a path through the body is
left, and they need not touch it although they close some paths: what counts is
where the first way ends.  `Attempt.commits_iff_untouched` is the resulting
criterion, and `Attempt.run_commits` adds what it means for the whole: an
attempt that passes through the group then succeeds exactly if the end of the
body leads on to a match.  `Attempt.not_run_commits_loop` is a run in which a
group is touched.

## Main definitions

* `Commitment` — the groups that keep to the first way in which their body
  matches.
* `Untouched` — the marks at a match within the match do not change where it
  ends.
* `Attempt.CommitsTo` — a match within the match ends as its body does alone.
* `Program.Surrounds` — a program with one such group around a body.

## Main statements

* `Program.Surrounds.alone_iff` — a body ends as it does alone if its closures
  are not marked.
* `Attempt.commits_iff_untouched` — groups commit to the way of their body alone
  exactly if no mark touches it.
* `Attempt.run_commits` — a sequence with a group succeeds where the way of its
  body alone leads on.
-/

namespace Regexp

/-- The groups that keep to the first way in which their body matches.  Both
kinds run their body as a match of its own, and once it has ended its choices
are gone. -/
inductive Commitment where
  /-- A group that changes nothing else. -/
  | independent
  /-- A group that adds and removes options. -/
  | modifier (add remove : Options)

namespace Commitment

/-- The group around a body. -/
def around : Commitment → Pattern → Pattern
  | independent, body => .independent body
  | modifier add remove, body => .modifier add remove body

/-- The options within the group. -/
def opts : Commitment → Options → Options
  | independent, opts => opts
  | modifier add remove, opts => opts.modify add remove

/-- The operation of the group. -/
def op : Commitment → Link → Link → Op
  | independent, child, next => .independent child next
  | modifier add remove, child, next => .modifier add remove child next

variable (g : Commitment) {m : Mode} {child next link : Link} {i j : ℕ} {stop : Option ℕ}

theorem emit_around (reverse : Bool) (body : Pattern) (next : Link) (b : Builder) :
    (g.around body).emit reverse next b =
      (body.emit reverse none b).2.push (g.op (body.emit reverse none b).1 next) := by
  cases g <;> rfl

theorem body?_op : (g.op child next).body? m = some (child, ⟨m.reverse, g.opts m.opts⟩) := by
  cases g <;> rfl

/-- The group goes on where its body ends, and nowhere else.  If the body has
not matched, the group does not either. -/
theorem resume?_op :
    (g.op child next).resume? i stop = some (.go j link) ↔ stop = some j ∧ link = next := by
  cases g <;> cases stop <;> simp [op, Op.resume?, eq_comm]

theorem ne_look {kind : LookKind} {child' next' : Link} :
    g.op child next ≠ .look kind child' next' := by
  cases g <;> exact Op.noConfusion

end Commitment

/-! ### Programs with a group -/

/-- Whether a program has a group around a body that was made on top of other
operations, and no further operation with a feature.  The program of a sequence
of plain patterns with a group among them is like this,
`Program.exists_surrounds`. -/
structure Program.Surrounds (program : Program) (g : Commitment) (body : Pattern) (base : Builder) :
    Prop where
  agrees : Agrees program.ops base (body.emit false none base).2
  op : ∃ next, program.ops[(body.emit false none base).2.ops.size]? =
    some (g.op (body.emit false none base).1 next)
  plain : ∀ (k : ℕ) (op : Op), program.ops[k]? = some op →
    k ≠ (body.emit false none base).2.ops.size → op.feature? = none

variable {a : Attempt} {g : Commitment} {A B C : Pattern}

/-- A sequence of plain patterns with one group among them has a program that
surrounds the group's body. -/
theorem Program.exists_surrounds (hA : A.IsPlain) (hB : B.IsPlain) (hC : C.IsPlain) :
    ∃ base, (ofPattern (.concat [A, g.around B, C])).Surrounds g B base := by
  let rear := C.emit false none .empty
  let body := B.emit false none rear.2
  let group := body.2.push (g.op body.1 rear.1)
  let all := A.emit false group.1 group.2
  have hops : (ofPattern (.concat [A, g.around B, C])).ops = all.2.ops := by
    cases g <;> rfl
  have hrear : Builder.Added _ .empty rear.2 := hC.added false none .empty
  have hbody : Builder.Added _ rear.2 body.2 := hB.added false none rear.2
  have hfront : Builder.Added _ group.2 all.2 := hA.added false group.1 group.2
  have hsize : group.2.ops.size = body.2.ops.size + 1 := by simp [group, Builder.push]
  have hold : ∀ k < body.2.ops.size, all.2.ops[k]? = body.2.ops[k]? := by
    intro k hk
    rw [hfront.keeps k (by omega)]
    simp only [group, Builder.push, Array.getElem?_push]
    rw [if_neg (by omega)]
  refine ⟨rear.2, ?_, ⟨rear.1, ?_⟩, ?_⟩
  · intro k _ hlt
    rw [hops, hold k hlt]
  · rw [hops]
    change all.2.ops[body.2.ops.size]? = _
    rw [hfront.keeps _ (by omega)]
    simp [group, body, Builder.push]
  · intro k op hop hne
    rw [hops] at hop
    rcases lt_or_gt_of_ne hne with hlt | hgt
    · have hop' : body.2.ops[k]? = some op := (hold k hlt).symm.trans hop
      obtain ⟨_, _, -, -, hplain⟩ := (hrear.trans hbody).satisfies k op (Nat.zero_le k) hop'
      exact hplain
    · obtain ⟨_, _, -, -, hplain⟩ := hfront.satisfies k op (hsize.trans_le hgt) hop
      exact hplain

namespace Program.Surrounds

variable {base : Builder} {k i : ℕ} {m m' : Mode} {op : Op} {child : Link} {V : Marks}
  {sl : Option Slots} {r : Discovery} {top : Bool} {links : List Link} {V' : Marks}
  {watch : ℕ → Mode → ℕ → Marks → Prop} {own : ℕ → ℕ}

/-- The only match within the match is that of the group.  Its body is read
under the options of the group. -/
theorem of_body (h : a.program.Surrounds g B base) (hop : a.program.ops[k]? = some op)
    (hb : op.body? m = some (child, m')) :
    k = (B.emit false none base).2.ops.size ∧ child = (B.emit false none base).1 ∧
      m' = ⟨m.reverse, g.opts m.opts⟩ := by
  have hk : k = (B.emit false none base).2.ops.size := by
    by_contra hne
    have hplain := h.plain k op hop hne
    cases op <;> simp_all [Op.feature?, Op.body?]
  obtain ⟨next, hgroup⟩ := h.op
  subst hk
  cases hop.symm.trans hgroup
  cases (Commitment.body?_op g).symm.trans hb
  exact ⟨rfl, rfl, rfl⟩

/-- There is no lookaround. -/
theorem ne_look (h : a.program.Surrounds g B base) (k : ℕ) (kind : LookKind) (child next : Link) :
    a.program.ops[k]? ≠ some (.look kind child next) := by
  intro hop
  obtain ⟨rfl, -⟩ := h.of_body (m := ⟨false, .empty⟩) hop rfl
  obtain ⟨next', hgroup⟩ := h.op
  exact g.ne_look (Option.some.inj (hgroup.symm.trans hop))

/-- There is no choice by what was recorded: neither references nor tests of
groups are plain. -/
theorem isIndifferent (h : a.program.Surrounds g B base) (k : ℕ) (op : Op)
    (hop : a.program.ops[k]? = some op) : op.isIndifferent = true := by
  by_cases hk : k = (B.emit false none base).2.ops.size
  · obtain ⟨next, hgroup⟩ := h.op
    subst hk
    cases hop.symm.trans hgroup
    cases g <;> rfl
  · refine Op.isIndifferent_of_isSteady (Op.isSteady_of_feature fun f hf => ?_)
    rw [h.plain k op hop hk] at hf
    cases hf

/-- The program holds the body as it is made alone, but for where its operations
stand and how its closures are numbered. -/
theorem exists_holds (h : a.program.Surrounds g B base) (hB : B.IsPlain)
    (hwhole : a.whole = false) :
    ∃ own o, a.Holds { a with program := .ofPattern B } own o base.ops.size base.closureLen ∧
      LinkIn own o (ofPattern B).start ∧
      (B.emit false none base).1 = (ofPattern B).start.shift base.ops.size := by
  obtain ⟨own, hown, hstart⟩ := exists_owned B
  have hemit := B.emit_above false base none .empty
  rw [Builder.above_empty] at hemit
  refine ⟨own, _, ⟨rfl, rfl, hwhole, hwhole, hown, ?_, ?_⟩, hstart, congrArg Prod.fst hemit⟩
  · exact fun k op hop _ => feature?_eq_none hB k op hop
  · intro k op hop _
    have hbuilder : (B.emit false none base).2 = base.above (B.emit false none .empty).2 :=
      congrArg Prod.snd hemit
    have habove := Builder.getElem?_above base (B.emit false none .empty).2 hop
    rw [← hbuilder] at habove
    have hlt := (Array.getElem?_eq_some_iff.mp habove).1
    rw [h.agrees _ (Nat.le_add_right _ _) hlt, habove]

end Program.Surrounds

/-! ### Bodies alone -/

/-- Whether the marks at a match within the match do not change where it ends.
It compares two explorations of the body, one with the marks that there are and
one without any; that both can come to nothing is no difference. -/
def Untouched (a : Attempt) (k : ℕ) (m : Mode) (i : ℕ) (V : Marks) : Prop :=
  ∀ op child m' sl V₁ V₂ r₁ r₂, a.program.ops[k]? = some op → op.body? m = some (child, m') →
    Explores a (fun _ _ _ _ => True) false m' V [child] i sl V₁ r₁ →
      Explores a (fun _ _ _ _ => True) false m' ∅ [child] i sl V₂ r₂ → r₁.stop? = r₂.stop?

namespace Attempt

/-- The answer of an attempt for a pattern alone, on the same text and span, and
with an empty cache. -/
def alone (a : Attempt) (p : Pattern) (opts : Options) (i : ℕ) :
    Except MatchError (Option ℕ) :=
  (run { a with program := .ofPattern p } .empty opts none i).answer

/-- Whether a match within the match that the machine begins at a state, if it
does, ends as a pattern does alone, under the options of the match.  The pattern
is run anew for this, without any marks, at the offset where the group is
entered. -/
def CommitsTo (a : Attempt) (p : Pattern) (s : State) : Prop :=
  ∀ k op child m', s.control = .run (some k) → a.program.ops[k]? = some op →
    op.body? s.mode = some (child, m') →
      ∀ stop, a.Closes s stop ↔ a.alone p m'.opts s.offset = .ok stop

end Attempt

namespace Program.Surrounds

variable {base : Builder} {k i : ℕ} {m : Mode} {V : Marks}
  {watch : ℕ → Mode → ℕ → Marks → Prop}
  (h : a.program.Surrounds g B base) (hB : B.IsPlain) (hwhole : a.whole = false)

include h hB hwhole

/-- The body can be explored as it is alone, if its closures are not marked.
The marks of other closures do not matter to it. -/
theorem exists_explores (hi : a.InSpan i) (m : Mode) (hm : m.reverse = false) (sl : Option Slots)
    (hfree : ∀ id < (ofPattern B).closureLen, ∀ o, (base.closureLen + id, o) ∉ V) :
    ∃ V' r, Explores a (fun _ _ _ _ => True) false m V [(B.emit false none base).1] i sl V' r ∧
      ∀ stop, a.alone B m.opts i = .ok stop ↔ r.stop? = some stop := by
  obtain ⟨own, o, hholds, hstart, hchild⟩ := h.exists_holds hB hwhole
  obtain ⟨reverse, opts⟩ := m
  obtain rfl : reverse = false := hm
  obtain ⟨r₀, ⟨V₀, he⟩, hreports⟩ := Attempt.exists_discovers
    (a := { a with program := .ofPattern B }) .empty opts none hi
  have hagree : MarksAgree base.closureLen (ofPattern B).closureLen V ∅ := fun id hid o =>
    iff_of_false (hfree id hid o) (Finset.notMem_empty _)
  obtain ⟨V', r, he', hr, -⟩ :=
    he.relocate hholds (linksIn_singleton hstart) hagree sl
  refine ⟨V', r, ?_, fun stop => ?_⟩
  · rw [hchild]
    exact he'
  · rw [hr]
    exact hreports.answer_iff

/-- If its closures are not marked, the body ends as it does alone. -/
theorem alone_iff (hi : a.InSpan i) {sl : Option Slots} {V' : Marks} {r : Discovery}
    {stop : Option ℕ} (he : Explores a watch false m V [(B.emit false none base).1] i sl V' r)
    (hm : m.reverse = false)
    (hfree : ∀ id < (ofPattern B).closureLen, ∀ o, (base.closureLen + id, o) ∉ V) :
    a.alone B m.opts i = .ok stop ↔ r.stop? = some stop := by
  obtain ⟨_, r', he', halone⟩ := h.exists_explores hB hwhole hi m hm sl hfree
  rw [(he.unique he').2]
  exact halone stop

/-- An untouched group ends as its body does alone, whatever marks there are. -/
theorem alone_iff_of_untouched {op : Op} {child : Link} {m' : Mode} {sl : Option Slots}
    {V' : Marks} {r : Discovery} {stop : Option ℕ} (hi : a.InSpan i) (hm : m.reverse = false)
    (hop : a.program.ops[k]? = some op) (hb : op.body? m = some (child, m'))
    (huntouched : Untouched a k m i V) (he : Explores a watch false m' V [child] i sl V' r) :
    a.alone B m'.opts i = .ok stop ↔ r.stop? = some stop := by
  obtain ⟨-, rfl, rfl⟩ := h.of_body hop hb
  obtain ⟨_, r₂, he₂, halone⟩ := h.exists_explores (V := ∅) hB hwhole hi
    ⟨m.reverse, g.opts m.opts⟩ hm sl fun id _ o => Finset.notMem_empty _
  rw [halone, ← huntouched _ _ _ _ _ _ _ _ hop hb (he.mono fun _ _ _ _ _ => trivial) he₂]

end Program.Surrounds

namespace Attempt

variable {base : Builder} {k i j e : ℕ} {m' : Mode} {op : Op} {child : Link} {V : Marks}
  {own : ℕ → ℕ} {s s₀ : State} {opts : Options}

/-! ### Groups that commit -/

section

variable (h : a.program.Surrounds g B base) (hB : B.IsPlain) (hwhole : a.whole = false)
  (hown : a.program.Owned own) (hs₀ : s₀.Valid a)

include h hB hwhole hown hs₀

/-- A group commits to the way of its body alone just when no mark touches it.
This is a statement on one state of a run, whichever run it is. -/
theorem commitsTo_iff (hw : a.Within [] s₀ s) (hforward : s.IsForward) (hV : a.Shows s V)
    (hc : s.control = .run (some k)) (hop : a.program.ops[k]? = some op)
    (hb : op.body? s.mode = some (child, m')) :
    a.CommitsTo B s ↔ Untouched a k s.mode s.offset V := by
  obtain ⟨s₁, V₁, r₁, hstep, hd, hstack, he, hr⟩ :=
    explores_of_begin (hw.valid hs₀) hw hV hc hop hb
  obtain ⟨stop₁, hstop₁⟩ := he.exists_stop h.isIndifferent
  have hi : a.InSpan s.offset := (hw.valid hs₀).offset_mem
  have hcloses : ∀ stop, a.Closes s stop ↔ stop = stop₁ := fun stop =>
    closes_iff hstep hd hstack hr hstop₁
  constructor
  · intro hcommits op' child' m'' sl V₂ V₃ r₂ r₃ hop' hb' h₂ h₃
    cases hop.symm.trans hop'
    cases hb.symm.trans hb'
    obtain ⟨hk, rfl, rfl⟩ := h.of_body hop hb
    -- The slots of the state make no difference to its exploration.
    have hplain : ∀ (k' : ℕ) (op : Op), a.program.ops[k']? = some op → own k' = k →
        op.feature? = none := fun k' op hop' ho => h.plain k' op hop' (by
      have := hown.lt k' op hop'
      omega)
    obtain ⟨_, r, he', hr'⟩ := he.of_slots hwhole hown hplain (linksIn_body hown hop hb) sl
    have halone := (hcommits k op _ _ hc hop hb stop₁).mp ((hcloses stop₁).mpr rfl)
    rw [h.alone_iff hB hwhole hi h₃ hforward.reverse fun id _ o => Finset.notMem_empty _] at halone
    rw [(h₂.unique he').2, hr', hstop₁, halone]
  · intro huntouched k' op' child' m'' hc' hop' hb' stop
    cases hc.symm.trans hc'
    cases hop.symm.trans hop'
    cases hb.symm.trans hb'
    rw [hcloses, h.alone_iff_of_untouched hB hwhole hi hforward.reverse hop hb huntouched he,
      hstop₁, Option.some_inj, eq_comm]

/-- All groups commit to the ways of their bodies alone exactly if no mark
touches them. -/
theorem commits_iff_untouched (hforward : s₀.IsForward) :
    (∀ s, a.Within [] s₀ s → a.CommitsTo B s) ↔
      ∀ k m i V, a.Visits s₀ k m i V → Untouched a k m i V := by
  have hforwards : ∀ {s}, a.Within [] s₀ s → s.IsForward := fun hw =>
    hw.isForward h.ne_look hforward
  constructor
  · rintro hcommits k _ _ V ⟨s, hw, hc, rfl, rfl, hV⟩ op child m' sl V₁ V₂ r₁ r₂ hop hb
    have hiff := commitsTo_iff h hB hwhole hown hs₀ hw (hforwards hw) hV hc hop hb
    exact hiff.mp (hcommits s hw) op child m' sl V₁ V₂ r₁ r₂ hop hb
  · intro huntouched s hw k op child m' hc hop hb
    obtain ⟨V, hV⟩ := a.exists_shows s
    have hiff := commitsTo_iff h hB hwhole hown hs₀ hw (hforwards hw) hV hc hop hb
    exact hiff.mpr (huntouched k _ _ V ⟨s, hw, hc, rfl, rfl, hV⟩) k op child m' hc hop hb

end

/-! ### Paths -/

/-- The ends that matches within the match have if they end as a pattern does
alone.  Since an attempt has one answer, a group with these ends leaves a path
no choice. -/
def aloneEnds (a : Attempt) (p : Pattern) : Endings := fun k m i stop =>
  ∀ op child m', a.program.ops[k]? = some op → op.body? m = some (child, m') →
    a.alone p m'.opts i = .ok stop

theorem alone_inSpan {p : Pattern} (hi : a.InSpan i) (h : a.alone p opts i = .ok (some j)) :
    a.InSpan j := by
  obtain ⟨r, ⟨V', he⟩, hreports⟩ := exists_discovers
    (a := { a with program := .ofPattern p }) .empty opts none hi
  have hstop := hreports.answer_iff.mp h
  cases r with
  | matched e sl =>
    cases hstop
    exact (he.lies hi j sl rfl).inSpan
  | failed => cases hstop
  | refused => cases hstop

/-- The operations of a group convey through the way of its body alone, and
through no other way. -/
theorem conveys_around (hi : a.InSpan i) (hB : B.IsPlain) :
    Emitter.Conveys a.program.ops (Move a (a.aloneEnds B) ∅ ⟨false, opts⟩) a.InSpan true
      ((g.around B).emit false) fun x y => a.alone B (g.opts opts) x = .ok (some y) := by
  have hobeys : Obeys (.offsets a) a.program.ops true false fun m => Move a (a.aloneEnds B) ∅ m :=
    obeys_offsets_flat
  have hbody := Pattern.emit_conveys hobeys ⟨i, hi⟩ B hB.told ⟨false, g.opts opts⟩
  have hgroup : ∀ {k child next x l y}, a.program.ops[k]? = some (g.op child next) →
      (Move a (a.aloneEnds B) ∅ ⟨false, opts⟩ k x l y ↔
        l = next ∧ a.alone B (g.opts opts) x = .ok (some y)) := by
    intro k child next x l y hop
    rw [move_body_iff hop (g.body?_op)]
    simp only [g.resume?_op]
    constructor
    · rintro ⟨stop, hends, rfl, rfl⟩
      exact ⟨rfl, hends _ _ _ hop g.body?_op⟩
    · rintro ⟨rfl, halone⟩
      refine ⟨some y, fun op child' m' hop' hb' => ?_, rfl, rfl⟩
      cases hop.symm.trans hop'
      cases g.body?_op.symm.trans hb'
      exact halone
  have hemit : (g.around B).emit false =
      fun next b => (B.emit false none b).2.push (g.op (B.emit false none b).1 next) :=
    funext fun next => funext fun b => g.emit_around false B next b
  rw [hemit]
  refine hbody.inner (fun child next => ?_) (fun child next => ?_) fun k child next hop _ => ?_
  · cases g <;> rfl
  · cases g <;> rfl
  · exact .of_next (fun x l y _ => (hgroup hop).mp)
      (fun _ x y _ halone => (hgroup hop).mpr ⟨rfl, halone⟩) fun x y hx => alone_inSpan hx

/-- The paths through a sequence with a group, if the group commits to the way
of its body alone. -/
theorem reaches_iff_commits (ht : a.OnText) (hA : A.IsPlain) (hB : B.IsPlain) (hC : C.IsPlain)
    (hprogram : a.program = .ofPattern (.concat [A, g.around B, C])) (hi : a.InSpan i) :
    (∃ n, Reaches a (a.aloneEnds B) ∅ ⟨false, opts⟩ n a.program.start i e) ↔
      ∃ p q, A.Derives a.target a.span true false opts i p ∧
        a.alone B (g.opts opts) p = .ok (some q) ∧
          C.Derives a.target a.span true false opts q e := by
  have hobeys : Obeys (.offsets a) a.program.ops true false fun m => Move a (a.aloneEnds B) ∅ m :=
    obeys_offsets_flat
  have hfront := Pattern.emit_conveys hobeys ⟨i, hi⟩ A hA.told ⟨false, opts⟩
  have hgroup : Emitter.Conveys a.program.ops (Move a (a.aloneEnds B) ∅ ⟨false, opts⟩) a.InSpan true
      ((g.around B).emit false) _ := conveys_around hi hB
  have hrear := Pattern.emit_conveys hobeys ⟨i, hi⟩ C hC.told ⟨false, opts⟩
  have hagrees : Agrees a.program.ops .empty
      ((Pattern.concat [A, g.around B, C]).emit false none .empty).2 := by
    rw [hprogram]
    exact fun _ _ _ => rfl
  have hstart : a.program.start =
      ((Pattern.concat [A, g.around B, C]).emit false none .empty).1 := by
    rw [hprogram]
    rfl
  have hconveys := (hfront.seq (hgroup.seq (hrear.seq .refl))).conveys none .empty hagrees
  have hleads : (∃ n, Reaches a (a.aloneEnds B) ∅ ⟨false, opts⟩ n a.program.start i e) ↔ _ :=
    ⟨fun ⟨n, h⟩ => hconveys.of_leads hi (hstart ▸ reaches_iff_leads.mp h), fun h =>
      (hconveys.exists_leads rfl hi h).imp fun n h => reaches_iff_leads.mpr (hstart ▸ h)⟩
  rw [hleads]
  have hwalks : ∀ {p : Pattern}, p.IsPlain → ∀ {j e}, a.InSpan j →
      (p.Walks (.offsets a) true ⟨false, opts⟩ j e ↔
        Walk false (p.Derives a.target a.span true false opts) j e) := fun {p} hp {j e} hj =>
    Pattern.walks_iff_derives ht p hp.reference_notMem ⟨false, opts⟩ j e hj
  constructor
  · rintro ⟨p, hp, q, hq, _, he, rfl⟩
    have hp' := (hwalks hA hi).mp hp
    have hpin := Pattern.walk_derives_inSpan hi hp'
    exact ⟨p, q, hp', hq, (hwalks hC (alone_inSpan hpin hq)).mp he⟩
  · rintro ⟨p, q, hp, hq, he⟩
    rw [← walk_false (R := A.Derives a.target a.span true false opts)] at hp
    have hpin := Pattern.walk_derives_inSpan hi hp
    exact ⟨p, (hwalks hA hi).mpr hp, q, hq, e, (hwalks hC (alone_inSpan hpin hq)).mpr he, rfl⟩

/-- If no mark touches the group, matches within the match end as the body does
alone. -/
theorem fits_alone (h : a.program.Surrounds g B base) (hB : B.IsPlain) (hwhole : a.whole = false)
    (hs₀ : s₀.Valid a) (hforward : s₀.IsForward)
    (huntouched : ∀ k m i V, a.Visits s₀ k m i V → Untouched a k m i V) :
    Fits a (a.Visits s₀) own (a.aloneEnds B) where
  ends := by
    intro k op child m m' i V V₁ r₁ sl stop sl₁ hop hb hvisit he _ hr
    obtain ⟨s, hw, -, rfl, rfl, -⟩ := id hvisit
    have hreverse : s.reverse = false := (hw.isForward h.ne_look hforward).reverse
    intro op' child' m'' hop' hb'
    cases hop.symm.trans hop'
    cases hb.symm.trans hb'
    rw [h.alone_iff_of_untouched hB hwhole (hw.valid hs₀).offset_mem hreverse hop hb
      (huntouched k _ _ V hvisit) he]
    exact Discovery.stop?_of_ending hr
  resumes := by
    intro k op child m m' i stop stop' hop hb hends hends'
    rw [Except.ok.inj ((hends op child m' hop hb).symm.trans (hends' op child m' hop hb))]

/-- **A sequence with a group commits to the first way of the group's body**,
exactly if no mark touches the group when it is entered: then each match within
the match ends as the body does alone, and the attempt succeeds if and only if
that end of the body leads on to a match. -/
theorem run_commits (g : Commitment) {A B C : Pattern} (hA : A.IsPlain) (hB : B.IsPlain)
    (hC : C.IsPlain) (t : Target) (span : Span)
    (ht : OnText ⟨.ofPattern (.concat [A, g.around B, C]), t, span, false⟩) (cache : Cache)
    (opts : Options) (slots : Option Slots) (offset : ℕ)
    (ho : InSpan ⟨.ofPattern (.concat [A, g.around B, C]), t, span, false⟩ offset) :
    let a : Attempt := ⟨.ofPattern (.concat [A, g.around B, C]), t, span, false⟩
    let s₀ := a.start cache opts slots offset
    let untouched := ∀ k m i V, a.Visits s₀ k m i V → Untouched a k m i V
    ((∀ s, a.Within [] s₀ s → a.CommitsTo B s) ↔ untouched) ∧
      (untouched → ((∃ e, (a.run cache opts slots offset).answer = .ok (some e)) ↔
        ∃ p q e, A.Derives t span true false opts offset p ∧
          (Attempt.run ⟨.ofPattern B, t, span, false⟩ .empty (g.opts opts) none p).answer =
            .ok (some q) ∧ C.Derives t span true false opts q e)) := by
  intro a s₀ untouched
  obtain ⟨base, h⟩ := Program.exists_surrounds (g := g) hA hB hC
  replace h : a.program.Surrounds g B base := h
  obtain ⟨own, hown, -⟩ := Program.exists_owned (.concat [A, g.around B, C])
  have hs₀ : s₀.Valid a := start_valid ho
  have hforward : s₀.IsForward := ⟨rfl, fun _ _ _ _ hf => by cases hf⟩
  refine ⟨commits_iff_untouched h hB rfl hown hs₀ hforward, fun huntouched => ?_⟩
  have hpaths : ∀ e, (∃ n, Reaches a (a.aloneEnds B) ∅ ⟨false, opts⟩ n a.program.start offset e) ↔
      ∃ p q, _ := fun e => reaches_iff_commits (g := g) ht hA hB hC rfl ho
  rcases run_of_fits (a := a) rfl cache opts slots ho h.isIndifferent
    (fun own _ => fits_alone h hB rfl hs₀ hforward huntouched) with
    ⟨e, -, hpath, hanswer⟩ | ⟨hanswer, hdead⟩
  · obtain ⟨p, q, hways⟩ := (hpaths e).mp hpath
    exact ⟨fun _ => ⟨p, q, e, hways⟩, fun _ => ⟨e, hanswer⟩⟩
  · constructor
    · rintro ⟨e, he⟩
      cases hanswer.symm.trans he
    · rintro ⟨p, q, e, hways⟩
      obtain ⟨n, hpath⟩ := (hpaths e).mpr ⟨p, q, hways⟩
      exact absurd hpath (hdead n e (by simp [Accepts, a]))

/-- A group that is entered twice, with a loop in its body that comes to
nothing: `(?:a|a)(?>b*c|b)d` on `abe`.  When it is entered again, the loop has
been entered, and the body takes the `b` as before. -/
theorem run_commits_detour :
    let t := Target.bufferOfString "abe"
    let A : Pattern := .union [.char 'a', .char 'a']
    let B : Pattern := .union [.concat [.repetition (.char 'b') 0 none true, .char 'c'], .char 'b']
    let a : Attempt := ⟨.ofPattern (.concat [A, .independent B, .char 'd']), t, ⟨0, 3⟩, false⟩
    (∀ s, a.Within [] (a.start .empty .empty none 0) s → a.CommitsTo B s) ∧
      ¬ ∃ p q e, A.Derives t ⟨0, 3⟩ true false .empty 0 p ∧
        (Attempt.run ⟨.ofPattern B, t, ⟨0, 3⟩, false⟩ .empty .empty none p).answer = .ok (some q) ∧
          (Pattern.char 'd').Derives t ⟨0, 3⟩ true false .empty q e := by
  intro t A B a
  have hA : A.IsPlain := rfl
  have hB : B.IsPlain := rfl
  have hC : (Pattern.char 'd').IsPlain := rfl
  have hgroup : a.program.ops[6]? = some (.independent (some 5) (some 0)) := rfl
  have hunion : a.program.ops[5]? = some (.union [some 2, some 4]) := rfl
  have hlast : a.program.ops[4]? = some (.atom (.char 'b') none) := rfl
  have hloop : a.program.ops[3]? = some (.atom (.char 'b') (some 2)) := rfl
  have hclosure : a.program.ops[2]? = some (.closure 0 3 true (some 1)) := rfl
  have hnext : a.program.ops[1]? = some (.atom (.char 'c') none) := rfl
  have honly : ∀ k < a.program.ops.size, k ≠ 6 →
      (a.program.ops[k]?.bind (Op.body? ⟨false, .empty⟩)).isSome = false := by decide +kernel
  have hruns : a.holdsAlong (fun s => s.reverse = false ∧ s.opts = .empty ∧
      (s.control = .run (some 6) → s.offset = 1)) 30 (a.start .empty .empty none 0) = true := by
    decide +kernel
  have hanswer : (Attempt.run ⟨.ofPattern (.concat [A, .independent B, .char 'd']), t, ⟨0, 3⟩,
      false⟩ .empty .empty none 0).answer = .ok none := by cbv
  obtain ⟨hcommits, hderives⟩ := run_commits .independent hA hB hC t ⟨0, 3⟩ ⟨trivial, rfl, rfl⟩
    .empty .empty none 0 (by decide)
  -- Whatever is marked, the loop comes to nothing and the other alternative is taken.
  have hexplores : ∀ V sl, ∃ V', Explores a (fun _ _ _ _ => True) false ⟨false, .empty⟩ V [some 5] 1
      sl V' (.matched 2 sl) := by
    intro V sl
    have hbehind : ∀ V, ∃ V', Explores a (fun _ _ _ _ => True) false ⟨false, .empty⟩ V [some 2] 2
        sl V' .failed := by
      intro V
      by_cases hV : (0, 2) ∈ V
      · exact ⟨V, .reenter hclosure hV⟩
      · exact ⟨_, .enter hclosure hV (.later (.unread hloop rfl) (.unread hnext rfl))⟩
    have hfails : ∃ V', Explores a (fun _ _ _ _ => True) false ⟨false, .empty⟩ V [some 2] 1 sl V'
        .failed := by
      by_cases hV : (0, 1) ∈ V
      · exact ⟨V, .reenter hclosure hV⟩
      · obtain ⟨V', hbehind⟩ := hbehind (insert (0, 1) V)
        exact ⟨V', .enter hclosure hV (.later (.read hloop rfl hbehind) (.unread hnext rfl))⟩
    obtain ⟨V', hfails⟩ := hfails
    exact ⟨V', .choose hunion rfl (.later hfails (.read hlast rfl (.accept (by simp))))⟩
  have huntouched : ∀ k m i V, a.Visits (a.start .empty .empty none 0) k m i V →
      Untouched a k m i V := by
    intro k m i V hvisit op child m' sl V₁ V₂ r₁ r₂ hop hb h₁ h₂
    obtain ⟨rfl, rfl, rfl⟩ := hvisit.of_only honly hruns hop hb
    cases hop.symm.trans hgroup
    cases hb
    obtain ⟨_, h₁'⟩ := hexplores V sl
    obtain ⟨_, h₂'⟩ := hexplores ∅ sl
    rw [(h₁.unique h₁').2, (h₂.unique h₂').2]
  refine ⟨hcommits.mpr huntouched, fun hways => ?_⟩
  obtain ⟨e, he⟩ := (hderives huntouched).mpr hways
  cases hanswer.symm.trans he

/-- A group that is entered twice, with a loop in its body: `(?:a|a)(?>b*|)bc`
on `abc`.  When it is entered again, the loop has been entered, and the body is
turned to its second way. -/
theorem not_run_commits_loop :
    let t := Target.bufferOfString "abc"
    let A : Pattern := .union [.char 'a', .char 'a']
    let B : Pattern := .union [.repetition (.char 'b') 0 none true, .empty]
    let C : Pattern := .string ['b', 'c']
    (Attempt.run ⟨.ofPattern (.concat [A, .independent B, C]), t, ⟨0, 3⟩, false⟩ .empty .empty none
        0).answer = .ok (some 3) ∧
      ¬ ∃ p q e, A.Derives t ⟨0, 3⟩ true false .empty 0 p ∧
        (Attempt.run ⟨.ofPattern B, t, ⟨0, 3⟩, false⟩ .empty .empty none p).answer =
          .ok (some q) ∧ C.Derives t ⟨0, 3⟩ true false .empty q e := by
  have hanswer : (Attempt.run ⟨.ofPattern (.concat [.union [.char 'a', .char 'a'], .independent
      (.union [.repetition (.char 'b') 0 none true, .empty]), .string ['b', 'c']]),
      .bufferOfString "abc", ⟨0, 3⟩, false⟩ .empty .empty none 0).answer = .ok (some 3) := by cbv
  have halone : (Attempt.run ⟨.ofPattern (.union [.repetition (.char 'b') 0 none true, .empty]),
      .bufferOfString "abc", ⟨0, 3⟩, false⟩ .empty .empty none 1).answer = .ok (some 2) := by cbv
  intro t A B C
  refine ⟨hanswer, ?_⟩
  rintro ⟨p, q, e, hA, hB, hC⟩
  -- Both alternatives of the first part end at 1, and the body alone takes the `b` that is there.
  obtain rfl : p = 1 := by
    obtain ⟨d, j, ⟨k, -, hplace, rfl, -⟩, -, rfl⟩ : t.Spells ⟨0, 3⟩ false 0 ['a'] p :=
      hA.elim id (·.elim id False.elim)
    obtain rfl : 0 = k := hplace
    rfl
  cases halone.symm.trans hB
  obtain ⟨d, j, ⟨k, hk, hplace, -⟩, hmatch, -⟩ : t.Spells ⟨0, 3⟩ false 2 ['b', 'c'] e := hC
  obtain rfl : 2 = k := hplace
  obtain rfl : 'c' = d := Option.some.inj hk
  simp [Case.charsMatch] at hmatch

end Attempt

end Regexp
