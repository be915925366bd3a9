import Regexp.Proofs.Meaning

/-!
# Groups are opened and closed in turn

A program records both ends of a group, one before the operations of its body
and one behind them.  On a path through the program the two take turns, if the
group does not lie within itself.

What makes this worth a module is that paths are not nested like patterns.  A
path comes to the start of a group and then to operations of its body, and
nothing in the program says which those are; a loop around the group leads from
behind it to a place before it.  So the statement is about links.  `Brackets`
says that all paths from a link open and close the group in turn, given what has
been done so far (`Note`), and that none of them ends while the group is open.
An emitter keeps this up: if what follows it does so from a note on, then what
it makes does so from the same note on (`Emitter.Brackets`).

`Brackets` looks a number of operations ahead.  A closure leads back to itself,
so that what is said of it would have to be known already; with the number of
operations it is dealt with by induction on that number (`Brackets.of_closure`),
and nothing has to be said of how the operations lie in the program.

A match within the match may begin while the group is open.  It ends on its own,
with the group still open, so no path in it may touch the group at all, and its
note says so (`Note.inner`).  From which note a pattern can start is a matter of
whether it captures the group and whether the group lies within itself there
(`Pattern.Alternates`).

## Main definitions

* `Note` — what a path has done to a group so far.
* `Brackets` — the paths from a link open and close a group in turn.
* `Pattern.Nests` — a group lies within itself.

## Main statements

* `Pattern.emit_brackets` — a pattern leaves a note as it has found it.
* `Program.brackets_start` — the paths through a program open and close a group
  in turn.
-/

namespace Regexp

/-- The end of a group that is recorded first: the start, unless the walk is
backward. -/
def Edge.opening (reverse : Bool) : Edge := if reverse then .stop else .start

/-- The end of a group that is recorded last. -/
def Edge.closing (reverse : Bool) : Edge := if reverse then .start else .stop

/-- What a path has done to a group so far: it has closed the group as often as
it has opened it, it has left it open, or the group must not be opened where the
path is. -/
inductive Note where
  | closed
  | opened
  /-- A match within the match is going on that has begun when the group was
  open. -/
  | barred
  deriving DecidableEq

namespace Note

/-- The note behind an operation, unless the operation records an end of the
group out of turn, in which case there is none. -/
def after (n : Note) (group : ℕ) (reverse : Bool) : Op → Option Note
  | .mark group' edge _ =>
    if group' = group then
      match n with
      | closed => if edge = .opening reverse then some opened else none
      | opened => if edge = .closing reverse then some closed else none
      | barred => none
    else some n
  | _ => some n

/-- The note at the beginning of a match within the match.  If the group is open
around the match, it must not be recorded within, and it is barred there. -/
def inner : Note → Note
  | closed => closed
  | opened | barred => barred

theorem inner_ne_opened (n : Note) : n.inner ≠ .opened := by cases n <;> decide

theorem after_of_ne_mark {n : Note} {group : ℕ} {reverse : Bool} {op : Op}
    (h : ∀ edge next, op ≠ .mark group edge next) : n.after group reverse op = some n := by
  cases op with
  | mark group' edge next =>
    refine if_neg ?_
    rintro rfl
    exact h edge next rfl
  | _ => rfl

/-- An end of the group is recorded when it is its turn. -/
theorem after_mark_iff {n n' : Note} {group : ℕ} {reverse : Bool} {edge : Edge} {next : Link} :
    n.after group reverse (.mark group edge next) = some n' ↔
      n = closed ∧ edge = .opening reverse ∧ n' = opened ∨
        n = opened ∧ edge = .closing reverse ∧ n' = closed := by
  cases n <;> simp [after, eq_comm]

end Note

/-- Whether the paths from a link open and close a group in turn for a number of
operations, those within the match included, from a note on.  No path ends while
the group is open.  The number is there because links may go up, and statements
are about all numbers. -/
def Brackets (ops : Array Op) (group : ℕ) : ℕ → Bool → Note → Link → Prop
  | _, _, n, none => n ≠ .opened
  | 0, _, _, some _ => True
  | fuel + 1, reverse, n, some k => ∀ op, ops[k]? = some op →
    ∃ n', n.after group reverse op = some n' ∧
      (∀ l ∈ op.links, Brackets ops group fuel reverse n' l) ∧
      ∀ m child m', m.reverse = reverse → op.body? m = some (child, m') →
        Brackets ops group fuel m'.reverse n.inner child

variable {ops : Array Op} {group fuel k : ℕ} {reverse : Bool} {n n' : Note} {op : Op} {l : Link}

namespace Brackets

theorem of_none (h : n ≠ .opened) : Brackets ops group fuel reverse n none := by
  cases fuel <;> exact h

theorem ne_opened (h : Brackets ops group fuel reverse n none) : n ≠ .opened := by
  cases fuel <;> exact h

theorem pred (h : Brackets ops group (fuel + 1) reverse n l) :
    Brackets ops group fuel reverse n l := by
  induction fuel generalizing reverse n l with
  | zero =>
    cases l with
    | none => exact h
    | some k => trivial
  | succ fuel ih =>
    cases l with
    | none => exact h
    | some k =>
      intro op hop
      obtain ⟨n', hn, hlinks, hbody⟩ := h op hop
      exact ⟨n', hn, fun l hl => ih (hlinks l hl), fun m child m' hm hb =>
        ih (hbody m child m' hm hb)⟩

/-- An operation that lies in a program. -/
theorem succ_of_op (hop : ops[k]? = some op) (hn : n.after group reverse op = some n')
    (hlinks : ∀ l ∈ op.links, Brackets ops group fuel reverse n' l)
    (hbody : ∀ m child m', m.reverse = reverse → op.body? m = some (child, m') →
      Brackets ops group fuel m'.reverse n.inner child) :
    Brackets ops group (fuel + 1) reverse n (some k) := by
  intro op' hop'
  cases hop.symm.trans hop'
  exact ⟨n', hn, hlinks, hbody⟩

theorem of_op (hop : ops[k]? = some op) (hn : n.after group reverse op = some n')
    (hlinks : ∀ l ∈ op.links, Brackets ops group fuel reverse n' l)
    (hbody : ∀ m child m', m.reverse = reverse → op.body? m = some (child, m') →
      Brackets ops group fuel m'.reverse n.inner child) :
    Brackets ops group fuel reverse n (some k) := (succ_of_op hop hn hlinks hbody).pred

/-- An operation that has no body of its own and leaves the note as it is. -/
theorem of_flat (hop : ops[k]? = some op) (hb : ∀ m, op.body? m = none)
    (hmark : ∀ edge next, op ≠ .mark group edge next)
    (hlinks : ∀ l ∈ op.links, Brackets ops group fuel reverse n l) :
    Brackets ops group fuel reverse n (some k) :=
  .of_op hop (Note.after_of_ne_mark hmark) hlinks fun m _ _ _ h => by simp [hb m] at h

/-- The rules for an operation of a path that is in turn however far it goes. -/
theorem exists_after (h : ∀ fuel, Brackets ops group fuel reverse n (some k))
    (hop : ops[k]? = some op) : ∃ n', n.after group reverse op = some n' ∧
      (∀ l ∈ op.links, ∀ fuel, Brackets ops group fuel reverse n' l) ∧
      ∀ m child m', m.reverse = reverse → op.body? m = some (child, m') → ∀ fuel,
        Brackets ops group fuel m'.reverse n.inner child := by
  obtain ⟨n', hn, -⟩ := h 1 op hop
  have hfuel : ∀ fuel, (∀ l ∈ op.links, Brackets ops group fuel reverse n' l) ∧
      ∀ m child m', m.reverse = reverse → op.body? m = some (child, m') →
        Brackets ops group fuel m'.reverse n.inner child := by
    intro fuel
    obtain ⟨n'', hn', hlinks, hbody⟩ := h (fuel + 1) op hop
    cases hn.symm.trans hn'
    exact ⟨hlinks, hbody⟩
  exact ⟨n', hn, fun l hl fuel => (hfuel fuel).1 l hl, fun m child m' hm hb fuel =>
    (hfuel fuel).2 m child m' hm hb⟩

/-- Behind an operation that leaves the note as it is. -/
theorem of_links (h : ∀ fuel, Brackets ops group fuel reverse n (some k)) (hop : ops[k]? = some op)
    (hmark : ∀ edge next, op ≠ .mark group edge next) (hl : l ∈ op.links) (fuel : ℕ) :
    Brackets ops group fuel reverse n l := by
  obtain ⟨n', hn, hlinks, -⟩ := exists_after h hop
  rw [Note.after_of_ne_mark hmark] at hn
  cases hn
  exact hlinks l hl fuel

/-- A closure opens and closes the group in turn if its body does so that leads
back to it. -/
theorem of_closure {id child : ℕ} {greedy : Bool} {next : Link}
    (hop : ops[k]? = some (.closure id child greedy next))
    (hbody : ∀ fuel, Brackets ops group fuel reverse n (some k) →
      Brackets ops group fuel reverse n (some child))
    (hnext : Brackets ops group fuel reverse n next) :
    Brackets ops group fuel reverse n (some k) := by
  induction fuel with
  | zero => trivial
  | succ fuel ih =>
    refine .succ_of_op hop rfl (fun l hl => ?_) fun _ _ _ _ h => by cases h
    rcases List.mem_cons.mp hl with rfl | hl
    · exact hbody fuel (ih hnext.pred)
    · obtain rfl := List.mem_singleton.mp hl
      exact hnext.pred

end Brackets

/-! ### Emitters -/

/-- Whether what an emitter makes opens and closes a group in turn, and leaves a
note as it has found it, if what follows does so. -/
structure Emitter.Brackets (ops : Array Op) (group : ℕ) (reverse : Bool) (n : Note) (e : Emitter) :
    Prop where
  grows : e.Grows fun _ _ _ => True
  brackets : ∀ next b fuel, Agrees ops b (e next b).2 →
    Regexp.Brackets ops group fuel reverse n next →
      Regexp.Brackets ops group fuel reverse n (e next b).1

namespace Emitter.Brackets

variable {e e' body : Emitter}

theorem refl : Emitter.Brackets ops group reverse n fun next b => (next, b) where
  grows _ _ S hn := ⟨S, .refl, hn⟩
  brackets _ _ _ _ h := h

theorem seq (h : e.Brackets ops group reverse n) (h' : e'.Brackets ops group reverse n) :
    Emitter.Brackets ops group reverse n fun next b => e (e' next b).1 (e' next b).2 where
  grows next b S hn := by
    obtain ⟨S₁, h₁, hlink⟩ := h'.grows next b S hn
    obtain ⟨S₂, h₂, hlink'⟩ := h.grows _ _ S₁ hlink
    exact ⟨S₂, h₁.trans h₂, hlink'⟩
  brackets next b fuel hb hnext := by
    have hadded := h.grows.added (e' next b).1 (e' next b).2
    exact h.brackets _ _ fuel (hb.right (h'.grows.added next b))
      (h'.brackets next b fuel (hb.left hadded) hnext)

theorem atom (atom : Atom) :
    Emitter.Brackets ops group reverse n fun next b => b.push (.atom atom next) where
  grows := push_grows (fun _ _ => trivial) (fun _ => rfl) (fun _ => rfl) fun _ => rfl
  brackets next b fuel hb hnext :=
    .of_flat hb.push (fun _ => rfl) (by simp) (List.forall_mem_singleton.mpr hnext)

/-- An end of another group. -/
theorem mark {group' : ℕ} (hne : group' ≠ group) (edge : Edge) :
    Emitter.Brackets ops group reverse n fun next b => b.push (.mark group' edge next) where
  grows := push_grows (fun _ _ => trivial) (fun _ => rfl) (fun _ => rfl) fun _ => rfl
  brackets next b fuel hb hnext :=
    .of_flat hb.push (fun _ => rfl) (by simp [hne]) (List.forall_mem_singleton.mpr hnext)

theorem copies (h : body.Brackets ops group reverse n) (m : ℕ) :
    (copies body m).Brackets ops group reverse n := by
  induction m with
  | zero => exact .refl
  | succ m ih => exact ih.seq h

theorem closure (h : body.Brackets ops group reverse n) (greedy : Bool) :
    (closure body greedy).Brackets ops group reverse n where
  grows := closure_grows h.grows greedy fun _ _ _ _ => trivial
  brackets next b fuel hb hnext := by
    obtain ⟨hop, hagrees⟩ := Agrees.closure hb (h.grows.added (some b.ops.size) b.reserve)
    refine .of_closure hop (fun fuel hk => ?_) hnext
    have hchild := h.brackets (some b.ops.size) b.reserve fuel hagrees hk
    -- A body without operations leads straight back to the closure.
    cases hlink : (body (some b.ops.size) b.reserve).1 with
    | none => exact hk
    | some child => exact hlink ▸ hchild

theorem optionals (h : body.Brackets ops group reverse n) (greedy : Bool) (next : Link) (m : ℕ)
    (tail : Link) (b : Builder) (hb : Agrees ops b (optionals body greedy next m tail b).2)
    (hnext : Regexp.Brackets ops group fuel reverse n next)
    (htail : Regexp.Brackets ops group fuel reverse n tail) :
    Regexp.Brackets ops group fuel reverse n (optionals body greedy next m tail b).1 := by
  induction m generalizing tail b with
  | zero => exact htail
  | succ m ih =>
    have hbody := h.grows.added tail b
    have hpush : Builder.Added (fun _ _ _ => True) (body tail b).2
        ((body tail b).2.push (.question (body tail b).1 greedy next)).2 := .push trivial rfl
    have hrest : Builder.Added (fun _ _ _ => True)
        ((body tail b).2.push (.question (body tail b).1 greedy next)).2
        (Emitter.optionals body greedy next (m + 1) tail b).2 := by
      obtain ⟨S, hgrows, -⟩ := optionals_grows h.grows greedy (fun _ _ => trivial) m
        (some (body tail b).2.ops.size) _ Set.univ (Set.mem_univ next) trivial
      exact hgrows.added
    have hchild := h.brackets tail b fuel (hb.left hrest).init htail
    refine ih _ _ (hb.right (hbody.trans hpush)) ?_
    exact .of_flat ((hb.left hrest).right hbody).push (fun _ => rfl) (by simp)
      (by simp [Op.links, hchild, hnext])

theorem repetition (h : body.Brackets ops group reverse n) (min : ℕ) (max : Option ℕ)
    (greedy : Bool) : (repetition body min max greedy).Brackets ops group reverse n := by
  cases max with
  | none => exact (h.copies min).seq (h.closure greedy)
  | some max =>
    have hoptionals : Emitter.Brackets ops group reverse n fun next b =>
        Emitter.optionals body greedy next (max - min) next b :=
      ⟨fun next b S hn =>
        optionals_grows h.grows greedy (fun _ _ => trivial) (max - min) next b S hn hn,
      fun next b fuel hb hnext => h.optionals greedy next (max - min) next b hb hnext hnext⟩
    exact (h.copies min).seq hoptionals

/-- An operation behind the body that it has. -/
theorem inner {body : Emitter} {reverse' : Bool} (h : body.Brackets ops group reverse' n.inner)
    {op : Link → Link → Op} (hlinks : ∀ child next, (op child next).links = [next])
    (hchild : ∀ child next, (op child next).child? = some child)
    (hbody : ∀ child next m child' m', m.reverse = reverse → (op child next).body? m =
      some (child', m') → child' = child ∧ m'.reverse = reverse')
    (hmark : ∀ child next edge next', op child next ≠ .mark group edge next') :
    Emitter.Brackets ops group reverse n fun next b =>
      (body none b).2.push (op (body none b).1 next) where
  grows := Pattern.body_grows h.grows (fun _ _ => trivial) hlinks hchild
  brackets next b fuel hb hnext := by
    refine .of_op (hb.right (h.grows.added none b)).push (Note.after_of_ne_mark (hmark _ _))
      (by simp [hlinks, hnext]) fun m child m' hm hm' => ?_
    obtain ⟨rfl, hreverse⟩ := hbody _ _ m child m' hm hm'
    rw [hreverse]
    exact h.brackets none b fuel hb.init (.of_none n.inner_ne_opened)

end Emitter.Brackets

/-! ### Patterns -/

namespace Pattern

/-- Whether a pattern captures a group. -/
def Captures (group : ℕ) (p : Pattern) : Prop := ∃ body, .group (some group) body ∈ p.subpatterns

/-- Whether a group lies within itself somewhere in a pattern.  A parser numbers
groups one after the other and makes no such pattern. -/
def Nests (group : ℕ) (p : Pattern) : Prop :=
  ∃ body, .group (some group) body ∈ p.subpatterns ∧ body.Captures group

/-- Whether a pattern opens and closes a group in turn from a note on: the group
does not lie within itself, and it is not open already where the pattern
captures it. -/
structure Alternates (group : ℕ) (n : Note) (p : Pattern) : Prop where
  not_nests : ¬ p.Nests group
  closed : p.Captures group → n = .closed

/-- What holds of a pattern holds of its parts. -/
theorem Alternates.part {p q : Pattern} (h : p.Alternates group n)
    (hsub : q.subpatterns ⊆ p.subpatterns) : q.Alternates group n where
  not_nests := fun ⟨body, hbody, hcaptures⟩ => h.not_nests ⟨body, hsub hbody, hcaptures⟩
  closed := fun ⟨body, hbody⟩ => h.closed ⟨body, hsub hbody⟩

theorem Alternates.inner {p : Pattern} (h : p.Alternates group n) : p.Alternates group n.inner where
  not_nests := h.not_nests
  closed hcaptures := by
    rw [h.closed hcaptures]
    rfl

/-- A group opens and closes itself in turn, if its body has nothing to do with
it. -/
theorem group_brackets {body : Pattern} (hbody : (emit reverse body).Brackets ops group reverse
    .opened) : (emit reverse (.group (some group) body)).Brackets ops group reverse .closed where
  grows := emit_grows_any reverse _
  brackets next b fuel hb hnext := by
    have hlast : (if reverse then (Edge.stop, Edge.start) else (Edge.start, Edge.stop)).2 =
        .closing reverse := by cases reverse <;> rfl
    have hfirst : (if reverse then (Edge.stop, Edge.start) else (Edge.start, Edge.stop)).1 =
        .opening reverse := by cases reverse <;> rfl
    simp only [emit, hlast, hfirst] at hb ⊢
    have hpush : Builder.Added (fun _ _ _ => True) b
        (b.push (.mark group (.closing reverse) next)).2 := .push trivial rfl
    have hadded := hbody.grows.added (some b.ops.size)
      (b.push (.mark group (.closing reverse) next)).2
    have hclose : Regexp.Brackets ops group fuel reverse .opened (some b.ops.size) :=
      .of_op (hb.init.left hadded).push (by simp [Note.after])
        (List.forall_mem_singleton.mpr hnext) fun _ _ _ _ h => by cases h
    have hlink := hbody.brackets _ _ fuel (hb.init.right hpush) hclose
    exact .of_op (hb.right (hpush.trans hadded)).push (by simp [Note.after])
      (List.forall_mem_singleton.mpr hlink) fun _ _ _ _ h => by cases h

mutual

/-- What a pattern is compiled to opens and closes a group in turn. -/
theorem emit_brackets : (p : Pattern) → (n : Note) → p.Alternates group n → (reverse : Bool) →
    (emit reverse p).Brackets ops group reverse n
  | .empty, _, _, _ => .refl
  | .char _, _, _, _ => .atom _
  | .string _, _, _, _ => .atom _
  | .dot, _, _, _ => .atom _
  | .charClass _ _, _, _, _ => .atom _
  | .anchor _, _, _, _ => .atom _
  | .backref _, _, _, _ => .atom _
  | .concat items, n, hp, reverse =>
    emitSeq_brackets items n (fun q hq => hp.part fun r hr =>
      List.mem_cons_of_mem _ (subpatterns_subset_all hq hr)) reverse
  | .union alternatives, n, hp, reverse => by
    refine ⟨emit_grows_any reverse (.union alternatives), fun next b fuel hb hnext => ?_⟩
    obtain ⟨S, hgrows, -⟩ := emitAll_grows reverse alternatives (List.Subset.refl _)
      next b {next} rfl
    exact .of_flat (hb.right hgrows.added).push (fun _ => rfl) (by simp)
      (emitAll_brackets alternatives n (fun q hq => hp.part fun r hr =>
        List.mem_cons_of_mem _ (subpatterns_subset_all hq hr)) reverse next b fuel hb.init hnext)
  | .repetition body min max greedy, n, hp, reverse =>
    (emit_brackets body n (hp.part (List.subset_cons_self _ _)) reverse).repetition min max greedy
  | .group none body, n, hp, reverse =>
    emit_brackets body n (hp.part (List.subset_cons_self _ _)) reverse
  | .group (some group') body, n, hp, reverse => by
    by_cases heq : group = group'
    · subst heq
      rw [hp.closed ⟨body, List.mem_cons_self⟩]
      have hbody : body.Alternates group .opened :=
        ⟨(hp.part (List.subset_cons_self _ _)).not_nests, fun hcaptures =>
          absurd ⟨body, List.mem_cons_self, hcaptures⟩ hp.not_nests⟩
      exact group_brackets (emit_brackets body .opened hbody reverse)
    · have hbody := emit_brackets body n (hp.part (List.subset_cons_self _ _)) reverse
      have hmarks := (Emitter.Brackets.mark (Ne.symm heq) (.opening reverse)).seq
        (hbody.seq (.mark (Ne.symm heq) (.closing reverse)))
      cases reverse <;> exact hmarks
  | .look kind body, n, hp, reverse =>
    (emit_brackets body n.inner (hp.part (List.subset_cons_self _ _)).inner kind.isBehind).inner
      (fun _ _ => rfl) (fun _ _ => rfl) (fun _ _ _ _ _ _ h => by
        cases h
        exact ⟨rfl, rfl⟩) (by simp)
  | .independent body, n, hp, reverse =>
    (emit_brackets body n.inner (hp.part (List.subset_cons_self _ _)).inner reverse).inner
      (fun _ _ => rfl) (fun _ _ => rfl) (fun _ _ _ _ _ hm h => by
        cases h
        exact ⟨rfl, hm⟩) (by simp)
  | .modifier add remove body, n, hp, reverse =>
    (emit_brackets body n.inner (hp.part (List.subset_cons_self _ _)).inner reverse).inner
      (fun _ _ => rfl) (fun _ _ => rfl) (fun _ _ _ _ _ hm h => by
        cases h
        exact ⟨rfl, hm⟩) (by simp)
  | .ifGroup m yes none, n, hp, reverse => by
    have hyes := emit_brackets yes n (hp.part (List.subset_cons_self _ _)) reverse
    refine ⟨emit_grows_any reverse (.ifGroup m yes none), fun next b fuel hb hnext => ?_⟩
    have hlink := hyes.brackets next b fuel hb.init hnext
    exact .of_flat (hb.right (hyes.grows.added next b)).push (fun _ => rfl) (by simp)
      (by simp [Op.links, hlink, hnext])
  | .ifGroup m yes (some no), n, hp, reverse => by
    have hyes := emit_brackets yes n (hp.part fun q hq => by simp [subpatterns, hq]) reverse
    have hno := emit_brackets no n (hp.part fun q hq => by simp [subpatterns, hq]) reverse
    refine ⟨emit_grows_any reverse (.ifGroup m yes (some no)), fun next b fuel hb hnext => ?_⟩
    have hadded := hyes.grows.added next b
    have hadded' := hno.grows.added next (emit reverse yes next b).2
    have hlink := hyes.brackets next b fuel (hb.init.left hadded') hnext
    have hlink' := hno.brackets next _ fuel (hb.init.right hadded) hnext
    exact .of_flat (hb.right (hadded.trans hadded')).push (fun _ => rfl) (by simp)
      (by simp [Op.links, hlink, hlink'])
  | .ifLook test yes none, n, hp, reverse => by
    have htest := emit_brackets test n.inner
      (hp.part fun q hq => by simp [subpatterns, hq]).inner reverse
    have hyes := emit_brackets yes n (hp.part fun q hq => by simp [subpatterns, hq]) reverse
    refine ⟨emit_grows_any reverse (.ifLook test yes none), fun next b fuel hb hnext => ?_⟩
    have hadded := htest.grows.added none b
    have hadded' := hyes.grows.added next (emit reverse test none b).2
    have hlink := hyes.brackets next _ fuel (hb.init.right hadded) hnext
    have hbody := htest.brackets none b fuel (hb.init.left hadded')
      (.of_none n.inner_ne_opened)
    refine .of_op (hb.right (hadded.trans hadded')).push (Note.after_of_ne_mark (by simp))
      (by simp [Op.links, hlink, hnext]) fun m child m' hm h => ?_
    cases h
    exact hm ▸ hbody
  | .ifLook test yes (some no), n, hp, reverse => by
    have htest := emit_brackets test n.inner
      (hp.part fun q hq => by simp [subpatterns, hq]).inner reverse
    have hyes := emit_brackets yes n (hp.part fun q hq => by simp [subpatterns, hq]) reverse
    have hno := emit_brackets no n (hp.part fun q hq => by simp [subpatterns, hq]) reverse
    refine ⟨emit_grows_any reverse (.ifLook test yes (some no)), fun next b fuel hb hnext => ?_⟩
    have hadded := htest.grows.added none b
    have hadded' := hyes.grows.added next (emit reverse test none b).2
    have hadded'' := hno.grows.added next (emit reverse yes next (emit reverse test none b).2).2
    have hmid := hb.init.left hadded''
    have hlink := hyes.brackets next _ fuel (hmid.right hadded) hnext
    have hlink' := hno.brackets next _ fuel (hb.init.right (hadded.trans hadded')) hnext
    have hbody := htest.brackets none b fuel (hmid.left hadded') (.of_none n.inner_ne_opened)
    refine .of_op (hb.right ((hadded.trans hadded').trans hadded'')).push
      (Note.after_of_ne_mark (by simp)) (by simp [Op.links, hlink, hlink'])
      fun m child m' hm h => ?_
    cases h
    exact hm ▸ hbody
  termination_by structural p => p

theorem emitSeq_brackets : (ps : List Pattern) → (n : Note) →
    (∀ p ∈ ps, p.Alternates group n) → (reverse : Bool) →
      (emitSeq reverse ps).Brackets ops group reverse n
  | [], _, _, _ => .refl
  | p :: ps, n, hp, reverse => by
    have h := emit_brackets p n (hp p List.mem_cons_self) reverse
    have hps := emitSeq_brackets ps n (fun q hq => hp q (List.mem_cons_of_mem _ hq)) reverse
    cases reverse with
    | false => exact h.seq hps
    | true => exact hps.seq h
  termination_by structural ps => ps

theorem emitAll_brackets : (ps : List Pattern) → (n : Note) →
    (∀ p ∈ ps, p.Alternates group n) → (reverse : Bool) → (next : Link) → (b : Builder) →
      (fuel : ℕ) → Agrees ops b (emitAll reverse ps next b).2 →
        Brackets ops group fuel reverse n next →
          ∀ l ∈ (emitAll reverse ps next b).1, Brackets ops group fuel reverse n l
  | [], _, _, _, _, _, _, _, _ => by simp [emitAll]
  | p :: ps, n, hp, reverse, next, b, fuel, hb, hnext => by
    have h := emit_brackets p n (hp p List.mem_cons_self) reverse
    obtain ⟨S, hgrows, -⟩ := emitAll_grows reverse ps (List.Subset.refl _) next
      (emit reverse p next b).2 {next} rfl
    have hps := emitAll_brackets ps n (fun q hq => hp q (List.mem_cons_of_mem _ hq)) reverse next
      (emit reverse p next b).2 fuel (hb.right (h.grows.added next b)) hnext
    exact List.forall_mem_cons.mpr ⟨h.brackets next b fuel (hb.left hgrows.added) hnext, hps⟩
  termination_by structural ps => ps

end

end Pattern

/-- **The paths through a program open and close a group in turn**, if the group
does not lie within itself. -/
theorem Program.brackets_start {p : Pattern} (hp : ¬ p.Nests group) (fuel : ℕ) :
    Brackets (ofPattern p).ops group fuel false .closed (ofPattern p).start :=
  (Pattern.emit_brackets p .closed ⟨hp, fun _ => rfl⟩ false).brackets none .empty fuel
    (Builder.agrees_ops _ _) (.of_none (by decide))

end Regexp
