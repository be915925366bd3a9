import Regexp.Proofs.Path

/-!
# What an exploration has ruled out

Closures are entered only once at an offset, whatever has become of the entry.
For patterns without references and without matches within the match this loses
no match: when an exploration fails, no path from there avoids the marks that it
has found, and none does from any closure that it has marked.  This is the
theorem of the white path for a search in depth, with marks in the role of
visited vertices.

## The invariant

A mark stays when a path is given up, so it does not say that the closure lies
on the current path.  The obvious statement, that a marked closure leads to no
match, is false while the closure is still being explored.  What is true is a
statement with two sets of marks.  An exploration that has failed has ruled out
the paths from its links, and from the closures that it has marked, with respect
to the marks *before* it: there is no such path that avoids these (`RulesOut`).
That is what makes the statement an invariant.  If a path avoids the earlier
marks and comes to a later one, then it goes on from a closure that has been
ruled out, with respect to fewer marks still.

`RulesOut.later` puts two branches one after the other, and `Dead.weaken` passes
from later marks to earlier ones if the marks between them are ruled out.
`RulesOut.enter` is the case of a closure.  A path that leaves the closure and
comes back can be cut off up to its last visit, and from there on it avoids the
closure.

## Matches within the match

The body of a match within the match has marks of its own, which belong to other
closures (`Explores.marks_owner`), so it does not disturb what is around it.
But the body may be entered again at the same offset, and find its closures
marked.  `Undisturbed` says that this closes no body that has a path, and
`Op.isSteady` that an operation goes on in the same way whatever was recorded
and whichever way its body has matched.  Under these conditions `Explores.tells`
is what an exploration tells of paths:  it finds a path that avoids the marks
before it, or has ruled out every such path.

## Main definitions

* `Op.isSteady` — operations that do the same whatever was recorded.
* `Dead` — no path leads to a match.
* `Undisturbed` — the marks at a match within the match close no body that has a
  path.
* `Tells` — what an exploration tells of the paths from its links.
* `Fits` — ends of matches within the match that explorations come to.

## Main statements

* `Explores.marks_owner` — an exploration marks closures of its own part of the
  program.
* `Explores.tells` — an exploration finds a path that avoids the marks before,
  if there is one.
* `Explores.white_path` — so it does where matches within the match end where
  paths end.
-/

namespace Regexp

/-- Whether an operation does the same whatever was recorded and whichever way
its body matches.  Among operations like these a path can be cut and joined
anywhere. -/
def Op.isSteady : Op → Bool
  | atom (.backref _) _ | ifGroup _ _ _ | independent _ _ | modifier _ _ _ _ => false
  | _ => true

/-- Whether an operation reads and tests the same whatever was recorded.  This
leaves out references and conditions on groups, but not groups that commit to
one way. -/
def Op.isIndifferent : Op → Bool
  | atom (.backref _) _ | ifGroup _ _ _ => false
  | _ => true

/-- Whether an attempt accepts a match that ends at an offset: everywhere,
unless it is to match the whole span. -/
def Accepts (a : Attempt) (top : Bool) (e : ℕ) : Prop :=
  top = true → a.whole = true → e = a.span.stop

/-- Whether no path from a link leads to a match that is accepted, if the path
is to avoid some marks. -/
def Dead (a : Attempt) (O : Endings) (avoid : Set (ℕ × ℕ)) (top : Bool) (m : Mode) (link : Link)
    (i : ℕ) : Prop :=
  ∀ n e, Accepts a top e → ¬ Reaches a O avoid m n link i e

/-- Whether the marks at a match within the match leave a path through its body
if there is one.  This is the condition under which a lookaround is judged
rightly although closures are not entered twice. -/
def Undisturbed (a : Attempt) (k : ℕ) (m : Mode) (i : ℕ) (V : Marks) : Prop :=
  (∃ j, BodyReaches a (Ends a true) ∅ k m i j) → ∃ j, BodyReaches a (Ends a true) ↑V k m i j

variable {a : Attempt} {watch : ℕ → Mode → ℕ → Marks → Prop} {top : Bool} {m : Mode}
  {V V' : Marks} {links : List Link} {i k o : ℕ} {sl : Option Slots} {r : Discovery}
  {own : ℕ → ℕ} {O : Endings} {avoid : Set (ℕ × ℕ)} {op : Op} {link : Link}

/-- Lookarounds and conditionals are steady, and so is what has no features. -/
theorem Op.isSteady_of_feature
    (h : ∀ f, op.feature? = some f → f = .lookaround ∨ f = .conditional) : op.isSteady = true := by
  cases op with
  | atom atom next => cases atom <;> simp_all [Op.feature?, Op.isSteady]
  | _ => simp_all [Op.feature?, Op.isSteady]

theorem Op.isIndifferent_of_isSteady (h : op.isSteady = true) : op.isIndifferent = true := by
  cases op with
  | atom atom next => cases atom <;> first | rfl | cases h
  | ifGroup => cases h
  | _ => rfl

/-- An indifferent operation reads the same whatever was recorded. -/
theorem read_eq_of_isIndifferent {atom : Atom} {next : Link}
    (h : (Op.atom atom next).isIndifferent = true) (opts : Options) (reverse : Bool)
    (sl sl' : Option Slots) : a.read atom opts reverse i sl = a.read atom opts reverse i sl' := by
  cases atom with
  | backref => simp [Op.isIndifferent] at h
  | _ => rfl

/-- A steady operation goes on in the same way whichever way its body matches.
It matters to it whether the body matches, and not where the match ends. -/
theorem resume?_eq_of_isSteady (h : op.isSteady = true) {stop stop' : Option ℕ}
    (hs : stop.isSome = stop'.isSome) : op.resume? i stop = op.resume? i stop' := by
  cases op <;> simp_all [Op.isSteady, Op.resume?]

section

variable (hplain : ∀ (k : ℕ) (op : Op), a.program.ops[k]? = some op → op.feature? = none)

include hplain

/-- The operations of a plain pattern are steady. -/
theorem isSteady_of_plain (k : ℕ) (op : Op) (hop : a.program.ops[k]? = some op) :
    op.isSteady = true := Op.isSteady_of_feature fun f hf => by
  cases (hplain k op hop).symm.trans hf

/-- There is no match within the match in a plain pattern. -/
theorem body?_of_plain (hop : a.program.ops[k]? = some op) (m : Mode) : op.body? m = none := by
  have := hplain k op hop
  cases op <;> simp_all [Op.feature?, Op.body?]

theorem undisturbed_of_plain (k : ℕ) (m : Mode) (i : ℕ) (V : Marks) : Undisturbed a k m i V := by
  rintro ⟨j, op, child, m', n, hop, hb, -⟩
  rw [body?_of_plain hplain hop] at hb
  cases hb

end

/-- Closures that are marked are closures of the program, and they have an owner
that comes no later than the one that is explored for. -/
theorem Explores.marks_owner (hown : a.program.Owned own)
    (h : Explores a watch top m V links i sl V' r) (hlinks : ∀ l ∈ links, LinkIn own o l) :
    ∀ p ∈ V', p ∉ V → ∃ k child greedy next,
      a.program.ops[k]? = some (.closure p.1 child greedy next) ∧ own k ≤ o := by
  induction h generalizing o with
  | read hop _ _ ih | mark hop _ ih => exact ih (linksIn_links hown hlinks hop)
  | choose hop _ _ ih => exact ih (linksIn_branches hown hlinks hop)
  | @enter _ _ _ k i _ _ _ id child greedy next hop _ _ ih =>
    have hk := own_eq_of_links hlinks
    intro p hp hpV
    by_cases hid : p = (id, i)
    · subst hid
      exact ⟨k, child, greedy, next, hop, hk.le⟩
    · exact ih (linksIn_branches hown hlinks hop) p hp (by simp [hid, hpV])
  | test hop _ _ ih => exact ih (linksIn_test hown hlinks hop)
  | @resume _ _ _ k _ _ V₁ _ _ _ _ _ _ _ _ _ _ hop hb _ _ _ hgo _ ihb ih =>
    have hk := own_eq_of_links hlinks
    intro p hp hpV
    by_cases hpV₁ : p ∈ V₁
    · obtain ⟨k', child, greedy, next, hop', ho⟩ := ihb (linksIn_body hown hop hb) p hpV₁ hpV
      exact ⟨k', child, greedy, next, hop', ho.trans (hk ▸ (hown.lt k _ hop).le)⟩
    · exact ih (linksIn_resume hown hlinks hop hgo) p hp hpV₁
  | @abandon _ _ _ k _ _ V₁ _ _ _ _ _ _ hop hb _ _ _ hgo ihb
  | @refuse _ _ _ k _ _ V₁ _ _ _ _ hop hb _ _ ihb =>
    have hk := own_eq_of_links hlinks
    intro p hp hpV
    obtain ⟨k', child, greedy, next, hop', ho⟩ := ihb (linksIn_body hown hop hb) p hp hpV
    exact ⟨k', child, greedy, next, hop', ho.trans (hk ▸ (hown.lt k _ hop).le)⟩
  | first _ _ ih => exact ih (linksIn_head hlinks)
  | @later _ _ _ l l' ls _ _ V₁ _ _ _ _ ih ih' =>
    intro p hp hpV
    by_cases hpV₁ : p ∈ V₁
    · exact ih (linksIn_head hlinks) p hpV₁ hpV
    · exact ih' (linksIn_tail hlinks) p hp hpV₁
  | _ => exact fun p hp hpV => absurd hp hpV

/-! ### Ruling out paths -/

/-- What an exploration that has failed has ruled out: paths from its links, and
from the closures that it has marked.  The second part is what lets a later
branch turn back at such a mark and lose nothing by it. -/
structure RulesOut (a : Attempt) (O : Endings) (own : ℕ → ℕ) (o : ℕ) (top : Bool) (m : Mode)
    (V : Marks) (links : List Link) (i : ℕ) (V' : Marks) : Prop where
  links_dead : ∀ l ∈ links, Dead a O ↑V top m l i
  marks_dead : ∀ k id child greedy next i',
    a.program.ops[k]? = some (.closure id child greedy next) → own k = o → (id, i') ∈ V' →
      (id, i') ∉ V → Dead a O ↑V top m (some k) i'

/-- Whether closures can be told apart by their numbers, so that a mark belongs
to one operation. -/
def Program.ClosuresUnique (p : Program) : Prop :=
  ∀ (k k' id child child' : ℕ) (greedy greedy' : Bool) (next next' : Link),
    p.ops[k]? = some (.closure id child greedy next) →
      p.ops[k']? = some (.closure id child' greedy' next') → k = k'

/-- An operation from which every move leads to a link that is ruled out is
ruled out itself. -/
theorem Dead.of_moves
    (h : ∀ l j, Move a O avoid m k i l j → Dead a O avoid top m l j) :
    Dead a O avoid top m (some k) i := by
  intro n e he hr
  cases hr with
  | step move rest => exact h _ _ move _ e he rest

/-- A marked closure cannot be entered. -/
theorem Dead.of_mem {id child : ℕ} {greedy : Bool} {next : Link}
    (hop : a.program.ops[k]? = some (.closure id child greedy next)) (h : (id, i) ∈ avoid) :
    Dead a O avoid top m (some k) i := by
  refine .of_moves fun l j move => ?_
  exact absurd h ((move_iff hop).mp move).1

section

variable (hown : a.program.Owned own)

include hown

/-- What is ruled out with respect to later marks is ruled out with respect to
the earlier ones, if the marks between them are. -/
theorem Dead.weaken {V₁ : Set (ℕ × ℕ)} (hlink : LinkIn own o link)
    (hmarks : ∀ k id child greedy next i',
      a.program.ops[k]? = some (.closure id child greedy next) → own k = o → (id, i') ∈ V₁ →
        (id, i') ∉ avoid → Dead a O avoid top m (some k) i')
    (h : Dead a O V₁ top m link i) : Dead a O avoid top m link i := by
  intro n e he hr
  -- Either the path avoids the later marks, or it goes on from one of them.
  rcases hr.avoid_or_hit hown hlink V₁ with
    hr | ⟨k, id, child, greedy, next, i', n', hop, ho, hV₁, -, hr⟩
  · exact h n e he (hr.mono Set.subset_union_right)
  · by_cases hfree : (id, i') ∈ avoid
    · exact Dead.of_mem hop hfree n' e he hr
    · exact hmarks k id child greedy next i' hop ho hV₁ hfree n' e he hr

namespace RulesOut

variable {l : Link} {V₁ : Marks}

/-- One branch after the other.  The second branch has avoided the marks of the
first one, which loses nothing because these have been ruled out. -/
theorem later (hlinks : ∀ l ∈ links, LinkIn own o l)
    (h : RulesOut a O own o top m V [l] i V₁) (h' : RulesOut a O own o top m V₁ links i V') :
    RulesOut a O own o top m V (l :: links) i V' where
  links_dead l' hl' := by
    rcases List.mem_cons.mp hl' with rfl | hl'
    · exact h.links_dead _ List.mem_cons_self
    · refine (h'.links_dead l' hl').weaken hown (hlinks l' hl') ?_
      exact fun k id child greedy next i' hop ho => h.marks_dead k id child greedy next i' hop ho
  marks_dead k id child greedy next i' hop ho hV' hV := by
    by_cases hV₁ : (id, i') ∈ V₁
    · exact h.marks_dead k id child greedy next i' hop ho hV₁ hV
    · refine (h'.marks_dead k id child greedy next i' hop ho hV' hV₁).weaken hown
        (linkIn_some ho) ?_
      exact fun k id child greedy next i' hop ho => h.marks_dead k id child greedy next i' hop ho

/-- After a match within the match, whose marks belong to another owner, paths
of this owner are what they were before. -/
theorem after_body (hl : LinkIn own o l) (hmarks : ∀ k id child greedy next i',
      a.program.ops[k]? = some (.closure id child greedy next) → own k = o → (id, i') ∈ V₁ →
        (id, i') ∈ V)
    (h : RulesOut a O own o top m V₁ [l] i V') : RulesOut a O own o top m V [l] i V' where
  links_dead l' hl' := by
    obtain rfl := List.mem_singleton.mp hl'
    refine (h.links_dead _ hl').weaken hown hl ?_
    exact fun k id child greedy next i' hop ho hV₁ hV =>
      absurd (hmarks k id child greedy next i' hop ho hV₁) hV
  marks_dead k id child greedy next i' hop ho hV' hV := by
    by_cases hV₁ : (id, i') ∈ V₁
    · exact absurd (hmarks k id child greedy next i' hop ho hV₁) hV
    · refine (h.marks_dead k id child greedy next i' hop ho hV' hV₁).weaken hown (linkIn_some ho) ?_
      exact fun k id child greedy next i' hop ho hV₁ hV =>
        absurd (hmarks k id child greedy next i' hop ho hV₁) hV

/-- A closure that has been entered.  A path that leaves it and comes back goes
on from its last entry, and from there it avoids the entry. -/
theorem enter (hunique : a.program.ClosuresUnique) {id child : ℕ} {greedy : Bool} {next : Link}
    (hop : a.program.ops[k]? = some (.closure id child greedy next))
    (h : RulesOut a O own (own k) top m (insert (id, i) V)
      (Op.closure id child greedy next).branches i V') :
    RulesOut a O own (own k) top m V [some k] i V' := by
  -- By induction on the length of the path: behind its last entry it is shorter.
  have hself : Dead a O ↑V top m (some k) i := by
    intro n e he hr
    induction n using Nat.strong_induction_on with
    | _ n ih =>
      cases hr with
      | step move rest =>
        obtain ⟨-, hl, hj⟩ := (move_iff hop).mp move
        rw [hj] at rest
        have hlink := LinkIn.of_links hown hop (Op.branches_subset_links _ hl)
        rcases rest.avoid_or_hit hown hlink {(id, i)} with
          hr | ⟨k', id', child', greedy', next', i', n', hop', -, heq, hn, hr⟩
        · refine h.links_dead _ hl _ e he (hr.mono ?_)
          rw [Finset.coe_insert, Set.insert_eq, Set.union_comm]
        · obtain ⟨rfl, rfl⟩ := Prod.mk.inj (Set.mem_singleton_iff.mp heq)
          have hk := hunique _ _ _ _ _ _ _ _ _ hop hop'
          exact ih n' (by omega) (hk ▸ hr)
  refine ⟨fun l hl => List.mem_singleton.mp hl ▸ hself, ?_⟩
  intro k' id' child' greedy' next' i' hop' ho hV' hV
  -- The new mark is the only one that is not in the marks of the branches.
  have hmarks : ∀ k' id' child' greedy' next' i',
      a.program.ops[k']? = some (.closure id' child' greedy' next') → own k' = own k →
        (id', i') ∈ (insert (id, i) V : Marks) → (id', i') ∉ V →
          Dead a O ↑V top m (some k') i' := by
    intro k' id' child' greedy' next' i' hop' _ hmem hV
    rcases Finset.mem_insert.mp hmem with heq | hmem
    · obtain ⟨rfl, rfl⟩ := Prod.mk.inj heq
      have hk := hunique _ _ _ _ _ _ _ _ _ hop hop'
      exact hk ▸ hself
    · exact absurd hmem hV
  by_cases hV₁ : (id', i') ∈ (insert (id, i) V : Marks)
  · exact hmarks k' id' child' greedy' next' i' hop' ho hV₁ hV
  · refine (h.marks_dead k' id' child' greedy' next' i' hop' ho hV' hV₁).weaken hown
      (linkIn_some ho) hmarks

end RulesOut

/-! ### The white path -/

/-- What an exploration tells of the paths from its links.  If it has found a
match then a path avoids the marks that there were before and ends there, and if
it has failed then there is no path that avoids them. -/
def Tells (a : Attempt) (O : Endings) (own : ℕ → ℕ) (o : ℕ) (top : Bool) (m : Mode) (V : Marks)
    (links : List Link) (i : ℕ) (V' : Marks) : Discovery → Prop
  | .matched e _ => Accepts a top e ∧ ∃ n, ∃ l ∈ links, Reaches a O ↑V m n l i e
  | .failed => RulesOut a O own o top m V links i V'
  | .refused _ => True

/-- Whether the endings of matches within the match are those that an
exploration comes to, given what it tells of their bodies, and whether they
leave no doubt of how to go on.  It is the only thing that the induction over an
exploration asks of matches within the match, and `Ends` as well as the answers
of a pattern alone can be shown to fit. -/
structure Fits (a : Attempt) (watch : ℕ → Mode → ℕ → Marks → Prop) (own : ℕ → ℕ) (O : Endings) :
    Prop where
  ends : ∀ {k op child m m' i V V₁ r₁ sl stop sl₁}, a.program.ops[k]? = some op →
    op.body? m = some (child, m') → watch k m i V → Explores a watch false m' V [child] i sl V₁ r₁ →
      Tells a O own k false m' V [child] i V₁ r₁ → r₁.ending? sl = some (stop, sl₁) → O k m i stop
  resumes : ∀ {k op child m m' i stop stop'}, a.program.ops[k]? = some op →
    op.body? m = some (child, m') → O k m i stop → O k m i stop' →
      op.resume? i stop = op.resume? i stop'

variable (hsteady : ∀ (k : ℕ) (op : Op), a.program.ops[k]? = some op → op.isSteady = true)
  (hunique : a.program.ClosuresUnique)
  (hwatch : ∀ k m i V, watch k m i V → Undisturbed a k m i V)

/-- A path through the body of an undisturbed match within the match is found.
This is where it is used that the marks leave a path if there is one. -/
theorem ends_of_tells {child : Link} {m' : Mode} {V₁ : Marks} {r₁ : Discovery} {stop : Option ℕ}
    {sl₁ : Option Slots} (hop : a.program.ops[k]? = some op) (hb : op.body? m = some (child, m'))
    (hu : Undisturbed a k m i V)
    (h : Tells a (Ends a true) own k false m' V [child] i V₁ r₁)
    (hr : r₁.ending? sl = some (stop, sl₁)) : Ends a true k m i stop := by
  cases r₁ with
  | refused => cases hr
  | matched e sl' =>
    cases hr
    obtain ⟨-, n, l, hl, hpath⟩ := h
    obtain rfl := List.mem_singleton.mp hl
    rw [ends_some_iff hown]
    exact ⟨op, _, m', n, hop, hb, hpath.mono (Set.empty_subset _)⟩
  | failed =>
    cases hr
    rw [ends_none_iff hown]
    rintro - hbody
    obtain ⟨j, op', child', m'', n, hop', hb', hpath⟩ := hu hbody
    cases hop.symm.trans hop'
    cases hb.symm.trans hb'
    exact h.links_dead _ List.mem_cons_self n j (by simp [Accepts]) hpath

omit hown in
/-- What is told of the links to which the moves from an operation lead is told
of the operation. -/
theorem Tells.of_moves {j : ℕ} (hto : ∀ l ∈ links, Move a O ↑V m k i l j)
    (honly : ∀ l j', Move a O ↑V m k i l j' → l ∈ links ∧ j' = j)
    (h : Tells a O own o top m V links j V' r) : Tells a O own o top m V [some k] i V' r := by
  cases r with
  | matched e sl =>
    obtain ⟨he, n, l, hl, hr⟩ := h
    exact ⟨he, n + 1, some k, List.mem_cons_self, .step (hto l hl) hr⟩
  | failed =>
    refine ⟨fun l hl => List.mem_singleton.mp hl ▸ .of_moves fun l j' move => ?_, h.marks_dead⟩
    obtain ⟨hl, rfl⟩ := honly l j' move
    exact h.links_dead l hl
  | refused => trivial

omit hown in
/-- An operation that leads nowhere, after which there are no new marks of its
owner. -/
theorem Tells.of_dead (hdead : Dead a O ↑V top m (some k) i)
    (hmarks : ∀ k id child greedy next i',
      a.program.ops[k]? = some (Op.closure id child greedy next) → own k = o → (id, i') ∈ V' →
        (id, i') ∈ V) : Tells a O own o top m V [some k] i V' .failed :=
  ⟨fun _ hl => List.mem_singleton.mp hl ▸ hdead, fun k id child greedy next i' hop ho hV' hV =>
    absurd (hmarks k id child greedy next i' hop ho hV') hV⟩

/-- What is told after a match within the match, whose marks belong to another
owner. -/
theorem Tells.after_body {l : Link} {V₁ : Marks} (hl : LinkIn own o l) (hsub : V ⊆ V₁)
    (hmarks : ∀ k id child greedy next i',
      a.program.ops[k]? = some (Op.closure id child greedy next) → own k = o → (id, i') ∈ V₁ →
        (id, i') ∈ V)
    (h : Tells a O own o top m V₁ [l] i V' r) : Tells a O own o top m V [l] i V' r := by
  cases r with
  | matched e sl =>
    obtain ⟨he, n, l', hl', hr⟩ := h
    exact ⟨he, n, l', hl', hr.mono (Finset.coe_subset.mpr hsub)⟩
  | failed => exact RulesOut.after_body hown hl hmarks h
  | refused => trivial

include hunique in
/-- What is told of a closure that has been entered.  A path that comes back to
it at the same offset can be cut short, and so it may be assumed to avoid the
new mark. -/
theorem Tells.enter {id child : ℕ} {greedy : Bool} {next : Link}
    (hop : a.program.ops[k]? = some (.closure id child greedy next)) (hV : (id, i) ∉ V)
    (h : Tells a O own (own k) top m (insert (id, i) V) (Op.closure id child greedy next).branches i
      V' r) :
    Tells a O own (own k) top m V [some k] i V' r := by
  cases r with
  | matched e sl =>
    obtain ⟨he, n, l, hl, hr⟩ := h
    exact ⟨he, n + 1, some k, List.mem_cons_self, .step (.enter hop hV hl)
      (hr.mono (Finset.coe_subset.mpr (Finset.subset_insert _ _)))⟩
  | failed => exact RulesOut.enter hown hunique hop h
  | refused => trivial

include hunique in
/-- The marks of a body belong to owners that come before, so that they are
marks of none of the closures around the body. -/
theorem body_marks {child : Link} {m' : Mode} {V₁ : Marks} {r₁ : Discovery}
    (hop : a.program.ops[k]? = some op) (hb : op.body? m = some (child, m'))
    (h : Explores a watch false m' V [child] i sl V₁ r₁) (k' id child' : ℕ) (greedy : Bool)
    (next : Link) (i' : ℕ) (hop' : a.program.ops[k']? = some (.closure id child' greedy next))
    (ho : own k' = own k) (hV₁ : (id, i') ∈ V₁) : (id, i') ∈ V := by
  by_contra hV
  obtain ⟨k₂, _, _, _, hop₂, ho₂⟩ := h.marks_owner hown (linksIn_body hown hop hb) _ hV₁ hV
  obtain rfl := hunique _ _ _ _ _ _ _ _ _ hop' hop₂
  have := hown.lt k op hop
  omega

/-- A match within the match cannot both succeed and fail. -/
theorem Ends.isSome_eq {stop stop' : Option ℕ} (h : Ends a true k m i stop)
    (h' : Ends a true k m i stop') : stop.isSome = stop'.isSome := by
  cases stop with
  | some j =>
    cases stop' with
    | some j' => rfl
    | none =>
      exact absurd ⟨j, (ends_some_iff hown).mp h⟩ ((ends_none_iff hown).mp h' rfl)
  | none =>
    cases stop' with
    | some j' =>
      exact absurd ⟨j', (ends_some_iff hown).mp h'⟩ ((ends_none_iff hown).mp h rfl)
    | none => rfl

omit hown in
/-- A path goes on after a match within the match as an exploration does,
because the endings leave no doubt of it. -/
theorem Fits.resume?_eq (hfits : Fits a watch own O) {child : Link} {m' : Mode} {stop : Option ℕ}
    {j : ℕ} (hop : a.program.ops[k]? = some op) (hb : op.body? m = some (child, m'))
    (hends : O k m i stop) (move : Move a O avoid m k i link j) :
    op.resume? i stop = some (.go j link) := by
  have hmove := (move_iff hop).mp move
  obtain ⟨stop', hends', hgo⟩ :
      ∃ stop', O k m i stop' ∧ op.resume? i stop' = some (.go j link) := by
    cases op <;> first | exact hmove | simp [Op.body?] at hb
  rw [← hgo]
  exact hfits.resumes hop hb hends hends'

section

variable (hindifferent : ∀ (k : ℕ) (op : Op), a.program.ops[k]? = some op → op.isIndifferent = true)
  (hfits : Fits a watch own O)

include hunique hindifferent hfits

/-- An exploration finds a path that avoids the marks before, or it has ruled
out every such path, also from the closures that it has marked. -/
theorem Explores.tells (h : Explores a watch top m V links i sl V' r)
    (hlinks : ∀ l ∈ links, LinkIn own o l) : Tells a O own o top m V links i V' r := by
  -- For all owners at once: a body has another owner than the link from which it is run.
  induction h generalizing o with
  | accept h => exact ⟨h, 0, none, List.mem_cons_self, .done⟩
  | short hw hi =>
    refine ⟨fun l hl n e he hr => ?_, fun _ _ _ _ _ _ _ _ hV' hV => absurd hV' hV⟩
    obtain rfl := List.mem_singleton.mp hl
    cases hr
    exact hi (he rfl hw)
  | read hop hread _ ih =>
    refine (ih (linksIn_links hown hlinks hop)).of_moves (fun l hl => ?_) fun l j move => ?_
    · obtain rfl := List.mem_singleton.mp hl
      exact .read hop hread
    · obtain ⟨rfl, slots, hread'⟩ := (move_iff hop).mp move
      rw [read_eq_of_isIndifferent (hindifferent _ _ hop) _ _ _ _, hread] at hread'
      cases hread'
      exact ⟨List.mem_singleton.mpr rfl, rfl⟩
  | unread hop hread =>
    refine .of_dead (.of_moves fun l j move => ?_) fun _ _ _ _ _ _ _ _ hV => hV
    obtain ⟨rfl, slots, hread'⟩ := (move_iff hop).mp move
    rw [read_eq_of_isIndifferent (hindifferent _ _ hop) _ _ _ _, hread] at hread'
    cases hread'
  | unreadable | untestable | refuse => trivial
  | choose hop hc _ ih =>
    refine (ih (linksIn_branches hown hlinks hop)).of_moves (fun l hl => .choose hop hc hl)
      fun l j move => ?_
    have := (move_iff hop).mp move
    rename Op => op
    cases op <;> simp_all [Op.isChoice]
  | reenter hop hV =>
    exact .of_dead (.of_mem hop (Finset.mem_coe.mpr hV)) fun _ _ _ _ _ _ _ _ hV => hV
  | enter hop hV _ ih =>
    obtain rfl := own_eq_of_links hlinks
    exact (ih (linksIn_branches hown hlinks hop)).enter hown hunique hop hV
  | mark hop _ ih =>
    refine (ih (linksIn_links hown hlinks hop)).of_moves (fun l hl => ?_) fun l j move => ?_
    · obtain rfl := List.mem_singleton.mp hl
      exact .mark hop
    · obtain ⟨rfl, rfl⟩ := (move_iff hop).mp move
      exact ⟨List.mem_singleton.mpr rfl, rfl⟩
  | test hop => exact absurd (hindifferent _ _ hop) (by simp [Op.isIndifferent])
  | fail hop =>
    exact .of_dead (.of_moves fun l j move => ((move_iff hop).mp move).elim)
      fun _ _ _ _ _ _ _ _ hV => hV
  | @resume _ _ _ k i _ _ _ _ _ op _ _ stop _ _ l hop hb hw hbody hr hgo _ ihb ih =>
    obtain rfl := own_eq_of_links hlinks
    have hends := hfits.ends hop hb hw hbody (ihb (linksIn_body hown hop hb)) hr
    have hlink := LinkIn.of_links hown hop (Op.resume?_mem_links hgo)
    have htells := Tells.after_body hown hlink hbody.subset (body_marks hown hunique hop hb hbody)
      (ih (linksIn_singleton hlink))
    refine htells.of_moves (fun l' hl => ?_) fun l' j' move => ?_
    · obtain rfl := List.mem_singleton.mp hl
      exact .resume hop hb hends hgo
    · cases hgo.symm.trans (hfits.resume?_eq hop hb hends move)
      exact ⟨List.mem_singleton.mpr rfl, rfl⟩
  | @abandon _ _ _ k i _ _ _ op _ _ stop _ hop hb hw hbody hr hgo ihb =>
    obtain rfl := own_eq_of_links hlinks
    have hends := hfits.ends hop hb hw hbody (ihb (linksIn_body hown hop hb)) hr
    refine .of_dead (.of_moves fun l j move => ?_) (body_marks hown hunique hop hb hbody)
    cases hgo.symm.trans (hfits.resume?_eq hop hb hends move)
  | nil => exact ⟨by simp, fun _ _ _ _ _ _ _ _ hV' hV => absurd hV' hV⟩
  | @first _ _ _ l l' ls _ _ _ r _ hr ih =>
    have h := ih (linksIn_head hlinks)
    cases r with
    | matched e sl =>
      obtain ⟨he, n, l, hl, hr⟩ := h
      exact ⟨he, n, l, by simp_all, hr⟩
    | failed => exact absurd rfl hr
    | refused => trivial
  | @later _ _ _ l l' ls _ _ _ _ r hhead _ ih ih' =>
    have h := ih (linksIn_head hlinks)
    have h' := ih' (linksIn_tail hlinks)
    cases r with
    | matched e sl =>
      obtain ⟨he, n, l, hl, hr⟩ := h'
      exact ⟨he, n, l, List.mem_cons_of_mem _ hl, hr.mono (Finset.coe_subset.mpr hhead.subset)⟩
    | failed => exact RulesOut.later hown (linksIn_tail hlinks) h h'
    | refused => trivial

end

include hsteady hwatch in
/-- If all operations are steady and no body is disturbed, matches within the
match end where paths end. -/
theorem fits_ends : Fits a watch own (Ends a true) where
  ends hop hb hw _ htells hr := ends_of_tells hown hop hb (hwatch _ _ _ _ hw) htells hr
  resumes hop _ hends hends' :=
    resume?_eq_of_isSteady (hsteady _ _ hop) (Ends.isSome_eq hown hends hends')

include hsteady hunique hwatch in
/-- The white path of steady operations: if a path from a link avoids the marks
there were, the exploration finds a match, and a failure means that there is
none. -/
theorem Explores.white_path (h : Explores a watch top m V links i sl V' r)
    (hlinks : ∀ l ∈ links, LinkIn own o l) : Tells a (Ends a true) own o top m V links i V' r :=
  h.tells hown hunique (fun k op hop => Op.isIndifferent_of_isSteady (hsteady k op hop))
    (fits_ends hown hsteady hwatch) hlinks

end

end Regexp
