import Mathlib.Logic.Relation
import Regexp.Proofs.Transition

/-!
# The machine explores

The machine takes small steps and keeps what is left to do on a stack; an
exploration is a recursion (`Explores`).  This module shows that the one carries
out the other.

## What has to be said of a stack

Whatever the stack holds, the machine settles what is on top of it: it explores
the link it stands at, and leaves the frames below as they are.
`Attempt.Within` are the steps that keep some frames at the bottom of the stack.
Such steps can do three things in the end (`Attempt.Settles`): they come to the
end of the program, on top of frames that restore what was recorded; they fall
back to the frames below, with the slots as they were; or the program cannot be
run.  These are the three kinds of discoveries.  Each is the beginning of
something else as well, and that is why they have to be stated for any frames
below: the end of a body is where the match around goes on, and falling back is
where the next branch is tried.

Branches that are left to try lie on the stack as one frame, or as none if there
are none left (`Attempt.Pending`).  An exploration has a list of links for them,
and `Attempt.Pending.step` says that falling back to the frame is going on with
the first link of the list.

## The induction

`Attempt.explored` goes by induction over the states in the order in which each
step goes down, `State.lighter_wf`, and not over the program: from one operation
the machine may come back to it through a closure, with another stack.  Each
operation is a step with what comes after it, so there is a lemma for each kind
of step, and the hypothesis is applied to the state after the step, once for the
body and once for what follows if the operation has a body.  That the machine
has entered the closures of some marks and no others is `Attempt.Shows`.

## Conditions along a run

`Attempt.Running` carries what is known of the states of the run from the start
on, so that a condition that holds at all states of a run can be used where a
match within the match begins.  `Attempt.holdsAlong` evaluates such a condition:
it follows the run for some number of steps and asks each state, and
`Attempt.Within.holds` is what an answer in the affirmative comes to.

## Main definitions

* `Attempt.Within` — steps that keep the frames at the bottom of the stack.
* `Attempt.holdsAlong` — a property of all states of a run, which can be
  evaluated.
* `Attempt.Shows` — a state has entered just the closures of some marks.
* `Attempt.Settles` — how a state ends what it has begun.
* `Attempt.Pending` — the frames that stand for the branches left to try.

## Main statements

* `Attempt.explored` — from any state the machine explores, and it settles what
  it has found.
* `Attempt.explores_run` — the answer of an attempt is what the exploration of
  its program finds.
-/

namespace Regexp

theorem State.Lighter.trans {a : Attempt} {s s' s'' : State} (h : s''.Lighter a s')
    (h' : s'.Lighter a s) : s''.Lighter a s := by
  unfold State.Lighter at *
  omega

/-- The order of the states by what is left to do is well founded.  A run is
explored by induction on it, and not on the number of its steps. -/
theorem State.lighter_wf (a : Attempt) : WellFounded (State.Lighter a) := by
  refine Subrelation.wf (r := InvImage (Prod.Lex (· < ·) (· < ·)) fun s => (s.room a, s.weight a))
    ?_ (InvImage.wf _ (Prod.lex Nat.lt_wfRel Nat.lt_wfRel).wf)
  intro s' s h
  rcases h with h | ⟨h, h'⟩
  · exact .left _ _ h
  · simp only [InvImage, h]
    exact .right _ h'

namespace Attempt

variable (a : Attempt)

/-- The steps from a state to another one that keep the frames `base` at the
bottom of the stack.  While the machine is within these, nothing that was begun
before is taken up again. -/
def Within (base : List Frame) : State → State → Prop :=
  Relation.ReflTransGen fun s s' => a.step s = .next s' ∧ base <:+ s'.stack

/-- Whether a state has entered the closures of the marks, and no others.  Only
offsets of the span count, since there are no sets of visited offsets beyond. -/
def Shows (s : State) (V : Marks) : Prop :=
  ∀ id < a.program.closureLen, ∀ o, a.InSpan o →
    (s.hasEntered id (o - a.span.start) = true ↔ (id, o) ∈ V)

/-- Whether a run from a state comes to an operation, in a mode, at an offset
and with marks. -/
def Visits (s₀ : State) (k : ℕ) (m : Mode) (i : ℕ) (V : Marks) : Prop :=
  ∃ s, a.Within [] s₀ s ∧ s.control = .run (some k) ∧ s.mode = m ∧ s.offset = i ∧ a.Shows s V

/-- How a state ends what it has begun on top of the frames `base`: it comes to
the end of the program with frames that undo what was recorded, it falls back to
the frames below, or the program cannot be run.  In the first two cases the
direction, the options and the depth are those it has begun with. -/
def Settles (base : List Frame) (s : State) (V' : Marks) : Discovery → Prop
  | .matched stop slots => ∃ s' fs, a.Within base s s' ∧ s'.control = .run none ∧
      s'.offset = stop ∧ s'.slots = slots ∧ s'.depth = s.depth ∧ s'.mode = s.mode ∧
      a.Shows s' V' ∧ s'.stack = fs ++ base ∧ (∀ f ∈ fs, f.isSub = false) ∧
      slots.map (restoreAll · fs) = s.slots ∧
      (s.depth = 0 → a.whole = true → stop = a.span.stop)
  | .failed => ∃ s', a.Within base s s' ∧ s'.control = .fail ∧ s'.stack = base ∧
      s'.slots = s.slots ∧ s'.depth = s.depth ∧ s'.mode = s.mode ∧ a.Shows s' V'
  | .refused e => ∃ s' s'', a.Within base s s' ∧ a.step s' = .halt (.error e) s''

/-- The frames that stand for the links that are left to try at an offset.  A
choice among many has one frame for all that are left, and the other operations
have one for their other branch; the links of `Explores` are read off these. -/
inductive Pending (i : ℕ) : List Link → List Frame → Prop
  | none : Pending i [] []
  | other {k op link} (hop : a.program.ops[k]? = some op) (h : op.otherBranch? = some link) :
    Pending i [link] [.retry k i]
  | alternates {k n links link ls} (hop : a.program.ops[k]? = some (.union links))
    (h : links.drop (n + 1) = link :: ls) : Pending i (link :: ls) [.alternate k n i]

/-- What is known of a state of a run that has begun in `s₀`: it is valid, the
run leads to it, and `V` are the closures marked so far. -/
structure Running (s₀ s : State) (V : Marks) : Prop where
  valid : s.Valid a
  leads : a.Within [] s₀ s
  shows_marks : a.Shows s V

/-- Whether all states of a run have a property, if it ends within some number
of steps.  It can be evaluated, so that a statement about all states of one run
becomes a computation. -/
def holdsAlong (P : State → Prop) [DecidablePred P] : ℕ → State → Bool
  | 0, _ => false
  | n + 1, s => decide (P s) &&
    match a.step s with
    | .next s' => holdsAlong P n s'
    | _ => true

/-- Whether the machine explores from a state, for whatever frames there are on
its stack.  This is the statement that the induction along the run of the
machine proves of every state. -/
def Explored (s₀ s : State) : Prop :=
  ∀ l ls fs base V, a.Running s₀ s V → s.control = .run l → s.stack = fs ++ base →
    a.Pending s.offset ls fs →
      ∃ V' r, Explores a (a.Visits s₀) (s.depth = 0) s.mode V (l :: ls) s.offset s.slots V' r ∧
        a.Settles base s V' r

variable {a} {s s₀ s₁ s₂ : State} {V V' V₁ : Marks} {base base' : List Frame} {r : Discovery}

/-! ### Steps -/

namespace Within

theorem refl : a.Within base s s := Relation.ReflTransGen.refl

theorem single (h : a.step s = .next s₁) (hb : base <:+ s₁.stack) : a.Within base s s₁ :=
  Relation.ReflTransGen.single ⟨h, hb⟩

theorem trans (h : a.Within base s s₁) (h' : a.Within base s₁ s₂) : a.Within base s s₂ :=
  Relation.ReflTransGen.trans h h'

/-- Fewer frames are kept all the more.  The frames to be kept are the lower end
of a stack, and of these the lower end is asked for. -/
theorem mono (hb : base' <:+ base) (h : a.Within base s s₁) : a.Within base' s s₁ :=
  Relation.ReflTransGen.mono (fun _ _ h => ⟨h.1, hb.trans h.2⟩) _ _ h

theorem valid (h : a.Within base s s₁) (hs : s.Valid a) : s₁.Valid a := by
  induction h with
  | refl => exact hs
  | tail _ h ih => exact step_valid ih h.1

/-- Steps make a state lighter, if there are any.  So a later state of a run can
be explored by the same induction. -/
theorem lighter (h : a.Within base s s₁) (hs : s.Valid a) : s₁ = s ∨ s₁.Lighter a s := by
  induction h with
  | refl => exact .inl rfl
  | tail h h' ih =>
    right
    have := step_lighter (Within.valid h hs) h'.1
    rcases ih with rfl | ih
    · exact this
    · exact this.trans ih

theorem lighter_of_step (h : a.Within base s s₁) (hs : s.Valid a) (h' : a.step s₁ = .next s₂) :
    s₂.Lighter a s := by
  have hlt := step_lighter (h.valid hs) h'
  rcases h.lighter hs with rfl | hlt'
  · exact hlt
  · exact hlt.trans hlt'

/-- What is found to hold along a run holds of each of its states.  The run has
to be computed to its end, for which `n` steps must do. -/
theorem holds {P : State → Prop} [DecidablePred P] {n : ℕ}
    (h : a.holdsAlong P n s = true) (hw : a.Within base s s₁) : P s₁ := by
  induction n generalizing s with
  | zero => cases h
  | succ n ih =>
    rw [holdsAlong, Bool.and_eq_true, decide_eq_true_iff] at h
    rcases Relation.ReflTransGen.cases_head hw with rfl | ⟨s₂, hstep, hw⟩
    · exact h.1
    · have hrest := h.2
      rw [hstep.1] at hrest
      exact ih hrest hw

end Within

/-- A run that walks in one mode and comes to the only operation with a body at
one offset. -/
theorem Visits.of_only {s₀ : State} {V : Marks} {m m₀ : Mode} {k i g i₀ n : ℕ}
    (honly : ∀ k < a.program.ops.size, k ≠ g →
      (a.program.ops[k]?.bind (Op.body? m₀)).isSome = false)
    (hruns : a.holdsAlong (fun s => s.reverse = m₀.reverse ∧ s.opts = m₀.opts ∧
      (s.control = .run (some g) → s.offset = i₀)) n s₀ = true) (h : a.Visits s₀ k m i V) {op : Op}
    {body : Link × Mode} (hop : a.program.ops[k]? = some op) (hb : op.body? m = some body) :
    k = g ∧ m = m₀ ∧ i = i₀ := by
  obtain ⟨s, hw, hc, rfl, rfl, -⟩ := h
  obtain ⟨hreverse, hopts, hoffset⟩ := hw.holds hruns
  have hmode : s.mode = m₀ := congrArg₂ Mode.mk hreverse hopts
  rw [hmode] at hb
  obtain rfl : k = g := by
    by_contra hne
    have hnone := honly k (Array.getElem?_eq_some_iff.mp hop).1 hne
    simp [hop, hb] at hnone
  exact ⟨rfl, hmode, hoffset hc⟩

theorem Running.within (h : a.Running s₀ s V) (hw : a.Within base s s₁) (hV : a.Shows s₁ V₁) :
    a.Running s₀ s₁ V₁ :=
  ⟨hw.valid h.valid, h.leads.trans (hw.mono List.nil_suffix), hV⟩

/-- What a state ends it has begun before.  Slots, depth and mode have to be
what they were, as they are part of what is settled. -/
theorem Settles.before (hw : a.Within base s s₁) (hsl : s₁.slots = s.slots)
    (hd : s₁.depth = s.depth) (hm : s₁.mode = s.mode) (h : a.Settles base s₁ V' r) :
    a.Settles base s V' r := by
  cases r with
  | matched stop slots =>
    obtain ⟨s', fs, hw', hc, ho, hs, hd', hm', hV, hstack, hsub, hr, hend⟩ := h
    exact ⟨s', fs, hw.trans hw', hc, ho, hs, hd'.trans hd, hm'.trans hm, hV, hstack, hsub,
      hr.trans hsl, fun h0 => hend (hd.trans h0)⟩
  | failed =>
    obtain ⟨s', hw', hc, hstack, hs, hd', hm', hV⟩ := h
    exact ⟨s', hw.trans hw', hc, hstack, hs.trans hsl, hd'.trans hd, hm'.trans hm, hV⟩
  | refused e =>
    obtain ⟨s', s'', hw', hs⟩ := h
    exact ⟨s', s'', hw.trans hw', hs⟩

/-! ### Frames that restore slots -/

theorem restoreAll_append (slots : Slots) (fs gs : List Frame) :
    restoreAll slots (fs ++ gs) = restoreAll (restoreAll slots fs) gs := by
  induction fs generalizing slots with
  | nil => rfl
  | cons f fs ih => cases f <;> exact ih _

theorem restoreAll_undoing (slots : Slots) (fs : List Frame) :
    restoreAll slots (undoing fs) = restoreAll slots fs := by
  induction fs generalizing slots with
  | nil => rfl
  | cons f fs ih => cases f <;> exact ih _

/-- Unwinding finds the first frame of a match within the match and keeps what
restores slots. -/
theorem unwind_append {fs : List Frame} (h : ∀ f ∈ fs, f.isSub = false) (op offset : ℕ)
    (reverse : Bool) (opts : Options) (rest : List Frame) :
    unwind (fs ++ .sub op offset reverse opts :: rest) =
      some ⟨undoing fs, op, offset, reverse, opts, rest⟩ := by
  induction fs with
  | nil => rfl
  | cons f fs ih =>
    have ih := ih fun g hg => h g (List.mem_cons_of_mem _ hg)
    cases f with
    | sub => exact absurd (h _ List.mem_cons_self) (by simp [Frame.isSub])
    | slot i old => simp [unwind, ih, undoing]
    | retry | alternate => simpa [unwind, undoing] using ih

/-- Falling back over frames that restore slots.  These offer nothing to go on
with, so the machine comes to what lies below them. -/
theorem within_undoing (fs : List Frame) {s : State} (hc : s.control = .fail)
    (hs : s.stack = undoing fs ++ base) :
    a.Within base s { s with stack := base, slots := s.slots.map (restoreAll · (undoing fs)) } := by
  induction fs generalizing s with
  | nil =>
    obtain rfl : s.stack = base := hs
    have hslots : s.slots.map (restoreAll · (undoing [])) = s.slots := Option.map_id'
    rw [hslots]
    exact .refl
  | cons f fs ih =>
    cases f with
    | slot i old =>
      have hstep : a.step s = .next
          { s with
            stack := undoing fs ++ base
            slots := s.slots.map (·.setIfInBounds i old) } := by
        simp [step, hc, back, hs, undoing]
      have hih := ih (s := { s with
        stack := undoing fs ++ base
        slots := s.slots.map (·.setIfInBounds i old) }) hc rfl
      refine (Within.single hstep (List.suffix_append _ _)).trans ?_
      simpa [Option.map_map, Function.comp_def, undoing, restoreAll] using hih
    | retry | alternate | sub => exact ih hc hs

/-- What is settled on top of frames that restore slots is settled on top of
those below them, once the slots count that these frames restore. -/
theorem Settles.below_undoing (fs : List Frame) (hw : a.Within base s s₁)
    (hsl : s₁.slots.map (restoreAll · (undoing fs)) = s.slots) (hd : s₁.depth = s.depth)
    (hm : s₁.mode = s.mode) (h : a.Settles (undoing fs ++ base) s₁ V' r) :
    a.Settles base s V' r := by
  have hsuffix : base <:+ undoing fs ++ base := List.suffix_append _ _
  cases r with
  | matched stop slots =>
    obtain ⟨s', gs, hw', hc, ho, hs, hd', hm', hV, hstack, hsub, hr, hend⟩ := h
    refine ⟨s', gs ++ undoing fs, hw.trans (hw'.mono hsuffix), hc, ho, hs, hd'.trans hd,
      hm'.trans hm, hV, by rw [hstack, List.append_assoc], ?_, ?_, fun h0 => hend (hd.trans h0)⟩
    · intro f hf
      rcases List.mem_append.mp hf with hf | hf
      · exact hsub f hf
      · exact isSub_of_mem_undoing hf
    · rw [← hsl, ← hr, Option.map_map]
      simp only [restoreAll_append, Function.comp_def]
  | failed =>
    obtain ⟨s', hw', hc, hstack, hs, hd', hm', hV⟩ := h
    refine ⟨_, (hw.trans (hw'.mono hsuffix)).trans (within_undoing fs hc hstack), hc, rfl, ?_,
      hd'.trans hd, hm'.trans hm, hV⟩
    rw [← hsl, ← hs]
  | refused e =>
    obtain ⟨s', s'', hw', hs⟩ := h
    exact ⟨s', s'', hw.trans (hw'.mono hsuffix), hs⟩

/-! ### Branches that are left -/

/-- Falling back to the branches that are left is going on with the first of
them. -/
theorem Pending.step {i : ℕ} {l : Link} {ls : List Link} {fs : List Frame}
    (h : a.Pending i (l :: ls) fs) (hc : s.control = .fail) (hs : s.stack = fs ++ base) :
    ∃ fs', a.Pending i ls fs' ∧
      a.step s = .next { s with control := .run l, offset := i, stack := fs' ++ base } := by
  cases h with
  | other hop h => exact ⟨[], .none, by simp [Attempt.step, hc, back, hs, hop, h]⟩
  | @alternates k n links _ _ hop h =>
    cases ls with
    | nil => exact ⟨[], .none, by simp [Attempt.step, hc, back, hs, hop, h]⟩
    | cons l' ls =>
      refine ⟨[.alternate k (n + 1) i], .alternates hop ?_, by
        simp [Attempt.step, hc, back, hs, hop, h]⟩
      have := congrArg (List.drop 1) h
      rwa [List.drop_drop] at this

/-- Frames for branches restore nothing. -/
theorem Pending.frames {i : ℕ} {ls : List Link} {fs : List Frame} (h : a.Pending i ls fs) :
    (∀ f ∈ fs, f.isSub = false) ∧ ∀ slots, restoreAll slots fs = slots := by
  cases h <;> simp [Frame.isSub, restoreAll]

/-! ### Single steps of an exploration -/

theorem Shows.of_visited (h : a.Shows s V) (hv : s₁.visited = s.visited) : a.Shows s₁ V := by
  intro id hid o ho
  rw [State.hasEntered, hv]
  exact h id hid o ho

/-- Every state shows some marks: those of the pairs of a closure and an offset
in the span that have been entered. -/
theorem exists_shows (s : State) : ∃ V, a.Shows s V := by
  refine ⟨(Finset.range a.program.closureLen ×ˢ Finset.Icc a.span.start a.span.stop).filter fun p =>
    s.hasEntered p.1 (p.2 - a.span.start) = true, fun id hid o ho => ?_⟩
  obtain ⟨hstart, hstop⟩ := ho
  simp [hid, hstart, hstop]

/-- Entering a closure adds its mark, at the offset of the state, and no other
one. -/
theorem Shows.markEntered (h : a.Shows s V) (hs : s.Valid a) {id : ℕ}
    (hid : id < a.program.closureLen) :
    a.Shows (a.markEntered s id) (insert (id, s.offset) V) := by
  intro id' hid' o ho
  have hoffset := hs.offset_mem
  have hsize := hs.visited_le
  unfold InSpan at ho hoffset
  rw [State.hasEntered_markEntered (by omega), Bool.or_eq_true, h id' hid' o ho,
    Finset.mem_insert, Prod.mk.injEq, or_comm, Bool.and_eq_true, decide_eq_true_iff,
    decide_eq_true_iff]
  refine or_congr_left (and_congr_right fun _ => ?_)
  omega

/-- Whether a closure was entered is told by the marks.  There is always an
answer, as the set for the closure is there. -/
theorem Running.entered? (h : a.Running s₀ s V) {id : ℕ} (hid : id < a.program.closureLen) :
    a.entered? s id = some (decide ((id, s.offset) ∈ V)) := by
  rw [h.valid.entered?_eq hid, Option.some_inj, Bool.eq_iff_iff, decide_eq_true_iff]
  exact h.shows_marks id hid s.offset h.valid.offset_mem

/-- An operation with a body of its own begins to run it, in the body's mode and
on a frame of its own. -/
theorem exec_body {k : ℕ} {op : Op} {child : Link} {m' : Mode}
    (hb : op.body? s.mode = some (child, m')) :
    a.exec k op s = enter k child m'.reverse m'.opts s := by
  cases op <;> simp [Op.body?] at hb <;> obtain ⟨rfl, rfl⟩ := hb <;> rfl

theorem isSub_of_body {op : Op} {m m' : Mode} {child : Link}
    (hb : op.body? m = some (child, m')) : op.isSub = true := by
  cases op <;> simp [Op.body?] at hb <;> rfl

/-! ### Exploring one link

In each of the following the states that are lighter than `s` are known to be explored. -/

section

variable (ih : ∀ s', s'.Lighter a s → a.Explored s₀ s') (h : a.Running s₀ s V)

/-- A state that takes its last choice back has settled that there is no match. -/
theorem settles_abandon (hV : a.Shows s V) (hstep : a.step s = .next s.abandon) :
    a.Settles s.stack s V .failed :=
  ⟨s.abandon, .single hstep (List.suffix_refl _), rfl, rfl, rfl, rfl, rfl, hV⟩

include h

theorem Running.lighter (hstep : a.step s = .next s₁) (hw : a.Within base s₁ s₂) :
    s₂.Lighter a s := by
  have h₁ := step_lighter h.valid hstep
  rcases hw.lighter (step_valid h.valid hstep) with rfl | h₂
  · exact h₁
  · exact h₂.trans h₁

/-- The end of the program, or of a match within the match.  The program may not
end before its span does if the whole span is to match. -/
theorem explores_end (hc : s.control = .run none) :
    ∃ V' r, Explores a (a.Visits s₀) (s.depth = 0) s.mode V [none] s.offset s.slots V' r ∧
      a.Settles s.stack s V' r := by
  by_cases hend : s.depth = 0 ∧ a.whole = true ∧ s.offset ≠ a.span.stop
  · obtain ⟨hd, hwhole, hoffset⟩ := hend
    refine ⟨V, .failed, ?_, settles_abandon h.shows_marks ?_⟩
    · simpa only [hd, decide_true] using Explores.short hwhole hoffset
    · simp [step, hc, accept_eq, hd, hwhole, hoffset]
  · have hend' : s.depth = 0 → a.whole = true → s.offset = a.span.stop := by
      intro hd hwhole
      by_contra hoffset
      exact hend ⟨hd, hwhole, hoffset⟩
    refine ⟨V, .matched s.offset s.slots, .accept (by simpa using hend'), s, [], .refl, hc, rfl,
      rfl, rfl, rfl, h.shows_marks, rfl, by simp, Option.map_id', hend'⟩

include ih

/-- A step that goes on with some links, after which nothing but the marks and
the offset has changed. -/
theorem explores_next {l : Link} {ls : List Link} {fs : List Frame}
    (hstep : a.step s = .next s₁) (hc : s₁.control = .run l) (hp : a.Pending s₁.offset ls fs)
    (hstack : s₁.stack = fs ++ s.stack) (hsl : s₁.slots = s.slots) (hd : s₁.depth = s.depth)
    (hm : s₁.mode = s.mode) (hV : a.Shows s₁ V₁) :
    ∃ V' r, Explores a (a.Visits s₀) (s.depth = 0) s.mode V₁ (l :: ls) s₁.offset s.slots V' r ∧
      a.Settles s.stack s V' r := by
  have hw : a.Within s.stack s s₁ := .single hstep ⟨fs, hstack.symm⟩
  obtain ⟨V', r, he, hr⟩ := ih s₁ (h.lighter hstep (.refl : a.Within [] _ _)) l ls fs s.stack V₁
    (h.within hw hV) hc hstack hp
  rw [hsl, hd, hm] at he
  exact ⟨V', r, he, hr.before hw hsl hd hm⟩

/-- Recording an end of a group.  With slots, the old value is put on the stack
first, and the frame stays if what follows matches. -/
theorem explores_record {k : ℕ} {group : ℕ} {edge : Edge} {next : Link}
    (hc : s.control = .run (some k)) (hop : a.program.ops[k]? = some (.mark group edge next)) :
    ∃ V' r, Explores a (a.Visits s₀) (s.depth = 0) s.mode V [next] s.offset
      (recordIn s.slots (edge.slot group) s.offset) V' r ∧ a.Settles s.stack s V' r := by
  have hstep : a.step s = .next ((s.record (edge.slot group)).goto next) := by
    simp [step, hc, hop, exec]
  rcases s.record_cases (edge.slot group) with ⟨hrec, hslots⟩ | ⟨old, hrec, hback⟩
  · rw [hrec] at hstep
    have hnext := explores_next ih h hstep rfl .none rfl rfl rfl rfl h.shows_marks
    rwa [hslots]
  · rw [hrec] at hstep
    have hw : a.Within s.stack s _ := .single hstep (List.suffix_cons _ _)
    obtain ⟨V', r, he, hr⟩ := ih _ (h.lighter hstep (.refl : a.Within [] _ _)) next [] [] _ V
      (h.within hw (h.shows_marks.of_visited rfl)) rfl rfl .none
    exact ⟨V', r, he, hr.below_undoing [.slot (edge.slot group) old] hw hback rfl rfl⟩

/-- Going on after a match within the match, on top of frames that it has left.
They only restore slots, which a later failure does. -/
theorem explores_rest {s' : State} {l : Link} {j : ℕ} {fs : List Frame}
    (hw : a.Within s.stack s s') (hlt : s'.Lighter a s) (hc : s'.control = .run l)
    (ho : s'.offset = j) (hstack : s'.stack = undoing fs ++ s.stack)
    (hsl : s'.slots.map (restoreAll · (undoing fs)) = s.slots) (hd : s'.depth = s.depth)
    (hm : s'.mode = s.mode) (hV : a.Shows s' V₁) :
    ∃ V' r, Explores a (a.Visits s₀) (s.depth = 0) s.mode V₁ [l] j s'.slots V' r ∧
      a.Settles s.stack s V' r := by
  obtain ⟨V', r, he, hr⟩ := ih s' hlt l [] [] s'.stack V₁ (h.within hw hV) hc rfl .none
  rw [hd, hm, ho] at he
  rw [hstack] at hr
  exact ⟨V', r, he, hr.below_undoing fs hw hsl hd hm⟩

/-- A match within the match.  The exploration of the body is settled first, and
its end decides where the operation goes on. -/
theorem explores_body {k : ℕ} {op : Op} {child : Link} {m' : Mode}
    (hc : s.control = .run (some k)) (hop : a.program.ops[k]? = some op)
    (hb : op.body? s.mode = some (child, m')) :
    ∃ V' r, Explores a (a.Visits s₀) (s.depth = 0) s.mode V [some k] s.offset s.slots V' r ∧
      a.Settles s.stack s V' r := by
  have hstep : a.step s = enter k child m'.reverse m'.opts s := by
    rw [← exec_body (a := a) hb]
    simp [step, hc, hop]
  have hvisit : a.Visits s₀ k s.mode s.offset V :=
    ⟨s, h.leads, hc, rfl, rfl, h.shows_marks⟩
  have hsuffix : s.stack <:+ .sub k s.offset s.reverse s.opts :: s.stack := List.suffix_cons _ _
  have hw : a.Within s.stack s _ := .single hstep hsuffix
  obtain ⟨V₁, r₁, he, hr⟩ := ih _ (h.lighter hstep (.refl : a.Within [] _ _)) child [] [] _ V
    (h.within hw (h.shows_marks.of_visited rfl)) rfl rfl .none
  replace he : Explores a (a.Visits s₀) false m' V [child] s.offset s.slots V₁ r₁ := he
  cases r₁ with
  -- The body has been matched: its choices are dropped, and what undoes its marks stays.
  | matched stop slots =>
    obtain ⟨s', fs, hw', hc', ho', hs', hd', hm', hV', hstack', hsub, hrestore, -⟩ := hr
    obtain ⟨res, hres⟩ := resume?_isSome (isSub_of_body hb) s.offset (some stop)
    have haccept : a.step s' = a.accept s' := by simp [step, hc']
    simp only [accept_eq, hd', hstack', unwind_append hsub, hop, Option.bind_some, ho', hres, hs']
      at haccept
    have hw₁ := (hw.trans (hw'.mono hsuffix))
    replace hrestore : slots.map (restoreAll · (undoing fs)) = s.slots := by
      simpa only [restoreAll_undoing] using hrestore
    cases res with
    | go j link =>
      have hw₂ := hw₁.trans (.single haccept (List.suffix_append _ _))
      obtain ⟨V', r, hrest, hr⟩ := explores_rest ih h hw₂
        (h.lighter hstep ((hw'.mono hsuffix).tail ⟨haccept, List.suffix_append _ _⟩)) rfl rfl rfl
        (by simpa only [hs'] using hrestore) rfl rfl (hV'.of_visited rfl)
      exact ⟨V', r, .resume hop hb hvisit he rfl hres (by simpa only [hs'] using hrest), hr⟩
    | abandon =>
      have hw₂ := hw₁.trans (.single haccept (List.suffix_refl _))
      exact ⟨V₁, .failed, .abandon hop hb hvisit he rfl hres, _, hw₂, rfl, rfl,
        by simpa only [hs'] using hrestore, rfl, rfl, hV'.of_visited rfl⟩
  -- The body has failed: the machine has come back to the frame with which it began.
  | failed =>
    obtain ⟨s', hw', hc', hstack', hs', hd', hm', hV'⟩ := hr
    obtain ⟨res, hres⟩ := resume?_isSome (isSub_of_body hb) s.offset none
    have hback : a.step s' = a.back s' := by simp [step, hc']
    simp only [back, hd', hstack', hop, Option.bind_some, hres] at hback
    have hw₁ := (hw.trans (hw'.mono hsuffix))
    cases res with
    | go j link =>
      have hw₂ := hw₁.trans (.single hback (List.suffix_refl _))
      have hnil : s'.slots.map (restoreAll · (undoing [])) = s.slots :=
        (Option.map_id' : s'.slots.map (·) = _).trans hs'
      obtain ⟨V', r, hrest, hr⟩ := explores_rest ih h hw₂
        (h.lighter hstep ((hw'.mono hsuffix).tail ⟨hback, List.suffix_refl _⟩)) rfl rfl rfl
        hnil rfl rfl (hV'.of_visited rfl)
      rw [State.moveTo, hs'] at hrest
      exact ⟨V', r, .resume hop hb hvisit he rfl hres hrest, hr⟩
    | abandon =>
      have hw₂ := hw₁.trans (.single hback (List.suffix_refl _))
      exact ⟨V₁, .failed, .abandon hop hb hvisit he rfl hres, _, hw₂, rfl, rfl, hs', rfl, rfl,
        hV'.of_visited rfl⟩
  | refused e =>
    obtain ⟨s', s'', hw', hs'⟩ := hr
    exact ⟨V₁, .refused e, .refuse hop hb hvisit he, s', s'',
      hw.trans (hw'.mono hsuffix), hs'⟩

/-- Every operation is explored by the step that runs it and by what comes
after. -/
theorem explores_link {l : Link} (hc : s.control = .run l) :
    ∃ V' r, Explores a (a.Visits s₀) (s.depth = 0) s.mode V [l] s.offset s.slots V' r ∧
      a.Settles s.stack s V' r := by
  -- The step at the link is known, and from where it leads the machine explores by hypothesis.
  cases l with
  | none => exact explores_end h hc
  | some k =>
    have hk := h.valid.lt_size hc
    obtain ⟨op, hop⟩ : ∃ op, a.program.ops[k]? = some op := ⟨_, Array.getElem?_eq_getElem hk⟩
    have hexec : a.step s = a.exec k op s := by simp [step, hc, hop]
    cases op with
    | atom atom next =>
      cases hread : a.read atom s.opts s.reverse s.offset s.slots with
      | error e =>
        simp only [exec, hread] at hexec
        exact ⟨V, .refused e, .unreadable hop hread, s, s, .refl, hexec⟩
      | ok stop =>
        cases stop with
        | none =>
          simp only [exec, hread] at hexec
          exact ⟨V, .failed, .unread hop hread, settles_abandon h.shows_marks hexec⟩
        | some j =>
          simp only [exec, hread] at hexec
          obtain ⟨V', r, he, hr⟩ := explores_next ih h hexec rfl .none rfl rfl rfl rfl
            (h.shows_marks.of_visited rfl)
          exact ⟨V', r, .read hop hread he, hr⟩
    | union links =>
      cases links with
      | nil => exact ⟨V, .failed, .choose hop rfl .nil, settles_abandon h.shows_marks hexec⟩
      | cons l ls =>
        cases ls with
        | nil =>
          obtain ⟨V', r, he, hr⟩ := explores_next ih h hexec rfl .none rfl rfl rfl rfl
            (h.shows_marks.of_visited rfl)
          exact ⟨V', r, .choose hop rfl he, hr⟩
        | cons l' ls =>
          obtain ⟨V', r, he, hr⟩ := explores_next ih h hexec rfl (.alternates hop rfl) rfl rfl rfl
            rfl (h.shows_marks.of_visited rfl)
          exact ⟨V', r, .choose hop rfl he, hr⟩
    | closure id child greedy next =>
      have hid := (a.program.linked k _ hop).1
      simp only [exec, h.entered? hid] at hexec
      by_cases hV : (id, s.offset) ∈ V
      · simp only [hV, decide_true] at hexec
        exact ⟨V, .failed, .reenter hop hV, settles_abandon h.shows_marks hexec⟩
      · simp only [hV, decide_false] at hexec
        have hV' := h.shows_marks.markEntered h.valid hid
        cases greedy with
        | true =>
          obtain ⟨V', r, he, hr⟩ := explores_next ih h hexec rfl (.other hop rfl) rfl rfl rfl rfl
            (hV'.of_visited rfl)
          exact ⟨V', r, .enter hop hV he, hr⟩
        | false =>
          obtain ⟨V', r, he, hr⟩ := explores_next ih h hexec rfl (.other hop rfl) rfl rfl rfl rfl
            (hV'.of_visited rfl)
          exact ⟨V', r, .enter hop hV he, hr⟩
    | question child greedy next =>
      cases greedy with
      | true =>
        obtain ⟨V', r, he, hr⟩ := explores_next ih h hexec rfl (.other hop rfl) rfl rfl rfl rfl
          (h.shows_marks.of_visited rfl)
        exact ⟨V', r, .choose hop rfl he, hr⟩
      | false =>
        obtain ⟨V', r, he, hr⟩ := explores_next ih h hexec rfl (.other hop rfl) rfl rfl rfl rfl
          (h.shows_marks.of_visited rfl)
        exact ⟨V', r, .choose hop rfl he, hr⟩
    | mark group edge next =>
      obtain ⟨V', r, he, hr⟩ := explores_record ih h hc hop
      exact ⟨V', r, .mark hop he, hr⟩
    | look kind child next => exact explores_body ih h hc hop rfl
    | independent child next => exact explores_body ih h hc hop rfl
    | modifier add remove child next => exact explores_body ih h hc hop rfl
    | ifLook test yes no => exact explores_body ih h hc hop rfl
    | ifGroup group yes no =>
      cases hg : capturedSpan s.slots group with
      | error e =>
        simp only [exec, hg] at hexec
        exact ⟨V, .refused e, .untestable hop hg, s, s, .refl, hexec⟩
      | ok captured =>
        have hexec' : a.step s = .next (s.goto (if captured.isSome then yes else no)) := by
          simp only [exec, hg] at hexec
          cases captured <;> exact hexec
        obtain ⟨V', r, he, hr⟩ := explores_next ih h hexec' rfl .none rfl rfl rfl rfl
          (h.shows_marks.of_visited rfl)
        exact ⟨V', r, .test hop hg he, hr⟩
    | fail => exact ⟨V, .failed, .fail hop, settles_abandon h.shows_marks hexec⟩

/-- When one link has failed, the machine goes on with the branches that are
left. -/
theorem explores_links {l : Link} {ls : List Link} {fs : List Frame} (hc : s.control = .run l)
    (hstack : s.stack = fs ++ base) (hp : a.Pending s.offset ls fs) :
    ∃ V' r, Explores a (a.Visits s₀) (s.depth = 0) s.mode V (l :: ls) s.offset s.slots V' r ∧
      a.Settles base s V' r := by
  obtain ⟨V₁, r₁, he, hr⟩ := explores_link ih h hc
  rw [hstack] at hr
  cases ls with
  | nil =>
    cases hp
    exact ⟨V₁, r₁, he, hr⟩
  | cons l' ls =>
    have hsuffix : base <:+ fs ++ base := List.suffix_append _ _
    obtain ⟨hsub, hrestore⟩ := hp.frames
    cases r₁ with
    | matched stop slots =>
      obtain ⟨s', gs, hw, hc', ho, hs, hd, hm, hV, hstack', hsub', hr, hend⟩ := hr
      refine ⟨V₁, _, .first he (by simp), s', gs ++ fs, hw.mono hsuffix, hc', ho, hs, hd, hm, hV,
        by rw [hstack', List.append_assoc], ?_, ?_, hend⟩
      · intro f hf
        rcases List.mem_append.mp hf with hf | hf
        · exact hsub' f hf
        · exact hsub f hf
      · simpa only [restoreAll_append, hrestore] using hr
    | refused e =>
      obtain ⟨s', s'', hw, hs⟩ := hr
      exact ⟨V₁, _, .first he (by simp), s', s'', hw.mono hsuffix, hs⟩
    | failed =>
      obtain ⟨s', hw, hc', hstack', hs, hd, hm, hV⟩ := hr
      obtain ⟨fs', hp', hstep⟩ := hp.step hc' hstack'
      have hw' : a.Within base s' _ := .single hstep (List.suffix_append _ _)
      have hlt := Within.lighter_of_step hw h.valid hstep
      have hbase := (hw.mono hsuffix).trans hw'
      have hrun := h.within hbase (hV.of_visited rfl)
      obtain ⟨V', r, hrest, hr⟩ := ih _ hlt l' ls fs' base V₁ hrun rfl rfl hp'
      replace hrest : Explores a (a.Visits s₀) (s'.depth = 0) s'.mode V₁ (l' :: ls) s.offset
        s'.slots V' r := hrest
      rw [hd, hm, hs] at hrest
      exact ⟨V', r, .later he hrest, hr.before hbase hs hd hm⟩

end

/-- From any state of a run the machine explores, and it settles what it has
found. -/
theorem explored (s₀ s : State) : a.Explored s₀ s := by
  induction s using (State.lighter_wf a).induction with
  | _ s ih =>
    intro l ls fs base V h hc hstack hp
    exact explores_links ih h hc hstack hp

/-! ### Attempts -/

theorem loop_eq_of_step (h : s.Valid a) (hs : a.step s = .next s₁) :
    a.loop s h = a.loop s₁ (step_valid h hs) := by
  rw [loop]
  split
  next heq =>
    cases hs.symm.trans heq
    rfl
  next heq => cases hs.symm.trans heq
  next heq => cases hs.symm.trans heq

theorem loop_eq_of_within (hw : a.Within base s s₁) (h : s.Valid a) :
    a.loop s h = a.loop s₁ (hw.valid h) := by
  induction hw with
  | refl => rfl
  | tail hw hstep ih => exact ih.trans (loop_eq_of_step _ hstep.1)

theorem loop_eq_of_halt {answer : Except MatchError (Option ℕ)} (h : s.Valid a)
    (hs : a.step s = .halt answer s₁) : a.loop s h = (answer, s₁) := by
  rw [loop]
  split
  next heq => cases hs.symm.trans heq
  next heq =>
    cases hs.symm.trans heq
    rfl
  next heq => cases hs.symm.trans heq

/-- Slots with none of them set, as many as there were.  An attempt begins with
these. -/
def fresh (slots : Option Slots) : Option Slots := slots.map fun slots => .replicate slots.size none

/-- Whether an attempt has an answer that fits what was found, where an attempt
without a match leaves the slots as they were at its start. -/
def Reports (slots : Option Slots) (result : AttemptResult) : Discovery → Prop
  | .matched stop slots' => result.answer = .ok (some stop) ∧ result.slots = slots'
  | .failed => result.answer = .ok none ∧ result.slots = slots
  | .refused e => result.answer = .error e

/-- An attempt answers where its exploration ends.  An attempt that is refused
gives no answer. -/
theorem Reports.answer_iff {slots : Option Slots} {result : AttemptResult} {stop : Option ℕ}
    (h : Reports slots result r) : result.answer = .ok stop ↔ r.stop? = some stop := by
  cases r with
  | matched e sl =>
    rw [h.1]
    simp [Discovery.stop?]
  | failed =>
    rw [h.1]
    simp [Discovery.stop?]
  | refused e =>
    rw [show result.answer = .error e from h]
    simp [Discovery.stop?]

/-- An attempt begins in a state that has entered no closure, whatever the cache
holds. -/
theorem hasEntered_start (cache : Cache) (opts : Options) (slots : Option Slots) (offset id d : ℕ) :
    (a.start cache opts slots offset).hasEntered id d = false := by
  simp only [State.hasEntered, start, Cache.reset, Array.getElem?_map, Option.map_map]
  cases (cache.visited ++ _)[id]? <;> simp

theorem start_running {cache : Cache} {opts : Options} {slots : Option Slots} {offset : ℕ}
    (ho : a.InSpan offset) :
    a.Running (a.start cache opts slots offset) (a.start cache opts slots offset) ∅ where
  valid := start_valid ho
  leads := .refl
  shows_marks id _ o _ := by simp [hasEntered_start]

/-- An attempt explores its program from the start, and it reports what it has
found. -/
theorem explores_run (cache : Cache) (opts : Options) (slots : Option Slots) {offset : ℕ}
    (ho : a.InSpan offset) :
    ∃ V' r, Explores a (a.Visits (a.start cache opts slots offset)) true ⟨false, opts⟩ ∅
        [a.program.start] offset (fresh slots) V' r ∧
      Reports (fresh slots) (a.run cache opts slots offset) r := by
  have hvalid : (a.start cache opts slots offset).Valid a := start_valid ho
  obtain ⟨V', r, he, hr⟩ := explored (a := a) (a.start cache opts slots offset)
    (a.start cache opts slots offset) a.program.start [] [] [] ∅ (start_running ho) rfl rfl .none
  refine ⟨V', r, he, ?_⟩
  rw [run, dif_pos ho]
  cases r with
  | matched stop slots' =>
    obtain ⟨s', fs, hw, hc, rfl, rfl, hd, -, -, -, -, -, hend⟩ := hr
    have hstep : a.step s' = .halt (.ok (some s'.offset)) s' := by
      have hend := hend rfl
      simp only [step, hc, accept_eq, hd, start]
      rw [if_neg]
      simpa using hend
    rw [loop_eq_of_within hw hvalid, loop_eq_of_halt _ hstep]
    exact ⟨rfl, rfl⟩
  | failed =>
    obtain ⟨s', hw, hc, hstack, hs, -⟩ := hr
    have hstep : a.step s' = .halt (.ok none) s' := by simp [step, hc, back, hstack]
    rw [loop_eq_of_within hw hvalid, loop_eq_of_halt _ hstep]
    exact ⟨rfl, hs⟩
  | refused e =>
    obtain ⟨s', s'', hw, hstep⟩ := hr
    rw [loop_eq_of_within hw hvalid, loop_eq_of_halt _ hstep]
    exact rfl

end Attempt

end Regexp
