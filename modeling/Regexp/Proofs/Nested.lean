import Regexp.Proofs.Simulation

/-!
# Matches within the match

What a machine does from the step that begins a match within the match to the
one that ends it.

Statements about lookarounds and groups are about single matches within the
match: about the one that the machine begins at a certain state of its run.  An
exploration has no states, and what it says of a body is said of all states that
explore the body in the same way.  This module goes between the two.
`Attempt.explores_of_begin` gives the exploration of the body at a state, with
the marks of that state, and `Attempt.Closes` is the end of the match as it can
be seen in the run: a state at which the frame of the match is about to be taken
from the stack, for the first time.

That there is one such end, `Attempt.Settles.stop_unique`, needs that a run does
not branch and that it cannot pass by the end unnoticed.  The frame of the match
does not come back once it is gone (`Attempt.not_step_of_end`,
`Attempt.not_step_of_failure`), so two states at which it is about to be taken
are the same state.

The last part is about direction.  A machine turns round at a lookbehind only,
so in a program without lookarounds it walks forward all the time, also after it
has fallen back (`State.IsForward`).

## Main definitions

* `State.EndsAt` — a state at which what the machine has begun has come to an
  end.
* `Attempt.Closes` — how a match within the match ends that the machine begins
  at a state.
* `State.IsForward` — a machine that walks forward, whatever it goes back to.

## Main statements

* `Attempt.explores_of_begin` — a match within the match is explored from the
  marks at its state.
* `Attempt.closes_iff` — how it ends is told by its exploration.
* `Attempt.Settles.stop_unique` — it has one end.
* `Attempt.Within.isForward` — a machine without lookarounds walks forward.
-/

namespace Regexp

variable {a : Attempt} {V V₁ V₂ : Marks} {r r' : Discovery} {s s' s₀ s₁ : State} {k : ℕ} {op : Op}
  {child : Link} {m' : Mode} {stop stop' : Option ℕ}

namespace Attempt

/-! ### The beginning -/

/-- A match within the match that the machine begins is explored from the marks
at its state, and it is settled above its frame. -/
theorem explores_of_begin (hs : s.Valid a) (hw : a.Within [] s₀ s) (hV : a.Shows s V)
    (hc : s.control = .run (some k)) (hop : a.program.ops[k]? = some op)
    (hb : op.body? s.mode = some (child, m')) :
    ∃ s₁ V₁ r₁, a.step s = .next s₁ ∧ s₁.depth ≠ 0 ∧
      s₁.stack = .sub k s.offset s.reverse s.opts :: s.stack ∧
      Explores a (a.Visits s₀) false m' V [child] s.offset s.slots V₁ r₁ ∧
      a.Settles s₁.stack s₁ V₁ r₁ := by
  have hstep : a.step s = enter k child m'.reverse m'.opts s := by
    rw [← exec_body (a := a) hb]
    simp [step, hc, hop]
  have hrun : a.Running s₀ s V := ⟨hs, hw, hV⟩
  have hsuffix : s.stack <:+ .sub k s.offset s.reverse s.opts :: s.stack := List.suffix_cons _ _
  obtain ⟨V₁, r₁, he, hr⟩ := explored s₀ _ child [] [] _ V
    (hrun.within (.single hstep hsuffix) (hV.of_visited rfl)) rfl rfl .none
  exact ⟨_, V₁, r₁, hstep, Nat.succ_ne_zero _, rfl, he, hr⟩

/-! ### The end -/

/-- The frames that are kept tell nothing about where a machine goes. -/
theorem rightUnique_step (base : List Frame) :
    Relator.RightUnique fun s s' => a.step s = .next s' ∧ base <:+ s'.stack := by
  intro s s₁ s₂ h₁ h₂
  cases h₁.1.symm.trans h₂.1
  rfl

/-- A frame of a match within the match does not lie among frames that restore
slots. -/
theorem not_suffix_undoing {i offset : ℕ} {reverse : Bool} {opts : Options} {rest fs : List Frame} :
    ¬ .sub i offset reverse opts :: rest <:+ undoing fs ++ rest := by
  rintro ⟨gs, h⟩
  rw [List.append_cons] at h
  have hmem : .sub i offset reverse opts ∈ undoing fs := by
    rw [← List.append_cancel_right h]
    simp
  have := isSub_of_mem_undoing hmem
  simp [Frame.isSub] at this

end Attempt

/-- Whether a state is one at which what a machine has begun has come to an end:
at the end of the program with an offset, or failing. -/
def State.EndsAt (s : State) : Option ℕ → Prop
  | some stop => s.control = .run none ∧ s.offset = stop
  | none => s.control = .fail

theorem State.EndsAt.unique (h : s.EndsAt stop) (h' : s.EndsAt stop') : stop = stop' := by
  cases stop with
  | some j =>
    cases stop' with
    | some j' => rw [← h.2, ← h'.2]
    | none => cases h.1.symm.trans h'
  | none =>
    cases stop' with
    | some j' => cases Eq.trans (Eq.symm h) h'.1
    | none => rfl

namespace Attempt

section

variable {i offset : ℕ} {reverse : Bool} {opts : Options} {rest : List Frame}

/-- The step at the end of a match within the match takes its frame from the
stack. -/
theorem not_step_of_end {fs : List Frame} (hc : s.control = .run none) (hd : s.depth ≠ 0)
    (hstack : s.stack = fs ++ .sub i offset reverse opts :: rest)
    (hsub : ∀ f ∈ fs, f.isSub = false) :
    ¬ (a.step s = .next s' ∧ .sub i offset reverse opts :: rest <:+ s'.stack) := by
  rintro ⟨hstep, hsuffix⟩
  obtain ⟨depth, hdepth⟩ := Nat.exists_eq_succ_of_ne_zero hd
  simp only [step, hc, accept_eq, hdepth, hstack, unwind_append hsub] at hstep
  split at hstep
  · cases hstep
  · cases hstep
    exact not_suffix_undoing hsuffix
  · cases hstep
    have := hsuffix.length_le
    simp only [List.length_cons] at this
    omega

/-- The step at the failure of a match within the match takes its frame from the
stack. -/
theorem not_step_of_failure (hc : s.control = .fail)
    (hstack : s.stack = .sub i offset reverse opts :: rest) :
    ¬ (a.step s = .next s' ∧ .sub i offset reverse opts :: rest <:+ s'.stack) := by
  rintro ⟨hstep, hsuffix⟩
  have hlt : s'.stack.length < (Frame.sub i offset reverse opts :: rest).length := by
    simp only [step, hc, back, hstack] at hstep
    split at hstep
    · cases hstep
    · split at hstep
      · cases hstep
      · cases hstep
        simp [State.moveTo]
      · cases hstep
        simp [State.abandon]
  have := hsuffix.length_le
  omega

/-- A match within the match goes on to its end and no further. -/
theorem Settles.exists_end (hd : s.depth ≠ 0)
    (h : a.Settles (.sub i offset reverse opts :: rest) s V r) (hr : r.stop? = some stop) :
    ∃ s', a.Within (.sub i offset reverse opts :: rest) s s' ∧ s'.EndsAt stop ∧
      ∀ s'', ¬ (a.step s' = .next s'' ∧ .sub i offset reverse opts :: rest <:+ s''.stack) := by
  cases r with
  | matched j sl =>
    cases hr
    obtain ⟨s', fs, hw, hc, hoffset, -, hdepth, -, -, hstack, hsub, -⟩ := h
    exact ⟨s', hw, ⟨hc, hoffset⟩, fun _ => not_step_of_end hc (hdepth ▸ hd) hstack hsub⟩
  | failed =>
    cases hr
    obtain ⟨s', hw, hc, hstack, -⟩ := h
    exact ⟨s', hw, hc, fun _ => not_step_of_failure hc hstack⟩
  | refused => cases hr

/-- **A match within the match has one end.**  The machine takes the same steps
until the frame for the match is on top, in whichever way its end is described. -/
theorem Settles.stop_unique (hd : s.depth ≠ 0)
    (h : a.Settles (.sub i offset reverse opts :: rest) s V₁ r)
    (h' : a.Settles (.sub i offset reverse opts :: rest) s V₂ r') (hr : r.stop? = some stop)
    (hr' : r'.stop? = some stop') : stop = stop' := by
  obtain ⟨s₁, hw, hend, hlast⟩ := h.exists_end hd hr
  obtain ⟨s₂, hw', hend', hlast'⟩ := h'.exists_end hd hr'
  have heq : s₁ = s₂ := by
    -- One of the two runs continues the other, and neither goes on where it has ended.
    rcases Relation.ReflTransGen.total_of_right_unique (rightUnique_step _) hw hw' with h | h
    · rcases Relation.ReflTransGen.cases_head h with heq | ⟨s₃, hstep, -⟩
      · exact heq
      · exact absurd hstep (hlast s₃)
    · rcases Relation.ReflTransGen.cases_head h with heq | ⟨s₃, hstep, -⟩
      · exact heq.symm
      · exact absurd hstep (hlast' s₃)
  subst heq
  exact hend.unique hend'

end

variable (a) in
/-- Whether a match within the match that the machine begins at a state ends at
an offset, or without a match, before the frame for it is taken from the stack. -/
def Closes (s : State) (stop : Option ℕ) : Prop :=
  ∃ s₁ V r, a.step s = .next s₁ ∧ a.Settles s₁.stack s₁ V r ∧ r.stop? = some stop

/-- How a match within the match ends is told by its exploration. -/
theorem closes_iff {i offset : ℕ} {reverse : Bool} {opts : Options} {rest : List Frame}
    (hstep : a.step s = .next s₁) (hd : s₁.depth ≠ 0)
    (hstack : s₁.stack = .sub i offset reverse opts :: rest)
    (h : a.Settles s₁.stack s₁ V r) (hr : r.stop? = some stop) :
    a.Closes s stop' ↔ stop' = stop := by
  constructor
  · rintro ⟨s₂, V₂, r', hstep', h', hr'⟩
    cases hstep.symm.trans hstep'
    rw [hstack] at h h'
    exact h'.stop_unique hd h hr' hr
  · rintro rfl
    exact ⟨s₁, V, r, hstep, h, hr⟩

end Attempt

/-! ### The direction of the walk -/

/-- Whether a machine walks forward, and so does whatever it goes back to. -/
structure State.IsForward (s : State) : Prop where
  reverse : s.reverse = false
  frames : ∀ k i reverse opts, .sub k i reverse opts ∈ s.stack → reverse = false

namespace State.IsForward

/-- A step after which there are no more matches within the match. -/
theorem goOn (h : s.IsForward) (hr : s'.reverse = s.reverse)
    (hstack : ∀ k i reverse opts, .sub k i reverse opts ∈ s'.stack →
      .sub k i reverse opts ∈ s.stack) : s'.IsForward :=
  ⟨hr.trans h.reverse, fun k i reverse opts hf => h.frames k i reverse opts (hstack _ _ _ _ hf)⟩

/-- A step that leaves a frame, but not that of a match within the match. -/
theorem goOn_cons {f : Frame} (h : s.IsForward) (hr : s'.reverse = s.reverse)
    (hstack : s'.stack = f :: s.stack) (hf : f.isSub = false) : s'.IsForward :=
  h.goOn hr fun k i reverse opts hmem => by
    rw [hstack] at hmem
    rcases List.mem_cons.mp hmem with rfl | hmem
    · cases hf
    · exact hmem

/-- A step keeps to the direction if the program has no lookarounds. -/
theorem step (hops : ∀ (k : ℕ) (kind : LookKind) (child next : Link),
      a.program.ops[k]? ≠ some (.look kind child next))
    (h : s.IsForward) (hstep : a.step s = .next s') : s'.IsForward := by
  have hframes := h.frames
  cases Attempt.transition_of_step hstep with
  | abandon | read | test | only => exact h.goOn rfl fun _ _ _ _ => id
  | choose | decide | enter => exact h.goOn_cons rfl rfl rfl
  | @mark _ group edge next =>
    rcases s.record_cases (edge.slot group) with ⟨hrec, -⟩ | ⟨old, hrec, -⟩
    · rw [hrec]
      exact h.goOn rfl fun _ _ _ _ => id
    · rw [hrec]
      exact h.goOn_cons rfl rfl rfl
  | @begin k op child m hc hop hb =>
    refine ⟨?_, fun k i reverse opts hf => ?_⟩
    · rw [← h.reverse]
      exact Op.reverse_of_body hb fun kind child next heq => hops k kind child next (heq ▸ hop)
    · rcases List.mem_cons.mp hf with hf | hf
      · cases hf
        exact h.reverse
      · exact hframes k i reverse opts hf
  | resume hd hu =>
    obtain ⟨hmem, hrest, hkept, -⟩ := Attempt.unwind_some hu
    refine ⟨hframes _ _ _ _ hmem, fun k i reverse opts hf => ?_⟩
    rcases List.mem_append.mp hf with hf | hf
    · cases (hkept _ hf).2
    · exact hframes k i reverse opts (hrest _ hf)
  | reject hd hu =>
    obtain ⟨hmem, hrest, -⟩ := Attempt.unwind_some hu
    exact ⟨hframes _ _ _ _ hmem, fun k i reverse opts hf => hframes k i reverse opts (hrest _ hf)⟩
  | restore hc hstack | retry hc hstack =>
    exact h.goOn rfl fun _ _ _ _ hf => hstack ▸ List.mem_cons_of_mem _ hf
  | @alternate _ _ _ rest _ _ ls hc hstack =>
    refine h.goOn rfl fun _ _ _ _ hf => hstack ▸ List.mem_cons_of_mem _ ?_
    by_cases hls : ls = []
    · simpa [State.moveTo, hls] using hf
    · simpa [State.moveTo, hls] using hf
  | pass hc hstack | fail hc hstack =>
    rw [hstack] at hframes
    exact ⟨hframes _ _ _ _ List.mem_cons_self, fun k i reverse opts hf =>
      hframes k i reverse opts (List.mem_cons_of_mem _ hf)⟩

end State.IsForward

/-- A machine without lookarounds walks forward. -/
theorem Attempt.Within.isForward {base : List Frame}
    (hops : ∀ (k : ℕ) (kind : LookKind) (child next : Link),
      a.program.ops[k]? ≠ some (.look kind child next))
    (hw : a.Within base s s') (h : s.IsForward) : s'.IsForward := by
  induction hw with
  | refl => exact h
  | tail _ hstep ih => exact ih.step hops hstep.1

end Regexp
