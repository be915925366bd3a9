import Regexp.Proofs.Course

/-!
# What falling back restores

A machine that falls back to a frame goes on as it was when it put the frame on
its stack: with the slots, the options, the direction and the depth that it had
then.  It does so whatever has come in between, because a match within the match
leaves behind the frames that restore what it recorded, and one that must not
match restores the slots itself.

## Which step, and which state

`Attempt.FallsBack` singles out the steps of which this is said: those that take
a frame from the stack that offers another way, directly or from within a match
that should not have matched.  In either case `Attempt.FallsBack.exists_above`
gives the frames that lay on top of it, and says that the slots are those that
these frames restore.

The frame of a union is put back with one alternate less each time the machine
falls back to it, so there are two states to compare with: the last one without
the very frame, and the one at which the machine had to decide.  Both are read
off the history with `dropWhile`, by the height of their stacks, so that the
statement names them and does not merely say that there are some.  That the
first of them has put the frame there is `Attempt.History.exists_layer`; that
what lay on top of the frame restores its slots is known from the frames that a
run recalls (`Attempt.History.recalls`).

## Main definitions

* `State.AgreesWith` — states with the same slots, options, direction and depth.
* `Attempt.FallsBack` — a step takes a frame from the stack that offers another
  way.

## Main statements

* `Attempt.FallsBack.exists_above` — what such a step does to the slots and the
  mode.
* `Attempt.History.exists_layer` — the state that has put a frame on the stack.
* `Attempt.Lays.exists_decision` — the state at which the machine had to decide
  agrees with it.
* `Attempt.History.restores` — falling back restores that state.
-/

namespace Regexp

/-- Whether two states have the same slots, options, direction and depth.  Their
offsets may differ, as an alternative is tried from the offset of its frame, and
so may their marks, which are never taken back. -/
structure State.AgreesWith (s q : State) : Prop where
  slots : s.slots = q.slots
  opts : s.opts = q.opts
  reverse : s.reverse = q.reverse
  depth : s.depth = q.depth

theorem State.AgreesWith.trans_symm {s q p : State} (h : s.AgreesWith p) (h' : q.AgreesWith p) :
    s.AgreesWith q :=
  ⟨h.slots.trans h'.slots.symm, h.opts.trans h'.opts.symm, h.reverse.trans h'.reverse.symm,
    h.depth.trans h'.depth.symm⟩

namespace Attempt

variable {a : Attempt} {s s' s₀ p q : State} {ss history : List State} {base rest T : List Frame}
  {f g : Frame} {k i : ℕ}

/-! ### Steps that fall back -/

/-- Whether a step falls back to a frame that offers another way, with others
below it: it takes the frame from the top of the stack, or it comes from a match
within the match that should not have matched.  In the second case the frame
lies under those of the match, which are undone in the same step. -/
inductive FallsBack (s s' : State) (f : Frame) (rest : List Frame) : Prop
  | choice (hc : s.control = .fail) (hstack : s.stack = f :: rest) (hf : f.choice? ≠ none)
  | undone {fs : List Frame} (hc : s.control = .run none) (hc' : s'.control = .fail)
    (hstack : s.stack = fs ++ f :: rest) (hfs : ∀ g ∈ fs, g.isSub = false) (hf : f.isSub = true)

theorem FallsBack.exists_choice (h : FallsBack s s' f rest) :
    ∃ k i, f.choice? = some (k, i) := by
  cases h with
  | choice _ _ hf =>
    obtain ⟨c, hc⟩ := Option.ne_none_iff_exists'.mp hf
    exact ⟨c.1, c.2, hc⟩
  | undone _ _ _ _ hf =>
    cases f with
    | sub k i => exact ⟨k, i, rfl⟩
    | _ => cases hf

/-- The mode after falling back: that of the frame, if it marks a match within
the match, and no other mode if it does not. -/
def ModeAfter (s s' : State) (f : Frame) (rest : List Frame) : Prop :=
  (s.levels = rest.filterMap Frame.level? ∧ s'.mode = s.mode) ∨
    ∃ level, f.level? = some level ∧ s.levels = level :: rest.filterMap Frame.level? ∧
      s'.mode = level.mode

/-- **Falling back restores the slots** from all that lay on top of the frame,
and it leaves the match within the match that the frame marks.  If the frame was
on top there is nothing to restore; otherwise what lay above it has been lifted
and put back on the way, `unwind`. -/
theorem FallsBack.exists_above (hs : s.Valid a) (hstep : a.step s = .next s')
    (h : FallsBack s s' f rest) : ∃ fs, s.stack = fs ++ f :: rest ∧
      s'.slots = s.slots.map (restoreAll · fs) ∧ ModeAfter s s' f rest ∧
        s'.stack.countP Frame.isSub = rest.countP Frame.isSub := by
  cases h with
  | choice hc hstack hf =>
    refine ⟨[], hstack, ?_⟩
    have hid : s.slots = s.slots.map (restoreAll · []) := Option.map_id'.symm
    have hlevels : f.level? = none → s.levels = rest.filterMap Frame.level? := by
      intro hnone
      rw [State.levels, hstack, List.filterMap_cons_none hnone]
    have hlevels' : ∀ level, f.level? = some level →
        s.levels = level :: rest.filterMap Frame.level? := by
      intro level hsome
      rw [State.levels, hstack, List.filterMap_cons_some hsome]
    cases transition_of_step hstep with
    | abandon hc' | read hc' | test hc' | mark hc' | only hc' | choose hc' | decide hc' | enter hc'
    | begin hc' => cases hc.symm.trans hc'
    | resume _ _ _ _ hc' | reject _ _ _ _ hc' => cases hc.symm.trans hc'
    | restore _ hstack' =>
      cases hstack.symm.trans hstack'
      exact absurd rfl hf
    | retry _ hstack' =>
      cases hstack.symm.trans hstack'
      exact ⟨hid, .inl ⟨hlevels rfl, rfl⟩, rfl⟩
    | @alternate k n i _ links l ls _ hstack' =>
      cases hstack.symm.trans hstack'
      refine ⟨hid, .inl ⟨hlevels rfl, rfl⟩, ?_⟩
      show (if ls = [] then rest else Frame.alternate k (n + 1) i :: rest).countP _ = _
      split
      · rfl
      · exact List.countP_cons_of_neg Bool.false_ne_true
    | pass _ hstack' | fail _ hstack' =>
      cases hstack.symm.trans hstack'
      exact ⟨hid, .inr ⟨_, rfl, hlevels' _ rfl, rfl⟩, rfl⟩
  | @undone fs hc hc' hstack hfs hf =>
    refine ⟨fs, hstack, ?_⟩
    cases f with
    | sub k i reverse opts =>
      have hunwind := unwind_append hfs k i reverse opts rest
      rw [← hstack] at hunwind
      have haccept : a.accept s = .next s' := by
        rw [step, hc] at hstep
        exact hstep
      have hdepth := hs.depth_eq
      rw [hstack, List.countP_append, countP_isSub_sub] at hdepth
      rw [accept_eq] at haccept
      split at haccept
      · omega
      · rw [hunwind] at haccept
        dsimp only at haccept
        split at haccept
        · cases haccept
        · cases haccept
          cases hc'
        · cases haccept
          refine ⟨?_, .inr ⟨_, rfl, levels_append_sub fs hfs hstack, rfl⟩, rfl⟩
          exact congrArg (Option.map · s.slots)
            (funext fun slots => restoreAll_undoing slots fs)
    | _ => cases hf

/-! ### Where frames come from -/

/-- Whether a step from a state puts a frame on others: the machine comes to
decide, or it puts back the frame of a union with one alternate less.  In the
second case the decision was made earlier, by the state that put the first frame
of the union there. -/
inductive Lays (q : State) (f : Frame) (base : List Frame) : Prop
  | decides {k i : ℕ} (hf : f.choice? = some (k, i)) (hc : q.control = .run (some k))
    (ho : q.offset = i) (hstack : q.stack = base)
  | relays {k n i : ℕ} (hf : f = .alternate k (n + 1) i) (hc : q.control = .fail)
    (hstack : q.stack = .alternate k n i :: base)

/-- A frame that a step has put on the stack was put there first or was put
back. -/
theorem lays_of_push (hpush : s'.stack = g :: s.stack)
    (hg : ∀ c, g.choice? = some c → s.control = .run (some c.1) ∧ s.offset = c.2)
    (hf : f.choice? = some (k, i)) (hsuffix : f :: base <:+ s'.stack) :
    f :: base <:+ s.stack ∨ Lays s f base := by
  rw [hpush] at hsuffix
  rcases List.suffix_cons_iff.mp hsuffix with heq | hsuffix
  · obtain ⟨rfl, rfl⟩ := List.cons.inj heq
    obtain ⟨hc, ho⟩ := hg _ hf
    exact .inr (.decides hf hc ho rfl)
  · exact .inl hsuffix

/-- A frame that is on the stack after a step was there before, or the step has
put it there. -/
theorem Transition.lays (h : a.Transition s s') (hf : f.choice? = some (k, i))
    (hsuffix : f :: base <:+ s'.stack) : f :: base <:+ s.stack ∨ Lays s f base := by
  cases h with
  | abandon | read | test | only => exact .inl hsuffix
  | mark hc hop =>
    rcases s.record_cases _ with ⟨hsame, -⟩ | ⟨old, hrecord, -⟩
    · rw [hsame] at hsuffix
      exact .inl hsuffix
    · rw [hrecord] at hsuffix
      exact lays_of_push (g := .slot _ old) rfl (by simp [Frame.choice?]) hf hsuffix
  | choose hc | decide hc | enter hc | begin hc =>
    refine lays_of_push rfl (fun c hc' => ?_) hf hsuffix
    cases hc'
    exact ⟨hc, rfl⟩
  | resume _ hu =>
    obtain ⟨fs, hs, hkept, -⟩ := unwind_split hu
    obtain ⟨T, hT⟩ := hsuffix
    obtain ⟨T', -, hrest⟩ := exists_of_undoing_append (hkept ▸ hT.symm) hf
    refine .inl (List.IsSuffix.trans ⟨T', hrest.symm⟩ ?_)
    rw [hs]
    exact (List.suffix_cons _ _).trans (List.suffix_append fs _)
  | reject _ hu =>
    obtain ⟨fs, hs, -⟩ := unwind_split hu
    refine .inl (hsuffix.trans ?_)
    rw [hs]
    exact (List.suffix_cons _ _).trans (List.suffix_append fs _)
  | restore _ hstack | retry _ hstack | pass _ hstack | fail _ hstack =>
    rw [hstack]
    exact .inl (hsuffix.trans (List.suffix_cons _ _))
  | @alternate k' n i' rest links l ls hc hstack =>
    have hsuffix : f :: base <:+ if ls = [] then rest else .alternate k' (n + 1) i' :: rest :=
      hsuffix
    rw [hstack]
    split at hsuffix
    · exact .inl (hsuffix.trans (List.suffix_cons _ _))
    · rcases List.suffix_cons_iff.mp hsuffix with heq | hsuffix
      · obtain ⟨rfl, rfl⟩ := List.cons.inj heq
        exact .inr (.relays rfl hc hstack)
      · exact .inl (hsuffix.trans (List.suffix_cons _ _))

/-- **The last state without a frame has put the frame on its stack.**  A frame
that is on the stack all along since some state has been put there by a step
from that state. -/
theorem History.exists_layer (h : a.History s₀ (s :: ss)) (hstart : s₀.stack = [])
    (hf : f.choice? = some (k, i)) (hsuffix : f :: base <:+ s.stack) :
    ∃ q qs, (s :: ss).dropWhile (fun x => decide (f :: base <:+ x.stack)) = q :: qs ∧
      Lays q f base := by
  induction ss generalizing s with
  | nil =>
    cases h
    simp [hstart] at hsuffix
  | cons s' ss ih =>
    cases h with
    | step h hstep =>
      rw [List.dropWhile_cons_of_pos (by simpa using hsuffix)]
      by_cases hbefore : f :: base <:+ s'.stack
      · exact ih h hbefore
      · refine ⟨s', ss, List.dropWhile_cons_of_neg (by simpa using hbefore), ?_⟩
        exact ((transition_of_step hstep).lays hf hsuffix).resolve_left hbefore

/-! ### What is restored -/

/-- The states of a history are valid if the first one is, as steps keep states
valid. -/
theorem History.valid (h : a.History s₀ history) (hs₀ : s₀.Valid a) : ∀ s ∈ history, s.Valid a := by
  induction h with
  | start => simpa using hs₀
  | step h hstep ih =>
    exact List.forall_mem_cons.mpr ⟨step_valid (ih _ List.mem_cons_self) hstep, ih⟩

/-- Dropping less before dropping more changes nothing. -/
theorem dropWhile_of_imp {α : Type} {P Q : α → Bool} (hPQ : ∀ x, P x = true → Q x = true)
    (l : List α) : (l.dropWhile P).dropWhile Q = l.dropWhile Q := by
  induction l with
  | nil => rfl
  | cons x l ih =>
    cases hP : P x with
    | true => rw [List.dropWhile_cons_of_pos hP, ih, List.dropWhile_cons_of_pos (hPQ x hP)]
    | false => rw [List.dropWhile_cons_of_neg (by simp [hP])]

/-- A state agrees with the one that is recalled, if its slots are restored and
its mode and depth are right. -/
theorem Recalled.agreesWith (h : Recalled p s k i T base) (hp : p.Valid a) (hs' : s'.Valid a)
    (hslots : s'.slots = s.slots.map (restoreAll · T)) (hmode : s'.mode = p.mode)
    (hdepth : s'.stack.countP Frame.isSub = base.countP Frame.isSub) : s'.AgreesWith p where
  slots := hslots.trans h.slots
  opts := congrArg Mode.opts hmode
  reverse := congrArg Mode.reverse hmode
  depth := by rw [hs'.depth_eq, hp.depth_eq, h.stack, hdepth]

/-- A state that puts a frame on others agrees with the last one that had no
more than those, which is the same one or has decided on the same alternates. -/
theorem Lays.exists_decision (hlays : Lays q f base) (h : a.History s₀ (q :: ss))
    (hstart : s₀.stack = []) (hs₀ : s₀.Valid a) : ∃ p ps,
      (q :: ss).dropWhile (fun x => decide (base.length < x.stack.length)) = p :: ps ∧
        q.AgreesWith p := by
  cases hlays with
  | decides _ _ _ hstack =>
    exact ⟨q, ss, List.dropWhile_cons_of_neg (by simp [hstack]), ⟨rfl, rfl, rfl, rfl⟩⟩
  | relays hf hc hstack =>
    obtain ⟨p, ps, hdrop, hp⟩ := h.recalls (T := []) hstart hstack rfl
    have hvalid := h.valid hs₀
    have hmem : p ∈ q :: ss := (List.dropWhile_suffix _).subset (hdrop ▸ List.mem_cons_self)
    have hlevels : q.levels = base.filterMap Frame.level? := by
      rw [State.levels, hstack]
      rfl
    refine ⟨p, ps, hdrop, hp.agreesWith (hvalid p hmem) (hvalid q List.mem_cons_self)
      Option.map_id'.symm (hp.mode_eq hlevels).symm ?_⟩
    rw [hstack]
    exact List.countP_cons_of_neg Bool.false_ne_true

/-- **Falling back restores the state of the decision.**  In any run, a step
that falls back to a frame leads to a state with the slots, the options, the
direction and the depth of the state that has put the frame on the stack, and of
the one at which the machine had to decide, whatever has come in between. -/
theorem History.restores {cache : Cache} {opts : Options} {slots : Option Slots} {offset : ℕ}
    (ho : a.InSpan offset)
    (h : a.History (a.start cache opts slots offset) (s' :: s :: ss))
    (hback : FallsBack s s' f rest) :
    ∃ q qs, (s :: ss).dropWhile (fun x => decide (f :: rest <:+ x.stack)) = q :: qs ∧
      Lays q f rest ∧ s'.AgreesWith q ∧
      ∃ p ps, (s :: ss).dropWhile (fun x => decide (rest.length < x.stack.length)) = p :: ps ∧
        p.stack = rest ∧
        (∃ k i, f.choice? = some (k, i) ∧ p.control = .run (some k) ∧ p.offset = i) ∧
        s'.AgreesWith p := by
  have hs₀ : (a.start cache opts slots offset).Valid a := start_valid ho
  have hvalid := h.valid hs₀
  cases h with
  | step h hstep =>
    obtain ⟨k, i, hf⟩ := hback.exists_choice
    obtain ⟨T, hstack, hslots, hmode, hdepth⟩ :=
      hback.exists_above (hvalid s (by simp)) hstep
    obtain ⟨p, ps, hdropp, hp⟩ := h.recalls rfl hstack hf
    have hpmem : p ∈ s :: ss := (List.dropWhile_suffix _).subset (hdropp ▸ List.mem_cons_self)
    have hmodes : s'.mode = p.mode := by
      rcases hmode with ⟨hlevels, hmode⟩ | ⟨level, -, hlevels, hmode⟩
      · rw [hmode, hp.mode_eq hlevels]
      · rw [hmode, hp.mode_eq_of_level hlevels]
    have hagrees : s'.AgreesWith p :=
      hp.agreesWith (hvalid p (List.mem_cons_of_mem _ hpmem)) (hvalid s' List.mem_cons_self)
        hslots hmodes hdepth
    obtain ⟨q, qs, hdropq, hlays⟩ := h.exists_layer rfl hf ⟨T, hstack.symm⟩
    have hsuffix : q :: qs <:+ s :: ss := hdropq ▸ List.dropWhile_suffix _
    obtain ⟨p', ps', hdropp', hagrees'⟩ := hlays.exists_decision (h.of_suffix hsuffix) rfl hs₀
    -- The frame lies above the others, so the state that had to decide is the same for both.
    have hlower : ∀ x : State, decide (f :: rest <:+ x.stack) = true →
        decide (rest.length < x.stack.length) = true := by
      intro x hx
      rw [decide_eq_true_iff] at hx ⊢
      exact hx.length_le
    rw [← hdropq, dropWhile_of_imp hlower, hdropp] at hdropp'
    obtain ⟨rfl, -⟩ := List.cons.inj hdropp'
    exact ⟨q, qs, hdropq, hlays, hagrees.trans_symm hagrees', p, ps, hdropp, hp.stack,
      ⟨k, i, hf, hp.control, hp.offset⟩, hagrees⟩

/-- What is known of the first two of a list. -/
theorem exists_two_of_take {α β : Type} {g : α → β} {l : List α} {x y : β}
    (h : (l.take 2).map g = [x, y]) : ∃ u v l', l = u :: v :: l' ∧ g u = x ∧ g v = y := by
  match l with
  | [] | [_] => cases h
  | u :: v :: l' =>
    cases h
    exact ⟨u, v, l', rfl, rfl, rfl⟩

/-- `(?:(?=(a))(?>(a))(?!(b))|a|b)` on `ab`, where the last group is the first
one again.  The negative lookahead matches and is undone; then the machine falls
back over all that was recorded to the next alternate. -/
theorem restores_undone :
    let p : Pattern := .union [.concat [.look .ahead (.group (some 1) (.char 'a')),
      .independent (.group (some 2) (.char 'a')), .look .notAhead (.group (some 1) (.char 'b'))],
      .char 'a', .char 'b']
    let a : Attempt := ⟨.ofPattern p, .bufferOfString "ab", ⟨0, 2⟩, false⟩
    let s₀ := a.start .empty .empty (some (.replicate 6 none)) 0
    (∃ s' s ss q, a.History s₀ (s' :: s :: ss) ∧ q ∈ s :: ss ∧ q.control = .run (some 3) ∧
      s.slots = some #[none, none, some 1, some 2, some 0, some 1] ∧
      s'.slots = some #[none, none, some 0, some 1, some 0, some 1] ∧ s'.AgreesWith q) ∧
    ∃ s' s ss q, a.History s₀ (s' :: s :: ss) ∧ q ∈ s :: ss ∧ q.control = .run (some 14) ∧
      s'.slots = some #[none, none, none, none, none, none] ∧ s'.AgreesWith q := by
  intro p a s₀
  have hhistory : ∀ n, a.History s₀ (a.prolong n [s₀]) := fun n => History.start.prolong n
  let rest : List Frame :=
    [.slot 5 none, .slot 4 none, .slot 3 none, .slot 2 none, .alternate 14 0 0]
  constructor
  · have hstates : ((a.prolong 16 [s₀]).take 2).map (fun s => (s.control, s.stack, s.slots)) =
        [(.fail, rest, some #[none, none, some 0, some 1, some 0, some 1]),
          (.run none, .slot 3 (some 1) :: .slot 2 (some 0) :: .sub 3 1 false .empty :: rest,
            some #[none, none, some 1, some 2, some 0, some 1])] := by decide +kernel
    have h := hhistory 16
    generalize a.prolong 16 [s₀] = history at h hstates
    obtain ⟨s', s, ss, rfl, hs', hs⟩ := exists_two_of_take hstates
    simp only [Prod.mk.injEq] at hs' hs
    have hback : FallsBack s s' (.sub 3 1 false .empty) rest := by
      have hstack : s.stack =
          [.slot 3 (some 1), .slot 2 (some 0)] ++ .sub 3 1 false .empty :: rest := hs.2.1
      exact .undone hs.1 hs'.1 hstack (by decide) rfl
    obtain ⟨-, -, -, -, -, q, qs, hdrop, -, ⟨k, i, hf, hcontrol, -⟩, hagrees⟩ :=
      History.restores (by decide) h hback
    cases hf
    exact ⟨s', s, ss, q, h, (List.dropWhile_suffix _).subset (hdrop ▸ List.mem_cons_self),
      hcontrol, hs.2.2, hs'.2.2, hagrees⟩
  · have hstates : ((a.prolong 21 [s₀]).take 2).map (fun s => (s.control, s.stack, s.slots)) =
        [(.run (some 12), [.alternate 14 1 0], some #[none, none, none, none, none, none]),
          (.fail, [.alternate 14 0 0], some #[none, none, none, none, none, none])] := by
      decide +kernel
    have h := hhistory 21
    generalize a.prolong 21 [s₀] = history at h hstates
    obtain ⟨s', s, ss, rfl, hs', hs⟩ := exists_two_of_take hstates
    simp only [Prod.mk.injEq] at hs' hs
    have hback : FallsBack s s' (.alternate 14 0 0) [] :=
      .choice hs.1 hs.2.1 (Option.some_ne_none _)
    obtain ⟨-, -, -, -, -, q, qs, hdrop, -, ⟨k, i, hf, hcontrol, -⟩, hagrees⟩ :=
      History.restores (by decide) h hback
    cases hf
    exact ⟨s', s, ss, q, h, (List.dropWhile_suffix _).subset (hdrop ▸ List.mem_cons_self),
      hcontrol, hs'.2.2, hagrees⟩

end Attempt

end Regexp
