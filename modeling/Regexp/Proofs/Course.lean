import Regexp.Proofs.Path
import Regexp.Proofs.Standing

/-!
# The current path

A machine goes along a path through its program, and when it falls back to a
frame it leaves the end of that path for another one.  The path that is current
at a state is made up of the states of the run that have not been taken back.
What a reference sees and what an attempt reports is a fact about that path and
not about the run.

## Which states have been taken back

Nothing in a state says how it was reached, so the path has to be recovered from
the history of the run.  It is told by the heights of the stacks.  A frame lies
on the stack for as long as the stack is not lower than where the frame was put;
so the state that has put it there is the last one with a lower stack.
`pathBelow` leaves out all states from the first one on that has a stack as high
as a given height, and goes on from there with the height of the state that it
has found.  A state that has failed is about to take a frame back and counts as
one lower (`ceiling`).

## What is known of a frame

`Attempt.History.recalls` is the main lemma about histories.  For each frame on
the stack it finds the state that has left it, and says what has become of the
frame since (`Recalled`): the frames on top of it restore the slots to what they
were then, the modes of the matches around are the same, and of a choice only
alternatives are missing.  It is shown by induction on the history, and its step
goes through the transitions twice, once for how frames have come on the stack
(`Stacks`) and once for what becomes of those that were there (`Keeps`).

With it a machine that falls back can be seen to go on from the state that had
left the frame, by another way; and so the current path is a path,
`Attempt.History.course`, although no two of its states need follow each other
in the run.

## Main definitions

* `Station` — where a machine stands that has not failed.
* `Attempt.History` — the states of a run so far.
* `currentPath` — the stations of a run that have not been taken back.
* `Attempt.Advance`, `Attempt.Course` — one operation of a path, and a path from
  the beginning.

## Main statements

* `Attempt.History.recalls` — the state at which a machine has left a frame for
  later, and what has become of its slots and its mode.
* `Attempt.History.course` — the current path is a path.
-/

namespace Regexp

/-! ### Stations -/

/-- A match within the match that is going on: the operation that runs it, and
the offset and the mode before it.  It is what a frame of that kind holds. -/
structure Level where
  op : ℕ
  offset : ℕ
  mode : Mode

/-- Where a machine stands that has not failed: all of its state but the choices
that are left, the marks and the frames that restore. -/
structure Station where
  link : Link
  offset : ℕ
  mode : Mode
  /-- The matches within the match that are going on, the innermost one first. -/
  levels : List Level
  slots : Option Slots

/-- The match within the match that a frame marks, if it is of that kind: its
operation, where it began, and how what is around it is read. -/
def Frame.level? : Frame → Option Level
  | .sub k i reverse opts => some ⟨k, i, ⟨reverse, opts⟩⟩
  | _ => none

/-- The operation of a frame that offers another way, and the offset there.
Frames that restore a slot offer none. -/
def Frame.choice? : Frame → Option (ℕ × ℕ)
  | .retry k i | .alternate k _ i | .sub k i _ _ => some (k, i)
  | .slot _ _ => none

namespace State

/-- The matches within the match that are going on, the innermost first. -/
def levels (s : State) : List Level := s.stack.filterMap Frame.level?

/-- The modes of a state and of the matches around, from the inside to the
outside. -/
def modes (s : State) : List Mode := s.mode :: s.levels.map Level.mode

/-- Where a machine stands, unless it has failed and is on its way back.  A
state that has failed is on no path. -/
def station? (s : State) : Option Station :=
  match s.control with
  | .run link => some ⟨link, s.offset, s.mode, s.levels, s.slots⟩
  | .fail => none

theorem station?_of_run {s : State} {link : Link} (h : s.control = .run link) :
    s.station? = some ⟨link, s.offset, s.mode, s.levels, s.slots⟩ := by
  rw [station?, h]

end State

/-! ### Paths -/

/-- The height below which the stack of a state lies that is on the path of the
last of some states: a state that has failed is about to take a frame back. -/
def ceiling : List State → ℕ
  | [] => 0
  | s :: _ => if s.control = .fail then s.stack.length else s.stack.length + 1

/-- The path to the last state of a history whose stack is lower than a height.
Each state that is taken lowers the height to its own, so that what was tried
above it and given up is passed over. -/
def pathBelow : ℕ → List State → List Station
  | _, [] => []
  | height, s :: earlier =>
    if s.stack.length < height then s.station?.toList ++ pathBelow (ceiling earlier) earlier
    else pathBelow height earlier

/-- The stations of a run that have not been taken back, the last one first.
The path is read off the history and is not kept by the machine. -/
def currentPath (history : List State) : List Station := pathBelow (ceiling history) history

namespace Attempt

/-- The states of a run so far, the last one first, where each one is a step
from the one before it. -/
inductive History (a : Attempt) (s₀ : State) : List State → Prop
  | start : History a s₀ [s₀]
  | step {s s' earlier} (h : History a s₀ (s :: earlier)) (hstep : a.step s = .next s') :
    History a s₀ (s' :: s :: earlier)

/-- A history with a number of steps more, as long as the machine goes on.  It
can be evaluated, for histories that are given by a number of steps. -/
def prolong (a : Attempt) : ℕ → List State → List State
  | n + 1, s :: earlier =>
    match a.step s with
    | .next s' => a.prolong n (s' :: s :: earlier)
    | .halt _ _ | .stuck => s :: earlier
  | _, history => history

/-- One operation of a path, from a station to the next.  The end of a match
within the match is one as well, and so is its beginning; falling back is not,
since it leaves the path. -/
inductive Advance (a : Attempt) : Station → Station → Prop
  | read {k atom next i j m ls sl} (hop : a.program.ops[k]? = some (.atom atom next))
    (hread : a.read atom m.opts m.reverse i sl = .ok (some j)) :
    Advance a ⟨some k, i, m, ls, sl⟩ ⟨next, j, m, ls, sl⟩
  | branch {k op l i m ls sl} (hop : a.program.ops[k]? = some op) (hb : op.body? m = none)
    (hmark : ∀ group edge next, op ≠ .mark group edge next) (hl : l ∈ op.links) :
    Advance a ⟨some k, i, m, ls, sl⟩ ⟨l, i, m, ls, sl⟩
  | mark {k group edge next i m ls sl} (hop : a.program.ops[k]? = some (.mark group edge next)) :
    Advance a ⟨some k, i, m, ls, sl⟩ ⟨next, i, m, ls, recordIn sl (edge.slot group) i⟩
  | begin {k op child m' i m ls sl} (hop : a.program.ops[k]? = some op)
    (hb : op.body? m = some (child, m')) :
    Advance a ⟨some k, i, m, ls, sl⟩ ⟨child, i, m', ⟨k, i, m⟩ :: ls, sl⟩
  | resume {k op l i i₀ j m m₀ ls sl} (hop : a.program.ops[k]? = some op)
    (hgo : op.resume? i₀ (some i) = some (.go j l)) :
    Advance a ⟨none, i, m, ⟨k, i₀, m₀⟩ :: ls, sl⟩ ⟨l, j, m₀, ls, sl⟩
  -- A match within the match has failed, and nothing of it is left.
  | skip {k op l i j m ls sl} (hop : a.program.ops[k]? = some op)
    (hgo : op.resume? i none = some (.go j l)) :
    Advance a ⟨some k, i, m, ls, sl⟩ ⟨l, j, m, ls, sl⟩

/-- A path from the beginning of a run, the last station first.  It knows
nothing of what was tried in between. -/
inductive Course (a : Attempt) (x₀ : Station) : List Station → Prop
  | start : Course a x₀ [x₀]
  | advance {x y path} (h : Course a x₀ (x :: path)) (hxy : a.Advance x y) :
    Course a x₀ (y :: x :: path)

variable {a : Attempt} {s s' s₀ p : State} {x y : Station} {ss history : List State}
  {base T : List Frame} {f g : Frame} {k i : ℕ}

/-! ### Histories -/

theorem History.prolong (h : a.History s₀ history) (n : ℕ) :
    a.History s₀ (a.prolong n history) := by
  induction n generalizing history with
  | zero => exact h
  | succ n ih =>
    cases history with
    | nil => exact h
    | cons s ss =>
      rw [Attempt.prolong]
      split
      · exact ih (h.step (by assumption))
      · exact h
      · exact h

/-- What was there before a state of a history is a history, of the run up to
that state. -/
theorem History.of_suffix (h : a.History s₀ history) (hsuffix : s :: ss <:+ history) :
    a.History s₀ (s :: ss) := by
  induction h with
  | start =>
    obtain ⟨rfl, rfl⟩ : s = s₀ ∧ ss = [] := by
      simpa using List.suffix_cons_iff.mp hsuffix
    exact .start
  | step h hstep ih =>
    rcases List.suffix_cons_iff.mp hsuffix with heq | hsuffix
    · rw [heq]
      exact h.step hstep
    · exact ih hsuffix

/-! ### What becomes of a frame -/

theorem choice?_of_mem_undoing {fs : List Frame} (hf : f ∈ undoing fs) : f.choice? = none := by
  have := (List.mem_filter.mp hf).2
  cases f <;> simp_all [Frame.choice?]

/-- A frame that offers another way lies below the frames that restore slots, as
it is none of them. -/
theorem exists_of_undoing_append {fs rest : List Frame} (h : undoing fs ++ rest = T ++ f :: base)
    (hf : f.choice? = some (k, i)) : ∃ T', T = undoing fs ++ T' ∧ rest = T' ++ f :: base := by
  rcases List.append_eq_append_iff.mp h with ⟨T', hT, hrest⟩ | ⟨T', hfs, hrest⟩
  · exact ⟨T', hT, hrest⟩
  · cases T' with
    | nil => exact ⟨[], by simpa using hfs.symm, by simpa using hrest.symm⟩
    | cons g T' =>
      obtain ⟨rfl, -⟩ := List.cons.inj hrest
      have hmem : f ∈ undoing fs := by simp [hfs]
      rw [choice?_of_mem_undoing hmem] at hf
      cases hf

/-- What is the same of a frame that offers another way before and after a step:
what lies above it restores the slots to what they were, and the modes of what
lies below it are kept. -/
structure Keeps (s s' : State) (T T' base : List Frame) : Prop where
  slots : s'.slots.map (restoreAll · T') = s.slots.map (restoreAll · T)
  modes : ∀ ms, ms.length ≤ (base.filterMap Frame.level?).length + 1 → ms <:+ s.modes →
    ms <:+ s'.modes

/-- How a frame that offers another way has come on the stack by a step: the
step has put it there, or it was there before, perhaps with one way more.  In
each case it says what lies above the frame and below it, before and after. -/
inductive Stacks (s s' : State) (k i : ℕ) (T' base : List Frame) : Prop
  | left (hc : s.control = .run (some k)) (ho : s.offset = i) (hstack : s.stack = base)
    (h : Keeps s s' [] T' base) : Stacks s s' k i T' base
  | lay {T : List Frame} {g : Frame} (hstack : s.stack = T ++ g :: base)
    (hg : g.choice? = some (k, i)) (h : Keeps s s' T T' base) : Stacks s s' k i T' base

/-- Whether a step leaves the matches within the match as they are, or ends the
innermost one. -/
def Leaves (s s' : State) : Prop :=
  s'.mode = s.mode ∧ s'.levels = s.levels ∨ ∃ level, s.levels = level :: s'.levels ∧
    level.mode = s'.mode

/-- The modes are kept of what lies below a frame, also when a match within the
match ends. -/
theorem Keeps.of_leaves {T' : List Frame} (hstack : s'.stack = T' ++ f :: base)
    (hleaves : Leaves s s')
    (hslots : s'.slots.map (restoreAll · T') = s.slots.map (restoreAll · T)) :
    Keeps s s' T T' base := by
  refine ⟨hslots, fun ms hle h => ?_⟩
  rcases hleaves with ⟨hm, hlevels⟩ | ⟨level, hlevels, hm⟩
  · rwa [State.modes, hm, hlevels]
  · have hmodes : s.modes = s.mode :: s'.modes := by
      rw [State.modes, State.modes, hlevels, ← hm, List.map_cons]
    rw [hmodes] at h
    refine (List.suffix_cons_iff.mp h).resolve_left fun heq => ?_
    have hbase : (base.filterMap Frame.level?).length ≤ s'.levels.length := by
      rw [State.levels, hstack]
      exact ((List.suffix_cons f base).trans (List.suffix_append T' _)).filterMap _ |>.length_le
    have hlength := congrArg List.length heq
    simp only [State.modes, List.length_cons, List.length_map] at hlength
    omega

/-- A step that leaves the stack as it is.  The frame that is watched stays
where it was, and so does all that is above it. -/
theorem Stacks.of_same {T' : List Frame} (hstack' : s'.stack = s.stack) (hm : s'.mode = s.mode)
    (hsl : s'.slots = s.slots) (hstack : s'.stack = T' ++ f :: base)
    (hf : f.choice? = some (k, i)) : Stacks s s' k i T' base := by
  refine .lay (hstack'.symm.trans hstack) hf
    (.of_leaves hstack (.inl ⟨hm, ?_⟩) (by rw [hsl]))
  rw [State.levels, State.levels, hstack']

/-- A step that puts a frame on the stack.  Either this is the frame that is
watched, or that one has come to lie one deeper. -/
theorem Stacks.of_push {T' : List Frame} (hpush : s'.stack = g :: s.stack)
    (hslots : s'.slots.map (restoreAll · [g]) = s.slots) (hmodes : s.modes <:+ s'.modes)
    (hg : ∀ c, g.choice? = some c → s.control = .run (some c.1) ∧ s.offset = c.2)
    (hstack : s'.stack = T' ++ f :: base) (hf : f.choice? = some (k, i)) :
    Stacks s s' k i T' base := by
  have hslots' : ∀ T, s'.slots.map (restoreAll · (g :: T)) = s.slots.map (restoreAll · T) := by
    intro T
    rw [← hslots, Option.map_map]
    exact congrArg (Option.map · s'.slots) (funext fun slots => restoreAll_append slots [g] T)
  rw [hpush] at hstack
  rcases List.cons_eq_append_iff.mp hstack with ⟨rfl, h⟩ | ⟨T, rfl, hT⟩
  · obtain ⟨rfl, rfl⟩ := List.cons.inj h
    obtain ⟨hc, ho⟩ := hg _ hf
    refine .left hc ho rfl ⟨?_, fun ms _ h => h.trans hmodes⟩
    rw [← hslots' []]
    cases f <;> first | rfl | cases hf
  · exact .lay hT hf ⟨hslots' T, fun ms _ h => h.trans hmodes⟩

/-- A step that takes frames from the stack, and perhaps the match within the
match that one of them marks. -/
theorem Stacks.of_drop {T' : List Frame} (fs : List Frame) (hdrop : s.stack = fs ++ s'.stack)
    (hslots : s'.slots = s.slots.map (restoreAll · fs))
    (hleaves : Leaves s s') (hstack : s'.stack = T' ++ f :: base)
    (hf : f.choice? = some (k, i)) : Stacks s s' k i T' base := by
  refine .lay (T := fs ++ T') (by rw [hdrop, hstack, List.append_assoc]) hf
    (.of_leaves hstack hleaves ?_)
  rw [hslots, Option.map_map]
  exact congrArg (Option.map · s.slots) (funext fun slots => (restoreAll_append slots fs T').symm)

theorem levels_append_sub (fs : List Frame) {rest : List Frame} {reverse : Bool} {opts : Options}
    (hsub : ∀ f ∈ fs, f.isSub = false) (hstack : s.stack = fs ++ .sub k i reverse opts :: rest) :
    s.levels = ⟨k, i, ⟨reverse, opts⟩⟩ :: rest.filterMap Frame.level? := by
  have hnil : fs.filterMap Frame.level? = [] := by
    refine List.filterMap_eq_nil_iff.mpr fun f hf => ?_
    have := hsub f hf
    cases f <;> first | rfl | cases this
  rw [State.levels, hstack, List.filterMap_append, hnil]
  rfl

theorem levels_undoing_append (fs rest : List Frame) :
    (undoing fs ++ rest).filterMap Frame.level? = rest.filterMap Frame.level? := by
  rw [List.filterMap_append, List.filterMap_eq_nil_iff.mpr, List.nil_append]
  intro f hf
  have := choice?_of_mem_undoing hf
  cases f <;> first | rfl | cases this

/-- **How the frames of a stack have come there.**  There is one case for each
transition, and only those that come to a choice or begin a match within the
match put a frame of this kind on the stack. -/
theorem Transition.stacks {T' : List Frame} (h : a.Transition s s')
    (hstack : s'.stack = T' ++ f :: base) (hf : f.choice? = some (k, i)) :
    Stacks s s' k i T' base := by
  cases h with
  | abandon | read | test | only => exact .of_same rfl rfl rfl hstack hf
  | @mark _ group edge next hc hop =>
    rcases s.record_cases (edge.slot group) with ⟨hsame, -⟩ | ⟨old, hrecord, hback⟩
    · rw [hsame] at hstack ⊢
      exact .of_same rfl rfl rfl hstack hf
    · rw [hrecord] at hstack ⊢
      exact .of_push rfl hback (List.suffix_refl _) (by simp [Frame.choice?]) hstack hf
  | choose hc hop | decide hc hop | enter hc hop =>
    refine .of_push rfl Option.map_id' (List.suffix_refl _) (fun c hc' => ?_) hstack hf
    cases hc'
    exact ⟨hc, rfl⟩
  | begin hc hop hb =>
    refine .of_push rfl Option.map_id' (List.suffix_cons _ _) (fun c hc' => ?_) hstack hf
    cases hc'
    exact ⟨hc, rfl⟩
  | @resume u op j l depth hd hu hop hgo =>
    obtain ⟨fs, hs, hkept, hsub⟩ := unwind_split hu
    rw [hkept] at hstack ⊢
    obtain ⟨T, rfl, hrest⟩ := exists_of_undoing_append hstack hf
    refine .lay (T := fs ++ .sub u.op u.offset u.reverse u.opts :: T) (by simp [hs, hrest]) hf
      (.of_leaves hstack (.inr ⟨⟨u.op, u.offset, ⟨u.reverse, u.opts⟩⟩, ?_, rfl⟩) ?_)
    · rw [levels_append_sub fs hsub hs]
      exact congrArg _ (levels_undoing_append fs u.rest).symm
    · refine congrArg (Option.map · s.slots) (funext fun slots => ?_)
      simp only [restoreAll_append, restoreAll_undoing, restoreAll]
  | @reject u op depth hd hu hop hgo =>
    obtain ⟨fs, hs, hkept, hsub⟩ := unwind_split hu
    refine .of_drop (fs ++ [.sub u.op u.offset u.reverse u.opts])
      (by simp [hs, State.abandon, State.atLevel]) ?_ (.inr ⟨_, levels_append_sub fs hsub hs, rfl⟩)
      hstack hf
    simp only [hkept, restoreAll_append, restoreAll_undoing, restoreAll]
  | restore hc hstack' =>
    refine .of_drop [_] hstack' rfl (.inl ⟨rfl, ?_⟩) hstack hf
    rw [State.levels, State.levels, hstack']
    rfl
  | retry hc hstack' =>
    refine .of_drop [_] hstack' Option.map_id'.symm (.inl ⟨rfl, ?_⟩) hstack hf
    rw [State.levels, State.levels, hstack']
    rfl
  | @alternate k' n i' rest links l ls hc hstack' hop hdrop =>
    have hlevels : s.levels = rest.filterMap Frame.level? := by
      rw [State.levels, hstack']
      rfl
    by_cases hls : ls = []
    · rw [if_pos hls] at hstack ⊢
      exact .of_drop [_] hstack' Option.map_id'.symm (.inl ⟨rfl, hlevels.symm⟩) hstack hf
    · rw [if_neg hls] at hstack ⊢
      rcases List.cons_eq_append_iff.mp hstack with ⟨rfl, h⟩ | ⟨T, rfl, hT⟩
      · obtain ⟨rfl, rfl⟩ := List.cons.inj h
        exact .lay (T := []) hstack' hf (.of_leaves hstack (.inl ⟨rfl, hlevels.symm⟩) rfl)
      · exact .lay (T := .alternate k' n i' :: T) (by rw [hstack', hT]; rfl) hf
          (.of_leaves hstack (.inl ⟨rfl, hlevels.symm⟩) rfl)
  | pass hc hstack' | fail hc hstack' =>
    exact .of_drop [_] hstack' Option.map_id'.symm
      (.inr ⟨_, levels_append_sub [] (by simp) hstack', rfl⟩) hstack hf

/-- What is known of the state at which a machine has left a frame for later,
with the frames that lie on top of it now: taking these off gives back the slots
of that state, and its modes are still those of the matches around. -/
structure Recalled (p s : State) (k i : ℕ) (T base : List Frame) : Prop where
  control : p.control = .run (some k)
  offset : p.offset = i
  stack : p.stack = base
  slots : s.slots.map (restoreAll · T) = p.slots
  modes : p.modes <:+ s.modes

/-- **The last state with a stack lower than a frame is the one that has left
the frame.**  As long as the frame has been there the stack has been higher, and
before that it was not there. -/
theorem History.recalls (h : a.History s₀ (s :: ss)) (hstart : s₀.stack = [])
    (hstack : s.stack = T ++ f :: base) (hf : f.choice? = some (k, i)) :
    ∃ p ps, (s :: ss).dropWhile (fun q => decide (base.length < q.stack.length)) = p :: ps ∧
      Recalled p s k i T base := by
  induction ss generalizing s T f with
  | nil =>
    cases h
    simp [hstart] at hstack
  | cons s' ss ih =>
    cases h with
    | step h hstep =>
      have hlt : base.length < s.stack.length := by
        rw [hstack]
        simp only [List.length_append, List.length_cons]
        omega
      rw [List.dropWhile_cons_of_pos (by simpa using hlt)]
      cases (transition_of_step hstep).stacks hstack hf with
      | left hc ho hbase hkeeps =>
        refine ⟨s', ss, List.dropWhile_cons_of_neg (by simp [hbase]), hc, ho, hbase, ?_, ?_⟩
        · exact hkeeps.slots.trans Option.map_id'
        · refine hkeeps.modes _ ?_ (List.suffix_refl _)
          simp [State.modes, State.levels, hbase]
      | lay hstack' hg hkeeps =>
        obtain ⟨p, ps, hdrop, hp⟩ := ih h hstack' hg
        refine ⟨p, ps, hdrop, hp.control, hp.offset, hp.stack, hkeeps.slots.trans hp.slots, ?_⟩
        refine hkeeps.modes _ ?_ hp.modes
        simp [State.modes, State.levels, hp.stack]

/-! ### Paths -/

/-- The path to a state that has not failed goes on from the path to the states
before. -/
theorem currentPath_of_run (hx : s.station? = some x) :
    currentPath (s :: ss) = x :: currentPath ss := by
  have hc : s.control ≠ .fail := by
    rintro hc
    rw [State.station?, hc] at hx
    cases hx
  rw [currentPath, ceiling, if_neg hc, pathBelow, if_pos (Nat.lt_succ_self _), hx]
  rfl

/-- The path below a height is the path to the last state whose stack is lower,
unless the machine had failed there. -/
theorem pathBelow_of_dropWhile {height : ℕ} {ps : List State}
    (hdrop : history.dropWhile (fun q => decide (height ≤ q.stack.length)) = p :: ps)
    (hx : p.station? = some x) : pathBelow height history = currentPath (p :: ps) := by
  induction history with
  | nil => cases hdrop
  | cons s ss ih =>
    rw [pathBelow]
    split
    · rename_i hlt
      rw [List.dropWhile_cons_of_neg (by simpa using hlt)] at hdrop
      obtain ⟨rfl, rfl⟩ := List.cons.inj hdrop
      rw [currentPath_of_run hx, hx]
      rfl
    · rename_i hge
      rw [List.dropWhile_cons_of_pos (by simpa using hge)] at hdrop
      exact ih hdrop

theorem levels_record (s : State) (slot : ℕ) : (s.record slot).levels = s.levels := by
  rcases s.record_cases slot with ⟨h, -⟩ | ⟨old, h, -⟩
  · rw [h]
  · rw [h]
    rfl

theorem mode_record (s : State) (slot : ℕ) : (s.record slot).mode = s.mode := by
  rcases s.record_cases slot with ⟨h, -⟩ | ⟨old, h, -⟩
  · rw [h]
  · rw [h]
    rfl

/-- A step from a state that has not failed goes along a path, to the next
station. -/
theorem Transition.advance (h : a.Transition s s') (hx : s.station? = some x)
    (hy : s'.station? = some y) : a.Advance x y := by
  have hrun : ∀ {link}, s.control = .run link →
      x = ⟨link, s.offset, s.mode, s.levels, s.slots⟩ := by
    intro link hc
    rw [State.station?_of_run hc] at hx
    exact (Option.some.inj hx).symm
  have hfail : s.control ≠ .fail := by
    intro hc
    rw [State.station?, hc] at hx
    cases hx
  cases h with
  | abandon | reject => cases hy
  | restore hc | retry hc | alternate hc | pass hc | fail hc => exact absurd hc hfail
  | read hc hop hread =>
    cases hy
    exact hrun hc ▸ .read hop hread
  | test hc hop =>
    cases hy
    exact hrun hc ▸ .branch hop rfl (by simp) (by split <;> simp [Op.links])
  | only hc hop =>
    cases hy
    exact hrun hc ▸ .branch hop rfl (by simp) List.mem_cons_self
  | choose hc hop =>
    cases hy
    exact hrun hc ▸ .branch hop rfl (by simp) List.mem_cons_self
  | decide hc hop =>
    cases hy
    exact hrun hc ▸ .branch hop rfl (by simp) (by split <;> simp [Op.links])
  | enter hc hop =>
    cases hy
    exact hrun hc ▸ .branch hop rfl (by simp) (by split <;> simp [Op.links])
  | @mark k group edge next hc hop =>
    have hy : some ⟨next, (s.record (edge.slot group)).offset, (s.record (edge.slot group)).mode,
      (s.record (edge.slot group)).levels, (s.record (edge.slot group)).slots⟩ = some y := hy
    rw [levels_record, mode_record, State.record_offset, State.record_slots] at hy
    cases hy
    exact hrun hc ▸ .mark hop
  | begin hc hop hb =>
    cases hy
    exact hrun hc ▸ .begin hop hb
  | @resume u op j l depth hd hu hop hgo hc =>
    obtain ⟨fs, hs, hkept, hsub⟩ := unwind_split hu
    have hx := hrun hc
    rw [levels_append_sub fs hsub hs] at hx
    have hy : some ⟨l, j, ⟨u.reverse, u.opts⟩, (u.kept ++ u.rest).filterMap Frame.level?, s.slots⟩ =
      some y := hy
    rw [hkept, levels_undoing_append] at hy
    cases hy
    rw [hx]
    exact .resume hop hgo

/-- The state that has left the frame on top of a stack stood at the operation
of that frame, with the slots as they are now. -/
theorem Recalled.station (h : Recalled p s k i [] base) :
    p.station? = some ⟨some k, i, p.mode, base.filterMap Frame.level?, s.slots⟩ := by
  rw [State.station?_of_run h.control, h.offset, State.levels, h.stack, ← h.slots]
  exact congrArg _ (congrArg _ Option.map_id')

theorem Recalled.mode_eq (h : Recalled p s k i T base)
    (hlevels : s.levels = base.filterMap Frame.level?) : p.mode = s.mode := by
  have hp : p.modes = p.mode :: s.levels.map Level.mode := by
    rw [State.modes, State.levels, h.stack, hlevels]
  have hmodes := h.modes
  rw [hp, State.modes] at hmodes
  replace hmodes := hmodes.eq_of_length (by simp)
  exact (List.cons.inj hmodes).1

theorem Recalled.mode_eq_of_level (h : Recalled p s k i T base) {level : Level}
    (hlevels : s.levels = level :: base.filterMap Frame.level?) : p.mode = level.mode := by
  have hp : p.modes = p.mode :: (base.filterMap Frame.level?).map Level.mode := by
    rw [State.modes, State.levels, h.stack]
  have hs : s.modes = s.mode :: level.mode :: (base.filterMap Frame.level?).map Level.mode := by
    rw [State.modes, hlevels, List.map_cons]
  have hmodes := h.modes
  rw [hp, hs] at hmodes
  rcases List.suffix_cons_iff.mp hmodes with heq | hsuffix
  · have := congrArg List.length heq
    simp at this
  · exact (List.cons.inj (hsuffix.eq_of_length (by simp))).1

/-- A state that has failed has a frame on top of its stack, and it goes on with
another way from where the frame was left. -/
theorem Transition.advance_of_recalled (h : a.Transition s s') (hc : s.control = .fail)
    (hy : s'.station? = some y) : ∃ f base k i, s.stack = f :: base ∧ f.choice? = some (k, i) ∧
      ∀ p x, Recalled p s k i [] base → p.station? = some x → a.Advance x y := by
  cases h with
  | abandon | reject | fail => cases hy
  | restore =>
    rw [State.station?, hc] at hy
    cases hy
  | read hc' | test hc' | mark hc' | only hc' | choose hc' | decide hc' | enter hc' | begin hc' =>
    cases hc.symm.trans hc'
  | resume _ _ _ _ hc' => cases hc.symm.trans hc'
  | @retry k i rest op l _ hstack hop hl =>
    refine ⟨_, _, _, _, hstack, rfl, fun p x hp hx => ?_⟩
    have hlevels : s.levels = rest.filterMap Frame.level? := by
      rw [State.levels, hstack]
      rfl
    have hb : op.body? s.mode = none := by cases op <;> first | rfl | cases hl
    have hmark : ∀ group edge next, op ≠ .mark group edge next := by
      rintro group edge next rfl
      cases hl
    rw [hp.station, hp.mode_eq hlevels] at hx
    cases hx
    cases hy
    exact .branch hop hb hmark (Op.branches_subset_links op (Op.mem_branches (.inr hl)))
  | @alternate k n i rest links l ls _ hstack hop hdrop =>
    refine ⟨_, _, _, _, hstack, rfl, fun p x hp hx => ?_⟩
    have hlevels : s.levels = rest.filterMap Frame.level? := by
      rw [State.levels, hstack]
      rfl
    have hl : l ∈ links := List.mem_of_mem_drop (hdrop ▸ List.mem_cons_self)
    have hy : some ⟨l, i, s.mode, (if ls = [] then rest else
      .alternate k (n + 1) i :: rest).filterMap Frame.level?, s.slots⟩ = some y := hy
    have hrest : (if ls = [] then rest else .alternate k (n + 1) i :: rest).filterMap Frame.level? =
        rest.filterMap Frame.level? := by split <;> rfl
    rw [hrest] at hy
    rw [hp.station, hp.mode_eq hlevels] at hx
    cases hx
    cases hy
    exact .branch hop rfl (by simp) hl
  | @pass k i m rest op depth j l _ hstack hd hop hgo =>
    refine ⟨_, _, _, _, hstack, rfl, fun p x hp hx => ?_⟩
    rw [hp.station, hp.mode_eq_of_level (levels_append_sub [] (by simp) hstack)] at hx
    cases hx
    cases hy
    exact .skip hop hgo

/-- **The current path is a path from the beginning of the run.**  A step either
goes on along the path or falls back, and then it continues from a state that
was on the path. -/
theorem History.course (h : a.History s₀ (s :: ss)) (hstart : s₀.stack = [])
    {x₀ : Station} (hx₀ : s₀.station? = some x₀) (hx : s.station? = some x) :
    a.Course x₀ (currentPath (s :: ss)) := by
  -- Falling back may go far back in the history, so the induction is on its length.
  induction hn : ss.length using Nat.strong_induction_on generalizing s ss x with
  | _ n ih =>
    rw [currentPath_of_run hx]
    cases h with
    | start =>
      cases hx₀.symm.trans hx
      exact .start
    | @step s' _ earlier h hstep =>
      cases hx' : s'.station? with
      | some x' =>
        have hcourse := ih earlier.length (by simp [← hn]) h hx' rfl
        rw [currentPath_of_run hx'] at hcourse ⊢
        exact hcourse.advance ((transition_of_step hstep).advance hx' hx)
      | none =>
        have hc : s'.control = .fail := by
          cases hc : s'.control with
          | run link => cases (State.station?_of_run hc).symm.trans hx'
          | fail => rfl
        obtain ⟨f, base, k, i, hstack, hf, hadvance⟩ :=
          (transition_of_step hstep).advance_of_recalled hc hx
        obtain ⟨p, ps, hdrop, hp⟩ := h.recalls (T := []) hstart hstack hf
        have hdrop' : (s' :: earlier).dropWhile
            (fun q => decide (s'.stack.length ≤ q.stack.length)) = p :: ps := by
          rw [← hdrop, hstack, List.length_cons]
          simp only [Nat.succ_le_iff]
        have hsuffix : p :: ps <:+ s' :: earlier := hdrop ▸ List.dropWhile_suffix _
        have hlt : ps.length < n := by
          have := hsuffix.length_le
          simp only [List.length_cons] at this hn
          omega
        have hcourse := ih ps.length hlt (h.of_suffix hsuffix) hp.station rfl
        rw [currentPath, ceiling, if_pos hc, pathBelow_of_dropWhile hdrop' hp.station]
        rw [currentPath_of_run hp.station] at hcourse ⊢
        exact hcourse.advance (hadvance p _ hp hp.station)

end Attempt

end Regexp
