import Regexp.Proofs.Trail

/-!
# States that stand on trails

In a program without matches within the match, every state of a run stands on a
trail from the start:  what can still be found from there, also by falling back
to a frame, can be found from the start.

It is the converse of what is usually said of a search.  To see that a match is
hidden at some state of a run, one finds a trail from that state to the end; and
to see that this is a match of the pattern, the trail has to be prolonged back
to the start.  `Continues` says of a link and a place that every trail from
there is the end of one from the start.  `Standing` says it of the state and of
all its frames, with the slots as they are when the machine falls back to them
(`FramesContinue`): what lies on top of a frame restores the slots to what they
were.

A step keeps to the trails, `Standing.step`.  Going on is the next tread of a
trail; a choice leaves a frame for the other branch, which continues the same
trail; falling back takes the slots back with the frame.

## Main definitions

* `Program.IsFlat` — programs without matches within the match.
* `Continues` — every trail from a link and a place is the end of one from the
  start.
* `Standing` — states whose links and frames all stand on trails.

## Main statements

* `Standing.step` — a step keeps to the trails.
* `Attempt.Within.standing` — so does a run.
-/

namespace Regexp

/-- Whether a program has no operation with a body of its own, so that nothing
is matched within the match. -/
def Program.IsFlat (p : Program) : Prop :=
  ∀ (k : ℕ) (op : Op) (m : Mode), p.ops[k]? = some op → op.body? m = none

/-- Operations without a nested feature have no body of their own. -/
theorem Op.body?_eq_none_of_feature {op : Op} {m : Mode}
    (h : ∀ f, op.feature? = some f → f.isNested = false) : op.body? m = none := by
  cases op <;> first | rfl | exact absurd (h _ rfl) (by simp [Feature.isNested])

theorem Program.isFlat_ofPattern {p : Pattern} (hp : p.IsFlat) : (ofPattern p).IsFlat :=
  fun _ _ _ hop => Op.body?_eq_none_of_feature fun f hf => hp f (feature_mem p hop hf)

/-- The branch that is tried first is a branch, and so is the other one. -/
theorem Op.mem_branches {op : Op} {l : Link}
    (h : op.firstBranch? = some l ∨ op.otherBranch? = some l) : l ∈ op.branches := by
  cases op with
  | closure id child greedy next =>
    rcases h with h | h <;> cases h <;> cases greedy <;> simp [branches]
  | question child greedy next =>
    rcases h with h | h <;> cases h <;> cases greedy <;> simp [branches]
  | _ => rcases h with h | h <;> cases h

variable (a : Attempt) (m : Mode) (x₀ : Place)

/-- Whether every trail from a link and a place is the end of one from the
start.  It is how the machine is known to have come there by operations alone. -/
def Continues (l : Link) (x : Place) : Prop :=
  ∀ z, Trail a m l x z → Trail a m a.program.start x₀ z

/-- Whether the branches that frames stand for continue trails, with the slots
as they are when the machine falls back to them.  Each frame that restores a
slot does so for all frames below it. -/
def FramesContinue : Option Slots → List Frame → Prop
  | _, [] => True
  | sl, .slot i old :: fs => FramesContinue (sl.map (·.setIfInBounds i old)) fs
  | sl, .retry k i :: fs => (∀ op l, a.program.ops[k]? = some op → op.otherBranch? = some l →
      Continues a m x₀ l ⟨i, sl⟩) ∧ FramesContinue sl fs
  | sl, .alternate k _ i :: fs => (∀ links, a.program.ops[k]? = some (.union links) →
      ∀ l ∈ links, Continues a m x₀ l ⟨i, sl⟩) ∧ FramesContinue sl fs
  | _, .sub _ _ _ _ :: _ => False

/-- Whether a state stands on a trail, and all that it may fall back to as well.
A trail from where it stands to the end goes on one from `x₀`. -/
structure Standing (s : State) : Prop where
  depth : s.depth = 0
  mode : s.mode = m
  size : s.slots.map Array.size = x₀.slots.map Array.size
  control : ∀ l, s.control = .run l → Continues a m x₀ l ⟨s.offset, s.slots⟩
  frames : FramesContinue a m x₀ s.slots s.stack

variable {a m x₀} {s s' : State} {k : ℕ} {l : Link} {x y : Place} {op : Op}

theorem Continues.tread (h : Continues a m x₀ (some k) x) (tread : Tread a m k x l y) :
    Continues a m x₀ l y := fun z htrail => h z (.step tread htrail)

/-! ### Steps -/

namespace Standing

/-- A state that goes on at another link and offset stands on a trail, if what
lies there continues one. -/
theorem goOn (h : Standing a m x₀ s) (hd : s'.depth = s.depth) (hm : s'.mode = s.mode)
    (hsl : s'.slots = s.slots) (hc : s'.control = .run l)
    (hl : Continues a m x₀ l ⟨s'.offset, s.slots⟩)
    (hf : FramesContinue a m x₀ s.slots s'.stack) : Standing a m x₀ s' where
  depth := hd.trans h.depth
  mode := hm.trans h.mode
  size := hsl ▸ h.size
  control l' hl' := by
    cases hc.symm.trans hl'
    exact hsl ▸ hl
  frames := hsl ▸ hf

/-- The first branch of a closure or an optional part, with a frame for the
other one. -/
theorem fork (h : Standing a m x₀ s) (hc : s.control = .run (some k))
    (hop : a.program.ops[k]? = some op) (hfirst : op.firstBranch? = some l) :
    Continues a m x₀ l ⟨s.offset, s.slots⟩ ∧
      FramesContinue a m x₀ s.slots (.retry k s.offset :: s.stack) := by
  have hkind : (op.isChoice || op.isClosure) = true := by cases op <;> first | rfl | cases hfirst
  have hbranch : ∀ l ∈ op.branches, Continues a m x₀ l ⟨s.offset, s.slots⟩ := fun l hl =>
    (h.control _ hc).tread (.branch hop hkind hl)
  refine ⟨hbranch l (Op.mem_branches (.inl hfirst)), fun op' l' hop' hother => ?_, h.frames⟩
  cases hop.symm.trans hop'
  exact hbranch l' (Op.mem_branches (.inr hother))

/-- A step keeps to the trails. -/
theorem step (hflat : a.program.IsFlat) (h : Standing a m x₀ s) (hstep : a.step s = .next s') :
    Standing a m x₀ s' := by
  have hframes := h.frames
  have hdepth := h.depth
  have htread : ∀ {k l y}, s.control = .run (some k) → Tread a m k ⟨s.offset, s.slots⟩ l y →
      Continues a m x₀ l y := fun hc tread => (h.control _ hc).tread tread
  cases Attempt.transition_of_step hstep with
  | abandon => exact ⟨hdepth, h.mode, h.size, nofun, hframes⟩
  | read hc hop hread =>
    rw [show s.opts = m.opts from congrArg Mode.opts h.mode,
      show s.reverse = m.reverse from congrArg Mode.reverse h.mode] at hread
    exact h.goOn rfl rfl rfl rfl (htread hc (.read hop hread)) hframes
  | test hc hop hg => exact h.goOn rfl rfl rfl rfl (htread hc (.test hop hg)) hframes
  | @mark k group edge next hc hop =>
    have hnext := htread hc (.mark hop)
    rcases s.record_cases (edge.slot group) with ⟨hsame, hslots⟩ | ⟨old, hrecord, hback⟩
    · rw [hsame]
      rw [Place.record, hslots] at hnext
      exact h.goOn rfl rfl rfl rfl hnext hframes
    · rw [hrecord]
      rw [← hback] at hframes
      refine ⟨hdepth, h.mode, (size_recordIn _ _ _).trans h.size, fun l hl => ?_, hframes⟩
      cases hl
      exact hnext
  | only hc hop =>
    exact h.goOn rfl rfl rfl rfl (htread hc (.branch hop rfl List.mem_cons_self)) hframes
  | choose hc hop =>
    refine h.goOn rfl rfl rfl rfl (htread hc (.branch hop rfl List.mem_cons_self))
      ⟨fun links hop' l hl => ?_, hframes⟩
    cases hop.symm.trans hop'
    exact htread hc (.branch hop rfl hl)
  | decide hc hop =>
    obtain ⟨hl, hf⟩ := h.fork hc hop rfl
    exact h.goOn rfl rfl rfl rfl hl hf
  | enter hc hop hnew =>
    obtain ⟨hl, hf⟩ := h.fork hc hop rfl
    exact h.goOn rfl rfl rfl rfl hl hf
  | begin hc hop hb => exact absurd hb (by simp [hflat _ _ _ hop])
  | resume hd | reject hd => exact absurd hd (by simp [hdepth])
  | pass hc hstack hd | fail hc hstack hd => exact absurd hd (by simp [hdepth])
  | restore hc hstack =>
    rw [hstack] at hframes
    refine ⟨hdepth, h.mode, ?_, fun l hl => (by cases hc.symm.trans hl), hframes⟩
    rw [← h.size, Option.map_map]
    exact congrArg (Option.map · s.slots) (funext fun slots => Array.size_setIfInBounds)
  | retry hc hstack hop hl =>
    rw [hstack] at hframes
    exact h.goOn rfl rfl rfl rfl (hframes.1 _ _ hop hl) hframes.2
  | @alternate k n i rest links l ls hc hstack hop hdrop =>
    rw [hstack] at hframes
    have hl : l ∈ links := List.mem_of_mem_drop (hdrop ▸ List.mem_cons_self)
    refine h.goOn rfl rfl rfl rfl (hframes.1 links hop l hl) ?_
    by_cases hls : ls = []
    · simpa [State.moveTo, hls] using hframes.2
    · simp only [State.moveTo, hls, if_false]
      exact hframes

end Standing

/-- A run keeps to the trails, as each of its steps does. -/
theorem Attempt.Within.standing {base : List Frame} (hflat : a.program.IsFlat)
    (h : Standing a m x₀ s) (hw : a.Within base s s') : Standing a m x₀ s' := by
  induction hw with
  | refl => exact h
  | tail _ hstep ih => exact ih.step hflat hstep.1

/-- A run begins on a trail. -/
theorem Standing.start (cache : Cache) (opts : Options) (slots : Option Slots) (offset : ℕ) :
    Standing a ⟨false, opts⟩ ⟨offset, Attempt.fresh slots⟩ (a.start cache opts slots offset) where
  depth := rfl
  mode := rfl
  size := rfl
  control l hl := by
    cases hl
    exact fun z htrail => htrail
  frames := trivial

end Regexp
