import Regexp.Proofs.Exploration

/-!
# Transitions

What a step of the machine can do to a state, said once.  The operations, the
end of a match within the match and the four kinds of frames make for a long
definition of `Attempt.step`, and what is true of all steps would have to be
shown by going through it each time.

`Attempt.Transition` lists the ways in which a machine goes on instead.  Each
constructor says what was true of the state before, guards included, and which
fields of the state are different after.  Operations that do the same to a state
share a constructor: reading a character, comparing a literal and testing an
anchor are one, and so are all operations that begin a match within the match.
How such a match ends is told by `Op.resume?` in the same way for all of them,
so that there are two constructors for one that was found and two for one that
has failed.

`Attempt.transition_of_step` is the inversion: every step that goes on is one of
them.  An invariant of runs is then a case analysis of transitions with one
short case for each constructor, and a change to the machine that leaves the
transitions as they are changes no proof but this one.

## Main definitions

* `Attempt.Transition` — the ways in which a machine goes on.

## Main statements

* `Attempt.transition_of_step` — every step is one of them.
* `State.record_cases` — recording has no effect if there is no slot, and leaves
  a frame if there is one.
-/

namespace Regexp

/-- The direction and the options of a state. -/
def State.mode (s : State) : Mode := ⟨s.reverse, s.opts⟩

/-- Recording has no effect if there is no slot, and it leaves a frame if there
is one. -/
theorem State.record_cases (s : State) (slot : ℕ) :
    s.record slot = s ∧ recordIn s.slots slot s.offset = s.slots ∨
      ∃ old, s.record slot =
          { s with
            stack := .slot slot old :: s.stack
            slots := recordIn s.slots slot s.offset } ∧
        (recordIn s.slots slot s.offset).map (·.setIfInBounds slot old) = s.slots := by
  obtain ⟨control, offset, reverse, opts, depth, stack, kept, visited, slots⟩ := s
  cases slots with
  | none => exact .inl ⟨rfl, rfl⟩
  | some slots =>
    cases hold : slots[slot]? with
    | none =>
      have hslots : slots.setIfInBounds slot (slotValue offset) = slots :=
        Array.setIfInBounds_eq_of_size_le (by simpa using hold)
      exact .inl ⟨by simp [State.record, hold], by simp [recordIn, hslots]⟩
    | some old =>
      refine .inr ⟨old, by simp [State.record, recordIn, hold], ?_⟩
      obtain ⟨hlt, rfl⟩ := Array.getElem?_eq_some_iff.mp hold
      simp only [recordIn, Option.map_some]
      rw [Array.setIfInBounds_setIfInBounds, Array.setIfInBounds, dif_pos hlt,
        Array.set_getElem_self]

@[simp] theorem State.record_slots (s : State) (slot : ℕ) :
    (s.record slot).slots = recordIn s.slots slot s.offset := by
  rcases s.record_cases slot with ⟨h, hslots⟩ | ⟨old, h, -⟩
  · rw [h, hslots]
  · rw [h]

@[simp] theorem State.record_offset (s : State) (slot : ℕ) : (s.record slot).offset = s.offset := by
  rcases s.record_cases slot with ⟨h, -⟩ | ⟨old, h, -⟩ <;> rw [h]

@[simp] theorem State.record_visited (s : State) (slot : ℕ) :
    (s.record slot).visited = s.visited := by
  rcases s.record_cases slot with ⟨h, -⟩ | ⟨old, h, -⟩ <;> rw [h]

@[simp] theorem State.record_kept (s : State) (slot : ℕ) : (s.record slot).kept = s.kept := by
  rcases s.record_cases slot with ⟨h, -⟩ | ⟨old, h, -⟩ <;> rw [h]

/-- Where a machine goes on after a match within the match is told by offsets
that are put in another place as it is told by the offsets. -/
theorem Op.resume?_map (op : Op) {f : ℕ → ℕ} {F : Resumption → Resumption}
    (hgo : ∀ o l, F (.go o l) = .go (f o) l) (habandon : F .abandon = .abandon) (o : ℕ)
    (stop : Option ℕ) : op.resume? (f o) (stop.map f) = (op.resume? o stop).map F := by
  cases op with
  | look kind child next =>
    simp only [resume?, Option.isSome_map]
    split <;> simp [hgo, habandon]
  | independent | modifier => cases stop <;> simp [resume?, hgo, habandon]
  | ifLook => simp [resume?, hgo]
  | _ => rfl

/-- The state at another depth of matches within the match, with the mode and
the stack there.  Its offset, its slots and its marks are as they were. -/
def State.atLevel (s : State) (depth : ℕ) (m : Mode) (stack : List Frame) : State :=
  { s with depth := depth, reverse := m.reverse, opts := m.opts, stack := stack }

namespace Attempt

/-- The ways in which a machine goes on: it runs an operation, it ends a match
within the match, or it falls back to a frame.  Each case names the state before
and the state after in full, so that a statement about steps is a case analysis
without unfolding the machine. -/
inductive Transition (a : Attempt) (s : State) : State → Prop
  | abandon {l} (hc : s.control = .run l) : Transition a s s.abandon
  | read {k atom next j} (hc : s.control = .run (some k))
    (hop : a.program.ops[k]? = some (.atom atom next))
    (hread : a.read atom s.opts s.reverse s.offset s.slots = .ok (some j)) :
    Transition a s (s.moveTo j next)
  | test {k group yes no captured} (hc : s.control = .run (some k))
    (hop : a.program.ops[k]? = some (.ifGroup group yes no))
    (hg : capturedSpan s.slots group = .ok captured) :
    Transition a s (s.goto (if captured.isSome then yes else no))
  | mark {k group edge next} (hc : s.control = .run (some k))
    (hop : a.program.ops[k]? = some (.mark group edge next)) :
    Transition a s ((s.record (edge.slot group)).goto next)
  | only {k l} (hc : s.control = .run (some k)) (hop : a.program.ops[k]? = some (.union [l])) :
    Transition a s (s.goto l)
  | choose {k l l' ls} (hc : s.control = .run (some k))
    (hop : a.program.ops[k]? = some (.union (l :: l' :: ls))) :
    Transition a s ((s.push (.alternate k 0 s.offset)).goto l)
  | decide {k child greedy next} (hc : s.control = .run (some k))
    (hop : a.program.ops[k]? = some (.question child greedy next)) :
    Transition a s ((s.push (.retry k s.offset)).goto (if greedy then child else next))
  | enter {k id child greedy next} (hc : s.control = .run (some k))
    (hop : a.program.ops[k]? = some (.closure id child greedy next))
    (hnew : a.entered? s id = some false) :
    Transition a s (((a.markEntered s id).push (.retry k s.offset)).goto
      (if greedy then some child else next))
  | begin {k op child m} (hc : s.control = .run (some k)) (hop : a.program.ops[k]? = some op)
    (hb : op.body? s.mode = some (child, m)) :
    Transition a s
      ((s.atLevel (s.depth + 1) m (.sub k s.offset s.reverse s.opts :: s.stack)).goto child)
  -- A match within the match has been found: the frames that it kept undo what it recorded.
  | resume {u op j l depth} (hd : s.depth = depth + 1) (hu : unwind s.stack = some u)
    (hop : a.program.ops[u.op]? = some op)
    (hgo : op.resume? u.offset (some s.offset) = some (.go j l)) (hc : s.control = .run none) :
    Transition a s ((s.atLevel depth ⟨u.reverse, u.opts⟩ (u.kept ++ u.rest)).moveTo j l)
  | reject {u op depth} (hd : s.depth = depth + 1) (hu : unwind s.stack = some u)
    (hop : a.program.ops[u.op]? = some op)
    (hgo : op.resume? u.offset (some s.offset) = some .abandon) (hc : s.control = .run none) :
    Transition a s
      { (s.atLevel depth ⟨u.reverse, u.opts⟩ u.rest).abandon with
        slots := s.slots.map (restoreAll · u.kept) }
  -- Falling back to a frame; that of a match within the match says that it has failed.
  | restore {i old rest} (hc : s.control = .fail) (hstack : s.stack = .slot i old :: rest) :
    Transition a s { s with stack := rest, slots := s.slots.map (·.setIfInBounds i old) }
  | retry {k i rest op l} (hc : s.control = .fail) (hstack : s.stack = .retry k i :: rest)
    (hop : a.program.ops[k]? = some op) (hl : op.otherBranch? = some l) :
    Transition a s ({ s with stack := rest }.moveTo i l)
  | alternate {k n i rest links l ls} (hc : s.control = .fail)
    (hstack : s.stack = .alternate k n i :: rest) (hop : a.program.ops[k]? = some (.union links))
    (hdrop : links.drop (n + 1) = l :: ls) :
    Transition a s ({ s with
      stack := if ls = [] then rest else .alternate k (n + 1) i :: rest }.moveTo i l)
  | pass {k i m rest op depth j l} (hc : s.control = .fail)
    (hstack : s.stack = .sub k i m.reverse m.opts :: rest) (hd : s.depth = depth + 1)
    (hop : a.program.ops[k]? = some op) (hgo : op.resume? i none = some (.go j l)) :
    Transition a s ((s.atLevel depth m rest).moveTo j l)
  | fail {k i m rest op depth} (hc : s.control = .fail)
    (hstack : s.stack = .sub k i m.reverse m.opts :: rest) (hd : s.depth = depth + 1)
    (hop : a.program.ops[k]? = some op) (hgo : op.resume? i none = some .abandon) :
    Transition a s (s.atLevel depth m rest).abandon

variable {a : Attempt} {s s' : State} {k : ℕ} {op : Op}

theorem transition_of_exec (hc : s.control = .run (some k)) (hop : a.program.ops[k]? = some op)
    (h : a.exec k op s = .next s') : a.Transition s s' := by
  cases op with
  | atom atom next =>
    simp only [exec] at h
    split at h
    · cases h
    · cases h
      exact .read hc hop (by assumption)
    · cases h
      exact .abandon hc
  | union links =>
    cases links with
    | nil =>
      cases h
      exact .abandon hc
    | cons l links =>
      cases links with
      | nil =>
        cases h
        exact .only hc hop
      | cons l' ls =>
        cases h
        exact .choose hc hop
  | closure id child greedy next =>
    simp only [exec] at h
    split at h
    · cases h
    · cases h
      exact .abandon hc
    · cases h
      exact .enter hc hop (by assumption)
  | question child greedy next =>
    cases h
    exact .decide hc hop
  | mark group edge next =>
    cases h
    exact .mark hc hop
  | ifGroup group yes no =>
    simp only [exec] at h
    split at h
    · cases h
    · rename_i hg
      cases h
      exact .test hc hop hg
    · rename_i hg
      cases h
      exact .test hc hop hg
  | look | independent | modifier | ifLook =>
    cases h
    exact .begin hc hop rfl
  | fail =>
    cases h
    exact .abandon hc

theorem transition_of_accept (hc : s.control = .run none) (h : a.accept s = .next s') :
    a.Transition s s' := by
  rw [accept_eq] at h
  split at h
  · split at h
    · cases h
      exact .abandon hc
    · cases h
  · rename_i hd
    split at h
    · cases h
    · rename_i u hu
      dsimp only at h
      split at h
      · cases h
      · rename_i hgo
        obtain ⟨op, hop, hgo⟩ := Option.bind_eq_some_iff.mp hgo
        cases h
        exact .resume hd hu hop hgo hc
      · rename_i hgo
        obtain ⟨op, hop, hgo⟩ := Option.bind_eq_some_iff.mp hgo
        cases h
        exact .reject hd hu hop hgo hc

theorem transition_of_back (hc : s.control = .fail) (h : a.back s = .next s') :
    a.Transition s s' := by
  unfold back at h
  split at h
  · cases h
  · rename_i hstack
    cases h
    exact .restore hc hstack
  · rename_i hstack
    split at h
    · cases h
    · rename_i hl
      obtain ⟨op, hop, hl⟩ := Option.bind_eq_some_iff.mp hl
      cases h
      exact .retry hc hstack hop hl
  · rename_i hstack
    split at h
    · rename_i hop
      split at h
      · cases h
      · rename_i hdrop
        cases h
        exact .alternate hc hstack hop hdrop
      · rename_i hdrop
        cases h
        exact .alternate hc hstack hop hdrop
    · cases h
  · rename_i i j reverse opts rest hstack
    split at h
    · cases h
    · rename_i hd
      dsimp only at h
      split at h
      · cases h
      · rename_i hgo
        obtain ⟨op, hop, hgo⟩ := Option.bind_eq_some_iff.mp hgo
        cases h
        exact .pass (m := ⟨reverse, opts⟩) hc hstack hd hop hgo
      · rename_i hgo
        obtain ⟨op, hop, hgo⟩ := Option.bind_eq_some_iff.mp hgo
        cases h
        exact .fail (m := ⟨reverse, opts⟩) hc hstack hd hop hgo

/-- **Every step is one of the transitions.**  Invariants of runs are proved
from the cases of `Transition`, so that they need not look into `Attempt.step`. -/
theorem transition_of_step (h : a.step s = .next s') : a.Transition s s' := by
  unfold step at h
  split at h
  · exact transition_of_accept (by assumption) h
  · split at h
    · cases h
    · exact transition_of_exec (by assumption) (by assumption) h
  · exact transition_of_back (by assumption) h

end Attempt

end Regexp
