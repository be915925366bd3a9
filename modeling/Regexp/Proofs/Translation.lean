import Regexp.Proofs.Alignment

/-!
# Searches at raised offsets

Two searches for the same pattern, on texts of which one has the characters of
the other so many offsets further, run in step: state by state, attempt by
attempt and shortcut by shortcut.

Where offsets are only raised, more can be said than where characters take up
different numbers of offsets.  Distances stay the same, so the same spans have
room for a match; closures are marked by the distance from the start of the
span, so raised states have the same marks; and a cache, with all that it holds,
stays useful (`Cache.raise`).  The comparison is therefore made for the machine
itself and not for what it finds.  It includes runs that end with an error, of
which an exploration tells nothing.

The one thing that does not stay the same is the largest offset, which no slot
can hold.  An offset below it may be raised to it, and then what was recorded is
lost (`raiseSlot`).  As long as nobody asks for what is recorded, that makes no
difference to a run.  So a run is in step (`Attempt.Raises`) if the raised span
ends below the largest offset, or if the program does not look at what is
recorded; what slots hold in the end is raised in any case.

`Attempt.Raises.step` is a case for each way in which a machine goes on.  From
it the statement is lifted to runs, to scans and to all shortcuts of a search,
each of which passes the same tests.

## Main definitions

* `raiseSlot`, `raiseSlots` — what slots hold once offsets are raised.
* `State.raise`, `Cache.raise`, `Outcome.raise` — states, caches and what steps
  lead to, with raised offsets.
* `Attempt.Raises`, `Search.Raises` — attempts and searches that run in step.
* `SearchResult.raise` — a result with raised offsets.

## Main statements

* `Attempt.Raises.step` — a raised state takes the raised step.
* `Attempt.Raises.run` — a raised attempt leaves the raised result.
* `Search.Raises.run` — a raised search leaves the raised result, errors
  included.
-/

namespace Regexp

/-! ### Slots and states -/

/-- What a slot holds once offsets are raised: nothing if that is more than a
slot can hold.  The largest number stands for a slot that is not set. -/
def raiseSlot (d : ℕ) (old : Option ℕ) : Option ℕ := old.bind fun o => slotValue (o + d)

/-- What slots hold once offsets are raised. -/
def raiseSlots (d : ℕ) (slots : Slots) : Slots := slots.map (raiseSlot d)

/-- A frame with raised offsets.  The old value of a slot may be too large to be
recorded when it is raised, as by `raiseSlot`. -/
def Frame.raise (d : ℕ) : Frame → Frame
  | retry op o => .retry op (o + d)
  | alternate op index o => .alternate op index (o + d)
  | slot index old => .slot index (raiseSlot d old)
  | sub op o reverse opts => .sub op (o + d) reverse opts

/-- A state with raised offsets.  The sets of visited offsets stay as they are,
because they count from the start of the span. -/
def State.raise (d : ℕ) (s : State) : State :=
  { s with
    offset := s.offset + d
    stack := s.stack.map (Frame.raise d)
    kept := s.kept.map (Frame.raise d)
    slots := s.slots.map (raiseSlots d) }

/-- A cache with raised offsets in the frames that were left there.  They are
cleared before they are read, but an equation between results has to say what
becomes of them. -/
def Cache.raise (d : ℕ) (c : Cache) : Cache where
  stack := c.stack.map (Frame.raise d)
  kept := c.kept.map (Frame.raise d)
  visited := c.visited

/-- What a step leads to, with raised offsets. -/
def Outcome.raise (d : ℕ) : Outcome → Outcome
  | next s => .next (s.raise d)
  | halt answer s => .halt (answer.map (Option.map (· + d))) (s.raise d)
  | stuck => .stuck

variable {d o i : ℕ} {slots : Slots} {sl : Option Slots} {fs : List Frame}

/-- An offset that is too large to be recorded is so when it is raised.  Hence
recording and raising may change places. -/
theorem slotValue_add : slotValue (o + d) = raiseSlot d (slotValue o) := by
  by_cases hlt : o < maxOffset
  · rw [raiseSlot, slotValue.eq_1 o, if_pos hlt, Option.bind_some]
  · have hlt' : ¬ o + d < maxOffset := by omega
    rw [raiseSlot, slotValue, slotValue, if_neg hlt, if_neg hlt', Option.bind_none]

/-- Raising offsets that stay small enough is adding to them, in all slots that
are set. -/
theorem raiseSlots_eq (h : ∀ o, some o ∈ slots → o + d < maxOffset) :
    raiseSlots d slots = slots.map (Option.map (· + d)) := by
  refine Array.map_congr_left fun old hold => ?_
  cases old with
  | none => rfl
  | some o => exact if_pos (h o hold)

@[simp] theorem size_raiseSlots : (raiseSlots d slots).size = slots.size := Array.size_map

@[simp] theorem getElem?_raiseSlots : (raiseSlots d slots)[i]? = slots[i]?.map (raiseSlot d) :=
  Array.getElem?_map

theorem raiseSlots_set (old : Option ℕ) : raiseSlots d (slots.setIfInBounds i old) =
    (raiseSlots d slots).setIfInBounds i (raiseSlot d old) := Array.map_setIfInBounds

theorem raiseSlots_replicate (n : ℕ) :
    raiseSlots d (.replicate n none) = .replicate n none := Array.map_replicate

theorem restoreAll_raise : restoreAll (raiseSlots d slots) (fs.map (Frame.raise d)) =
    raiseSlots d (restoreAll slots fs) := by
  induction fs generalizing slots with
  | nil => rfl
  | cons f fs ih =>
    cases f with
    | slot i old => exact (congrArg (restoreAll · _) (raiseSlots_set old).symm).trans ih
    | _ => exact ih

/-- Where unwinding a raised stack leads to. -/
def Unwound.raise (d : ℕ) (u : Unwound) : Unwound :=
  { u with
    kept := u.kept.map (Frame.raise d)
    offset := u.offset + d
    rest := u.rest.map (Frame.raise d) }

theorem unwind_raise : unwind (fs.map (Frame.raise d)) = (unwind fs).map (Unwound.raise d) := by
  induction fs with
  | nil => rfl
  | cons f fs ih =>
    cases f with
    | slot i old =>
      show (unwind (fs.map (Frame.raise d))).map _ = ((unwind fs).map _).map _
      rw [ih, Option.map_map, Option.map_map]
      rfl
    | sub => rfl
    | retry | alternate => exact ih

/-- Where a machine goes on, at a raised offset. -/
def Resumption.raise (d : ℕ) : Resumption → Resumption
  | go o link => .go (o + d) link
  | abandon => .abandon

theorem Op.resume?_raise (op : Op) (o : ℕ) (stop : Option ℕ) :
    op.resume? (o + d) (stop.map (· + d)) = (op.resume? o stop).map (Resumption.raise d) :=
  op.resume?_map (f := (· + d)) (fun _ _ => rfl) rfl o stop

namespace State

variable (s : State)

theorem raise_goto (link : Link) : (s.goto link).raise d = (s.raise d).goto link := rfl

/-- What is recorded in a raised state is the raised offset.  Nothing is
recorded in either if the attempt has no slots. -/
theorem raise_record (slot : ℕ) : (s.record slot).raise d = (s.raise d).record slot := by
  obtain ⟨control, offset, reverse, opts, depth, stack, kept, visited, slots⟩ := s
  cases slots with
  | none => rfl
  | some slots =>
    simp only [record, raise, Option.map_some, getElem?_raiseSlots]
    cases slots[slot]? with
    | none => rfl
    | some old =>
      simp only [Option.map_some, raiseSlots_set, slotValue_add]
      rfl

end State

/-! ### Steps -/

namespace Attempt

/-- Whether an attempt runs in step with another one, at raised offsets.  The
programs are the same, and the targets have the same characters. -/
structure Raises (a a' : Attempt) (d : ℕ) : Prop extends a.Embeds a' (· + d) where
  /-- Raised offsets can be recorded, or nothing asks for what is. -/
  recordable : a.span.stop + d < maxOffset ∨ a.program.NeverRefers

namespace Raises

variable {a a' : Attempt} {s : State} {k : ℕ} {op : Op} (h : a.Raises a' d)

include h

/-- An operation that looks at a group finds the raised span that it has
captured. -/
theorem capturedSpan (hheld : ∀ slots ∈ sl, a.PlacedAll slots) {f : Feature} {group : ℕ}
    (hop : a.program.ops[k]? = some op) (hf : op.feature? = some f) (hg : f.group? = some group) :
    Regexp.capturedSpan (sl.map (raiseSlots d)) group =
      (Regexp.capturedSpan sl group).map (Option.map (Span.map (· + d))) := by
  have hstop : a.span.stop + d < maxOffset := by
    refine h.recordable.resolve_right fun hrefers => ?_
    rw [hrefers k op f hop hf] at hg
    cases hg
  have hslots : sl.map (raiseSlots d) = sl.map (Array.map (Option.map (· + d))) := by
    cases sl with
    | none => rfl
    | some slots =>
      refine congrArg some (raiseSlots_eq fun o ho => ?_)
      exact (Nat.add_le_add_right (hheld slots rfl o ho).1.2 d).trans_lt hstop
  rw [hslots]
  exact h.toEmbeds.capturedSpan_map hheld group

theorem entered? (id : ℕ) : a'.entered? (s.raise d) id = a.entered? s id := by
  simp only [Attempt.entered?, State.raise, h.span_eq, Span.map, Nat.add_lt_add_iff_right,
    Nat.add_sub_add_right]

theorem markEntered (id : ℕ) : a'.markEntered (s.raise d) id = (a.markEntered s id).raise d := by
  simp only [Attempt.markEntered, State.raise, h.span_eq, Span.map, Nat.add_sub_add_right]

theorem exec (hs : s.Safe a) (hop : a.program.ops[k]? = some op) :
    a'.exec k op (s.raise d) = (a.exec k op s).raise d := by
  have hplaced : a.Placed s.offset := ⟨hs.offset_mem, hs.cuts_none⟩
  cases op with
  | atom atom next =>
    have hread : a'.read atom s.opts s.reverse (s.offset + d) (s.slots.map (raiseSlots d)) =
        (a.read atom s.opts s.reverse s.offset s.slots).map (Option.map (· + d)) := by
      refine h.toEmbeds.read hplaced hs.recorded atom fun group hatom => ?_
      subst hatom
      exact h.capturedSpan hs.recorded hop rfl rfl
    simp only [Attempt.exec]
    rw [show a'.read atom (s.raise d).opts (s.raise d).reverse (s.raise d).offset
      (s.raise d).slots = _ from hread]
    cases a.read atom s.opts s.reverse s.offset s.slots with
    | error e => rfl
    | ok found => cases found <;> rfl
  | union links => rcases links with _ | ⟨l, _ | ⟨l', ls⟩⟩ <;> rfl
  | closure id child greedy next =>
    simp only [Attempt.exec, h.entered?, h.markEntered]
    split <;> rfl
  | mark group edge next =>
    show Outcome.next (((s.raise d).record _).goto next) = .next (((s.record _).goto next).raise d)
    rw [State.raise_goto, State.raise_record]
  | ifGroup group yes no =>
    simp only [Attempt.exec]
    rw [show Regexp.capturedSpan (s.raise d).slots group = _ from
      h.capturedSpan hs.recorded hop rfl rfl]
    cases Regexp.capturedSpan s.slots group with
    | error e => rfl
    | ok captured => cases captured <;> rfl
  | question | look | independent | modifier | ifLook | fail => rfl

theorem accept : a'.accept (s.raise d) = (a.accept s).raise d := by
  obtain ⟨control, offset, reverse, opts, depth, stack, kept, visited, slots⟩ := s
  cases depth with
  | zero =>
    simp only [Attempt.accept_eq, State.raise, h.whole_eq, h.span_eq, Span.map, ne_eq,
      Nat.add_right_cancel_iff]
    split <;> rfl
  | succ depth =>
    simp only [Attempt.accept_eq, State.raise, unwind_raise, h.program_eq]
    cases unwind stack with
    | none => rfl
    | some u =>
      cases hop : a.program.ops[u.op]? with
      | none => simp only [Option.map_some, Unwound.raise, hop]; rfl
      | some op =>
        have hresume := op.resume?_raise (d := d) u.offset (some offset)
        rw [Option.map_some] at hresume
        simp only [Option.map_some, Unwound.raise, hop, Option.bind_some, hresume]
        cases op.resume? u.offset (some offset) with
        | none => rfl
        | some r =>
          cases r with
          | go o link => simp [Resumption.raise, Outcome.raise, State.raise]
          | abandon =>
            simp [Resumption.raise, Outcome.raise, State.raise, Function.comp_def,
              restoreAll_raise]

theorem back : a'.back (s.raise d) = (a.back s).raise d := by
  obtain ⟨control, offset, reverse, opts, depth, stack, kept, visited, slots⟩ := s
  cases stack with
  | nil => rfl
  | cons f stack =>
    cases f with
    | slot i old =>
      simp [Attempt.back, State.raise, Frame.raise, Outcome.raise, Function.comp_def,
        raiseSlots_set]
    | retry i o =>
      simp only [Attempt.back, State.raise, List.map_cons, Frame.raise, h.program_eq]
      cases (a.program.ops[i]?).bind Op.otherBranch? <;> rfl
    | alternate i index o =>
      simp only [Attempt.back, State.raise, List.map_cons, Frame.raise, h.program_eq]
      cases a.program.ops[i]? with
      | none => rfl
      | some op =>
        cases op with
        | union links =>
          simp only
          rcases links.drop (index + 1) with _ | ⟨l, _ | ⟨l', ls⟩⟩ <;> rfl
        | _ => rfl
    | sub i o reverse' opts' =>
      simp only [Attempt.back, State.raise, List.map_cons, Frame.raise, h.program_eq]
      cases depth with
      | zero => rfl
      | succ depth =>
        cases a.program.ops[i]? with
        | none => rfl
        | some op =>
          have hresume := op.resume?_raise (d := d) o none
          rw [Option.map_none] at hresume
          simp only [Option.bind_some, hresume]
          cases op.resume? o none with
          | none => rfl
          | some r => cases r <;> rfl

/-- **A raised state takes the raised step.**  Only what is recorded could be
different, at the largest offset. -/
theorem step (hs : s.Safe a) : a'.step (s.raise d) = (a.step s).raise d := by
  have hcontrol : (s.raise d).control = s.control := rfl
  rw [Attempt.step, Attempt.step, hcontrol, h.program_eq]
  cases s.control with
  | run l =>
    cases l with
    | none => exact h.accept
    | some k =>
      simp only
      cases hop : a.program.ops[k]? with
      | none => rfl
      | some op => exact h.exec hs hop
  | fail => exact h.back

/-! ### Attempts -/

/-- What a run comes to from a raised state is the raised state that it would
come to, and that one is safe. -/
theorem loop (hs : s.Safe a) (hs' : (s.raise d).Valid a') :
    (a'.loop (s.raise d) hs').1 = (a.loop s hs.toValid).1.map (Option.map (· + d)) ∧
      (a'.loop (s.raise d) hs').2 = (a.loop s hs.toValid).2.raise d ∧
      (a.loop s hs.toValid).2.Safe a := by
  induction s using (State.lighter_wf a).induction with
  | _ s ih =>
    have hstep := h.step hs
    cases hnext : a.step s with
    | next s₁ =>
      rw [hnext] at hstep
      rw [loop_eq_of_step hs.toValid hnext, loop_eq_of_step hs' hstep]
      exact ih s₁ (step_lighter hs.toValid hnext)
        ((transition_of_step hnext).safe h.onText hs (step_valid hs.toValid hnext)) _
    | halt answer s₁ =>
      rw [hnext] at hstep
      rw [loop_eq_of_halt hs.toValid hnext, loop_eq_of_halt hs' hstep]
      exact ⟨rfl, rfl, eq_of_halt hnext ▸ hs⟩
    | stuck => exact absurd hnext (step_ne_stuck hs.toValid)

end Raises

end Attempt

/-- What an attempt leaves behind, with raised offsets. -/
def AttemptResult.raise (d : ℕ) (r : AttemptResult) : AttemptResult where
  answer := r.answer.map (Option.map (· + d))
  slots := r.slots.map (raiseSlots d)
  cache := r.cache.raise d

namespace Attempt

variable {a a' : Attempt} {e : ℕ}

/-- A match that an attempt answers with cuts no character: it ends where one
starts, or at the end of the span. -/
theorem placed_of_answer (ht : a.OnText) (ho : a.Placed o) {cache : Cache} {opts : Options}
    (h : (a.run cache opts sl o).answer = .ok (some e)) : a.Placed e := by
  obtain ⟨r, ⟨V, hr⟩, hreports⟩ := exists_discovers cache opts sl ho.1
  have hplaced : r.Placed a := hr.placed ht ho fun slots hslots => by
    obtain ⟨slots, -, rfl⟩ := Option.map_eq_some_iff.mp hslots
    intro o ho
    simp at ho
  have hstop := hreports.answer_iff.mp h
  cases r with
  | matched e' sl' =>
    cases hstop
    exact hplaced.1
  | failed | refused => cases hstop

namespace Raises

variable (h : a.Raises a' d)

include h

theorem start (cache : Cache) (opts : Options) :
    a'.start (cache.raise d) opts (sl.map (raiseSlots d)) (o + d) =
      (a.start cache opts sl o).raise d := by
  simp only [Attempt.start, State.raise, h.program_eq, Option.map_map]
  congr 1
  cases sl with
  | none => rfl
  | some slots => simp [raiseSlots_replicate]

/-- **A raised attempt leaves the raised result**, in which no recorded offset
cuts a character. -/
theorem run (ho : a.Placed o) (cache : Cache) (opts : Options) (sl : Option Slots) :
    a'.run (cache.raise d) opts (sl.map (raiseSlots d)) (o + d) =
        (a.run cache opts sl o).raise d ∧
      ∀ slots ∈ (a.run cache opts sl o).slots, a.PlacedAll slots := by
  have hsafe : (a.start cache opts sl o).Safe a := start_safe ho
  have hvalid : (a'.start (cache.raise d) opts (sl.map (raiseSlots d)) (o + d)).Valid a' :=
    start_valid (h.toEmbeds.inSpan ho)
  have hvalid' := h.start cache opts ▸ hvalid
  obtain ⟨hanswer, hstate, hend⟩ := h.loop hsafe hvalid'
  have hloop : a'.loop _ hvalid = a'.loop _ hvalid' := by
    congr 1
    exact h.start cache opts
  rw [Attempt.run, Attempt.run, dif_pos (h.toEmbeds.inSpan ho), dif_pos ho.1, hloop]
  refine ⟨?_, hend.recorded⟩
  simp only [AttemptResult.raise, hanswer, hstate]
  rfl

end Raises

end Attempt

/-! ### Searches -/

/-- What a search leaves behind, with raised offsets. -/
def SearchResult.raise (d : ℕ) (r : SearchResult) : SearchResult where
  answer := r.answer.map (Option.map (Span.map (· + d)))
  slots := r.slots.map (raiseSlots d)
  cache := r.cache.raise d

/-- What a search has from an attempt at an offset. -/
def AttemptResult.behind (o : ℕ) (r : AttemptResult) : SearchResult where
  answer := r.answer.map (Option.map (Span.mk o))
  slots := r.slots
  cache := r.cache

theorem Search.attempt_eq (s : Search) (cache : Cache) (slots : Option Slots) (o : ℕ) :
    s.attempt cache slots o = (s.toAttempt.run cache s.opts slots o).behind o := rfl

theorem AttemptResult.raise_behind (r : AttemptResult) :
    (r.raise d).behind (o + d) = (r.behind o).raise d := by
  obtain ⟨answer, slots, cache⟩ := r
  cases answer with
  | error e => rfl
  | ok stop => cases stop <;> rfl

theorem SearchResult.raise_answer_eq_none (r : SearchResult) :
    (r.raise d).answer = .ok none ↔ r.answer = .ok none := by
  obtain ⟨answer, slots, cache⟩ := r
  cases answer with
  | error e => exact ⟨nofun, nofun⟩
  | ok found => cases found <;> simp [raise, Except.map]

/-- Whether what a search leaves behind cuts no character. -/
structure SearchResult.Placed (r : SearchResult) (a : Attempt) : Prop where
  answer : ∀ m, r.answer = .ok (some m) → a.Placed m.start ∧ a.Placed m.stop
  slots : ∀ slots ∈ r.slots, a.PlacedAll slots

/-- A search without a match leaves slots as they were, so they cut no character
if they did not before. -/
theorem SearchResult.Placed.of_slots {a : Attempt} (hsl : ∀ slots ∈ sl, a.PlacedAll slots)
    (cache : Cache) : (⟨.ok none, sl, cache⟩ : SearchResult).Placed a :=
  ⟨nofun, hsl⟩

namespace Search

/-- What a scan does at an offset: an attempt, if the filter lets it.  A scan is
a sequence of these. -/
def tryAt (s : Search) (filter : (before behind : Option Char) → Bool) (before : Option Char)
    (cache : Cache) (slots : Option Slots) (o : ℕ) : SearchResult :=
  if filter before ((s.target.charAfter o s.span.stop).map (·.1)) then s.attempt cache slots o
  else ⟨.ok none, slots, cache⟩

/-- A scan goes on behind the next character if it has found nothing so far.  An
error ends it as a match does. -/
theorem scan_eq (s : Search) (last : ℕ) (filter : (before behind : Option Char) → Bool)
    (before : Option Char) (cache : Cache) (slots : Option Slots) {r : SearchResult}
    (hr : s.tryAt filter before cache slots o = r) :
    s.scan last filter before cache slots o = if r.answer = .ok none then
        ((s.target.charAfter o s.span.stop).map fun next =>
          if next.2 ≤ last then s.scan last filter (some next.1) r.cache r.slots next.2
          else r).getD r
      else r := by
  rw [tryAt] at hr
  rw [scan]
  simp only [hr]
  cases hanswer : r.answer with
  | error e => simp
  | ok found =>
    cases found with
    | some m => simp
    | none =>
      rw [if_pos rfl]
      simp only
      split <;>
      · rename_i hnext
        rw [hnext]
        rfl

/-- Whether a search runs in step with another one, at raised offsets.  A
literal that is looked for has to have the table that was made for it. -/
structure Raises (s s' : Search) (d : ℕ) : Prop where
  attempt : s.toAttempt.Raises s'.toAttempt d
  strategy_eq : s'.strategy = s.strategy
  opts_eq : s'.opts = s.opts
  start_le : s.span.start ≤ s.span.stop
  /-- The literals that are looked for have the table of shifts that was made
  for them. -/
  literal : ∀ l, s.strategy.whole = some l ∨ s.strategy.required = some l →
    l = .ofChars l.chars l.fold

namespace Raises

variable {s s' : Search} {cache : Cache} (h : s.Raises s' d)

include h

theorem target : s.target.Embeds s'.target (· + d) := h.attempt.target

theorem span_eq : s'.span = s.span.map (· + d) := h.attempt.span_eq

theorem placed_start : s.toAttempt.Placed s.span.start :=
  ⟨⟨le_rfl, h.start_le⟩, h.attempt.start_boundary⟩

theorem attempt_raise (ho : s.toAttempt.Placed o) :
    s'.attempt (cache.raise d) (sl.map (raiseSlots d)) (o + d) = (s.attempt cache sl o).raise d ∧
      (s.attempt cache sl o).Placed s.toAttempt := by
  obtain ⟨hrun, hslots⟩ := h.attempt.run ho cache s.opts sl
  refine ⟨?_, fun m hm => ?_, hslots⟩
  · rw [attempt_eq, attempt_eq, h.opts_eq, hrun, AttemptResult.raise_behind]
  · rw [attempt_eq, AttemptResult.behind] at hm
    cases hanswer : (s.toAttempt.run cache s.opts sl o).answer with
    | error e =>
      rw [hanswer] at hm
      cases hm
    | ok stop =>
      rw [hanswer] at hm
      cases stop with
      | none => cases hm
      | some e =>
        cases hm
        exact ⟨ho, Attempt.placed_of_answer h.attempt.onText ho hanswer⟩

/-- A scan of raised offsets passes the same filter at each of them, and so
makes the same attempts. -/
theorem scan (last : ℕ) (filter : (before behind : Option Char) → Bool) (before : Option Char)
    (ho : s.toAttempt.Placed o) (hsl : ∀ slots ∈ sl, s.toAttempt.PlacedAll slots) :
    s'.scan (last + d) filter before (cache.raise d) (sl.map (raiseSlots d)) (o + d) =
        (s.scan last filter before cache sl o).raise d ∧
      (s.scan last filter before cache sl o).Placed s.toAttempt := by
  induction hn : s.span.stop - o using Nat.strong_induction_on generalizing o before cache sl with
  | _ n ih =>
    have hchar : s'.target.charAfter (o + d) s'.span.stop =
        (s.target.charAfter o s.span.stop).map (Prod.map id (· + d)) := by
      rw [h.span_eq]
      exact h.target.charAfter ho.2 h.attempt.stop_boundary
    have htry : s'.tryAt filter before (cache.raise d) (sl.map (raiseSlots d)) (o + d) =
        (s.tryAt filter before cache sl o).raise d := by
      rw [tryAt, tryAt, hchar, Option.map_map]
      show (if filter before ((s.target.charAfter o s.span.stop).map (·.1)) then _ else _) = _
      split
      · exact (h.attempt_raise ho).1
      · rfl
    have hplaced : (s.tryAt filter before cache sl o).Placed s.toAttempt := by
      rw [tryAt]
      split
      · exact (h.attempt_raise ho).2
      · exact .of_slots hsl cache
    obtain ⟨r, hr⟩ : ∃ r, s.tryAt filter before cache sl o = r := ⟨_, rfl⟩
    rw [hr] at htry hplaced
    rw [scan_eq s' _ _ _ _ _ htry, scan_eq s _ _ _ _ _ hr, hchar]
    simp only [r.raise_answer_eq_none]
    split
    · cases hnext : s.target.charAfter o s.span.stop with
      | none => exact ⟨rfl, hplaced⟩
      | some next =>
        have hbounds := Target.charAfter_bounds hnext
        simp only [Option.map_some, Option.getD_some, Prod.map_fst, Prod.map_snd, id,
          Nat.add_le_add_iff_right]
        split
        · refine ih _ (by omega) (some next.1) ⟨?_, ?_⟩ hplaced.slots rfl
          · exact ⟨ho.1.1.trans hbounds.1.le, hbounds.2⟩
          · exact Target.isBoundary_of_charAfter h.target.genuine h.attempt.stop_boundary hnext
        · exact ⟨rfl, hplaced⟩
    · exact ⟨rfl, hplaced⟩

/-- The search by attempts, once there is room for a match.  The last offset
that is tried is raised like all others. -/
theorem byAttempts (hroom : s.strategy.minLen ≤ s.span.length)
    (hsl : ∀ slots ∈ sl, s.toAttempt.PlacedAll slots) :
    s'.byAttempts (cache.raise d) (sl.map (raiseSlots d)) = (s.byAttempts cache sl).raise d ∧
      (s.byAttempts cache sl).Placed s.toAttempt := by
  have hstart : s'.span.start = s.span.start + d := congrArg Span.start h.span_eq
  have hlast : s'.span.stop - s.strategy.minLen = s.span.stop - s.strategy.minLen + d := by
    have hstop : s'.span.stop = s.span.stop + d := congrArg Span.stop h.span_eq
    rw [Span.length] at hroom
    omega
  simp only [Search.byAttempts, h.strategy_eq, h.opts_eq, hstart, hlast]
  split
  · split
    · exact h.attempt_raise h.placed_start
    · exact h.scan _ _ _ h.placed_start hsl
  · exact h.scan _ _ _ h.placed_start hsl

theorem find?_raise {l : Literal} (hl : l = .ofChars l.chars l.fold) :
    l.find? s'.target s'.span = (l.find? s.target s.span).map (Span.map (· + d)) := by
  rw [hl, h.span_eq]
  exact Literal.find?_map h.target h.attempt.start_boundary h.attempt.stop_boundary h.start_le

/-- A literal is found within the span, from the start of a character to the
start of another one or the end. -/
theorem placed_of_find? {l : Literal} (hl : l = .ofChars l.chars l.fold) {m : Span}
    (hm : l.find? s.target s.span = some m) :
    s.toAttempt.Placed m.start ∧ s.toAttempt.Placed m.stop := by
  have ht := h.target.genuine
  have hlocates : Literal.Locates s.target s.span l.fold l.chars (some m) := by
    rw [← hm, hl]
    exact Literal.find?_locates ht h.attempt.start_boundary h.attempt.stop_boundary h.start_le
  obtain ⟨hspells, hstart, hstop, hfirst⟩ := hlocates
  by_cases hne : l.chars = []
  · -- A literal without characters is found at the start.
    rw [hne] at hspells hfirst
    have hspells : m.start = m.stop := hspells
    have hle : m.start ≤ s.span.start := by
      by_contra hlt
      exact hfirst _ s.span.start le_rfl (by omega) rfl
    rw [← hspells, le_antisymm hle hstart]
    exact ⟨h.placed_start, h.placed_start⟩
  · obtain ⟨k, hoccurs, hk, hk', -⟩ := (Target.spells_iff_occursAt hne).mp hspells
    have hlength := hoccurs.add_length_le hne
    have hle := hspells.le
    refine ⟨⟨⟨hstart, hle.trans hstop⟩, ?_⟩, ⟨hstart.trans hle, hstop⟩, ?_⟩
    · exact (Target.isBoundary_iff ht).mpr ⟨k, by omega, hk⟩
    · exact (Target.isBoundary_iff ht).mpr ⟨_, hlength, hk'⟩

/-- **A raised search leaves the raised result**, errors included. -/
theorem run (cache : Cache) (hsl : ∀ slots ∈ sl, s.toAttempt.PlacedAll slots) :
    s'.run (cache.raise d) (sl.map (raiseSlots d)) = (s.run cache sl).raise d ∧
      (s.run cache sl).Placed s.toAttempt := by
  have hstart : s'.span.start = s.span.start + d := congrArg Span.start h.span_eq
  have hlength : s'.span.length = s.span.length := by
    rw [h.span_eq]
    exact Nat.add_sub_add_right ..
  simp only [Search.run, h.strategy_eq, h.opts_eq, hlength, hstart]
  split
  · exact ⟨rfl, .of_slots hsl cache⟩
  · rename_i hroom
    rw [Nat.not_lt] at hroom
    split
    · exact h.attempt_raise h.placed_start
    · split
      · rename_i l hwhole
        have hl := h.literal l (.inl hwhole)
        rw [h.find?_raise hl]
        exact ⟨rfl, fun m hm => h.placed_of_find? hl (Except.ok.inj hm), hsl⟩
      · rename_i l hwhole hrequired
        have hl := h.literal l (.inr hrequired)
        rw [h.find?_raise hl, Option.isNone_map]
        split
        · exact ⟨rfl, .of_slots hsl cache⟩
        · exact h.byAttempts hroom hsl
      · exact h.byAttempts hroom hsl

end Raises

end Search

end Regexp
