import Regexp.Proofs.Expression
import Regexp.Proofs.Halting
import Regexp.Proofs.Threading
import Regexp.Proofs.Trail

/-!
# Safety of the machine

Whatever state an attempt comes to, all that its next step looks up is there:
the operations and the slots that frames name, the sets of the closures, and
characters at the offsets to read from.  An implementation may then index its
arrays without checks, and a look at a character finds one that begins there.

## More than validity

`State.Valid` is what the machine needs to go on, and it holds of texts of any
kind and without slots.  `State.Safe` adds what concerns slots and characters:
each frame that restores a slot has its slot, and no offset in the state cuts a
character (`Attempt.Placed`), whether it is the current one, in a frame or in a
slot.  That no character is cut takes a text that was made from characters, and
a span and an offset to begin with that cut none of them.

The part about characters is a matter of atoms.  What an atom reads ends where a
character does (`Attempt.placed_of_read`), for which one has to know that it
reads whole characters, a literal or a copy of a region alike; every other
offset that a step stores was in the state already.  With this
`Attempt.Transition.safe` is a case for each transition.

## What is asked of the program

The bounds on groups and closures are properties of the pattern.  A program
marks no groups but those of its pattern (`Program.lt_groupLen_of_mark`), so
slots in the number of groups are enough, and the sets of offsets are in the
number of closures, whatever the cache held before (`Attempt.start_safe`).

## Main definitions

* `Attempt.Placed` — the offsets of the span that cut no character.
* `State.Safe` — a valid state that holds such offsets only, and slots for all
  its frames.

## Main statements

* `Attempt.placed_of_read` — what an atom reads ends where a character does.
* `Attempt.Transition.safe` — a step keeps a state safe.
* `Program.lt_groupLen_of_mark` — the groups that a program marks are those of
  its pattern.
* `Attempt.safe_of_after` — every state of an attempt is safe, and none of them
  is stuck.
-/

namespace Regexp

/-! ### Offsets -/

/-- The offsets of the span that cut no character.  They are the only ones at
which the text can be read. -/
def Attempt.Placed (a : Attempt) (o : ℕ) : Prop := a.InSpan o ∧ a.target.isBoundary o = true

/-- Characters that stand in a span begin and end where a character does, in
whichever direction they are read. -/
theorem Pattern.isBoundary_of_hasText {t : Target} {s : Span} {reverse : Bool} {n i j : ℕ}
    (ht : t.IsGenuine) (h : Walk reverse (HasText t s n) i j) (hi : t.isBoundary i = true) :
    t.isBoundary j = true := by
  cases reverse with
  | false =>
    obtain ⟨w, h, -⟩ := h
    rcases eq_or_ne w [] with rfl | hw
    · exact (show i = j from h) ▸ hi
    · exact h.isBoundary ht hw
  | true =>
    obtain ⟨w, h, -⟩ := h
    cases w with
    | nil => exact (show j = i from h) ▸ hi
    | cons c w =>
      obtain ⟨d, j', ⟨k, hk, rfl, -⟩, -⟩ := h
      exact (Target.isBoundary_iff ht).mpr ⟨k, (List.getElem?_eq_some_iff.mp hk).1.le, rfl⟩

namespace Attempt

variable {a : Attempt} {i j : ℕ} {reverse : Bool} {opts : Options} {sl : Option Slots}

theorem hasText_of_readChar (ht : a.OnText) (hi : a.InSpan i) {test : Char → Bool}
    (h : a.readChar reverse i test = some j) :
    Walk reverse (Pattern.HasText a.target a.span 0) i j := by
  rw [readChar_iff ht hi] at h
  cases reverse <;>
  · obtain ⟨c, hc, -⟩ := h
    exact (Pattern.HasText.of_char hc).mono (Nat.zero_le _)

/-- What an atom reads is some text, so reading ends where a character starts or
the text ends. -/
theorem hasText_of_read (ht : a.OnText) {atom : Atom} (hi : a.InSpan i)
    (h : a.read atom opts reverse i sl = .ok (some j)) :
    Walk reverse (Pattern.HasText a.target a.span 0) i j := by
  cases atom with
  | char | range | dot => exact hasText_of_readChar ht hi (Except.ok.inj h)
  | string cs =>
    rw [read_string_iff ht hi] at h
    cases reverse <;> exact (Pattern.HasText.of_spells h).mono (Nat.zero_le _)
  | anchor anchor =>
    rw [read_anchor_iff] at h
    cases reverse <;> exact h.1 ▸ .refl
  | backref group =>
    have h := hasText_of_read_backref ht hi h
    cases reverse <;>
    · obtain ⟨w, hw⟩ := h
      exact ⟨w, hw, Nat.zero_le _⟩

/-- **An atom moves between offsets that cut no character.**  For a copy of a
group this is because the text that is compared consists of whole characters,
`hasText_of_read_backref`. -/
theorem placed_of_read (ht : a.OnText) {atom : Atom} (hi : a.Placed i)
    (h : a.read atom opts reverse i sl = .ok (some j)) : a.Placed j :=
  ⟨read_inSpan hi.1 h, Pattern.isBoundary_of_hasText ht.genuine (hasText_of_read ht hi.1 h) hi.2⟩

end Attempt

/-! ### Slots and frames -/

/-- Whether slots hold no other offsets than those that cut no character.  Slots
that are not set hold none. -/
def Attempt.PlacedAll (a : Attempt) (slots : Slots) : Prop := ∀ o, some o ∈ slots → a.Placed o

/-- Whether what a frame restores is there, where slots of a size are recorded
if any are: the offset is one to go on from, the slot exists, and its old value
is one that slots may hold. -/
def Frame.Safe (a : Attempt) (size : Option ℕ) : Frame → Prop
  | .retry _ o | .alternate _ _ o | .sub _ o _ _ => a.Placed o
  | .slot i old => (∃ n ∈ size, i < n) ∧ ∀ o ∈ old, a.Placed o

/-- A valid state in which no offset cuts a character and each frame for a slot
has its slot.  The kept frames need no clause, since what is lifted in a step is
put back or undone in the same step, `Attempt.accept_eq`. -/
structure State.Safe (a : Attempt) (s : State) : Prop extends State.Valid a s where
  cuts_none : a.target.isBoundary s.offset = true
  saved : ∀ f ∈ s.stack, f.Safe a (s.slots.map Array.size)
  recorded : ∀ slots ∈ s.slots, a.PlacedAll slots

/-- If recording leaves a frame, then the slot exists, and the frame has what
the slot held. -/
theorem State.stack_record (s : State) (slot : ℕ) : (s.record slot).stack = s.stack ∨
    ∃ slots old, s.slots = some slots ∧ slots[slot]? = some old ∧
      (s.record slot).stack = .slot slot old :: s.stack := by
  unfold State.record
  split
  · rename_i slots hsl
    split
    · exact .inr ⟨slots, _, hsl, by assumption, rfl⟩
    · exact .inl rfl
  · exact .inl rfl

theorem size_restoreAll (slots : Slots) (fs : List Frame) :
    (restoreAll slots fs).size = slots.size := by
  induction fs generalizing slots with
  | nil => rfl
  | cons f fs ih =>
    cases f with
    | slot i old => exact (ih _).trans Array.size_setIfInBounds
    | _ => exact ih _

namespace Attempt

variable {a : Attempt} {s s' : State} {slots : Slots} {fs : List Frame} {size : Option ℕ}

theorem PlacedAll.set (h : a.PlacedAll slots) (i : ℕ) {old : Option ℕ}
    (hold : ∀ o ∈ old, a.Placed o) : a.PlacedAll (slots.setIfInBounds i old) := by
  intro o ho
  rcases Array.mem_or_eq_of_mem_setIfInBounds ho with ho | rfl
  · exact h o ho
  · exact hold o rfl

theorem PlacedAll.restoreAll (h : a.PlacedAll slots) (hfs : ∀ f ∈ fs, f.Safe a size) :
    a.PlacedAll (restoreAll slots fs) := by
  induction fs generalizing slots with
  | nil => exact h
  | cons f fs ih =>
    have hf := hfs f List.mem_cons_self
    have ih : ∀ {slots}, a.PlacedAll slots → a.PlacedAll (Regexp.restoreAll slots fs) := fun h =>
      ih h fun g hg => hfs g (List.mem_cons_of_mem _ hg)
    cases f with
    | slot i old => exact ih (h.set i hf.2)
    | _ => exact ih h

/-- Recording an offset that cuts no character keeps slots free of others, also
if the offset is too large to be recorded. -/
theorem placedAll_recordIn {sl : Option Slots} (h : ∀ slots ∈ sl, a.PlacedAll slots) (slot : ℕ)
    {o : ℕ} (ho : a.Placed o) : ∀ slots ∈ recordIn sl slot o, a.PlacedAll slots := by
  intro slots hslots
  obtain ⟨slots, hsl, rfl⟩ := Option.map_eq_some_iff.mp hslots
  refine (h slots hsl).set slot fun o' ho' => ?_
  unfold slotValue at ho'
  split at ho'
  · exact Option.some.inj ho' ▸ ho
  · cases ho'

/-- Unwinding takes no frames from elsewhere. -/
theorem unwind_subset {stack : List Frame} {u : Unwound} (h : unwind stack = some u) :
    .sub u.op u.offset u.reverse u.opts ∈ stack ∧ u.kept ⊆ stack ∧ u.rest ⊆ stack := by
  obtain ⟨hsub, hrest, hkept, -⟩ := unwind_some h
  exact ⟨hsub, fun f hf => (hkept f hf).1, hrest⟩

/-! ### Steps -/

/-- A step keeps the number of slots: slots are recorded in and restored, and
never added. -/
theorem Transition.size_slots (h : a.Transition s s') :
    s'.slots.map Array.size = s.slots.map Array.size := by
  cases h with
  | mark =>
    rw [← size_recordIn s.slots]
    exact congrArg (Option.map Array.size) (s.record_slots _)
  | reject => simp [Function.comp_def, size_restoreAll]
  | restore => simp [Function.comp_def]
  | _ => rfl

/-- Where a match within the match goes on, at the offset before it or at the
one behind it. -/
theorem placed_of_resume {k i j : ℕ} {op : Op} {stop : Option ℕ} {l : Link}
    (hop : a.program.ops[k]? = some op) (hi : a.Placed i) (hstop : ∀ o ∈ stop, a.Placed o)
    (h : op.resume? i stop = some (.go j l)) : a.Placed j := by
  rcases (resume?_go hop h).2 with rfl | hj
  · exact hi
  · exact hstop j hj

/-- Steps keep the number of slots. -/
theorem size_slots_of_after {n : ℕ} (h : a.after n s = .next s') :
    s'.slots.map Array.size = s.slots.map Array.size :=
  after_induction (P := fun q => q.slots.map Array.size = s.slots.map Array.size)
    (fun _ _ hq hstep => (transition_of_step hstep).size_slots.trans hq) rfl h

/-- **A step keeps a state safe.**  The cases are those of `Transition`, and all
but the reading of an atom and the recording of an end are about frames. -/
theorem Transition.safe (ht : a.OnText) (hs : s.Safe a) (h : a.Transition s s')
    (hvalid : s'.Valid a) : s'.Safe a := by
  have hoffset : a.Placed s.offset := ⟨hs.offset_mem, hs.cuts_none⟩
  have hsize := h.size_slots
  have hsaved := hs.saved
  -- Every step but those that change slots leaves what is recorded as it is, and every step but
  -- those that leave a frame takes the frames of its stack from the stack before.
  cases h with
  | abandon | test | only => exact ⟨hvalid, hs.cuts_none, hsaved, hs.recorded⟩
  | read hc hop hread =>
    exact ⟨hvalid, (placed_of_read ht hoffset hread).2, hsaved, hs.recorded⟩
  | @mark k group edge next hc hop =>
    have hslots := s.record_slots (edge.slot group)
    refine ⟨hvalid, by simpa [State.goto] using hs.cuts_none, fun f hf => ?_, ?_⟩
    · rw [hsize]
      rcases s.stack_record (edge.slot group) with hstack | ⟨slots, old, hsl, hold, hstack⟩
      · exact hsaved f (hstack ▸ hf)
      · rcases List.mem_cons.mp (hstack ▸ hf) with rfl | hf
        · obtain ⟨hlt, rfl⟩ := Array.getElem?_eq_some_iff.mp hold
          exact ⟨⟨slots.size, by simp [hsl], hlt⟩, fun o ho =>
            hs.recorded slots hsl o (ho ▸ Array.getElem_mem hlt)⟩
        · exact hsaved f hf
    · show ∀ slots ∈ (s.record (edge.slot group)).slots, a.PlacedAll slots
      rw [hslots]
      exact placedAll_recordIn hs.recorded _ hoffset
  | choose | decide | enter | begin =>
    exact ⟨hvalid, hs.cuts_none, List.forall_mem_cons.mpr ⟨hoffset, hsaved⟩, hs.recorded⟩
  | resume hd hu hop hgo =>
    obtain ⟨hsub, hkept, hrest⟩ := unwind_subset hu
    have hj := placed_of_resume hop (hsaved _ hsub) (fun _ ho => Option.some.inj ho ▸ hoffset) hgo
    refine ⟨hvalid, hj.2, fun f hf => ?_, hs.recorded⟩
    rcases List.mem_append.mp hf with hf | hf
    · exact hsaved f (hkept hf)
    · exact hsaved f (hrest hf)
  | reject hd hu hop hgo =>
    obtain ⟨-, hkept, hrest⟩ := unwind_subset hu
    refine ⟨hvalid, hs.cuts_none, fun f hf => hsize ▸ hsaved f (hrest hf), fun slots hslots => ?_⟩
    obtain ⟨slots, hsl, rfl⟩ := Option.map_eq_some_iff.mp hslots
    exact (hs.recorded slots hsl).restoreAll fun f hf => hsaved f (hkept hf)
  | restore hc hstack =>
    rw [hstack] at hsaved
    obtain ⟨hf, hrest⟩ := List.forall_mem_cons.mp hsaved
    refine ⟨hvalid, hs.cuts_none, fun f hf => hsize ▸ hrest f hf, fun slots hslots => ?_⟩
    obtain ⟨slots, hsl, rfl⟩ := Option.map_eq_some_iff.mp hslots
    exact (hs.recorded slots hsl).set _ hf.2
  | retry hc hstack hop hl =>
    rw [hstack] at hsaved
    obtain ⟨hf, hrest⟩ := List.forall_mem_cons.mp hsaved
    exact ⟨hvalid, hf.2, hrest, hs.recorded⟩
  | alternate hc hstack hop hdrop =>
    rw [hstack] at hsaved
    obtain ⟨hf, hrest⟩ := List.forall_mem_cons.mp hsaved
    refine ⟨hvalid, hf.2, ?_, hs.recorded⟩
    simp only [State.moveTo]
    split
    · exact hrest
    · exact List.forall_mem_cons.mpr ⟨hf, hrest⟩
  | pass hc hstack hd hop hgo =>
    rw [hstack] at hsaved
    obtain ⟨hf, hrest⟩ := List.forall_mem_cons.mp hsaved
    exact ⟨hvalid, (placed_of_resume hop hf (by simp) hgo).2, hrest, hs.recorded⟩
  | fail hc hstack =>
    rw [hstack] at hsaved
    exact ⟨hvalid, hs.cuts_none, (List.forall_mem_cons.mp hsaved).2, hs.recorded⟩

/-- An attempt begins in a safe state, whatever the cache and the slots were
used for before. -/
theorem start_safe {cache : Cache} {opts : Options} {sl : Option Slots} {offset : ℕ}
    (ho : a.Placed offset) : (a.start cache opts sl offset).Safe a where
  toValid := start_valid ho.1
  cuts_none := ho.2
  saved _ hf := absurd hf List.not_mem_nil
  recorded slots hslots o ho := by
    obtain ⟨slots, -, rfl⟩ := Option.map_eq_some_iff.mp hslots
    simp at ho

end Attempt

/-- Steps keep a state safe, however many there are. -/
theorem State.Safe.after {a : Attempt} {s s' : State} {n : ℕ} (ht : a.OnText) (hs : s.Safe a)
    (h : a.after n s = .next s') : s'.Safe a := by
  refine Attempt.after_induction (fun q q' hq hstep => ?_) hs h
  exact (Attempt.transition_of_step hstep).safe ht hq (Attempt.step_valid hq.toValid hstep)

/-! ### Marks -/

namespace Pattern

mutual

/-- The groups of a part of a pattern are groups of the pattern.  Hence slots
for the whole have room for the part. -/
theorem groupLen_le_of_mem : (p : Pattern) → ∀ q ∈ p.subpatterns, q.groupLen ≤ p.groupLen
  | .empty | .char _ | .string _ | .dot | .charClass _ _ | .anchor _ | .backref _ =>
    List.forall_mem_singleton.mpr (Nat.le_refl _)
  | .concat items => List.forall_mem_cons.mpr ⟨Nat.le_refl _, groupLenAll_le_of_mem items⟩
  | .union alternatives =>
    List.forall_mem_cons.mpr ⟨Nat.le_refl _, groupLenAll_le_of_mem alternatives⟩
  | .repetition body _ _ _ | .group none body | .look _ body | .independent body
  | .modifier _ _ body | .ifGroup _ body none =>
    List.forall_mem_cons.mpr ⟨Nat.le_refl _, groupLen_le_of_mem body⟩
  | .group (some _) body =>
    List.forall_mem_cons.mpr ⟨Nat.le_refl _, fun q hq =>
      le_max_of_le_right (groupLen_le_of_mem body q hq)⟩
  | .ifGroup _ yes (some no) =>
    List.forall_mem_cons.mpr ⟨Nat.le_refl _, List.forall_mem_append.mpr
      ⟨fun q hq => le_max_of_le_left (groupLen_le_of_mem yes q hq),
        fun q hq => le_max_of_le_right (groupLen_le_of_mem no q hq)⟩⟩
  | .ifLook test yes none =>
    List.forall_mem_cons.mpr ⟨Nat.le_refl _, List.forall_mem_append.mpr
      ⟨fun q hq => le_max_of_le_left (groupLen_le_of_mem test q hq),
        fun q hq => le_max_of_le_right (groupLen_le_of_mem yes q hq)⟩⟩
  | .ifLook test yes (some no) =>
    List.forall_mem_cons.mpr ⟨Nat.le_refl _, List.forall_mem_append.mpr
      ⟨List.forall_mem_append.mpr
        ⟨fun q hq => le_max_of_le_left (groupLen_le_of_mem test q hq),
          fun q hq => le_max_of_le_right (le_max_of_le_left (groupLen_le_of_mem yes q hq))⟩,
        fun q hq => le_max_of_le_right (le_max_of_le_right (groupLen_le_of_mem no q hq))⟩⟩
  termination_by structural p => p

theorem groupLenAll_le_of_mem : (ps : List Pattern) →
    ∀ q ∈ subpatternsAll ps, q.groupLen ≤ groupLenAll ps
  | [] => fun _ hq => absurd hq List.not_mem_nil
  | p :: ps =>
    List.forall_mem_append.mpr
      ⟨fun q hq => le_max_of_le_left (groupLen_le_of_mem p q hq),
        fun q hq => le_max_of_le_right (groupLenAll_le_of_mem ps q hq)⟩
  termination_by structural ps => ps

end

end Pattern

/-- **A program marks no group but those of its pattern.**  So slots for all
groups of the pattern are slots for all marks. -/
theorem Program.lt_groupLen_of_mark {p : Pattern} {k group : ℕ} {edge : Edge} {next : Link}
    (hop : (ofPattern p).ops[k]? = some (.mark group edge next)) : group < p.groupLen := by
  obtain ⟨q, hq, b, b', -, hemits⟩ := exists_part p hop
  cases hemits with
  | @mark _ body =>
    have hown : group < (Pattern.group (some group) body).groupLen :=
      lt_max_of_lt_left (Nat.lt_succ_self group)
    exact hown.trans_le (p.groupLen_le_of_mem _ hq)

namespace Attempt

/-- What a group has captured lies in the span and cuts no character, and it
does not end before it begins. -/
theorem placed_of_captured {a : Attempt} {sl : Option Slots} {group : ℕ} {region : Span}
    (hheld : ∀ slots ∈ sl, a.PlacedAll slots) (h : capturedSpan sl group = .ok (some region)) :
    region.start ≤ region.stop ∧ a.Placed region.start ∧ a.Placed region.stop := by
  unfold capturedSpan at h
  split at h
  · cases h
  · rename_i slots
    split at h
    · cases h
    · split at h
      · rename_i i j hi hj
        have hplaced : ∀ {k o : ℕ}, slots[k]?.join = some o → a.Placed o := fun ho =>
          hheld slots rfl _ (Array.mem_of_getElem? (Option.join_eq_some_iff.mp ho))
        split at h
        · cases h
          exact ⟨by assumption, hplaced hi, hplaced hj⟩
        · cases h
      · cases h

/-- **The machine finds all that it looks up.**  Every state that an attempt
comes to is safe, with as many slots as there were to begin with; all closures
have a set of offsets, all marks have a slot number, what groups have captured
cuts no character, and the state is not stuck. -/
theorem safe_of_after (p : Pattern) (t : Target) (span : Span) (whole : Bool) (cache : Cache)
    (opts : Options) (slots : Option Slots) (offset n : ℕ) (s : State) (ht : t.IsGenuine)
    (hvalid : Search.isValidSpan t span = true)
    (hoffset : Placed ⟨.ofPattern p, t, span, whole⟩ offset) (hgroups : 2 * p.groupLen ≤ maxOffset)
    (h : after ⟨.ofPattern p, t, span, whole⟩ n
      (start ⟨.ofPattern p, t, span, whole⟩ cache opts slots offset) = .next s) :
    let a : Attempt := ⟨.ofPattern p, t, span, whole⟩
    s.Safe a ∧ s.slots.map Array.size = slots.map Array.size ∧
      (∀ (k id child : ℕ) (greedy : Bool) (next : Link),
        a.program.ops[k]? = some (.closure id child greedy next) → id < s.visited.size) ∧
      (∀ (k group : ℕ) (edge : Edge) (next : Link),
        a.program.ops[k]? = some (.mark group edge next) → edge.slot group < maxOffset) ∧
      (∀ group region, capturedSpan s.slots group = .ok (some region) →
        region.start ≤ region.stop ∧ a.Placed region.start ∧ a.Placed region.stop) ∧
      a.step s ≠ .stuck := by
  intro a
  have hsafe := (start_safe hoffset).after (Search.onText_of_valid ht hvalid _ _) h
  refine ⟨hsafe, (size_slots_of_after h).trans ?_, ?_, ?_,
    fun _ _ => placed_of_captured hsafe.recorded, step_ne_stuck hsafe.toValid⟩
  · simp [start, Function.comp_def]
  · intro k id child greedy next hop
    exact (a.program.linked k _ hop).1.trans_le hsafe.visited_le
  · intro k group edge next hop
    have hlt := Program.lt_groupLen_of_mark hop
    cases edge <;> simp only [Edge.slot] <;> omega

/-- `(é)*(?<=(é))b` on `éb` after twelve steps, with a stack, kept frames and a
set left over from elsewhere: the lookbehind has read back over the first
character. -/
theorem safe_of_after_behind :
    let p : Pattern := .concat [.repetition (.group (some 1) (.char 'é')) 0 none true,
      .look .behind (.group (some 2) (.char 'é')), .char 'b']
    let a : Attempt := ⟨.ofPattern p, .ofString "éb", ⟨0, 3⟩, false⟩
    let cache : Cache := ⟨[.retry 9 1], [.slot 40 none], #[(OffsetSet.empty 0).add 2]⟩
    ∃ s, a.after 12 (a.start cache .empty (some (.replicate 6 none)) 0) = .next s ∧ s.offset = 0 ∧
      s.depth = 1 ∧ s.Safe a ∧ a.step s ≠ .stuck := by
  intro p a cache
  obtain ⟨s, h, hoffset, hdepth⟩ : ∃ s, a.after 12 (a.start cache .empty
      (some (.replicate 6 none)) 0) = .next s ∧ s.offset = 0 ∧ s.depth = 1 := by decide +kernel
  obtain ⟨hsafe, -, -, -, -, hstuck⟩ := safe_of_after p _ _ _ _ _ _ _ _ s
    (Target.isGenuine_ofString _) (by decide) ⟨by decide, by decide⟩ (by decide) h
  exact ⟨s, h, hoffset, hdepth, hsafe, hstuck⟩

end Attempt

end Regexp
