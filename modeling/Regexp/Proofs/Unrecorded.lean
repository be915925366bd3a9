import Regexp.Proofs.Reuse
import Regexp.Proofs.Shortcuts

/-!
# Searches without captures

A pattern that does not depend on what its groups captured is searched without
slots if nobody asks for captures.  The machine leaves fewer frames then, but it
goes the same ways.

The run with slots and the run without are not in step, because one of them has
frames to take off that the other one has not.  Explorations have no frames, and
for them the statement is an induction with the same marks on both sides
(`Explores.of_neverRefers`): the ends are the same, and only the slots that go
along are different.  That an operation does not look at slots is a condition on
the program (`Program.NeverRefers`), which a pattern without references and
without conditions on groups provides.

A pattern that does refer to groups is given slots in any case, so that there
the two searches make the same attempts.  Hence the answer is the same in all
cases, `Search.answer_slotsFor`, and this includes errors.
`Regex.searchWith_recording` adds what the captures are afterwards: those of the
groups of the expression, and with no group set if there is no match.

## Main definitions

* `Program.NeverRefers` — whether no operation of a program looks at what a
  group has captured.

## Main statements

* `Explores.of_neverRefers` — such a program is explored alike whatever is
  recorded.
* `Attempt.answer_of_neverRefers` — an attempt has the same answer with slots
  and without.
* `Search.answer_slotsFor` — so does a search, whether or not captures are asked
  for.
* `Regex.searchWith_recording` — asking for captures does not change the answer.
-/

namespace Regexp

/-! ### Explorations -/

/-- Whether no operation of a program looks at what a group has captured, by a
copy or by a condition. -/
def Program.NeverRefers (p : Program) : Prop :=
  ∀ (k : ℕ) (op : Op) (f : Feature), p.ops[k]? = some op → op.feature? = some f → f.group? = none

/-- A pattern that does not depend on what its groups captured has such a
program. -/
theorem Program.neverRefers_ofPattern {p : Pattern} (h : p.hasReferences = false) :
    (ofPattern p).NeverRefers := by
  intro k op f hop hf
  rw [← Option.not_isSome_iff_eq_none]
  intro hg
  rw [p.hasReferences_of_mem f (feature_mem p hop hf) hg] at h
  cases h

/-- Where an exploration ends tells how to go on after it. -/
theorem Discovery.exists_ending {r : Discovery} {stop : Option ℕ} (h : r.stop? = some stop)
    (sl : Option Slots) : ∃ sl', r.ending? sl = some (stop, sl') := by
  cases r <;> cases h <;> exact ⟨_, rfl⟩

section

variable {a : Attempt} {watch : ℕ → Mode → ℕ → Marks → Prop} {top : Bool} {m : Mode}
  {V V' : Marks} {links : List Link} {i : ℕ} {sl : Option Slots} {r : Discovery}

/-- Atoms that look at no group read the same whatever is recorded. -/
theorem Program.NeverRefers.read_eq (h : a.program.NeverRefers) {k : ℕ} {atom : Atom} {next : Link}
    (hop : a.program.ops[k]? = some (.atom atom next)) (opts : Options) (reverse : Bool)
    (sl sl' : Option Slots) :
    a.read atom opts reverse i sl = a.read atom opts reverse i sl' := by
  cases atom with
  | backref group => exact absurd (h k _ _ hop rfl) (by simp [Feature.group?])
  | _ => rfl

/-- **A program that looks at no group is explored alike whatever is recorded.**
What is found differs in the slots at most. -/
theorem Explores.of_neverRefers (h : a.program.NeverRefers)
    (he : Explores a watch top m V links i sl V' r) (sl' : Option Slots) :
    ∃ r', Explores a watch top m V links i sl' V' r' ∧ r'.stop? = r.stop? := by
  -- For all slots at once: on the way the two of them record offsets, each in its own.
  induction he generalizing sl' with
  | accept hend => exact ⟨_, .accept hend, rfl⟩
  | short hw hi => exact ⟨_, .short hw hi, rfl⟩
  | @read _ _ _ _ _ sl _ _ _ _ _ hop hread _ ih =>
    obtain ⟨r', he, hr⟩ := ih sl'
    exact ⟨r', .read hop ((h.read_eq hop _ _ sl' sl).trans hread) he, hr⟩
  | @unread _ _ _ _ _ sl _ _ hop hread =>
    exact ⟨_, .unread hop ((h.read_eq hop _ _ sl' sl).trans hread), rfl⟩
  | @unreadable _ _ _ _ _ sl _ _ _ hop hread =>
    exact ⟨_, .unreadable hop ((h.read_eq hop _ _ sl' sl).trans hread), rfl⟩
  | choose hop hc _ ih =>
    obtain ⟨r', he, hr⟩ := ih sl'
    exact ⟨r', .choose hop hc he, hr⟩
  | reenter hop hV => exact ⟨_, .reenter hop hV, rfl⟩
  | enter hop hV _ ih =>
    obtain ⟨r', he, hr⟩ := ih sl'
    exact ⟨r', .enter hop hV he, hr⟩
  | mark hop _ ih =>
    obtain ⟨r', he, hr⟩ := ih (recordIn sl' _ _)
    exact ⟨r', .mark hop he, hr⟩
  | test hop | untestable hop => exact absurd (h _ _ _ hop rfl) (by simp [Feature.group?])
  | fail hop => exact ⟨_, .fail hop, rfl⟩
  | @resume _ _ _ _ _ _ _ r₁ _ _ _ _ _ stop sl₁ _ _ hop hb hw _ hr hgo _ ihb ih =>
    obtain ⟨r₂, hbody, hr₂⟩ := ihb sl'
    obtain ⟨sl₂, hending⟩ := Discovery.exists_ending (hr₂.trans (Discovery.stop?_of_ending hr)) sl'
    obtain ⟨r', he, hr'⟩ := ih sl₂
    exact ⟨r', .resume hop hb hw hbody hending hgo he, hr'⟩
  | @abandon _ _ _ _ _ _ _ r₁ _ _ _ stop sl₁ hop hb hw _ hr hgo ihb =>
    obtain ⟨r₂, hbody, hr₂⟩ := ihb sl'
    obtain ⟨sl₂, hending⟩ := Discovery.exists_ending (hr₂.trans (Discovery.stop?_of_ending hr)) sl'
    exact ⟨_, .abandon hop hb hw hbody hending hgo, rfl⟩
  | refuse hop hb hw _ ihb =>
    obtain ⟨r₂, hbody, hr₂⟩ := ihb sl'
    cases r₂ with
    | refused e => exact ⟨_, .refuse hop hb hw hbody, rfl⟩
    | _ => cases hr₂
  | nil => exact ⟨_, .nil, rfl⟩
  | first _ hne ih =>
    obtain ⟨r', he, hr⟩ := ih sl'
    refine ⟨r', .first he ?_, hr⟩
    rwa [ne_eq, Discovery.eq_failed_iff, hr, ← Discovery.eq_failed_iff]
  | later _ _ ih ih' =>
    obtain ⟨r₁, he, hr₁⟩ := ih sl'
    obtain rfl := Discovery.eq_failed_iff.mpr hr₁
    obtain ⟨r', he', hr⟩ := ih' sl'
    exact ⟨r', .later he he', hr⟩

end

/-! ### Attempts and searches -/

/-- **An attempt has the same answer with slots and without**, if the program
looks at no group. -/
theorem Attempt.answer_of_neverRefers {a : Attempt} (h : a.program.NeverRefers)
    (cache cache' : Cache) (opts : Options) (slots slots' : Option Slots) (offset : ℕ) :
    (a.run cache opts slots offset).answer = (a.run cache' opts slots' offset).answer := by
  by_cases ho : a.InSpan offset
  · obtain ⟨r, ⟨V, hr⟩, hreports⟩ := exists_discovers cache opts slots ho
    obtain ⟨r', hr', hreports'⟩ := exists_discovers cache' opts slots' ho
    obtain ⟨r₂, he, hstop⟩ := hr.of_neverRefers h (fresh slots')
    obtain rfl := hr'.unique ⟨V, he⟩
    have hanswers : r.Answers ((fresh slots).map Array.size) :=
      hr.answers (fun k op f hop hf g hg => by simp [h k op f hop hf] at hg) rfl
    obtain ⟨stop, hfound⟩ := hanswers.exists_stop
    exact (hreports.answer_iff.mpr hfound).trans
      (hreports'.answer_iff.mpr (hstop.trans hfound)).symm
  · simp [run, ho]

namespace Search

/-- A search keeps the number of slots. -/
theorem size_run (s : Search) (cache : Cache) (slots : Option Slots) :
    (s.run cache slots).slots.map Array.size = slots.map Array.size := by
  have hagrees : (s.run cache slots).Agrees
      (fun sl sl' => sl = sl' ∧ sl.map Array.size = slots.map Array.size) (s.run cache slots) := by
    refine run_agrees ?_ ⟨rfl, rfl⟩
    rintro cache cache' sl _ o ⟨rfl, hsize⟩
    obtain ⟨hanswer, hslots⟩ := s.toAttempt.run_cache cache cache' s.opts sl o
    refine ⟨by rw [attempt_answer, attempt_answer, hanswer], hslots, ?_⟩
    exact (Attempt.size_run ..).trans hsize
  exact hagrees.2.2

/-- **A search has the same answer whether or not captures are asked for.**
Either the pattern refers to no group, or it gets slots in both cases,
`Pattern.slotsFor`. -/
theorem answer_slotsFor (p : Pattern) (opts : Options) (t : Target) (span : Span)
    (cache cache' : Cache) :
    ((ofPattern p opts t span).run cache (p.slotsFor true)).answer =
      ((ofPattern p opts t span).run cache' (p.slotsFor false)).answer := by
  cases h : p.hasReferences with
  | true =>
    -- A pattern that depends on its groups gets slots even if nobody asks for them.
    have hslots : p.slotsFor true = p.slotsFor false := by simp [Pattern.slotsFor, h]
    rw [hslots]
    exact (run_cache _ _ _ _).1
  | false =>
    refine (run_agrees (R := fun _ _ => True) (fun cache cache' slots slots' o _ => ?_) trivial).1
    have hrefers : (ofPattern p opts t span).toAttempt.program.NeverRefers :=
      Program.neverRefers_ofPattern h
    refine ⟨?_, trivial⟩
    rw [attempt_answer, attempt_answer, Attempt.answer_of_neverRefers hrefers cache cache']

end Search

/-! ### Expressions -/

theorem Captures.ofGroupLen_groupLen (n : ℕ) : (ofGroupLen n).groupLen = n := by
  simp [groupLen, ofGroupLen]

/-- The captures that are handed back have as many slots as the search had. -/
theorem SearchResult.size_captures (r : SearchResult) :
    r.captures.slots.size = (r.slots.getD #[]).size := by
  unfold captures
  cases r.answer with
  | error e => rfl
  | ok found => cases found <;> simp [Captures.clear, Captures.setGroup]

/-- If slots of the groups of a pattern were given, then the captures are of
these groups. -/
theorem SearchResult.groupLen_captures {r : SearchResult} {n : ℕ}
    (h : r.slots.map Array.size = some (Captures.ofGroupLen n).slots.size) :
    r.captures.groupLen = n := by
  obtain ⟨slots, hslots, hsize⟩ := Option.map_eq_some_iff.mp h
  rw [Captures.groupLen, size_captures, hslots, Option.getD_some, hsize]
  exact Captures.ofGroupLen_groupLen n

/-- The captures that are handed back without a match are cleared. -/
theorem SearchResult.captures_of_unmatched {r : SearchResult}
    (h : r.answer.map Option.isSome = .ok false) :
    r.captures = (⟨r.slots.getD #[]⟩ : Captures).clear := by
  unfold captures
  cases hanswer : r.answer with
  | error e =>
    rw [hanswer] at h
    cases h
  | ok found =>
    cases found with
    | none => rfl
    | some span =>
      rw [hanswer] at h
      cases h

/-- Captures that were cleared have no group. -/
theorem Captures.clear_unset (c : Captures) (g : ℕ) :
    c.clear.start? g = none ∧ c.clear.stop? g = none ∧ c.clear.group? g = none := by
  have hslot : ∀ i : ℕ, c.clear.slots[i]?.join = none := by
    intro i
    simp only [clear, Array.getElem?_replicate]
    split <;> rfl
  have hstart : c.clear.start? g = none := hslot _
  exact ⟨hstart, hslot _, by simp [group?, hstart]⟩

namespace Regex

/-- **Asking for captures does not change the answer.**  Whatever caches there
are, and whatever the captures were used for before, a search has the same
answer with captures and without.  On a valid span the captures then have the
groups of the expression, and none of them is set if there is no match. -/
theorem searchWith_recording {p : Pattern} {opts : Options} {r : Regex} (hr : MadeFrom p opts r)
    (cache cache' : Cache) (t : Target) (span : Span) (caps : Captures) :
    let found := r.searchWith cache t span (some caps)
    found.answer = (r.searchWith cache' t span none).answer ∧
      (Search.isValidSpan t span = true →
        ∃ caps', found.caps = some caps' ∧ caps'.groupLen = r.groupLen ∧
          (found.answer = .ok false →
            ∀ g, caps'.start? g = none ∧ caps'.stop? g = none ∧ caps'.group? g = none)) := by
  intro found
  cases h : Search.isValidSpan t span with
  | false =>
    unfold found
    rw [searchWith_of_not_valid h, searchWith_of_not_valid h]
    exact ⟨rfl, nofun⟩
  | true =>
    obtain ⟨hanswer, hcaps⟩ := hr.has.searchWith_of_valid h cache (some caps)
    obtain ⟨hanswer', -⟩ := hr.has.searchWith_of_valid h cache' none
    refine ⟨?_, fun _ => ⟨_, hcaps, ?_, fun hnone => ?_⟩⟩
    · unfold found
      rw [hanswer, hanswer']
      exact congrArg _ (Search.answer_slotsFor p opts t span cache cache')
    · rw [groupLen, hr.has.pattern_eq]
      exact SearchResult.groupLen_captures (Search.size_run _ cache (p.slotsFor true))
    · rw [SearchResult.captures_of_unmatched (hanswer.symm.trans hnone)]
      exact Captures.clear_unset _

/-- `((a)|b)(?=c)` on `abd`: the groups that were set on the way are not set
without a match. -/
theorem searchWith_recording_unmatched :
    let p : Pattern := .concat [.group (some 1) (.union [.group (some 2) (.char 'a'), .char 'b']),
      .look .ahead (.char 'c')]
    let r : Regex := .ofPattern p .empty
    let found := r.searchWith .empty (.bufferOfString "abd") ⟨0, 3⟩ (some ⟨#[some 7]⟩)
    found.answer = .ok false ∧
      (r.searchWith .empty (.bufferOfString "abd") ⟨0, 3⟩ none).answer = .ok false ∧
        ∃ caps, found.caps = some caps ∧ caps.groupLen = 3 ∧ caps.group? 2 = none := by
  intro p r found
  have hfound : (r.searchWith .empty (.bufferOfString "abd") ⟨0, 3⟩
      (some ⟨#[some 7]⟩)).answer = .ok false := by cbv
  obtain ⟨hanswer, hcaps⟩ := searchWith_recording (.parts _ : MadeFrom p .empty r) .empty .empty
    (.bufferOfString "abd") ⟨0, 3⟩ ⟨#[some 7]⟩
  obtain ⟨caps, hsome, hlen, hunset⟩ := hcaps (by decide)
  exact ⟨hfound, hanswer.symm.trans hfound, caps, hsome, hlen, (hunset hfound 2).2.2⟩

end Regex

end Regexp
