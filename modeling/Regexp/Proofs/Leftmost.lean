import Mathlib.Data.List.Pairwise
import Regexp.Proofs.Expression
import Regexp.Proofs.Outcome

/-!
# Leftmost matches

A search without shortcuts makes an attempt at each offset in turn,
`Search.runPlainly`.  Its answer is the leftmost match, and there is only one; a
scan that skips offsets has the same answer as long as the leftmost match is not
at an offset that it skips.

`Search.IsLeftmost` says of a result that it is that of the leftmost match, with
its slots, or that all attempts fail.  It mentions what attempts find
(`Search.Discovers`) but not that they are made, so it is a description that
every way to search can be held against.  It has one solution
(`Search.IsLeftmost.unique`), and two searches that both satisfy it agree.

Only offsets that cut no character count (`Search.Reachable`).  A scan comes
from one to the next by reading a character, and there is no such offset in
between (`Search.le_of_hasChar`).  While it goes on, all attempts before its
offset have failed, those that were made and those that were skipped.  For the
skipped ones this is what has to be known of a filter: that the leftmost match,
if there is one, is at an offset that passes (`Search.Admits`).  It is a
condition on the leftmost match only, because a scan by lines does skip offsets
at which there is a match.

## Main definitions

* `Search.Reachable` — the offsets of a span that cut no character.
* `Search.runPlainly` — the search without shortcuts.
* `Search.IsLeftmost` — whether a result is that of the leftmost match.
* `Search.Admits` — whether a scan that skips offsets comes to the leftmost
  match.

## Main statements

* `Search.IsLeftmost.unique` — there is one leftmost match.
* `Search.runPlainly_isLeftmost` — the search without shortcuts finds it.
* `Search.scan_isLeftmost` — a scan finds it that does not skip it.
-/

namespace Regexp

namespace Search

variable {s : Search} {cache : Cache} {slots : Option Slots} {o o' : ℕ} {c : Char}

/-! ### Offsets of a span -/

/-- Whether an offset lies in the span and cuts no character, so that an attempt
can be made there. -/
def Reachable (s : Search) (o : ℕ) : Prop :=
  s.span.start ≤ o ∧ o ≤ s.span.stop ∧ s.target.isBoundary o = true

/-- The attempts of a search. -/
def toAttempt (s : Search) : Attempt := ⟨s.strategy.program, s.target, s.span, s.opts.xmlSchema⟩

theorem Reachable.inSpan (h : s.Reachable o) : s.toAttempt.InSpan o := ⟨h.1, h.2.1⟩

section

variable (ht : s.target.IsGenuine) (h : isValidSpan s.target s.span = true)

include ht h

omit ht in
theorem reachable_start : s.Reachable s.span.start :=
  ⟨le_rfl, start_le_stop h, (isBoundary_of_valid h).1⟩

omit h in
/-- The offsets on either side of a character can be reached. -/
theorem reachable_of_hasChar (hchar : s.target.HasChar s.span o c o') :
    s.Reachable o ∧ s.Reachable o' := by
  have hbounds := hchar.bounds
  obtain ⟨k, hk, rfl, rfl, -⟩ := hchar
  have hlt := (List.getElem?_eq_some_iff.mp hk).1
  exact ⟨⟨by omega, by omega, (Target.isBoundary_iff ht).mpr ⟨k, hlt.le, rfl⟩⟩,
    ⟨by omega, by omega, (Target.isBoundary_iff ht).mpr ⟨k + 1, hlt, rfl⟩⟩⟩

omit h in
/-- No offset inside of a character can be reached. -/
theorem le_of_hasChar (hchar : s.target.HasChar s.span o c o') {i : ℕ} (hi : s.Reachable i)
    (hlt : o < i) : o' ≤ i := by
  obtain ⟨k, hk, rfl, rfl, -⟩ := hchar
  obtain ⟨k', hk', rfl⟩ := (Target.isBoundary_iff ht).mp hi.2.2
  have hkk' : k < k' := by
    by_contra hge
    have := Target.place_le (t := s.target) (Nat.le_of_not_lt hge)
      (List.getElem?_eq_some_iff.mp hk).1.le
    omega
  exact Target.place_le hkk' hk'

omit h in
/-- A character begins at an offset before another one. -/
theorem exists_hasChar_of_lt (ho : s.Reachable o) (ho' : s.Reachable o') (hlt : o < o') :
    ∃ c i, s.target.HasChar s.span o c i := by
  obtain ⟨hstart, -, hboundary⟩ := ho
  obtain ⟨-, hstop, hboundary'⟩ := ho'
  obtain ⟨k, hk, rfl⟩ := (Target.isBoundary_iff ht).mp hboundary
  obtain ⟨k', hk', rfl⟩ := (Target.isBoundary_iff ht).mp hboundary'
  have hkk' : k < k' := by
    by_contra hge
    have := Target.place_le (t := s.target) (Nat.le_of_not_lt hge) hk
    omega
  exact ⟨_, _, k, List.getElem?_eq_getElem (hkk'.trans_le hk'), rfl, rfl, hstart,
    (Target.place_le hkk' hk').trans hstop⟩

/-- An offset that can be reached is the start of the span, or a character ends
there. -/
theorem exists_hasChar_before (ho : s.Reachable o) (hne : o ≠ s.span.start) :
    ∃ c i, s.target.HasChar s.span i c o := by
  have hfirst := (reachable_start h).2.2
  obtain ⟨hstart, hstop, hboundary⟩ := ho
  obtain ⟨k, hk, hplace⟩ := (Target.isBoundary_iff ht).mp hfirst
  obtain ⟨k', hk', rfl⟩ := (Target.isBoundary_iff ht).mp hboundary
  have hkk' : k < k' := by
    by_contra hge
    have := Target.place_le (t := s.target) (Nat.le_of_not_lt hge) hk
    omega
  obtain ⟨k', rfl⟩ := Nat.exists_eq_add_of_lt hkk'
  refine ⟨_, _, k + k', List.getElem?_eq_getElem (by omega), rfl, rfl, ?_, hstop⟩
  exact hplace ▸ Target.place_le (by omega) (by omega)

end

/-! ### The leftmost match -/

/-- Whether something is what an attempt of a search finds.  It does not mention
caches, and so not what was searched before. -/
def Discovers (s : Search) (slots : Option Slots) (o : ℕ) (r : Discovery) : Prop :=
  s.toAttempt.Discovers s.opts slots o r

/-- Whether slots can be handed to a search: none of them is set, and no attempt
is refused. -/
structure Fits (s : Search) (slots : Option Slots) : Prop where
  fresh_eq : Attempt.fresh slots = slots
  ne_refused : ∀ o e, ¬ s.Discovers slots o (.refused e)

/-- Whether all attempts before an offset fail, also those that a search leaves
out. -/
def FailsBefore (s : Search) (slots : Option Slots) (o : ℕ) : Prop :=
  ∀ i, s.Reachable i → i < o → s.Discovers slots i .failed

/-- Whether a result is that of the leftmost match, or there is none.  Each way
to search is shown to have such a result, and with `IsLeftmost.unique` they then
agree. -/
def IsLeftmost (s : Search) (slots : Option Slots) (r : SearchResult) : Prop :=
  (∃ o e, s.Reachable o ∧ s.FailsBefore slots o ∧ s.Discovers slots o (.matched e r.slots) ∧
      r.answer = .ok (some ⟨o, e⟩)) ∨
    (∀ i, s.Reachable i → s.Discovers slots i .failed) ∧ r.answer = .ok none ∧ r.slots = slots

/-- **There is one leftmost match.**  An attempt finds one thing, and before the
leftmost offset at which it succeeds all attempts fail. -/
theorem IsLeftmost.unique {r r' : SearchResult} (hr : s.IsLeftmost slots r)
    (hr' : s.IsLeftmost slots r') : r.answer = r'.answer ∧ r.slots = r'.slots := by
  rcases hr with ⟨o, e, ho, hbefore, hfound, hanswer⟩ | ⟨hfails, hanswer, hslots⟩ <;>
    rcases hr' with ⟨o', e', ho', hbefore', hfound', hanswer'⟩ | ⟨hfails', hanswer', hslots'⟩
  · rcases lt_trichotomy o o' with hlt | rfl | hlt
    · cases (hbefore' o ho hlt).unique hfound
    · have heq := hfound.unique hfound'
      injection heq with he hslots
      exact ⟨by rw [hanswer, hanswer', he], hslots⟩
    · cases (hbefore o' ho' hlt).unique hfound'
  · cases (hfails' o ho).unique hfound
  · cases (hfails o' ho').unique hfound'
  · exact ⟨hanswer.trans hanswer'.symm, hslots.trans hslots'.symm⟩

section

variable (hfits : s.Fits slots)

include hfits

omit hfits in
theorem attempt_answer (cache : Cache) : (s.attempt cache slots o).answer =
    (s.toAttempt.run cache s.opts slots o).answer.map fun stop => stop.map fun stop => ⟨o, stop⟩ :=
  rfl

omit hfits in
theorem attempt_slots (cache : Cache) : (s.attempt cache slots o).slots =
    (s.toAttempt.run cache s.opts slots o).slots := rfl

/-- An attempt fails and changes no slots, or it finds a match. -/
theorem attempt_cases (cache : Cache) (ho : s.Reachable o) :
    (s.Discovers slots o .failed ∧ (s.attempt cache slots o).answer = .ok none ∧
        (s.attempt cache slots o).slots = slots) ∨
      ∃ e, s.Discovers slots o (.matched e (s.attempt cache slots o).slots) ∧
        (s.attempt cache slots o).answer = .ok (some ⟨o, e⟩) := by
  obtain ⟨r, hr, hreports⟩ := Attempt.exists_discovers (a := s.toAttempt) cache s.opts slots
    ho.inSpan
  rw [hfits.fresh_eq] at hr hreports
  cases r with
  | matched e sl =>
    obtain ⟨hanswer, hslots⟩ := hreports
    rw [attempt_answer, attempt_slots, hanswer, hslots]
    exact .inr ⟨e, hr, rfl⟩
  | failed =>
    obtain ⟨hanswer, hslots⟩ := hreports
    rw [attempt_answer, attempt_slots, hanswer, hslots]
    exact .inl ⟨hr, rfl, rfl⟩
  | refused e => exact absurd hr (hfits.ne_refused o e)

/-- Either all attempts fail, or there is a leftmost match. -/
theorem failed_or_matched (cache : Cache) (ho : s.Reachable o) :
    s.Discovers slots o .failed ∨ ∃ e sl, s.Discovers slots o (.matched e sl) := by
  rcases s.attempt_cases hfits cache ho with ⟨hfails, -⟩ | ⟨e, hfound, -⟩
  · exact .inl hfails
  · exact .inr ⟨e, _, hfound⟩

/-- If the leftmost match cannot be anywhere, there is no match. -/
theorem failed_of_not_leftmost (h : ∀ o e sl, s.Reachable o → s.FailsBefore slots o →
    ¬ s.Discovers slots o (.matched e sl)) (o : ℕ) (ho : s.Reachable o) :
    s.Discovers slots o .failed := by
  induction o using Nat.strong_induction_on with
  | _ o ih =>
    rcases failed_or_matched hfits .empty ho with hfails | ⟨e, sl, hfound⟩
    · exact hfails
    · exact absurd hfound (h o e sl ho fun i hi hlt => ih i hlt hi)

end

/-! ### Searches without shortcuts -/

/-- The offsets of a span that cut no character, in ascending order. -/
def offsets (t : Target) (span : Span) : List ℕ :=
  (List.range' span.start (span.stop + 1 - span.start)).filter (t.isBoundary ·)

theorem mem_offsets : o ∈ offsets s.target s.span ↔ s.Reachable o := by
  rw [offsets, List.mem_filter, List.mem_range'_1, Reachable, ← and_assoc]
  exact and_congr_left fun _ => by omega

theorem pairwise_offsets (t : Target) (span : Span) : (offsets t span).Pairwise (· < ·) :=
  List.Pairwise.filter _ List.pairwise_lt_range'

/-- The attempts at offsets one after the other, until one of them does not
fail. -/
def tryAll (s : Search) (cache : Cache) (slots : Option Slots) : List ℕ → SearchResult
  | [] => ⟨.ok none, slots, cache⟩
  | o :: os =>
    let r := s.attempt cache slots o
    match r.answer with
    | .ok none => tryAll s r.cache r.slots os
    | _ => r

/-- The search without shortcuts: an attempt at each offset of the span that
cuts no character, in ascending order.  It is the standard to which other ways
of searching are held. -/
def runPlainly (s : Search) (cache : Cache) (slots : Option Slots) : SearchResult :=
  s.tryAll cache slots (offsets s.target s.span)

section

variable (hfits : s.Fits slots)

include hfits

/-- Trying offsets in turn finds the first one at which there is a match. -/
theorem tryAll_isLeftmost (os : List ℕ) (cache : Cache) (hsorted : os.Pairwise (· < ·))
    (hmem : ∀ i ∈ os, s.Reachable i)
    (hrest : ∀ i, s.Reachable i → i ∈ os ∨ s.Discovers slots i .failed) :
    s.IsLeftmost slots (s.tryAll cache slots os) := by
  induction os generalizing cache with
  | nil => exact .inr ⟨fun i hi => (hrest i hi).resolve_left nofun, rfl, rfl⟩
  | cons o os ih =>
    obtain ⟨hfirst, hsorted⟩ := List.pairwise_cons.mp hsorted
    have ho := hmem o List.mem_cons_self
    rw [tryAll]
    rcases attempt_cases hfits cache ho with ⟨hfails, hanswer, hslots⟩ | ⟨e, hfound, hanswer⟩
    · simp only [hanswer, hslots]
      refine ih _ hsorted (fun i hi => hmem i (List.mem_cons_of_mem _ hi)) fun i hi => ?_
      rcases hrest i hi with hi' | hi'
      · rcases List.mem_cons.mp hi' with rfl | hi'
        · exact .inr hfails
        · exact .inl hi'
      · exact .inr hi'
    · simp only [hanswer]
      refine .inl ⟨o, e, ho, fun i hi hlt => ?_, hfound, hanswer⟩
      rcases hrest i hi with hi' | hi'
      · rcases List.mem_cons.mp hi' with rfl | hi'
        · omega
        · have := hfirst i hi'
          omega
      · exact hi'

/-- **The search without shortcuts finds the leftmost match.** -/
theorem runPlainly_isLeftmost (cache : Cache) : s.IsLeftmost slots (s.runPlainly cache slots) :=
  tryAll_isLeftmost hfits _ cache (pairwise_offsets _ _) (fun _ hi => mem_offsets.mp hi)
    fun _ hi => .inl (mem_offsets.mpr hi)

end

/-! ### Scans -/

/-- Whether a character, if there is one, is that before an offset.  A scan
carries it along, since it has read the character already. -/
def Before (s : Search) (before : Option Char) (o : ℕ) : Prop :=
  match before with
  | some c => ∃ i, s.target.HasChar s.span i c o
  | none => o = s.span.start

/-- Whether a scan that skips offsets comes to the leftmost match, if there is
one.  Only offsets before which all attempts fail have to be considered, so a
filter may rely on that. -/
def Admits (s : Search) (slots : Option Slots) (last : ℕ)
    (filter : (before behind : Option Char) → Bool) : Prop :=
  ∀ o e sl before, s.Reachable o → s.Before before o → s.FailsBefore slots o →
    s.Discovers slots o (.matched e sl) →
      o ≤ last ∧ filter before ((s.target.charAfter o s.span.stop).map (·.1)) = true

section

variable (ht : s.target.IsGenuine) (h : isValidSpan s.target s.span = true) (hfits : s.Fits slots)

include ht h

theorem charAfter_hasChar (ho : s.Reachable o) :
    s.target.charAfter o s.span.stop = some (c, o') ↔ s.target.HasChar s.span o c o' :=
  Target.charAfter_hasChar ht (isBoundary_of_valid h).2 ho.1

/-- Something is before each offset of a span. -/
theorem exists_before (ho : s.Reachable o) : ∃ before, s.Before before o := by
  by_cases hne : o = s.span.start
  · exact ⟨none, hne⟩
  · obtain ⟨c, i, hchar⟩ := exists_hasChar_before ht h ho hne
    exact ⟨some c, i, hchar⟩

omit h in
/-- When an attempt fails, all attempts before the next offset have failed. -/
theorem FailsBefore.next (hfails : s.FailsBefore slots o) (hfail : s.Discovers slots o .failed)
    (hchar : s.target.HasChar s.span o c o') : s.FailsBefore slots o' := by
  intro i hi hlt
  rcases lt_trichotomy i o with hio | rfl | hio
  · exact hfails i hi hio
  · exact hfail
  · have := le_of_hasChar ht hchar hi hio
    omega

include hfits

omit ht h in
/-- What a scan does at an offset, where it makes an attempt only if the filter
lets it. -/
theorem scan_step {last : ℕ} {filter : (before behind : Option Char) → Bool}
    (hadmits : s.Admits slots last filter) {before : Option Char} (cache : Cache)
    (ho : s.Reachable o) (hbefore : s.Before before o) (hfails : s.FailsBefore slots o)
    {r : SearchResult} (hr : r =
      if filter before ((s.target.charAfter o s.span.stop).map (·.1)) then s.attempt cache slots o
      else ⟨.ok none, slots, cache⟩) :
    (s.Discovers slots o .failed ∧ r.answer = .ok none ∧ r.slots = slots) ∨
      ∃ e, s.Discovers slots o (.matched e r.slots) ∧ r.answer = .ok (some ⟨o, e⟩) := by
  by_cases hfilter : filter before ((s.target.charAfter o s.span.stop).map (·.1)) = true
  · rw [if_pos hfilter] at hr
    exact hr ▸ attempt_cases hfits cache ho
  · rw [if_neg hfilter] at hr
    subst hr
    rcases failed_or_matched hfits cache ho with hfail | ⟨e, sl, hfound⟩
    · exact .inl ⟨hfail, rfl, rfl⟩
    · exact absurd (hadmits o e sl before ho hbefore hfails hfound).2 hfilter

/-- **A scan that skips offsets finds the leftmost match**, if it comes to it.
The offsets that it skips are ones at which attempts would fail. -/
theorem scan_isLeftmost {last : ℕ} {filter : (before behind : Option Char) → Bool}
    (hadmits : s.Admits slots last filter) {before : Option Char} (cache : Cache)
    (ho : s.Reachable o) (hbefore : s.Before before o) (hfails : s.FailsBefore slots o) :
    s.IsLeftmost slots (s.scan last filter before cache slots o) := by
  induction hn : s.span.stop - o using Nat.strong_induction_on generalizing o before cache with
  | _ n ih =>
    -- The attempt is named, so that the two branches of the filter are told of only once.
    obtain ⟨r, hr⟩ : ∃ r, r =
        if filter before ((s.target.charAfter o s.span.stop).map (·.1)) then
          s.attempt cache slots o
        else ⟨.ok none, slots, cache⟩ := ⟨_, rfl⟩
    rw [scan.eq_def]
    simp only [← hr]
    rcases scan_step hfits hadmits cache ho hbefore hfails hr with
      ⟨hfail, hanswer, hslots⟩ | ⟨e, hfound, hanswer⟩
    · simp only [hanswer]
      split
      · rename_i c next hnext
        have hchar := (charAfter_hasChar ht h ho).mp hnext
        have hbounds := hchar.bounds
        have hfails' := hfails.next ht hfail hchar
        by_cases hlast : next ≤ last
        · rw [if_pos hlast, hslots]
          exact ih _ (by omega) r.cache (reachable_of_hasChar ht hchar).2 ⟨o, hchar⟩ hfails' rfl
        · -- There is no room for a match behind the last offset.
          rw [if_neg hlast]
          refine .inr ⟨failed_of_not_leftmost hfits fun o' e sl ho' hfails'' hfound => ?_, hanswer,
            hslots⟩
          obtain ⟨before', hbefore'⟩ := exists_before ht h ho'
          have hle := (hadmits o' e sl before' ho' hbefore' hfails'' hfound).1
          cases (hfails' o' ho' (by omega)).unique hfound
      · rename_i hnext
        refine .inr ⟨fun i hi => ?_, hanswer, hslots⟩
        rcases lt_trichotomy i o with hio | rfl | hio
        · exact hfails i hi hio
        · exact hfail
        · obtain ⟨c, o', hchar⟩ := exists_hasChar_of_lt ht ho hi hio
          rw [← charAfter_hasChar ht h ho, hnext] at hchar
          cases hchar
    · simp only [hanswer]
      exact .inl ⟨o, e, ho, hfails, hfound, hanswer⟩

end

end Search

end Regexp
