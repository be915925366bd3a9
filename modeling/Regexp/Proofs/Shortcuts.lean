import Regexp.Proofs.DotStar
import Regexp.Proofs.Forecast
import Regexp.Proofs.Leftmost
import Regexp.Proofs.LiteralSearch

/-!
# Searches with shortcuts

A search uses what is known of a pattern beforehand: how short a match can be,
with which characters it can begin, which text it contains, whether the pattern
is a literal, and whether it begins with a repetition of any character.  None of
this changes what is found.

## One specification for all shortcuts

A search with shortcuts and one without do not run in step, and they do not even
make the same attempts.  What they have in common is the leftmost match
(`Search.IsLeftmost`), of which there is only one.  So for each shortcut it is
enough to show that its answer is that of the leftmost match, and
`Search.run_isLeftmost` goes through them in the order in which they are asked
for.

Why a shortcut is right comes down to what holds of every match that an attempt
can find.  A match has a derivation, and a derivation is long enough, begins
with one of the first characters and goes through the fixed string; so where one
of these is missing, all attempts fail.  A program that is a literal matches
just where the literal stands, with all slots unset
(`Search.discovers_literal`).  The repetition of any character is the only one
for which attempts have to be compared with each other
(`Search.not_matched_of_dotStar`).

## Captures and refusals

The slots have to agree as well.  A failed attempt leaves them as they were, so
it does not matter how many attempts were made before.  An attempt can be
refused, and then a shortcut that skips it would hide this; but it is never
refused if there are slots for all groups that are referred to
(`Search.fits_of_served`), or if there are none and none are needed
(`Search.fits_none`).  A search makes sure that one of these is the case,
provided that the pattern refers to no groups but its own
(`Pattern.RefersToGroups`).

## Main definitions

* `Pattern.RefersToGroups` — whether a pattern refers to groups that it has.
* `Regex.searchBy` — a search that is made in a given way.

## Main statements

* `Search.run_isLeftmost` — a search with shortcuts finds the leftmost match.
* `Search.run_eq_runPlainly` — it has the answer and the slots of one without.
* `Regex.searchWith_eq_plain` — it answers and captures as a search without
  shortcuts does.
-/

namespace Regexp

/-! ### Strategies -/

namespace Strategy

variable {p : Pattern} {opts : Options} {literal : Literal}

/-- The literal of a strategy that is searched for is the whole program.  It is
looked for under the options of the pattern. -/
theorem fixedLiteral_of_whole (h : (ofPattern p opts).whole = some literal) :
    ∃ cs, (Program.ofPattern p).fixedLiteral = some cs ∧
      literal = .ofChars cs opts.caseInsensitive := by
  unfold ofPattern at h
  simp only at h
  split at h
  · obtain ⟨cs, hfixed, hliteral⟩ := Option.map_eq_some_iff.mp h
    exact ⟨cs, hfixed, hliteral.symm⟩
  · cases h

theorem requiredOf_of_required (h : (ofPattern p opts).required = some literal) :
    requiredOf p opts = some literal := by
  unfold ofPattern at h
  simp only at h
  split at h
  · exact h
  · cases h

end Strategy

namespace Search

variable {p : Pattern} {opts : Options} {t : Target} {span : Span} {slots sl : Option Slots}
  {o o' e : ℕ} {c : Char}

/-- The search for a pattern. -/
def ofPattern (p : Pattern) (opts : Options) (t : Target) (span : Span) : Search :=
  ⟨.ofPattern p opts, t, span, opts⟩

section

variable (ht : t.IsGenuine) (h : isValidSpan t span = true)
  (hfits : (ofPattern p opts t span).Fits slots)

include ht h

/-- A match has a derivation, and ends in the span. -/
theorem derives_of_matched (ho : (ofPattern p opts t span).Reachable o)
    (hfound : (ofPattern p opts t span).Discovers slots o (.matched e sl)) :
    Pattern.Derives t span false false opts p o e ∧ span.start ≤ e ∧ e ≤ span.stop :=
  Attempt.Discovers.derives (a := (ofPattern p opts t span).toAttempt) (onText_of_valid ht h _ _)
    rfl ho.inSpan hfound

/-! ### The room that a match needs -/

/-- A match has room before the end of the span, by as many characters as it has
at least. -/
theorem add_minLen_le (ho : (ofPattern p opts t span).Reachable o)
    (hfound : (ofPattern p opts t span).Discovers slots o (.matched e sl)) :
    o + p.minLen ≤ span.stop := by
  obtain ⟨hderives, -, hstop⟩ := derives_of_matched ht h ho hfound
  obtain ⟨w, hspells, hlength⟩ := Pattern.Derives.hasText p false opts o e hderives
  have := hspells.length_le
  omega

/-! ### First characters -/

/-- A scan by first characters comes to the leftmost match.  Where it does not
try, no match begins. -/
theorem admits_canBegin : (ofPattern p opts t span).Admits slots (span.stop - p.minLen)
    (canBegin (Strategy.firstCharsOf p opts)) := by
  intro o e sl before ho hbefore hfails hfound
  have hroom := add_minLen_le ht h ho hfound
  refine ⟨by omega, ?_⟩
  cases hfirst : Strategy.firstCharsOf p opts with
  | none => rfl
  | some set =>
    have hbegins := Pattern.firstChar_begins (derives_of_matched ht h ho hfound).1
    unfold Strategy.firstCharsOf at hfirst
    split at hfirst
    · cases hfirst
    · split at hfirst
      · rename_i hknown
        cases hfirst
        rw [hknown] at hbegins
        obtain ⟨c, i, hchar, hc⟩ := hbegins
        have hafter := (charAfter_hasChar (s := ofPattern p opts t span) ht h ho).mpr hchar
        rw [hafter]
        exact hc
      · cases hfirst

/-! ### A repetition of any character -/

/-- A match at an offset behind a character that the repetition reads is not the
leftmost one. -/
theorem not_matched_of_dotStar (hstar : (Program.ofPattern p).startsWithDotStar = true)
    (hchar : t.HasChar span o c o')
    (hc : opts.singleLine = true ∨ Scalar.isLineTerminator c = false)
    (hfails : (ofPattern p opts t span).FailsBefore slots o') :
    ¬ (ofPattern p opts t span).Discovers slots o' (.matched e sl) := by
  intro hfound
  have ho := (reachable_of_hasChar (s := ofPattern p opts t span) ht hchar).1
  have hfail := hfails o ho hchar.bounds.2.1
  have hnext := Attempt.Discovers.failed_next (a := (ofPattern p opts t span).toAttempt)
    (onText_of_valid ht h _ _) rfl hstar ho.inSpan hchar hc hfail
  cases hnext.unique hfound

/-- A scan by lines comes to the leftmost match.  A match that begins within a
line can begin at the line's start as well. -/
theorem admits_lineStart (hstar : (Program.ofPattern p).startsWithDotStar = true) :
    (ofPattern p opts t span).Admits slots (span.stop - p.minLen) lineStart := by
  intro o e sl before ho hbefore hfails hfound
  have hroom := add_minLen_le ht h ho hfound
  refine ⟨by omega, ?_⟩
  cases before with
  | none => rfl
  | some c =>
    obtain ⟨i, hchar⟩ := hbefore
    by_contra hc
    exact not_matched_of_dotStar ht h hstar hchar (.inr (Bool.eq_false_iff.mpr hc)) hfails hfound

/-- On one line the leftmost match is at the start of the span.  All that comes
before it can be taken by the dot. -/
theorem eq_start_of_matched (hstar : (Program.ofPattern p).startsWithDotStar = true)
    (hsingle : opts.singleLine = true) (ho : (ofPattern p opts t span).Reachable o)
    (hfails : (ofPattern p opts t span).FailsBefore slots o)
    (hfound : (ofPattern p opts t span).Discovers slots o (.matched e sl)) : o = span.start := by
  by_contra hne
  obtain ⟨c, i, hchar⟩ := exists_hasChar_before (s := ofPattern p opts t span) ht h ho hne
  exact not_matched_of_dotStar ht h hstar hchar (.inl hsingle) hfails hfound

include hfits

/-- The search by attempts finds the leftmost match. -/
theorem byAttempts_isLeftmost (cache : Cache) : (ofPattern p opts t span).IsLeftmost slots
    ((ofPattern p opts t span).byAttempts cache slots) := by
  have hstart : (ofPattern p opts t span).Reachable span.start := reachable_start h
  have hfirst : (ofPattern p opts t span).FailsBefore slots span.start := by
    intro i hi hlt
    have : span.start ≤ i := hi.1
    omega
  unfold byAttempts
  split
  · rename_i hstar
    replace hstar : (Program.ofPattern p).startsWithDotStar = true := hstar
    split
    · rename_i hsingle
      rcases attempt_cases hfits cache hstart with ⟨hfail, hanswer, hslots⟩ | ⟨e, hfound, hanswer⟩
      · refine .inr ⟨failed_of_not_leftmost hfits fun o e sl ho hfails hfound => ?_, hanswer,
          hslots⟩
        obtain rfl := eq_start_of_matched ht h hstar hsingle ho hfails hfound
        cases hfail.unique hfound
      · exact .inl ⟨span.start, e, hstart, hfirst, hfound, hanswer⟩
    · exact scan_isLeftmost ht h hfits (admits_lineStart ht h hstar) cache hstart rfl hfirst
  · exact scan_isLeftmost ht h hfits (admits_canBegin ht h) cache hstart rfl hfirst

/-! ### Literals -/

omit hfits in
/-- The search for a literal in a valid span finds its leftmost occurrence. -/
theorem locates_of_valid (cs : List Char) (fold : Bool) :
    Literal.Locates t span fold cs ((Literal.ofChars cs fold).find? t span) :=
  Literal.find?_locates ht (isBoundary_of_valid h).1 (isBoundary_of_valid h).2 (start_le_stop h)

/-- A text without the required literal has no match, at no offset of the span. -/
theorem failed_of_required {literal : Literal}
    (hrequired : Strategy.requiredOf p opts = some literal)
    (hnone : literal.find? t span = none) (ho : (ofPattern p opts t span).Reachable o) :
    (ofPattern p opts t span).Discovers slots o .failed := by
  refine failed_of_not_leftmost hfits (fun o e sl ho _ hfound => ?_) o ho
  obtain ⟨hderives, -, hstop⟩ := derives_of_matched ht h ho hfound
  unfold Strategy.requiredOf at hrequired
  split at hrequired
  · rename_i chars here hfixed
    split at hrequired
    · cases hrequired
      obtain ⟨i, j, hi, hj, hspells⟩ :=
        Pattern.spells_fixedString p false opts o e (chars, here) hfixed hderives
      have hlocates := locates_of_valid ht h chars here.caseInsensitive
      rw [hnone] at hlocates
      exact hlocates i j (ho.1.trans hi) (hj.trans hstop) hspells
    · cases hrequired
  · cases hrequired

omit ht h hfits in
/-- A program that is a literal has one operation to run, for a character or for
a string. -/
theorem exists_of_fixedLiteral {program : Program} {cs : List Char}
    (hfixed : program.fixedLiteral = some cs) : ∃ k atom, program.start = some k ∧
      program.ops[k]? = some (.atom atom none) ∧
      ((∃ c, atom = .char c ∧ cs = [c]) ∨ atom = .string cs) := by
  unfold Program.fixedLiteral at hfixed
  split at hfixed
  · rename_i c hstart
    obtain ⟨k, hk, hop⟩ := Option.bind_eq_some_iff.mp hstart
    cases hfixed
    exact ⟨k, _, hk, hop, .inl ⟨c, rfl, rfl⟩⟩
  · rename_i chars hstart
    obtain ⟨k, hk, hop⟩ := Option.bind_eq_some_iff.mp hstart
    cases hfixed
    exact ⟨k, _, hk, hop, .inr rfl⟩
  · cases hfixed

omit hfits in
/-- A program that is a literal matches just where the literal stands, and it
leaves the slots alone. -/
theorem discovers_literal {cs : List Char}
    (hfixed : (Program.ofPattern p).fixedLiteral = some cs) (hX : opts.xmlSchema = false)
    (ho : (ofPattern p opts t span).Reachable o) :
    (∀ e, t.Spells span opts.caseInsensitive o cs e →
        (ofPattern p opts t span).Discovers slots o (.matched e slots)) ∧
      ((∀ e, ¬ t.Spells span opts.caseInsensitive o cs e) →
        (ofPattern p opts t span).Discovers slots o .failed) := by
  obtain ⟨k, atom, hstart, hop, hatom⟩ := exists_of_fixedLiteral hfixed
  have htext : (ofPattern p opts t span).toAttempt.OnText := onText_of_valid ht h _ _
  have hread : ∀ e, (ofPattern p opts t span).toAttempt.read atom opts false o slots =
      .ok (some e) ↔ t.Spells span opts.caseInsensitive o cs e := by
    intro e
    obtain ⟨c, rfl, rfl⟩ | rfl := hatom
    · exact Attempt.read_char_iff htext ho.inSpan
    · exact Attempt.read_string_iff htext ho.inSpan
  have hlink : (ofPattern p opts t span).toAttempt.program.start = some k := hstart
  constructor
  · intro e hspells
    refine ⟨∅, ?_⟩
    rw [hlink]
    refine .read hop ((hread e).mpr hspells) (.accept fun _ hwhole => ?_)
    exact absurd (hX.symm.trans hwhole) Bool.false_ne_true
  · intro hnone
    refine ⟨∅, ?_⟩
    rw [hlink]
    refine .unread hop ?_
    cases hanswer : (ofPattern p opts t span).toAttempt.read atom opts false o slots with
    | error e => obtain ⟨c, rfl, rfl⟩ | rfl := hatom <;> cases hanswer
    | ok stop =>
      cases stop with
      | none => exact hanswer
      | some e => exact absurd ((hread e).mp hanswer) (hnone e)

omit h hfits in
/-- An occurrence in a span begins at an offset that can be reached. -/
theorem reachable_of_spells {fold : Bool} {cs : List Char} {i j : ℕ} (hne : cs ≠ [])
    (hspells : t.Spells span fold i cs j) : (ofPattern p opts t span).Reachable i := by
  obtain ⟨c, cs, rfl⟩ := List.exists_cons_of_ne_nil hne
  obtain ⟨d, k, hchar, -⟩ := hspells
  exact (reachable_of_hasChar (s := ofPattern p opts t span) ht hchar).1

omit hfits in
/-- The search for a literal that is the whole pattern finds the leftmost match,
without running the machine. -/
theorem whole_isLeftmost {cs : List Char} (hfixed : (Program.ofPattern p).fixedLiteral = some cs)
    (hX : opts.xmlSchema = false) (cache : Cache) :
    (ofPattern p opts t span).IsLeftmost slots
      ⟨.ok ((Literal.ofChars cs opts.caseInsensitive).find? t span), slots, cache⟩ := by
  have hlocates := locates_of_valid ht h cs opts.caseInsensitive
  cases hanswer : (Literal.ofChars cs opts.caseInsensitive).find? t span with
  | some r =>
    rw [hanswer] at hlocates
    obtain ⟨hspells, hstart, hstop, hfirst⟩ := hlocates
    have hreach : (ofPattern p opts t span).Reachable r.start := by
      by_cases hne : cs = []
      · -- The empty literal stands at the start of the span.
        subst hne
        have heq : r.start = span.start := by
          by_contra hlt
          exact hfirst span.start span.start le_rfl (by omega) rfl
        rw [heq]
        exact reachable_start (s := ofPattern p opts t span) h
      · exact reachable_of_spells ht hne hspells
    refine .inl ⟨r.start, r.stop, hreach, fun i hi hlt => ?_,
      (discovers_literal ht h hfixed hX hreach).1 r.stop hspells, rfl⟩
    exact (discovers_literal ht h hfixed hX hi).2 fun e => hfirst i e hi.1 hlt
  | none =>
    rw [hanswer] at hlocates
    refine .inr ⟨fun i hi => (discovers_literal ht h hfixed hX hi).2 fun e hspells => ?_, rfl, rfl⟩
    exact hlocates i e hi.1 (hspells.bounds hi.1 hi.2.1).2 hspells

/-! ### All shortcuts -/

/-- **A search with shortcuts finds the leftmost match.**  There is one case for
each shortcut: a span that is too short for a match, a literal that is the whole
pattern, one that each match contains and that is not there, and the attempts
that first characters and a program that begins by skipping over anything leave. -/
theorem run_isLeftmost (hX : opts.xmlSchema = false) (cache : Cache) :
    (ofPattern p opts t span).IsLeftmost slots ((ofPattern p opts t span).run cache slots) := by
  unfold run
  split
  · -- The span is too short for a match.
    rename_i hshort
    replace hshort : span.stop - span.start < p.minLen := hshort
    refine .inr ⟨failed_of_not_leftmost hfits fun o e sl ho _ hfound => ?_, rfl, rfl⟩
    have := add_minLen_le ht h ho hfound
    have hstart : span.start ≤ o := ho.1
    omega
  · rw [if_neg (by simpa [ofPattern] using hX)]
    split
    · rename_i literal hwhole
      obtain ⟨cs, hfixed, rfl⟩ := Strategy.fixedLiteral_of_whole hwhole
      exact whole_isLeftmost ht h hfixed hX cache
    · rename_i literal _ hrequired
      split
      · rename_i hnone
        refine .inr ⟨fun i hi => ?_, rfl, rfl⟩
        exact failed_of_required ht h hfits (Strategy.requiredOf_of_required hrequired)
          (Option.isNone_iff_eq_none.mp hnone) hi
      · exact byAttempts_isLeftmost ht h hfits cache
    · exact byAttempts_isLeftmost ht h hfits cache

/-- A search with shortcuts has the answer and the slots of one without.  Both
are the leftmost match, of which there is one. -/
theorem run_eq_runPlainly (hX : opts.xmlSchema = false) (cache : Cache) :
    ∃ found, ((ofPattern p opts t span).run cache slots).answer = .ok found ∧
      ((ofPattern p opts t span).runPlainly cache slots).answer = .ok found ∧
      ((ofPattern p opts t span).run cache slots).slots =
        ((ofPattern p opts t span).runPlainly cache slots).slots := by
  have hrun := run_isLeftmost ht h hfits hX cache
  obtain ⟨hanswer, hslots⟩ := hrun.unique (runPlainly_isLeftmost hfits cache)
  rcases hrun with ⟨o, e, -, -, -, hfound⟩ | ⟨-, hnone, -⟩
  · exact ⟨_, hfound, hanswer ▸ hfound, hslots⟩
  · exact ⟨_, hnone, hanswer ▸ hnone, hslots⟩

end

end Search

/-! ### Groups that a pattern refers to -/

namespace Pattern

/-- Whether a pattern refers to groups that it has.  Group zero is the whole
match, which cannot be referred to. -/
def RefersToGroups (p : Pattern) : Prop :=
  ∀ f ∈ p.features, ∀ g, f.group? = some g → 0 < g ∧ g < p.groupLen

mutual

/-- A pattern with a feature that refers to a group depends on what groups
captured. -/
theorem hasReferences_of_mem : (p : Pattern) → (f : Feature) → f ∈ p.features →
    f.group?.isSome = true → p.hasReferences = true
  | .backref _, _, _, _ => rfl
  | .ifGroup _ _ _, _, _, _ => rfl
  | .concat items, f, hf, hg => hasReferencesAny_of_mem items f hf hg
  | .union alternatives, f, hf, hg => hasReferencesAny_of_mem alternatives f hf hg
  | .repetition body _ _ _, f, hf, hg => hasReferences_of_mem body f hf hg
  | .group _ body, f, hf, hg => hasReferences_of_mem body f hf hg
  | .look _ body, f, hf, hg => by
    rcases List.mem_cons.mp hf with rfl | hf
    · cases hg
    · exact hasReferences_of_mem body f hf hg
  | .independent body, f, hf, hg => by
    rcases List.mem_cons.mp hf with rfl | hf
    · cases hg
    · exact hasReferences_of_mem body f hf hg
  | .modifier _ _ body, f, hf, hg => by
    rcases List.mem_cons.mp hf with rfl | hf
    · cases hg
    · exact hasReferences_of_mem body f hf hg
  | .ifLook test yes none, f, hf, hg => by
    rcases List.mem_cons.mp hf with rfl | hf
    · cases hg
    · rw [hasReferences, Bool.or_eq_true]
      exact (List.mem_append.mp hf).imp (hasReferences_of_mem test f · hg)
        (hasReferences_of_mem yes f · hg)
  | .ifLook test yes (some no), f, hf, hg => by
    rcases List.mem_cons.mp hf with rfl | hf
    · cases hg
    · rw [hasReferences, Bool.or_eq_true, Bool.or_eq_true]
      refine (List.mem_append.mp hf).imp (fun hf => ?_) (hasReferences_of_mem no f · hg)
      exact (List.mem_append.mp hf).imp (hasReferences_of_mem test f · hg)
        (hasReferences_of_mem yes f · hg)
  | .empty, _, hf, _ | .char _, _, hf, _ | .string _, _, hf, _ | .dot, _, hf, _
  | .charClass _ _, _, hf, _ | .anchor _, _, hf, _ => nomatch hf
  termination_by structural p => p

theorem hasReferencesAny_of_mem : (ps : List Pattern) → (f : Feature) → f ∈ featuresAll ps →
    f.group?.isSome = true → hasReferencesAny ps = true
  | [], _, hf, _ => nomatch hf
  | p :: ps, f, hf, hg => by
    rw [hasReferencesAny, Bool.or_eq_true]
    exact (List.mem_append.mp hf).imp (hasReferences_of_mem p f · hg)
      (hasReferencesAny_of_mem ps f · hg)
  termination_by structural ps => ps

end

end Pattern

namespace Search

variable {p : Pattern} {opts : Options} {t : Target} {span : Span}

/-- No attempt is refused if there are slots for all groups. -/
theorem fits_of_served {slots : Option Slots} {n : Option ℕ} (hsize : slots.map Array.size = n)
    (hserved : ∀ f ∈ p.features, f.Served n) (hfresh : Attempt.fresh slots = slots) :
    (ofPattern p opts t span).Fits slots where
  fresh_eq := hfresh
  ne_refused _ _ hrefused := hrefused.answers rfl hserved hsize

theorem fits_of_captures (hp : p.RefersToGroups) :
    (ofPattern p opts t span).Fits (some (Captures.ofGroupLen p.groupLen).slots) := by
  refine fits_of_served rfl (fun f hf g hg => ⟨_, rfl, ?_⟩) ?_
  · simpa [Captures.ofGroupLen] using hp f hf g hg
  · simp [Attempt.fresh, Captures.ofGroupLen]

/-- A pattern that does not depend on what groups captured needs no slots to be
searched. -/
theorem fits_none (hp : p.hasReferences = false) : (ofPattern p opts t span).Fits none := by
  refine fits_of_served rfl (fun f hf g hg => ?_) rfl
  rw [Pattern.hasReferences_of_mem p f hf (by rw [hg]; rfl)] at hp
  cases hp

end Search

/-! ### Expressions -/

namespace Regex

variable {p : Pattern} {opts : Options} {t : Target} {span : Span} {r : Regex}

/-- A search in a given way, with a cache, and with captures for the groups of
the match if there are any.  With `Search.run` it is `Regex.searchWith`. -/
def searchBy (way : Search → Cache → Option Slots → SearchResult) (r : Regex) (cache : Cache)
    (t : Target) (span : Span) (caps : Option Captures) : RegexSearch :=
  if Search.isValidSpan t span then
    let r := r.prepare
    let s : Search := ⟨r.strategy, t, span, r.opts⟩
    match caps with
    | some _ =>
      let result := way s cache (some (Captures.ofGroupLen r.groupLen).slots)
      let caps : Captures := ⟨result.slots.getD #[]⟩
      match result.answer with
      | .error e => ⟨.error e, r, result.cache, some caps⟩
      | .ok none => ⟨.ok false, r, result.cache, some caps.clear⟩
      | .ok (some span) => ⟨.ok true, r, result.cache, some (caps.setGroup 0 span)⟩
    | none =>
      let slots :=
        if r.pattern.hasReferences then some (Captures.ofGroupLen r.groupLen).slots else none
      let result := way s cache slots
      ⟨result.answer.map Option.isSome, r, result.cache, none⟩
  else ⟨.error (.invalidSpan span.start span.stop), r, cache, caps⟩

theorem searchWith_eq_searchBy (r : Regex) (cache : Cache) (t : Target) (span : Span)
    (caps : Option Captures) :
    r.searchWith cache t span caps = r.searchBy Search.run cache t span caps := rfl

/-- **A search with shortcuts answers and captures as one without.**  Whatever
has been made of an expression, and whatever cache and captures are brought
along, a search on a valid span has the answer and the captures of attempts at
all offsets of the span in ascending order. -/
theorem searchWith_eq_plain (hp : p.RefersToGroups) (hX : opts.xmlSchema = false)
    (ht : t.IsGenuine) (h : Search.isValidSpan t span = true) (hr : MadeFrom p opts r)
    (cache : Cache) (caps : Option Captures) :
    ∃ found, (r.searchWith cache t span caps).answer = .ok found ∧
      (r.searchBy Search.runPlainly cache t span caps).answer = .ok found ∧
      (r.searchWith cache t span caps).caps =
        (r.searchBy Search.runPlainly cache t span caps).caps := by
  have hhas := hr.has.prepare
  have hsearch : (⟨r.prepare.strategy, t, span, r.prepare.opts⟩ : Search) =
      .ofPattern p opts t span := by
    rw [hhas.strategy_eq, hhas.opts_eq]
    rfl
  rw [searchWith_eq_searchBy, searchBy, searchBy, if_pos h, if_pos h]
  simp only [hsearch, groupLen, hhas.pattern_eq]
  cases caps with
  | some caps =>
    obtain ⟨found, hrun, hplain, hslots⟩ := Search.run_eq_runPlainly ht h
      (Search.fits_of_captures hp) hX cache
    simp only [hrun, hplain, hslots]
    cases found with
    | none => exact ⟨false, rfl, rfl, rfl⟩
    | some span => exact ⟨true, rfl, rfl, rfl⟩
  | none =>
    have hfits : (Search.ofPattern p opts t span).Fits
        (if p.hasReferences then some (Captures.ofGroupLen p.groupLen).slots else none) := by
      split
      · exact Search.fits_of_captures hp
      · rename_i hnone
        exact Search.fits_none (Bool.eq_false_iff.mpr hnone)
    obtain ⟨found, hrun, hplain, -⟩ := Search.run_eq_runPlainly ht h hfits hX cache
    simp only [hrun, hplain]
    exact ⟨found.isSome, rfl, rfl, trivial⟩

/-- A pattern that begins with a repetition of any character and refers to its
group, on two lines of a string with characters of more than one byte. -/
theorem searchWith_eq_plain_dotStar :
    let p : Pattern := .concat [.repetition .dot 0 none true, .group (some 1) (.string ['é', 'b']),
      .backref 1]
    let r : Regex := .ofPattern p .empty
    ∃ found, (r.searchWith .empty (.ofString "a\nébéb") ⟨0, 8⟩ (some .empty)).answer = .ok found ∧
      (r.searchBy Search.runPlainly .empty (.ofString "a\nébéb") ⟨0, 8⟩ (some .empty)).answer =
        .ok found ∧
      (r.searchWith .empty (.ofString "a\nébéb") ⟨0, 8⟩ (some .empty)).caps =
        (r.searchBy Search.runPlainly .empty (.ofString "a\nébéb") ⟨0, 8⟩ (some .empty)).caps := by
  intro p r
  have hp : p.RefersToGroups := by
    intro f hf g hg
    obtain rfl : f = .reference 1 := by simpa [p, Pattern.features, Pattern.featuresAll] using hf
    cases hg
    decide
  have hvalid : Search.isValidSpan (.ofString "a\nébéb") ⟨0, 8⟩ = true := by decide
  exact searchWith_eq_plain hp rfl (Target.isGenuine_ofString _) hvalid (.parts _) .empty
    (some .empty)

end Regex

end Regexp
