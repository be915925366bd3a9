import Mathlib.Data.List.Permutation
import Regexp.Proofs.Dialect
import Regexp.Proofs.Expression
import Regexp.Proofs.Recognition

/-!
# Searches under the rules of XML Schema

A search under these rules decides whether the whole span is a word of the
pattern.

In this dialect there are no anchors, no references and no lookarounds, and a
match is wanted of the whole span; so the pattern is a regular expression in the
strict sense, and there is a language to compare the search with.  The theorem
is assembled from what is known of the parts: the text of the dialect is read
into a regular pattern, a regular pattern is plain
(`Pattern.isPlain_of_isRegular`), an attempt for a plain pattern finds a match
if there is a derivation, and derivations of a regular pattern are words of its
language.  A search makes a single attempt, at the start of the span, and the
machine accepts a match only where the span ends.

`Regex.search_decides_language` says this of a search as a caller sees it.  It
has an answer on any valid span, whatever the expression was used for before,
and no step of it can fail.

## Main statements

* `Pattern.isPlain_of_isRegular` — regular patterns are plain.
* `Search.spells_slice` — the characters of a valid span stand between its ends.
* `Regex.search_decides_language` — the answer of a search.
-/

namespace Regexp

namespace Pattern

mutual

/-- Regular patterns are plain. -/
theorem isPlain_of_isRegular : (p : Pattern) → p.isRegular = true → p.IsPlain
  | .empty | .char _ | .string _ | .charClass _ _ => fun _ => rfl
  | .concat items => fun h => featuresAll_of_areRegular items h
  | .union alternatives => fun h => featuresAll_of_areRegular alternatives h
  | .repetition body _ _ _ => fun h =>
    isPlain_of_isRegular body (Bool.and_eq_true_iff.mp h).2
  | .group _ body => fun h => isPlain_of_isRegular body (Bool.and_eq_true_iff.mp h).2
  | .dot | .anchor _ | .backref _ | .look _ _ | .independent _ | .modifier _ _ _ | .ifGroup _ _ _
  | .ifLook _ _ _ => nofun
  termination_by structural p => p

theorem featuresAll_of_areRegular : (ps : List Pattern) → areRegular ps = true →
    featuresAll ps = []
  | [] => fun _ => rfl
  | p :: ps => fun h => by
    obtain ⟨hp, hps⟩ := Bool.and_eq_true_iff.mp h
    have hp := isPlain_of_isRegular p hp
    rw [featuresAll, featuresAll_of_areRegular ps hps, List.append_nil]
    exact hp
  termination_by structural ps => ps

end

end Pattern

namespace Search

variable {t : Target} {span : Span}

/-- The characters of a valid span stand between its ends. -/
theorem spells_slice (ht : t.IsGenuine) (h : isValidSpan t span = true) :
    ∃ w, t.slice? span = some w ∧ t.Spells span false span.start w span.stop := by
  have hle := start_le_stop h
  simp only [isValidSpan, Bool.and_eq_true, Target.isBoundary_iff ht] at h
  obtain ⟨⟨-, k, hk, hstart⟩, k', hk', hstop⟩ := h
  have hkk' : k ≤ k' := by
    rw [hstart, hstop] at hle
    exact Target.le_of_place_le hk hle
  have hslice := Target.slice?_place ht hkk' hk'
  rw [← hstart, ← hstop] at hslice
  refine ⟨_, hslice, ?_⟩
  have heq : k + (k' - k) = k' := by omega
  have hspells := Target.spells_place (t := t) (s := span) (k := k) (n := k' - k) (by omega)
    hstart.le (by rw [heq]; exact hstop.ge)
  rwa [heq, ← hstart, ← hstop, ← List.drop_take] at hspells

/-- A search under the rules of XML Schema finds a match if and only if the
characters of the span are a word of the pattern. -/
theorem run_decides_language {p : Pattern} {opts : Options} (hp : p.isRegular = true)
    (hX : opts.xmlSchema = true) (ht : t.IsGenuine) (h : isValidSpan t span = true) (cache : Cache)
    (slots : Option Slots) : ∃ found, (run ⟨.ofPattern p opts, t, span, opts⟩ cache slots).answer =
      .ok found ∧ (found.isSome = true ↔
        ∃ w, t.slice? span = some w ∧ w ∈ p.language opts.caseInsensitive) := by
  obtain ⟨w, hslice, hspells⟩ := spells_slice ht h
  have hword : Pattern.Derives t span true false opts p span.start span.stop ↔
      ∃ w, t.slice? span = some w ∧ w ∈ p.language opts.caseInsensitive := by
    rw [Pattern.derives_iff_language p hp, hslice]
    constructor
    · rintro ⟨w', hmem, hspells'⟩
      exact ⟨w, rfl, hspells.unique hspells' ▸ hmem⟩
    · rintro ⟨w', hw', hmem⟩
      cases hw'
      exact ⟨w, hmem, hspells⟩
  rw [← hword, run]
  split
  · rename_i hshort
    refine ⟨none, rfl, ⟨nofun, fun hderives => ?_⟩⟩
    -- A span with fewer offsets than the pattern needs characters has no word.
    obtain ⟨w', hspells', hlen⟩ := hderives.hasText
    have := hspells'.length_le
    simp only [Span.length, Strategy.ofPattern] at hshort
    omega
  · rw [attempt]
    have ho : Attempt.InSpan ⟨.ofPattern p, t, span, opts.xmlSchema⟩ span.start :=
      ⟨le_rfl, start_le_stop h⟩
    have hplain := Program.feature?_eq_none (Pattern.isPlain_of_isRegular p hp)
    have hsteady : p.IsSteady := by
      intro f hf
      rw [Pattern.isPlain_of_isRegular p hp] at hf
      cases hf
    rcases Attempt.run_of_undisturbed (a := ⟨.ofPattern p, t, span, opts.xmlSchema⟩) hsteady
      (onText_of_valid ht h _ _) rfl cache opts slots ho
      (fun k m i V _ => undisturbed_of_plain hplain k m i V) with
      ⟨e, haccepts, hderives, hanswer⟩ | ⟨hanswer, hnone⟩
    · obtain rfl : e = span.stop := haccepts rfl hX
      exact ⟨some ⟨span.start, span.stop⟩, by simp [Strategy.ofPattern, hanswer, Except.map],
        fun _ => hderives, fun _ => rfl⟩
    · exact ⟨none, by simp [Strategy.ofPattern, hanswer, Except.map], nofun,
        fun hderives => absurd hderives (hnone _ fun _ _ => rfl)⟩

end Search

namespace Regex

variable {opts : Options} {p : Pattern} {r : Regex} {t : Target} {span : Span}

/-- **A search under the rules of XML Schema decides a regular language.**  An
expression whose text was read in this dialect is regular.  On any valid span a
search with it has an answer, whatever the expression was used for before, and
the answer is whether the characters of the span are a word. -/
theorem search_decides_language (hX : opts.xmlSchema = true) {text : String} {limit : ℕ}
    (hp : Pattern.parse opts text limit = .ok p) (hr : r.MadeFrom p opts) (ht : t.IsGenuine)
    (h : Search.isValidSpan t span = true) (caps : Option Captures) :
    p.isRegular = true ∧ ∃ answer, (r.search t span caps).1 = .ok answer ∧ (answer = true ↔
      ∃ w, t.slice? span = some w ∧ w ∈ p.language opts.caseInsensitive) := by
  have hregular := Pattern.parse_isRegular hX hp
  refine ⟨hregular, ?_⟩
  obtain ⟨slots, hslots⟩ := searchWith_answer (hr.has.withPool r.pool.take.2) h r.pool.take.1 caps
  obtain ⟨found, hanswer, hfound⟩ :=
    Search.run_decides_language hregular hX ht h r.pool.take.1 slots
  rw [(search_eq r t span caps).1, hslots, hanswer]
  exact ⟨found.isSome, rfl, hfound⟩

/-- A repeated group, on a text that it matches up to case. -/
theorem search_decides_language_repeated :
    let opts : Options := { caseInsensitive := true, xmlSchema := true }
    let p : Pattern := .concat [.char 'a', .repetition (.group (some 1) (.char 'b')) 0 none true]
    Pattern.parse opts "a(b)*" 1 = .ok p ∧
      ((Regex.ofParts "a(b)*" p opts).search (.bufferOfString "AbB") ⟨0, 3⟩ none).1 = .ok true := by
  intro opts p
  have hp : Pattern.parse opts "a(b)*" 1 = .ok p := by cbv
  have hvalid : Search.isValidSpan (.bufferOfString "AbB") ⟨0, 3⟩ = true := by decide
  have hgenuine : (Target.bufferOfString "AbB").IsGenuine := trivial
  obtain ⟨-, answer, hanswer, hiff⟩ := search_decides_language rfl hp (.parts "a(b)*") hgenuine
    hvalid none
  have ha : Case.Same true 'A' 'a' := by decide +kernel
  have hb : Case.Same true 'b' 'b' := Case.charsMatch_iff.mp (Case.charsMatch_self 'b')
  have hB : Case.Same true 'B' 'b' := by decide +kernel
  have hword : ['A', 'b', 'B'] ∈ p.language true := by
    refine Language.mem_mul.mpr ⟨['A'], ⟨'A', rfl, ha⟩, ['b', 'B'], ?_, rfl⟩
    refine Language.mem_mul.mpr ⟨['b', 'B'], ⟨2, by simp, by simp, ?_⟩, [], rfl, rfl⟩
    refine Language.mem_pow.mpr ⟨[['b'], ['B']], rfl, rfl, ?_⟩
    simp only [List.mem_cons, List.not_mem_nil, or_false]
    rintro w (rfl | rfl)
    · exact ⟨'b', rfl, hb⟩
    · exact ⟨'B', rfl, hB⟩
  exact ⟨hp, by rw [hanswer, hiff.mpr ⟨_, rfl, hword⟩]⟩

end Regex

end Regexp
