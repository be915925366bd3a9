import Mathlib
import Regexp.Proofs.Expression
import Regexp.Proofs.Forecast
import Regexp.Proofs.Language
import Regexp.Proofs.LiteralSearch
import Regexp.Proofs.Outcome
import Regexp.Proofs.Safety
import Regexp.Proofs.SchemaSearch

/-!
# What every match has

What the analyses of a pattern tell beforehand holds of every match that an
attempt finds, whatever the attempt is made with: the match begins with one of
the first characters, it is not shorter than the lower bound, and it contains
the fixed string.

These are statements about runs of the machine, for patterns of any kind,
modifiers, lookarounds and references included.  The way to them is by
derivations.  A match that is reported has a derivation
(`Attempt.derives_of_run`), generous as it may be with lookarounds, and the
analyses do not promise too much for any derivation (`Pattern.firstChar_begins`,
`Pattern.spells_fixedString`).  What remains to be done here is to say it of the
text itself: of the characters that stand between the two ends of the match, as
they are cut out of the target (`Target.slice?_of_spells`), and without
mentioning derivations.

A pattern whose first characters are known matches no empty text.  This does not
follow from what the first analysis says about derivations; it is a fact about
two analyses, that the first one never promises a character where the lower
bound is zero, `Pattern.minLen_pos_of_terminal`.

## Main statements

* `Pattern.minLen_pos_of_terminal` — a pattern whose first characters are known
  matches no empty text.
* `Target.Spells.cut` — a text can be cut at every place in it.
* `Target.Spells.infix` — what stands inside of a text is a part of it.
* `Attempt.run_begins` — the first character of a match.
* `Attempt.run_contains` — the length of a match and the string in it.
-/

namespace Regexp

/-! ### Texts -/

namespace Target

variable {t : Target} {s s' : Span} {fold : Bool} {i i' j j' : ℕ}
  {cs w u : List Char}

/-- What stands in a span stands in every wider one. -/
theorem Spells.widen (hstart : s'.start ≤ s.start) (hstop : s.stop ≤ s'.stop)
    (h : t.Spells s fold i cs j) : t.Spells s' fold i cs j := by
  induction cs generalizing i with
  | nil => exact h
  | cons c cs ih =>
    obtain ⟨d, k, ⟨n, hn, hi, hk, hle, hle'⟩, hmatch, h⟩ := h
    exact ⟨d, k, ⟨n, hn, hi, hk, hstart.trans hle, hle'.trans hstop⟩, hmatch, ih h⟩

/-- A text can be cut at every place in it. -/
theorem Spells.cut (h : t.Spells s false i w j) {n : ℕ} (hn : n ≤ t.chars.length)
    (hi : i ≤ t.place n) (hj : t.place n ≤ j) :
    ∃ u v, w = u ++ v ∧ t.Spells s false i u (t.place n) ∧ t.Spells s false (t.place n) v j := by
  induction w generalizing i with
  | nil =>
    have heq : i = j := h
    exact ⟨[], [], rfl, show i = t.place n by omega, show t.place n = j by omega⟩
  | cons c w ih =>
    rcases hi.eq_or_lt with heq | hlt
    · exact ⟨[], c :: w, rfl, heq, heq ▸ h⟩
    · obtain ⟨d, k, ⟨m, hm, rfl, rfl, hbounds⟩, hmatch, hrest⟩ := h
      -- There is no place inside of the first character.
      have hmn : m + 1 ≤ n := by
        by_contra hnm
        have := place_le (t := t) (show n ≤ m by omega) (List.getElem?_eq_some_iff.mp hm).1.le
        omega
      obtain ⟨u, v, rfl, hu, hv⟩ := ih hrest (place_le hmn hn)
      exact ⟨c :: u, v, rfl, ⟨d, _, ⟨m, hm, rfl, rfl, hbounds⟩, hmatch, hu⟩, hv⟩

/-- What stands inside of a text is a part of it. -/
theorem Spells.infix (h : t.Spells s false i w j) (hu : t.Spells s false i' u j') (hi : i ≤ i')
    (hj : j' ≤ j) : u <:+: w := by
  rcases eq_or_ne u [] with rfl | hne
  · exact List.nil_infix
  · obtain ⟨n, hoccurs, rfl, rfl, -⟩ := (spells_iff_occursAt hne).mp hu
    have hlength := hoccurs.add_length_le hne
    have hle := hu.le
    obtain ⟨v, w', rfl, -, hw'⟩ := h.cut (by omega) hi (hle.trans hj)
    obtain ⟨u', v', rfl, hu', -⟩ := hw'.cut hlength hle hj
    exact ⟨v, v', by rw [hu.unique hu', List.append_assoc]⟩

/-- A text that stands in a span is what is cut out of the target there. -/
theorem slice?_of_spells (ht : t.IsGenuine) (hvalid : Search.isValidSpan t s = true)
    (h : t.Spells s false i w j) (hi : t.isBoundary i = true) (hstart : s.start ≤ i)
    (hstop : i ≤ s.stop) : t.slice? ⟨i, j⟩ = some w := by
  have htext : Walk false (Pattern.HasText t s 0) i j := ⟨w, h, Nat.zero_le _⟩
  have hj : t.isBoundary j = true := Pattern.isBoundary_of_hasText ht htext hi
  have hbounds := h.bounds hstart hstop
  have hinner : Search.isValidSpan t ⟨i, j⟩ = true := by
    simp only [Search.isValidSpan, Bool.and_eq_true, decide_eq_true_iff] at hvalid ⊢
    exact ⟨⟨⟨⟨h.le, by omega⟩, by omega⟩, hi⟩, hj⟩
  obtain ⟨w', hslice, hw'⟩ := Search.spells_slice ht hinner
  have hwide : t.Spells s false i w' j := hw'.widen hstart hbounds.2
  rw [hslice, hwide.unique h]

end Target

/-! ### Known first characters -/

namespace Pattern

variable {opts : Options} {seen : CharSet} {p q : Pattern} {ps : List Pattern}

theorem saturatingAdd_pos {m n : ℕ} (h : 0 < m ∨ 0 < n) : 0 < saturatingAdd m n :=
  lt_min (by omega) (by decide)

theorem foldl_saturatingAdd_pos {ns : List ℕ} {n : ℕ} (h : 0 < n ∨ ∃ m ∈ ns, 0 < m) :
    0 < ns.foldl saturatingAdd n := by
  induction ns generalizing n with
  | nil => exact h.resolve_right nofun
  | cons m ns ih =>
    refine ih ?_
    rcases h with hn | ⟨k, hk, hpos⟩
    · exact .inl (saturatingAdd_pos (.inl hn))
    · rcases List.mem_cons.mp hk with rfl | hk
      · exact .inl (saturatingAdd_pos (.inr hpos))
      · exact .inr ⟨k, hk, hpos⟩

/-- The least one of several positive numbers is positive. -/
theorem min?_getD_pos {ns : List ℕ} (hne : ns ≠ []) (h : ∀ n ∈ ns, 0 < n) :
    0 < ns.min?.getD 0 := by
  obtain ⟨n, hn⟩ := Option.ne_none_iff_exists'.mp (mt List.min?_eq_none_iff.mp hne)
  rw [hn]
  exact h n (List.min?_eq_some_iff.mp hn).1

/-- A character is known after one of two parts only if it is known after both. -/
theorem FirstChar.either_eq_terminal {known known' : FirstChar} :
    known.either known' = .terminal ↔ known = .terminal ∧ known' = .terminal := by
  cases known <;> cases known' <;> decide

/-- Of patterns in sequence the first one tells the character, or those behind
it do. -/
theorem terminal_of_seq (h : (firstCharSeq opts (p :: ps) seen).1 = .terminal) :
    (firstChar opts p seen).1 = .terminal ∨
      (firstCharSeq opts ps (firstChar opts p seen).2).1 = .terminal := by
  rw [firstCharSeq] at h
  cases hfound : firstChar opts p seen with
  | mk known seen' =>
    simp only [hfound] at h
    cases known with
    | any => cases h
    | terminal => exact .inl rfl
    | continues => exact .inr h

/-- Alternatives are looked at until one of them can begin with anything. -/
theorem terminal_of_union (h : (firstChar opts (.union (p :: ps)) seen).1 = .terminal) :
    (firstCharAlt opts ps (firstChar opts p seen).1 (firstChar opts p seen).2).1 = .terminal := by
  rw [firstChar] at h
  cases hfound : firstChar opts p seen with
  | mk known seen' =>
    simp only [hfound] at h
    cases known with
    | any => cases h
    | terminal | continues => exact h

theorem terminal_of_alt {known : FirstChar}
    (h : (firstCharAlt opts (p :: ps) known seen).1 = .terminal) :
    (firstCharAlt opts ps (known.either (firstChar opts p seen).1)
      (firstChar opts p seen).2).1 = .terminal := by
  rw [firstCharAlt] at h
  cases hfound : firstChar opts p seen with
  | mk known' seen' =>
    simp only [hfound] at h
    cases known' with
    | any => cases h
    | terminal | continues => exact h

/-- Only a repetition that cannot be left out tells the character of its body. -/
theorem terminal_of_repetition {min : ℕ} {max : Option ℕ} {greedy : Bool}
    (h : (firstChar opts (.repetition p min max greedy) seen).1 = .terminal) :
    0 < min ∧ (firstChar opts p seen).1 = .terminal := by
  rw [firstChar] at h
  cases hfound : firstChar opts p seen with
  | mk known seen' =>
    simp only [hfound] at h
    cases known with
    | any | continues => cases h
    | terminal =>
      refine ⟨?_, rfl⟩
      by_contra hmin
      simp [hmin] at h

/-- After a condition a character is known only if it is known after both
branches. -/
theorem terminal_of_ifGroup {g : ℕ}
    (h : (firstChar opts (.ifGroup g p (some q)) seen).1 = .terminal) :
    (firstChar opts p seen).1 = .terminal ∧
      (firstChar opts q (firstChar opts p seen).2).1 = .terminal := by
  rw [firstChar] at h
  cases hfound : firstChar opts p seen with
  | mk known seen' =>
    simp only [hfound] at h
    cases known with
    | any => cases h
    | terminal | continues => exact FirstChar.either_eq_terminal.mp h

/-- After a condition with one branch no character is known. -/
theorem ne_terminal_of_ifGroup (g : ℕ) (p : Pattern) :
    (firstChar opts (.ifGroup g p none) seen).1 ≠ .terminal := by
  rw [firstChar]
  cases firstChar opts p seen with
  | mk known seen' => cases known <;> nofun

mutual

/-- **A pattern whose first characters are known matches no empty text**: its
lower bound for the length of a match is not zero. -/
theorem minLen_pos_of_terminal : (p : Pattern) → (opts : Options) → (seen : CharSet) →
    (firstChar opts p seen).1 = .terminal → 0 < p.minLen
  | .char _, _, _, _ | .charClass _ _, _, _, _ | .string (_ :: _), _, _, _ => Nat.succ_pos _
  | .concat items, opts, seen, h =>
    foldl_saturatingAdd_pos (.inr (exists_minLen_pos items opts seen h))
  | .union (p :: ps), opts, seen, h => by
    obtain ⟨hp, hps⟩ := forall_minLen_pos ps opts _ _ (terminal_of_union h)
    exact min?_getD_pos nofun
      (List.forall_mem_cons.mpr ⟨minLen_pos_of_terminal p opts seen hp, hps⟩)
  | .repetition body _ _ _, opts, seen, h => by
    obtain ⟨hmin, hbody⟩ := terminal_of_repetition h
    exact lt_min (Nat.mul_pos hmin (minLen_pos_of_terminal body opts seen hbody)) (by decide)
  | .group _ body, opts, seen, h => minLen_pos_of_terminal body opts seen h
  | .independent body, opts, seen, h => minLen_pos_of_terminal body opts seen h
  | .modifier add remove body, opts, seen, h =>
    minLen_pos_of_terminal body (opts.modify add remove) seen h
  | .ifGroup _ yes (some no), opts, seen, h => by
    obtain ⟨hyes, hno⟩ := terminal_of_ifGroup h
    exact lt_min (minLen_pos_of_terminal yes opts seen hyes)
      (minLen_pos_of_terminal no opts _ hno)
  | .ifLook _ yes (some no), opts, seen, h => by
    -- What the condition is makes no difference to what is known.
    have hgroup : (firstChar opts (.ifGroup 0 yes (some no)) seen).1 = .terminal := h
    obtain ⟨hyes, hno⟩ := terminal_of_ifGroup hgroup
    exact lt_min (minLen_pos_of_terminal yes opts seen hyes)
      (minLen_pos_of_terminal no opts _ hno)
  | .ifGroup g yes none, opts, seen, h => absurd h (ne_terminal_of_ifGroup g yes)
  | .ifLook _ yes none, opts, seen, h => absurd h (ne_terminal_of_ifGroup 0 yes)
  | .empty, _, _, h | .string [], _, _, h | .dot, _, _, h | .anchor _, _, _, h
  | .backref _, _, _, h | .look _ _, _, _, h | .union [], _, _, h => nomatch h
  termination_by structural p => p

/-- Of patterns in sequence one has a lower bound that is not zero. -/
theorem exists_minLen_pos : (ps : List Pattern) → (opts : Options) → (seen : CharSet) →
    (firstCharSeq opts ps seen).1 = .terminal → ∃ n ∈ minLens ps, 0 < n
  | [], _, _, h => nomatch h
  | p :: ps, opts, seen, h => by
    rcases terminal_of_seq h with hp | hps
    · exact ⟨p.minLen, List.mem_cons_self, minLen_pos_of_terminal p opts seen hp⟩
    · obtain ⟨n, hn, hpos⟩ := exists_minLen_pos ps opts _ hps
      exact ⟨n, List.mem_cons_of_mem _ hn, hpos⟩
  termination_by structural ps => ps

/-- All further alternatives have lower bounds that are not zero. -/
theorem forall_minLen_pos : (ps : List Pattern) → (opts : Options) → (known : FirstChar) →
    (seen : CharSet) → (firstCharAlt opts ps known seen).1 = .terminal →
      known = .terminal ∧ ∀ n ∈ minLens ps, 0 < n
  | [], _, _, _, h => ⟨h, nofun⟩
  | p :: ps, opts, known, seen, h => by
    obtain ⟨heither, hps⟩ := forall_minLen_pos ps opts _ _ (terminal_of_alt h)
    obtain ⟨hknown, hp⟩ := FirstChar.either_eq_terminal.mp heither
    exact ⟨hknown, List.forall_mem_cons.mpr ⟨minLen_pos_of_terminal p opts seen hp, hps⟩⟩
  termination_by structural ps => ps

end

end Pattern

/-! ### Attempts -/

namespace Attempt

variable {t : Target} {span : Span} {p : Pattern} {opts : Options} {whole : Bool} {cache : Cache}
  {slots : Option Slots} {offset e : ℕ}

/-- A match that an attempt reports has a derivation, and the attempt is made in
the span. -/
theorem derives_of_run (ht : t.IsGenuine) (h : Search.isValidSpan t span = true)
    (hmatch : (run ⟨.ofPattern p, t, span, whole⟩ cache opts slots offset).answer = .ok (some e)) :
    Pattern.Derives t span false false opts p offset e ∧
      InSpan ⟨.ofPattern p, t, span, whole⟩ offset := by
  have ho : InSpan ⟨.ofPattern p, t, span, whole⟩ offset := by
    by_contra ho
    rw [run, dif_neg ho] at hmatch
    cases hmatch
  obtain ⟨r, hr, hreports⟩ := exists_discovers cache opts slots ho
  rw [hreports.answer_iff] at hmatch
  cases r with
  | matched e' sl =>
    cases hmatch
    exact ⟨(hr.derives (Search.onText_of_valid ht h _ _) rfl ho).1, ho⟩
  | failed | refused => cases hmatch

/-- **A match begins as the analysis of first characters says.**  If each match
is told to begin with one of the characters, the match takes one of them from
the text before it does anything else; if it may also be empty, then it is empty
or does so. -/
theorem run_begins (p : Pattern) (opts : Options) (ht : t.IsGenuine)
    (h : Search.isValidSpan t span = true) (whole : Bool) (cache : Cache) (slots : Option Slots)
    (offset e : ℕ)
    (hmatch : (run ⟨.ofPattern p, t, span, whole⟩ cache opts slots offset).answer = .ok (some e)) :
    let (known, set) := p.firstChar opts .empty
    let begins := ∃ c next, t.charAfter offset span.stop = some (c, next) ∧ next ≤ e ∧
      set.contains c = true
    (known = .terminal → begins) ∧ (known = .continues → offset = e ∨ begins) := by
  obtain ⟨hderives, ho⟩ := derives_of_run ht h hmatch
  have hbegins := Pattern.firstChar_begins hderives
  have hterminal := Pattern.minLen_pos_of_terminal p opts .empty
  generalize p.firstChar opts .empty = found at hbegins hterminal ⊢
  obtain ⟨w, hw, hlength⟩ := Pattern.Derives.hasText p false opts offset e hderives
  -- The character behind the offset is the first one of a match that is not empty.
  have htaken : w ≠ [] → t.BeginsIn span found.2 offset → ∃ c next,
      t.charAfter offset span.stop = some (c, next) ∧ next ≤ e ∧ found.2.contains c = true := by
    rintro hne ⟨c, next, hchar, hc⟩
    obtain ⟨d, w, rfl⟩ := List.exists_cons_of_ne_nil hne
    obtain ⟨d, k, hfirst, -, hrest⟩ := hw
    obtain ⟨rfl, rfl⟩ := hchar.unique hfirst
    have hafter := (charAfter_hasChar (Search.onText_of_valid ht h _ _) ho).mpr hchar
    exact ⟨c, next, hafter, hrest.le, hc⟩
  constructor
  · intro hknown
    rw [hknown] at hbegins
    refine htaken ?_ hbegins
    rintro rfl
    exact absurd (hterminal hknown) (by simpa using hlength)
  · intro hknown
    rw [hknown] at hbegins
    rcases eq_or_ne w [] with rfl | hne
    · exact .inl hw
    · exact hbegins.imp_right (htaken hne)

/-- `(?<!.)(?i:st|z)` on `ſT`: without regard to case the long s is an `s`, so
it has to be one of the first characters. -/
theorem run_begins_longS :
    let p : Pattern := .concat [.look .notBehind .dot, .modifier { caseInsensitive := true } .empty
      (.union [.string ['s', 't'], .char 'z'])]
    (run ⟨.ofPattern p, .ofString "ſT", ⟨0, 3⟩, false⟩ .empty .empty none 0).answer =
        .ok (some 3) ∧
      (p.firstChar .empty .empty).1 = .terminal ∧
      (p.firstChar .empty .empty).2.contains 'ſ' = true := by
  intro p
  have hmatch : (run ⟨.ofPattern p, .ofString "ſT", ⟨0, 3⟩, false⟩ .empty .empty none
      0).answer = .ok (some 3) := by
    subst p
    cbv
  have hterminal : (p.firstChar .empty .empty).1 = .terminal := rfl
  have hvalid : Search.isValidSpan (.ofString "ſT") ⟨0, 3⟩ = true := by decide
  obtain ⟨c, next, hchar, -, hc⟩ := (run_begins p .empty (Target.isGenuine_ofString _) hvalid false
    .empty none 0 3 hmatch).1 hterminal
  have hlong : (Target.ofString "ſT").charAfter 0 3 = some ('ſ', 2) := by cbv
  cases hchar.symm.trans hlong
  exact ⟨hmatch, hterminal, hc⟩

/-- **A match is long enough and contains the fixed string.**  The text between
its ends has at least as many characters as the lower bound says, and if the
pattern has a fixed string, a part of the text is the same as that, up to case
if case is ignored where the string stands. -/
theorem run_contains (p : Pattern) (opts : Options) (ht : t.IsGenuine)
    (h : Search.isValidSpan t span = true) (whole : Bool) (cache : Cache) (slots : Option Slots)
    (offset e : ℕ)
    (hmatch : (run ⟨.ofPattern p, t, span, whole⟩ cache opts slots offset).answer = .ok (some e)) :
    ∃ text, t.Spells span false offset text e ∧
      (t.isBoundary offset = true → t.slice? ⟨offset, e⟩ = some text) ∧
      p.minLen ≤ text.length ∧
      ∀ literal here, p.fixedString opts = some (literal, here) →
        ∃ part, part <:+: text ∧ List.Forall₂ (Case.Same here.caseInsensitive) part literal := by
  obtain ⟨hderives, ho⟩ := derives_of_run ht h hmatch
  obtain ⟨text, htext, hlength⟩ := Pattern.Derives.hasText p false opts offset e hderives
  have hslice : t.isBoundary offset = true → t.slice? ⟨offset, e⟩ = some text :=
    fun hboundary => Target.slice?_of_spells ht h htext hboundary ho.1 ho.2
  refine ⟨text, htext, hslice, hlength, fun literal here hfixed => ?_⟩
  obtain ⟨i, j, hi, hj, hspells⟩ :=
    Pattern.spells_fixedString p false opts offset e (literal, here) hfixed hderives
  obtain ⟨part, hpart, hspells⟩ := Pattern.spells_iff_hasWord.mp hspells
  exact ⟨part, htext.infix hspells hi hj, hpart⟩

/-- `((?i:(?>ab)))c{2,}` on a part of `xABcc`: the string of a group inside of a
modifier inside of a group, read in the other case, and a repetition behind it. -/
theorem run_contains_nested :
    let p : Pattern := .concat [.group (some 1) (.modifier { caseInsensitive := true } .empty
      (.independent (.string ['a', 'b']))), .repetition (.char 'c') 2 none true]
    let t : Target := .bufferOfString "xABcc"
    (run ⟨.ofPattern p, t, ⟨0, 5⟩, false⟩ .empty .empty none 1).answer = .ok (some 5) ∧
      ∃ text, t.slice? ⟨1, 5⟩ = some text ∧ 4 ≤ text.length ∧
        ∃ part, part <:+: text ∧ List.Forall₂ (Case.Same true) part ['a', 'b'] := by
  intro p t
  have hmatch : (run ⟨.ofPattern p, t, ⟨0, 5⟩, false⟩ .empty .empty none 1).answer =
      .ok (some 5) := by
    subst p t
    cbv
  obtain ⟨text, -, hslice, hlength, hfixed⟩ :=
    run_contains p .empty (t := t) trivial (by decide) false .empty none 1 5 hmatch
  exact ⟨hmatch, text, hslice (by decide), hlength, hfixed _ _ rfl⟩

end Attempt

end Regexp
