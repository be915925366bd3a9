import Regexp.Proofs.Acceptance
import Regexp.Proofs.Alignment

/-!
# Leading options

A text that begins with a change of options is read into a modifier around what
the rest of the text is read into under the changed options.  The program of the
modifier runs that of its body as a match within the match, and whatever the
body finds the modifier finds as well.  So it makes no difference whether
options are given to an expression or written down in front of its text.

## Part of a program

`Attempt.PartOf` is an attempt at part of the program of another one: its
operations come first, at the same indices, and a match may end anywhere.
`Explores.partOf` says that the part is explored in the larger program as it is
alone, at the top or within a match.  The program of a modifier is that of its
body with one operation behind it (`Program.ofPattern_modifier`), and the
exploration of that operation is one of the body under the changed options.

## Searches

The two expressions cannot be compared shortcut by shortcut, since the modifier
hides literals and a leading repetition from the strategy.  Both find the
leftmost match, and that is compared (`Search.IsLeftmost.modifier`).
`Regex.SearchedAs` is what a caller may rely on: the same answers and captures
in all searches of a text.

## Main definitions

* `Attempt.PartOf` — an attempt at part of a program.
* `Regex.SearchedAs` — expressions that all searches treat alike.

## Main statements

* `Explores.partOf` — part of a program is explored as it is alone.
* `Attempt.Discovers.modifier` — a modifier finds what its body finds.
* `Search.run_modifier` — the search for a modifier has the result of the search
  for its body.
* `Regex.ofText_optionGroup` — a leading change of options is the same as
  building with them.
-/

namespace Regexp

/-! ### Parts of programs -/

/-- Whether an attempt is at part of a program, where a match may end anywhere. -/
structure Attempt.PartOf (a b : Attempt) : Prop where
  op_eq : ∀ (k : ℕ) (op : Op), a.program.ops[k]? = some op → b.program.ops[k]? = some op
  target_eq : b.target = a.target
  span_eq : b.span = a.span
  whole_eq : a.whole = false
  whole_eq' : b.whole = false

section

variable {a b : Attempt} {watch : ℕ → Mode → ℕ → Marks → Prop} {top : Bool} {m : Mode}
  {V V' : Marks} {links : List Link} {i : ℕ} {sl : Option Slots} {r : Discovery}

theorem Attempt.PartOf.read_eq (h : a.PartOf b) (atom : Atom) (opts : Options) (reverse : Bool) :
    b.read atom opts reverse i sl = a.read atom opts reverse i sl := by
  obtain ⟨program, target, span, whole⟩ := a
  obtain ⟨program', target', span', whole'⟩ := b
  obtain ⟨-, rfl, rfl, -, -⟩ := h
  rfl

/-- **Part of a program is explored as it is alone**, be it at the top or within
a match. -/
theorem Explores.partOf (h : a.PartOf b) (he : Explores a watch top m V links i sl V' r)
    (top' : Bool) : Explores b watch top' m V links i sl V' r := by
  induction he generalizing top' with
  | accept => exact .accept fun _ hwhole => absurd hwhole (by simp [h.whole_eq'])
  | short hwhole => exact absurd hwhole (by simp [h.whole_eq])
  | read hop hread _ ih => exact .read (h.op_eq _ _ hop) (by rw [h.read_eq, hread]) (ih top')
  | unread hop hread => exact .unread (h.op_eq _ _ hop) (by rw [h.read_eq, hread])
  | unreadable hop hread => exact .unreadable (h.op_eq _ _ hop) (by rw [h.read_eq, hread])
  | choose hop hc _ ih => exact .choose (h.op_eq _ _ hop) hc (ih top')
  | reenter hop hV => exact .reenter (h.op_eq _ _ hop) hV
  | enter hop hV _ ih => exact .enter (h.op_eq _ _ hop) hV (ih top')
  | mark hop _ ih => exact .mark (h.op_eq _ _ hop) (ih top')
  | test hop hg _ ih => exact .test (h.op_eq _ _ hop) hg (ih top')
  | untestable hop hg => exact .untestable (h.op_eq _ _ hop) hg
  | fail hop => exact .fail (h.op_eq _ _ hop)
  | resume hop hb hw _ hr hgo _ ihb ih =>
    exact .resume (h.op_eq _ _ hop) hb hw (ihb false) hr hgo (ih top')
  | abandon hop hb hw _ hr hgo ihb => exact .abandon (h.op_eq _ _ hop) hb hw (ihb false) hr hgo
  | refuse hop hb hw _ ihb => exact .refuse (h.op_eq _ _ hop) hb hw (ihb false)
  | nil => exact .nil
  | first _ hr ih => exact .first (ih top') hr
  | later _ _ ih ih' => exact .later (ih top') (ih' top')

end

/-- The program of a modifier is that of its body with one operation behind it. -/
theorem Program.ofPattern_modifier (add remove : Options) (q : Pattern) :
    (ofPattern (.modifier add remove q)).ops =
        (ofPattern q).ops.push (.modifier add remove (ofPattern q).start none) ∧
      (ofPattern (.modifier add remove q)).start = some (ofPattern q).ops.size :=
  ⟨rfl, rfl⟩

/-! ### Searches -/

section

variable {q : Pattern} {opts add remove : Options} {t : Target} {span : Span} {sl : Option Slots}
  {o : ℕ} {r : Discovery}

/-- **A modifier finds what its body finds** under the changed options.  The
body is run as a match within the match, but nothing stands behind it that could
send the machine back. -/
theorem Attempt.Discovers.modifier
    (h : (Attempt.mk (.ofPattern q) t span false).Discovers (opts.modify add remove) sl o r) :
    (Attempt.mk (.ofPattern (.modifier add remove q)) t span false).Discovers opts sl o r := by
  obtain ⟨hops, hstart⟩ := Program.ofPattern_modifier add remove q
  obtain ⟨V', he⟩ := h
  have hpart : (Attempt.mk (.ofPattern q) t span false).PartOf
      ⟨.ofPattern (.modifier add remove q), t, span, false⟩ :=
    { op_eq := by
        intro k op hop
        have hlt := (Array.getElem?_eq_some_iff.mp hop).1
        show (Program.ofPattern (.modifier add remove q)).ops[k]? = some op
        rw [hops, Array.getElem?_push_lt hlt]
        exact (Array.getElem?_eq_getElem hlt).symm.trans hop
      target_eq := rfl
      span_eq := rfl
      whole_eq := rfl
      whole_eq' := rfl }
  have hop : (Program.ofPattern (.modifier add remove q)).ops[(Program.ofPattern q).ops.size]? =
      some (.modifier add remove (Program.ofPattern q).start none) := by
    rw [hops, Array.getElem?_push_size]
  have hbody := he.partOf hpart false
  refine ⟨V', ?_⟩
  show Explores _ _ true _ ∅ [(Program.ofPattern (.modifier add remove q)).start] o sl V' r
  rw [hstart]
  cases r with
  | matched e slots => exact .resume hop rfl trivial hbody rfl rfl (.accept nofun)
  | failed => exact .abandon hop rfl trivial hbody rfl rfl
  | refused e => exact .refuse hop rfl trivial hbody

/-- What is the leftmost match of one search is that of another which finds the
same everywhere. -/
theorem Search.IsLeftmost.of_discovers {s s' : Search} {slots : Option Slots} {r : SearchResult}
    (h : s.IsLeftmost slots r) (hreachable : ∀ o, s'.Reachable o ↔ s.Reachable o)
    (hdiscovers : ∀ o d, s.Discovers slots o d → s'.Discovers slots o d) :
    s'.IsLeftmost slots r := by
  rcases h with ⟨o, e, ho, hbefore, hfound, hanswer⟩ | ⟨hfails, hanswer, hslots⟩
  · refine .inl ⟨o, e, (hreachable o).mpr ho, fun i hi hlt => ?_, hdiscovers _ _ hfound, hanswer⟩
    exact hdiscovers _ _ (hbefore i ((hreachable i).mp hi) hlt)
  · exact .inr ⟨fun i hi => hdiscovers _ _ (hfails i ((hreachable i).mp hi)), hanswer, hslots⟩

/-- The leftmost match of the body of a modifier is that of the modifier. -/
theorem Search.IsLeftmost.modifier {slots : Option Slots} {r : SearchResult}
    (hX : opts.xmlSchema = false) (hX' : (opts.modify add remove).xmlSchema = false)
    (h : (Search.ofPattern q (opts.modify add remove) t span).IsLeftmost slots r) :
    (Search.ofPattern (.modifier add remove q) opts t span).IsLeftmost slots r := by
  refine h.of_discovers (fun o => .rfl) fun o d hd => ?_
  have hattempt : (Search.ofPattern (.modifier add remove q) opts t span).toAttempt =
      ⟨.ofPattern (.modifier add remove q), t, span, false⟩ := by
    rw [← hX]
    rfl
  have hattempt' : (Search.ofPattern q (opts.modify add remove) t span).toAttempt =
      ⟨.ofPattern q, t, span, false⟩ := by
    rw [← hX']
    rfl
  rw [Discovers, hattempt'] at hd
  rw [Discovers, hattempt]
  exact hd.modifier

/-- **The search for a modifier has the result of the search for its body**
under the changed options. -/
theorem Search.run_modifier (hq : q.RefersToGroups) (hX : opts.xmlSchema = false)
    (hX' : (opts.modify add remove).xmlSchema = false) (ht : t.IsGenuine)
    (h : isValidSpan t span = true) (cache cache' : Cache) :
    let result := (ofPattern (.modifier add remove q) opts t span).run cache (q.slotsFor true)
    let result' := (ofPattern q (opts.modify add remove) t span).run cache' (q.slotsFor true)
    result.answer = result'.answer ∧ result.slots = result'.slots := by
  have hp : (Pattern.modifier add remove q).RefersToGroups := by
    intro f hf g hg
    rcases List.mem_cons.mp hf with rfl | hf
    · cases hg
    · exact hq f hf g hg
  exact (run_isLeftmost ht h (fits_of_captures hp) hX cache).unique
    ((run_isLeftmost ht h (fits_of_captures hq) hX' cache').modifier hX hX')

end

namespace Regex

/-- Whether two expressions have the same answers and captures in all searches
of a text, whatever caches and captures are brought along. -/
def SearchedAs (r r' : Regex) : Prop :=
  ∀ t : Target, t.IsGenuine → ∀ (span : Span) (caps : Option Captures),
    (∀ cache cache',
      (r.searchWith cache t span caps).answer = (r'.searchWith cache' t span caps).answer ∧
      (r.searchWith cache t span caps).caps = (r'.searchWith cache' t span caps).caps) ∧
    (r.search t span caps).1 = (r'.search t span caps).1 ∧
    (r.search t span caps).2.2 = (r'.search t span caps).2.2

variable {p q : Pattern} {opts opts' add remove : Options} {r r' : Regex}

/-- Expressions with the same results on all valid spans are searched alike,
since both refuse all other spans. -/
theorem SearchedAs.of_yields (h : ∀ t : Target, t.IsGenuine → ∀ span,
    Search.isValidSpan t span = true →
      ∃ answer found, r.Yields t span answer found ∧ r'.Yields t span answer found) :
    r.SearchedAs r' := by
  intro t ht span caps
  cases hvalid : Search.isValidSpan t span with
  | true =>
    obtain ⟨answer, found, hr, hr'⟩ := h t ht span hvalid
    obtain ⟨hwith, hanswer, hcaps⟩ := hr caps
    obtain ⟨hwith', hanswer', hcaps'⟩ := hr' caps
    refine ⟨fun cache cache' => ⟨?_, ?_⟩, hanswer.trans hanswer'.symm, hcaps.trans hcaps'.symm⟩
    · exact (hwith cache).1.trans (hwith' cache').1.symm
    · exact (hwith cache).2.trans (hwith' cache').2.symm
  | false =>
    refine ⟨fun cache cache' => ?_, ?_, ?_⟩
    · rw [searchWith_of_not_valid hvalid, searchWith_of_not_valid hvalid]
      exact ⟨rfl, rfl⟩
    · rw [(search_eq r t span caps).1, (search_eq r' t span caps).1, searchWith_of_not_valid hvalid,
        searchWith_of_not_valid hvalid]
    · rw [(search_eq r t span caps).2, (search_eq r' t span caps).2, searchWith_of_not_valid hvalid,
        searchWith_of_not_valid hvalid]

/-- A modifier is searched for as its body under the changed options. -/
theorem searchedAs_modifier (hq : q.RefersToGroups) (hX : opts.xmlSchema = false)
    (hX' : (opts.modify add remove).xmlSchema = false)
    (hr : MadeFrom (.modifier add remove q) opts r)
    (hr' : MadeFrom q (opts.modify add remove) r') : r.SearchedAs r' := by
  refine .of_yields fun t ht span hvalid => ?_
  obtain ⟨hanswer, hslots⟩ := Search.run_modifier hq hX hX' ht hvalid .empty .empty
  have hyields := hr.has.yields hvalid .empty
  have hyields' := hr'.has.yields hvalid .empty
  have hcaps := SearchResult.captures_congr hanswer hslots
  refine ⟨_, _, ?_, hyields'⟩
  rw [← hanswer, ← hcaps]
  exact hyields

/-- An expression is built from a text if a pattern is read from all of it. -/
theorem ofText_eq_ok_iff {text : String} {limit : ℕ} : ofText text opts limit = .ok r ↔
    ∃ p, Pattern.parse opts text limit = .ok p ∧ r = .ofParts text p opts := by
  rw [ofText]
  cases Pattern.parse opts text limit with
  | error e => exact ⟨nofun, nofun⟩
  | ok p =>
    constructor
    · rintro ⟨⟩
      exact ⟨p, rfl, rfl⟩
    · rintro ⟨_, ⟨⟩, rfl⟩
      rfl

open Pattern.Parser in
/-- **A leading change of options is the same as building with those options.**
A text behind a group that only changes options can be built just if the text
alone can be built with the options that the group leaves in force, and all
searches of the two expressions have the same answers and captures. -/
theorem ofText_optionGroup {opts : Options} (hX : opts.xmlSchema = false) {set : List Char}
    {clear : Option (List Char)} (hletters : ∀ c ∈ set ++ clear.getD [], c ∈ groupFlags)
    (hne : set ≠ [] ∨ clear ≠ none) {text : String} (htext : ¬ BeginsWithOptions text.toList)
    (limit : ℕ) :
    let leading := ofText (String.ofList (optionGroup set clear) ++ text) opts limit
    ∃ add remove, Options.parse (String.ofList set) = .ok add ∧
      Options.parse (String.ofList (clear.getD [])) = .ok remove ∧
      let plain := ofText text (opts.modify add remove) limit
      ((∃ r, leading = .ok r) ↔ ∃ r, plain = .ok r) ∧
        ∀ r r', leading = .ok r → plain = .ok r' →
          ∀ x x', MadeFrom r.pattern r.opts x → MadeFrom r'.pattern r'.opts x' →
            x.SearchedAs x' := by
  intro leading
  obtain ⟨add, hadd, haddX⟩ :=
    exists_parseLetters (fun c hc => hletters c (List.mem_append_left _ hc)) .empty
  obtain ⟨remove, hremove, -⟩ :=
    exists_parseLetters (fun c hc => hletters c (List.mem_append_right _ hc)) .empty
  have hX' : (opts.modify add remove).xmlSchema = false := by
    simp [Options.modify, Options.diff, Options.union, Options.zipWith, hX, haddX, Options.empty]
  have hparse : ∀ p, Pattern.parse opts (String.ofList (optionGroup set clear) ++ text) limit =
      .ok p ↔ ∃ q, Pattern.parse (opts.modify add remove) text limit = .ok q ∧
        p = .modifier add remove q := by
    intro p
    simp only [Pattern.parse_eq_ok_iff, String.toList_append, String.toList_ofList]
    exact whole_optionGroup hX hletters hne hadd hremove htext
  refine ⟨add, remove, by rwa [Options.parse, String.toList_ofList],
    by rwa [Options.parse, String.toList_ofList], ?_, ?_⟩
  · constructor
    · rintro ⟨r, hr⟩
      obtain ⟨p, hp, -⟩ := ofText_eq_ok_iff.mp hr
      obtain ⟨q, hq, -⟩ := (hparse p).mp hp
      exact ⟨_, ofText_eq_ok_iff.mpr ⟨q, hq, rfl⟩⟩
    · rintro ⟨r, hr⟩
      obtain ⟨q, hq, -⟩ := ofText_eq_ok_iff.mp hr
      exact ⟨_, ofText_eq_ok_iff.mpr ⟨_, (hparse _).mpr ⟨q, hq, rfl⟩, rfl⟩⟩
  · intro r r' hr hr' x x' hx hx'
    obtain ⟨p, hp, rfl⟩ := ofText_eq_ok_iff.mp hr
    obtain ⟨q, hq, rfl⟩ := ofText_eq_ok_iff.mp hr'
    obtain ⟨q', hq', rfl⟩ := (hparse p).mp hp
    cases hq.symm.trans hq'
    exact searchedAs_modifier (Pattern.parse_refersToGroups hq) hX hX' hx hx'

open Pattern.Parser in
/-- `(?i-s)` in front of `(s).`, where the dot would match all characters
without it, on a text with a long s before the end of a line. -/
theorem ofText_optionGroup_longS :
    let opts : Options := { singleLine := true, noFirstChars := true, noLiteralScan := true }
    let opts' : Options := { caseInsensitive := true, noFirstChars := true, noLiteralScan := true }
    let search (r : Regex) := r.searchWith .empty (.ofString "ſ\nSx") ⟨0, 5⟩ (some .empty)
    ∃ r r', ofText "(?i-s)(s)." opts 1 = .ok r ∧ ofText "(s)." opts' 1 = .ok r' ∧
      r.SearchedAs r' ∧ (search r).answer = .ok true ∧
      (search r).caps = some ⟨#[some 3, some 5, some 3, some 4]⟩ := by
  intro opts opts' search
  let q : Pattern := .concat [.group (some 1) (.char 's'), .dot]
  let r' : Regex := .ofParts "(s)." q opts'
  have hq : Pattern.parse opts' "(s)." 1 = .ok q := by cbv
  have hr' : ofText "(s)." opts' 1 = .ok r' := ofText_eq_ok_iff.mpr ⟨q, hq, rfl⟩
  have htext : ¬ BeginsWithOptions "(s).".toList := by
    rintro ⟨set, clear, rest, -, -, h⟩
    simp [optionGroup] at h
  have hX : opts.xmlSchema = false := rfl
  have hletters : ∀ c ∈ ['i'] ++ (some ['s']).getD [], c ∈ groupFlags := by simp [groupFlags]
  obtain ⟨add, remove, hadd, hremove, hbuilt, hsearched⟩ :=
    ofText_optionGroup hX hletters (by simp) htext 1
  rw [Options.parse, String.toList_ofList] at hadd hremove
  obtain rfl : add = { caseInsensitive := true } := Except.ok.inj (hadd.symm.trans rfl)
  obtain rfl : remove = { singleLine := true } := Except.ok.inj (hremove.symm.trans rfl)
  obtain ⟨r, hr⟩ := hbuilt.mpr ⟨r', hr'⟩
  have hmade : MadeFrom r.pattern r.opts r := by
    obtain ⟨p, -, rfl⟩ := ofText_eq_ok_iff.mp hr
    exact .parts _
  have hsame : r.SearchedAs r' := hsearched r r' hr hr' r r' hmade (.parts _)
  obtain ⟨hanswer, hcaps⟩ :=
    (hsame (.ofString "ſ\nSx") (Target.isGenuine_ofString _) ⟨0, 5⟩ (some .empty)).1 .empty .empty
  refine ⟨r, r', hr, hr', hsame, hanswer.trans ?_, hcaps.trans ?_⟩
  · subst r' q opts'
    cbv
  · subst r' q opts'
    cbv

end Regex

end Regexp
