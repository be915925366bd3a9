import Regexp.Proofs.CaseFold
import Regexp.Proofs.Correspondence
import Regexp.Proofs.Reuse
import Regexp.Proofs.WellFormed

/-!
# Texts that differ in case

A search without regard to case takes two texts for the same if they differ in
nothing but the case of their characters.  It finds the same match in both of
them and captures the same groups, on all paths: in literals, classes and
copies, and with all shortcuts.

## What has to be excluded

The two texts have to have the same offsets, so they are buffers or the like; in
a string characters that differ in case may differ in length
(`Target.SameButCase`).  Word anchors look at the properties of characters,
which case may change: the combining iota is a mark, and its upper case form is
a letter.  And a modifier may go back to minding case.  `Pattern.IgnoresCase`
leaves these two out and nothing else.

## What has to be known of the tables

A dot looks at whether a character ends a line.  So characters that differ in
case must not differ in that, which is a fact about the tables of case mappings:
no other character has the representative of a line terminator
(`Case.eq_terminator_iff`).  It is settled run by run, by looking at whether a
run moves a terminator or moves something to one (`Case.Run.misses`).

Everything else compares representatives.  A class is compiled together with its
folded set, and when case does not matter the folded set is the one that is
used, for which membership depends on the representative only.
`Attempt.read_sameButCase` puts this together for atoms; explorations and
searches follow, since nothing but atoms looks at characters.

## Main definitions

* `Target.SameButCase` — texts whose characters have the same representatives.
* `Pattern.IgnoresCase` — patterns without word anchors that never return to
  minding case.

## Main statements

* `Case.eq_terminator_iff` — no other character has the representative of a line
  terminator.
* `Attempt.read_sameButCase` — atoms read the same in both texts.
* `Explores.sameButCase` — programs are explored alike on both of them.
* `Search.run_sameButCase` — searches find the same, with the same slots.
* `Regex.search_ignoresCase` — so do expressions, whatever they have been used
  for.
-/

namespace Regexp

/-! ### Line terminators -/

namespace Case

/-- Whether a code point is neither moved by a run nor one to which it moves
others.  The step of the run is left out, so this may also be false of a code
point between two that are moved. -/
def Run.misses (k : ℕ) (r : Run) : Bool :=
  !(r.first ≤ k && k ≤ r.last) && !(shiftBy r.first r.shift ≤ k && k ≤ shiftBy r.last r.shift)

theorem imageOf_eq_iff {runs : List Run} {k : ℕ} (h : runs.all (Run.misses k) = true) (n : ℕ) :
    imageOf runs n = k ↔ n = k := by
  rw [imageOf]
  cases hshift : shiftOf? runs n with
  | none => rfl
  | some shift =>
    obtain ⟨r, hr, ⟨hfirst, hlast, -⟩, rfl⟩ := exists_run_of_shiftOf? hshift
    have hmisses := List.all_eq_true.mp h r hr
    simp only [Run.misses, Bool.and_eq_true, Bool.not_eq_true', Bool.and_eq_false_iff,
      decide_eq_false_iff_not] at hmisses
    obtain ⟨hsource, himage⟩ := hmisses
    have hlo : shiftBy r.first r.shift ≤ shiftBy n r.shift := by simp only [shiftBy]; omega
    have hhi : shiftBy n r.shift ≤ shiftBy r.last r.shift := by simp only [shiftBy]; omega
    show shiftBy n r.shift = k ↔ n = k
    omega

/-- The characters that end a line. -/
def terminators : List Char := ['\n', '\r', '\u2028', '\u2029']

theorem terminators_missed :
    terminators.all (fun k => (upperRuns ++ lowerRuns).all (Run.misses k.toNat)) = true := by
  decide +kernel

/-- No other character has the representative of a line terminator. -/
theorem foldKey_eq_terminator_iff {c k : Char} (hk : k ∈ terminators) : foldKey c = k ↔ c = k := by
  have hmisses := List.all_eq_true.mp terminators_missed k hk
  rw [List.all_append, Bool.and_eq_true] at hmisses
  rw [← Char.toNat_inj, toNat_foldKey, foldOf, imageOf_eq_iff hmisses.2, imageOf_eq_iff hmisses.1,
    Char.toNat_inj]

/-- **Characters that differ in case are the same line terminator, or both are
none.**  No terminator is touched by a case mapping, which is checked run by
run. -/
theorem eq_terminator_iff {c c' k : Char} (hk : k ∈ terminators) (h : foldKey c = foldKey c') :
    c = k ↔ c' = k := by
  rw [← foldKey_eq_terminator_iff hk, h, foldKey_eq_terminator_iff hk]

theorem isLineTerminator_congr {c c' : Char} (h : foldKey c = foldKey c') :
    Scalar.isLineTerminator c = Scalar.isLineTerminator c' := by
  have hiff : ∀ k ∈ terminators, (c = k ↔ c' = k) := fun k hk => eq_terminator_iff hk h
  simp only [terminators, List.forall_mem_cons] at hiff
  obtain ⟨hfeed, hreturn, hline, hparagraph, -⟩ := hiff
  simp only [Scalar.isLineTerminator, hfeed, hreturn, hline, hparagraph]

theorem charsMatch_congr {c c' e e' : Char} (h : foldKey c = foldKey c')
    (he : foldKey e = foldKey e') : charsMatch true c e = charsMatch true c' e' := by
  rw [Bool.eq_iff_iff, charsMatch_true, charsMatch_true, h, he]

end Case

/-! ### Texts -/

/-- Whether two characters that were read, with the offsets behind them, differ
at most in case. -/
def ReadAlike (x y : Option (Char × ℕ)) : Prop :=
  (x = none ∧ y = none) ∨
    ∃ c c' next, x = some (c, next) ∧ y = some (c', next) ∧ Case.foldKey c = Case.foldKey c'

namespace Target

/-- Whether two texts have the same offsets and differ at most in the case of
their characters.  It is about what is read at an offset, so that the proofs
about atoms need nothing else of the texts. -/
structure SameButCase (t t' : Target) : Prop where
  after : ∀ offset limit, ReadAlike (t.charAfter offset limit) (t'.charAfter offset limit)
  before : ∀ offset start, ReadAlike (t.charBefore offset start) (t'.charBefore offset start)
  hasRoom : ∀ offset limit literal,
    t.hasRoom offset limit literal = t'.hasRoom offset limit literal
  isBoundary : ∀ offset, t.isBoundary offset = t'.isBoundary offset
  span_eq : t.span = t'.span

variable {t t' : Target} {s : Span} {o o' : ℕ}

theorem readAlike_map {cs cs' : Array Char} (h : cs.map Case.foldKey = cs'.map Case.foldKey)
    (k next : ℕ) : ReadAlike (cs[k]?.map fun c => (c, next)) (cs'[k]?.map fun c => (c, next)) := by
  have hk : cs[k]?.map Case.foldKey = cs'[k]?.map Case.foldKey := by
    rw [← Array.getElem?_map, h, Array.getElem?_map]
  cases hc : cs[k]? with
  | none =>
    rw [hc, Option.map_none, eq_comm, Option.map_eq_none_iff] at hk
    exact .inl ⟨rfl, by rw [hk]; rfl⟩
  | some c =>
    rw [hc, Option.map_some, eq_comm, Option.map_eq_some_iff] at hk
    obtain ⟨c', hc', hfold⟩ := hk
    exact .inr ⟨c, c', next, rfl, by rw [hc']; rfl, hfold.symm⟩

/-- Buffers of characters with the same representatives. -/
theorem sameButCase_buffer {cs cs' : Array Char}
    (h : cs.map Case.foldKey = cs'.map Case.foldKey) : (buffer cs).SameButCase (buffer cs') := by
  have hsize : cs.size = cs'.size := by simpa using congrArg Array.size h
  refine ⟨fun o limit => ?_, fun o start => ?_, fun o limit literal => ?_, fun o => ?_, ?_⟩
  · rw [charAfter, charAfter, readAfter, readAfter]
    split
    · exact readAlike_map h _ _
    · exact .inl ⟨rfl, rfl⟩
  · rw [charBefore, charBefore, readBefore, readBefore]
    split
    · exact readAlike_map h _ _
    · exact .inl ⟨rfl, rfl⟩
  · rw [Target.hasRoom, Target.hasRoom, hsize]
  · rw [Target.isBoundary, Target.isBoundary, hsize]
  · rw [span, span, hsize]

section

variable (h : t.SameButCase t')

include h

/-! ### Literals and copies -/

theorem matchAfter_sameButCase (limit : ℕ) (literal : List Char) (o : ℕ) :
    t.matchAfter true limit o literal = t'.matchAfter true limit o literal := by
  induction literal generalizing o with
  | nil => rfl
  | cons e es ih =>
    rw [matchAfter, matchAfter]
    rcases h.after o limit with ⟨hx, hy⟩ | ⟨c, c', next, hx, hy, hfold⟩
    · rw [hx, hy]
    · rw [hx, hy]
      simp only [Case.charsMatch_congr hfold rfl, ih]

theorem matchBefore_sameButCase (start : ℕ) (literal : List Char) (o : ℕ) :
    t.matchBefore true start o literal = t'.matchBefore true start o literal := by
  induction literal generalizing o with
  | nil => rfl
  | cons e es ih =>
    rw [matchBefore, matchBefore]
    rcases h.before o start with ⟨hx, hy⟩ | ⟨c, c', prev, hx, hy, hfold⟩
    · rw [hx, hy]
    · rw [hx, hy]
      simp only [Case.charsMatch_congr hfold rfl, ih]

theorem repeatsFrom_sameButCase (limit stop o pos : ℕ) :
    t.repeatsFrom true limit stop o pos = t'.repeatsFrom true limit stop o pos := by
  induction hn : stop - pos using Nat.strong_induction_on generalizing o pos with
  | _ n ih =>
    by_cases hlt : pos < stop
    · rw [repeatsFrom_of_lt hlt, repeatsFrom_of_lt hlt]
      rcases h.after pos stop with ⟨hx, hy⟩ | ⟨e, e', pos', hx, hy, hfold⟩
      · rw [hx, hy]
        rfl
      · have hbounds := charAfter_bounds hx
        rw [hx, hy, Option.bind_some, Option.bind_some]
        rcases h.after o limit with ⟨hx', hy'⟩ | ⟨c, c', next, hx', hy', hfold'⟩
        · rw [hx', hy']
          rfl
        · rw [hx', hy', Option.bind_some, Option.bind_some, Case.charsMatch_congr hfold' hfold,
            ih _ (by omega) next pos' rfl]
    · rw [repeatsFrom, repeatsFrom, if_neg hlt, if_neg hlt]

theorem repeatsUpTo_sameButCase (start first o pos : ℕ) :
    t.repeatsUpTo true start first o pos = t'.repeatsUpTo true start first o pos := by
  induction pos using Nat.strong_induction_on generalizing o with
  | _ pos ih =>
    by_cases hlt : first < pos
    · rw [repeatsUpTo_of_lt hlt, repeatsUpTo_of_lt hlt]
      rcases h.before pos first with ⟨hx, hy⟩ | ⟨e, e', pos', hx, hy, hfold⟩
      · rw [hx, hy]
        rfl
      · have hbounds := charBefore_bounds hx
        rw [hx, hy, Option.bind_some, Option.bind_some]
        rcases h.before o start with ⟨hx', hy'⟩ | ⟨c, c', prev, hx', hy', hfold'⟩
        · rw [hx', hy']
          rfl
        · rw [hx', hy', Option.bind_some, Option.bind_some, Case.charsMatch_congr hfold' hfold,
            ih pos' hbounds.2 prev]
    · rw [repeatsUpTo, repeatsUpTo, if_neg hlt, if_neg hlt]

end

end Target

/-! ### Anchors -/

namespace Anchor

/-- Whether an anchor looks at the word types of characters. -/
def isWord : Anchor → Bool
  | wordBoundary | notWordBoundary | wordStart | wordEnd => true
  | _ => false

variable {t t' : Target}

theorem afterTerminator_sameButCase (h : t.SameButCase t') (start o : ℕ) :
    afterTerminator t start o = afterTerminator t' start o := by
  rw [afterTerminator, afterTerminator]
  rcases h.before o start with ⟨hx, hy⟩ | ⟨c, c', prev, hx, hy, hfold⟩
  · rw [hx, hy]
  · rw [hx, hy]
    exact Case.isLineTerminator_congr hfold

theorem beforeTerminator_sameButCase (h : t.SameButCase t') (limit o : ℕ) :
    beforeTerminator t limit o = beforeTerminator t' limit o := by
  rw [beforeTerminator, beforeTerminator]
  rcases h.after o limit with ⟨hx, hy⟩ | ⟨c, c', next, hx, hy, hfold⟩
  · rw [hx, hy]
  · rw [hx, hy]
    exact Case.isLineTerminator_congr hfold

theorem atFinalTerminator_sameButCase (h : t.SameButCase t') (limit o : ℕ) :
    atFinalTerminator t limit o = atFinalTerminator t' limit o := by
  have hfeed : ∀ next, t.charAfter next limit = some ('\n', limit) ↔
      t'.charAfter next limit = some ('\n', limit) := by
    intro next
    rcases h.after next limit with ⟨hx, hy⟩ | ⟨c, c', last, hx, hy, hfold⟩
    · rw [hx, hy]
    · simp only [hx, hy, Option.some.injEq, Prod.mk.injEq]
      exact and_congr_left' (Case.eq_terminator_iff (by decide) hfold)
  rw [atFinalTerminator, atFinalTerminator]
  rcases h.after o limit with ⟨hx, hy⟩ | ⟨c, c', next, hx, hy, hfold⟩
  · rw [hx, hy]
  · have hreturn : c = '\r' ↔ c' = '\r' := Case.eq_terminator_iff (by decide) hfold
    rw [hx, hy]
    simp only [Case.isLineTerminator_congr hfold, hreturn, hfeed]

/-- An anchor that does not look at words holds at the same offsets of both
texts. -/
theorem holds_sameButCase (h : t.SameButCase t') {a : Anchor} (ha : a.isWord = false) (s : Span)
    (o : ℕ) (opts : Options) : a.holds t s o opts = a.holds t' s o opts := by
  cases a with
  | startLine => simp only [holds, afterTerminator_sameButCase h]
  | endLine =>
    simp only [holds, beforeTerminator_sameButCase h, atFinalTerminator_sameButCase h]
  | endTextOrLine => simp only [holds, atFinalTerminator_sameButCase h]
  | startText | endText => rfl
  | wordBoundary | notWordBoundary | wordStart | wordEnd => cases ha

end Anchor

/-! ### Programs -/

/-- Whether a pattern has no word anchor, and no modifier that goes back to
minding case.  A word anchor may tell characters apart that are the same up to
case. -/
structure Pattern.IgnoresCase (p : Pattern) : Prop where
  anchor : ∀ a, .anchor a ∈ p.subpatterns → a.isWord = false
  modifier : ∀ add remove body, .modifier add remove body ∈ p.subpatterns →
    remove.caseInsensitive = false

/-- Whether a program has the folded sets of its classes, no word anchor, and no
modifier that goes back to minding case. -/
structure Program.IgnoresCase (p : Program) : Prop where
  range : ∀ (k : ℕ) set folded negated next,
    p.ops[k]? = some (.atom (.range set folded negated) next) → folded = Pattern.foldedSet set
  anchor : ∀ (k : ℕ) a next, p.ops[k]? = some (.atom (.anchor a) next) → a.isWord = false
  modifier : ∀ (k : ℕ) add remove child next,
    p.ops[k]? = some (.modifier add remove child next) → remove.caseInsensitive = false

theorem Pattern.IgnoresCase.ofPattern {p : Pattern} (hp : p.IgnoresCase) :
    (Program.ofPattern p).IgnoresCase where
  range _ _ _ _ _ hop := Program.folded_eq p hop
  anchor k a next hop := by
    obtain ⟨q, hq, b, b', -, hemits⟩ := Program.exists_part p hop
    cases hemits
    exact hp.anchor a hq
  modifier k add remove child next hop := by
    obtain ⟨q, hq, b, b', -, hemits⟩ := Program.exists_part p hop
    cases hemits
    exact hp.modifier _ _ _ hq

/-- The attempt on another text. -/
def Attempt.on (a : Attempt) (t : Target) : Attempt := { a with target := t }

section

variable {a : Attempt} {t' : Target} {watch : ℕ → Mode → ℕ → Marks → Prop} {top : Bool}
  {m m' : Mode} {V V' : Marks} {links : List Link} {i k : ℕ} {sl : Option Slots} {r : Discovery}
  {opts : Options}

namespace Attempt

theorem readChar_sameButCase (h : a.target.SameButCase t') {test : Char → Bool}
    (htest : ∀ c c', Case.foldKey c = Case.foldKey c' → test c = test c') (reverse : Bool) :
    a.readChar reverse i test = (a.on t').readChar reverse i test := by
  have hnext : ReadAlike (a.nextChar reverse i) ((a.on t').nextChar reverse i) := by
    cases reverse with
    | false => exact h.after i a.span.stop
    | true => exact h.before i a.span.start
  rw [readChar, readChar]
  rcases hnext with ⟨hx, hy⟩ | ⟨c, c', next, hx, hy, hfold⟩
  · rw [hx, hy]
  · simp only [hx, hy, htest c c' hfold]

/-- **Atoms read the same in both texts.** -/
theorem read_sameButCase (h : a.target.SameButCase t') (hp : a.program.IgnoresCase)
    {atom : Atom} {next : Link} (hop : a.program.ops[k]? = some (.atom atom next))
    (hopts : opts.caseInsensitive = true) (reverse : Bool) :
    a.read atom opts reverse i sl = (a.on t').read atom opts reverse i sl := by
  cases atom with
  | char c =>
    simp only [read, hopts]
    rw [readChar_sameButCase h fun d d' hd => Case.charsMatch_congr hd rfl]
  | string cs =>
    simp only [read, hopts, Target.regionMatches, Target.regionMatchesBack, on, h.hasRoom,
      Target.matchAfter_sameButCase h, Target.matchBefore_sameButCase h]
  | range set folded negated =>
    obtain rfl := hp.range k set folded negated next hop
    simp only [read, hopts]
    rw [readChar_sameButCase h fun c c' hc => ?_]
    have hiff := contains_classSet set true c
    have hiff' := contains_classSet set true c'
    simp only [Case.charsMatch_congr hc rfl, ← hiff'] at hiff
    rw [Bool.eq_iff_iff.mpr hiff]
  | dot =>
    simp only [read]
    rw [readChar_sameButCase h fun c c' hc => by rw [Case.isLineTerminator_congr hc]]
  | anchor anchor =>
    simp only [read, Anchor.holds_sameButCase h (hp.anchor k anchor next hop)]
    rfl
  | backref group =>
    simp only [read, hopts]
    cases capturedSpan sl group with
    | error e => rfl
    | ok captured =>
      cases captured with
      | none => rfl
      | some region =>
        simp only [Target.repeats, Target.repeatsBack, Target.repeatsFrom_sameButCase h,
          Target.repeatsUpTo_sameButCase h, on]

end Attempt

/-- Within the matches of a program case is not minded either. -/
theorem Program.IgnoresCase.caseInsensitive_of_body (hp : a.program.IgnoresCase) {op : Op}
    {child : Link} (hop : a.program.ops[k]? = some op) (hb : op.body? m = some (child, m'))
    (hm : m.opts.caseInsensitive = true) : m'.opts.caseInsensitive = true := by
  cases op with
  | look | independent | ifLook =>
    cases hb
    exact hm
  | modifier add remove child next =>
    cases hb
    have hremove := hp.modifier k add remove child next hop
    simp [Options.modify, Options.union, Options.diff, Options.zipWith, hm, hremove]
  | _ => cases hb

/-- **Programs are explored alike on texts that differ in case.** -/
theorem Explores.sameButCase (h : a.target.SameButCase t') (hp : a.program.IgnoresCase)
    (he : Explores a watch top m V links i sl V' r) (hm : m.opts.caseInsensitive = true) :
    Explores (a.on t') watch top m V links i sl V' r := by
  induction he with
  | accept hend => exact .accept hend
  | short hw hi => exact .short hw hi
  | read hop hread _ ih =>
    exact .read hop ((Attempt.read_sameButCase h hp hop hm _).symm.trans hread) (ih hm)
  | unread hop hread =>
    exact .unread hop ((Attempt.read_sameButCase h hp hop hm _).symm.trans hread)
  | unreadable hop hread =>
    exact .unreadable hop ((Attempt.read_sameButCase h hp hop hm _).symm.trans hread)
  | choose hop hc _ ih => exact .choose hop hc (ih hm)
  | reenter hop hV => exact .reenter hop hV
  | enter hop hV _ ih => exact .enter hop hV (ih hm)
  | mark hop _ ih => exact .mark hop (ih hm)
  | test hop hg _ ih => exact .test hop hg (ih hm)
  | untestable hop hg => exact .untestable hop hg
  | fail hop => exact .fail hop
  | resume hop hb hw _ hr hgo _ ihb ih =>
    exact .resume hop hb hw (ihb (hp.caseInsensitive_of_body hop hb hm)) hr hgo (ih hm)
  | abandon hop hb hw _ hr hgo ihb =>
    exact .abandon hop hb hw (ihb (hp.caseInsensitive_of_body hop hb hm)) hr hgo
  | refuse hop hb hw _ ihb =>
    exact .refuse hop hb hw (ihb (hp.caseInsensitive_of_body hop hb hm))
  | nil => exact .nil
  | first _ hne ih => exact .first (ih hm) hne
  | later _ _ ih ih' => exact .later (ih hm) (ih' hm)

end

/-! ### Searches -/

namespace Search

variable {p : Pattern} {opts : Options} {t t' : Target} {span : Span} {slots : Option Slots}

theorem isValidSpan_sameButCase (h : t.SameButCase t') (span : Span) :
    isValidSpan t span = isValidSpan t' span := by
  rw [isValidSpan, isValidSpan, h.span_eq, h.isBoundary, h.isBoundary]

section

variable (hp : p.IgnoresCase) (hopts : opts.caseInsensitive = true) (h : t.SameButCase t')

include hp hopts h

/-- An attempt finds the same in both texts. -/
theorem Discovers.sameButCase {o : ℕ} {r : Discovery}
    (hr : (ofPattern p opts t span).Discovers slots o r) :
    (ofPattern p opts t' span).Discovers slots o r := by
  obtain ⟨V, hr⟩ := hr
  exact ⟨V, hr.sameButCase h hp.ofPattern hopts⟩

omit hp hopts in
theorem reachable_sameButCase {o : ℕ} :
    (ofPattern p opts t span).Reachable o ↔ (ofPattern p opts t' span).Reachable o :=
  and_congr_right' (and_congr_right' (by rw [ofPattern, h.isBoundary, ofPattern]))

/-- The leftmost match is the same in both texts. -/
theorem IsLeftmost.sameButCase {r : SearchResult}
    (hr : (ofPattern p opts t span).IsLeftmost slots r) :
    (ofPattern p opts t' span).IsLeftmost slots r := by
  have hfails : ∀ {o}, (∀ i, (ofPattern p opts t span).Reachable i → i < o →
      (ofPattern p opts t span).Discovers slots i .failed) →
      (ofPattern p opts t' span).FailsBefore slots o := fun hall i hi hlt =>
    (hall i ((reachable_sameButCase h).mpr hi) hlt).sameButCase hp hopts h
  rcases hr with ⟨o, e, ho, hbefore, hfound, hanswer⟩ | ⟨hall, hanswer, hslots⟩
  · exact .inl ⟨o, e, (reachable_sameButCase h).mp ho, hfails hbefore,
      hfound.sameButCase hp hopts h, hanswer⟩
  · exact .inr ⟨fun i hi => (hall i ((reachable_sameButCase h).mpr hi)).sameButCase hp hopts h,
      hanswer, hslots⟩

variable (ht : t.IsGenuine) (ht' : t'.IsGenuine) (hvalid : isValidSpan t span = true)
  (hfits : (ofPattern p opts t span).Fits slots) (hfits' : (ofPattern p opts t' span).Fits slots)

include hfits hfits'

/-- An attempt answers the same for both texts. -/
theorem attempt_sameButCase (cache cache' : Cache) {o : ℕ}
    (ho : (ofPattern p opts t span).Reachable o) :
    ((ofPattern p opts t span).attempt cache slots o).answer =
        ((ofPattern p opts t' span).attempt cache' slots o).answer ∧
      ((ofPattern p opts t span).attempt cache slots o).slots =
        ((ofPattern p opts t' span).attempt cache' slots o).slots := by
  rcases attempt_cases hfits cache ho with ⟨hr, hanswer, hslots⟩ | ⟨e, hr, hanswer⟩ <;>
    rcases attempt_cases hfits' cache' ((reachable_sameButCase h).mp ho) with
      ⟨hr', hanswer', hslots'⟩ | ⟨e', hr', hanswer'⟩
  · exact ⟨hanswer.trans hanswer'.symm, hslots.trans hslots'.symm⟩
  · cases (hr.sameButCase hp hopts h).unique hr'
  · cases (hr.sameButCase hp hopts h).unique hr'
  · injection (hr.sameButCase hp hopts h).unique hr' with he hslots
    exact ⟨by rw [hanswer, hanswer', he], hslots⟩

include ht ht' hvalid

/-- **A search finds the same in both texts**, with the same slots. -/
theorem run_sameButCase (cache cache' : Cache) :
    ((ofPattern p opts t span).run cache slots).answer =
        ((ofPattern p opts t' span).run cache' slots).answer ∧
      ((ofPattern p opts t span).run cache slots).slots =
        ((ofPattern p opts t' span).run cache' slots).slots := by
  cases hX : opts.xmlSchema with
  | false =>
    have hvalid' := (isValidSpan_sameButCase h span).symm.trans hvalid
    exact ((run_isLeftmost ht hvalid hfits hX cache).sameButCase hp hopts h).unique
      (run_isLeftmost ht' hvalid' hfits' hX cache')
  | true =>
    -- The one attempt is that at the start of the span.
    have hrun : ∀ t cache, (ofPattern p opts t span).run cache slots =
        if span.length < p.minLen then ⟨.ok none, slots, cache⟩
        else (ofPattern p opts t span).attempt cache slots span.start := by
      intro t cache
      rw [run, if_pos (show (ofPattern p opts t span).opts.xmlSchema = true from hX)]
      rfl
    rw [hrun, hrun]
    split
    · exact ⟨rfl, rfl⟩
    · exact attempt_sameButCase hp hopts h hfits hfits' cache cache'
        (reachable_start (s := ofPattern p opts t span) hvalid)

end

end Search

/-! ### Expressions -/

namespace Regex

variable {p : Pattern} {opts : Options} {r r' : Regex} {t t' : Target}

theorem searchWith_sameButCase (hp : p.RefersToGroups) (hcase : p.IgnoresCase)
    (hopts : opts.caseInsensitive = true) (h : t.SameButCase t') (ht : t.IsGenuine)
    (ht' : t'.IsGenuine) (hr : Has p opts r) (hr' : Has p opts r') (cache cache' : Cache)
    (span : Span) (caps : Option Captures) :
    (r.searchWith cache t span caps).answer = (r'.searchWith cache' t' span caps).answer ∧
      (r.searchWith cache t span caps).caps = (r'.searchWith cache' t' span caps).caps := by
  have hsame := Search.isValidSpan_sameButCase h span
  cases hvalid : Search.isValidSpan t span with
  | false =>
    rw [searchWith_of_not_valid hvalid, searchWith_of_not_valid (hsame.symm.trans hvalid)]
    exact ⟨rfl, rfl⟩
  | true =>
    obtain ⟨hanswer, hcaps⟩ := hr.searchWith_of_valid hvalid cache caps
    obtain ⟨hanswer', hcaps'⟩ := hr'.searchWith_of_valid (hsame.symm.trans hvalid) cache' caps
    obtain ⟨hfound, hslots⟩ := Search.run_sameButCase hcase hopts h ht ht' hvalid
      (Search.fits_slotsFor hp caps.isSome) (Search.fits_slotsFor hp caps.isSome) cache cache'
    refine ⟨?_, ?_⟩
    · rw [hanswer, hanswer']
      exact congrArg _ hfound
    · rw [hcaps, hcaps']
      exact congrArg (caps.map fun _ => ·) (SearchResult.captures_congr hfound hslots)

/-- **A search without regard to case ignores the case of the text.**  On
buffers whose characters have the same representatives, a search for a pattern
without word anchors that minds case nowhere has the same answer and leaves the
same captures, whatever the expressions have been used for. -/
theorem search_ignoresCase (hp : p.RefersToGroups) (hcase : p.IgnoresCase)
    (hopts : opts.caseInsensitive = true) {cs cs' : Array Char}
    (h : cs.map Case.foldKey = cs'.map Case.foldKey) (hr : MadeFrom p opts r)
    (hr' : MadeFrom p opts r') (span : Span) (caps : Option Captures) :
    (∀ cache cache',
        (r.searchWith cache (.buffer cs) span caps).answer =
            (r'.searchWith cache' (.buffer cs') span caps).answer ∧
          (r.searchWith cache (.buffer cs) span caps).caps =
            (r'.searchWith cache' (.buffer cs') span caps).caps) ∧
      (r.search (.buffer cs) span caps).1 = (r'.search (.buffer cs') span caps).1 ∧
        (r.search (.buffer cs) span caps).2.2 = (r'.search (.buffer cs') span caps).2.2 := by
  have hsame := Target.sameButCase_buffer h
  refine ⟨fun cache cache' => ?_, ?_⟩
  · exact searchWith_sameButCase hp hcase hopts hsame trivial trivial hr.has hr'.has cache cache'
      span caps
  · exact searchWith_sameButCase hp hcase hopts hsame trivial trivial (hr.has.withPool _)
      (hr'.has.withPool _) _ _ span caps

/-- `.(k)(?(1)s)` on two texts, one with the Kelvin sign and the long s. -/
theorem search_ignoresCase_kelvin :
    let p : Pattern := .concat [.dot, .group (some 1) (.char 'k'), .ifGroup 1 (.char 's') none]
    let opts : Options := { caseInsensitive := true }
    let r : Regex := .ofPattern p opts
    let cs : Array Char := #['é', '\u212A', 'ſ']
    let cs' : Array Char := #['É', 'k', 's']
    cs.map Case.foldKey = cs'.map Case.foldKey ∧
      (r.search (.buffer cs') ⟨0, 3⟩ (some .empty)).1 = .ok true ∧
      (r.search (.buffer cs) ⟨0, 3⟩ (some .empty)).1 = .ok true ∧
      (r.search (.buffer cs) ⟨0, 3⟩ (some .empty)).2.2 =
        (r.search (.buffer cs') ⟨0, 3⟩ (some .empty)).2.2 := by
  intro p opts r cs cs'
  have hp : p.RefersToGroups := by
    intro f hf g hg
    obtain rfl : f = .groupTest 1 := by simpa [p, Pattern.features, Pattern.featuresAll] using hf
    cases hg
    decide
  have hcase : p.IgnoresCase := by
    constructor <;> simp [p, Pattern.subpatterns, Pattern.subpatternsAll]
  have hfold : cs.map Case.foldKey = cs'.map Case.foldKey := by decide +kernel
  have hfound : (r.search (.buffer cs') ⟨0, 3⟩ (some .empty)).1 = .ok true := by cbv
  obtain ⟨-, hanswer, hcaps⟩ := search_ignoresCase hp hcase rfl hfold
    (.parts _ : MadeFrom p opts r) (.parts _ : MadeFrom p opts r) ⟨0, 3⟩ (some .empty)
  exact ⟨hfold, hfound, hanswer.trans hfound, hcaps⟩

end Regex

end Regexp
