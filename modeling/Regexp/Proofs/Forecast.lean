import Regexp.Pattern.FirstChar
import Regexp.Proofs.CaseFold
import Regexp.Proofs.Derivation

/-!
# What is known of a match beforehand

The two analyses of a pattern that a search relies on do not promise too much:
each derivation begins with one of the first characters, and goes through the
fixed string.

`FirstChar.Begins` says what an answer of the analysis of first characters means
for the text between two offsets.  `Forecasts` is the statement about a part of
a pattern, with the set before and after: what is found out about a relation
between offsets holds of it, and the characters that were collected before are
still there.  The second half is needed because the set is handed from one part
to the next and only ever grows, so that a promise made early has to survive all
that is added later.  There is a lemma for each way in which parts are put
together, `Forecasts.either`, `Forecasts.optional`, `Forecasts.times` and their
like, and the induction over patterns applies them.

The analyses go forward, and a derivation of the body of a lookbehind is also
told from the smaller offset to the larger one; so the direction of the walk
does not enter.

## Main definitions

* `FirstChar.Begins` — what an analysis says about the text between two offsets.
* `Pattern.Forecasts` — what is found out about a relation holds of it.
* `Pattern.GoesThrough` — a string stands somewhere between two offsets.

## Main statements

* `Pattern.firstChar_begins` — every derivation begins as the analysis says.
* `Pattern.spells_fixedString` — every derivation goes through the fixed string.
-/

namespace Regexp

variable {t : Target} {s : Span} {strict reverse : Bool} {opts : Options} {i j k : ℕ}
  {seen seen' : CharSet} {known known' : FirstChar}

/-- Whether a set has all the members of another one.  Characters are only ever
added to those that an analysis has collected. -/
def CharSet.Covers (seen' seen : CharSet) : Prop :=
  ∀ c, seen.contains c = true → seen'.contains c = true

namespace CharSet

theorem Covers.refl : seen.Covers seen := fun _ h => h

theorem Covers.trans {seen'' : CharSet} (h : seen''.Covers seen') (h' : seen'.Covers seen) :
    seen''.Covers seen := fun c hc => h c (h' c hc)

theorem covers_union_left (set : CharSet) : (seen.union set).Covers seen := by
  intro c h
  rw [contains_union, h, Bool.true_or]

end CharSet

/-- Whether the text from an offset begins with a character of a set, before the
span ends. -/
def Target.BeginsIn (t : Target) (s : Span) (set : CharSet) (i : ℕ) : Prop :=
  ∃ c j, t.HasChar s i c j ∧ set.contains c = true

theorem Target.BeginsIn.mono (h : t.BeginsIn s seen i) (hcovers : seen'.Covers seen) :
    t.BeginsIn s seen' i := by
  obtain ⟨c, j, hchar, hc⟩ := h
  exact ⟨c, j, hchar, hcovers c hc⟩

namespace FirstChar

/-- What an analysis says about the text between two offsets: it begins with one
of the characters, it does so unless it is empty, or nothing is known of it. -/
def Begins (t : Target) (s : Span) (set : CharSet) (i j : ℕ) : FirstChar → Prop
  | terminal => t.BeginsIn s set i
  | continues => i = j ∨ t.BeginsIn s set i
  | any => True

theorem Begins.mono (h : known.Begins t s seen i j) (hcovers : seen'.Covers seen) :
    known.Begins t s seen' i j := by
  cases known with
  | terminal => exact Target.BeginsIn.mono h hcovers
  | continues => exact h.imp_right fun h => h.mono hcovers
  | any => trivial

/-- Whatever is known holds of a text that begins with one of the characters. -/
theorem Begins.of_beginsIn (h : t.BeginsIn s seen i) : known.Begins t s seen i j := by
  cases known with
  | terminal => exact h
  | continues => exact Or.inr h
  | any => trivial

/-- What is known after either of two parts holds after the first one. -/
theorem Begins.either_left (h : known.Begins t s seen i j) (known' : FirstChar) :
    (known.either known').Begins t s seen i j := by
  cases known <;> cases known' <;> first | exact h | exact Or.inr h | trivial

/-- What is known after either of two parts holds after the second one. -/
theorem Begins.either_right (h : known'.Begins t s seen i j) (known : FirstChar) :
    (known.either known').Begins t s seen i j := by
  cases known <;> cases known' <;> first | exact h | exact Or.inr h | trivial

/-- What is known without promising a character: either nothing was read, or it
began with one of those seen. -/
theorem Begins.continues (h : known.Begins t s seen i j) (hknown : known ≠ any) :
    FirstChar.continues.Begins t s seen i j := by
  cases known with
  | terminal => exact Or.inr h
  | continues => exact h
  | any => exact absurd rfl hknown

end FirstChar

namespace Pattern

open FirstChar

/-! ### Characters and classes -/

theorem contains_firstOf {c d : Char} (h : Case.charsMatch opts.caseInsensitive d c = true) :
    (firstOf opts c).contains d = true := by
  unfold firstOf
  split
  · rename_i hfold
    rw [hfold, Case.charsMatch_true] at h
    rw [CharSet.contains_caseFold]
    exact ⟨c, by simp, h⟩
  · rename_i hfold
    rw [Bool.eq_false_iff.mpr hfold, Case.charsMatch_false] at h
    simp [h]

theorem contains_firstOfClass {set : CharSet} {negated : Bool} {c : Char}
    (h : (∃ d, set.contains d = true ∧ Case.charsMatch opts.caseInsensitive c d = true) ↔
      negated = false) : (firstOfClass opts set negated).contains c = true := by
  unfold firstOfClass
  cases negated with
  | true =>
    have hnot : ¬ set.contains c = true := fun hc =>
      Bool.noConfusion (h.mp ⟨c, hc, Case.charsMatch_self c⟩)
    rw [if_pos rfl, CharSet.contains_compl, Bool.eq_false_iff.mpr hnot]
    rfl
  | false =>
    obtain ⟨d, hd, hmatch⟩ := h.mpr rfl
    rw [if_neg Bool.false_ne_true]
    split
    · rename_i hfold
      rw [hfold, Case.charsMatch_true] at hmatch
      exact (CharSet.contains_caseFold set c).mpr ⟨d, hd, hmatch⟩
    · rename_i hfold
      rw [Bool.eq_false_iff.mpr hfold, Case.charsMatch_false] at hmatch
      rwa [hmatch]

/-- A literal begins with a variant of its first character. -/
theorem beginsIn_of_spells {c : Char} {cs : List Char}
    (h : t.Spells s opts.caseInsensitive i (c :: cs) j) :
    t.BeginsIn s (seen.union (firstOf opts c)) i := by
  obtain ⟨d, k, hchar, hmatch, -⟩ := h
  refine ⟨d, k, hchar, ?_⟩
  rw [CharSet.contains_union, contains_firstOf hmatch, Bool.or_true]

/-! ### The analysis -/

/-- Several derivations of a body begin as the first one that is not empty does. -/
theorem begins_of_times {R : ℕ → ℕ → Prop} {n : ℕ}
    (hR : ∀ i j, R i j → FirstChar.continues.Begins t s seen i j) (h : Times R n i j) :
    FirstChar.continues.Begins t s seen i j := by
  induction n generalizing i with
  | zero => exact Or.inl h
  | succ n ih =>
    obtain ⟨k, hk, hrest⟩ := h
    rcases hR i k hk with rfl | hbegins
    · exact ih hrest
    · exact Or.inr hbegins

/-- Whether what is found out about a relation between offsets holds of it, and
the characters that were collected before are still there. -/
structure Forecasts (t : Target) (s : Span) (R : ℕ → ℕ → Prop) (seen : CharSet)
    (found : FirstChar × CharSet) : Prop where
  covers : found.2.Covers seen
  begins : ∀ i j, R i j → found.1.Begins t s found.2 i j

theorem Forecasts.any {R : ℕ → ℕ → Prop} (h : seen'.Covers seen) :
    Forecasts t s R seen (.any, seen') :=
  ⟨h, fun _ _ _ => trivial⟩

/-- Whatever matches only the empty text adds no characters, and leaves open
what follows. -/
theorem Forecasts.of_eq {R : ℕ → ℕ → Prop} (hR : ∀ i j, R i j → i = j) :
    Forecasts t s R seen (.continues, seen) :=
  ⟨.refl, fun i j h => Or.inl (hR i j h)⟩

theorem Forecasts.mono {R R' : ℕ → ℕ → Prop} {found : FirstChar × CharSet}
    (h : Forecasts t s R seen found) (hR : ∀ i j, R' i j → R i j) : Forecasts t s R' seen found :=
  ⟨h.covers, fun i j hR' => h.begins i j (hR i j hR')⟩

/-- After one of two parts, both of which have been looked at. -/
theorem Forecasts.either {R R' : ℕ → ℕ → Prop} {seen'' : CharSet}
    (h : Forecasts t s R seen (known, seen')) (h' : Forecasts t s R' seen' (known', seen'')) :
    Forecasts t s (fun i j => R i j ∨ R' i j) seen (known.either known', seen'') := by
  refine ⟨h'.covers.trans h.covers, fun i j hij => ?_⟩
  rcases hij with hij | hij
  · exact ((h.begins i j hij).mono h'.covers).either_left known'
  · exact (h'.begins i j hij).either_right known

/-- After a part that may be left out, so that no character is promised. -/
theorem Forecasts.optional {R : ℕ → ℕ → Prop} (h : Forecasts t s R seen (known, seen'))
    (hknown : known ≠ .any) :
    Forecasts t s (fun i j => R i j ∨ i = j) seen (.continues, seen') := by
  refine ⟨h.covers, fun i j hij => ?_⟩
  rcases hij with hij | hij
  · exact (h.begins i j hij).continues hknown
  · exact Or.inl hij

/-- After a part that is repeated, perhaps no times at all. -/
theorem Forecasts.times {R : ℕ → ℕ → Prop} (h : Forecasts t s R seen (known, seen'))
    (hknown : known ≠ .any) : Forecasts t s (fun i j => ∃ n, Times R n i j) seen
      (.continues, seen') := by
  refine ⟨h.covers, fun i j ⟨n, hn⟩ => ?_⟩
  exact begins_of_times (fun i j hR => (h.begins i j hR).continues hknown) hn

/-- After a condition with one branch. -/
theorem Forecasts.ifGroup {R : ℕ → ℕ → Prop} {yes : Pattern} (g : ℕ)
    (h : Forecasts t s R seen (firstChar opts yes seen)) :
    Forecasts t s (fun i j => R i j ∨ i = j) seen (firstChar opts (.ifGroup g yes none) seen) := by
  rw [firstChar]
  cases hfound : firstChar opts yes seen with
  | mk known seen' =>
    rw [hfound] at h
    cases known with
    | any => exact .any h.covers
    | terminal => exact h.optional nofun
    | continues => exact h.optional nofun

/-- After a condition with two branches. -/
theorem Forecasts.ifGroup_some {R R' : ℕ → ℕ → Prop} {yes no : Pattern} (g : ℕ)
    (h : Forecasts t s R seen (firstChar opts yes seen))
    (h' : ∀ seen', Forecasts t s R' seen' (firstChar opts no seen')) :
    Forecasts t s (fun i j => R i j ∨ R' i j) seen
      (firstChar opts (.ifGroup g yes (some no)) seen) := by
  rw [firstChar]
  cases hfound : firstChar opts yes seen with
  | mk known seen' =>
    rw [hfound] at h
    replace h' := h' seen'
    cases hfound' : firstChar opts no seen' with
    | mk known' seen'' =>
      rw [hfound'] at h'
      cases known with
      | any => exact .any h.covers
      | terminal =>
        simp only [hfound']
        exact h.either h'
      | continues =>
        simp only [hfound']
        exact h.either h'

mutual

theorem firstChar_forecasts : (p : Pattern) → (reverse : Bool) → (opts : Options) →
    (seen : CharSet) → Forecasts t s (Derives t s strict reverse opts p) seen
      (firstChar opts p seen)
  | .empty, _, _, _ => .of_eq fun _ _ h => h
  | .char _, _, _, _ => ⟨CharSet.covers_union_left _, fun _ _ h => beginsIn_of_spells h⟩
  | .string [], _, _, _ => .of_eq fun _ _ h => h
  | .string (_ :: _), _, _, _ => ⟨CharSet.covers_union_left _, fun _ _ h => beginsIn_of_spells h⟩
  | .charClass set negated, _, opts, seen => by
    refine ⟨CharSet.covers_union_left _, fun i j ⟨c, hchar, hc⟩ => ⟨c, j, hchar, ?_⟩⟩
    rw [firstChar, CharSet.contains_union, contains_firstOfClass hc, Bool.or_true]
  | .dot, _, _, _ => .any .refl
  | .backref _, _, _, _ => .any .refl
  | .anchor _, _, _, _ => .of_eq fun _ _ h => h.1
  | .look _ _, _, _, _ => .of_eq fun _ _ h => h.1
  | .concat items, reverse, opts, seen => firstCharSeq_forecasts items reverse opts seen
  | .union [], _, _, _ => ⟨.refl, fun _ _ h => h.elim⟩
  | .union (p :: ps), reverse, opts, seen => by
    have hp : Forecasts t s (Derives t s strict reverse opts p) seen _ :=
      firstChar_forecasts p reverse opts seen
    rw [firstChar]
    cases hfound : firstChar opts p seen with
    | mk known seen' =>
      rw [hfound] at hp
      cases known with
      | any => exact .any hp.covers
      | terminal => exact firstCharAlt_forecasts ps reverse opts hp
      | continues => exact firstCharAlt_forecasts ps reverse opts hp
  | .repetition body min max greedy, reverse, opts, seen => by
    have hbody : Forecasts t s (Derives t s strict reverse opts body) seen _ :=
      firstChar_forecasts body reverse opts seen
    rw [firstChar]
    cases hfound : firstChar opts body seen with
    | mk known seen' =>
      rw [hfound] at hbody
      have htimes : known ≠ .any → Forecasts t s
          (Derives t s strict reverse opts (.repetition body min max greedy)) seen
            (.continues, seen') := fun hknown =>
        (hbody.times hknown).mono fun _ _ ⟨n, _, _, hn⟩ => ⟨n, hn⟩
      cases known with
      | any => exact .any hbody.covers
      | continues => exact htimes nofun
      | terminal =>
        by_cases hmin : 0 < min
        · -- There is a first time, and it begins with a character.
          refine ⟨hbody.covers, fun i j ⟨n, hn, _, h⟩ => ?_⟩
          obtain ⟨n, rfl⟩ := Nat.exists_eq_add_of_lt (hmin.trans_le hn)
          rw [Nat.zero_add] at h
          obtain ⟨k, hk, -⟩ := h
          simp only [gt_iff_lt, hmin, if_true]
          exact hbody.begins i k hk
        · simp only [gt_iff_lt, hmin, if_false]
          exact htimes nofun
  | .group _ body, reverse, opts, seen => firstChar_forecasts body reverse opts seen
  | .independent body, reverse, opts, seen => firstChar_forecasts body reverse opts seen
  | .modifier add remove body, reverse, opts, seen =>
    firstChar_forecasts body reverse (opts.modify add remove) seen
  | .ifGroup g yes none, reverse, opts, seen =>
    (firstChar_forecasts yes reverse opts seen).ifGroup g
  | .ifGroup g yes (some no), reverse, opts, seen =>
    (firstChar_forecasts yes reverse opts seen).ifGroup_some g (firstChar_forecasts no reverse opts)
  | .ifLook _ yes none, reverse, opts, seen =>
    ((firstChar_forecasts yes reverse opts seen).ifGroup 0).mono fun _ _ h =>
      h.imp And.right And.right
  | .ifLook _ yes (some no), reverse, opts, seen =>
    ((firstChar_forecasts yes reverse opts seen).ifGroup_some 0
      (firstChar_forecasts no reverse opts)).mono fun _ _ h => h.imp And.right And.right
  termination_by structural p => p

theorem firstCharSeq_forecasts : (ps : List Pattern) → (reverse : Bool) → (opts : Options) →
    (seen : CharSet) → Forecasts t s (DerivesSeq t s strict reverse opts ps) seen
      (firstCharSeq opts ps seen)
  | [], _, _, _ => .of_eq fun _ _ h => h
  | p :: ps, reverse, opts, seen => by
    have hp : Forecasts t s (Derives t s strict reverse opts p) seen _ :=
      firstChar_forecasts p reverse opts seen
    rw [firstCharSeq]
    cases hfound : firstChar opts p seen with
    | mk known seen' =>
      rw [hfound] at hp
      cases known with
      | any => exact .any hp.covers
      | terminal => exact ⟨hp.covers, fun i j ⟨k, hk, _⟩ => hp.begins i k hk⟩
      | continues =>
        have hps : Forecasts t s (DerivesSeq t s strict reverse opts ps) seen' _ :=
          firstCharSeq_forecasts ps reverse opts seen'
        refine ⟨hps.covers.trans hp.covers, fun i j ⟨k, hk, hrest⟩ => ?_⟩
        simp only
        rcases hp.begins i k hk with rfl | hbegins
        · exact hps.begins i j hrest
        · exact .of_beginsIn (hbegins.mono hps.covers)
  termination_by structural ps => ps

theorem firstCharAlt_forecasts : (ps : List Pattern) → (reverse : Bool) → (opts : Options) →
    {R : ℕ → ℕ → Prop} → {seen seen' : CharSet} → {known : FirstChar} →
      Forecasts t s R seen (known, seen') →
        Forecasts t s (fun i j => R i j ∨ DerivesOne t s strict reverse opts ps i j) seen
          (firstCharAlt opts ps known seen')
  | [], _, _, _, _, _, _, h => ⟨h.covers, fun i j hR => h.begins i j (hR.resolve_right id)⟩
  | p :: ps, reverse, opts, _, _, seen', _, h => by
    have hp : Forecasts t s (Derives t s strict reverse opts p) seen' _ :=
      firstChar_forecasts p reverse opts seen'
    rw [firstCharAlt]
    cases hfound : firstChar opts p seen' with
    | mk known' seen'' =>
      rw [hfound] at hp
      have hboth := firstCharAlt_forecasts ps reverse opts (h.either hp)
      cases known' with
      | any => exact .any (hp.covers.trans h.covers)
      | terminal => exact hboth.mono fun _ _ hR => or_assoc.mpr hR
      | continues => exact hboth.mono fun _ _ hR => or_assoc.mpr hR
  termination_by structural ps => ps

end

/-- **Every derivation begins as the analysis of first characters says.** -/
theorem firstChar_begins {p : Pattern} (h : Derives t s strict reverse opts p i j) :
    (p.firstChar opts .empty).1.Begins t s (p.firstChar opts .empty).2 i j :=
  (firstChar_forecasts p reverse opts .empty).begins i j h

/-! ### Fixed strings -/

theorem Derives.le {p : Pattern} (h : Derives t s strict reverse opts p i j) : i ≤ j := by
  obtain ⟨w, hw, -⟩ := Derives.hasText p reverse opts i j h
  exact hw.le

theorem DerivesSeq.le {ps : List Pattern} (h : DerivesSeq t s strict reverse opts ps i j) :
    i ≤ j := by
  obtain ⟨w, hw, -⟩ := DerivesSeq.hasText ps reverse opts i j h
  exact hw.le

/-- The longest string is one of them. -/
theorem mem_of_longerString {found : Option (List Char × Options)}
    {strings : List (Option (List Char × Options))} {best : List Char × Options}
    (h : strings.foldl longerString found = some best) :
    found = some best ∨ some best ∈ strings := by
  induction strings generalizing found with
  | nil => exact .inl h
  | cons next strings ih =>
    rw [List.foldl_cons] at h
    rcases ih h with hbest | hmem
    · unfold longerString at hbest
      split at hbest
      · exact .inr (hbest ▸ List.mem_cons_self)
      · exact .inl hbest
      · split at hbest
        · exact .inr (hbest ▸ List.mem_cons_self)
        · exact .inl hbest
    · exact .inr (List.mem_cons_of_mem _ hmem)

/-- Whether a string stands somewhere between two offsets, under the options
that go with it. -/
def GoesThrough (t : Target) (s : Span) (found : List Char × Options) (i j : ℕ) : Prop :=
  ∃ i' j', i ≤ i' ∧ j' ≤ j ∧ t.Spells s found.2.caseInsensitive i' found.1 j'

mutual

/-- **Every derivation goes through the fixed string**, in either direction of
the walk. -/
theorem spells_fixedString : (p : Pattern) → (reverse : Bool) → (opts : Options) → (i j : ℕ) →
    (found : List Char × Options) → p.fixedString opts = some found →
      Derives t s strict reverse opts p i j → GoesThrough t s found i j
  | .string cs, _, _, i, j, _, hfound, h => by
    cases hfound
    exact ⟨i, j, le_rfl, le_rfl, h⟩
  | .concat items, reverse, opts, i, j, found, hfound, h =>
    spells_fixedStrings items reverse opts i j found
      ((mem_of_longerString hfound).resolve_left nofun) h
  | .group _ body, reverse, opts, i, j, found, hfound, h =>
    spells_fixedString body reverse opts i j found hfound h
  | .independent body, reverse, opts, i, j, found, hfound, h =>
    spells_fixedString body reverse opts i j found hfound h
  | .modifier add remove body, reverse, opts, i, j, found, hfound, h =>
    spells_fixedString body reverse (opts.modify add remove) i j found hfound h
  | .empty, _, _, _, _, _, hfound, _ => nomatch hfound
  | .char _, _, _, _, _, _, hfound, _ => nomatch hfound
  | .dot, _, _, _, _, _, hfound, _ => nomatch hfound
  | .charClass _ _, _, _, _, _, _, hfound, _ => nomatch hfound
  | .anchor _, _, _, _, _, _, hfound, _ => nomatch hfound
  | .union _, _, _, _, _, _, hfound, _ => nomatch hfound
  | .repetition _ _ _ _, _, _, _, _, _, hfound, _ => nomatch hfound
  | .backref _, _, _, _, _, _, hfound, _ => nomatch hfound
  | .look _ _, _, _, _, _, _, hfound, _ => nomatch hfound
  | .ifGroup _ _ _, _, _, _, _, _, hfound, _ => nomatch hfound
  | .ifLook _ _ _, _, _, _, _, _, hfound, _ => nomatch hfound
  termination_by structural p => p

theorem spells_fixedStrings : (ps : List Pattern) → (reverse : Bool) → (opts : Options) →
    (i j : ℕ) → (found : List Char × Options) → some found ∈ fixedStrings opts ps →
      DerivesSeq t s strict reverse opts ps i j → GoesThrough t s found i j
  | [], _, _, _, _, _, hmem, _ => nomatch hmem
  | p :: ps, reverse, opts, i, j, found, hmem, ⟨k, h, hrest⟩ => by
    rcases List.mem_cons.mp hmem with hfound | hmem
    · obtain ⟨i', j', hi, hj, hspells⟩ :=
        spells_fixedString p reverse opts i k found hfound.symm h
      exact ⟨i', j', hi, hj.trans hrest.le, hspells⟩
    · obtain ⟨i', j', hi, hj, hspells⟩ :=
        spells_fixedStrings ps reverse opts k j found hmem hrest
      exact ⟨i', j', h.le.trans hi, hj, hspells⟩
  termination_by structural ps => ps

end

end Pattern

end Regexp
