import Regexp.Proofs.Correspondence

/-!
# Edges of words

An offset is the start of a word, the end of one, or no edge of a word.  Which
of these it is depends on two characters of the span: the one that begins there,
and the closest one before that is not ignored.  Where there is none, as at the
ends of the span, outside of it and inside of characters, it counts as a
separator.

The anchors do not say this.  Each of them has early exits of its own, for empty
spans and for offsets at the ends, and each looks at one or both sides in its
own order.  The description by two word types is common to all of them:
`WordType.closest` is the type of the last character before the offset that is
not ignored, and `WordType.next` that of the first character behind it, both of
lists of characters that the span alone determines (`Target.charsBefore`,
`Target.charsBehind`).  Once the anchors are known to look at these
(`Anchor.typeBefore_eq_closest`, `Anchor.typeAfter_eq_next`), each of them is a
condition on two word types, and the early exits turn out to say nothing that
the types do not say.

The two sides are not symmetric.  What is ignored is passed over before the
offset but not behind it, so that a mark belongs to the letter before it, and
there is no edge between the two.

## Main definitions

* `Target.charsBefore`, `Target.charsBehind` — the characters of a span on both
  sides of an offset.
* `WordType.closest`, `WordType.next` — the word types that decide about an
  offset between them.

## Main statements

* `Anchor.typeBefore_eq_closest`, `Anchor.typeAfter_eq_next` — what the anchors
  look at.
* `Anchor.holds_wordStart_iff`, `Anchor.holds_wordEnd_iff` — when a word starts,
  and when it ends.
* `Anchor.existsUnique_wordAnchor` — one of three anchors holds, whatever the
  span.
* `Anchor.wordAnchors_part` — which one it is.
-/

namespace Regexp

namespace WordType

variable {opts : Options} {c : Char} {cs : List Char}

/-- The type of the last character that is not ignored.  At the start of the
span it is that of a separator. -/
def closest (opts : Options) (before : List Char) : WordType :=
  ((before.map (of opts)).filter (· ≠ ignored)).getLast?.getD other

/-- The type of the first character, be it ignored or not, and at the end of the
span that of a separator. -/
def next (opts : Options) (behind : List Char) : WordType :=
  (behind.head?.map (of opts)).getD other

theorem closest_snoc : closest opts (cs ++ [c]) =
    if of opts c = ignored then closest opts cs else of opts c := by
  rw [closest, List.map_append, List.filter_append, List.map_singleton, List.filter_singleton]
  split
  · simp_all [closest]
  · simp_all

end WordType

namespace Target

variable {t : Target} {s : Span} {o start limit : ℕ}

/-- The characters of a span before an offset, all of them if the offset is not
in the span. -/
def charsBefore (t : Target) (s : Span) (o : ℕ) : List Char :=
  (t.slice? ⟨s.start, min o s.stop⟩).getD []

/-- The characters of a span from an offset on. -/
def charsBehind (t : Target) (s : Span) (o : ℕ) : List Char :=
  if s.start ≤ o then (t.slice? ⟨o, s.stop⟩).getD [] else []

/-- Only between two places, the first of them first, are there characters to
cut out. -/
theorem slice?_eq_none_iff : t.slice? s = none ↔
    ¬ (s.start ≤ s.stop ∧ t.isBoundary s.start = true ∧ t.isBoundary s.stop = true) := by
  rw [slice?.eq_def, ← and_assoc]
  split
  · cases t <;> simp_all
  · simp_all

section

variable (ht : t.IsGenuine)

include ht

theorem exists_place_of_slice (h : t.slice? s ≠ none) :
    ∃ j k, j ≤ k ∧ k ≤ t.chars.length ∧ s = ⟨t.place j, t.place k⟩ := by
  obtain ⟨hle, hstart, hstop⟩ := not_not.mp (mt slice?_eq_none_iff.mpr h)
  obtain ⟨j, hj, hstart⟩ := (isBoundary_iff ht).mp hstart
  obtain ⟨k, hk, hstop⟩ := (isBoundary_iff ht).mp hstop
  rw [hstart, hstop] at hle
  exact ⟨j, k, le_of_place_le hj hle, hk, by rw [← hstart, ← hstop]⟩

/-- A character before an offset is one of those that are cut out there. -/
theorem charBefore_eq_none (hstart : t.isBoundary start = true) (h : t.slice? ⟨start, o⟩ = none) :
    t.charBefore o start = none := by
  rw [Option.eq_none_iff_forall_ne_some]
  rintro ⟨c, i⟩ hread
  obtain ⟨hle, hlt⟩ := charBefore_bounds hread
  obtain ⟨k, hget, -, hplace, -⟩ := (charBefore_iff ht hstart).mp hread
  refine slice?_eq_none_iff.mp h ⟨hle.trans hlt.le, hstart, ?_⟩
  exact (isBoundary_iff ht).mpr ⟨k + 1, (List.getElem?_eq_some_iff.mp hget).1, hplace⟩

theorem charAfter_eq_none (hlimit : t.isBoundary limit = true) (h : t.slice? ⟨o, limit⟩ = none) :
    t.charAfter o limit = none := by
  rw [Option.eq_none_iff_forall_ne_some]
  rintro ⟨c, i⟩ hread
  obtain ⟨hlt, hle⟩ := charAfter_bounds hread
  obtain ⟨k, hget, hplace, -⟩ := (charAfter_iff ht hlimit).mp hread
  refine slice?_eq_none_iff.mp h ⟨hlt.le.trans hle, ?_, hlimit⟩
  exact (isBoundary_iff ht).mpr ⟨k, (List.getElem?_eq_some_iff.mp hget).1.le, hplace⟩

end

end Target

namespace Anchor

variable {t : Target} {s : Span} {o start limit : ℕ} {opts : Options}

/-! ### The types on both sides -/

theorem charBefore_eq_none_of_le (h : o ≤ start) : t.charBefore o start = none := by
  rw [Option.eq_none_iff_forall_ne_some]
  intro r hr
  have := Target.charBefore_bounds hr
  omega

theorem charAfter_eq_none_of_le (h : limit ≤ o) : t.charAfter o limit = none := by
  rw [Option.eq_none_iff_forall_ne_some]
  intro r hr
  have := Target.charAfter_bounds hr
  omega

/-- There is nothing but separators behind the span. -/
theorem typeAfter_of_le (h : s.stop ≤ o) : typeAfter opts t s o = .other := by
  rw [typeAfter, charAfter_eq_none_of_le h]
  split <;> rfl

/-- There is nothing but separators before the span. -/
theorem typeBefore_of_le (h : min o s.stop ≤ s.start) : typeBefore opts t s o = .other := by
  rw [typeBefore, lastType_eq, charBefore_eq_none_of_le h]
  rfl

/-- What is ignored is passed over on the way back. -/
theorem lastType_ne_ignored (start o : ℕ) : lastType opts t start o ≠ .ignored := by
  induction o using Nat.strong_induction_on with
  | _ o ih =>
    rw [lastType_eq]
    cases hread : t.charBefore o start with
    | none => exact nofun
    | some r =>
      rw [Option.map_some, Option.getD_some]
      split
      · exact ih r.2 (Target.charBefore_bounds hread).2
      · assumption

theorem typeBefore_ne_ignored : typeBefore opts t s o ≠ .ignored := lastType_ne_ignored _ _

section

variable (ht : t.IsGenuine)

include ht

theorem lastType_place {j k : ℕ} (hjk : j ≤ k) (hk : k ≤ t.chars.length) :
    lastType opts t (t.place j) (t.place k) =
      WordType.closest opts ((t.chars.take k).drop j) := by
  have hboundary : t.isBoundary (t.place j) = true :=
    (Target.isBoundary_iff ht).mpr ⟨j, hjk.trans hk, rfl⟩
  induction k, hjk using Nat.le_induction with
  | base =>
    rw [lastType_eq, charBefore_eq_none_of_le le_rfl,
      List.drop_eq_nil_of_le (List.length_take_le _ _)]
    rfl
  | succ k hjk ih =>
    have hget : t.chars[k]? = some t.chars[k] := List.getElem?_eq_getElem hk
    have hread : t.charBefore (t.place (k + 1)) (t.place j) = some (t.chars[k], t.place k) :=
      (Target.charBefore_iff ht hboundary).mpr
        ⟨k, hget, rfl, rfl, Target.place_le hjk (Nat.le_of_lt hk)⟩
    have htake : (t.chars.take (k + 1)).drop j = (t.chars.take k).drop j ++ [t.chars[k]] := by
      rw [List.take_add_one, hget, Option.toList_some, List.drop_append_of_le_length]
      rw [List.length_take]
      omega
    rw [lastType_eq, hread, htake, WordType.closest_snoc, ← ih (Nat.le_of_lt hk)]
    rfl

/-- **Before an offset the anchors look at the closest character that is not
ignored.** -/
theorem typeBefore_eq_closest (hstart : t.isBoundary s.start = true) :
    typeBefore opts t s o = WordType.closest opts (t.charsBefore s o) := by
  rw [typeBefore, Target.charsBefore]
  by_cases hslice : t.slice? ⟨s.start, min o s.stop⟩ = none
  · rw [lastType_eq, Target.charBefore_eq_none ht hstart hslice, hslice]
    rfl
  · obtain ⟨j, k, hjk, hk, heq⟩ := Target.exists_place_of_slice ht hslice
    obtain ⟨hstart, hstop⟩ := Span.mk.inj heq
    rw [hstart, hstop, Target.slice?_place ht hjk hk]
    exact lastType_place ht hjk hk

/-- **Behind an offset they look at the next character.** -/
theorem typeAfter_eq_next (hstop : t.isBoundary s.stop = true) :
    typeAfter opts t s o = WordType.next opts (t.charsBehind s o) := by
  rw [typeAfter, Target.charsBehind]
  by_cases hlt : o < s.start
  · rw [if_pos hlt, if_neg (by omega)]
    rfl
  rw [if_neg hlt, if_pos (by omega)]
  by_cases hslice : t.slice? ⟨o, s.stop⟩ = none
  · rw [Target.charAfter_eq_none ht hstop hslice, hslice]
    rfl
  · obtain ⟨j, k, hjk, hk, heq⟩ := Target.exists_place_of_slice ht hslice
    obtain ⟨ho, hplace⟩ := Span.mk.inj heq
    rw [ho, hplace, Target.slice?_place ht hjk hk]
    rw [hplace] at hstop
    rcases hjk.eq_or_lt with rfl | hlt
    · rw [charAfter_eq_none_of_le le_rfl, Option.getD_some,
        List.drop_eq_nil_of_le (List.length_take_le _ _)]
      rfl
    · have hget : t.chars[j]? = some t.chars[j] := List.getElem?_eq_getElem (hlt.trans_le hk)
      have hread : t.charAfter (t.place j) (t.place k) = some (t.chars[j], t.place (j + 1)) :=
        (Target.charAfter_iff ht hstop).mpr ⟨j, hget, rfl, rfl, Target.place_le hlt hk⟩
      have hhead : ((t.chars.take k).drop j).head? = some t.chars[j] := by
        rw [List.head?_drop, List.getElem?_take, if_pos hlt, hget]
      rw [hread, Option.getD_some, WordType.next, hhead]
      rfl

end

/-! ### The anchors -/

/-- At no offset of an empty span is there anything but separators. -/
theorem types_of_empty (h : s.start = s.stop) :
    typeAfter opts t s o = .other ∧ typeBefore opts t s o = .other := by
  refine ⟨?_, typeBefore_of_le (by omega)⟩
  by_cases hlt : o < s.start
  · rw [typeAfter, if_pos hlt]
  · exact typeAfter_of_le (by omega)

/-- A word starts where a letter follows a separator.  The rules for empty spans
and for the end of the span say nothing that the types do not. -/
theorem holds_wordStart_iff : wordStart.holds t s o opts = true ↔
    typeAfter opts t s o = .letter ∧ typeBefore opts t s o = .other := by
  simp only [holds, Bool.and_eq_true, decide_eq_true_iff, and_assoc]
  refine ⟨fun h => h.2.2, fun h => ⟨fun hempty => ?_, fun hstop => ?_, h⟩⟩
  · simp [types_of_empty hempty] at h
  · simp [typeAfter_of_le hstop.ge] at h

/-- A word ends where a separator follows a letter. -/
theorem holds_wordEnd_iff : wordEnd.holds t s o opts = true ↔
    typeAfter opts t s o = .other ∧ typeBefore opts t s o = .letter := by
  simp only [holds, Bool.and_eq_true, decide_eq_true_iff, and_assoc]
  refine ⟨fun h => h.2.2, fun h => ⟨fun hempty => ?_, fun hstart => ?_, h⟩⟩
  · simp [types_of_empty hempty] at h
  · simp [typeBefore_of_le ((min_le_left o s.stop).trans hstart.le)] at h

theorem holds_wordBoundary_iff : wordBoundary.holds t s o opts = true ↔
    typeAfter opts t s o ≠ .ignored ∧ typeAfter opts t s o ≠ typeBefore opts t s o := by
  simp only [holds, Bool.and_eq_true, decide_eq_true_iff, and_assoc]
  refine ⟨fun h => h.2, fun h => ⟨fun hempty => ?_, h⟩⟩
  simp [types_of_empty hempty] at h

/-- The two anchors for boundaries are opposites. -/
theorem holds_notWordBoundary_iff : notWordBoundary.holds t s o opts = true ↔
    ¬ wordBoundary.holds t s o opts = true := by
  simp only [holds, Bool.and_eq_true, Bool.or_eq_true, decide_eq_true_iff, and_assoc, or_assoc]
  tauto

/-- A boundary is a start or an end. -/
theorem wordBoundary_iff_edge : wordBoundary.holds t s o opts = true ↔
    wordStart.holds t s o opts = true ∨ wordEnd.holds t s o opts = true := by
  have hbefore : typeBefore opts t s o ≠ .ignored := typeBefore_ne_ignored
  rw [holds_wordBoundary_iff, holds_wordStart_iff, holds_wordEnd_iff]
  generalize typeBefore opts t s o = before at hbefore ⊢
  cases typeAfter opts t s o <;> cases before <;> simp_all

/-- No offset is a start and an end. -/
theorem not_wordEnd_of_wordStart (h : wordStart.holds t s o opts = true) :
    ¬ wordEnd.holds t s o opts = true := by
  rw [holds_wordStart_iff] at h
  simp [holds_wordEnd_iff, h.1]

/-- Whatever the text, the span and the offset, an offset is the start of a
word, the end of one or no edge of a word. -/
theorem existsUnique_wordAnchor (t : Target) (s : Span) (o : ℕ) (opts : Options) :
    ∃! a, a ∈ [notWordBoundary, wordStart, wordEnd] ∧ a.holds t s o opts = true := by
  have hnot : notWordBoundary.holds t s o opts = true ↔
      ¬ (wordStart.holds t s o opts = true ∨ wordEnd.holds t s o opts = true) := by
    rw [holds_notWordBoundary_iff, wordBoundary_iff_edge]
  have hexcl := @not_wordEnd_of_wordStart t s o opts
  simp only [List.mem_cons, List.not_mem_nil, or_false]
  by_cases hstart : wordStart.holds t s o opts = true
  · refine ⟨wordStart, ⟨by simp, hstart⟩, ?_⟩
    rintro a ⟨rfl | rfl | rfl, ha⟩
    · exact absurd (.inl hstart) (hnot.mp ha)
    · rfl
    · exact absurd ha (hexcl hstart)
  · by_cases hend : wordEnd.holds t s o opts = true
    · refine ⟨wordEnd, ⟨by simp, hend⟩, ?_⟩
      rintro a ⟨rfl | rfl | rfl, ha⟩
      · exact absurd (.inr hend) (hnot.mp ha)
      · exact absurd ha hstart
      · rfl
    · refine ⟨notWordBoundary, ⟨by simp, hnot.mpr (by tauto)⟩, ?_⟩
      rintro a ⟨rfl | rfl | rfl, ha⟩
      · rfl
      · exact absurd ha hstart
      · exact absurd ha hend

/-- **The word anchors part the offsets.**  At every offset, in the span or out
of it, exactly one of three anchors holds: it is no edge of a word, the start of
one or the end of one; and it is a boundary if it is a start or an end.  Which
one holds is told by the characters of the span on its two sides alone: a word
starts between a separator and a letter, and ends between a letter and a
separator, where what is ignored is passed over before the offset. -/
theorem wordAnchors_part {t : Target} {s : Span} (ht : t.IsGenuine)
    (hs : Search.isValidSpan t s = true) (o : ℕ) (opts : Options) :
    (∃! a, a ∈ [notWordBoundary, wordStart, wordEnd] ∧ a.holds t s o opts = true) ∧
      (wordBoundary.holds t s o opts = true ↔
        wordStart.holds t s o opts = true ∨ wordEnd.holds t s o opts = true) ∧
      (wordStart.holds t s o opts = true ↔
        WordType.closest opts (t.charsBefore s o) = .other ∧
          WordType.next opts (t.charsBehind s o) = .letter) ∧
      (wordEnd.holds t s o opts = true ↔
        WordType.closest opts (t.charsBefore s o) = .letter ∧
          WordType.next opts (t.charsBehind s o) = .other) := by
  obtain ⟨hstart, hstop⟩ := Search.isBoundary_of_valid hs
  refine ⟨existsUnique_wordAnchor t s o opts, wordBoundary_iff_edge, ?_, ?_⟩
  · rw [holds_wordStart_iff, typeBefore_eq_closest ht hstart, typeAfter_eq_next ht hstop, and_comm]
  · rw [holds_wordEnd_iff, typeBefore_eq_closest ht hstart, typeAfter_eq_next ht hstop, and_comm]

/-- A word between two characters of two bytes, in a span that ends with it: it
starts and ends where it should, and inside of the first character there is no
edge. -/
theorem wordAnchors_part_inside :
    let t := Target.ofString "éabé"
    t.IsGenuine ∧ Search.isValidSpan t ⟨0, 4⟩ = true ∧
      wordStart.holds t ⟨0, 4⟩ 2 {} = true ∧ wordEnd.holds t ⟨0, 4⟩ 4 {} = true ∧
      wordBoundary.holds t ⟨0, 4⟩ 4 {} = true ∧
      ∃! a, a ∈ [notWordBoundary, wordStart, wordEnd] ∧ a.holds t ⟨0, 4⟩ 1 {} = true := by
  intro t
  have hgenuine : t.IsGenuine := ⟨_, rfl⟩
  have hvalid : Search.isValidSpan t ⟨0, 4⟩ = true := by decide +kernel
  obtain ⟨-, -, hstart, -⟩ := wordAnchors_part hgenuine hvalid 2 {}
  obtain ⟨-, hboundary, -, hend⟩ := wordAnchors_part hgenuine hvalid 4 {}
  obtain ⟨hone, -⟩ := wordAnchors_part hgenuine hvalid 1 {}
  have hends : wordEnd.holds t ⟨0, 4⟩ 4 {} = true := hend.mpr (by decide +kernel)
  exact ⟨hgenuine, hvalid, hstart.mpr (by decide +kernel), hends, hboundary.mpr (.inr hends), hone⟩

end Anchor

end Regexp
