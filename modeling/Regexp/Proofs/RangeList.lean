import Regexp.Proofs.SetAlgebra
import Regexp.RangeSet

/-!
# The loops over lists of ranges

Sets of characters that are kept as lists of ranges (`RangeSet`) are changed by
three loops: one that merges sorted ranges, one that collects the gaps between
ranges, and one that walks over two lists and takes the ranges of the second
away from those of the first.  Each of them is right only on lists in which the
ranges stand apart, `List.Pairwise CharRange.Before`, and has to give such a
list again.  This module says of each loop, in one theorem with one induction,
that it gives ranges that stand apart and which characters these hold.  Both are
needed at once: whether the ranges that one round gives stand apart from those
of the later rounds follows from the characters that the later ones hold.

## Code points and numbers

`Scalar.next?` and `Scalar.previous?` compute with code points and step over the
surrogates.  The proofs compute with the numbers of characters (`Char.ordinal`),
in which there is no gap:  `Scalar.ordinal_val` relates the two, and by
`Scalar.next?_eq_some_iff` and `Scalar.previous?_eq_some_iff` the neighbours of
a character are those with the next number and the one before.  The two ends of
the range of all characters are the only ones without a neighbour
(`Scalar.next?_eq_none_iff`, `Scalar.exists_previous?`), so that no loop loses a
character there.  From here on, code points only occur in
`CharRange.len_eq_size`, which says that the size that is counted with them is
the number of characters.

## What a loop carries along

* Merging keeps the ranges that are merged so far in descending order.  The last
  of them begins no later than the next range, since the list is sorted by first
  characters, and this is all that is needed of the order
  (`CharRange.mergeInto_spec`, `CharRange.foldl_mergeInto`).
* The loop over the gaps carries the first character that may be in the next
  gap, which does not exist behind the last of all characters.
  `CharRange.charsFrom` is the set of the characters from it on, so that the two
  cases need not be told apart, and `CharRange.gaps_spec` takes the ranges away
  from it.
* Cutting drops ranges of the second list when they have been passed.  They are
  in no later range of the first list, because each of them ends no later than
  the current one: this is the last part of `CharRange.cut_spec`, and the reason
  why `CharRange.cutAll_spec` may go on with what is left.

## Main statements

* `CharRange.foldl_mergeInto` — merging keeps ranges apart and loses no
  character.
* `CharRange.gaps_spec` — the gaps stand apart and hold the other characters.
* `CharRange.cutAll_spec` — what is left of the first list holds what is not in
  the second.
-/

namespace Regexp

/-! ### Neighbours -/

namespace Scalar

variable {c d : Char}

/-- A character has no code point among the surrogates. -/
theorem toNat_cases (c : Char) : c.toNat < 0xD800 ∨ 0xDFFF < c.toNat ∧ c.toNat < 0x110000 :=
  c.valid

/-- In the numbers of characters there is no gap for the surrogates. -/
theorem ordinal_val (c : Char) :
    c.ordinal.val = if c.toNat < 0xD800 then c.toNat else c.toNat - 0x800 := by
  by_cases h : c.toNat < 0xD800
  · rw [if_pos h, Char.ordinal, dif_pos (show c.val < 0xD800 from h)]
    rfl
  · rw [if_neg h, Char.ordinal, dif_neg (show ¬ c.val < 0xD800 from h)]
    rfl

theorem ofCodePoint?_eq_some_iff {n : ℕ} : ofCodePoint? n = some d ↔ d.toNat = n := by
  rw [ofCodePoint?]
  split
  · rename_i h
    have hn : (Char.ofNat n).toNat = n := by
      rw [Char.ofNat, dif_pos h]
      rfl
    rw [Option.some.injEq, ← Char.toNat_inj, hn, eq_comm]
  · rename_i h
    refine ⟨nofun, ?_⟩
    rintro rfl
    exact absurd d.valid h

/-- The character behind a character has the next number. -/
theorem next?_eq_some_iff : next? c = some d ↔ d.ordinal.val = c.ordinal.val + 1 := by
  rw [next?]
  split
  · subst c
    rw [show '\uD7FF'.ordinal.val + 1 = '\uE000'.ordinal.val by decide, Option.some.injEq, eq_comm]
    exact CharRange.ordinal_val_injective.eq_iff.symm
  · rename_i hne
    split
    · subst c
      have hlast : greatest.ordinal.val + 1 = Char.numCodePoints := by decide
      have hd := d.ordinal.isLt
      exact ⟨nofun, fun h => by omega⟩
    · have hne : c.toNat ≠ 0xD7FF := fun h => hne (Char.toNat_inj.mp h)
      have hc := toNat_cases c
      have hd := toNat_cases d
      rw [ofCodePoint?_eq_some_iff, ordinal_val, ordinal_val]
      split <;> split <;> omega

/-- Only the greatest character has none behind it. -/
theorem next?_eq_none_iff : next? c = none ↔ c.ordinal.val + 1 = Char.numCodePoints := by
  have hc := c.ordinal.isLt
  cases hnext : next? c with
  | some d =>
    have hd := d.ordinal.isLt
    have := next?_eq_some_iff.mp hnext
    exact ⟨nofun, fun h => by omega⟩
  | none =>
    refine ⟨fun _ => ?_, fun _ => rfl⟩
    by_contra hne
    have hlt : c.ordinal.val + 1 < Char.numCodePoints := by omega
    have : next? c = some (Char.ofOrdinal ⟨_, hlt⟩) := by
      rw [next?_eq_some_iff, Char.ordinal_ofOrdinal]
    rw [hnext] at this
    cases this

/-- The character in front of a character has the number before. -/
theorem previous?_eq_some_iff : previous? c = some d ↔ c.ordinal.val = d.ordinal.val + 1 := by
  rw [previous?]
  split
  · subst c
    rw [show '\uE000'.ordinal.val = '\uD7FF'.ordinal.val + 1 by decide, Option.some.injEq,
      Nat.add_right_cancel_iff]
    exact CharRange.ordinal_val_injective.eq_iff.symm
  · rename_i hne
    split
    · subst c
      have hfirst : '\x00'.ordinal.val = 0 := by decide
      exact ⟨nofun, fun h => by omega⟩
    · rename_i hzero
      have hne : c.toNat ≠ 0xE000 := fun h => hne (Char.toNat_inj.mp h)
      have hzero : c.toNat ≠ 0 := fun h => hzero (Char.toNat_inj.mp h)
      have hc := toNat_cases c
      have hd := toNat_cases d
      rw [ofCodePoint?_eq_some_iff, ordinal_val, ordinal_val]
      split <;> split <;> omega

/-- A character that is not the first one has one in front of it. -/
theorem exists_previous? (h : d < c) : ∃ b, previous? c = some b := by
  rw [Char.lt_iff_ordinal_lt, Fin.lt_def] at h
  have hlt : c.ordinal.val - 1 < Char.numCodePoints := by
    have := c.ordinal.isLt
    omega
  refine ⟨Char.ofOrdinal ⟨_, hlt⟩, ?_⟩
  rw [previous?_eq_some_iff, Char.ordinal_ofOrdinal]
  show c.ordinal.val = c.ordinal.val - 1 + 1
  omega

/-- Sorting by pairs puts elements in the order of their first characters. -/
theorem pairwise_mergeSort {α : Type} (f : α → Char × Char) (l : List α) :
    (l.mergeSort fun x y => pairLe (f x) (f y)).Pairwise fun x y => (f x).1 ≤ (f y).1 := by
  have htrans : ∀ p q r : Char × Char, pairLe p q = true → pairLe q r = true →
      pairLe p r = true := by
    intro p q r
    simp only [pairLe, Bool.or_eq_true, Bool.and_eq_true, decide_eq_true_eq]
    grind
  have htotal : ∀ p q : Char × Char, (pairLe p q || pairLe q p) = true := by
    intro p q
    simp only [pairLe, Bool.or_eq_true, Bool.and_eq_true, decide_eq_true_eq]
    grind
  have hsorted : (l.mergeSort fun x y => pairLe (f x) (f y)).Pairwise
      fun x y => pairLe (f x) (f y) = true :=
    List.pairwise_mergeSort (fun x y z => htrans (f x) (f y) (f z))
      (fun x y => htotal (f x) (f y)) l
  refine hsorted.imp fun {x y} h => ?_
  simp only [pairLe, Bool.or_eq_true, Bool.and_eq_true, decide_eq_true_eq] at h
  exact h.elim le_of_lt fun h => h.1.le

end Scalar

/-! ### Ranges -/

namespace CharRange

variable {r r' sub : CharRange} {rs rs' theirs : List CharRange} {c : Char} {next : Option Char}

theorem mem_chars_iff : c ∈ r.chars ↔
    r.first.ordinal.val ≤ c.ordinal.val ∧ c.ordinal.val ≤ r.last.ordinal.val := by
  rw [chars, Set.mem_Icc, Char.le_iff_ordinal_le, Char.le_iff_ordinal_le, Fin.le_def, Fin.le_def]

/-- What is counted with code points is the number of characters. -/
theorem len_eq_size (r : CharRange) : r.len = r.size := by
  have hle : r.first.toNat ≤ r.last.toNat := r.first_le_last
  have hfirst := Scalar.toNat_cases r.first
  have hlast := Scalar.toNat_cases r.last
  have hspans : (r.first ≤ '\uD7FF' && '\uE000' ≤ r.last) =
      decide (r.first.toNat ≤ 0xD7FF ∧ 0xE000 ≤ r.last.toNat) := by
    rw [Bool.decide_and]
    rfl
  simp only [len, hspans, size, Scalar.ordinal_val, decide_eq_true_eq]
  split <;> split <;> split <;> omega

theorem charsOfAll_nil : charsOfAll [] = ∅ := by
  ext c
  simp [charsOfAll]

theorem charsOfAll_append : charsOfAll (rs ++ rs') = charsOfAll rs ∪ charsOfAll rs' := by
  ext c
  simp [charsOfAll, or_and_right, exists_or]

theorem charsOfAll_perm (h : rs.Perm rs') : charsOfAll rs = charsOfAll rs' := by
  ext c
  simp [charsOfAll, h.mem_iff]

/-- All other characters of ranges that stand apart are behind the first range. -/
theorem charsOfAll_tail_subset (h : (r :: rs).Pairwise Before) :
    charsOfAll rs ⊆ Set.Ioi r.last := by
  rw [charsOfAll_tail h]
  exact Set.inter_subset_right

/-! ### Merging -/

/-- A range that does not touch one that begins later is in front of it. -/
theorem before_of_touches_eq_false (h : r.touches r' = false) : r.Before r' := by
  rw [touches] at h
  split at h
  · cases h
  · rename_i after hnext
    have := Scalar.next?_eq_some_iff.mp hnext
    have hlt := of_decide_eq_false h
    rw [Char.not_le, Char.lt_iff_ordinal_lt, Fin.lt_def] at hlt
    rw [before_iff]
    omega

theorem first_extendTo (r : CharRange) (c : Char) : (r.extendTo c).first = r.first := by
  rw [extendTo]
  split <;> rfl

/-- A range that touches one that begins no earlier is extended by the
characters of that one. -/
theorem chars_extendTo (h : r.touches r' = true) (hfirst : r.first ≤ r'.first) :
    (r.extendTo r'.last).chars = r.chars ∪ r'.chars := by
  have hle := Char.le_iff_ordinal_le.mp r.first_le_last
  have hle' := Char.le_iff_ordinal_le.mp r'.first_le_last
  have hlast' := r'.last.ordinal.isLt
  rw [Char.le_iff_ordinal_le] at hfirst
  -- Nothing lies between the two ranges, since the second begins no later than behind the first.
  have htouch : r'.first.ordinal.val ≤ r.last.ordinal.val + 1 := by
    rw [touches] at h
    split at h
    · rename_i hnext
      have := Scalar.next?_eq_none_iff.mp hnext
      omega
    · rename_i after hnext
      have := Scalar.next?_eq_some_iff.mp hnext
      have := Char.le_iff_ordinal_le.mp (of_decide_eq_true h)
      omega
  ext c
  rw [Set.mem_union, mem_chars_iff, mem_chars_iff, mem_chars_iff, extendTo]
  split
  · rename_i hlt
    rw [Char.lt_iff_ordinal_lt] at hlt
    simp only
    omega
  · rename_i hlt
    rw [Char.lt_iff_ordinal_lt] at hlt
    omega

/-- One more range leaves those that are merged so far apart, and it adds its
characters to them. -/
theorem mergeInto_spec {merged : List CharRange} (h : merged.Pairwise fun r r' => r'.Before r)
    (hfirst : ∀ last ∈ merged.head?, last.first ≤ r.first) :
    (RangeSet.mergeInto merged r).Pairwise (fun r r' => r'.Before r) ∧
      charsOfAll (RangeSet.mergeInto merged r) = charsOfAll merged ∪ r.chars ∧
      ∀ last ∈ (RangeSet.mergeInto merged r).head?, last.first ≤ r.first := by
  cases merged with
  | nil => simp [RangeSet.mergeInto, charsOfAll_cons, charsOfAll_nil]
  | cons last merged =>
    obtain ⟨hlast, hmerged⟩ := List.pairwise_cons.mp h
    have hfirst : last.first ≤ r.first := hfirst last rfl
    rw [RangeSet.mergeInto]
    split
    · rename_i htouches
      have hbefore : ∀ r' ∈ merged, r'.Before (last.extendTo r.last) := by
        intro r' hr'
        obtain ⟨c, hc, hc'⟩ := hlast r' hr'
        exact ⟨c, hc, by rwa [first_extendTo]⟩
      refine ⟨List.pairwise_cons.mpr ⟨hbefore, hmerged⟩, ?_, ?_⟩
      · rw [charsOfAll_cons, charsOfAll_cons, chars_extendTo htouches hfirst,
          Set.union_right_comm]
      · rintro _ ⟨⟩
        rwa [first_extendTo]
    · rename_i htouches
      have hbefore : last.Before r := before_of_touches_eq_false (Bool.eq_false_iff.mpr htouches)
      refine ⟨List.pairwise_cons.mpr ⟨?_, h⟩, ?_, ?_⟩
      · intro r' hr'
        rcases List.mem_cons.mp hr' with rfl | hr'
        · exact hbefore
        · obtain ⟨c, hc, hc'⟩ := hlast r' hr'
          exact ⟨c, hc, hc'.trans_le hfirst⟩
      · rw [charsOfAll_cons, Set.union_comm]
      · rintro _ ⟨⟩
        exact le_rfl

/-- **Merging keeps ranges apart and loses no character**, if they come in the
order of their first characters.  What has been merged is in reverse order, and
only its last range can still grow. -/
theorem foldl_mergeInto {merged : List CharRange} (h : merged.Pairwise fun r r' => r'.Before r)
    (hrs : rs.Pairwise fun r r' => r.first ≤ r'.first)
    (hfirst : ∀ last ∈ merged.head?, ∀ r ∈ rs, last.first ≤ r.first) :
    (rs.foldl RangeSet.mergeInto merged).Pairwise (fun r r' => r'.Before r) ∧
      charsOfAll (rs.foldl RangeSet.mergeInto merged) = charsOfAll merged ∪ charsOfAll rs := by
  induction rs generalizing merged with
  | nil => exact ⟨h, by rw [List.foldl_nil, charsOfAll_nil, Set.union_empty]⟩
  | cons r rs ih =>
    obtain ⟨hr, hrs⟩ := List.pairwise_cons.mp hrs
    obtain ⟨hnext, hchars, hlast⟩ :=
      mergeInto_spec (r := r) h fun last hmem => hfirst last hmem r List.mem_cons_self
    obtain ⟨hall, hcharsAll⟩ := ih hnext hrs fun last hmem r' hr' =>
      (hlast last hmem).trans (hr r' hr')
    exact ⟨hall, by rw [List.foldl_cons, hcharsAll, hchars, charsOfAll_cons, Set.union_assoc]⟩

/-! ### Gaps -/

theorem le_greatest (c : Char) : c ≤ Scalar.greatest := by
  have hlast : Scalar.greatest.ordinal.val + 1 = Char.numCodePoints := by decide
  have hc := c.ordinal.isLt
  rw [Char.le_iff_ordinal_le, Fin.le_def]
  omega

/-- The characters from one on that may not exist.  Behind the greatest
character there are none. -/
def charsFrom (next : Option Char) : Set Char := {c | ∃ start ∈ next, start ≤ c}

/-- The first of all characters is at most any other, so that all characters
come from it on. -/
theorem charsFrom_zero : charsFrom (some '\x00') = Set.univ := by
  refine Set.eq_univ_of_forall fun c => ⟨'\x00', rfl, ?_⟩
  rw [Char.le_iff_ordinal_le, Fin.le_def]
  exact Nat.zero_le _

/-- From the one behind a character on there are the characters that are
greater. -/
theorem charsFrom_next? (d : Char) : charsFrom (Scalar.next? d) = Set.Ioi d := by
  ext c
  rw [Set.mem_Ioi, Char.lt_iff_ordinal_lt, Fin.lt_def]
  constructor
  · rintro ⟨start, hstart, hle⟩
    have := Scalar.next?_eq_some_iff.mp hstart
    have := Char.le_iff_ordinal_le.mp hle
    omega
  · intro hlt
    cases hnext : Scalar.next? d with
    | none =>
      have := Scalar.next?_eq_none_iff.mp hnext
      have := c.ordinal.isLt
      omega
    | some start =>
      have := Scalar.next?_eq_some_iff.mp hnext
      refine ⟨start, rfl, ?_⟩
      rw [Char.le_iff_ordinal_le, Fin.le_def]
      omega

/-- Up to the one in front of a character there are the characters that are
smaller. -/
theorem chars_ofEnds_previous? {a b d : Char} (hlt : a < d) (h : Scalar.previous? d = some b) :
    (ofEnds a b).chars = Set.Ico a d := by
  have hprevious := Scalar.previous?_eq_some_iff.mp h
  rw [Char.lt_iff_ordinal_lt, Fin.lt_def] at hlt
  have hle : a ≤ b := by
    rw [Char.le_iff_ordinal_le, Fin.le_def]
    omega
  ext c
  rw [chars_ofEnds_of_le hle, Set.mem_Icc, Set.mem_Ico, and_congr_right_iff]
  intro _
  rw [Char.le_iff_ordinal_le, Char.lt_iff_ordinal_lt, Fin.le_def, Fin.lt_def]
  omega

/-- Ranges that lie on two sides of a range are apart. -/
theorem pairwise_append_of_sides (h : rs.Pairwise Before) (h' : rs'.Pairwise Before)
    (hfront : charsOfAll rs ⊆ Set.Iio r.first) (hbehind : charsOfAll rs' ⊆ Set.Ioi r.last) :
    (rs ++ rs').Pairwise Before := by
  refine List.pairwise_append.mpr ⟨h, h', fun g hg p hp => ⟨r.first, ?_, ?_⟩⟩
  · exact hfront ⟨g, hg, g.first_le_last, le_rfl⟩
  · exact r.first_le_last.trans_lt (hbehind ⟨p, hp, le_rfl, p.first_le_last⟩)

theorem charsOfAll_singleton : charsOfAll [r] = r.chars := by
  rw [charsOfAll_cons, charsOfAll_nil, Set.union_empty]

theorem charsOfAll_gapBefore {start : Char} :
    charsOfAll (RangeSet.gapBefore (some start) r) = Set.Ico start r.first := by
  simp only [RangeSet.gapBefore]
  split
  · rename_i hlt
    obtain ⟨stop, hstop⟩ := Scalar.exists_previous? hlt
    simp only [hstop]
    rw [charsOfAll_singleton, chars_ofEnds_previous? hlt hstop]
  · rename_i hlt
    rw [charsOfAll_nil, Set.Ico_eq_empty hlt]

theorem pairwise_gapBefore : (RangeSet.gapBefore next r).Pairwise Before := by
  unfold RangeSet.gapBefore
  split
  · exact List.Pairwise.nil
  · split
    · split
      · exact List.pairwise_singleton _ _
      · exact List.Pairwise.nil
    · exact List.Pairwise.nil

/-- **Between ranges that stand apart the gaps do so as well**, and they hold
all characters that are not in a range, from the first one on that may be in a
gap.  The gap behind a range begins with the next character, which lies behind
the surrogates if the range ends before them. -/
theorem gaps_spec (h : rs.Pairwise Before) (hnext : ∀ r ∈ rs, r.first ∈ charsFrom next) :
    (RangeSet.gaps next rs).Pairwise Before ∧
      charsOfAll (RangeSet.gaps next rs) = charsFrom next \ charsOfAll rs := by
  induction rs generalizing next with
  | nil =>
    cases next with
    | none => simp [RangeSet.gaps, charsOfAll_nil, charsFrom]
    | some start =>
      refine ⟨List.pairwise_singleton _ _, ?_⟩
      rw [RangeSet.gaps, charsOfAll_singleton, chars_ofEnds_of_le (le_greatest start), charsOfAll_nil]
      ext c
      simp [charsFrom, le_greatest]
  | cons r rs ih =>
    obtain ⟨start, hstart, hle⟩ := hnext r List.mem_cons_self
    obtain rfl : next = some start := hstart
    have htail := charsOfAll_tail_subset h
    have hnext : ∀ r' ∈ rs, r'.first ∈ charsFrom (Scalar.next? r.last) := by
      intro r' hr'
      rw [charsFrom_next?]
      exact htail ⟨r', hr', le_rfl, r'.first_le_last⟩
    obtain ⟨hgaps, hchars⟩ := ih (List.pairwise_cons.mp h).2 hnext
    rw [charsFrom_next?] at hchars
    rw [RangeSet.gaps]
    refine ⟨pairwise_append_of_sides (r := r) pairwise_gapBefore hgaps ?_ ?_, ?_⟩
    · rw [charsOfAll_gapBefore]
      exact fun c hc => hc.2
    · rw [hchars]
      exact Set.sdiff_subset
    · rw [charsOfAll_append, charsOfAll_gapBefore, hchars, charsOfAll_cons]
      ext c
      have hmem : c ∈ charsOfAll rs → r.last < c := fun hc => htail hc
      have hr := r.first_le_last
      simp only [charsFrom, chars, Set.mem_union, Set.mem_Ico, Set.mem_sdiff, Set.mem_Ioi,
        Set.mem_Icc, Set.mem_ofPred_eq, Option.mem_def, Option.some.injEq, exists_eq_left']
      grind

/-! ### Taking ranges away -/

/-- The part of a range before another one is the gap from its first character
on. -/
theorem partBefore_eq_gapBefore (r sub : CharRange) :
    RangeSet.partBefore r sub = RangeSet.gapBefore (some r.first) sub := rfl

theorem charsOfAll_partBefore :
    charsOfAll (RangeSet.partBefore r sub) = Set.Ico r.first sub.first := by
  rw [partBefore_eq_gapBefore, charsOfAll_gapBefore]

theorem pairwise_partBefore : (RangeSet.partBefore r sub).Pairwise Before := by
  rw [partBefore_eq_gapBefore]
  exact pairwise_gapBefore

/-- The part behind a range ends where the range ends that it is taken away
from. -/
theorem partBehind_spec (r sub : CharRange) :
    charsOfAll (RangeSet.partBehind r sub).toList = Set.Ioc sub.last r.last ∧
      ∀ r' ∈ RangeSet.partBehind r sub, r'.last = r.last := by
  unfold RangeSet.partBehind
  split
  · rename_i hlt
    have hfrom : r.last ∈ charsFrom (Scalar.next? sub.last) := by
      rw [charsFrom_next?]
      exact hlt
    obtain ⟨start, hstart, hle⟩ := hfrom
    obtain hstart : Scalar.next? sub.last = some start := hstart
    have hioi := charsFrom_next? sub.last
    rw [hstart] at hioi ⊢
    constructor
    · rw [Option.map_some, Option.toList_some, charsOfAll_singleton, chars_ofEnds_of_le hle]
      ext c
      rw [Set.mem_Icc, Set.mem_Ioc, ← Set.mem_Ioi, ← hioi]
      simp [charsFrom]
    · rintro _ ⟨⟩
      show (ofEnds start r.last).last = r.last
      rw [ofEnds, dif_pos hle]
  · rename_i hlt
    exact ⟨by rw [Option.toList_none, charsOfAll_nil, Set.Ioc_eq_empty hlt], by simp⟩

/-- **What is cut out of a range**: the parts stand apart and hold the
characters of the range that are in none of the others, and those of the others
that are dropped reach no further than the range.  So they meet none of the
ranges that are still to be cut. -/
theorem cut_spec (cur : Option CharRange) (h : theirs.Pairwise Before) :
    let out := RangeSet.cut cur theirs
    (out.1 ++ out.2.1.toList).Pairwise Before ∧
      charsOfAll (out.1 ++ out.2.1.toList) = charsOfAll cur.toList \ charsOfAll theirs ∧
      ∃ dropped, theirs = dropped ++ out.2.2 ∧ ∀ d ∈ dropped, ∃ r ∈ cur, d.last ≤ r.last := by
  fun_induction RangeSet.cut cur theirs with
  | case1 theirs =>
    refine ⟨List.Pairwise.nil, ?_, [], rfl, nofun⟩
    simp [charsOfAll_nil]
  | case2 r =>
    refine ⟨List.pairwise_singleton _ _, ?_, [], rfl, nofun⟩
    simp [charsOfAll_nil]
  | case3 r sub theirs hlt ih =>
    obtain ⟨hparts, hchars, dropped, htheirs, hdropped⟩ := ih (List.pairwise_cons.mp h).2
    refine ⟨hparts, ?_, sub :: dropped, congrArg (sub :: ·) htheirs, ?_⟩
    · rw [hchars, charsOfAll_cons]
      ext c
      simp only [Option.toList_some, charsOfAll_singleton, chars, Set.mem_sdiff, Set.mem_union,
        Set.mem_Icc]
      grind
    · intro d hd
      rcases List.mem_cons.mp hd with rfl | hd
      · exact ⟨r, rfl, hlt.le.trans r.first_le_last⟩
      · exact hdropped d hd
  | case4 r sub theirs hlt hgt =>
    refine ⟨List.pairwise_singleton _ _, ?_, [], rfl, nofun⟩
    have hfirst : ∀ c ∈ charsOfAll (sub :: theirs), sub.first ≤ c := fun c => first_le_of_mem h
    ext c
    have := hfirst c
    simp only [Option.toList_some, charsOfAll_singleton, chars, Set.mem_sdiff, Set.mem_Icc,
      List.nil_append]
    grind
  | case5 r sub theirs hlt hgt hle parts left rest hcut ih =>
    rw [hcut] at ih
    obtain ⟨hparts, hchars, dropped, htheirs, hdropped⟩ := ih (List.pairwise_cons.mp h).2
    obtain ⟨hbehind, hlast⟩ := partBehind_spec r sub
    have htail := charsOfAll_tail_subset h
    rw [hbehind] at hchars
    simp only [List.append_assoc]
    refine ⟨pairwise_append_of_sides (r := sub) pairwise_partBefore hparts ?_ ?_, ?_,
      sub :: dropped, congrArg (sub :: ·) htheirs, ?_⟩
    · rw [charsOfAll_partBefore]
      exact fun c hc => hc.2
    · rw [hchars]
      exact fun c hc => hc.1.1
    · rw [charsOfAll_append, charsOfAll_partBefore, hchars, charsOfAll_cons]
      ext c
      have hc : c ∈ charsOfAll theirs → sub.last < c := fun hc => htail hc
      have hsub := sub.first_le_last
      simp only [Option.toList_some, charsOfAll_singleton, chars, Set.mem_union, Set.mem_sdiff,
        Set.mem_Ico, Set.mem_Ioc, Set.mem_Icc]
      grind
    · intro d hd
      rcases List.mem_cons.mp hd with rfl | hd
      · exact ⟨r, rfl, hle⟩
      · obtain ⟨r', hr', hd⟩ := hdropped d hd
        exact ⟨r, rfl, hd.trans (hlast r' hr').le⟩
  | case6 r sub theirs hlt hgt hle =>
    have htail := charsOfAll_tail_subset h
    have hnone : RangeSet.partBehind r sub = none := if_neg fun h => hle h.le
    simp only [hnone, Option.toList_none, List.append_nil]
    refine ⟨pairwise_partBefore, ?_, [], rfl, nofun⟩
    rw [charsOfAll_partBefore, charsOfAll_cons]
    ext c
    have hc : c ∈ charsOfAll theirs → sub.last < c := fun hc => htail hc
    simp only [Option.toList_some, charsOfAll_singleton, chars, Set.mem_union, Set.mem_sdiff,
      Set.mem_Ico, Set.mem_Icc]
    grind

/-- **What is left of ranges that stand apart, once others have been taken away
that do so as well**: ranges that stand apart, with the characters that are in
none of the others. -/
theorem cutAll_spec (h : rs.Pairwise Before) (ht : theirs.Pairwise Before) :
    (RangeSet.cutAll rs theirs).Pairwise Before ∧
      charsOfAll (RangeSet.cutAll rs theirs) = charsOfAll rs \ charsOfAll theirs := by
  induction rs generalizing theirs with
  | nil => simp [RangeSet.cutAll, charsOfAll_nil]
  | cons r rs ih =>
    obtain ⟨hr, hrs⟩ := List.pairwise_cons.mp h
    have htail := charsOfAll_tail_subset h
    have hcut := cut_spec (some r) ht
    rw [RangeSet.cutAll]
    generalize RangeSet.cut (some r) theirs = out at hcut ⊢
    obtain ⟨parts, left, rest⟩ := out
    obtain ⟨hparts, hchars, dropped, rfl, hdropped⟩ := hcut
    obtain ⟨hall, hcharsAll⟩ := ih hrs (List.pairwise_append.mp ht).2.1
    rw [Option.toList_some, charsOfAll_singleton] at hchars
    refine ⟨List.pairwise_append.mpr ⟨hparts, hall, fun p hp q hq => ?_⟩, ?_⟩
    · have hlast : p.last ∈ r.chars := (hchars.subset ⟨p, hp, p.first_le_last, le_rfl⟩).1
      obtain ⟨r', hr', hfirst⟩ := (hcharsAll.subset ⟨q, hq, le_rfl, q.first_le_last⟩).1
      obtain ⟨c, hc, hc'⟩ := hr r' hr'
      exact ⟨c, hlast.2.trans_lt hc, hc'.trans_le hfirst.1⟩
    · rw [charsOfAll_append, hchars, hcharsAll, charsOfAll_cons, charsOfAll_append]
      -- What was dropped lies in front of the other ranges.
      have hdropped : charsOfAll dropped ⊆ Set.Iic r.last := by
        rintro c ⟨d, hd, hc⟩
        obtain ⟨_, ⟨⟩, hle⟩ := hdropped d hd
        exact hc.2.trans hle
      ext c
      have hmem : c ∈ charsOfAll rs → r.last < c := fun hc => htail hc
      have hmem' : c ∈ charsOfAll dropped → c ≤ r.last := fun hc => hdropped hc
      simp only [Set.mem_union, Set.mem_sdiff]
      grind

end CharRange

end Regexp
