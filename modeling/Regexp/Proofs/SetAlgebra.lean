import Mathlib.Data.Char
import Mathlib.Data.Set.Card
import Mathlib.Order.Interval.Finset.Nat
import Regexp.Proofs.CaseFold
import Regexp.Proofs.CharRange

/-!
# The Boolean algebra of sets of characters

A set of characters has its ranges in one form only: in ascending order, and
with a character outside of the set between any two of them.  So sets that were
made in different ways are equal just when they have the same members, and what
is said of a set can be said of its members.

## The form of the ranges

`CharRange.Before` says of two ranges that one comes before the other and that
some character lies between them.  It does not compute with code points:
surrogate code points are no characters, so that the ranges on the two sides of
their gap touch although their code points are far apart.  In the numbers of
characters the gap is gone, and `CharRange.before_iff` turns the relation into
an inequality of them.

Lists of ranges in this form are determined by the characters in them,
`CharRange.eq_of_pairwise_before`.  The proof compares two lists from the front.
Their first ranges begin with the least character of all
(`CharRange.first_le_of_mem`); and if one of the two went on behind the end of
the other, it would run over the character that follows there and is in no range
of the other list (`CharRange.exists_gap`, `CharRange.last_le_last`).

## Boundary lists and members

The sets of patterns and programs are ascending lists of the places at which
membership changes (`CharSet`).  Their ranges, between every other place, are in
the form above (`CharSet.pairwise_before_ranges`), so that the size that adds up
those of the ranges is the number of members (`CharSet.size_eq_ncard`).  Each
operation is that on the members, which the lemmas from `CharSet.members_empty`
on say one by one.

`SetExpr` is the syntax of the ways in which sets are made.  `SetExpr.denotes`
is the set of characters that an expression stands for, and
`SetExpr.members_value` says that the boundary list that is made of it has them
as members.  The same expressions are read as lists of ranges elsewhere, which
is how the two kinds of sets are compared.
-/

namespace Regexp

/-! ### Ranges -/

namespace CharRange

variable {r r' : CharRange} {rs rs' : List CharRange} {c : Char}

/-- The characters of a range. -/
def chars (r : CharRange) : Set Char := Set.Icc r.first r.last

/-- The ends of a range may be given in either order. -/
theorem chars_ofEnds (a b : Char) : (ofEnds a b).chars = Set.Icc (min a b) (max a b) := by
  rw [chars, ofEnds]
  split
  · rename_i hab
    rw [min_eq_left hab, max_eq_right hab]
  · rename_i hab
    have hba := (not_le.mp hab).le
    rw [min_eq_right hba, max_eq_left hba]

theorem chars_ofEnds_of_le {a b : Char} (h : a ≤ b) : (ofEnds a b).chars = Set.Icc a b := by
  rw [chars_ofEnds, min_eq_left h, max_eq_right h]

theorem chars_ofEnds_self (c : Char) : (ofEnds c c).chars = {c} := by
  rw [chars_ofEnds_of_le le_rfl, Set.Icc_self]

/-- Whether a range comes before another one, with a character between them.
Ranges that only touch are not apart in this sense, so that neighbours which
could be merged are ruled out. -/
def Before (r r' : CharRange) : Prop := ∃ c, r.last < c ∧ c < r'.first

theorem Before.lt (h : r.Before r') : r.last < r'.first := by
  obtain ⟨c, hlast, hfirst⟩ := h
  exact hlast.trans hfirst

/-- In numbers of characters, between which there is no gap for the surrogates,
two ranges that have a character between them are at least two apart. -/
theorem before_iff : r.Before r' ↔ r.last.ordinal.val + 1 < r'.first.ordinal.val := by
  constructor
  · rintro ⟨c, hlast, hfirst⟩
    rw [Char.lt_iff_ordinal_lt, Fin.lt_def] at hlast hfirst
    omega
  · intro h
    have hlt : r.last.ordinal.val + 1 < Char.numCodePoints := h.trans r'.first.ordinal.isLt
    refine ⟨Char.ofOrdinal ⟨_, hlt⟩, ?_, ?_⟩
    · rw [Char.lt_iff_ordinal_lt, Fin.lt_def, Char.ordinal_ofOrdinal]
      exact Nat.lt_succ_self _
    · rw [Char.lt_iff_ordinal_lt, Fin.lt_def, Char.ordinal_ofOrdinal]
      exact h

/-- The last character before the surrogates and the first one behind them are
neighbours. -/
example : ¬ (ofEnds 'a' '\uD7FF').Before (ofEnds '\uE000' '\uE001') := by
  rw [before_iff]
  decide

/-- The characters of several ranges, which may overlap and come in any order. -/
def charsOfAll (rs : List CharRange) : Set Char := {c | ∃ r ∈ rs, c ∈ r.chars}

theorem charsOfAll_cons : charsOfAll (r :: rs) = r.chars ∪ charsOfAll rs := by
  ext c
  simp [charsOfAll]

/-- The characters of the other ranges are those behind the first range. -/
theorem charsOfAll_tail (h : (r :: rs).Pairwise Before) :
    charsOfAll rs = charsOfAll (r :: rs) ∩ Set.Ioi r.last := by
  ext c
  constructor
  · rintro ⟨s, hs, hmem⟩
    have hlt := ((List.pairwise_cons.mp h).1 s hs).lt
    exact ⟨⟨s, List.mem_cons_of_mem r hs, hmem⟩, hlt.trans_le hmem.1⟩
  · rintro ⟨⟨s, hs, hmem⟩, hlt⟩
    rcases List.mem_cons.mp hs with rfl | hs
    · exact absurd hmem.2 (not_le.mpr hlt)
    · exact ⟨s, hs, hmem⟩

/-- Behind the first of several ranges, a character follows that is in none of
them. -/
theorem exists_gap (h : (r :: rs).Pairwise Before) (hc : r.last < c) :
    ∃ d, r.last < d ∧ d ≤ c ∧ d ∉ charsOfAll (r :: rs) := by
  cases rs with
  | nil =>
    refine ⟨c, hc, le_rfl, ?_⟩
    rintro ⟨r', hr', hmem⟩
    obtain rfl := List.mem_singleton.mp hr'
    exact absurd hmem.2 hc.not_ge
  | cons r' rs =>
    obtain ⟨hhead, htail⟩ := List.pairwise_cons.mp h
    obtain ⟨d, hlast, hfirst⟩ := hhead r' List.mem_cons_self
    refine ⟨min d c, lt_min hlast hc, min_le_right d c, ?_⟩
    have hlt : min d c < r'.first := (min_le_left d c).trans_lt hfirst
    rintro ⟨s, hs, hmem⟩
    rcases List.mem_cons.mp hs with rfl | hs
    · exact absurd hmem.2 (lt_min hlast hc).not_ge
    · have hle : r'.first ≤ s.first := by
        rcases List.mem_cons.mp hs with rfl | hs
        · exact le_rfl
        · exact r'.first_le_last.trans ((List.pairwise_cons.mp htail).1 s hs).lt.le
      exact absurd (hle.trans hmem.1) hlt.not_ge

/-- The first range holds the least character. -/
theorem first_le_of_mem (h : (r :: rs).Pairwise Before) (hc : c ∈ charsOfAll (r :: rs)) :
    r.first ≤ c := by
  obtain ⟨s, hs, hmem⟩ := hc
  rcases List.mem_cons.mp hs with rfl | hs
  · exact hmem.1
  · exact r.first_le_last.trans (((List.pairwise_cons.mp h).1 s hs).lt.le.trans hmem.1)

theorem first_mem (r : CharRange) (rs : List CharRange) : r.first ∈ charsOfAll (r :: rs) :=
  ⟨r, List.mem_cons_self, le_rfl, r.first_le_last⟩

/-- The first of several ranges ends no later than that of others with the same
characters. -/
theorem last_le_last (h : (r :: rs).Pairwise Before) (hfirst : r'.first ≤ r.last)
    (heq : charsOfAll (r :: rs) = charsOfAll (r' :: rs')) : r'.last ≤ r.last := by
  by_contra hlt
  obtain ⟨d, hd, hle, hnot⟩ := exists_gap h (not_le.mp hlt)
  rw [heq] at hnot
  exact hnot ⟨r', List.mem_cons_self, hfirst.trans hd.le, hle⟩

/-- **Ranges with gaps between them are determined by the characters in them.**
The first range begins with the first character and ends at the first gap, and
the rest follows by induction. -/
theorem eq_of_pairwise_before (h : rs.Pairwise Before) (h' : rs'.Pairwise Before)
    (heq : charsOfAll rs = charsOfAll rs') : rs = rs' := by
  induction rs generalizing rs' with
  | nil =>
    cases rs' with
    | nil => rfl
    | cons r' rs' =>
      obtain ⟨s, hs, -⟩ := heq.symm.subset (first_mem r' rs')
      cases hs
  | cons r rs ih =>
    cases rs' with
    | nil =>
      obtain ⟨s, hs, -⟩ := heq.subset (first_mem r rs)
      cases hs
    | cons r' rs' =>
      have hfirst : r.first = r'.first := le_antisymm
        (first_le_of_mem h (heq.symm.subset (first_mem r' rs')))
        (first_le_of_mem h' (heq.subset (first_mem r rs)))
      have hlast : r.last = r'.last := le_antisymm
        (last_le_last h' (hfirst.le.trans r'.first_le_last) heq.symm)
        (last_le_last h (hfirst.ge.trans r.first_le_last) heq)
      have hhead : r = r' := by
        cases r
        cases r'
        simp_all
      subst hhead
      have htail : charsOfAll rs = charsOfAll rs' := by
        rw [charsOfAll_tail h, charsOfAll_tail h', heq]
      rw [ih (List.pairwise_cons.mp h).2 (List.pairwise_cons.mp h').2 htail]

/-! ### Counting -/

/-- The number of a character, and its place among all characters. -/
theorem ordinal_val_injective : Function.Injective fun c : Char => c.ordinal.val := by
  intro c d h
  exact Char.ordinal_inj.mp (Fin.ext h)

theorem finite_chars (m : Set Char) : m.Finite := by
  have : Finite Char := Finite.of_injective Char.ordinal fun _ _ => Char.ordinal_inj.mp
  exact m.toFinite

/-- **The size of a set is the number of its members.**  Characters are counted
by their numbers, in which there is no gap for the surrogates. -/
theorem size_eq_ncard (r : CharRange) : r.size = r.chars.ncard := by
  have himage : (fun c : Char => c.ordinal.val) '' r.chars =
      Set.Icc r.first.ordinal.val r.last.ordinal.val := by
    ext n
    constructor
    · rintro ⟨c, ⟨hfirst, hlast⟩, rfl⟩
      exact ⟨Char.le_iff_ordinal_le.mp hfirst, Char.le_iff_ordinal_le.mp hlast⟩
    · rintro ⟨hfirst, hlast⟩
      have hn : n < Char.numCodePoints := hlast.trans_lt r.last.ordinal.isLt
      refine ⟨Char.ofOrdinal ⟨n, hn⟩, ⟨?_, ?_⟩, ?_⟩
      · rw [Char.le_iff_ordinal_le, Char.ordinal_ofOrdinal]
        exact hfirst
      · rw [Char.le_iff_ordinal_le, Char.ordinal_ofOrdinal]
        exact hlast
      · simp only [Char.ordinal_ofOrdinal]
  have hle : r.first.ordinal.val ≤ r.last.ordinal.val := Char.le_iff_ordinal_le.mp r.first_le_last
  calc r.size = r.last.ordinal.val + 1 - r.first.ordinal.val := by rw [size]; omega
    _ = (Finset.Icc r.first.ordinal.val r.last.ordinal.val).card := (Nat.card_Icc _ _).symm
    _ = (Set.Icc r.first.ordinal.val r.last.ordinal.val).ncard := by
      rw [← Finset.coe_Icc, Set.ncard_coe_finset]
    _ = r.chars.ncard := by rw [← himage, Set.ncard_image_of_injective _ ordinal_val_injective]

/-- The sizes of ranges with gaps between them add up. -/
theorem foldr_size_eq_ncard (h : rs.Pairwise Before) :
    rs.foldr (fun r n => r.size + n) 0 = (charsOfAll rs).ncard := by
  induction rs with
  | nil => simp [charsOfAll]
  | cons r rs ih =>
    have hdisjoint : Disjoint r.chars (charsOfAll rs) := by
      rw [Set.disjoint_left, charsOfAll_tail h]
      rintro c hc ⟨-, hlt⟩
      exact absurd hc.2 (not_le.mpr hlt)
    rw [List.foldr_cons, ih (List.pairwise_cons.mp h).2, charsOfAll_cons, size_eq_ncard,
      Set.ncard_union_eq hdisjoint (finite_chars _) (finite_chars _)]

end CharRange

/-! ### Sets -/

namespace CharSet

open CharRange (Before charsOfAll)

variable {s t : CharSet} {c : Char} {l : List ℕ}

/-- The members of a set. -/
def members (s : CharSet) : Set Char := {c | s.contains c = true}

/-- Sets are equal if they have the same members. -/
theorem eq_iff_members : s = t ↔ s.members = t.members := by
  constructor
  · rintro rfl
    rfl
  · intro h
    exact ext fun c => Bool.eq_iff_iff.mpr (Set.ext_iff.mp h c)

theorem charsOfAll_ranges (s : CharSet) : charsOfAll s.ranges = s.members :=
  Set.ext fun _ => contains_iff_ranges.symm

/-- A range begins at a place of change. -/
theorem first_mem_of_mem_rangesOf {r : CharRange} (h : Boundary.Ascending l)
    (hl : ∀ b ∈ l, b < Char.numCodePoints) (hr : r ∈ rangesOf l) :
    r.first.ordinal.val ∈ l := by
  fun_induction rangesOf l with
  | case1 => cases hr
  | case2 a =>
    obtain rfl := List.mem_singleton.mp hr
    have ha := hl a List.mem_cons_self
    have hlast : charAt Char.numCodePoints = charAt (Char.numCodePoints - 1) := by decide
    rw [hlast, (ordinal_ofEnds_charAt (by omega) (by omega)).1]
    exact List.mem_cons_self
  | case3 a b rest ih =>
    obtain ⟨hafter, hrest⟩ := List.pairwise_cons.mp h
    have hab := hafter b List.mem_cons_self
    have hb := hl b (List.mem_cons_of_mem a List.mem_cons_self)
    rcases List.mem_cons.mp hr with rfl | hr
    · rw [(ordinal_ofEnds_charAt (by omega) (by omega)).1]
      exact List.mem_cons_self
    · have hmem := ih (List.pairwise_cons.mp hrest).2
        (fun d hd => hl d (List.mem_cons_of_mem a (List.mem_cons_of_mem b hd))) hr
      exact List.mem_cons_of_mem a (List.mem_cons_of_mem b hmem)

/-- At every other place of change stands a character that lies between two
ranges. -/
theorem pairwise_before_rangesOf (h : Boundary.Ascending l)
    (hl : ∀ b ∈ l, b < Char.numCodePoints) : (rangesOf l).Pairwise Before := by
  fun_induction rangesOf l with
  | case1 => exact List.Pairwise.nil
  | case2 a => exact List.pairwise_singleton _ _
  | case3 a b rest ih =>
    obtain ⟨hafter, hrest⟩ := List.pairwise_cons.mp h
    obtain ⟨hbrest, hrest⟩ := List.pairwise_cons.mp hrest
    have hab := hafter b List.mem_cons_self
    have hb := hl b (List.mem_cons_of_mem a List.mem_cons_self)
    have hrest' : ∀ d ∈ rest, d < Char.numCodePoints := fun d hd =>
      hl d (List.mem_cons_of_mem a (List.mem_cons_of_mem b hd))
    refine List.pairwise_cons.mpr ⟨?_, ih hrest hrest'⟩
    intro r hr
    have hfirst := hbrest _ (first_mem_of_mem_rangesOf hrest hrest' hr)
    rw [CharRange.before_iff, (ordinal_ofEnds_charAt (by omega) (by omega)).2]
    omega

/-- **The ranges of a set are in ascending order, and there is a character
between any two.** -/
theorem pairwise_before_ranges (s : CharSet) : s.ranges.Pairwise Before :=
  pairwise_before_rangesOf s.ascending s.bounded

/-- **The size of a set is the number of its members.** -/
theorem size_eq_ncard (s : CharSet) : s.size = s.members.ncard := by
  rw [size, CharRange.foldr_size_eq_ncard s.pairwise_before_ranges, charsOfAll_ranges]

/-! ### Operations -/

theorem mem_members : c ∈ s.members ↔ s.contains c = true := Iff.rfl

@[simp] theorem members_empty : empty.members = ∅ := by
  ext c
  simp [mem_members]

@[simp] theorem members_full : full.members = Set.univ := by
  ext c
  simp [mem_members]

@[simp] theorem members_ofRange (r : CharRange) : (ofRange r).members = r.chars := by
  ext c
  simp [mem_members, contains_ofRange, CharRange.chars]

@[simp] theorem members_single (c : Char) : (single c).members = {c} := by
  ext d
  simp [mem_members, eq_comm]

@[simp] theorem members_union (s t : CharSet) : (s.union t).members = s.members ∪ t.members := by
  ext c
  simp [mem_members]

@[simp] theorem members_inter (s t : CharSet) : (s.inter t).members = s.members ∩ t.members := by
  ext c
  simp [mem_members]

@[simp] theorem members_diff (s t : CharSet) : (s.diff t).members = s.members \ t.members := by
  ext c
  simp [mem_members]

@[simp] theorem members_compl (s : CharSet) : s.compl.members = s.membersᶜ := by
  ext c
  simp [mem_members]

@[simp] theorem members_ofRanges (rs : List CharRange) : (ofRanges rs).members = charsOfAll rs := by
  ext c
  show (unionAll (rs.map ofRange)).contains c = true ↔ _
  simp only [contains_unionAll, containsAny, List.any_map, List.any_eq_true, Function.comp_apply,
    contains_ofRange, Bool.and_eq_true, decide_eq_true_iff]
  rfl

@[simp] theorem members_addRange (s : CharSet) (a b : Char) :
    (s.addRange a b).members = s.members ∪ Set.Icc (min a b) (max a b) := by
  rw [addRange, members_union, members_ofRange, CharRange.chars_ofEnds]

@[simp] theorem members_addChar (s : CharSet) (c : Char) :
    (s.addChar c).members = s.members ∪ {c} := by
  rw [addChar, members_addRange, min_self, max_self, Set.Icc_self]

/-- A set is made of its ranges. -/
@[simp] theorem compact_eq_self (s : CharSet) : s.compact = s := by
  rw [eq_iff_members, compact, members_ofRanges, charsOfAll_ranges]

@[simp] theorem members_caseFold (s : CharSet) :
    s.caseFold.members = {c | ∃ d ∈ s.members, Case.eqFold c d = true} := by
  ext c
  simp only [mem_members, contains_caseFold, Set.mem_ofPred_eq, Case.eqFold_iff]

end CharSet

/-! ### Expressions -/

/-- The ways in which sets of characters are made.  An expression can be
evaluated to a boundary list as well as to a list of ranges, and says of itself
which members are meant. -/
inductive SetExpr where
  /-- A new set with some ranges, in any order, which may overlap. -/
  | ofRanges (rs : List CharRange)
  | empty
  | full
  | single (c : Char)
  /-- A set to which the characters between two ends are added, the ends in
  either order. -/
  | addRange (e : SetExpr) (a b : Char)
  | addChar (e : SetExpr) (c : Char)
  | union (e e' : SetExpr)
  | inter (e e' : SetExpr)
  | diff (e e' : SetExpr)
  | compl (e : SetExpr)
  | compact (e : SetExpr)
  | caseFold (e : SetExpr)

namespace SetExpr

/-- The set that is made. -/
def value : SetExpr → CharSet
  | ofRanges rs => .ofRanges rs
  | empty => .empty
  | full => .full
  | single c => .single c
  | addRange e a b => e.value.addRange a b
  | addChar e c => e.value.addChar c
  | union e e' => e.value.union e'.value
  | inter e e' => e.value.inter e'.value
  | diff e e' => e.value.diff e'.value
  | compl e => e.value.compl
  | compact e => e.value.compact
  | caseFold e => e.value.caseFold

/-- The members that a set should have that is made so.  These are sets in the
mathematical sense, and nothing of their representation is mentioned. -/
def denotes : SetExpr → Set Char
  | ofRanges rs => {c | ∃ r ∈ rs, r.first ≤ c ∧ c ≤ r.last}
  | empty => ∅
  | full => Set.univ
  | single c => {c}
  | addRange e a b => e.denotes ∪ Set.Icc (min a b) (max a b)
  | addChar e c => e.denotes ∪ {c}
  | union e e' => e.denotes ∪ e'.denotes
  | inter e e' => e.denotes ∩ e'.denotes
  | diff e e' => e.denotes \ e'.denotes
  | compl e => e.denotesᶜ
  | compact e => e.denotes
  | caseFold e => {c | ∃ d ∈ e.denotes, Case.eqFold c d = true}

/-- **The operations on sets are those on their members**, however a set is
made.  With `CharSet.ext` this leaves one set for each set of members. -/
theorem members_value (e : SetExpr) : e.value.members = e.denotes := by
  induction e with
  | ofRanges rs => exact CharSet.members_ofRanges rs
  | empty => exact CharSet.members_empty
  | full => exact CharSet.members_full
  | single c => exact CharSet.members_single c
  | addRange e a b ih => rw [value, CharSet.members_addRange, ih, denotes]
  | addChar e c ih => rw [value, CharSet.members_addChar, ih, denotes]
  | union e e' ih ih' => rw [value, CharSet.members_union, ih, ih', denotes]
  | inter e e' ih ih' => rw [value, CharSet.members_inter, ih, ih', denotes]
  | diff e e' ih ih' => rw [value, CharSet.members_diff, ih, ih', denotes]
  | compl e ih => rw [value, CharSet.members_compl, ih, denotes]
  | compact e ih => rw [value, CharSet.compact_eq_self, ih, denotes]
  | caseFold e ih => rw [value, CharSet.members_caseFold, ih, denotes]

end SetExpr

end Regexp
