import Mathlib.Data.List.TakeWhile
import Regexp.Proofs.RangeList

/-!
# Lists of ranges as a Boolean algebra of characters

A list of ranges is in canonical form if its ranges are in ascending order and a
character lies between any two of them, `RangeSet.IsCanonical`.  The type of the
lists does not say so, and the operations need it: binary search, the loop over
the gaps and the cutting of two lists are wrong on other lists.  This module
shows that the form is there whenever an operation asks for it.

## The working relation

`RangeSet.Represents s m` says that the list `s` is in canonical form and that
`m` is the set of the characters in its ranges.  Each operation has one lemma
about this relation, which takes what is known of its operands to what is known
of its result: `RangeSet.represents_compact` asks for nothing, since sorting and
merging bring any ranges into the form, and `RangeSet.Represents.negate`,
`RangeSet.Represents.subtract` and `RangeSet.Represents.intersect` ask for it
and give it back.  Intersecting is not a loop of its own: it takes away what is
in the complement, and so its lemma is that of the one applied to that of the
other.

What an observer sees of a set then follows from the relation alone.  Binary
search finds the members (`RangeSet.Represents.contains_iff`), the sizes of the
ranges add up to the number of members (`RangeSet.Represents.len_eq`), and there
is no second list for the same members (`RangeSet.Represents.unique`).

## The table of case folding

The closure under case folding is computed from a table that lists only the
characters that are not their own representatives (`Case.mem_foldTable`), sorted
by representative.  A representative is hit if the set holds it or a character
listed with it.  Representatives that are hit stand together in the table, and
dropping repetitions loses none of them (`Case.mem_eraseReps`); for each of them
a second binary search finds where its part of the table begins, and the scan
from there on finds the whole part because the table is sorted
(`RangeSet.mem_takeWhile_key`, `RangeSet.charsOfAll_rangesOfKey`).
`RangeSet.Represents.caseFold` puts this together: a character that is not
listed with any representative that is hit, and is none, is the same up to case
only as itself.

## Reachable sets

`SetExpr.build` makes a list of ranges from an expression, with one operation
for each step.  By induction on the expression it represents what the expression
denotes (`SetExpr.build_represents`), and so it has the ranges of the boundary
list that is made of the same expression (`SetExpr.build_eq_toRangeSet`).
`SetExpr.build_isCanonical` collects what is true of all sets that can be
reached.
-/

namespace Regexp

/-! ### Membership -/

namespace CharRange

variable {r : CharRange} {rs : List CharRange} {c : Char}

theorem compare_eq_iff : r.compare c = .eq ↔ c ∈ r.chars := by
  rw [compare, chars, Set.mem_Icc]
  split
  · simp_all
  · split <;> simp_all

/-- Ranges that stand apart lie first in front of a character and then behind
it. -/
theorem inOrder_compare (h : rs.Pairwise Before) (c : Char) :
    BinarySearch.InOrder (compare c) rs := by
  refine h.imp fun {r r'} hbefore => ?_
  have hr := r.first_le_last
  have hr' := r'.first_le_last
  have hlt := hbefore.lt
  simp only [compare]
  grind

end CharRange

namespace RangeSet

open CharRange (Before charsOfAll)

variable {s t : RangeSet} {m n : Set Char} {c : Char}

/-- Whether the ranges are in ascending order, with a character between any two
of them.  Sets are of any ranges, and operations have to bring them into this
form. -/
def IsCanonical (s : RangeSet) : Prop := s.ranges.Pairwise Before

/-- Whether a set is in canonical form and has the characters of a given set as
members.  Each operation is stated as one on what its arguments represent, so
that these statements compose along an expression. -/
structure Represents (s : RangeSet) (m : Set Char) : Prop where
  isCanonical : s.IsCanonical
  chars_eq : charsOfAll s.ranges = m

theorem IsCanonical.represents (h : s.IsCanonical) : s.Represents (charsOfAll s.ranges) := ⟨h, rfl⟩

/-- **Binary search finds the members**, because they are sorted into ranges
that stand apart.  Of other ranges it could miss some. -/
theorem Represents.contains_iff (h : s.Represents m) : s.contains c = true ↔ c ∈ m := by
  rw [contains, BinarySearch.isOk_find_iff (CharRange.inOrder_compare h.isCanonical c)]
  simp only [CharRange.compare_eq_iff, ← h.chars_eq]
  rfl

theorem Represents.members_eq (h : s.Represents m) : {c | s.contains c = true} = m :=
  Set.ext fun _ => h.contains_iff

/-- The number that is counted with code points is the number of members. -/
theorem Represents.len_eq (h : s.Represents m) : s.len = m.ncard := by
  rw [← h.chars_eq, ← CharRange.foldr_size_eq_ncard h.isCanonical, len]
  simp only [CharRange.len_eq_size]

/-- **There is one set in canonical form for given members.** -/
theorem Represents.unique (hs : s.Represents m) (ht : t.Represents m) : s = t := by
  cases s
  cases t
  have hchars := hs.chars_eq.trans ht.chars_eq.symm
  exact congrArg RangeSet.mk <|
    CharRange.eq_of_pairwise_before hs.isCanonical ht.isCanonical hchars

theorem Represents.eq_iff (hs : s.Represents m) (ht : t.Represents n) : s = t ↔ m = n := by
  constructor
  · rintro rfl
    exact hs.chars_eq.symm.trans ht.chars_eq
  · rintro rfl
    exact hs.unique ht

/-! ### Operations -/

/-- **Compacting brings any ranges into canonical form**, whatever their order,
and keeps their characters: they are sorted by their first characters and then
merged. -/
theorem represents_compact (s : RangeSet) : s.compact.Represents (charsOfAll s.ranges) := by
  rw [compact]
  split
  · rename_i hlength
    refine ⟨?_, rfl⟩
    rw [IsCanonical]
    match s.ranges, hlength with
    | [], _ => exact List.Pairwise.nil
    | [r], _ => exact List.pairwise_singleton _ _
  · obtain ⟨hbefore, hchars⟩ := CharRange.foldl_mergeInto List.Pairwise.nil
      (Scalar.pairwise_mergeSort CharRange.ends s.ranges) nofun
    refine ⟨List.pairwise_reverse.mpr hbefore, ?_⟩
    rw [CharRange.charsOfAll_perm (List.reverse_perm _), hchars, CharRange.charsOfAll_nil,
      Set.empty_union, CharRange.charsOfAll_perm (List.mergeSort_perm _ _)]

theorem represents_ofRanges (rs : List CharRange) : (ofRanges rs).Represents (charsOfAll rs) :=
  represents_compact _

theorem represents_empty : empty.Represents ∅ := ⟨List.Pairwise.nil, CharRange.charsOfAll_nil⟩

theorem represents_full : full.Represents Set.univ := by
  refine ⟨List.pairwise_singleton _ _, ?_⟩
  rw [full, CharRange.charsOfAll_singleton, CharRange.chars_ofEnds_of_le (CharRange.le_greatest _),
    ← CharRange.charsFrom_zero]
  ext c
  simp [CharRange.charsFrom, CharRange.le_greatest]

theorem represents_single (c : Char) : (single c).Represents {c} := by
  refine ⟨List.pairwise_singleton _ _, ?_⟩
  rw [single, CharRange.charsOfAll_singleton, CharRange.chars_ofEnds_self]

namespace Represents

theorem compact (h : s.Represents m) : s.compact.Represents m := h.chars_eq ▸ represents_compact s

theorem pushRange (h : s.Represents m) (a b : Char) :
    (s.pushRange a b).Represents (m ∪ Set.Icc (min a b) (max a b)) := by
  rw [← h.chars_eq, ← CharRange.chars_ofEnds, ← CharRange.charsOfAll_singleton,
    ← CharRange.charsOfAll_append]
  exact represents_compact _

theorem pushChar (h : s.Represents m) (c : Char) : (s.pushChar c).Represents (m ∪ {c}) := by
  have hpush := h.pushRange c c
  rwa [min_self, max_self, Set.Icc_self] at hpush

theorem union (hs : s.Represents m) (ht : t.Represents n) : (s.union t).Represents (m ∪ n) := by
  rw [← hs.chars_eq, ← ht.chars_eq, ← CharRange.charsOfAll_append]
  exact represents_compact _

theorem negate (h : s.Represents m) : s.negate.Represents mᶜ := by
  obtain ⟨hgaps, hchars⟩ := CharRange.gaps_spec h.isCanonical fun r _ => by
    rw [CharRange.charsFrom_zero]
    exact Set.mem_univ _
  refine ⟨hgaps, hchars.trans ?_⟩
  rw [CharRange.charsFrom_zero, h.chars_eq, Set.compl_eq_univ_sdiff]

theorem subtract (hs : s.Represents m) (ht : t.Represents n) :
    (s.subtract t).Represents (m \ n) := by
  obtain ⟨hcut, hchars⟩ := CharRange.cutAll_spec hs.isCanonical ht.isCanonical
  exact ⟨hcut, by rw [RangeSet.subtract, hchars, hs.chars_eq, ht.chars_eq]⟩

/-- What is in both sets is what is not in the complement of the second. -/
theorem intersect (hs : s.Represents m) (ht : t.Represents n) :
    (s.intersect t).Represents (m ∩ n) := by
  rw [← Set.sdiff_compl]
  exact hs.subtract ht.negate

end Represents

/-! ### What an observer sees -/

theorem IsCanonical.contains_pushRange (h : s.IsCanonical) (a b c : Char) :
    (s.pushRange a b).contains c = (s.contains c || decide (min a b ≤ c ∧ c ≤ max a b)) := by
  rw [Bool.eq_iff_iff, (h.represents.pushRange a b).contains_iff, Bool.or_eq_true,
    h.represents.contains_iff, decide_eq_true_iff]
  rfl

theorem IsCanonical.contains_pushChar (h : s.IsCanonical) (d c : Char) :
    (s.pushChar d).contains c = (s.contains c || decide (c = d)) := by
  rw [Bool.eq_iff_iff, (h.represents.pushChar d).contains_iff, Bool.or_eq_true,
    h.represents.contains_iff, decide_eq_true_iff]
  rfl

theorem IsCanonical.contains_union (hs : s.IsCanonical) (ht : t.IsCanonical) (c : Char) :
    (s.union t).contains c = (s.contains c || t.contains c) := by
  rw [Bool.eq_iff_iff, (hs.represents.union ht.represents).contains_iff, Bool.or_eq_true,
    hs.represents.contains_iff, ht.represents.contains_iff]
  rfl

theorem IsCanonical.contains_intersect (hs : s.IsCanonical) (ht : t.IsCanonical) (c : Char) :
    (s.intersect t).contains c = (s.contains c && t.contains c) := by
  rw [Bool.eq_iff_iff, (hs.represents.intersect ht.represents).contains_iff, Bool.and_eq_true,
    hs.represents.contains_iff, ht.represents.contains_iff]
  rfl

theorem IsCanonical.contains_negate (h : s.IsCanonical) (c : Char) :
    s.negate.contains c = !s.contains c := by
  rw [Bool.eq_iff_iff, h.represents.negate.contains_iff, Bool.not_eq_true', ← Bool.not_eq_true,
    h.represents.contains_iff]
  rfl

theorem IsCanonical.contains_subtract (hs : s.IsCanonical) (ht : t.IsCanonical) (c : Char) :
    (s.subtract t).contains c = (s.contains c && !t.contains c) := by
  rw [Bool.eq_iff_iff, (hs.represents.subtract ht.represents).contains_iff, Bool.and_eq_true,
    Bool.not_eq_true', ← Bool.not_eq_true, hs.represents.contains_iff, ht.represents.contains_iff]
  rfl

theorem IsCanonical.contains_compact (h : s.IsCanonical) (c : Char) :
    s.compact.contains c = s.contains c := by
  rw [Bool.eq_iff_iff, h.represents.compact.contains_iff, h.represents.contains_iff]

end RangeSet

/-! ### The table of case folding -/

namespace Case

theorem mem_eraseReps_loop {l acc : List Char} {a c : Char} :
    c ∈ List.eraseRepsBy.loop (· == ·) a l acc ↔ c = a ∨ c ∈ l ∨ c ∈ acc := by
  induction l generalizing a acc with
  | nil => simp [List.eraseRepsBy.loop, or_comm]
  | cons b l ih =>
    rw [List.eraseRepsBy.loop]
    split
    · rename_i heq
      rw [ih, List.mem_cons, beq_iff_eq.mp heq]
      tauto
    · rw [ih, List.mem_cons, List.mem_cons]
      tauto

/-- Dropping repetitions loses no character. -/
theorem mem_eraseReps {l : List Char} {c : Char} : c ∈ l.eraseReps ↔ c ∈ l := by
  cases l with
  | nil => rfl
  | cons a l =>
    show c ∈ List.eraseRepsBy.loop (· == ·) a l [] ↔ _
    rw [mem_eraseReps_loop]
    simp

theorem mem_foldPairs {chars : List Char} {key c : Char} :
    (key, c) ∈ foldPairs chars ↔ c ∈ chars ∧ key = foldKey c ∧ foldKey c ≠ c := by
  rw [foldPairs, List.mem_mergeSort, List.mem_filterMap]
  constructor
  · rintro ⟨d, hd, h⟩
    split at h
    · cases h
    · cases h
      exact ⟨hd, rfl, by assumption⟩
  · rintro ⟨hc, rfl, hne⟩
    exact ⟨c, hc, if_neg hne⟩

theorem mem_charsBelow {n : ℕ} {c : Char} : c ∈ charsBelow n ↔ c.toNat < n := by
  rw [charsBelow, List.mem_filterMap]
  simp only [List.mem_range, Scalar.ofCodePoint?_eq_some_iff]
  constructor
  · rintro ⟨m, hm, rfl⟩
    exact hm
  · intro h
    exact ⟨c.toNat, h, rfl⟩

theorem get_foldTable : foldTable.get = foldPairs (charsBelow 0x110000) := by
  rw [foldTable, Thunk.get]

/-- The table is sorted by representative. -/
theorem pairwise_foldTable : foldTable.get.Pairwise fun p q => p.1 ≤ q.1 := by
  rw [get_foldTable]
  exact Scalar.pairwise_mergeSort id _

/-- **The table lists just the characters that are not their own
representative**, each with its representative. -/
theorem mem_foldTable {key c : Char} :
    (key, c) ∈ foldTable.get ↔ key = foldKey c ∧ foldKey c ≠ c := by
  rw [get_foldTable, mem_foldPairs, mem_charsBelow, and_iff_right_iff_imp]
  intro _
  have := Scalar.toNat_cases c
  omega

end Case

namespace RangeSet

open CharRange (Before charsOfAll)

variable {s : RangeSet} {m : Set Char} {pairs : List (Char × Char)} {key : Char}

/-- In a list that is sorted by key and has none smaller than a given one, the
pairs with that key stand in front. -/
theorem mem_takeWhile_key {p : Char × Char} (h : pairs.Pairwise fun p q => p.1 ≤ q.1)
    (hle : ∀ p ∈ pairs, key ≤ p.1) :
    p ∈ pairs.takeWhile (·.1 = key) ↔ p ∈ pairs ∧ p.1 = key := by
  induction pairs with
  | nil => simp
  | cons q pairs ih =>
    obtain ⟨hq, hpairs⟩ := List.pairwise_cons.mp h
    obtain ⟨hkey, hle⟩ := List.forall_mem_cons.mp hle
    rw [List.takeWhile_cons]
    split
    · rename_i heq
      have heq := of_decide_eq_true heq
      rw [List.mem_cons, ih hpairs hle, List.mem_cons]
      constructor
      · rintro (rfl | ⟨hp, hkey⟩)
        · exact ⟨.inl rfl, heq⟩
        · exact ⟨.inr hp, hkey⟩
      · rintro ⟨rfl | hp, hkey⟩
        · exact .inl rfl
        · exact .inr ⟨hp, hkey⟩
    · rename_i hne
      -- All keys from here on are greater than the given one.
      have hlt : key < q.1 := hkey.lt_of_ne fun heq => hne (decide_eq_true heq.symm)
      refine ⟨nofun, fun ⟨hp, hpkey⟩ => ?_⟩
      rcases List.mem_cons.mp hp with rfl | hp
      · exact absurd hpkey hlt.ne'
      · exact absurd hpkey (hlt.trans_le (hq p hp)).ne'

/-- **The scan behind the partition point finds all pairs with a key**, in a
table that is sorted by key.  Before the partition point there are only smaller
keys, and behind the last pair that is taken only larger ones. -/
theorem charsOfAll_rangesOfKey (h : pairs.Pairwise fun p q => p.1 ≤ q.1) (key : Char) :
    charsOfAll (rangesOfKey pairs key) = {c | c = key ∨ (key, c) ∈ pairs} := by
  obtain ⟨hfront, hbehind⟩ := BinarySearch.partitionPoint_spec (fun p => p.1 < key) <|
    h.imp fun {p q} hle hlt => decide_eq_true (hle.trans_lt (of_decide_eq_true hlt))
  rw [rangesOfKey]
  generalize BinarySearch.partitionPoint (fun p => p.1 < key) pairs = i at hfront hbehind ⊢
  have hscan : ∀ c, (key, c) ∈ (pairs.drop i).takeWhile (·.1 = key) ↔ (key, c) ∈ pairs := by
    intro c
    rw [mem_takeWhile_key (h.sublist (List.drop_sublist i pairs))
      fun p hp => not_lt.mp (of_decide_eq_false (hbehind p hp)), and_iff_left rfl]
    refine ⟨List.mem_of_mem_drop, fun hc => ?_⟩
    rw [← List.take_append_drop i pairs] at hc
    refine (List.mem_append.mp hc).resolve_left fun hc => ?_
    exact absurd (of_decide_eq_true (hfront _ hc)) (lt_irrefl key)
  ext c
  rw [CharRange.charsOfAll_cons, CharRange.chars_ofEnds_self, Set.mem_union, Set.mem_singleton_iff,
    Set.mem_ofPred_eq, ← hscan]
  refine or_congr_right ?_
  constructor
  · rintro ⟨r, hr, hc⟩
    obtain ⟨⟨key', d⟩, hp, rfl⟩ := List.mem_map.mp hr
    rw [CharRange.chars_ofEnds_self, Set.mem_singleton_iff] at hc
    have hkey := List.mem_takeWhile_imp hp
    obtain rfl : key' = key := of_decide_eq_true hkey
    exact hc ▸ hp
  · intro hc
    refine ⟨_, List.mem_map.mpr ⟨_, hc, rfl⟩, ?_⟩
    rw [CharRange.chars_ofEnds_self]
    rfl

/-- The ranges of all keys of a list are added. -/
theorem charsOfAll_foldl_rangesOfKey (pairs : List (Char × Char)) (keys : List Char)
    (rs : List CharRange) :
    charsOfAll (keys.foldl (fun ranges key => ranges ++ rangesOfKey pairs key) rs) =
      charsOfAll rs ∪ {c | ∃ key ∈ keys, c ∈ charsOfAll (rangesOfKey pairs key)} := by
  induction keys generalizing rs with
  | nil => simp
  | cons key keys ih =>
    rw [List.foldl_cons, ih, CharRange.charsOfAll_append, Set.union_assoc]
    congr 1
    ext c
    simp

/-- A representative is hit if it is not alone and some character that it
represents is a member. -/
theorem Represents.mem_keysHit (h : s.Represents m) :
    key ∈ s.keysHit Case.foldTable.get ↔
      ∃ d, Case.foldKey d = key ∧ Case.foldKey d ≠ d ∧ (key ∈ m ∨ d ∈ m) := by
  rw [keysHit, Case.mem_eraseReps, List.mem_map]
  simp only [List.mem_filter, Bool.or_eq_true, h.contains_iff]
  constructor
  · rintro ⟨⟨key, d⟩, ⟨hp, hhit⟩, rfl⟩
    obtain ⟨hkey, hne⟩ := Case.mem_foldTable.mp hp
    exact ⟨d, hkey.symm, hne, hhit⟩
  · rintro ⟨d, hkey, hne, hhit⟩
    exact ⟨(key, d), ⟨Case.mem_foldTable.mpr ⟨hkey.symm, hne⟩, hhit⟩, rfl⟩

/-- The ranges of a representative hold the characters that it represents, and
itself. -/
theorem mem_rangesOfKey_foldTable {c : Char} (hkey : Case.foldKey key = key) :
    c ∈ charsOfAll (rangesOfKey Case.foldTable.get key) ↔ Case.foldKey c = key := by
  rw [charsOfAll_rangesOfKey Case.pairwise_foldTable, Set.mem_ofPred_eq, Case.mem_foldTable]
  constructor
  · rintro (rfl | ⟨hc, -⟩)
    · exact hkey
    · exact hc.symm
  · intro hc
    by_cases hne : c = key
    · exact .inl hne
    · exact .inr ⟨hc.symm, fun heq => hne (heq.symm.trans hc)⟩

/-- **The closure holds what is the same up to case as some member.**  A
character has the key of a member if it is that key or is listed with it, and
the keys are collected from members that are keys and from listed ones. -/
theorem Represents.caseFold (h : s.Represents m) :
    s.caseFold.Represents {c | ∃ d ∈ m, Case.eqFold c d = true} := by
  have hchars := charsOfAll_foldl_rangesOfKey Case.foldTable.get (s.keysHit Case.foldTable.get)
    s.ranges
  have hkeys : ∀ key ∈ s.keysHit Case.foldTable.get, Case.foldKey key = key := by
    intro key hkey
    obtain ⟨d, rfl, -⟩ := h.mem_keysHit.mp hkey
    exact Case.foldKey_foldKey d
  have hfold : charsOfAll s.ranges ∪ {c | ∃ key ∈ s.keysHit Case.foldTable.get,
      c ∈ charsOfAll (rangesOfKey Case.foldTable.get key)} =
        {c | ∃ d ∈ m, Case.eqFold c d = true} := by
    ext c
    simp only [Set.mem_union, Set.mem_ofPred_eq, h.chars_eq, Case.eqFold_iff]
    constructor
    · rintro (hc | ⟨key, hkey, hc⟩)
      · exact ⟨c, hc, rfl⟩
      · rw [mem_rangesOfKey_foldTable (hkeys key hkey)] at hc
        obtain ⟨d, hd, -, hmem | hmem⟩ := h.mem_keysHit.mp hkey
        · exact ⟨key, hmem, hc.trans (hkeys key hkey).symm⟩
        · exact ⟨d, hmem, hc.trans hd.symm⟩
    · rintro ⟨d, hd, hc⟩
      by_cases heq : c = d
      · exact .inl (heq ▸ hd)
      -- Of two characters with one representative, one is listed with it.
      have hkey : Case.foldKey d ∈ s.keysHit Case.foldTable.get := by
        rw [h.mem_keysHit]
        by_cases hdkey : Case.foldKey d = d
        · have hne : Case.foldKey c ≠ c := fun hckey => heq (hckey.symm.trans (hc.trans hdkey))
          exact ⟨c, hc, hne, .inl (by rwa [hdkey])⟩
        · exact ⟨d, rfl, hdkey, .inr hd⟩
      exact .inr ⟨_, hkey, (mem_rangesOfKey_foldTable (hkeys _ hkey)).mpr hc⟩
  rw [← hfold, ← hchars]
  exact represents_compact _

end RangeSet

/-! ### Expressions -/

/-- The ranges of a boundary list, as a list of ranges. -/
def CharSet.toRangeSet (s : CharSet) : RangeSet := ⟨s.ranges⟩

theorem CharSet.toRangeSet_represents (s : CharSet) : s.toRangeSet.Represents s.members :=
  ⟨s.pairwise_before_ranges, s.charsOfAll_ranges⟩

namespace SetExpr

/-- The list of ranges that is made of an expression, by the loops over lists of
ranges. -/
def build : SetExpr → RangeSet
  | ofRanges rs => .ofRanges rs
  | empty => .empty
  | full => .full
  | single c => .single c
  | addRange e a b => e.build.pushRange a b
  | addChar e c => e.build.pushChar c
  | union e e' => e.build.union e'.build
  | inter e e' => e.build.intersect e'.build
  | diff e e' => e.build.subtract e'.build
  | compl e => e.build.negate
  | compact e => e.build.compact
  | caseFold e => e.build.caseFold

/-- **A set is in canonical form and has the members that it should have**,
however it is made.  The induction is on the expression, with one lemma for each
operation. -/
theorem build_represents (e : SetExpr) : e.build.Represents e.denotes := by
  induction e with
  | ofRanges rs => exact RangeSet.represents_ofRanges rs
  | empty => exact RangeSet.represents_empty
  | full => exact RangeSet.represents_full
  | single c => exact RangeSet.represents_single c
  | addRange e a b ih => exact ih.pushRange a b
  | addChar e c ih => exact ih.pushChar c
  | union e e' ih ih' => exact ih.union ih'
  | inter e e' ih ih' => exact ih.intersect ih'
  | diff e e' ih ih' => exact ih.subtract ih'
  | compl e ih => exact ih.negate
  | compact e ih => exact ih.compact
  | caseFold e ih => exact ih.caseFold

/-- **The two kinds of sets agree**: the list of ranges that is made of an
expression has the ranges of the boundary list that is made of it. -/
theorem build_eq_toRangeSet (e : SetExpr) : e.build = e.value.toRangeSet := by
  have hvalue := e.value.toRangeSet_represents
  rw [members_value] at hvalue
  exact e.build_represents.unique hvalue

/-- **Sets of characters are a canonical Boolean algebra.**  However two sets
are made, from ranges in any order and by any operations, their ranges are in
ascending order with a character between any two of them; each further operation
is the one that it should be, character by character; the size is the number of
members; and the sets are equal, range by range, if they have the same members.
They have the ranges of the boundary lists that are made in the same way, and
their sizes. -/
theorem build_isCanonical (e e' : SetExpr) :
    e.build.ranges.Pairwise CharRange.Before ∧
    (∀ c, e.build.contains c = true ↔ c ∈ e.denotes) ∧
    (∀ a b c, (e.build.pushRange a b).contains c =
      (e.build.contains c || decide (min a b ≤ c ∧ c ≤ max a b))) ∧
    (∀ d c, (e.build.pushChar d).contains c = (e.build.contains c || decide (c = d))) ∧
    (∀ c, (e.build.union e'.build).contains c = (e.build.contains c || e'.build.contains c)) ∧
    (∀ c, (e.build.intersect e'.build).contains c =
      (e.build.contains c && e'.build.contains c)) ∧
    (∀ c, (e.build.subtract e'.build).contains c =
      (e.build.contains c && !e'.build.contains c)) ∧
    (∀ c, e.build.negate.contains c = !e.build.contains c) ∧
    (∀ c, e.build.compact.contains c = e.build.contains c) ∧
    e.build.len = {c | e.build.contains c = true}.ncard ∧
    (e.build = e'.build ↔ ∀ c, e.build.contains c = e'.build.contains c) ∧
    e.build.ranges = e.value.ranges ∧ e.build.len = e.value.size := by
  have hs := e.build_represents
  have ht := e'.build_represents
  refine ⟨hs.isCanonical, fun c => hs.contains_iff, hs.isCanonical.contains_pushRange,
    hs.isCanonical.contains_pushChar, hs.isCanonical.contains_union ht.isCanonical,
    hs.isCanonical.contains_intersect ht.isCanonical,
    hs.isCanonical.contains_subtract ht.isCanonical, hs.isCanonical.contains_negate,
    hs.isCanonical.contains_compact, ?_, ?_, congrArg RangeSet.ranges e.build_eq_toRangeSet, ?_⟩
  · rw [hs.members_eq, hs.len_eq]
  · rw [hs.eq_iff ht, ← hs.members_eq, ← ht.members_eq, Set.ext_iff]
    exact forall_congr' fun c => Bool.eq_iff_iff.symm
  · rw [hs.len_eq, CharSet.size_eq_ncard, members_value]

/-- In front of U+E000 the complement ends before the surrogates. -/
example : (SetExpr.single '\uE000').compl.build.ranges =
    [.ofEnds '\x00' '\uD7FF', .ofEnds '\uE001' Scalar.greatest] := by decide

end SetExpr

end Regexp
