import Regexp.CharSet.Boundary

/-!
# Sets of characters

A set of characters is kept as the ascending list of the places at which
membership changes, where the characters are numbered without the gap of the
surrogate code points.  The characters below the first place are outside, those
from the first place up to the second are inside, and so on.  Such a list is
determined by the members of the set, so two sets are equal exactly when they
have the same members, and neighbouring ranges are never written apart.  That
the list ascends and stays below the number of characters is part of the type,
`CharSet`; no operation has to check it and no proof has to assume it.

## Why places of change and not ranges

The usual form of such a set is a list of ranges (`RangeSet` in
`Regexp.RangeSet`).  Each operation on ranges is a loop of its own with its own
cases at the ends.  On places of change every Boolean operation is the same
merge of two ascending lists, `CharSet.combine`, with a different Boolean
function; the complement puts the first place in or takes it out; and membership
is the parity of the number of places up to a character, which binary search
counts.  Neither has to know that U+D7FF and U+E000 are neighbours, because the
numbering already does.

The patterns and programs of this development hold sets in this form.
`Regexp.Proofs.RangeAlgebra` shows that the two forms agree: a set that is built
in the one way and in the other has the same ranges, whatever the operations
were, and the ranges that are read off (`CharSet.ranges`) are the canonical
ones.

## Main definitions

* `CharRange` — the characters from a first to a last one.
* `CharSet` — a set of characters; `CharSet.contains` is membership.
* `CharSet.empty`, `CharSet.full`, `CharSet.single`, `CharSet.ofRange`,
  `CharSet.ofRanges` — sets from their members.
* `CharSet.union`, `CharSet.inter`, `CharSet.diff`, `CharSet.compl` — the
  Boolean algebra, all but the last by `CharSet.combine`.
* `CharSet.ranges`, `CharSet.size` — the maximal ranges in ascending order, and
  the number of members.

## Main statements

* `CharSet.contains_combine` — membership in a combination is the Boolean
  function of membership in the parts.  `CharSet.contains_union`,
  `CharSet.contains_inter`, `CharSet.contains_diff` and `CharSet.contains_compl`
  are its cases.
* `CharSet.contains_ofRange` — the members of a range are the characters between
  its ends.
-/

namespace Regexp

/-- The characters from a first to a last one, which do not come in the wrong
order. -/
structure CharRange where
  first : Char
  last : Char
  first_le_last : first ≤ last
  deriving DecidableEq, Repr

namespace CharRange

/-- The range between two characters, given in either order. -/
def ofEnds (a b : Char) : CharRange :=
  if h : a ≤ b then ⟨a, b, h⟩ else ⟨b, a, (Char.le_total a b).resolve_left h⟩

/-- The number of characters of a range, counted by ordinals, so that surrogates
are none. -/
def size (r : CharRange) : Nat := r.last.ordinal.val - r.first.ordinal.val + 1

end CharRange

/-- A set of characters, as the places at which membership changes.  The fields
say that the places ascend and that each of them is the number of a character,
so a list of places belongs to one set only. -/
structure CharSet where
  /-- The numbers of the first characters of the ranges inside and between the
  members. -/
  bounds : Array Nat
  ascending : Boundary.Ascending bounds.toList
  bounded : ∀ b ∈ bounds.toList, b < Char.numCodePoints
  deriving DecidableEq, Repr

namespace CharSet

/-- The set with the given places of change.  Every other one begins a run of
members. -/
def ofBoundaries (l : List Nat) (hasc : Boundary.Ascending l)
    (hlt : ∀ b ∈ l, b < Char.numCodePoints) : CharSet :=
  ⟨l.toArray, by simpa using hasc, by simpa using hlt⟩

/-- Whether a character is in a set: whether an odd number of changes lies at or
before it. -/
def contains (s : CharSet) (c : Char) : Bool := Boundary.countLe s.bounds c.ordinal.val % 2 == 1

instance : Membership Char CharSet := ⟨fun s c => s.contains c = true⟩

/-! ### Sets from their members -/

/-- The set without members. -/
def empty : CharSet := ofBoundaries [] (by simp [Boundary.Ascending]) (by simp)

instance : Inhabited CharSet := ⟨empty⟩

/-- The set of all characters. -/
def full : CharSet :=
  ofBoundaries [0] (by simp [Boundary.Ascending]) (by simp [Char.numCodePoints])

/-- The set of the characters of a range.  A range up to the last of all
characters has no boundary behind it. -/
def ofRange (r : CharRange) : CharSet :=
  if h : r.last.ordinal.val + 1 < Char.numCodePoints then
    ofBoundaries [r.first.ordinal.val, r.last.ordinal.val + 1]
      (by
        have := Char.le_iff_ordinal_le.mp r.first_le_last
        simp only [Boundary.Ascending, List.pairwise_cons, List.mem_singleton, forall_eq,
          List.not_mem_nil, false_implies, implies_true, List.Pairwise.nil, and_self, and_true]
        omega)
      (by
        have := Char.le_iff_ordinal_le.mp r.first_le_last
        simp only [List.mem_cons, List.not_mem_nil, or_false, forall_eq_or_imp, forall_eq]
        omega)
  else
    ofBoundaries [r.first.ordinal.val] (by simp [Boundary.Ascending]) (by simp)

/-- The set of one character. -/
def single (c : Char) : CharSet := ofRange ⟨c, c, Char.le_refl c⟩

/-- The set whose membership changes at the given distances, each measured from
the character after the change before it. -/
def ofRuns (runs : List Nat) : CharSet :=
  ofBoundaries (Boundary.ofRuns Char.numCodePoints 0 runs) (Boundary.ascending_ofRuns _ _ _)
    fun _ h => (Boundary.mem_ofRuns h).2

/-! ### The Boolean algebra -/

/-- Whether a set has no members. -/
def isEmpty (s : CharSet) : Bool := s.bounds.isEmpty

/-- The set that a Boolean function of membership in two sets describes, for a
function that keeps out what is in neither.  Both lists of places are gone
through once. -/
def combine (f : Bool → Bool → Bool) (s t : CharSet) : CharSet :=
  ofBoundaries (Boundary.combine f false false s.bounds.toList t.bounds.toList)
    (Boundary.ascending_combine s.ascending t.ascending)
    fun b hb => (Boundary.mem_combine hb).elim (s.bounded b) (t.bounded b)

/-- The members of either set. -/
def union (s t : CharSet) : CharSet := combine (· || ·) s t

/-- The members of both sets. -/
def inter (s t : CharSet) : CharSet := combine (· && ·) s t

/-- The members of the first set that are not in the second. -/
def diff (s t : CharSet) : CharSet := combine (fun p q => p && !q) s t

/-- The characters that are not in a set. -/
def compl (s : CharSet) : CharSet :=
  ofBoundaries (Boundary.complement s.bounds.toList) (Boundary.ascending_complement s.ascending)
    fun b hb => (Boundary.mem_complement hb).elim (fun h => h ▸ by decide) (s.bounded b)

/-- The unions of the first two sets, of the next two, and so on.  A set that is
left over stays. -/
def unionPairs : List CharSet → List CharSet
  | s :: t :: rest => s.union t :: unionPairs rest
  | l => l

theorem length_unionPairs_le (l : List CharSet) : (unionPairs l).length ≤ (l.length + 1) / 2 := by
  fun_induction unionPairs l with
  | case1 s t rest ih =>
    simp only [List.length_cons]
    omega
  | case2 l h =>
    match l with
    | [] => simp
    | [_] => simp
    | s :: t :: rest => exact absurd rfl (h s t rest)

/-- The members of any of the sets.  Sets are put together in pairs, so that no
set is copied more often than there are rounds. -/
def unionAll : List CharSet → CharSet
  | [] => empty
  | [s] => s
  | s :: t :: rest => unionAll (s.union t :: unionPairs rest)
  termination_by l => l.length
  decreasing_by
    have := length_unionPairs_le rest
    simp only [List.length_cons]
    omega

/-- The set of the characters of several ranges, which may come in any order and
overlap. -/
def ofRanges (rs : List CharRange) : CharSet := unionAll (rs.map ofRange)

/-- The set of the characters of a list. -/
def ofChars (cs : List Char) : CharSet := unionAll (cs.map single)

/-- The set with the characters between two ends added, which may come in either
order. -/
def addRange (s : CharSet) (a b : Char) : CharSet := s.union (ofRange (.ofEnds a b))

/-- The set with one character added. -/
def addChar (s : CharSet) (c : Char) : CharSet := s.addRange c c

/-! ### Ranges -/

/-- The character with a number, or the last character for a number past all of
them. -/
def charAt (n : Nat) : Char :=
  if h : n < Char.numCodePoints then Char.ofOrdinal ⟨n, h⟩ else Char.ofNat 0x10FFFF

/-- The ranges between every other place of change.  The last one has no end if
there is an odd number of places. -/
def rangesOf : List Nat → List CharRange
  | [] => []
  | [a] => [.ofEnds (charAt a) (charAt Char.numCodePoints)]
  | a :: b :: rest => .ofEnds (charAt a) (charAt (b - 1)) :: rangesOf rest

/-- The maximal ranges of a set in ascending order.  They are the canonical form
in which a set is written down, and there is a character between any two of
them. -/
def ranges (s : CharSet) : List CharRange := rangesOf s.bounds.toList

/-- The number of members. -/
def size (s : CharSet) : Nat := s.ranges.foldr (fun r n => r.size + n) 0

/-- The set built anew from its ranges.  Since the places of change of a set are
determined by its members, this is the same set. -/
def compact (s : CharSet) : CharSet := ofRanges s.ranges

/-! ### Membership -/

theorem contains_eq_inside (s : CharSet) (c : Char) :
    s.contains c = Boundary.inside s.bounds.toList c.ordinal.val :=
  (Boundary.inside_eq_countLe s.ascending _).symm

theorem contains_ofBoundaries (l : List Nat) (hasc hlt) (c : Char) :
    (ofBoundaries l hasc hlt).contains c = Boundary.inside l c.ordinal.val := by
  rw [contains_eq_inside]
  simp [ofBoundaries]

@[simp] theorem contains_empty (c : Char) : empty.contains c = false := by
  rw [empty, contains_ofBoundaries]
  rfl

@[simp] theorem contains_full (c : Char) : full.contains c = true := by
  rw [full, contains_ofBoundaries]
  simp [Boundary.inside]

theorem contains_combine {f : Bool → Bool → Bool} (hf : f false false = false) (s t : CharSet)
    (c : Char) : (combine f s t).contains c = f (s.contains c) (t.contains c) := by
  rw [combine, contains_ofBoundaries, Boundary.inside_combine _ s.ascending t.ascending,
    contains_eq_inside, contains_eq_inside]
  simp [hf]

@[simp] theorem contains_union (s t : CharSet) (c : Char) :
    (s.union t).contains c = (s.contains c || t.contains c) :=
  contains_combine rfl s t c

@[simp] theorem contains_inter (s t : CharSet) (c : Char) :
    (s.inter t).contains c = (s.contains c && t.contains c) :=
  contains_combine rfl s t c

@[simp] theorem contains_diff (s t : CharSet) (c : Char) :
    (s.diff t).contains c = (s.contains c && !t.contains c) :=
  contains_combine (f := fun p q => p && !q) rfl s t c

@[simp] theorem contains_compl (s : CharSet) (c : Char) :
    s.compl.contains c = !s.contains c := by
  rw [compl, contains_ofBoundaries, Boundary.inside_complement, contains_eq_inside]

theorem contains_ofRange (r : CharRange) (c : Char) :
    (ofRange r).contains c = (decide (r.first ≤ c) && decide (c ≤ r.last)) := by
  have h := Char.le_iff_ordinal_le.mp r.first_le_last
  have hc := c.ordinal.isLt
  simp only [Char.le_iff_ordinal_le, Fin.le_def] at h ⊢
  unfold ofRange
  split <;> rw [contains_ofBoundaries] <;> simp only [Boundary.inside, Bool.bne_false]
  · by_cases h1 : r.first.ordinal.val ≤ c.ordinal.val <;>
      by_cases h2 : c.ordinal.val ≤ r.last.ordinal.val
    · simp [h1, h2]
      omega
    · simp [h1, h2]
      omega
    · simp [h1, h2]
      omega
    · omega
  · have : c.ordinal.val ≤ r.last.ordinal.val := by omega
    simp [this]

@[simp] theorem contains_single (a c : Char) : (single a).contains c = decide (a = c) := by
  rw [single, contains_ofRange]
  by_cases h : a = c
  · subst h
    simp
  · have : ¬ (a ≤ c ∧ c ≤ a) := fun h' => h (Char.le_antisymm h'.1 h'.2)
    simp only [h, decide_false, Bool.and_eq_false_imp, decide_eq_true_eq, decide_eq_false_iff_not]
    exact fun h1 h2 => this ⟨h1, h2⟩

end CharSet

end Regexp
