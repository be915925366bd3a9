import Mathlib.Data.Set.Card
import Regexp.OffsetSet
import Regexp.Span

/-!
# Membership in sets of offsets

A set of offsets keeps its members in two arrays, and large parts of them may be
left over from before the set was emptied.  Whatever is done with it, it tells
what a set in the mathematical sense would tell.

## Sets

`OffsetSet.Use` are the operations, and a sequence of them is run on a set of
offsets as well as on a finite set.  One use of a set is the same use of the
finite set of its members (`OffsetSet.toFinset_use`), and it tells the same
(`OffsetSet.answer_use`); the statement for sequences is an induction.  To say
of an offset that it is a member, without any set, is to say that it was
inserted after the set was last emptied (`IsInserted`).

## Arrays

The type of sets of offsets carries its invariant as fields.  A program that
keeps the arrays alone knows nothing of what is in them: it may look at a place
that is not there, write past the end, or count too far.  `Tables` is that
program, with these faults as results of its own, and `OffsetSet.use_delivers`
says that it never comes to one as long as it begins without members.  The
tables are those of a set of offsets all the time, and there the fields of the
type say which places can be trusted.

Arrays may be refused for want of memory.  That ends a run of the program, so it
is kept apart from the faults: `Delivers` allows for it, and asks that an array
was refused.  Growing doubles the room, and for offsets in the upper half of all
numbers the doubling would count too far; `Use.IsSmall` leaves these out.

## Main definitions

* `OffsetSet.Use`, `OffsetSet.run` — what can be done with a set, and the set
  after it.
* `Use.members`, `answers` — the same of a finite set.
* `IsInserted` — whether an offset was inserted after the set was last emptied.
* `OffsetSet.toFinset` — the finite set of the members.
* `Tables` — the arrays alone, with the faults that may come of them.

## Main statements

* `OffsetSet.toFinset_use`, `OffsetSet.answer_use` — what one use does to the
  members, and tells.
* `OffsetSet.use_delivers` — one use of the arrays comes to no fault.
* `OffsetSet.run_refines` — whatever is done with a set of offsets, it is a set.
-/

namespace Regexp

namespace OffsetSet

/-- What can be done with a set of offsets.  Sequences of these are all that a
program can do with one. -/
inductive Use where
  /-- An offset is inserted, and it is told whether it is new. -/
  | insert (v : ℕ)
  /-- It is told whether an offset is a member. -/
  | contains (v : ℕ)
  /-- Room is made for the offsets below a number. -/
  | grow (n : ℕ)
  /-- The set is emptied. -/
  | clear

namespace Use

/-- The finite set after a use.  Only insertion and clearing change it. -/
def members (m : Finset ℕ) : Use → Finset ℕ
  | .insert v => Insert.insert v m
  | .contains _ | .grow _ => m
  | .clear => ∅

/-- What a use tells of a finite set.  Insertion tells whether the offset was
not a member yet. -/
def answer? (m : Finset ℕ) : Use → Option Bool
  | .insert v => some (decide (v ∉ m))
  | .contains v => some (decide (v ∈ m))
  | .grow _ | .clear => none

/-- Whether a use asks for room only for offsets below half of the largest
number, so that twice the room can be counted. -/
def IsSmall : Use → Prop
  | .insert v => v < maxOffset / 2
  | .grow n => n ≤ maxOffset / 2
  | .contains _ | .clear => True

instance : DecidablePred IsSmall
  | .insert v => inferInstanceAs (Decidable (v < maxOffset / 2))
  | .grow n => inferInstanceAs (Decidable (n ≤ maxOffset / 2))
  | .contains _ | .clear => inferInstanceAs (Decidable True)

end Use

/-- What a sequence of uses tells of a finite set, use by use. -/
def answers (m : Finset ℕ) : List Use → List (Option Bool)
  | [] => []
  | u :: us => u.answer? m :: answers (u.members m) us

/-- The set after a use, and what the use tells. -/
def use (s : OffsetSet) : Use → OffsetSet × Option Bool
  | .insert v => ((s.insert v).1, some (s.insert v).2)
  | .contains v => (s, some (s.contains v))
  | .grow n => (s.grow n, none)
  | .clear => (s.clear, none)

/-- The set after a sequence of uses, and what they tell. -/
def run (s : OffsetSet) : List Use → OffsetSet × List (Option Bool)
  | [] => (s, [])
  | u :: us => (((s.use u).1.run us).1, (s.use u).2 :: ((s.use u).1.run us).2)

/-! ### Offsets that were inserted -/

/-- Whether an offset was inserted, and the set was not emptied after that.  It
speaks of the sequence alone, and not of any set. -/
def IsInserted (v : ℕ) (us : List Use) : Prop :=
  ∃ before after, us = before ++ .insert v :: after ∧ .clear ∉ after

variable {v n : ℕ} {u : Use} {us : List Use} {s : OffsetSet} {m : Finset ℕ}

theorem not_isInserted_nil : ¬ IsInserted v [] := by
  rintro ⟨before, after, h, -⟩
  simp at h

/-- The last use inserts the offset, or it does not empty the set that has it.
The induction over uses goes from the end by this. -/
theorem isInserted_snoc :
    IsInserted v (us ++ [u]) ↔ u = .insert v ∨ u ≠ .clear ∧ IsInserted v us := by
  constructor
  · rintro ⟨before, after, h, hclear⟩
    rcases List.eq_nil_or_concat after with rfl | ⟨after, w, rfl⟩
    · obtain ⟨-, hu⟩ := List.append_inj' h rfl
      exact .inl (List.singleton_inj.mp hu)
    · rw [List.concat_eq_append] at h hclear
      rw [← List.cons_append, ← List.append_assoc] at h
      obtain ⟨rfl, hu⟩ := List.append_inj' h rfl
      obtain rfl := List.singleton_inj.mp hu
      rw [List.mem_append, not_or, List.mem_singleton] at hclear
      exact .inr ⟨Ne.symm hclear.2, before, after, rfl, hclear.1⟩
  · rintro (rfl | ⟨hu, before, after, rfl, hclear⟩)
    · exact ⟨us, [], rfl, by simp⟩
    · exact ⟨before, after ++ [u], by simp, by simp [hclear, Ne.symm hu]⟩

/-- The members of the finite set are the offsets that were inserted, since it
was emptied for the last time. -/
theorem mem_foldl_members : v ∈ us.foldl Use.members ∅ ↔ IsInserted v us := by
  induction us using List.reverseRecOn with
  | nil => simp [not_isInserted_nil]
  | append_singleton us u ih =>
    rw [List.foldl_append, isInserted_snoc, ← ih]
    cases u with
    | insert w => simp [Use.members, eq_comm]
    | contains | grow | clear => simp [Use.members]

/-! ### The set of the members -/

/-- The members as a finite set, for which their order in the set does not
matter. -/
def toFinset (s : OffsetSet) : Finset ℕ := s.toList.toFinset

@[simp] theorem mem_toFinset : v ∈ s.toFinset ↔ s.contains v = true := by
  rw [toFinset, List.mem_toFinset, mem_toList]

@[simp] theorem card_toFinset : s.toFinset.card = s.size := by
  rw [toFinset, List.toFinset_card_of_nodup s.toList_nodup, toList, List.length_map,
    List.length_range]

/-- One use of a set is the same use of the finite set of its members, whichever
use it is. -/
theorem toFinset_use : (s.use u).1.toFinset = u.members s.toFinset := by
  ext w
  cases u with
  | insert v => simp [use, Use.members, contains_insert, or_comm]
  | contains | grow | clear => simp [use, Use.members]

/-- It tells the same as well. -/
theorem answer_use : (s.use u).2 = u.answer? s.toFinset := by
  cases u with
  | insert v => simp [use, Use.answer?, snd_insert]
  | contains | grow | clear => simp [use, Use.answer?]

theorem toFinset_run : (s.run us).1.toFinset = us.foldl Use.members s.toFinset := by
  induction us generalizing s with
  | nil => rfl
  | cons u us ih => rw [run, ih, toFinset_use, List.foldl_cons]

theorem answers_run : (s.run us).2 = answers s.toFinset us := by
  induction us generalizing s with
  | nil => rfl
  | cons u us ih => rw [run, ih, toFinset_use, answer_use, answers]

@[simp] theorem toFinset_empty (capacity : ℕ) : (empty capacity).toFinset = ∅ := by
  ext w
  simp

/-- The members stay where they are when room is made. -/
theorem toList_grow : (s.grow n).toList = s.toList := by
  rw [toList, toList, size_grow]
  refine List.map_congr_left fun i hi => ?_
  rw [dense_grow (List.mem_range.mp hi)]

/-! ### Arrays alone -/

/-- What can go wrong with numbers and arrays.  A program over `Tables` reports
these where a proof-carrying one cannot come to them. -/
inductive Fault where
  /-- There is no such place in an array. -/
  | place
  /-- A number is beyond the largest one. -/
  | overflow
  /-- There is no memory for an array. -/
  | memory

/-- The number that is read at a place. -/
def readAt (a : Array ℕ) (i : ℕ) : Except Fault ℕ :=
  match a[i]? with
  | some v => .ok v
  | none => .error .place

/-- The array with a number written at a place. -/
def writeAt (a : Array ℕ) (i v : ℕ) : Except Fault (Array ℕ) :=
  if h : i < a.size then .ok (a.set i v h) else .error .place

/-- A number that is not too large.  Sums are checked by it before they are
used. -/
def checked (n : ℕ) : Except Fault ℕ := if n ≤ maxOffset then .ok n else .error .overflow

/-- The array cut, or filled up with zeros, to a length for which there is
memory.  Which lengths are granted is not known. -/
def resize (grants : ℕ → Bool) (a : Array ℕ) (n : ℕ) : Except Fault (Array ℕ) :=
  if grants n then .ok (a.take n ++ .replicate (n - a.size) 0) else .error .memory

/-- The number of members and the two arrays, of which nothing is known: the
arrays may be of different lengths and hold anything. -/
structure Tables where
  size : ℕ
  dense : Array ℕ
  sparse : Array ℕ

namespace Tables

section

variable (grants : ℕ → Bool)

/-- The tables without members. -/
def new (capacity : ℕ) : Except Fault Tables := do
  let dense ← resize grants #[] capacity
  let sparse ← resize grants #[] capacity
  return ⟨0, dense, sparse⟩

/-- Whether an offset is a member: the sparse array names a place among the
members, and the dense one has the offset there.  What the sparse array holds
for other offsets may be left over from before, and the dense one refutes it. -/
def contains (t : Tables) (v : ℕ) : Except Fault Bool :=
  match t.sparse[v]? with
  | none => .ok false
  | some i =>
    if i < t.size then do
      let w ← readAt t.dense i
      return decide (w = v)
    else .ok false

/-- The tables with room for the offsets below a number. -/
def grow (t : Tables) (n : ℕ) : Except Fault Tables :=
  if n ≤ t.dense.size then .ok t
  else do
    let twice ← checked (2 * t.dense.size)
    let dense ← resize grants t.dense (max n twice)
    let sparse ← resize grants t.sparse (max n twice)
    return ⟨t.size, dense, sparse⟩

/-- The tables with an offset as a member, and whether it was not one before. -/
def insert (t : Tables) (v : ℕ) : Except Fault (Tables × Bool) := do
  let found ← t.contains v
  if found then return (t, false)
  else
    let n ← checked (v + 1)
    let t ← t.grow grants n
    let dense ← writeAt t.dense t.size v
    let sparse ← writeAt t.sparse v t.size
    let size ← checked (t.size + 1)
    return (⟨size, dense, sparse⟩, true)

/-- The tables after a use, and what the use tells. -/
def use (t : Tables) : Use → Except Fault (Tables × Option Bool)
  | .insert v => do
    let (t, isNew) ← t.insert grants v
    return (t, some isNew)
  | .contains v => do
    let found ← t.contains v
    return (t, some found)
  | .grow n => do
    let t ← t.grow grants n
    return (t, none)
  | .clear => .ok (⟨0, t.dense, t.sparse⟩, none)

/-- The tables after a sequence of uses, and what they tell. -/
def run (t : Tables) : List Use → Except Fault (Tables × List (Option Bool))
  | [] => .ok (t, [])
  | u :: us => do
    let (t, answer) ← t.use grants u
    let (t, answers) ← t.run us
    return (t, answer :: answers)

end

end Tables

/-- Whether a computation has a result, unless it is refused an array.  No other
fault is possible then. -/
def Delivers {α : Type} (grants : ℕ → Bool) (x : Except Fault α) (a : α) : Prop :=
  x = .ok a ∨ x = .error .memory ∧ ∃ n, grants n = false

section

variable {α β : Type} {grants : ℕ → Bool} {x : Except Fault α} {f : α → Except Fault β} {a : α}
  {b : β}

theorem Delivers.ok : Delivers grants (.ok a) a := .inl rfl

theorem Delivers.bind (h : Delivers grants x a) (h' : Delivers grants (f a) b) :
    Delivers grants (x >>= f) b := by
  rcases h with rfl | ⟨rfl, hgrants⟩
  · exact h'
  · exact .inr ⟨rfl, hgrants⟩

end

/-! ### No faults -/

/-- The tables of a set. -/
def tables (s : OffsetSet) : Tables := ⟨s.size, s.dense, s.sparse⟩

variable {grants : ℕ → Bool} {a : Array ℕ} {i : ℕ}

theorem checked_eq (h : n ≤ maxOffset) : checked n = .ok n := if_pos h

theorem writeAt_eq (h : i < a.size) : writeAt a i v = .ok (a.setIfInBounds i v) := by
  rw [writeAt, dif_pos h, Array.setIfInBounds, dif_pos h]

theorem resize_delivers (h : a.size ≤ n) :
    Delivers grants (resize grants a n) (a ++ .replicate (n - a.size) 0) := by
  rw [resize]
  cases hgrants : grants n with
  | true =>
    have htake : a.take n = a := by simp [Array.take_eq_extract, h]
    rw [if_pos rfl, htake]
    exact .ok
  | false => exact .inr ⟨rfl, n, hgrants⟩

theorem new_delivers (capacity : ℕ) :
    Delivers grants (Tables.new grants capacity) (empty capacity).tables := by
  have h : Delivers grants (resize grants #[] capacity) (.replicate capacity 0) := by
    have hresize : Delivers grants (resize grants #[] capacity)
        (#[] ++ .replicate (capacity - (#[] : Array ℕ).size) 0) := resize_delivers (by simp)
    simpa using hresize
  exact h.bind (h.bind .ok)

/-- A place that is trusted is one of those where members stand.  So looking up
an offset never meets a fault. -/
theorem contains_tables : s.tables.contains v = .ok (s.contains v) := by
  rw [Tables.contains, contains]
  cases hplace : s.sparse[v]? with
  | none => simp [tables, hplace]
  | some i =>
    simp only [tables, hplace]
    by_cases hi : i < s.size
    · obtain ⟨w, hw, -⟩ := s.coherent i hi
      simp [hi, hw, readAt, bind, Except.bind, pure, Except.pure]
    · simp [hi]

theorem grow_delivers (hn : n ≤ maxOffset / 2) :
    Delivers grants (s.tables.grow grants n) (s.grow n).tables := by
  by_cases h : n ≤ s.capacity
  · have hgrow : s.grow n = s := if_pos h
    rw [hgrow, Tables.grow, if_pos (show n ≤ s.tables.dense.size from h)]
    exact .ok
  · have hgrow : (s.grow n).tables = ⟨s.size,
        s.dense ++ .replicate (max n (2 * s.dense.size) - s.dense.size) 0,
        s.sparse ++ .replicate (max n (2 * s.dense.size) - s.dense.size) 0⟩ := by
      rw [grow, if_neg h]
      rfl
    have hlt : s.dense.size < n := Nat.lt_of_not_le h
    have hle : s.dense.size ≤ max n (2 * s.dense.size) := by omega
    -- Room is doubled only where it is too small, so twice the room is not too large.
    have htwice : checked (2 * s.dense.size) = .ok (2 * s.dense.size) := checked_eq (by omega)
    rw [hgrow, Tables.grow, if_neg (show ¬ n ≤ s.tables.dense.size from h), tables, htwice]
    refine (resize_delivers hle).bind (.bind ?_ .ok)
    rw [← s.sparse_size] at hle ⊢
    exact resize_delivers hle

theorem insert_delivers (hv : v < maxOffset / 2) (hs : s.size ≤ maxOffset / 2) :
    Delivers grants (s.tables.insert grants v) ((s.insert v).1.tables, (s.insert v).2) := by
  by_cases hmem : s.contains v = true
  · have hadd : s.add v = s := dif_pos hmem
    rw [Tables.insert, contains_tables, insert, hadd, hmem]
    exact .ok
  · have hnew : (s.grow (v + 1)).contains v = false := by simpa using hmem
    have hroom : v < (s.grow (v + 1)).capacity := s.le_capacity_grow (v + 1)
    have hadd : s.add v = (s.grow (v + 1)).append v hnew hroom := dif_neg hmem
    have hsize : (s.grow (v + 1)).size = s.size := s.size_grow (v + 1)
    have hnext : checked (v + 1) = .ok (v + 1) := checked_eq (by omega)
    rw [Tables.insert, contains_tables, insert, hadd, eq_false_of_ne_true hmem]
    generalize hgrown : s.grow (v + 1) = g at hnew hroom hsize
    have hgrow : Delivers grants (s.tables.grow grants (v + 1)) g.tables :=
      hgrown ▸ grow_delivers (by omega)
    have hdense : writeAt g.dense g.size v = .ok (g.dense.setIfInBounds g.size v) :=
      writeAt_eq (size_lt_capacity hroom hnew)
    have hsparse : writeAt g.sparse v g.size = .ok (g.sparse.setIfInBounds v g.size) :=
      writeAt_eq (g.sparse_size.symm ▸ hroom)
    have hcount : checked (g.size + 1) = .ok (g.size + 1) := checked_eq (by omega)
    refine .bind .ok ?_
    rw [if_neg Bool.false_ne_true, hnext]
    refine .bind .ok (hgrow.bind ?_)
    rw [tables, hdense]
    refine .bind .ok ?_
    rw [hsparse]
    refine .bind .ok ?_
    rw [hcount]
    exact .ok

theorem use_delivers (hu : u.IsSmall) (hs : s.size ≤ maxOffset / 2) :
    Delivers grants (s.tables.use grants u) ((s.use u).1.tables, (s.use u).2) := by
  cases u with
  | insert v => exact (insert_delivers hu hs).bind .ok
  | contains v =>
    rw [Tables.use, contains_tables]
    exact .bind .ok .ok
  | grow n => exact (grow_delivers hu).bind .ok
  | clear => exact .ok

/-- Small members are few, as no member stands twice in the set. -/
theorem size_le_of_members (h : ∀ w ∈ s.toFinset, w < n) : s.size ≤ n := by
  rw [← card_toFinset]
  calc s.toFinset.card ≤ (Finset.range n).card :=
        Finset.card_le_card fun w hw => Finset.mem_range.mpr (h w hw)
    _ = n := Finset.card_range n

/-- A small use keeps the members small.  Only insertion adds a member, and that
is small itself. -/
theorem Use.IsSmall.members (hu : u.IsSmall) (h : ∀ w ∈ m, w < maxOffset / 2) :
    ∀ w ∈ u.members m, w < maxOffset / 2 := by
  cases u with
  | insert v =>
    intro w hw
    rcases Finset.mem_insert.mp hw with rfl | hw
    · exact hu
    · exact h w hw
  | contains | grow => exact h
  | clear => simp [Use.members]

theorem run_delivers (hus : ∀ u ∈ us, u.IsSmall) (h : ∀ w ∈ s.toFinset, w < maxOffset / 2) :
    Delivers grants (s.tables.run grants us) ((s.run us).1.tables, (s.run us).2) := by
  induction us generalizing s with
  | nil => exact .ok
  | cons u us ih =>
    obtain ⟨hu, hus⟩ := List.forall_mem_cons.mp hus
    have hmembers : ∀ w ∈ (s.use u).1.toFinset, w < maxOffset / 2 := by
      rw [toFinset_use]
      exact hu.members h
    exact (use_delivers hu (size_le_of_members h)).bind ((ih hus hmembers).bind .ok)

/-- **A set of offsets is a set.**  After any sequence of uses, each use has
told what it tells of a finite set; the members are the offsets that were
inserted after the set was last emptied, and their number is told; insertion
tells whether an offset is not one of them; and room can be made for more
without moving them.  A program that knows nothing of its two arrays gets the
same answers and has the same arrays, unless it is refused an array: it looks at
no place that is not there, and counts no further than it can. -/
theorem run_refines (capacity : ℕ) {us : List Use} (hus : ∀ u ∈ us, u.IsSmall) :
    let s := ((empty capacity).run us).1
    let told := ((empty capacity).run us).2
    told = answers ∅ us ∧
      (∀ v, s.contains v = true ↔ IsInserted v us) ∧
      (∀ v, (s.insert v).2 = true ↔ ¬ IsInserted v us) ∧
      s.size = {v | IsInserted v us}.ncard ∧
      (∀ n, n ≤ (s.grow n).capacity ∧ (s.grow n).toList = s.toList) ∧
      ∀ grants, Delivers grants (Tables.new grants capacity >>= (Tables.run grants · us))
        (s.tables, told) := by
  intro s told
  have hmembers : s.toFinset = us.foldl Use.members ∅ := by
    rw [toFinset_run, toFinset_empty]
  have hcontains : ∀ v, s.contains v = true ↔ IsInserted v us := fun v => by
    rw [← mem_toFinset, hmembers, mem_foldl_members]
  refine ⟨?_, hcontains, fun v => ?_, ?_, fun n => ⟨s.le_capacity_grow n, toList_grow⟩,
    fun grants => ?_⟩
  · rw [← toFinset_empty capacity]
    exact answers_run
  · rw [snd_insert, Bool.not_eq_true', ← Bool.not_eq_true, hcontains]
  · have hset : {v | IsInserted v us} = ↑s.toFinset := by
      ext v
      simp [hcontains]
    rw [hset, Set.ncard_coe_finset, card_toFinset]
  · have hsmall : ∀ w ∈ (empty capacity).toFinset, w < maxOffset / 2 := by simp
    exact (new_delivers capacity).bind (run_delivers hus hsmall)

/-- What is left over is not taken for a member: the place kept for 5 is the one
where 3 stands. -/
theorem run_refines_leftover :
    let us : List Use := [.insert 5, .insert 2, .clear, .contains 5, .grow 9, .insert 3, .insert 3,
      .contains 5, .insert 2]
    let told := [some true, some true, none, some false, none, some true, some false, some false,
      some true]
    (∀ u ∈ us, u.IsSmall) ∧ ((empty 1).run us).2 = told ∧
      IsInserted 2 us ∧ ¬ IsInserted 5 us ∧ {v | IsInserted v us}.ncard = 2 ∧
      Tables.new (fun _ => true) 1 >>= (Tables.run (fun _ => true) · us) =
        .ok (((empty 1).run us).1.tables, told) := by
  intro us told
  have hus : ∀ u ∈ us, u.IsSmall := by decide
  obtain ⟨htold, hmem, -, hsize, -, hdelivers⟩ := run_refines 1 hus
  have htold' : ((empty 1).run us).2 = told := htold.trans (by decide)
  refine ⟨hus, htold', (hmem 2).mp (by decide), mt (hmem 5).mpr (by decide),
    hsize.symm.trans (by decide), ?_⟩
  rcases hdelivers fun _ => true with hok | ⟨-, n, hrefused⟩
  · rwa [htold'] at hok
  · cases hrefused

end OffsetSet

end Regexp
