/-!
# Sets of offsets

A set of offsets that is emptied in one step.  The members stand in the order in
which they came in, in the array `dense`, and a second array `sparse` says for
each offset at which place it stands, if it is a member.  Emptying the set
(`OffsetSet.clear`) only puts the number of members to zero; both arrays keep
what they hold, and growing (`OffsetSet.grow`) keeps it as well.  A match
attempt begins with empty sets for all closures, so this is what makes short
attempts cheap.

## Trusting what is left over

A place is trusted only if it is below the number of members and holds the very
offset (`OffsetSet.contains`).  What is left over from before the set was
emptied may point anywhere, but either the place it points to is past the
members, or another offset has come to stand there since.  So
`OffsetSet.contains_eq_true_iff` can describe the members without the second
array: an offset is a member if it stands at one of the first places of `dense`.

The structure carries the other direction along, as its field `coherent`: for
each of the first places the second array points back to it.  It follows that no
offset stands at two places (`OffsetSet.dense_injective`), and so that there is
a free place for each offset that has room and is not yet a member
(`OffsetSet.size_lt_capacity`).

## Main definitions

* `OffsetSet` — a set of offsets.
* `OffsetSet.contains`, `OffsetSet.add`, `OffsetSet.insert`, `OffsetSet.clear`,
  `OffsetSet.grow` — its operations.

## Main statements

* `OffsetSet.contains_insert` — inserting an offset adds it and nothing else,
  and `OffsetSet.snd_insert` tells whether it is new.
* `OffsetSet.contains_clear`, `OffsetSet.contains_grow` — emptying and growing.
* `OffsetSet.mem_toList`, `OffsetSet.toList_nodup` — the members in the order in
  which they came in, each of them once.
-/

namespace Regexp

/-- A set of offsets.  The first `size` places of `dense` hold the members; all
else in the two arrays is left over and may be anything. -/
structure OffsetSet where
  /-- The number of members. -/
  size : Nat
  /-- The members in the order in which they came in, and what is left over. -/
  dense : Array Nat
  /-- The place at which each offset stands, if it is a member. -/
  sparse : Array Nat
  sparse_size : sparse.size = dense.size
  coherent : ∀ i, i < size → ∃ v, dense[i]? = some v ∧ sparse[v]? = some i

/-- A list of different numbers below `n` has at most `n` members. -/
theorem length_le_of_nodup_of_lt {l : List Nat} {n : Nat} (hl : l.Nodup) (h : ∀ v ∈ l, v < n) :
    l.length ≤ n := by
  induction n generalizing l with
  | zero =>
    cases l with
    | nil => simp
    | cons v l => exact absurd (h v (by simp)) (by omega)
  | succ n ih =>
    have := ih (l := l.erase n) (hl.erase n) fun v hv => by
      have := (List.Nodup.mem_erase_iff hl).mp hv
      have := h v this.2
      omega
    have := List.length_erase (a := n) (l := l)
    split at this <;> omega

namespace OffsetSet

/-- The number of offsets for which there is room. -/
def capacity (s : OffsetSet) : Nat := s.dense.size

/-- The set without members, with room for the offsets below `capacity`. -/
def empty (capacity : Nat) : OffsetSet where
  size := 0
  dense := .replicate capacity 0
  sparse := .replicate capacity 0
  sparse_size := by simp
  coherent := by omega

instance : Inhabited OffsetSet := ⟨empty 0⟩

/-- Whether an offset is a member: the place that `sparse` gives for it has to
be one of those where members stand, and has to hold this very offset. -/
def contains (s : OffsetSet) (v : Nat) : Bool :=
  match s.sparse[v]? with
  | some i => i < s.size && s.dense[i]? = some v
  | none => false

/-- The set without members, with the room of a set.  Nothing in the arrays is
changed. -/
def clear (s : OffsetSet) : OffsetSet := { s with size := 0, coherent := by omega }

/-- A set with room for the offsets below `n`, and for at least twice as many as
before if that is more than it has.  So the cost of growing is spread over the
offsets that made it necessary. -/
def grow (s : OffsetSet) (n : Nat) : OffsetSet :=
  if n ≤ s.capacity then s
  else
    { size := s.size
      dense := s.dense ++ Array.replicate (max n (2 * s.capacity) - s.capacity) 0
      sparse := s.sparse ++ Array.replicate (max n (2 * s.capacity) - s.capacity) 0
      sparse_size := by simp [s.sparse_size]
      coherent := fun i hi => by
        obtain ⟨v, hd, hs⟩ := s.coherent i hi
        obtain ⟨hi', -⟩ := Array.getElem?_eq_some_iff.mp hd
        obtain ⟨hv', -⟩ := Array.getElem?_eq_some_iff.mp hs
        exact ⟨v, by rw [Array.getElem?_append_left hi', hd],
          by rw [Array.getElem?_append_left hv', hs]⟩ }

/-! ### Members -/

theorem contains_eq_true_iff {s : OffsetSet} {v : Nat} :
    s.contains v = true ↔ ∃ i, i < s.size ∧ s.dense[i]? = some v := by
  constructor
  · intro h
    unfold contains at h
    split at h
    · rename_i i _
      exact ⟨i, by simpa using h⟩
    · simp at h
  · rintro ⟨i, hi, hd⟩
    obtain ⟨w, hw, hs⟩ := s.coherent i hi
    obtain rfl : v = w := by simpa [hd] using hw
    simp [contains, hs, hi, hd]

theorem dense_injective {s : OffsetSet} {i j v : Nat} (hi : i < s.size) (hj : j < s.size)
    (hv : s.dense[i]? = some v) (hv' : s.dense[j]? = some v) : i = j := by
  obtain ⟨a, ha, hsa⟩ := s.coherent i hi
  obtain ⟨b, hb, hsb⟩ := s.coherent j hj
  rw [hv] at ha
  rw [hv'] at hb
  cases ha
  cases hb
  simpa [hsa] using hsb

/-- The members in the order in which they came in. -/
def toList (s : OffsetSet) : List Nat := (List.range s.size).map (s.dense[·]?.getD 0)

theorem mem_toList {s : OffsetSet} {v : Nat} : v ∈ s.toList ↔ s.contains v = true := by
  rw [contains_eq_true_iff]
  simp only [toList, List.mem_map, List.mem_range]
  constructor
  · rintro ⟨i, hi, rfl⟩
    obtain ⟨w, hw, -⟩ := s.coherent i hi
    exact ⟨i, hi, by simp [hw]⟩
  · rintro ⟨i, hi, hv⟩
    exact ⟨i, hi, by simp [hv]⟩

theorem toList_nodup (s : OffsetSet) : s.toList.Nodup := by
  simp only [toList, List.Nodup, List.pairwise_map]
  refine List.pairwise_lt_range.imp_of_mem ?_
  intro i j hi hj hij heq
  rw [List.mem_range] at hi hj
  obtain ⟨a, ha, -⟩ := s.coherent i hi
  obtain ⟨b, hb, -⟩ := s.coherent j hj
  have hab : a = b := by simpa [ha, hb] using heq
  have := dense_injective hi hj ha (hab ▸ hb)
  omega

theorem lt_capacity_of_contains {s : OffsetSet} {v : Nat} (h : s.contains v = true) :
    v < s.capacity := by
  obtain ⟨i, hi, hd⟩ := contains_eq_true_iff.mp h
  obtain ⟨w, hw, hs⟩ := s.coherent i hi
  obtain rfl : v = w := by simpa [hd] using hw
  obtain ⟨hlt, -⟩ := Array.getElem?_eq_some_iff.mp hs
  rw [capacity, ← s.sparse_size]
  exact hlt

/-- There is a free place for an offset that has room and is no member: the
members and the offset are different numbers below the capacity. -/
theorem size_lt_capacity {s : OffsetSet} {v : Nat} (hv : v < s.capacity)
    (h : s.contains v = false) : s.size < s.capacity := by
  have hnd : (v :: s.toList).Nodup := by
    rw [List.nodup_cons]
    exact ⟨by simp [mem_toList, h], s.toList_nodup⟩
  have := length_le_of_nodup_of_lt hnd (n := s.capacity) fun w hw => by
    rcases List.mem_cons.mp hw with rfl | hw
    · exact hv
    · exact lt_capacity_of_contains (mem_toList.mp hw)
  simp only [List.length_cons, toList, List.length_map, List.length_range] at this
  omega

@[simp] theorem contains_empty (n v : Nat) : (empty n).contains v = false := by
  cases h : (empty n).contains v with
  | false => rfl
  | true =>
    obtain ⟨i, hi, -⟩ := contains_eq_true_iff.mp h
    exact absurd hi (by simp [empty])

@[simp] theorem contains_clear (s : OffsetSet) (v : Nat) : s.clear.contains v = false := by
  cases h : s.clear.contains v with
  | false => rfl
  | true =>
    obtain ⟨i, hi, -⟩ := contains_eq_true_iff.mp h
    exact absurd hi (by simp [clear])

theorem size_grow (s : OffsetSet) (n : Nat) : (s.grow n).size = s.size := by
  unfold grow
  split <;> rfl

theorem le_capacity_grow (s : OffsetSet) (n : Nat) : n ≤ (s.grow n).capacity := by
  unfold grow
  split
  · assumption
  · simp only [capacity, Array.size_append, Array.size_replicate] at *
    omega

theorem dense_grow {s : OffsetSet} {n i : Nat} (h : i < s.size) :
    (s.grow n).dense[i]? = s.dense[i]? := by
  obtain ⟨v, hd, -⟩ := s.coherent i h
  obtain ⟨hi, -⟩ := Array.getElem?_eq_some_iff.mp hd
  unfold grow
  split
  · rfl
  · exact Array.getElem?_append_left hi

@[simp] theorem contains_grow (s : OffsetSet) (n v : Nat) :
    (s.grow n).contains v = s.contains v := by
  rw [Bool.eq_iff_iff, contains_eq_true_iff, contains_eq_true_iff, size_grow]
  constructor <;> rintro ⟨i, hi, hd⟩ <;> refine ⟨i, hi, ?_⟩
  · rwa [dense_grow hi] at hd
  · rwa [dense_grow hi]

/-! ### Insertion -/

/-- A set with one more member, for which there is a place.  That there is one
is what `size_lt_capacity` says. -/
def append (s : OffsetSet) (v : Nat) (h : s.contains v = false) (hv : v < s.capacity) :
    OffsetSet where
  size := s.size + 1
  dense := s.dense.setIfInBounds s.size v
  sparse := s.sparse.setIfInBounds v s.size
  sparse_size := by simp [s.sparse_size]
  coherent i hi := by
    have hsize := size_lt_capacity hv h
    have hv' : v < s.sparse.size := by rw [s.sparse_size]; exact hv
    rcases Nat.lt_or_ge i s.size with hlt | hge
    · obtain ⟨w, hd, hs⟩ := s.coherent i hlt
      have hne : v ≠ w := by
        rintro rfl
        rw [contains_eq_true_iff.mpr ⟨i, hlt, hd⟩] at h
        simp at h
      exact ⟨w, by rw [Array.getElem?_setIfInBounds_ne (by omega), hd],
        by rw [Array.getElem?_setIfInBounds_ne hne, hs]⟩
    · obtain rfl : i = s.size := by omega
      exact ⟨v, Array.getElem?_setIfInBounds_self_of_lt hsize,
        Array.getElem?_setIfInBounds_self_of_lt hv'⟩

/-- The set with an offset as a member. -/
@[noinline] def add (s : OffsetSet) (v : Nat) : OffsetSet :=
  if h : s.contains v then s
  else (s.grow (v + 1)).append v (by simpa using h) (s.le_capacity_grow (v + 1))

/-- The set with an offset as a member, and whether it was not one before. -/
def insert (s : OffsetSet) (v : Nat) : OffsetSet × Bool := (s.add v, !s.contains v)

theorem contains_append {s : OffsetSet} {v : Nat} (h : s.contains v = false)
    (hv : v < s.capacity) (w : Nat) : (s.append v h hv).contains w = (s.contains w || w = v) := by
  have hsize := size_lt_capacity hv h
  rw [Bool.eq_iff_iff, contains_eq_true_iff, Bool.or_eq_true, contains_eq_true_iff,
    decide_eq_true_iff]
  simp only [append]
  constructor
  · rintro ⟨i, hi, hd⟩
    rcases Nat.lt_or_ge i s.size with hlt | hge
    · rw [Array.getElem?_setIfInBounds_ne (by omega)] at hd
      exact .inl ⟨i, hlt, hd⟩
    · obtain rfl : i = s.size := by omega
      rw [Array.getElem?_setIfInBounds_self_of_lt hsize] at hd
      exact .inr (by simpa using hd.symm)
  · rintro (⟨i, hi, hd⟩ | rfl)
    · exact ⟨i, by omega, by rwa [Array.getElem?_setIfInBounds_ne (by omega)]⟩
    · exact ⟨s.size, by omega, Array.getElem?_setIfInBounds_self_of_lt hsize⟩

/-- Adding an offset makes it a member and changes nothing else, also if it is a
member already. -/
theorem contains_add (s : OffsetSet) (v w : Nat) :
    (s.add v).contains w = (s.contains w || w = v) := by
  unfold add
  split
  · rename_i h
    by_cases hw : w = v
    · simp [hw, h]
    · simp [hw]
  · simp [contains_append]

/-- Inserting an offset makes it a member and changes nothing else. -/
theorem contains_insert (s : OffsetSet) (v w : Nat) :
    (s.insert v).1.contains w = (s.contains w || w = v) := contains_add s v w

/-- Insertion tells whether the offset is new. -/
theorem snd_insert (s : OffsetSet) (v : Nat) : (s.insert v).2 = !s.contains v := rfl

end OffsetSet

end Regexp
