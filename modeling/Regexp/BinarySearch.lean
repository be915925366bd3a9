/-!
# Binary search

A list that is sorted for a question can be asked where the answer changes, by
halving.  The search here keeps a window of places and takes the upper half of
it unless the element in the middle is already too large; it does not stop
early, so that it looks at the same number of places whatever it finds there.
Of several equal elements it may find any.

## Main definitions

* `BinarySearch.narrow` — the place at which the halving of a window ends.
* `BinarySearch.find` — the place of an element that compares as equal, or else
  the one where it would have to be put.
* `BinarySearch.partitionPoint` — the number of elements in front of the first
  that fails a test.
* `BinarySearch.Narrows` — what is known of the places around a window.

## Main statements

* `BinarySearch.Narrows.narrow` — halving keeps what is known, until the window
  has one place.
* `BinarySearch.find_spec` — what the two kinds of answers say of a list that is
  in order.
* `BinarySearch.partitionPoint_spec` — the elements in front of the partition
  point pass the test, and those from it on fail it.

## Design notes

A list is in order for a comparison if smaller elements come first, then equal
ones and then greater ones (`BinarySearch.InOrder`).  On other lists the search
ends as well, but nothing is said of its answer.
-/

namespace Regexp.BinarySearch

variable {α : Type}

/-- The place at which the halving of a window ends that begins at `base` and
has `size` places.  Each round looks at the element in the middle and keeps the
half that may still have the answer. -/
def narrow (cmp : α → Ordering) (l : List α) (base size : Nat) : Nat :=
  if h : 1 < size ∧ base + size / 2 < l.length then
    narrow cmp l (if cmp l[base + size / 2] = .gt then base else base + size / 2) (size - size / 2)
  else base
  termination_by size

/-- The place of an element that compares as equal, as a result; or as an error
the place where such an element would have to be put. -/
def find (cmp : α → Ordering) (l : List α) : Except Nat Nat :=
  let base := narrow cmp l 0 l.length
  match l[base]? with
  | none => .error 0
  | some x =>
    match cmp x with
    | .eq => .ok base
    | .lt => .error (base + 1)
    | .gt => .error base

/-- The number of elements in front of the first that fails a test. -/
def partitionPoint (test : α → Bool) (l : List α) : Nat :=
  match find (fun x => if test x then .lt else .gt) l with
  | .ok i => i
  | .error i => i

/-- Whether the smaller elements come first, then the equal ones and then the
greater ones.  This is all that a search needs of an order, and it is said of
the comparison with one element only. -/
def InOrder (cmp : α → Ordering) (l : List α) : Prop :=
  l.Pairwise fun x y => (cmp y = .lt → cmp x = .lt) ∧ (cmp x = .gt → cmp y = .gt)

/-- What a search knows of a window: the places behind it hold greater elements,
and its first place does not, unless the window has kept the place at which the
search began. -/
structure Narrows (cmp : α → Ordering) (l : List α) (base size : Nat) : Prop where
  size_pos : 0 < size
  le_length : base + size ≤ l.length
  first : base = 0 ∨ ∀ h : base < l.length, cmp l[base] ≠ .gt
  behind : ∀ j, base + size ≤ j → ∀ h : j < l.length, cmp l[j] = .gt

section

variable {cmp : α → Ordering} {l : List α} {base size i j : Nat}

theorem InOrder.lt_of_lt (h : InOrder cmp l) (hij : i ≤ j) (hj : j < l.length)
    (hlt : cmp l[j] = .lt) : cmp l[i] = .lt := by
  rcases Nat.eq_or_lt_of_le hij with rfl | hij
  · exact hlt
  · exact (List.pairwise_iff_getElem.mp h i j (by omega) hj hij).1 hlt

theorem InOrder.gt_of_gt (h : InOrder cmp l) (hij : i ≤ j) (hj : j < l.length)
    (hgt : cmp l[i] = .gt) : cmp l[j] = .gt := by
  rcases Nat.eq_or_lt_of_le hij with rfl | hij
  · exact hgt
  · exact (List.pairwise_iff_getElem.mp h i j (by omega) hj hij).2 hgt

/-- **Halving keeps what is known of a window**, and it ends with one place. -/
theorem Narrows.narrow (h : InOrder cmp l) (hw : Narrows cmp l base size) :
    Narrows cmp l (narrow cmp l base size) 1 := by
  fun_induction BinarySearch.narrow cmp l base size with
  | case1 base size hmid ih =>
    obtain ⟨hsize, hlt⟩ := hmid
    have hle := hw.le_length
    refine ih ⟨by omega, ?_, ?_, ?_⟩
    · split <;> omega
    · split
      · exact hw.first
      · exact .inr fun _ => by assumption
    · intro j hj hlength
      split at hj
      · exact h.gt_of_gt (show base + size / 2 ≤ j by omega) hlength (by assumption)
      · exact hw.behind j (by omega) hlength
  | case2 base size hmid =>
    have hpos := hw.size_pos
    have hle := hw.le_length
    obtain rfl : size = 1 := by
      have : ¬ 1 < size := fun hsize => hmid ⟨hsize, by omega⟩
      omega
    exact hw

/-- **What the two kinds of answers say**: at a place that is found stands an
equal element, and if none is found, the place tells the smaller elements from
the greater ones. -/
theorem find_spec (h : InOrder cmp l) :
    match find cmp l with
    | .ok i => ∃ x, l[i]? = some x ∧ cmp x = .eq
    | .error i => (∀ x ∈ l.take i, cmp x = .lt) ∧ ∀ x ∈ l.drop i, cmp x = .gt := by
  by_cases hl : l = []
  · subst hl
    simp [find]
  have hpos : 0 < l.length := List.length_pos_iff.mpr hl
  have hw : Narrows cmp l (narrow cmp l 0 l.length) 1 :=
    Narrows.narrow h ⟨hpos, by omega, .inl rfl, fun j hj hlength => by omega⟩
  generalize hbase : narrow cmp l 0 l.length = base at hw
  have hlt : base < l.length := hw.le_length
  simp only [find, hbase, List.getElem?_eq_getElem hlt]
  have htake : ∀ i, i ≤ l.length → (∀ j (hj : j < l.length), j < i → cmp l[j] = .lt) →
      ∀ x ∈ l.take i, cmp x = .lt := by
    intro i hi hbelow x hx
    obtain ⟨j, hj, rfl⟩ := List.mem_iff_getElem.mp hx
    rw [List.length_take] at hj
    simpa using hbelow j (by omega) (by omega)
  have hdrop : ∀ i, (∀ j (hj : j < l.length), i ≤ j → cmp l[j] = .gt) →
      ∀ x ∈ l.drop i, cmp x = .gt := by
    intro i hbehind x hx
    obtain ⟨j, hj, rfl⟩ := List.mem_iff_getElem.mp hx
    rw [List.length_drop] at hj
    simpa using hbehind (i + j) (by omega) (by omega)
  cases hcmp : cmp l[base] with
  | eq => exact ⟨_, List.getElem?_eq_getElem hlt, hcmp⟩
  | lt =>
    exact ⟨htake _ hlt fun j hj hle => h.lt_of_lt (by omega) hlt hcmp,
      hdrop _ fun j hj hle => hw.behind j hle hj⟩
  | gt =>
    obtain rfl : base = 0 := hw.first.resolve_right fun hne => hne hlt hcmp
    exact ⟨by simp, hdrop _ fun j hj hle => h.gt_of_gt hle hj hcmp⟩

/-- **An equal element is found just if there is one.** -/
theorem isOk_find_iff (h : InOrder cmp l) : (find cmp l).isOk = true ↔ ∃ x ∈ l, cmp x = .eq := by
  have hspec := find_spec h
  constructor
  · intro hok
    cases hfind : find cmp l with
    | ok i =>
      rw [hfind] at hspec
      obtain ⟨x, hx, heq⟩ := hspec
      exact ⟨x, List.mem_of_getElem? hx, heq⟩
    | error i =>
      rw [hfind] at hok
      cases hok
  · rintro ⟨x, hx, heq⟩
    cases hfind : find cmp l with
    | ok i => rfl
    | error i =>
      rw [hfind] at hspec
      rw [← List.take_append_drop i l] at hx
      rcases List.mem_append.mp hx with hx | hx
      · cases heq.symm.trans (hspec.1 x hx)
      · cases heq.symm.trans (hspec.2 x hx)

/-- **The partition point divides a list at the first element that fails the
test**, if all behind it fail it as well. -/
theorem partitionPoint_spec (test : α → Bool)
    (h : l.Pairwise fun x y => test y = true → test x = true) :
    (∀ x ∈ l.take (partitionPoint test l), test x = true) ∧
      ∀ x ∈ l.drop (partitionPoint test l), test x = false := by
  have horder : InOrder (fun x => if test x then .lt else .gt) l := by
    refine h.imp fun {x y} hxy => ?_
    cases hx : test x <;> cases hy : test y <;> simp_all
  have hspec := find_spec horder
  unfold partitionPoint
  cases hfind : find (fun x => if test x then .lt else .gt) l with
  | ok i =>
    rw [hfind] at hspec
    obtain ⟨x, -, heq⟩ := hspec
    split at heq <;> cases heq
  | error i =>
    rw [hfind] at hspec
    refine ⟨fun x hx => ?_, fun x hx => ?_⟩
    · have hlt := hspec.1 x hx
      cases htest : test x with
      | false => simp [htest] at hlt
      | true => rfl
    · have hgt := hspec.2 x hx
      cases htest : test x with
      | false => rfl
      | true => simp [htest] at hgt

end

end Regexp.BinarySearch
