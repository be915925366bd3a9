/-!
# Boundary lists

A set of numbers that is a finite union of intervals is described by the numbers
at which membership changes, in ascending order: the numbers below the first
boundary are outside, those from the first up to the second are inside, and so
on (`Boundary.inside`).  This module has the algorithms on such lists and their
correctness, without any mention of characters.

## Combining two lists

`Boundary.combine` makes the boundaries of a Boolean combination in one pass
over both lists.  It carries along whether the current number is in either set,
and writes down a boundary only where the combined membership changes
(`Boundary.emit`), so that its result has no boundary too many.  The Boolean
function is a parameter; what it does to numbers that are in neither set is
settled by the caller, because a boundary at the very beginning would have to be
added otherwise.

Both the order and the members of the result come from one observation about a
step of the pass.  `Boundary.Passes` relates a list with what is left of it once
the walk has passed a number: either the number was its first boundary, and
membership has changed, or all its boundaries come later.  A step passes the
smaller of two first boundaries on both lists at once, and
`Boundary.Passes.xor_inside` and `Boundary.Passes.inside_eq_false` say what this
does to membership from that number on and before it.

## Membership by parity

`Boundary.inside` is defined by recursion on the list.  What is run is a binary
search for the number of boundaries up to a number, `Boundary.countLe`: a number
is inside if and only if that count is odd.

## Main definitions

* `Boundary.inside` — membership of a number.
* `Boundary.combine`, `Boundary.complement` — the boundaries of Boolean
  combinations.
* `Boundary.ofRuns` — the boundaries at given distances, which is how tables are
  written down.
* `Boundary.countLe` — the number of boundaries up to a number, by binary
  search.

## Main statements

* `Boundary.ascending_combine`, `Boundary.inside_combine` — a combination is in
  order and has the members that the Boolean function says.
* `Boundary.inside_complement` — the complement has the other members.
* `Boundary.inside_eq_countLe` — membership is the parity of the count.
-/

namespace Regexp.Boundary

/-- Ascending lists of numbers, each number once. -/
abbrev Ascending (l : List Nat) : Prop := l.Pairwise (· < ·)

/-- Whether a number lies in the set that a list of boundaries describes: each
boundary up to the number changes the answer. -/
def inside : List Nat → Nat → Bool
  | [], _ => false
  | b :: bs, n => xor (decide (b ≤ n)) (inside bs n)

/-- A boundary in front of others, left out if membership does not change there.
So combined lists have no boundaries at which nothing changes. -/
def emit (before after : Bool) (b : Nat) (rest : List Nat) : List Nat :=
  if before = after then rest else b :: rest

/-- The boundaries of a Boolean combination of two sets from a point on at which
membership in the two sets is `p` and `q`.  The smaller one of the two first
boundaries comes next, and both are passed if they are equal. -/
def combine (f : Bool → Bool → Bool) (p q : Bool) : List Nat → List Nat → List Nat
  | [], [] => []
  | x :: xs, [] => emit (f p q) (f (!p) q) x (combine f (!p) q xs [])
  | [], y :: ys => emit (f p q) (f p (!q)) y (combine f p (!q) [] ys)
  | x :: xs, y :: ys =>
    if x < y then emit (f p q) (f (!p) q) x (combine f (!p) q xs (y :: ys))
    else if y < x then emit (f p q) (f p (!q)) y (combine f p (!q) (x :: xs) ys)
    else emit (f p q) (f (!p) (!q)) x (combine f (!p) (!q) xs ys)
  termination_by xs ys => xs.length + ys.length

/-- The boundaries of the complement.  Only whether zero is a member has to
change. -/
def complement : List Nat → List Nat
  | 0 :: bs => bs
  | bs => 0 :: bs

/-- The boundaries below `limit` that lie at the given distances, each measured
from the number after the boundary before it. -/
def ofRuns (limit : Nat) : Nat → List Nat → List Nat
  | _, [] => []
  | start, r :: rs =>
    if start + r < limit then (start + r) :: ofRuns limit (start + r + 1) rs else []

/-! ### Passing a boundary -/

/-- Whether a list of boundaries with membership `p` in front of it is left as
`xs'`, with membership `p'` in front of it, once a walk passes the number `b`:
either `b` is its first boundary, or all of them come later. -/
inductive Passes (b : Nat) : Bool → List Nat → Bool → List Nat → Prop
  | take {p : Bool} {xs : List Nat} (h : Ascending (b :: xs)) : Passes b p (b :: xs) (!p) xs
  | keep {p : Bool} {xs : List Nat} (h : ∀ z ∈ xs, b < z) : Passes b p xs p xs

/-- A list that begins with a later boundary is left alone, and what is known of
membership stays. -/
theorem Passes.of_lt {b x : Nat} {p : Bool} {xs : List Nat} (h : Ascending (x :: xs))
    (hb : b < x) : Passes b p (x :: xs) p (x :: xs) := by
  refine .keep fun z hz => ?_
  rcases List.mem_cons.mp hz with rfl | hz
  · exact hb
  · exact Nat.lt_trans hb ((List.pairwise_cons.mp h).1 z hz)

theorem Passes.nil {b : Nat} {p : Bool} : Passes b p [] p [] := .keep nofun

/-- What is left comes after the number that was passed. -/
theorem Passes.lt {b z : Nat} {p p' : Bool} {xs xs' : List Nat} (h : Passes b p xs p' xs')
    (hz : z ∈ xs') : b < z := by
  cases h with
  | take h => exact (List.pairwise_cons.mp h).1 z hz
  | keep h => exact h z hz

theorem inside_eq_false {l : List Nat} {n : Nat} (h : ∀ b ∈ l, n < b) : inside l n = false := by
  induction l with
  | nil => rfl
  | cons b bs ih =>
    have hb := h b (by simp)
    simp [inside, ih fun z hz => h z (by simp [hz]), Nat.not_le.mpr hb]

/-- Neither the boundaries nor what is left of them have members below. -/
theorem Passes.inside_eq_false {b n : Nat} {p p' : Bool} {xs xs' : List Nat}
    (h : Passes b p xs p' xs') (hn : n < b) : inside xs n = false ∧ inside xs' n = false := by
  have hleft : inside xs' n = false :=
    Boundary.inside_eq_false fun z hz => Nat.lt_trans hn (h.lt hz)
  cases h with
  | take => exact ⟨by simp [inside, hleft, Nat.not_le.mpr hn], hleft⟩
  | keep => exact ⟨hleft, hleft⟩

/-- From the number on, what is left has the same members. -/
theorem Passes.xor_inside {b n : Nat} {p p' : Bool} {xs xs' : List Nat}
    (h : Passes b p xs p' xs') (hn : b ≤ n) : xor p' (inside xs' n) = xor p (inside xs n) := by
  cases h with
  | take => simp [inside, hn]
  | keep => rfl

/-! ### Order -/

theorem mem_emit {p q : Bool} {b z : Nat} {rest : List Nat} (h : z ∈ emit p q b rest) :
    z = b ∨ z ∈ rest := by
  unfold emit at h
  split at h
  · exact .inr h
  · simpa using h

theorem mem_combine {f : Bool → Bool → Bool} {p q : Bool} {xs ys : List Nat} {z : Nat}
    (h : z ∈ combine f p q xs ys) : z ∈ xs ∨ z ∈ ys := by
  fun_induction combine f p q xs ys with
  | case1 => simp at h
  | case2 p q x xs ih =>
    rcases mem_emit h with rfl | h
    · simp
    · rcases ih h with h | h <;> simp_all
  | case3 p q y ys ih =>
    rcases mem_emit h with rfl | h
    · simp
    · rcases ih h with h | h <;> simp_all
  | case4 p q x xs y ys hxy ih =>
    rcases mem_emit h with rfl | h
    · simp
    · rcases ih h with h | h <;> simp_all
  | case5 p q x xs y ys hxy hyx ih =>
    rcases mem_emit h with rfl | h
    · simp
    · rcases ih h with h | h <;> simp_all
  | case6 p q x xs y ys hxy hyx ih =>
    rcases mem_emit h with rfl | h
    · simp
    · rcases ih h with h | h <;> simp_all

theorem ascending_emit {p q : Bool} {b : Nat} {rest : List Nat} (hrest : Ascending rest)
    (hb : ∀ z ∈ rest, b < z) : Ascending (emit p q b rest) := by
  unfold emit
  split
  · exact hrest
  · exact List.pairwise_cons.mpr ⟨hb, hrest⟩

/-- What is combined once a number is passed comes after it.  So the lists that
are made ascend. -/
theorem lt_of_mem_combine {f : Bool → Bool → Bool} {b z : Nat} {p q p' q' : Bool}
    {xs ys xs' ys' : List Nat} (hx : Passes b p xs p' xs') (hy : Passes b q ys q' ys')
    (hz : z ∈ combine f p' q' xs' ys') : b < z :=
  (mem_combine hz).elim hx.lt hy.lt

theorem ascending_combine {f : Bool → Bool → Bool} {p q : Bool} {xs ys : List Nat}
    (hx : Ascending xs) (hy : Ascending ys) : Ascending (combine f p q xs ys) := by
  fun_induction combine f p q xs ys with
  | case1 => exact hx
  | case2 p q x xs ih =>
    exact ascending_emit (ih hx.of_cons hy) fun _ => lt_of_mem_combine (.take hx) (.nil (p := q))
  | case3 p q y ys ih =>
    exact ascending_emit (ih hx hy.of_cons) fun _ => lt_of_mem_combine (.nil (p := p)) (.take hy)
  | case4 p q x xs y ys hxy ih =>
    exact ascending_emit (ih hx.of_cons hy) fun _ => lt_of_mem_combine (.take hx) (.of_lt hy hxy)
  | case5 p q x xs y ys hxy hyx ih =>
    exact ascending_emit (ih hx hy.of_cons) fun _ => lt_of_mem_combine (.of_lt hx hyx) (.take hy)
  | case6 p q x xs y ys hxy hyx ih =>
    obtain rfl : x = y := by omega
    exact ascending_emit (ih hx.of_cons hy.of_cons) fun _ => lt_of_mem_combine (.take hx) (.take hy)

theorem mem_complement {l : List Nat} {z : Nat} (h : z ∈ complement l) : z = 0 ∨ z ∈ l := by
  unfold complement at h
  split at h
  · exact .inr (List.mem_cons_of_mem _ h)
  · simpa using h

theorem ascending_complement {l : List Nat} (h : Ascending l) : Ascending (complement l) := by
  unfold complement
  split
  · exact (List.pairwise_cons.mp h).2
  · rename_i hne
    refine List.pairwise_cons.mpr ⟨fun z hz => ?_, h⟩
    match l, hne, h, hz with
    | b :: bs, hne, h, hz =>
      have hb : b ≠ 0 := fun h0 => hne bs (by rw [h0])
      rcases List.mem_cons.mp hz with rfl | hz
      · omega
      · have := (List.pairwise_cons.mp h).1 z hz
        omega

theorem mem_ofRuns {limit start : Nat} {rs : List Nat} {z : Nat} (h : z ∈ ofRuns limit start rs) :
    start ≤ z ∧ z < limit := by
  fun_induction ofRuns limit start rs with
  | case1 => simp at h
  | case2 start r rs hlt ih =>
    rcases List.mem_cons.mp h with rfl | h
    · omega
    · have := ih h
      omega
  | case3 => simp at h

theorem ascending_ofRuns (limit start : Nat) (rs : List Nat) :
    Ascending (ofRuns limit start rs) := by
  fun_induction ofRuns limit start rs with
  | case1 => exact List.Pairwise.nil
  | case2 start r rs hlt ih =>
    refine List.pairwise_cons.mpr ⟨fun z hz => ?_, ih⟩
    have := mem_ofRuns hz
    omega
  | case3 => exact List.Pairwise.nil

/-! ### Membership -/

theorem inside_emit (p q : Bool) (b : Nat) (rest : List Nat) (n : Nat) :
    inside (emit p q b rest) n = xor (xor p q && decide (b ≤ n)) (inside rest n) := by
  unfold emit
  cases p <;> cases q <;> simp [inside]

/-- A step of a combination has the right members if what follows it has. -/
theorem inside_emit_of_passes {f : Bool → Bool → Bool} {b n : Nat} {p q p' q' : Bool}
    {xs ys xs' ys' rest : List Nat} (hx : Passes b p xs p' xs') (hy : Passes b q ys q' ys')
    (h : inside rest n = xor (f p' q') (f (xor p' (inside xs' n)) (xor q' (inside ys' n)))) :
    inside (emit (f p q) (f p' q') b rest) n =
      xor (f p q) (f (xor p (inside xs n)) (xor q (inside ys n))) := by
  rw [inside_emit, h]
  by_cases hn : b ≤ n
  · rw [hx.xor_inside hn, hy.xor_inside hn, decide_eq_true hn, Bool.and_true, Bool.xor_assoc,
      ← Bool.xor_assoc (f p' q'), Bool.xor_self, Bool.false_xor]
  · obtain ⟨hxs, hxs'⟩ := hx.inside_eq_false (Nat.not_le.mp hn)
    obtain ⟨hys, hys'⟩ := hy.inside_eq_false (Nat.not_le.mp hn)
    simp [hn, hxs, hxs', hys, hys']

/-- A combination has the members that the Boolean function says.  The flags
tell whether numbers below all boundaries are members. -/
theorem inside_combine {f : Bool → Bool → Bool} {p q : Bool} {xs ys : List Nat} (n : Nat)
    (hx : Ascending xs) (hy : Ascending ys) :
    inside (combine f p q xs ys) n =
      xor (f p q) (f (xor p (inside xs n)) (xor q (inside ys n))) := by
  fun_induction combine f p q xs ys with
  | case1 => simp [inside]
  | case2 p q x xs ih => exact inside_emit_of_passes (.take hx) .nil (ih hx.of_cons hy)
  | case3 p q y ys ih => exact inside_emit_of_passes .nil (.take hy) (ih hx hy.of_cons)
  | case4 p q x xs y ys hxy ih =>
    exact inside_emit_of_passes (.take hx) (.of_lt hy hxy) (ih hx.of_cons hy)
  | case5 p q x xs y ys hxy hyx ih =>
    exact inside_emit_of_passes (.of_lt hx hyx) (.take hy) (ih hx hy.of_cons)
  | case6 p q x xs y ys hxy hyx ih =>
    obtain rfl : x = y := by omega
    exact inside_emit_of_passes (.take hx) (.take hy) (ih hx.of_cons hy.of_cons)

theorem inside_complement (l : List Nat) (n : Nat) : inside (complement l) n = !inside l n := by
  unfold complement
  split <;> simp [inside]

/-! ### Binary search -/

/-- The number of boundaries up to `n`, given that it lies between `lo` and
`hi`.  The window is halved until it is empty. -/
def countBetween (bounds : Array Nat) (n lo hi : Nat) : Nat :=
  if h : lo < hi ∧ (lo + hi) / 2 < bounds.size then
    if bounds[(lo + hi) / 2] ≤ n then countBetween bounds n ((lo + hi) / 2 + 1) hi
    else countBetween bounds n lo ((lo + hi) / 2)
  else lo
  termination_by hi - lo

/-- The number of boundaries up to `n`, found by halving. -/
def countLe (bounds : Array Nat) (n : Nat) : Nat := countBetween bounds n 0 bounds.size

/-- The number of boundaries up to `n`, by a walk over all of them. -/
def countLeList (l : List Nat) (n : Nat) : Nat := l.countP (· ≤ n)

theorem inside_eq_odd (l : List Nat) (n : Nat) :
    inside l n = (countLeList l n % 2 == 1) := by
  induction l with
  | nil => rfl
  | cons b bs ih =>
    unfold countLeList at ih ⊢
    simp only [inside, ih, List.countP_cons]
    by_cases hb : b ≤ n
    · have : (bs.countP (· ≤ n) + 1) % 2 = 1 - bs.countP (· ≤ n) % 2 := by omega
      simp only [hb, decide_true, Bool.true_bne, ↓reduceIte, this]
      rcases Nat.mod_two_eq_zero_or_one (bs.countP (· ≤ n)) with h | h <;> simp [h]
    · simp [hb]

theorem countLeList_eq_of_split {l : List Nat} {n k : Nat} (hk : k ≤ l.length)
    (hle : ∀ i (h : i < l.length), i < k → l[i] ≤ n)
    (hgt : ∀ i (h : i < l.length), k ≤ i → n < l[i]) : countLeList l n = k := by
  unfold countLeList
  rw [← List.take_append_drop k l, List.countP_append]
  have h1 : (l.take k).countP (· ≤ n) = k := by
    rw [List.countP_eq_length.mpr]
    · simp [hk]
    · intro a ha
      obtain ⟨i, hi, rfl⟩ := List.mem_iff_getElem.mp ha
      simp only [List.length_take] at hi
      simpa using hle i (by omega) (by omega)
  have h2 : (l.drop k).countP (· ≤ n) = 0 := by
    rw [List.countP_eq_zero]
    intro a ha
    obtain ⟨i, hi, rfl⟩ := List.mem_iff_getElem.mp ha
    simp only [List.length_drop] at hi
    have := hgt (k + i) (by omega) (by omega)
    simp only [List.getElem_drop, decide_eq_true_eq]
    omega
  omega

theorem countBetween_eq {bounds : Array Nat} {n lo hi : Nat} (hs : Ascending bounds.toList)
    (hlo : lo ≤ hi) (hhi : hi ≤ bounds.size)
    (hle : ∀ i (h : i < bounds.size), i < lo → bounds[i] ≤ n)
    (hgt : ∀ i (h : i < bounds.size), hi ≤ i → n < bounds[i]) :
    countBetween bounds n lo hi = countLeList bounds.toList n := by
  have hmono : ∀ i j (hi : i < bounds.size) (hj : j < bounds.size), i < j →
      bounds[i] < bounds[j] := fun i j hi hj hij => by
    have := List.pairwise_iff_getElem.mp hs i j (by simpa using hi) (by simpa using hj) hij
    simpa using this
  fun_induction countBetween bounds n lo hi with
  | case1 lo hi h hmid ih =>
    refine ih (by omega) hhi (fun i hi' hlt => ?_) hgt
    by_cases he : i = (lo + hi) / 2
    · subst he
      exact hmid
    · exact Nat.le_trans (Nat.le_of_lt (hmono i _ hi' h.2 (by omega))) hmid
  | case2 lo hi h hmid ih =>
    refine ih (by omega) (by omega) hle fun i hi' hge => ?_
    by_cases he : i = (lo + hi) / 2
    · subst he
      omega
    · have := hmono _ i h.2 hi' (by omega)
      omega
  | case3 lo hi h =>
    have hlohi : lo = hi := by
      have : ¬ lo < hi := fun hlt => h ⟨hlt, by omega⟩
      omega
    subst hlohi
    refine (countLeList_eq_of_split (by simpa using hhi) (fun i h' hlt => ?_)
      fun i h' hge => ?_).symm
    · simpa using hle i (by simpa using h') hlt
    · simpa using hgt i (by simpa using h') hge

/-- Membership is the parity of the number of boundaries up to a number, so that
a binary search decides it. -/
theorem inside_eq_countLe {bounds : Array Nat} (hs : Ascending bounds.toList) (n : Nat) :
    inside bounds.toList n = (countLe bounds n % 2 == 1) := by
  rw [inside_eq_odd, countLe, countBetween_eq hs (Nat.zero_le _) (Nat.le_refl _)]
  · intro i _ h
    omega
  · intro i h h'
    omega

end Regexp.Boundary
