import Regexp.CharSet

/-!
# Sets and their ranges

A set of characters is determined by its members, and its members are those of
its ranges.

Boundaries below a limit are determined by what lies inside
(`Boundary.eq_of_inside`): at the first boundary membership changes, so two
lists with the same members have the same first boundary, and then the same
rest.  For sets this is `CharSet.ext`, and it is why equations between sets can
be shown member by member.

The ranges of a set are read off two boundaries at a time (`CharSet.rangesOf`),
where a last one may be missing its partner, if the set goes up to the last
character.  `CharSet.contains_iff_ranges` says that nothing is lost on the way,
and `CharSet.foldl_union_ranges` that the set can be built from them again, as
it is when its text is read.

## Main statements

* `Boundary.eq_of_inside` — boundaries are determined by what lies inside.
* `CharSet.ext` — a set is determined by its members.
* `CharSet.contains_iff_ranges` — the members of a set are those of its ranges.
* `CharSet.foldl_union_ranges` — a set is the union of its ranges.
-/

namespace Regexp

/-! ### Boundaries -/

namespace Boundary

variable {b b' n limit : Nat} {l l' : List Nat}

theorem inside_cons_of_lt (h : Ascending (b :: l)) (hn : n < b) : inside (b :: l) n = false :=
  inside_eq_false fun c hc => by
    rcases List.mem_cons.mp hc with rfl | hc
    · exact hn
    · exact Nat.lt_trans hn ((List.pairwise_cons.mp h).1 c hc)

/-- The first boundary lies inside. -/
theorem inside_cons_self (h : Ascending (b :: l)) : inside (b :: l) b = true := by
  rw [inside, inside_eq_false (List.pairwise_cons.mp h).1]
  simp

/-- **Boundaries below a limit are determined by what lies inside.**  Of two
lists that differ, the first boundary at which they do lies inside for one and
not for the other. -/
theorem eq_of_inside (h : Ascending l) (h' : Ascending l') (hl : ∀ c ∈ l, c < limit)
    (hl' : ∀ c ∈ l', c < limit) (heq : ∀ n < limit, inside l n = inside l' n) : l = l' := by
  induction l generalizing l' with
  | nil =>
    cases l' with
    | nil => rfl
    | cons b' l' =>
      have := heq b' (hl' b' List.mem_cons_self)
      rw [inside_cons_self h'] at this
      cases this
  | cons b l ih =>
    cases l' with
    | nil =>
      have := heq b (hl b List.mem_cons_self)
      rw [inside_cons_self h] at this
      cases this
    | cons b' l' =>
      have hb := heq b (hl b List.mem_cons_self)
      have hb' := heq b' (hl' b' List.mem_cons_self)
      rw [inside_cons_self h] at hb
      rw [inside_cons_self h'] at hb'
      obtain rfl : b = b' := by
        rcases Nat.lt_trichotomy b b' with hlt | rfl | hlt
        · rw [inside_cons_of_lt h' hlt] at hb
          cases hb
        · rfl
        · rw [inside_cons_of_lt h hlt] at hb'
          cases hb'
      have htail : l = l' := by
        refine ih (List.pairwise_cons.mp h).2 (List.pairwise_cons.mp h').2
          (fun c hc => hl c (List.mem_cons_of_mem _ hc))
          (fun c hc => hl' c (List.mem_cons_of_mem _ hc)) fun n hn => ?_
        have := heq n hn
        simpa [inside] using this
      rw [htail]

end Boundary

namespace CharSet

variable {s t : CharSet} {c : Char} {l : List Nat}

/-- **A set is determined by its members.** -/
theorem ext (h : ∀ c, s.contains c = t.contains c) : s = t := by
  have hbounds : s.bounds.toList = t.bounds.toList := by
    refine Boundary.eq_of_inside s.ascending t.ascending s.bounded t.bounded fun n hn => ?_
    have := h (Char.ofOrdinal ⟨n, hn⟩)
    rwa [contains_eq_inside, contains_eq_inside, Char.ordinal_ofOrdinal] at this
  cases s
  cases t
  simpa using hbounds

/-! ### Ranges -/

theorem ordinal_charAt {n : Nat} (h : n < Char.numCodePoints) : (charAt n).ordinal.val = n := by
  rw [charAt, dif_pos h, Char.ordinal_ofOrdinal]

/-- The ends of the range between two numbers of characters in order. -/
theorem ordinal_ofEnds_charAt {m n : Nat} (hmn : m ≤ n) (hn : n < Char.numCodePoints) :
    (CharRange.ofEnds (charAt m) (charAt n)).first.ordinal.val = m ∧
      (CharRange.ofEnds (charAt m) (charAt n)).last.ordinal.val = n := by
  have hm := ordinal_charAt (Nat.lt_of_le_of_lt hmn hn)
  replace hn := ordinal_charAt hn
  have hle : charAt m ≤ charAt n := by
    rw [Char.le_iff_ordinal_le, Fin.le_def, hm, hn]
    exact hmn
  rw [CharRange.ofEnds, dif_pos hle]
  exact ⟨hm, hn⟩

/-- Whether a character lies in the range between two numbers of characters in
order. -/
theorem mem_ofEnds_charAt {m n : Nat} (hmn : m ≤ n) (hn : n < Char.numCodePoints) :
    ((CharRange.ofEnds (charAt m) (charAt n)).first ≤ c ∧
      c ≤ (CharRange.ofEnds (charAt m) (charAt n)).last) ↔
      m ≤ c.ordinal.val ∧ c.ordinal.val ≤ n := by
  obtain ⟨hfirst, hlast⟩ := ordinal_ofEnds_charAt hmn hn
  simp only [Char.le_iff_ordinal_le, Fin.le_def, hfirst, hlast]

/-- What lies inside lies in one of the ranges. -/
theorem inside_iff_rangesOf (h : Boundary.Ascending l) (hl : ∀ b ∈ l, b < Char.numCodePoints) :
    Boundary.inside l c.ordinal.val = true ↔ ∃ r ∈ rangesOf l, r.first ≤ c ∧ c ≤ r.last := by
  fun_induction rangesOf l with
  | case1 => simp [Boundary.inside]
  | case2 a =>
    have ha := hl a List.mem_cons_self
    have hc := c.ordinal.isLt
    have hlast : charAt Char.numCodePoints = charAt (Char.numCodePoints - 1) := by decide
    rw [hlast]
    simp only [List.mem_singleton, exists_eq_left, Boundary.inside, Bool.bne_false,
      decide_eq_true_iff]
    rw [mem_ofEnds_charAt (by omega) (by omega)]
    omega
  | case3 a b rest ih =>
    have ha := hl a List.mem_cons_self
    have hb := hl b (List.mem_cons_of_mem _ List.mem_cons_self)
    obtain ⟨hafter, hrest⟩ := List.pairwise_cons.mp h
    have hab := hafter b List.mem_cons_self
    have hrest' := (List.pairwise_cons.mp hrest).2
    have htail := ih hrest' fun d hd =>
      hl d (List.mem_cons_of_mem _ (List.mem_cons_of_mem _ hd))
    simp only [List.mem_cons, exists_eq_or_imp, ← htail]
    rw [mem_ofEnds_charAt (by omega) (by omega)]
    by_cases hcb : c.ordinal.val < b
    · -- Before the second boundary nothing else is inside.
      have hnone : Boundary.inside rest c.ordinal.val = false := Boundary.inside_eq_false
        fun d hd => Nat.lt_trans hcb ((List.pairwise_cons.mp hrest).1 d hd)
      simp only [Boundary.inside, hnone, Nat.not_le.mpr hcb]
      simp
      omega
    · have hca : a ≤ c.ordinal.val := by omega
      have hcb : b ≤ c.ordinal.val := by omega
      simp only [Boundary.inside, hca, hcb]
      simp
      omega

/-- **The members of a set are those of its ranges.** -/
theorem contains_iff_ranges : s.contains c = true ↔ ∃ r ∈ s.ranges, r.first ≤ c ∧ c ≤ r.last := by
  rw [contains_eq_inside, inside_iff_rangesOf s.ascending s.bounded]
  rfl

theorem contains_foldl_union (rs : List CharRange) :
    (rs.foldl (fun t r => t.union (ofRange r)) s).contains c = true ↔
      s.contains c = true ∨ ∃ r ∈ rs, r.first ≤ c ∧ c ≤ r.last := by
  induction rs generalizing s with
  | nil => simp
  | cons r rs ih =>
    rw [List.foldl_cons, ih, contains_union, contains_ofRange]
    simp [or_assoc]

/-- **A set is the union of its ranges**, added one after the other.  This is
how a class is read from its text. -/
theorem foldl_union_ranges (s : CharSet) :
    s.ranges.foldl (fun t r => t.union (ofRange r)) empty = s := by
  refine ext fun c => ?_
  rw [Bool.eq_iff_iff, contains_foldl_union, contains_empty, ← contains_iff_ranges]
  exact or_iff_right Bool.false_ne_true

theorem contains_of_isEmpty (h : s.isEmpty = true) (c : Char) : s.contains c = false := by
  rw [isEmpty, ← Array.isEmpty_toList, List.isEmpty_iff] at h
  rw [contains_eq_inside, h]
  rfl

/-- A set with members has ranges. -/
theorem ranges_ne_nil (h : s.isEmpty = false) : s.ranges ≠ [] := by
  rw [isEmpty, ← Array.isEmpty_toList] at h
  rw [ranges]
  cases hbounds : s.bounds.toList with
  | nil => simp [hbounds] at h
  | cons b rest => cases rest <;> simp [rangesOf]

end CharSet

theorem CharRange.ofEnds_first_last (r : CharRange) : ofEnds r.first r.last = r := by
  rw [ofEnds, dif_pos r.first_le_last]

end Regexp
