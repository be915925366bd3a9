import Mathlib.Order.Basic
import Regexp.CharSet.Fold

/-!
# Case folding

The representative of a character stands for itself, and a folded set has just
the characters whose representative is that of a member.

Both facts are about tables.  The representative of a character is the lower
case form of its upper case form, and that this is its own representative has to
be looked up: upper case forms and lower case forms are not inverse to each
other, and some characters have a lower case form whose upper case form is
another character.  There are too many characters to look at one by one, so the
tables are settled run by run.

The images of a run are evenly spaced, like the run itself, and `Case.shiftOver`
compares such a sequence of code points with the runs of a table all at once: it
gives the one distance at which all of them have their images, if there is one.
`Case.settled` uses it to see that none of them has other forms, or that the two
mappings cancel each other, and `Case.Run.settles` asks this of the images of a
run.  What remains is one evaluation for each table, over a few hundred runs,
and the soundness of the test.

For a folded set it matters in addition that the list of variants has every
character that is not its own representative (`Case.mem_variants`), since the
two passes over it are all that adds members.

## Main definitions

* `Case.shiftOver` — the one distance at which evenly spaced code points have
  their images.
* `Case.settled` — evenly spaced code points that are plainly their own
  representatives.

## Main statements

* `Case.foldKey_foldKey` — representatives are their own representatives.
* `Case.eqFold_iff` — characters are the same up to case if they have one
  representative.
* `CharSet.contains_caseFold` — the members of a folded set.
-/

namespace Regexp.Case

/-- The code point to which runs map a code point, which is the code point
itself if no run has it. -/
def imageOf (runs : List Run) (n : ℕ) : ℕ :=
  match shiftOf? runs n with
  | some shift => (n + shift).toNat
  | none => n

/-- The code point of the representative of a character: the lower case form of
its upper case form. -/
def foldOf (n : ℕ) : ℕ := imageOf lowerRuns (imageOf upperRuns n)

/-- Whether a code point belongs to a run. -/
def Run.Has (r : Run) (n : ℕ) : Prop := r.first ≤ n ∧ n ≤ r.last ∧ (n - r.first) % r.step = 0

theorem exists_run_of_shiftOf? {runs : List Run} {n : ℕ} {shift : Int}
    (h : shiftOf? runs n = some shift) : ∃ r ∈ runs, r.Has n ∧ r.shift = shift := by
  induction runs with
  | nil => cases h
  | cons r rs ih =>
    rw [shiftOf?] at h
    split at h
    · cases h
    · split at h
      · split at h
        · exact ⟨r, List.mem_cons_self, ⟨by omega, by omega, by assumption⟩, Option.some.inj h⟩
        · cases h
      · obtain ⟨r', hr', hhas⟩ := ih h
        exact ⟨r', List.mem_cons_of_mem _ hr', hhas⟩

/-- The distance of the images of the code points `lo`, `lo + step`, and so on
up to `hi`, if it is the same for all of them.  It is found out for a whole run
at once, since code points one by one would be too many to compute with. -/
def shiftOver (lo hi step : ℕ) : List Run → Option (Option Int)
  | [] => some none
  | r :: rs =>
    bif Nat.blt hi r.first then some none
    else bif Nat.ble r.first lo && Nat.blt r.last lo then shiftOver lo hi step rs
    else bif Nat.ble r.first lo && Nat.ble hi r.last &&
        (Nat.beq (step % r.step) 0 || Nat.beq lo hi) then
      some (bif Nat.beq ((lo - r.first) % r.step) 0 then some r.shift else none)
    else none

theorem shiftOver_cons (lo hi step : ℕ) (r : Run) (rs : List Run) :
    shiftOver lo hi step (r :: rs) =
      if hi < r.first then some none
      else if r.first ≤ lo ∧ r.last < lo then shiftOver lo hi step rs
      else if (r.first ≤ lo ∧ hi ≤ r.last) ∧ (step % r.step = 0 ∨ lo = hi) then
        some (if (lo - r.first) % r.step = 0 then some r.shift else none)
      else none := by
  simp only [shiftOver, cond_eq_ite, Nat.blt_eq, Nat.ble_eq, Nat.beq_eq, Bool.and_eq_true,
    Bool.or_eq_true]

theorem shiftOf?_of_shiftOver {lo hi step n : ℕ} {runs : List Run} {shift : Option Int}
    (h : shiftOver lo hi step runs = some shift) (hlo : lo ≤ n) (hhi : n ≤ hi)
    (hn : (n - lo) % step = 0) : shiftOf? runs n = shift := by
  induction runs with
  | nil => exact Option.some.inj h
  | cons r rs ih =>
    rw [shiftOver_cons] at h
    rw [shiftOf?]
    split at h
    · rw [if_pos (by omega)]
      exact Option.some.inj h
    · split at h
      · rw [if_neg (by omega), if_neg (by omega)]
        exact ih h
      · split at h
        · rename_i hin
          obtain ⟨⟨hfirst, hlast⟩, hstep⟩ := hin
          rw [if_neg (by omega), if_pos (by omega)]
          have hmod : (n - r.first) % r.step = (lo - r.first) % r.step := by
            rcases hstep with hstep | rfl
            · obtain ⟨q, hq⟩ := Nat.dvd_of_mod_eq_zero hstep
              obtain ⟨i, hi⟩ := Nat.dvd_of_mod_eq_zero hn
              have : n - r.first = (lo - r.first) + r.step * (q * i) := by
                rw [← Nat.mul_assoc, ← hq, ← hi]
                omega
              rw [this, Nat.add_mul_mod_self_left]
            · rw [show n = lo by omega]
          rw [hmod]
          exact Option.some.inj h
        · cases h

/-! ### Representatives -/

/-- The code point at a distance. -/
def shiftBy (n : ℕ) (shift : Int) : ℕ := (n + shift).toNat

/-- Whether it is plain that each of the code points `lo`, `lo + step`, and so
on up to `hi` is its own representative: none of them has an upper case form or
a lower case form, or the lower case form of the upper case form is at the
opposite distance. -/
def settled (lo hi step : ℕ) : Bool :=
  match shiftOver lo hi step upperRuns with
  | some none => shiftOver lo hi step lowerRuns = some none
  | some (some shift) =>
    0 ≤ lo + shift ∧
      shiftOver (shiftBy lo shift) (shiftBy hi shift) step lowerRuns = some (some (-shift))
  | none => false

theorem foldOf_of_settled {lo hi step n : ℕ} (h : settled lo hi step = true) (hlo : lo ≤ n)
    (hhi : n ≤ hi) (hn : (n - lo) % step = 0) : foldOf n = n := by
  rw [settled] at h
  split at h
  · rename_i hupper
    have hlower := of_decide_eq_true h
    have hupper := shiftOf?_of_shiftOver hupper hlo hhi hn
    have hlower := shiftOf?_of_shiftOver hlower hlo hhi hn
    simp only [foldOf, imageOf, hupper, hlower]
  · rename_i shift hupper
    obtain ⟨hpos, hlower⟩ := of_decide_eq_true h
    have hupper := shiftOf?_of_shiftOver hupper hlo hhi hn
    have hlower := shiftOf?_of_shiftOver (n := (n + shift).toNat) hlower
      (by simp only [shiftBy]; omega) (by simp only [shiftBy]; omega)
      (by rw [← hn]; congr 1; simp only [shiftBy]; omega)
    simp only [foldOf, imageOf, hupper, hlower]
    omega
  · cases h

/-- Whether the images of a run are plainly their own representatives, where the
first one may be told apart from the others. -/
def Run.settles (r : Run) : Bool :=
  let lo := shiftBy r.first r.shift
  let hi := shiftBy r.last r.shift
  0 ≤ r.first + r.shift && (settled lo hi r.step ||
    (settled lo lo r.step && settled (lo + r.step) hi r.step))

/-- Whether the images of a run are plainly not changed by the upper case
mapping, if they have no lower case form. -/
def Run.staysUpper (r : Run) : Bool :=
  let lo := shiftBy r.first r.shift
  let hi := shiftBy r.last r.shift
  0 ≤ r.first + r.shift && (shiftOver lo hi r.step upperRuns = some none ||
    (match shiftOver lo hi r.step lowerRuns with
      | some (some _) => true
      | _ => false))

theorem lowerRuns_settle : lowerRuns.all Run.settles = true := by decide +kernel

theorem upperRuns_stay : upperRuns.all Run.staysUpper = true := by decide +kernel

theorem foldOf_shiftBy {r : Run} (hr : r ∈ lowerRuns) {n : ℕ} (hn : r.Has n) :
    foldOf (shiftBy n r.shift) = shiftBy n r.shift := by
  have h := List.all_eq_true.mp lowerRuns_settle r hr
  obtain ⟨hfirst, hlast, hstep⟩ := hn
  simp only [Run.settles, Bool.and_eq_true, Bool.or_eq_true, decide_eq_true_iff] at h
  obtain ⟨hpos, h | ⟨h, h'⟩⟩ := h
  · refine foldOf_of_settled h (by simp only [shiftBy]; omega) (by simp only [shiftBy]; omega) ?_
    rw [← hstep]
    congr 1
    simp only [shiftBy]
    omega
  · obtain ⟨i, hi⟩ := Nat.dvd_of_mod_eq_zero hstep
    cases i with
    | zero =>
      obtain rfl : n = r.first := by omega
      exact foldOf_of_settled h (Nat.le_refl _) (Nat.le_refl _) (by simp)
    | succ i =>
      have hmul : r.step * (i + 1) = r.step * i + r.step := Nat.mul_succ _ _
      refine foldOf_of_settled h' (by simp only [shiftBy]; omega) (by simp only [shiftBy]; omega) ?_
      have : shiftBy n r.shift - (shiftBy r.first r.shift + r.step) = r.step * i := by
        simp only [shiftBy]
        omega
      rw [this, Nat.mul_mod_right]

/-- Representatives are their own representatives. -/
theorem foldOf_foldOf (n : ℕ) : foldOf (foldOf n) = foldOf n := by
  -- The lower table leads to representatives.  The upper one leads to characters that it leaves
  -- alone, unless the lower one moves them.
  cases hlower : shiftOf? lowerRuns (imageOf upperRuns n) with
  | some shift =>
    obtain ⟨r, hr, hhas, rfl⟩ := exists_run_of_shiftOf? hlower
    have hfold : foldOf n = shiftBy (imageOf upperRuns n) r.shift := by
      rw [foldOf, imageOf, hlower]
      rfl
    rw [hfold]
    exact foldOf_shiftBy hr hhas
  | none =>
    have hfold : foldOf n = imageOf upperRuns n := by rw [foldOf, imageOf, hlower]
    cases hupper : shiftOf? upperRuns n with
    | none =>
      have : imageOf upperRuns n = n := by rw [imageOf, hupper]
      rw [hfold, this, hfold, this]
    | some shift =>
      obtain ⟨r, hr, ⟨hfirst, hlast, hstep⟩, rfl⟩ := exists_run_of_shiftOf? hupper
      have himage : imageOf upperRuns n = shiftBy n r.shift := by
        rw [imageOf, hupper]
        rfl
      rw [himage] at hlower hfold
      have h := List.all_eq_true.mp upperRuns_stay r hr
      simp only [Run.staysUpper, Bool.and_eq_true, Bool.or_eq_true, decide_eq_true_iff] at h
      obtain ⟨hpos, h⟩ := h
      have hlo : shiftBy r.first r.shift ≤ shiftBy n r.shift := by simp only [shiftBy]; omega
      have hhi : shiftBy n r.shift ≤ shiftBy r.last r.shift := by simp only [shiftBy]; omega
      have hmod : (shiftBy n r.shift - shiftBy r.first r.shift) % r.step = 0 := by
        rw [← hstep]
        congr 1
        simp only [shiftBy]
        omega
      rcases h with h | h
      · have hupper' := shiftOf?_of_shiftOver h hlo hhi hmod
        rw [hfold, foldOf, imageOf, imageOf, hupper', hlower]
      · split at h
        · rename_i hover
          have := shiftOf?_of_shiftOver hover hlo hhi hmod
          rw [hlower] at this
          cases this
        · cases h

/-! ### Characters -/

/-- Whether the images of a run are code points of characters. -/
def Run.valid (r : Run) : Bool :=
  0 ≤ r.first + r.shift && (shiftBy r.last r.shift < 0xD800 ||
    (0xDFFF < shiftBy r.first r.shift && shiftBy r.last r.shift < 0x110000))

theorem upperRuns_valid : upperRuns.all Run.valid = true := by decide +kernel

theorem lowerRuns_valid : lowerRuns.all Run.valid = true := by decide +kernel

theorem toNat_image {runs : List Run} (hruns : runs.all Run.valid = true) (c : Char) :
    (image runs c).toNat = imageOf runs c.toNat := by
  rw [image, imageOf]
  cases hshift : shiftOf? runs c.toNat with
  | none => rfl
  | some shift =>
    obtain ⟨r, hr, ⟨hfirst, hlast, -⟩, rfl⟩ := exists_run_of_shiftOf? hshift
    have h := List.all_eq_true.mp hruns r hr
    simp only [Run.valid, Bool.and_eq_true, Bool.or_eq_true, decide_eq_true_eq] at h
    simp only [shiftBy] at h
    have hvalid : (c.toNat + r.shift).toNat.isValidChar := by
      simp only [Nat.isValidChar]
      omega
    show (Char.ofNat (c.toNat + r.shift).toNat).toNat = (c.toNat + r.shift).toNat
    rw [Char.ofNat, dif_pos hvalid]
    rfl

theorem toNat_foldKey (c : Char) : (foldKey c).toNat = foldOf c.toNat := by
  rw [foldKey, lower, upper, toNat_image lowerRuns_valid, toNat_image upperRuns_valid, foldOf]

theorem foldKey_foldKey (c : Char) : foldKey (foldKey c) = foldKey c := by
  rw [← Char.toNat_inj, toNat_foldKey, toNat_foldKey, foldOf_foldOf]

theorem mem_members {r : Run} {c : Char} (h : r.Has c.toNat) : c ∈ r.members := by
  obtain ⟨hfirst, hlast, hstep⟩ := h
  refine List.mem_map.mpr ⟨(c.toNat - r.first) / r.step, ?_, ?_⟩
  · rw [List.mem_range, Nat.lt_succ_iff]
    exact Nat.div_le_div_right (by omega)
  · rw [Nat.div_mul_cancel (Nat.dvd_of_mod_eq_zero hstep), Nat.add_sub_cancel' hfirst,
      Char.ofNat_toNat]

/-- The characters that are not their own representative are listed with it. -/
theorem mem_variants {key c : Char} :
    (key, c) ∈ variants ↔ key = foldKey c ∧ foldKey c ≠ c := by
  simp only [variants, List.mem_flatMap, List.mem_filterMap]
  constructor
  · rintro ⟨r, -, d, -, h⟩
    split at h
    · cases h
    · cases h
      exact ⟨rfl, by assumption⟩
  · rintro ⟨rfl, hne⟩
    have hmem : ∃ r ∈ upperRuns ++ lowerRuns, r.Has c.toNat := by
      cases hupper : shiftOf? upperRuns c.toNat with
      | some shift =>
        obtain ⟨r, hr, hhas, -⟩ := exists_run_of_shiftOf? hupper
        exact ⟨r, List.mem_append_left _ hr, hhas⟩
      | none =>
        cases hlower : shiftOf? lowerRuns c.toNat with
        | some shift =>
          obtain ⟨r, hr, hhas, -⟩ := exists_run_of_shiftOf? hlower
          exact ⟨r, List.mem_append_right _ hr, hhas⟩
        | none =>
          refine absurd (Char.toNat_inj.mp ?_) hne
          rw [toNat_foldKey, foldOf, imageOf, imageOf, hupper, hlower]
    obtain ⟨r, hr, hhas⟩ := hmem
    exact ⟨r, hr, c, mem_members hhas, if_neg hne⟩

/-- Characters are the same up to case if they have one representative. -/
theorem eqFold_iff {c d : Char} : eqFold c d = true ↔ foldKey c = foldKey d := by
  simp only [eqFold, Bool.or_eq_true, decide_eq_true_iff]
  constructor
  · rintro (rfl | h)
    · rfl
    · exact h
  · exact .inr

theorem charsMatch_true {c expected : Char} :
    charsMatch true c expected = true ↔ foldKey c = foldKey expected := by
  rw [charsMatch, Bool.true_and, Bool.or_eq_true, eqFold_iff, decide_eq_true_iff]
  constructor
  · rintro (rfl | h)
    · rfl
    · exact h
  · exact .inr

@[simp] theorem charsMatch_false {c expected : Char} :
    charsMatch false c expected = true ↔ c = expected := by
  simp [charsMatch]

theorem charsMatch_self {fold : Bool} (c : Char) : charsMatch fold c c = true := by
  cases fold with
  | false => exact charsMatch_false.mpr rfl
  | true => exact charsMatch_true.mpr rfl

end Regexp.Case

namespace Regexp.CharSet

open Case

/-- Whether a character is in one of several sets. -/
def containsAny (l : List CharSet) (c : Char) : Bool := l.any (·.contains c)

theorem containsAny_unionPairs (l : List CharSet) (c : Char) :
    containsAny (unionPairs l) c = containsAny l c := by
  fun_induction unionPairs l with
  | case1 s t rest ih =>
    simp only [containsAny, List.any_cons, contains_union, Bool.or_assoc] at ih ⊢
    rw [ih]
  | case2 => rfl

@[simp] theorem contains_unionAll (l : List CharSet) (c : Char) :
    (unionAll l).contains c = containsAny l c := by
  fun_induction unionAll l with
  | case1 => simp [containsAny]
  | case2 s => simp [containsAny]
  | case3 s t rest ih =>
    rw [ih]
    exact containsAny_unionPairs (s :: t :: rest) c

@[simp] theorem contains_ofChars (cs : List Char) (c : Char) :
    (ofChars cs).contains c = true ↔ c ∈ cs := by
  simp [ofChars, containsAny]

/-- What is taken from the table of variants is taken from the characters that
are folded. -/
theorem mem_filterMap_variants {f : Char × Char → Option Char} {c : Char} :
    c ∈ variants.filterMap f ↔ ∃ d, foldKey d ≠ d ∧ f (foldKey d, d) = some c := by
  rw [List.mem_filterMap]
  constructor
  · rintro ⟨⟨key, d⟩, hmem, h⟩
    obtain ⟨rfl, hne⟩ := mem_variants.mp hmem
    exact ⟨d, hne, h⟩
  · rintro ⟨d, hne, h⟩
    exact ⟨(foldKey d, d), mem_variants.mpr ⟨rfl, hne⟩, h⟩

theorem contains_addFoldKeys (s : CharSet) (c : Char) : s.addFoldKeys.contains c = true ↔
    s.contains c = true ∨ ∃ d, s.contains d = true ∧ foldKey d = c := by
  rw [addFoldKeys, contains_union, Bool.or_eq_true, contains_ofChars, mem_filterMap_variants]
  simp only [Option.ite_none_right_eq_some, Bool.and_eq_true, Bool.not_eq_true', Option.some.injEq]
  constructor
  · rintro (h | ⟨d, -, ⟨hd, -⟩, rfl⟩)
    · exact .inl h
    · exact .inr ⟨d, hd, rfl⟩
  · rintro (h | ⟨d, hd, rfl⟩)
    · exact .inl h
    · cases hkey : s.contains (foldKey d) with
      | true => exact .inl rfl
      | false => exact .inr ⟨d, ne_of_apply_ne s.contains (by simp [hd, hkey]), ⟨hd, hkey⟩, rfl⟩

theorem contains_addVariants (s : CharSet) (c : Char) : s.addVariants.contains c = true ↔
    s.contains c = true ∨ s.contains (foldKey c) = true := by
  rw [addVariants, contains_union, Bool.or_eq_true, contains_ofChars, mem_filterMap_variants]
  simp only [Option.ite_none_right_eq_some, Bool.and_eq_true, Bool.not_eq_true', Option.some.injEq]
  constructor
  · rintro (h | ⟨d, -, ⟨hkey, -⟩, rfl⟩)
    · exact .inl h
    · exact .inr hkey
  · rintro (h | h)
    · exact .inl h
    · cases hc : s.contains c with
      | true => exact .inl rfl
      | false => exact .inr ⟨c, ne_of_apply_ne s.contains (by simp [h, hc]), ⟨h, hc⟩, rfl⟩

/-- The members of a folded set are the characters with the representative of a
member. -/
theorem contains_caseFold (s : CharSet) (c : Char) : s.caseFold.contains c = true ↔
    ∃ d, s.contains d = true ∧ foldKey c = foldKey d := by
  rw [caseFold, contains_addVariants, contains_addFoldKeys, contains_addFoldKeys]
  constructor
  · rintro ((h | ⟨d, hd, rfl⟩) | (h | ⟨d, hd, h⟩))
    · exact ⟨c, h, rfl⟩
    · exact ⟨d, hd, foldKey_foldKey d⟩
    · exact ⟨foldKey c, h, (foldKey_foldKey c).symm⟩
    · exact ⟨d, hd, h.symm⟩
  · rintro ⟨d, hd, h⟩
    exact .inr (.inr ⟨d, hd, h.symm⟩)

end Regexp.CharSet
