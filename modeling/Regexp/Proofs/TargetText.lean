import Mathlib.Algebra.BigOperators.Group.List.Basic
import Mathlib.Algebra.Order.Ring.Nat
import Regexp.Target

/-!
# Texts as lists of characters

A text has its characters in order, each with an offset at which it starts.
Reading forward, reading backward and cutting out spans are all told by these
two things, whichever way a text numbers its offsets.

A buffer has its characters as it is, and a cursor has them behind its first
offset.  A string has an array of characters and a table from byte offsets to
indices, and nothing in its type says that the table belongs to the array.
`Target.IsGenuine` says that a text was made from characters, so that its parts
fit each other; everything that is proved about texts assumes it, and every text
that is made in the usual way has it.  The table of a string is then told by the
sums of the sizes of the characters (`Utf8Text.charIndex?_ofString`).

The three main statements replace the definitions from here on.  Places go up
with the index (`Target.place_lt_succ`), and they are the boundaries; reading a
character is a step from one place to the next one.  No later proof looks into
the table again, or tells the kinds of texts apart, unless it is about bytes.

## Main definitions

* `Target.IsGenuine` — a text that was made from characters.
* `Target.chars`, `Target.place` — the characters of a text and the offsets at
  which they start.

## Main statements

* `Target.isBoundary_iff` — the offsets that are no characters' insides are the
  places.
* `Target.charAfter_iff`, `Target.charBefore_iff` — reading is stepping from a
  place to the next.
* `Target.slice?_place` — a span cuts out the characters between two places.
-/

namespace Regexp

/-! ### The table of character indices -/

/-- The number of bytes of characters. -/
def byteCount (cs : List Char) : ℕ := (cs.map Char.utf8Size).sum

@[simp] theorem byteCount_nil : byteCount [] = 0 := rfl

@[simp] theorem byteCount_cons (c : Char) (cs : List Char) :
    byteCount (c :: cs) = c.utf8Size + byteCount cs := by
  simp [byteCount]

theorem byteCount_append (cs ds : List Char) :
    byteCount (cs ++ ds) = byteCount cs + byteCount ds := by
  simp [byteCount]

theorem byteCount_take_succ {cs : List Char} {k : ℕ} {c : Char} (h : cs[k]? = some c) :
    byteCount (cs.take (k + 1)) = byteCount (cs.take k) + c.utf8Size := by
  rw [List.take_add_one, h, byteCount_append]
  simp

namespace Utf8Text

theorem indexFrom_getElem? (cs : List Char) (table : Array (Option ℕ)) (i o k : ℕ) :
    (indexFrom table i cs)[o]? = some (some k) ↔
      table[o]? = some (some k) ∨
        ∃ j ≤ cs.length, k = i + j ∧ o = table.size + byteCount (cs.take j) := by
  induction cs generalizing table i with
  | nil =>
    simp only [indexFrom, Array.getElem?_push, List.length_nil, Nat.le_zero, exists_eq_left,
      List.take_nil, byteCount_nil, Nat.add_zero]
    split
    · subst_vars
      simp [eq_comm]
    · simp_all
  | cons c cs ih =>
    have hpos := c.utf8Size_pos
    have hsize : (addIndex table i c).size = table.size + c.utf8Size := by
      simp only [addIndex, Array.size_append, Array.size_push, Array.size_replicate]
      omega
    have hentry : (addIndex table i c)[o]? = some (some k) ↔
        table[o]? = some (some k) ∨ k = i ∧ o = table.size := by
      simp only [addIndex]
      rw [Array.getElem?_append, Array.size_push]
      split
      · rw [Array.getElem?_push]
        split
        · subst_vars
          simp [eq_comm]
        · simp_all
      · rw [Array.getElem?_replicate, Array.getElem?_eq_none (by omega)]
        split <;> simp <;> omega
    rw [indexFrom, ih, hentry, hsize, or_assoc]
    refine or_congr_right ?_
    constructor
    · rintro (⟨rfl, rfl⟩ | ⟨j, hj, rfl, rfl⟩)
      · exact ⟨0, Nat.zero_le _, rfl, by simp⟩
      · exact ⟨j + 1, by simpa using hj, by omega, by simp; omega⟩
    · rintro ⟨j, hj, rfl, rfl⟩
      cases j with
      | zero => exact .inl ⟨rfl, by simp⟩
      | succ j => exact .inr ⟨j, by simpa using hj, by omega, by simp; omega⟩

/-- The characters' first bytes are at the sums of the sizes before them. -/
theorem charIndex?_ofString {s : String} {o k : ℕ} :
    (ofString s).charIndex? o = some k ↔
      k ≤ s.toList.length ∧ o = byteCount (s.toList.take k) := by
  rw [charIndex?, Option.join_eq_some_iff, ofString, indexFrom_getElem?]
  simp

end Utf8Text

namespace Target

/-- Whether a text was made from characters, so that its parts fit each other.
For a buffer and a cursor there is nothing to fit. -/
def IsGenuine : Target → Prop
  | utf8 text => ∃ s, text = .ofString s
  | buffer _ | cursor _ _ => True

/-- The characters of a text. -/
def chars : Target → List Char
  | utf8 text => text.chars.toList
  | buffer cs | cursor _ cs => cs.toList

/-- The offset of the character with index `k`, or the offset behind the last
one: in a string the bytes of the characters before it, and otherwise their
number. -/
def place : Target → ℕ → ℕ
  | utf8 text, k => byteCount (text.chars.toList.take k)
  | buffer _, k => k
  | cursor first _, k => first + k

variable {t : Target} {k k' o o' limit start : ℕ} {c : Char}

theorem isGenuine_ofString (s : String) : (ofString s).IsGenuine := ⟨s, rfl⟩

/-- The places go up. -/
theorem place_lt_succ (hk : k < t.chars.length) : t.place k < t.place (k + 1) := by
  cases t with
  | utf8 text =>
    have hget : text.chars.toList[k]? = some text.chars.toList[k] := List.getElem?_eq_getElem hk
    have := (text.chars.toList[k]).utf8Size_pos
    simp only [place, byteCount_take_succ hget]
    omega
  | buffer | cursor => simp [place]

theorem place_lt (hlt : k < k') (hk : k' ≤ t.chars.length) : t.place k < t.place k' := by
  induction k' with
  | zero => omega
  | succ k' ih =>
    have hstep := place_lt_succ (t := t) (k := k') (by omega)
    rcases (Nat.lt_succ_iff_lt_or_eq.mp hlt) with hlt | rfl
    · exact (ih hlt (by omega)).trans hstep
    · exact hstep

theorem place_inj (hk : k ≤ t.chars.length) (hk' : k' ≤ t.chars.length)
    (h : t.place k = t.place k') : k = k' := by
  rcases lt_trichotomy k k' with hlt | heq | hlt
  · have := place_lt hlt hk'
    omega
  · exact heq
  · have := place_lt hlt hk
    omega

theorem place_le (hle : k ≤ k') (hk : k' ≤ t.chars.length) : t.place k ≤ t.place k' := by
  rcases hle.eq_or_lt with rfl | hlt
  · exact le_rfl
  · exact (place_lt hlt hk).le

theorem le_of_place_le (hk : k ≤ t.chars.length) (h : t.place k ≤ t.place k') : k ≤ k' := by
  by_contra hlt
  have := place_lt (t := t) (show k' < k by omega) hk
  omega

section

variable {chars : Array Char} {first : ℕ}

/-- Where characters are counted, reading forward takes the one with the index
of the offset. -/
theorem readAfter_iff : readAfter chars first o limit = some (c, o') ↔
    ∃ k, chars[k]? = some c ∧ o = first + k ∧ o' = first + (k + 1) ∧ o' ≤ limit := by
  unfold readAfter
  constructor
  · intro h
    split at h
    · obtain ⟨d, hd, h⟩ := Option.map_eq_some_iff.mp h
      cases h
      exact ⟨o - first, hd, by omega, by omega, by omega⟩
    · cases h
  · rintro ⟨k, hget, rfl, rfl, hle⟩
    rw [if_pos (by omega), Nat.add_sub_cancel_left, hget]
    rfl

theorem readBefore_iff : readBefore chars first o start = some (c, o') ↔
    ∃ k, chars[k]? = some c ∧ o' = first + k ∧ o = first + (k + 1) ∧ start ≤ o' := by
  unfold readBefore
  constructor
  · intro h
    split at h
    · obtain ⟨d, hd, h⟩ := Option.map_eq_some_iff.mp h
      cases h
      exact ⟨o - 1 - first, hd, by omega, by omega, by omega⟩
    · cases h
  · rintro ⟨k, hget, rfl, rfl, hle⟩
    have hindex : first + (k + 1) - 1 - first = k := by omega
    rw [if_pos (by omega), hindex, hget]
    rfl

end

section

variable (ht : t.IsGenuine)

include ht

/-- The offsets that are not inside of characters are the places. -/
theorem isBoundary_iff : t.isBoundary o = true ↔ ∃ k ≤ t.chars.length, o = t.place k := by
  cases t with
  | utf8 text =>
    obtain ⟨s, rfl⟩ := ht
    simp only [isBoundary, Utf8Text.isBoundary, Option.isSome_iff_exists,
      Utf8Text.charIndex?_ofString]
    rfl
  | buffer cs => simp [isBoundary, chars, place]
  | cursor first cs =>
    simp only [isBoundary, chars, place, Bool.and_eq_true, decide_eq_true_iff, Array.length_toList]
    constructor
    · rintro ⟨h, h'⟩
      exact ⟨o - first, by omega, by omega⟩
    · rintro ⟨k, hk, rfl⟩
      omega

/-- Reading forward steps from the place of a character to the next place. -/
theorem charAfter_iff (hlimit : t.isBoundary limit = true) : t.charAfter o limit = some (c, o') ↔
    ∃ k, t.chars[k]? = some c ∧ o = t.place k ∧ o' = t.place (k + 1) ∧ o' ≤ limit := by
  cases t with
  | utf8 text =>
    obtain ⟨s, rfl⟩ := ht
    simp only [isBoundary] at hlimit
    simp only [charAfter, hlimit, if_true, Option.bind_eq_some_iff, Utf8Text.charIndex?_ofString]
    constructor
    · rintro ⟨k, ⟨hk, rfl⟩, d, hd, h⟩
      split at h
      · cases h
        have hget : s.toList[k]? = some c := by simpa [Utf8Text.ofString] using hd
        exact ⟨k, hget, rfl, by simp only [place]; exact (byteCount_take_succ hget).symm, by omega⟩
      · cases h
    · rintro ⟨k, hget, rfl, rfl, hle⟩
      have hget' : s.toList[k]? = some c := hget
      have hsucc := byteCount_take_succ hget'
      have hlt := (List.getElem?_eq_some_iff.mp hget').1
      have hplace : ∀ j, (utf8 (.ofString s)).place j = byteCount (s.toList.take j) := fun _ => rfl
      refine ⟨k, ⟨hlt.le, hplace k⟩, c, by simpa [Utf8Text.ofString] using hget', ?_⟩
      rw [hplace, hsucc] at hle
      rw [hplace, hplace, hsucc, if_pos hle]
  | buffer cs =>
    rw [charAfter, readAfter_iff]
    simp [chars, place]
  | cursor first cs =>
    rw [charAfter, readAfter_iff]
    simp [chars, place]

/-- Reading backward steps from a place to the one before. -/
theorem charBefore_iff (hstart : t.isBoundary start = true) :
    t.charBefore o start = some (c, o') ↔
      ∃ k, t.chars[k]? = some c ∧ o' = t.place k ∧ o = t.place (k + 1) ∧ start ≤ o' := by
  cases t with
  | utf8 text =>
    obtain ⟨s, rfl⟩ := ht
    simp only [isBoundary] at hstart
    simp only [charBefore, hstart, if_true, Option.bind_eq_some_iff, Utf8Text.charIndex?_ofString]
    have hplace : ∀ j, (utf8 (.ofString s)).place j = byteCount (s.toList.take j) := fun _ => rfl
    constructor
    · rintro ⟨k, ⟨hk, rfl⟩, h⟩
      cases k with
      | zero => simp at h
      | succ k =>
        simp only [Nat.add_one_ne_zero, if_false, Nat.add_sub_cancel, Option.bind_eq_some_iff] at h
        obtain ⟨d, hd, h⟩ := h
        split at h
        · cases h
          have hget : s.toList[k]? = some c := by simpa [Utf8Text.ofString] using hd
          have hsucc := byteCount_take_succ hget
          refine ⟨k, hget, ?_, rfl, ?_⟩
          · rw [hplace]
            omega
          · omega
        · cases h
    · rintro ⟨k, hget, rfl, rfl, hle⟩
      have hget' : s.toList[k]? = some c := hget
      have hsucc := byteCount_take_succ hget'
      have hlt := (List.getElem?_eq_some_iff.mp hget').1
      refine ⟨k + 1, ⟨hlt, hplace _⟩, ?_⟩
      simp only [Nat.add_one_ne_zero, if_false, Nat.add_sub_cancel, Option.bind_eq_some_iff]
      refine ⟨c, by simpa [Utf8Text.ofString] using hget', ?_⟩
      rw [hplace] at hle
      rw [hplace, hplace, hsucc, if_pos (by omega)]
      simp
  | buffer cs =>
    rw [charBefore, readBefore_iff]
    simp [chars, place]
  | cursor first cs =>
    rw [charBefore, readBefore_iff]
    simp [chars, place]

/-- A span cuts out the characters between two places. -/
theorem slice?_place (hle : k ≤ k') (hk : k' ≤ t.chars.length) :
    t.slice? ⟨t.place k, t.place k'⟩ = some ((t.chars.take k').drop k) := by
  have hvalid : (t.place k ≤ t.place k' && t.isBoundary (t.place k) &&
      t.isBoundary (t.place k')) = true := by
    simp only [Bool.and_eq_true, decide_eq_true_iff, isBoundary_iff ht]
    exact ⟨⟨place_le hle hk, k, hle.trans hk, rfl⟩, k', hk, rfl⟩
  rw [slice?.eq_def, if_pos hvalid, List.drop_take]
  cases t with
  | utf8 text =>
    obtain ⟨s, rfl⟩ := ht
    have hindex : ∀ j ≤ s.toList.length,
        (Utf8Text.ofString s).charIndex? ((utf8 (.ofString s)).place j) = some j :=
      fun j hj => Utf8Text.charIndex?_ofString.mpr ⟨hj, rfl⟩
    simp only [hindex k (hle.trans hk), hindex k' hk, Option.getD_some, Array.toList_extract,
      List.extract_eq_take_drop]
    rfl
  | buffer cs => simp [place, chars, List.extract_eq_take_drop]
  | cursor first cs => simp [place, chars, List.extract_eq_take_drop]

end

end Target

end Regexp
