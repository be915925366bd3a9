import Regexp.Proofs.Correspondence

/-!
# Counting characters

Whichever way a text numbers its offsets, an attempt reads the same characters
from it, and so it may as well be made on a text whose offsets count characters.

`Target.counted` is that text, a buffer of the same characters, and
`Target.embeds_place` says that the map from an index to the place of the
character is a correspondence in the sense of `Target.Embeds`.  All that is
known of corresponding texts applies then, to literals, anchors and atoms.
`Attempt.Counts` is the correspondence for attempts, with a span whose places
recorded offsets can hold; the largest offset cannot be recorded, and an index
is never larger than its place (`Target.le_place`), so nothing that is recorded
in the text is lost when characters are counted.

Only offsets that cut no character have an index.  So everything here is said of
indices up to the number of characters, and of slots that hold no others
(`Target.placeAll`).

## Main definitions

* `Target.counted` — the text with offsets that count its characters.
* `Target.locate`, `Target.placeAll` — spans and slots with the places of
  characters for their indices.
* `Attempt.onto` — an attempt on another text, from the places where the same
  characters are.
* `Attempt.Counts` — an attempt that counts the characters of a text.

## Main statements

* `Target.charAfter_place`, `Target.charBefore_place` — reading one character.
* `Target.embeds_place` — a text corresponds to the one that counts its
  characters.
* `Attempt.Counts.read_place` — an atom reads to a place if it reads to the
  index.
-/

namespace Regexp

namespace Target

/-- The text whose offsets count the characters of another one.  It is a buffer,
whatever the other text is. -/
def counted (t : Target) : Target := .buffer t.chars.toArray

/-- The span from the place of a character to the place of another one. -/
def locate (t : Target) (s : Span) : Span := ⟨t.place s.start, t.place s.stop⟩

/-- Slots with the places of characters where there were indices. -/
def placeAll (t : Target) (slots : Slots) : Slots := slots.map (Option.map t.place)

variable {t : Target} {k l : ℕ}

/-! ### Places and indices -/

theorem isGenuine_counted (t : Target) : t.counted.IsGenuine := trivial

theorem isBoundary_counted : t.counted.isBoundary k = true ↔ k ≤ t.chars.length := by
  simp [counted, isBoundary]

theorem isBoundary_place (ht : t.IsGenuine) (hk : k ≤ t.chars.length) :
    t.isBoundary (t.place k) = true := (isBoundary_iff ht).mpr ⟨k, hk, rfl⟩

section

variable (hk : k ≤ t.chars.length) (hl : l ≤ t.chars.length)

include hk hl

theorem place_le_iff : t.place k ≤ t.place l ↔ k ≤ l :=
  ⟨le_of_place_le hk, fun h => place_le h hl⟩

theorem place_lt_iff : t.place k < t.place l ↔ k < l := by
  rw [← not_le, place_le_iff hl hk, not_le]

theorem place_eq_iff : t.place k = t.place l ↔ k = l :=
  ⟨place_inj hk hl, fun h => h ▸ rfl⟩

end

/-- A character takes at least as much room as it is counted for. -/
theorem le_place (hk : k ≤ t.chars.length) : k ≤ t.place k := by
  induction k with
  | zero => exact Nat.zero_le _
  | succ k ih => exact (ih (by omega)).trans_lt (place_lt_succ hk)

/-! ### Reading -/

section

variable (ht : t.IsGenuine)

include ht

/-- **Reading forward takes the same character, and goes on to its place.** -/
theorem charAfter_place (hk : k ≤ t.chars.length) (hl : l ≤ t.chars.length) :
    t.charAfter (t.place k) (t.place l) =
      (t.counted.charAfter k l).map (Prod.map id t.place) := by
  have hcounted : t.counted.isBoundary l = true := isBoundary_counted.mpr hl
  ext ⟨c, o⟩
  rw [charAfter_iff ht (isBoundary_place ht hl), Option.map_eq_some_iff]
  constructor
  · rintro ⟨j, hj, hplace, rfl, hle⟩
    obtain hlt := (List.getElem?_eq_some_iff.mp hj).1
    obtain rfl := place_inj hk hlt.le hplace
    refine ⟨(c, k + 1), (charAfter_iff t.isGenuine_counted hcounted).mpr ?_, rfl⟩
    exact ⟨k, hj, rfl, rfl, le_of_place_le hlt hle⟩
  · rintro ⟨⟨d, n⟩, h, heq⟩
    obtain ⟨j, hj, rfl, rfl, hle⟩ := (charAfter_iff t.isGenuine_counted hcounted).mp h
    cases heq
    exact ⟨_, hj, rfl, rfl, place_le hle hl⟩

/-- **Reading backward takes the same character, and goes on to its place.** -/
theorem charBefore_place (hk : k ≤ t.chars.length) (hl : l ≤ t.chars.length) :
    t.charBefore (t.place k) (t.place l) =
      (t.counted.charBefore k l).map (Prod.map id t.place) := by
  have hcounted : t.counted.isBoundary l = true := isBoundary_counted.mpr hl
  ext ⟨c, o⟩
  rw [charBefore_iff ht (isBoundary_place ht hl), Option.map_eq_some_iff]
  constructor
  · rintro ⟨j, hj, rfl, hplace, hle⟩
    obtain hlt := (List.getElem?_eq_some_iff.mp hj).1
    obtain rfl := place_inj hk hlt hplace
    refine ⟨(c, j), (charBefore_iff t.isGenuine_counted hcounted).mpr ?_, rfl⟩
    exact ⟨j, hj, rfl, rfl, le_of_place_le hl hle⟩
  · rintro ⟨⟨d, n⟩, h, heq⟩
    obtain ⟨j, hj, rfl, rfl, hle⟩ := (charBefore_iff t.isGenuine_counted hcounted).mp h
    cases heq
    have hlt := (List.getElem?_eq_some_iff.mp hj).1
    exact ⟨_, hj, rfl, rfl, place_le hle hlt.le⟩

end

/-- **Counting the characters of a text changes nothing but the offsets.** -/
theorem embeds_place (ht : t.IsGenuine) : t.counted.Embeds t t.place where
  genuine := t.isGenuine_counted
  genuine' := ht
  boundary ho := isBoundary_place ht (isBoundary_counted.mp ho)
  lt _ ho' hlt := place_lt hlt (isBoundary_counted.mp ho')
  charAfter ho hlimit :=
    charAfter_place ht (isBoundary_counted.mp ho) (isBoundary_counted.mp hlimit)
  charBefore ho hstart :=
    charBefore_place ht (isBoundary_counted.mp ho) (isBoundary_counted.mp hstart)

end Target

/-! ### Slots -/

namespace Target

variable {t : Target} {k i : ℕ} {slots : Slots} {sl : Option Slots}

theorem placeAll_set (old : Option ℕ) : t.placeAll (slots.setIfInBounds i old) =
    (t.placeAll slots).setIfInBounds i (old.map t.place) := Array.map_setIfInBounds

theorem slotValue_place (hk : k ≤ t.chars.length) (hlt : t.place k < maxOffset) :
    slotValue (t.place k) = (slotValue k).map t.place := by
  rw [slotValue, slotValue, if_pos hlt, if_pos ((le_place hk).trans_lt hlt)]
  rfl

theorem recordIn_place (hk : k ≤ t.chars.length) (hlt : t.place k < maxOffset) (slot : ℕ) :
    recordIn (sl.map t.placeAll) slot (t.place k) = (recordIn sl slot k).map t.placeAll := by
  cases sl with
  | none => rfl
  | some slots => simp [recordIn, placeAll_set, slotValue_place hk hlt]

end Target

/-! ### Attempts -/

/-- An attempt on another text, from the place of one of its characters to the
place of another. -/
def Attempt.onto (a : Attempt) (t : Target) : Attempt :=
  { a with target := t, span := t.locate a.span }

/-- Whether an attempt counts the characters of a text, on a span that recorded
offsets can hold.  The places may be larger than the indices, so it is they that
have to be recordable. -/
structure Attempt.Counts (a : Attempt) (t : Target) : Prop where
  genuine : t.IsGenuine
  target_eq : a.target = t.counted
  start_le : a.span.start ≤ a.span.stop
  stop_le : a.span.stop ≤ t.chars.length
  stop_lt : t.place a.span.stop < maxOffset

namespace Attempt

variable {a : Attempt} {t : Target} {opts : Options} {reverse : Bool} {i : ℕ} {sl : Option Slots}

namespace Counts

variable (h : a.Counts t)

include h

theorem le_length (hi : a.InSpan i) : i ≤ t.chars.length := hi.2.trans h.stop_le

theorem start_le_length : a.span.start ≤ t.chars.length := h.start_le.trans h.stop_le

theorem place_lt (hi : a.InSpan i) : t.place i < maxOffset :=
  (Target.place_le hi.2 h.stop_le).trans_lt h.stop_lt

theorem inSpan_onto (hi : a.InSpan i) : (a.onto t).InSpan (t.place i) :=
  ⟨Target.place_le hi.1 (h.le_length hi), Target.place_le hi.2 h.stop_le⟩

theorem onText : a.OnText where
  genuine := h.target_eq ▸ t.isGenuine_counted
  start_boundary := h.target_eq ▸ Target.isBoundary_counted.mpr h.start_le_length
  stop_boundary := h.target_eq ▸ Target.isBoundary_counted.mpr h.stop_le

/-- Where characters are counted, no offset cuts one. -/
theorem placed (hi : a.InSpan i) : a.Placed i :=
  ⟨hi, h.target_eq ▸ Target.isBoundary_counted.mpr (h.le_length hi)⟩

/-- The attempt that counts corresponds to the one on the text. -/
theorem embeds : a.Embeds (a.onto t) t.place where
  target := h.target_eq ▸ Target.embeds_place h.genuine
  span_eq := rfl
  program_eq := rfl
  whole_eq := rfl
  start_boundary := h.onText.start_boundary
  stop_boundary := h.onText.stop_boundary

/-- What a group has captured is where it is found with characters counted. -/
theorem capturedSpan_place (hheld : ∀ slots ∈ sl, a.PlacedAll slots) (group : ℕ) :
    capturedSpan (sl.map t.placeAll) group = (capturedSpan sl group).map (Option.map t.locate) :=
  h.embeds.capturedSpan_map hheld group

/-- **An atom reads to a place if it reads to the index.**  A copy of a group
needs that the group captured whole characters. -/
theorem read_place (hi : a.InSpan i) (hheld : ∀ slots ∈ sl, a.PlacedAll slots) (atom : Atom) :
    (a.onto t).read atom opts reverse (t.place i) (sl.map t.placeAll) =
      (a.read atom opts reverse i sl).map (Option.map t.place) :=
  h.embeds.read (h.placed hi) hheld atom fun group _ => h.capturedSpan_place hheld group

end Counts

end Attempt

end Regexp
