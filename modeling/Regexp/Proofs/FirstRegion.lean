import Mathlib.Data.List.Range
import Regexp.Proofs.Correspondence
import Regexp.Proofs.Leftmost

/-!
# The first region that a literal matches

A search for a literal answers what a walk over the offsets of the span would:
the first region that the literal matches.  It does so on each of its paths,
byte by byte or by windows, with case or without, and for literals of any
length, the empty one included.

`Target.firstRegion?` is that walk.  It tries the offsets one after the other,
passes over those that cut a character, and compares the literal as an atom of a
program does.  It is as plain as possible, and there is nothing in it of bytes,
tables or windows; so it can stand as the specification of the search.

The equation is shown by way of a third description.  The walk finds the
leftmost occurrence (`Target.firstRegion?_locates`), each search finds the
leftmost occurrence, and there is only one.  What remains is that comparison at
an offset and occurrence of characters are the same
(`Target.regionMatches_iff`), for which a buffer, which first has a look at the
room, needs an argument of its own.

## Main definitions

* `Target.firstRegion?` — the first region of a span that a literal matches,
  offset by offset.

## Main statements

* `Target.firstRegion?_eq_none_iff`, `Target.firstRegion?_eq_some_iff` — what
  the walk finds.
* `Literal.find?_eq_firstRegion?` — each search for a literal finds the same.
-/

namespace Regexp

namespace Target

variable {t : Target} {span r : Span} {fold : Bool} {cs : List Char} {i j : ℕ}

/-- The first region of a span that a literal matches: from the least offset at
which a character begins or the text ends and the literal matches, to where it
ends there. -/
def firstRegion? (t : Target) (fold : Bool) (span : Span) (cs : List Char) : Option Span :=
  (List.range' span.start (span.stop + 1 - span.start)).findSome? fun i =>
    if t.isBoundary i then (t.regionMatches fold i span.stop cs).map (Span.mk i) else none

/-- An offset is passed over if it cuts a character or the literal does not
match there. -/
theorem passed_iff :
    (if t.isBoundary i then (t.regionMatches fold i span.stop cs).map (Span.mk i) else none) =
        none ↔
      (t.isBoundary i = true → t.regionMatches fold i span.stop cs = none) := by
  split <;> simp_all

theorem firstRegion?_eq_none_iff : t.firstRegion? fold span cs = none ↔
    ∀ i, span.start ≤ i → i ≤ span.stop → t.isBoundary i = true →
      t.regionMatches fold i span.stop cs = none := by
  rw [firstRegion?, List.findSome?_eq_none_iff]
  constructor
  · intro h i hstart hstop
    exact passed_iff.mp (h i (by rw [List.mem_range'_1]; omega))
  · intro h i hi
    rw [List.mem_range'_1] at hi
    exact passed_iff.mpr (h i hi.1 (by omega))

theorem firstRegion?_eq_some_iff : t.firstRegion? fold span cs = some r ↔
    (span.start ≤ r.start ∧ r.start ≤ span.stop) ∧ t.isBoundary r.start = true ∧
      t.regionMatches fold r.start span.stop cs = some r.stop ∧
      ∀ i, span.start ≤ i → i < r.start → t.isBoundary i = true →
        t.regionMatches fold i span.stop cs = none := by
  rw [firstRegion?, List.findSome?_eq_some_iff]
  constructor
  · rintro ⟨before, i, behind, hrange, hfound, hpassed⟩
    obtain ⟨k, hk, rfl, hbehind⟩ := List.range'_eq_append_iff.mp hrange
    obtain ⟨hi, hroom, -⟩ := List.range'_eq_cons_iff.mp hbehind.symm
    have hstart : span.start ≤ i := by omega
    have hstop : i ≤ span.stop := by omega
    split at hfound
    · rename_i hboundary
      obtain ⟨stop, hmatch, rfl⟩ := Option.map_eq_some_iff.mp hfound
      refine ⟨⟨hstart, hstop⟩, hboundary, hmatch, fun j hj (hlt : j < i) => ?_⟩
      exact passed_iff.mp (hpassed j (by rw [List.mem_range'_1]; omega))
    · cases hfound
  · rintro ⟨⟨hstart, hstop⟩, hboundary, hmatch, hfirst⟩
    refine ⟨List.range' span.start (r.start - span.start), r.start,
      List.range' (r.start + 1) (span.stop - r.start), ?_, ?_, ?_⟩
    · rw [← List.range'_succ, ← Nat.sub_add_comm hstop]
      have hsplit := List.range'_append_1 (s := span.start) (m := r.start - span.start)
        (n := span.stop + 1 - r.start)
      rw [Nat.add_sub_cancel' hstart] at hsplit
      rw [hsplit]
      congr 1
      omega
    · rw [if_pos hboundary, hmatch]
      rfl
    · intro i hi
      rw [List.mem_range'_1] at hi
      exact passed_iff.mpr (hfirst i hi.1 (by omega))

/-- Characters that stand in a text begin where no character is cut. -/
theorem isBoundary_of_spells (ht : t.IsGenuine) (hne : cs ≠ [])
    (h : t.Spells span fold i cs j) : t.isBoundary i = true := by
  obtain ⟨k, hoccurs, rfl, -⟩ := (spells_iff_occursAt hne).mp h
  have hlength := hoccurs.add_length_le hne
  exact (isBoundary_iff ht).mpr ⟨k, by omega, rfl⟩

section

variable (ht : t.IsGenuine) (hstart : t.isBoundary span.start = true)
  (hstop : t.isBoundary span.stop = true) (hle : span.start ≤ span.stop)

include ht hstop

/-- A literal matches at the offsets of a span where its characters stand. -/
theorem regionMatches_iff (hi : span.start ≤ i) (hi' : i ≤ span.stop) :
    t.regionMatches fold i span.stop cs = some j ↔ t.Spells span fold i cs j := by
  rw [regionMatches_eq ht hstop hi', matchAfter_iff ht hstop hi]

include hstart hle

/-- The walk passes over no offset at which the characters of the literal stand. -/
theorem not_spells_of_passed (hij : span.start ≤ i) (hi : i ≤ span.stop)
    (hpassed : ∀ o, span.start ≤ o → o ≤ i → t.isBoundary o = true →
      t.regionMatches fold o span.stop cs = none) : ¬ t.Spells span fold i cs j := by
  intro h
  by_cases hne : cs = []
  · -- The empty literal matches where the span begins.
    subst hne
    have hspells : t.Spells span fold span.start [] span.start := rfl
    have hmatch := (regionMatches_iff ht hstop le_rfl hle).mpr hspells
    rw [hpassed _ le_rfl hij hstart] at hmatch
    cases hmatch
  · have hmatch := (regionMatches_iff ht hstop hij hi).mpr h
    rw [hpassed i hij le_rfl (isBoundary_of_spells ht hne h)] at hmatch
    cases hmatch

/-- The walk finds the leftmost occurrence. -/
theorem firstRegion?_locates :
    Literal.Locates t span fold cs (t.firstRegion? fold span cs) := by
  cases hfound : t.firstRegion? fold span cs with
  | none =>
    rw [firstRegion?_eq_none_iff] at hfound
    intro i j hi hj h
    have hi' : i ≤ span.stop := h.le.trans hj
    exact not_spells_of_passed ht hstart hstop hle hi hi'
      (fun o ho ho' => hfound o ho (ho'.trans hi')) h
  | some r =>
    obtain ⟨⟨hr, hr'⟩, -, hmatch, hfirst⟩ := firstRegion?_eq_some_iff.mp hfound
    have hspells := (regionMatches_iff ht hstop hr hr').mp hmatch
    refine ⟨hspells, hr, (hspells.bounds hr hr').2, ?_⟩
    intro i j hi hlt
    exact not_spells_of_passed ht hstart hstop hle hi (hlt.le.trans hr')
      fun o ho ho' => hfirst o ho (ho'.trans_lt hlt)

end

end Target

namespace Literal

/-- **Every search for a literal finds the first region that the literal
matches**, in a valid span of any text, with regard to case or without: the
search that is made, the search by windows, and in a string, where case matters,
the search by bytes. -/
theorem find?_eq_firstRegion? {t : Target} {span : Span} (ht : t.IsGenuine)
    (hspan : Search.isValidSpan t span = true) (cs : List Char) (fold : Bool) :
    (ofChars cs fold).find? t span = t.firstRegion? fold span cs ∧
      (ofChars cs fold).findChars? t span = t.firstRegion? fold span cs ∧
      ∀ text, t.utf8? = some text →
        (ofChars cs false).findBytes? text span = t.firstRegion? false span cs := by
  obtain ⟨hstart, hstop⟩ := Search.isBoundary_of_valid hspan
  have hle := Search.start_le_stop hspan
  have hfirst : ∀ fold, Locates t span fold cs (t.firstRegion? fold span cs) := fun fold =>
    Target.firstRegion?_locates ht hstart hstop hle
  refine ⟨?_, ?_, ?_⟩
  · exact (find?_locates ht hstart hstop hle).unique ht hstop (hfirst fold)
  · exact (findChars?_locates ht hstart hstop hle).unique ht hstop (hfirst fold)
  · intro text htext
    cases t with
    | utf8 t =>
      have hgenuine := ht
      obtain ⟨str, rfl⟩ := ht
      cases htext
      have hbytes : Locates (.ofString str) span false cs
          ((ofChars cs false).findBytes? str.toUTF8 span) := findBytes?_locates
      exact hbytes.unique hgenuine hstop (hfirst false)
    | buffer | cursor => cases htext

/-- A literal whose first two characters share a bucket of the table, in a
string where it begins behind a copy of its first character. -/
theorem find?_eq_firstRegion?_collision :
    let t := Target.ofString "xaašbaaš"
    let l := Literal.ofChars ['a', 'š', 'b'] false
    bucket false 'a' = bucket false 'š' ∧ t.IsGenuine ∧
      Search.isValidSpan t ⟨1, 10⟩ = true ∧ l.find? t ⟨1, 10⟩ = some ⟨2, 6⟩ ∧
      l.findChars? t ⟨1, 10⟩ = some ⟨2, 6⟩ ∧
      ∀ text, t.utf8? = some text → l.findBytes? text ⟨1, 10⟩ = some ⟨2, 6⟩ := by
  intro t l
  have hgenuine : t.IsGenuine := ⟨_, rfl⟩
  have hvalid : Search.isValidSpan t ⟨1, 10⟩ = true := by decide +kernel
  have hfirst : t.firstRegion? false ⟨1, 10⟩ ['a', 'š', 'b'] = some ⟨2, 6⟩ := by decide +kernel
  have h := find?_eq_firstRegion? hgenuine hvalid ['a', 'š', 'b'] false
  rw [hfirst] at h
  exact ⟨rfl, hgenuine, hvalid, h⟩

end Literal

end Regexp
