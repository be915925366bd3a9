import Regexp.Proofs.Reading
import Regexp.Search.Literal

/-!
# Literal search finds the leftmost occurrence

A literal is looked for in two ways: byte by byte, or with a window that moves
by as much as its last character allows.  Neither of them passes over an
occurrence.

## Occurrences by index

Offsets are turned into indices of characters first.  A literal occurs at an
index if its characters stand in the text from there on (`Target.OccursAt`),
which is a statement about two lists.  Two windows are then a number of
characters apart, whatever the offsets count, and the table of shifts speaks of
characters as well.  `Literal.Locates` is the specification in terms of offsets
again: an answer is the leftmost occurrence in the span, or there is none.

## By bytes

That bytes stand for characters is not obvious, because a search by bytes looks
at offsets inside of characters too.  No byte inside of a character is one with
which a character begins.  Hence the bytes of a literal stand at an offset just
where its characters do (`Literal.bytesAt_iff`), and only at places.  The empty
literal stands everywhere and is found at the start of the span, which is a
place.

## By windows

The argument for the window is the usual one.  If the literal occurred at an
index that the window skips, then the character at the end of the present window
would be one of the literal's characters before its last one, at a distance from
the end that is smaller than the shift; but the entry for the bucket of that
character is no larger than that distance (`Literal.shift_le`).  That the bucket
may hold other characters only makes the entry smaller.  `Literal.FirstFrom`
carries this along the loop: the answer from a window on is the first occurrence
that still has room.

## Main definitions

* `Target.OccursAt` — the characters of a literal stand in a text from a
  character on.
* `Literal.Locates` — what an answer says about the occurrences in a span.

## Main statements

* `Literal.bytesAt_iff` — in a string, the bytes of a literal stand just where
  its characters do.
* `Literal.shift_le` — a window does not move past an occurrence.
* `Literal.find?_locates` — the answer of a search for a literal is its leftmost
  occurrence.
-/

namespace Regexp

/-! ### Occurrences -/

namespace Target

variable {t : Target} {s : Span} {fold : Bool} {i j k : ℕ} {cs : List Char}

/-- Whether the characters of a literal stand in a text from the character with
index `k` on.  Characters are counted here, so that windows can be moved without
regard to how long characters are. -/
def OccursAt (t : Target) (fold : Bool) (cs : List Char) (k : ℕ) : Prop :=
  ∀ m c, cs[m]? = some c → ∃ d, t.chars[k + m]? = some d ∧ Case.charsMatch fold d c = true

theorem occursAt_cons {c : Char} : t.OccursAt fold (c :: cs) k ↔
    (∃ d, t.chars[k]? = some d ∧ Case.charsMatch fold d c = true) ∧ t.OccursAt fold cs (k + 1) := by
  constructor
  · intro h
    refine ⟨h 0 c rfl, fun m d hd => ?_⟩
    rw [Nat.add_right_comm]
    exact h (m + 1) d hd
  · rintro ⟨hc, h⟩ m d hd
    cases m with
    | zero =>
      cases hd
      exact hc
    | succ m =>
      have := h m d hd
      rwa [Nat.add_right_comm] at this

/-- A literal that is not empty has room where it occurs. -/
theorem OccursAt.add_length_le (h : t.OccursAt fold cs k) (hne : cs ≠ []) :
    k + cs.length ≤ t.chars.length := by
  have hpos := List.length_pos_of_ne_nil hne
  obtain ⟨d, hd, -⟩ := h (cs.length - 1) _ (List.getElem?_eq_getElem (by omega))
  have := (List.getElem?_eq_some_iff.mp hd).1
  omega

/-- A literal stands between two offsets if these are the places around an
occurrence. -/
theorem spells_iff_occursAt (hne : cs ≠ []) : t.Spells s fold i cs j ↔
    ∃ k, t.OccursAt fold cs k ∧ i = t.place k ∧ j = t.place (k + cs.length) ∧
      s.start ≤ i ∧ j ≤ s.stop := by
  induction cs generalizing i with
  | nil => exact absurd rfl hne
  | cons c cs ih =>
    by_cases hcs : cs = []
    · subst hcs
      rw [spells_singleton]
      constructor
      · rintro ⟨d, ⟨k, hk, rfl, rfl, hstart, hstop⟩, hmatch⟩
        exact ⟨k, occursAt_cons.mpr ⟨⟨d, hk, hmatch⟩, nofun⟩, rfl, rfl, hstart, hstop⟩
      · rintro ⟨k, h, rfl, rfl, hstart, hstop⟩
        obtain ⟨⟨d, hk, hmatch⟩, -⟩ := occursAt_cons.mp h
        exact ⟨d, ⟨k, hk, rfl, rfl, hstart, hstop⟩, hmatch⟩
    · have hlength : ∀ k, k + (c :: cs).length = k + 1 + cs.length := by
        intro k
        rw [List.length_cons]
        omega
      rw [Spells]
      constructor
      · rintro ⟨d, i', ⟨k, hk, rfl, rfl, hstart, -⟩, hmatch, hrest⟩
        obtain ⟨k', h, hplace, hj, -, hstop⟩ := (ih hcs).mp hrest
        have hle := h.add_length_le hcs
        obtain rfl := place_inj (List.getElem?_eq_some_iff.mp hk).1 (by omega) hplace
        refine ⟨k, occursAt_cons.mpr ⟨⟨d, hk, hmatch⟩, h⟩, rfl, ?_, hstart, hstop⟩
        rw [hlength, hj]
      · rintro ⟨k, h, rfl, hj, hstart, hstop⟩
        obtain ⟨⟨d, hk, hmatch⟩, hrest⟩ := occursAt_cons.mp h
        have hle := hrest.add_length_le hcs
        have hlt := place_lt_succ (List.getElem?_eq_some_iff.mp hk).1
        rw [hlength] at hj
        refine ⟨d, t.place (k + 1), ⟨k, hk, rfl, rfl, hstart, ?_⟩, hmatch, ?_⟩
        · exact (place_le (by omega) hle).trans (hj ▸ hstop)
        · exact (ih hcs).mpr ⟨k + 1, hrest, rfl, hj, by omega, hstop⟩

end Target

/-! ### Bytes of a string -/

/-- The bytes of characters, one after the other.  No text in between marks
where a character ends. -/
def encode (cs : List Char) : List UInt8 := cs.flatMap String.utf8EncodeChar

@[simp] theorem encode_nil : encode [] = [] := rfl

@[simp] theorem encode_cons (c : Char) (cs : List Char) :
    encode (c :: cs) = String.utf8EncodeChar c ++ encode cs := List.flatMap_cons

theorem encode_append (cs ds : List Char) : encode (cs ++ ds) = encode cs ++ encode ds :=
  List.flatMap_append

@[simp] theorem length_encode (cs : List Char) : (encode cs).length = byteCount cs := by
  induction cs with
  | nil => rfl
  | cons c cs ih => simp [ih]

theorem toList_loop (b : ByteArray) (i : ℕ) (r : List UInt8) :
    ByteArray.toList.loop b i r = r.reverse ++ b.data.toList.drop i := by
  fun_induction ByteArray.toList.loop b i r with
  | case1 i r hlt ih =>
    have hlt' : i < b.data.toList.length := by simpa using hlt
    have hget : b.get! i = b.data.toList[i] := by
      rw [ByteArray.get!, getElem!_pos b.data i (by simpa using hlt), Array.getElem_toList]
    rw [ih, List.drop_eq_getElem_cons hlt', hget]
    simp
  | case2 i r hge =>
    rw [List.drop_eq_nil_of_le (by simpa using hge), List.append_nil]

theorem data_toUTF8 (s : String) : s.toUTF8.data.toList = encode s.toList := by
  rw [String.toUTF8_eq_toByteArray, ← String.utf8Encode_toList, List.utf8Encode,
    List.toList_data_toByteArray]
  rfl

/-- The bytes of a string. -/
theorem toList_toUTF8 (s : String) : s.toUTF8.toList = encode s.toList := by
  rw [ByteArray.toList, toList_loop, data_toUTF8]
  rfl

/-- Characters are a prefix of others if their bytes are.  The first byte of a
character tells how many bytes it has. -/
theorem isPrefix_of_encode {cs ds : List Char} (h : encode ds <+: encode cs) : ds <+: cs := by
  obtain ⟨bs, h⟩ := h
  refine List.isPrefix_of_utf8Encode_append_eq_utf8Encode bs.toByteArray ?_
  rw [List.utf8Encode, List.utf8Encode, ← List.toByteArray_append]
  exact congrArg List.toByteArray h

/-- The bytes of a literal stand just where its characters do, because no byte
inside of a character begins another one. -/
theorem encode_isPrefix_drop {cs ds : List Char} {o : ℕ} (hne : ds ≠ []) :
    encode ds <+: (encode cs).drop o ↔ ∃ k, o = byteCount (cs.take k) ∧ ds <+: cs.drop k := by
  constructor
  · intro h
    obtain ⟨d, ds', rfl⟩ := List.exists_cons_of_ne_nil hne
    induction cs generalizing o with
    | nil =>
      have hlength := h.length_le
      have := d.utf8Size_pos
      simp at hlength
      omega
    | cons c cs ih =>
      by_cases ho : o = 0
      · subst ho
        exact ⟨0, by simp, isPrefix_of_encode (by simpa using h)⟩
      · by_cases hlt : o < c.utf8Size
        · -- The byte at the offset is inside of `c`, but it is the first byte of `d`.
          have hlen : o < (String.utf8EncodeChar c).length := by simpa using hlt
          obtain ⟨bs, h⟩ := h
          have hfirst := congrArg (·[0]?) h
          have hd : 0 < (String.utf8EncodeChar d).length := by simpa using d.utf8Size_pos
          rw [encode_cons, encode_cons, List.append_assoc, List.getElem?_append_left hd,
            List.getElem?_drop, Nat.add_zero, List.getElem?_append_left hlen,
            List.getElem?_eq_getElem hd, List.getElem?_eq_getElem hlen, Option.some_inj] at hfirst
          have hbyte : (String.utf8EncodeChar d)[0].IsUTF8FirstByte :=
            UInt8.isUTF8FirstByte_getElem_utf8EncodeChar.mpr rfl
          rw [hfirst] at hbyte
          exact absurd (UInt8.isUTF8FirstByte_getElem_utf8EncodeChar.mp hbyte) ho
        · have hle : (String.utf8EncodeChar c).length ≤ o := by simpa using hlt
          rw [encode_cons c cs, List.drop_append, List.drop_of_length_le hle,
            List.nil_append, String.length_utf8EncodeChar] at h
          obtain ⟨k, hk, hprefix⟩ := ih h
          refine ⟨k + 1, ?_, hprefix⟩
          simp at hk ⊢
          omega
  · rintro ⟨k, rfl, rest, hrest⟩
    have hcs : encode cs = encode (cs.take k) ++ encode (cs.drop k) := by
      rw [← encode_append, List.take_append_drop]
    rw [hcs, ← length_encode, List.drop_left, ← hrest, encode_append]
    exact List.prefix_append _ _

/-! ### Search by bytes -/

namespace Literal

variable {t : Target} {span : Span} {fold : Bool} {cs : List Char} {k n : ℕ}

@[simp] theorem chars_ofChars (cs : List Char) (fold : Bool) : (ofChars cs fold).chars = cs := rfl

@[simp] theorem fold_ofChars (cs : List Char) (fold : Bool) : (ofChars cs fold).fold = fold := rfl

/-- Whether an answer is the leftmost occurrence of a literal in a span, or
there is none.  All ways to search for a literal have an answer of this kind. -/
def Locates (t : Target) (span : Span) (fold : Bool) (cs : List Char) : Option Span → Prop
  | some r => t.Spells span fold r.start cs r.stop ∧ span.start ≤ r.start ∧ r.stop ≤ span.stop ∧
      ∀ i j, span.start ≤ i → i < r.start → ¬ t.Spells span fold i cs j
  | none => ∀ i j, span.start ≤ i → j ≤ span.stop → ¬ t.Spells span fold i cs j

theorem bytesAt_iff_isPrefix {text : ByteArray} {o : ℕ} {bs : List UInt8} :
    bytesAt text o bs = true ↔ bs <+: text.data.toList.drop o := by
  induction bs generalizing o with
  | nil => simp [bytesAt]
  | cons b bs ih =>
    have hget : text[o]? = text.data.toList[o]? := by
      rw [Array.getElem?_toList]
      rfl
    rw [bytesAt, Bool.and_eq_true, decide_eq_true_iff, ih, hget]
    by_cases hlt : o < text.data.toList.length
    · rw [List.drop_eq_getElem_cons hlt, List.cons_prefix_cons, List.getElem?_eq_getElem hlt,
        Option.some_inj, eq_comm]
    · have hnil : text.data.toList.drop o = [] := List.drop_eq_nil_of_le (by omega)
      rw [List.getElem?_eq_none (by omega), hnil]
      simp

/-- A literal occurs in a string where it is a prefix of the characters that are
left. -/
theorem occursAt_ofString {str : String} :
    (Target.ofString str).OccursAt false cs k ↔ cs <+: str.toList.drop k := by
  have hchars : (Target.ofString str).chars = str.toList := by
    simp [Target.ofString, Target.chars, Utf8Text.ofString]
  rw [List.prefix_iff_getElem?, Target.OccursAt, hchars]
  simp only [List.getElem?_drop, Case.charsMatch_false, exists_eq_right]
  constructor
  · intro h m hlt
    exact h m _ (List.getElem?_eq_getElem hlt)
  · intro h m c hm
    obtain ⟨hlt, rfl⟩ := List.getElem?_eq_some_iff.mp hm
    exact h m hlt

/-- An occurrence in a string is as long as the bytes of the literal, if case
counts. -/
theorem place_add_length {str : String} (h : (Target.ofString str).OccursAt false cs k) :
    (Target.ofString str).place (k + cs.length) =
      (Target.ofString str).place k + (encode cs).length := by
  have hplace : ∀ k, (Target.ofString str).place k = byteCount (str.toList.take k) := fun _ => rfl
  obtain ⟨rest, hrest⟩ := occursAt_ofString.mp h
  rw [hplace, hplace, List.take_add, byteCount_append, ← hrest, List.take_left, length_encode]

/-- **In a string, the bytes of a literal stand just where its characters do.**
The bytes of a character never begin within those of another one, which is why a
search by bytes finds no more than it should. -/
theorem bytesAt_iff {str : String} {i : ℕ} (hne : cs ≠ []) (hi : span.start ≤ i)
    (hj : i + (encode cs).length ≤ span.stop) : bytesAt str.toUTF8 i (encode cs) = true ↔
      (Target.ofString str).Spells span false i cs (i + (encode cs).length) := by
  rw [bytesAt_iff_isPrefix, data_toUTF8, encode_isPrefix_drop hne, Target.spells_iff_occursAt hne]
  constructor
  · rintro ⟨k, rfl, hprefix⟩
    have hoccurs := occursAt_ofString.mpr hprefix
    exact ⟨k, hoccurs, rfl, (place_add_length hoccurs).symm, hi, hj⟩
  · rintro ⟨k, hoccurs, rfl, -⟩
    exact ⟨k, rfl, occursAt_ofString.mp hoccurs⟩

/-- In a string, an occurrence of a literal is as long as its bytes. -/
theorem stop_of_spells {str : String} {i j : ℕ}
    (h : (Target.ofString str).Spells span false i cs j) : j = i + (encode cs).length := by
  by_cases hne : cs = []
  · subst hne
    exact h.symm
  · obtain ⟨k, hoccurs, rfl, rfl, -⟩ := (Target.spells_iff_occursAt hne).mp h
    exact place_add_length hoccurs

theorem firstBytes?_eq_find? (text : ByteArray) (bs : List UInt8) (o : ℕ) :
    firstBytes? text bs n o = (List.range' o n).find? (bytesAt text · bs) := by
  induction n generalizing o with
  | zero => rfl
  | succ n ih =>
    rw [firstBytes?.eq_def, List.range'_succ, List.find?_cons]
    simp only [ih]
    cases bytesAt text o bs <;> rfl

/-- The search by bytes finds the leftmost occurrence.  No occurrence of the
bytes begins inside of a character. -/
theorem findBytes?_locates {str : String} :
    Locates (.ofString str) span false cs ((ofChars cs false).findBytes? str.toUTF8 span) := by
  have hbytes : (ofChars cs false).bytes = encode cs := by
    rw [bytes, toList_toUTF8, String.toList_ofList]
    rfl
  -- The offsets that are tried are those from which there is room for the bytes.
  have hat : ∀ i, span.start ≤ i → i + (encode cs).length ≤ span.stop →
      (bytesAt str.toUTF8 i (encode cs) = true ↔
        (Target.ofString str).Spells span false i cs (i + (encode cs).length)) := by
    intro i hi hj
    by_cases hne : cs = []
    · subst hne
      simp [bytesAt, Target.Spells]
    · exact bytesAt_iff hne hi hj
  rw [findBytes?, hbytes, firstBytes?_eq_find?]
  cases hfind : (List.range' span.start (span.stop + 1 - span.start - (encode cs).length)).find?
      (bytesAt str.toUTF8 · (encode cs)) with
  | some i =>
    obtain ⟨hi, hmem, hfirst⟩ := List.find?_range'_eq_some.mp hfind
    rw [List.mem_range'_1] at hmem
    have hroom : i + (encode cs).length ≤ span.stop := by omega
    refine ⟨(hat i hmem.1 hroom).mp hi, hmem.1, hroom, ?_⟩
    intro i' j' hi' (hlt : i' < i) h
    obtain rfl := stop_of_spells h
    have hnot := hfirst i' hi' hlt
    rw [(hat i' hi' (by omega)).mpr h] at hnot
    cases hnot
  | none =>
    intro i' j' hi' hj' h
    obtain rfl := stop_of_spells h
    have hnot := List.find?_range'_eq_none.mp hfind i' hi' (by omega)
    rw [(hat i' hi' hj').mpr h] at hnot
    cases hnot

/-! ### The table of shifts -/

/-- Characters that are the same share a bucket, and so an entry. -/
theorem shift_eq {c d : Char} (h : Case.charsMatch fold c d = true) :
    (ofChars cs fold).shift c = (ofChars cs fold).shift d := by
  have hbucket : bucket fold c = bucket fold d := by
    cases fold with
    | false => rw [Case.charsMatch_false.mp h]
    | true => simp only [bucket, if_true, Case.charsMatch_true.mp h]
  exact congrArg (fun b : Fin bucketCount => (ofChars cs fold).shifts[b]) hbucket

/-- Further entries are not larger, because they belong to characters further
on. -/
theorem addShifts_le {shifts : Vector ℕ bucketCount} {b v : ℕ} (hb : b < bucketCount)
    (hv : shifts[b] ≤ v) (hlength : cs.length ≤ v + 1) : (addShifts fold shifts cs)[b] ≤ v := by
  fun_induction addShifts fold shifts cs with
  | case1 | case2 => exact hv
  | case3 shifts c d rest ih =>
    simp only [List.length_cons] at hlength ih ⊢
    refine ih ?_ (by omega)
    rw [Vector.getElem_set]
    split
    · omega
    · exact hv

/-- The entry of a character of the literal is at most its distance from the
end. -/
theorem addShifts_le_of_getElem? {shifts : Vector ℕ bucketCount} {c : Char} {m : ℕ}
    (hm : cs[m]? = some c) (hlast : m + 1 < cs.length) :
    (addShifts fold shifts cs)[bucket fold c] ≤ cs.length - 1 - m := by
  fun_induction addShifts fold shifts cs generalizing m with
  | case1 => cases hm
  | case2 shifts d => simp at hlast
  | case3 shifts d d' rest ih =>
    simp only [List.length_cons] at hlast ih ⊢
    cases m with
    | zero =>
      cases hm
      refine addShifts_le (bucket fold c).isLt ?_ (by simp)
      rw [Vector.getElem_set_self]
      omega
    | succ m =>
      have := ih hm (by omega)
      omega

/-- **A window does not move past an occurrence.**  Either the last character of
the window lies in the occurrence, and its entry is at most its distance from
the end there, or the occurrence lies behind the window. -/
theorem shift_le {c : Char} {k' : ℕ} (hne : cs ≠ []) (h : t.OccursAt fold cs k')
    (hc : t.chars[k + cs.length - 1]? = some c) (hlt : k < k') :
    k + (ofChars cs fold).shift c ≤ k' := by
  have hpos := List.length_pos_of_ne_nil hne
  by_cases hinside : k' < k + cs.length
  · -- The last character of the window lies in the occurrence.
    obtain ⟨m, hm⟩ : ∃ m, k' + m = k + cs.length - 1 := ⟨k + cs.length - 1 - k', by omega⟩
    have hget : cs[m]? = some cs[m] := List.getElem?_eq_getElem (by omega)
    obtain ⟨d, hd, hmatch⟩ := h m _ hget
    rw [hm, hc, Option.some_inj] at hd
    subst hd
    have hshift : (ofChars cs fold).shift cs[m] ≤ cs.length - 1 - m :=
      addShifts_le_of_getElem? hget (by omega)
    rw [← shift_eq hmatch] at hshift
    omega
  · have hshift : (ofChars cs fold).shift c ≤ max cs.length 1 := by
      refine addShifts_le (bucket fold c).isLt ?_ (by omega)
      rw [Vector.getElem_replicate]
    omega

/-! ### Search by windows -/

/-- Whether an answer is the first occurrence from a character on that has room,
or there is none. -/
def FirstFrom (t : Target) (fold : Bool) (cs : List Char) (limit k : ℕ) : Option Span → Prop
  | some r => ∃ k' ≥ k, t.OccursAt fold cs k' ∧ r = ⟨t.place k', t.place (k' + cs.length)⟩ ∧
      r.stop ≤ limit ∧ ∀ k'' ≥ k, k'' < k' → ¬ t.OccursAt fold cs k''
  | none => ∀ k' ≥ k, t.place (k' + cs.length) ≤ limit → ¬ t.OccursAt fold cs k'

section

variable {limit o : ℕ} (ht : t.IsGenuine)

include ht

/-- The offset so many characters further. -/
theorem advance_place (hlimit : t.isBoundary limit = true) (hk : k ≤ t.chars.length)
    (hle : t.place k ≤ limit) : advance t limit n (t.place k) = some o ↔
      k + n ≤ t.chars.length ∧ t.place (k + n) ≤ limit ∧ o = t.place (k + n) := by
  induction n generalizing k with
  | zero => simp [advance, hk, hle, eq_comm]
  | succ n ih =>
    have heq : k + (n + 1) = k + 1 + n := by omega
    rw [advance, heq]
    constructor
    · intro h
      split at h
      · rename_i c next hnext
        obtain ⟨k', hget, hplace, rfl, hle'⟩ := (Target.charAfter_iff ht hlimit).mp hnext
        have hlt := (List.getElem?_eq_some_iff.mp hget).1
        obtain rfl := Target.place_inj hk hlt.le hplace
        exact (ih hlt hle').mp h
      · cases h
    · rintro ⟨hlength, hle', rfl⟩
      have hlt : k < t.chars.length := by omega
      have hnext : t.charAfter (t.place k) limit = some (t.chars[k], t.place (k + 1)) :=
        (Target.charAfter_iff ht hlimit).mpr ⟨k, List.getElem?_eq_getElem hlt, rfl, rfl,
          (Target.place_le (by omega) hlength).trans hle'⟩
      rw [hnext]
      exact (ih hlt ((Target.place_le (by omega) hlength).trans hle')).mpr ⟨hlength, hle', rfl⟩

/-- The check of a window says whether the literal occurs in it.  Characters are
compared from the last to the first. -/
theorem regionMatchesBack_iff (hne : cs ≠ []) (hlength : k + cs.length ≤ t.chars.length) :
    (t.regionMatchesBack fold (t.place (k + cs.length)) (t.place k) cs).isSome = true ↔
      t.OccursAt fold cs k := by
  have hboundary : t.isBoundary (t.place k) = true :=
    (Target.isBoundary_iff ht).mpr ⟨k, by omega, rfl⟩
  have hmatch : ∀ (window : Span) j, t.isBoundary window.start = true →
      (t.regionMatchesBack fold window.stop window.start cs = some j ↔
        t.Spells window fold j cs window.stop) := by
    intro window j hstart
    rw [Target.regionMatchesBack, Target.matchBefore_iff ht hstart le_rfl, List.reverse_reverse]
  rw [Option.isSome_iff_exists]
  simp only [hmatch ⟨t.place k, t.place (k + cs.length)⟩ _ hboundary,
    Target.spells_iff_occursAt hne]
  constructor
  · rintro ⟨-, k', hoccurs, -, hstop, -⟩
    have := Target.place_inj hlength (hoccurs.add_length_le hne) hstop
    obtain rfl : k = k' := by omega
    exact hoccurs
  · intro hoccurs
    exact ⟨_, k, hoccurs, rfl, rfl, le_rfl, le_rfl⟩

omit ht in
/-- Windows that are skipped do not matter if the literal does not occur in
them. -/
theorem FirstFrom.of_skip {answer : Option Span} (hle : k ≤ n)
    (hskip : ∀ k' ≥ k, k' < n → ¬ t.OccursAt fold cs k')
    (h : FirstFrom t fold cs limit n answer) : FirstFrom t fold cs limit k answer := by
  cases answer with
  | some r =>
    obtain ⟨k', hk', hoccurs, hr, hstop, hfirst⟩ := h
    refine ⟨k', hle.trans hk', hoccurs, hr, hstop, fun k'' hk'' hlt => ?_⟩
    by_cases hn : k'' < n
    · exact hskip k'' hk'' hn
    · exact hfirst k'' (by omega) hlt
  | none =>
    intro k' hk' hroom
    by_cases hn : k' < n
    · exact hskip k' hk' hn
    · exact h k' (by omega) hroom

/-- The last character of a window.  There is one, as the literal is not empty. -/
theorem charBefore_window (hne : cs ≠ []) (hlength : k + cs.length ≤ t.chars.length) :
    ∃ d o, t.charBefore (t.place (k + cs.length)) (t.place k) = some (d, o) ∧
      t.chars[k + cs.length - 1]? = some d := by
  have hpos := List.length_pos_of_ne_nil hne
  have hboundary : t.isBoundary (t.place k) = true :=
    (Target.isBoundary_iff ht).mpr ⟨k, by omega, rfl⟩
  have hget : t.chars[k + cs.length - 1]? = some t.chars[k + cs.length - 1] :=
    List.getElem?_eq_getElem (by omega)
  refine ⟨_, t.place (k + cs.length - 1), ?_, hget⟩
  rw [Target.charBefore_iff ht hboundary]
  exact ⟨_, hget, rfl, by congr 1; omega, Target.place_le (by omega) (by omega)⟩

/-- The check of a window, which looks at its last character first, says whether
the literal occurs in it. -/
theorem windowCheck_iff (fold : Bool) {c d : Char} (hlast : cs.getLast? = some c)
    (hd : t.chars[k + cs.length - 1]? = some d) (hlength : k + cs.length ≤ t.chars.length) :
    (Case.charsMatch fold d c &&
      (t.regionMatchesBack fold (t.place (k + cs.length)) (t.place k) cs).isSome) = true ↔
      t.OccursAt fold cs k := by
  have hne : cs ≠ [] := by
    rintro rfl
    cases hlast
  rw [Bool.and_eq_true, regionMatchesBack_iff ht hne hlength, and_iff_right_iff_imp]
  intro hoccurs
  rw [List.getLast?_eq_getElem?] at hlast
  obtain ⟨d', hd', hmatch⟩ := hoccurs _ c hlast
  rw [← Nat.add_sub_assoc (List.length_pos_of_ne_nil hne), hd, Option.some_inj] at hd'
  exact hd' ▸ hmatch

omit ht in
/-- A window that the literal does not occur in may be moved by its shift, and
no occurrence is passed over. -/
theorem FirstFrom.of_shift {answer : Option Span} {d : Char} (hne : cs ≠ [])
    (hd : t.chars[k + cs.length - 1]? = some d) (hoccurs : ¬ t.OccursAt fold cs k)
    (h : FirstFrom t fold cs limit (k + (ofChars cs fold).shift d) answer) :
    FirstFrom t fold cs limit k answer := by
  refine h.of_skip (Nat.le_add_right _ _) fun k' hk' hlt hoccurs' => ?_
  rcases hk'.eq_or_lt with rfl | hlt'
  · exact hoccurs hoccurs'
  · have := shift_le hne hoccurs' hd hlt'
    omega

/-- No occurrence has room if the end of the first window is out of reach, as
later windows end later. -/
theorem firstFrom_none {m : ℕ} (hlimit : t.isBoundary limit = true) (hne : cs ≠ [])
    (hm : m ≤ t.chars.length) (hle : t.place m ≤ limit) (hfar : m + n ≤ k + cs.length)
    (hadvance : advance t limit n (t.place m) = none) : FirstFrom t fold cs limit k none := by
  intro k' hk' hroom hoccurs
  have hlength := hoccurs.add_length_le hne
  have hsome : advance t limit n (t.place m) = some (t.place (m + n)) :=
    (advance_place ht hlimit hm hle).mpr
      ⟨by omega, (Target.place_le (by omega) hlength).trans hroom, rfl⟩
  rw [hadvance] at hsome
  cases hsome

/-- From a window on, the search finds the first occurrence that has room.  Each
round finds it or moves the window, and no occurrence is passed over. -/
theorem findWindow?_firstFrom {c : Char} (hlimit : t.isBoundary limit = true)
    (hlast : cs.getLast? = some c) (hlength : k + cs.length ≤ t.chars.length)
    (hle : t.place (k + cs.length) ≤ limit) : FirstFrom t fold cs limit k
      ((ofChars cs fold).findWindow? t limit c (t.place k) (t.place (k + cs.length))) := by
  have hne : cs ≠ [] := by
    rintro rfl
    cases hlast
  -- The window moves by at least one character, so fewer of them are left.
  induction hn : t.chars.length - k using Nat.strong_induction_on generalizing k with
  | _ n ih =>
    obtain ⟨d, o, hbefore, hd⟩ := charBefore_window ht hne hlength
    have hcheck := windowCheck_iff ht fold hlast hd hlength
    have hshift := (ofChars cs fold).shift_pos d
    have heq : k + cs.length + (ofChars cs fold).shift d =
        k + (ofChars cs fold).shift d + cs.length := Nat.add_right_comm _ _ _
    rw [findWindow?.eq_def, hbefore]
    simp only
    split
    · rename_i h
      exact ⟨k, le_rfl, hcheck.mp h, rfl, hle, fun k' hk' hlt => by omega⟩
    · rename_i h
      refine FirstFrom.of_shift hne hd (mt hcheck.mpr h) ?_
      split
      · rename_i hadvance
        exact firstFrom_none ht hlimit hne hlength hle heq.le hadvance
      · rename_i stop hadvance
        obtain ⟨hlength', hroom, rfl⟩ := (advance_place ht hlimit hlength hle).mp hadvance
        rw [heq] at hlength' hroom ⊢
        have hstart : advance t limit ((ofChars cs fold).shift d) (t.place k) =
            some (t.place (k + (ofChars cs fold).shift d)) :=
          (advance_place ht hlimit (by omega) ((Target.place_le (by omega) hlength).trans hle)).mpr
            ⟨by omega, (Target.place_le (by omega) hlength').trans hroom, rfl⟩
        rw [hstart]
        exact ih _ (by omega) hlength' hroom rfl

omit ht in
/-- The first occurrence from the start of a span on is the leftmost one in it,
if it has room there. -/
theorem FirstFrom.locates {answer : Option Span} (hne : cs ≠ []) (hk : k ≤ t.chars.length)
    (hplace : span.start = t.place k) (h : FirstFrom t fold cs span.stop k answer) :
    Locates t span fold cs answer := by
  have hafter : ∀ i j, span.start ≤ i → t.Spells span fold i cs j → ∃ k' ≥ k,
      t.OccursAt fold cs k' ∧ i = t.place k' ∧ j = t.place (k' + cs.length) := by
    intro i j hi h
    obtain ⟨k', hoccurs, rfl, rfl, -⟩ := (Target.spells_iff_occursAt hne).mp h
    exact ⟨k', Target.le_of_place_le hk (hplace ▸ hi), hoccurs, rfl, rfl⟩
  cases answer with
  | some r =>
    obtain ⟨k', hk', hoccurs, rfl, hr, hleft⟩ := h
    have hlength := hoccurs.add_length_le hne
    have hle : span.start ≤ t.place k' := hplace ▸ Target.place_le hk' (by omega)
    have hspells := (Target.spells_iff_occursAt hne).mpr ⟨k', hoccurs, rfl, rfl, hle, hr⟩
    refine ⟨hspells, hle, hr, ?_⟩
    intro i j hi (hlt : i < t.place k') h
    obtain ⟨k'', hk'', hoccurs', rfl, -⟩ := hafter i j hi h
    refine hleft k'' hk'' ?_ hoccurs'
    by_contra hge
    have hlength' := hoccurs'.add_length_le hne
    have : t.place k' ≤ t.place k'' := Target.place_le (by omega) (by omega)
    omega
  | none =>
    intro i j hi hj h'
    obtain ⟨k', hk', hoccurs, rfl, rfl⟩ := hafter i j hi h'
    exact h k' hk' hj hoccurs

/-- The search by windows finds the leftmost occurrence, with regard to case or
without. -/
theorem findChars?_locates (hstart : t.isBoundary span.start = true)
    (hstop : t.isBoundary span.stop = true) (hspan : span.start ≤ span.stop) :
    Locates t span fold cs ((ofChars cs fold).findChars? t span) := by
  rw [findChars?, chars_ofChars]
  cases hlast : cs.getLast? with
  | none =>
    rw [List.getLast?_eq_none_iff] at hlast
    subst hlast
    exact ⟨rfl, le_rfl, hspan, fun i j hi (hlt : i < span.start) => by omega⟩
  | some c =>
    have hne : cs ≠ [] := by
      rintro rfl
      cases hlast
    obtain ⟨k, hk, hplace⟩ := (Target.isBoundary_iff ht).mp hstart
    have hle : t.place k ≤ span.stop := hplace ▸ hspan
    refine FirstFrom.locates hne hk hplace ?_
    rw [hplace]
    cases hadvance : advance t span.stop cs.length (t.place k) with
    | none => exact firstFrom_none ht hstop hne hk hle le_rfl hadvance
    | some stop =>
      obtain ⟨hlength, hroom, rfl⟩ := (advance_place ht hstop hk hle).mp hadvance
      exact findWindow?_firstFrom ht hstop hlast hlength hroom

/-- **The answer of a search for a literal is its leftmost occurrence.** -/
theorem find?_locates (hstart : t.isBoundary span.start = true)
    (hstop : t.isBoundary span.stop = true) (hspan : span.start ≤ span.stop) :
    Locates t span fold cs ((ofChars cs fold).find? t span) := by
  rw [find?, fold_ofChars]
  split
  · rename_i text htext
    cases t with
    | utf8 text =>
      obtain ⟨str, rfl⟩ := ht
      cases htext
      exact findBytes?_locates
    | buffer | cursor => cases htext
  · exact findChars?_locates ht hstart hstop hspan

end

end Literal

end Regexp
