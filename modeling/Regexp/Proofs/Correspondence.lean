import Regexp.Proofs.LiteralSearch
import Regexp.Proofs.Safety

/-!
# Corresponding texts

Where one text has the characters of another one, at offsets that are told by a
map, everything that looks at the texts sees the same: literals, copies of
regions, anchors and so the atoms of a program.

The same pattern is searched for in a string and in a buffer, in a text and in a
part that is cut out of it, in a buffer and in a cursor.  Each time the
characters are the same and the offsets are not, and each time the answer should
be the same up to the offsets.  `Target.Embeds` is what these have in common: a
map of offsets such that what begins at the image of an offset is the same
character, and ends at the image of where it ended.  Counting the characters of
a text is one such map, and taking a part out of a text another.

A map says nothing of offsets inside of characters, so all statements are about
offsets that cut none.  Reading forward and backward keeps to such offsets
(`Target.isBoundary_of_charAfter`, `Target.isBoundary_of_charBefore`).  Most of
the loops over texts then go through step by step.  Two of them need more: a
literal is refused early in a buffer without enough room for it
(`Target.Embeds.regionMatches`), and it is searched for byte by byte in a string
(`Literal.find?_eq_findChars?`).

Slots are in correspondence where the images of all that is recorded are
recorded; `Attempt.Embeds.read` asks for this only where a group is copied.

## Main definitions

* `Span.map` — a span whose ends are mapped.
* `Target.Embeds` — a map of offsets under which one character after the other
  is the same.
* `Attempt.Embeds` — attempts of the same program on texts that correspond.

## Main statements

* `Target.Embeds.regionMatches`, `Target.Embeds.repeats` — literals and copies
  of regions.
* `Literal.find?_map` — the first occurrence of a literal.
* `Anchor.holds_map` — an anchor holds at the image of an offset if it holds at
  the offset.
* `Attempt.Embeds.read` — an atom reads to the image of the offset that it reads
  to.
-/

namespace Regexp

/-- A span whose ends are mapped. -/
def Span.map (f : ℕ → ℕ) (s : Span) : Span := ⟨f s.start, f s.stop⟩

/-! ### Texts -/

/-- Whether a text has, from the image of each offset of another text on, the
same character as that one, up to the image of the next offset.  A string and
its characters in a buffer are an instance, and so is a part of a text that has
been cut out. -/
structure Target.Embeds (t t' : Target) (f : ℕ → ℕ) : Prop where
  genuine : t.IsGenuine
  genuine' : t'.IsGenuine
  boundary : ∀ {o}, t.isBoundary o = true → t'.isBoundary (f o) = true
  lt : ∀ {o o'}, t.isBoundary o = true → t.isBoundary o' = true → o < o' → f o < f o'
  charAfter : ∀ {o limit}, t.isBoundary o = true → t.isBoundary limit = true →
    t'.charAfter (f o) (f limit) = (t.charAfter o limit).map (Prod.map id f)
  charBefore : ∀ {o start}, t.isBoundary o = true → t.isBoundary start = true →
    t'.charBefore (f o) (f start) = (t.charBefore o start).map (Prod.map id f)

namespace Target

variable {t t' : Target} {f : ℕ → ℕ} {fold : Bool} {i j o limit start : ℕ} {c : Char}
  {cs : List Char}

/-- Reading forward ends where a character does. -/
theorem isBoundary_of_charAfter (ht : t.IsGenuine) (hlimit : t.isBoundary limit = true)
    (h : t.charAfter o limit = some (c, i)) : t.isBoundary i = true := by
  obtain ⟨k, hk, -, rfl, -⟩ := (charAfter_iff ht hlimit).mp h
  exact (isBoundary_iff ht).mpr ⟨k + 1, (List.getElem?_eq_some_iff.mp hk).1, rfl⟩

/-- Reading backward ends where a character begins. -/
theorem isBoundary_of_charBefore (ht : t.IsGenuine) (hstart : t.isBoundary start = true)
    (h : t.charBefore o start = some (c, i)) : t.isBoundary i = true := by
  obtain ⟨k, hk, rfl, -⟩ := (charBefore_iff ht hstart).mp h
  exact (isBoundary_iff ht).mpr ⟨k, (List.getElem?_eq_some_iff.mp hk).1.le, rfl⟩

/-- The copy of a region goes on character by character. -/
theorem repeatsFrom_of_lt {stop pos : ℕ} (h : pos < stop) :
    t.repeatsFrom fold limit stop i pos = (t.charAfter pos stop).bind fun expected =>
      (t.charAfter i limit).bind fun found =>
        if Case.charsMatch fold found.1 expected.1 then
          t.repeatsFrom fold limit stop found.2 expected.2
        else none := by
  rw [repeatsFrom, if_pos h]
  split
  · rename_i hexpected
    rw [hexpected, Option.bind_some]
    cases t.charAfter i limit <;> rfl
  · rename_i hexpected
    rw [hexpected, Option.bind_none]

theorem repeatsUpTo_of_lt {first pos : ℕ} (h : first < pos) :
    t.repeatsUpTo fold start first i pos = (t.charBefore pos first).bind fun expected =>
      (t.charBefore i start).bind fun found =>
        if Case.charsMatch fold found.1 expected.1 then
          t.repeatsUpTo fold start first found.2 expected.2
        else none := by
  rw [repeatsUpTo, if_pos h]
  split
  · rename_i hexpected
    rw [hexpected, Option.bind_some]
    cases t.charBefore i start <;> rfl
  · rename_i hexpected
    rw [hexpected, Option.bind_none]

namespace Embeds

variable (h : t.Embeds t' f)

include h

section

variable (hi : t.isBoundary i = true) (hj : t.isBoundary j = true)

include hi hj

theorem lt_iff : f i < f j ↔ i < j := by
  refine ⟨fun hlt => ?_, h.lt hi hj⟩
  rcases lt_trichotomy i j with hij | rfl | hij
  · exact hij
  · exact absurd hlt (lt_irrefl _)
  · exact absurd hlt (h.lt hj hi hij).asymm

theorem le_iff : f i ≤ f j ↔ i ≤ j := by rw [← not_lt, h.lt_iff hj hi, not_lt]

theorem eq_iff : f i = f j ↔ i = j := by
  rw [le_antisymm_iff, h.le_iff hi hj, h.le_iff hj hi, ← le_antisymm_iff]

theorem min_eq : min (f i) (f j) = f (min i j) := by
  rcases le_total i j with hij | hij
  · rw [min_eq_left hij, min_eq_left ((h.le_iff hi hj).mpr hij)]
  · rw [min_eq_right hij, min_eq_right ((h.le_iff hj hi).mpr hij)]

end

theorem matchAfter (ho : t.isBoundary o = true) (hlimit : t.isBoundary limit = true) :
    t'.matchAfter fold (f limit) (f o) cs = (t.matchAfter fold limit o cs).map f := by
  induction cs generalizing o with
  | nil => rfl
  | cons c cs ih =>
    rw [Target.matchAfter, Target.matchAfter, h.charAfter ho hlimit]
    cases hread : t.charAfter o limit with
    | none => rfl
    | some r =>
      simp only [Option.map_some, Prod.map, id]
      split
      · exact ih (isBoundary_of_charAfter h.genuine hlimit hread)
      · rfl

theorem matchBefore (ho : t.isBoundary o = true) (hstart : t.isBoundary start = true) :
    t'.matchBefore fold (f start) (f o) cs = (t.matchBefore fold start o cs).map f := by
  induction cs generalizing o with
  | nil => rfl
  | cons c cs ih =>
    rw [Target.matchBefore, Target.matchBefore, h.charBefore ho hstart]
    cases hread : t.charBefore o start with
    | none => rfl
    | some r =>
      simp only [Option.map_some, Prod.map, id]
      split
      · exact ih (isBoundary_of_charBefore h.genuine hstart hread)
      · rfl

/-- A literal, for which a buffer has a look at the room first. -/
theorem regionMatches (ho : t.isBoundary o = true) (hlimit : t.isBoundary limit = true)
    (hle : o ≤ limit) :
    t'.regionMatches fold (f o) (f limit) cs = (t.regionMatches fold o limit cs).map f := by
  rw [regionMatches_eq h.genuine' (h.boundary hlimit) ((h.le_iff ho hlimit).mpr hle),
    regionMatches_eq h.genuine hlimit hle, h.matchAfter ho hlimit]

theorem regionMatchesBack (ho : t.isBoundary o = true) (hstart : t.isBoundary start = true) :
    t'.regionMatchesBack fold (f o) (f start) cs = (t.regionMatchesBack fold o start cs).map f :=
  h.matchBefore ho hstart

theorem repeatsFrom {stop pos : ℕ} (hlimit : t.isBoundary limit = true)
    (hstop : t.isBoundary stop = true) (ho : t.isBoundary o = true)
    (hpos : t.isBoundary pos = true) :
    t'.repeatsFrom fold (f limit) (f stop) (f o) (f pos) =
      (t.repeatsFrom fold limit stop o pos).map f := by
  induction hn : stop - pos using Nat.strong_induction_on generalizing o pos with
  | _ n ih =>
    by_cases hlt : pos < stop
    · rw [repeatsFrom_of_lt (h.lt hpos hstop hlt), repeatsFrom_of_lt hlt, h.charAfter hpos hstop,
        h.charAfter ho hlimit]
      cases hexpected : t.charAfter pos stop with
      | none => rfl
      | some expected =>
        cases hfound : t.charAfter o limit with
        | none => rfl
        | some found =>
          have hbounds := charAfter_bounds hexpected
          simp only [Option.map_some, Option.bind_some, Prod.map_fst, Prod.map_snd, id]
          split
          · exact ih _ (by omega) (isBoundary_of_charAfter h.genuine hlimit hfound)
              (isBoundary_of_charAfter h.genuine hstop hexpected) rfl
          · rfl
    · rw [Target.repeatsFrom, Target.repeatsFrom, if_neg hlt,
        if_neg (mt (h.lt_iff hpos hstop).mp hlt)]
      rfl

theorem repeatsUpTo {first pos : ℕ} (hstart : t.isBoundary start = true)
    (hfirst : t.isBoundary first = true) (ho : t.isBoundary o = true)
    (hpos : t.isBoundary pos = true) :
    t'.repeatsUpTo fold (f start) (f first) (f o) (f pos) =
      (t.repeatsUpTo fold start first o pos).map f := by
  induction pos using Nat.strong_induction_on generalizing o with
  | _ pos ih =>
    by_cases hlt : first < pos
    · rw [repeatsUpTo_of_lt (h.lt hfirst hpos hlt), repeatsUpTo_of_lt hlt, h.charBefore hpos hfirst,
        h.charBefore ho hstart]
      cases hexpected : t.charBefore pos first with
      | none => rfl
      | some expected =>
        cases hfound : t.charBefore o start with
        | none => rfl
        | some found =>
          have hbounds := charBefore_bounds hexpected
          simp only [Option.map_some, Option.bind_some, Prod.map_fst, Prod.map_snd, id]
          split
          · exact ih _ (by omega) (isBoundary_of_charBefore h.genuine hstart hfound)
              (isBoundary_of_charBefore h.genuine hfirst hexpected)
          · rfl
    · rw [Target.repeatsUpTo, Target.repeatsUpTo, if_neg hlt,
        if_neg (mt (h.lt_iff hfirst hpos).mp hlt)]
      rfl

end Embeds

end Target

/-! ### Literals -/

namespace Literal

variable {t t' : Target} {f : ℕ → ℕ} {fold : Bool} {cs : List Char} {span : Span}
  {limit o start stop n : ℕ}

/-- There is one leftmost occurrence at most. -/
theorem Locates.unique {r r' : Option Span} (ht : t.IsGenuine)
    (hstop : t.isBoundary span.stop = true) (h : Locates t span fold cs r)
    (h' : Locates t span fold cs r') : r = r' := by
  cases r with
  | none =>
    cases r' with
    | none => rfl
    | some m' => exact absurd h'.1 (h _ _ h'.2.1 h'.2.2.1)
  | some m =>
    cases r' with
    | none => exact absurd h.1 (h' _ _ h.2.1 h.2.2.1)
    | some m' =>
      obtain ⟨hspells, hstart, -, hfirst⟩ := h
      obtain ⟨hspells', hstart', -, hfirst'⟩ := h'
      obtain ⟨i, j⟩ := m
      obtain ⟨i', j'⟩ := m'
      rcases lt_trichotomy i i' with hlt | rfl | hlt
      · exact absurd hspells (hfirst' _ _ hstart hlt)
      · rw [← Target.matchAfter_iff ht hstop hstart] at hspells hspells'
        cases hspells.symm.trans hspells'
        rfl
      · exact absurd hspells' (hfirst _ _ hstart' hlt)

/-- The search by bytes finds what the search by windows would find. -/
theorem find?_eq_findChars? (ht : t.IsGenuine) (hstart : t.isBoundary span.start = true)
    (hstop : t.isBoundary span.stop = true) (hle : span.start ≤ span.stop) :
    (ofChars cs fold).find? t span = (ofChars cs fold).findChars? t span :=
  (find?_locates ht hstart hstop hle).unique ht hstop (findChars?_locates ht hstart hstop hle)

theorem isBoundary_of_advance (ht : t.IsGenuine) (hlimit : t.isBoundary limit = true)
    (ho : t.isBoundary o = true) (h : advance t limit n o = some stop) :
    t.isBoundary stop = true := by
  induction n generalizing o with
  | zero =>
    cases h
    exact ho
  | succ n ih =>
    rw [advance] at h
    split at h
    · rename_i hread
      exact ih (Target.isBoundary_of_charAfter ht hlimit hread) h
    · cases h

/-- A window moves on as long as it shows no occurrence and there are characters
to move over. -/
theorem findWindow?_eq (l : Literal) (t : Target) (limit : ℕ) (last : Char) (start stop : ℕ) :
    l.findWindow? t limit last start stop = (t.charBefore stop start).bind fun r =>
      if Case.charsMatch l.fold r.1 last && (t.regionMatchesBack l.fold stop start l.chars).isSome
      then some ⟨start, stop⟩
      else (advance t limit (l.shift r.1) stop).bind fun stop' =>
        (advance t limit (l.shift r.1) start).bind fun start' =>
          l.findWindow? t limit last start' stop' := by
  rw [findWindow?]
  cases t.charBefore stop start with
  | none => rfl
  | some r =>
    simp only [Option.bind_some]
    split
    · rfl
    · split
      · rename_i hstop
        rw [hstop, Option.bind_none]
      · rename_i hstop
        rw [hstop, Option.bind_some]
        cases advance t limit (l.shift r.1) start <;> rfl

variable (h : t.Embeds t' f)

include h

theorem advance_map (hlimit : t.isBoundary limit = true) (ho : t.isBoundary o = true) :
    advance t' (f limit) n (f o) = (advance t limit n o).map f := by
  induction n generalizing o with
  | zero => rfl
  | succ n ih =>
    rw [advance, advance, h.charAfter ho hlimit]
    cases hread : t.charAfter o limit with
    | none => rfl
    | some r => exact ih (Target.isBoundary_of_charAfter h.genuine hlimit hread)

theorem findWindow?_map (l : Literal) (last : Char) (hlimit : t.isBoundary limit = true)
    (hstart : t.isBoundary start = true) (hstop : t.isBoundary stop = true) :
    l.findWindow? t' (f limit) last (f start) (f stop) =
      (l.findWindow? t limit last start stop).map (Span.map f) := by
  induction hn : limit - stop using Nat.strong_induction_on generalizing start stop with
  | _ n ih =>
    rw [findWindow?_eq, findWindow?_eq, h.charBefore hstop hstart, h.regionMatchesBack hstop hstart]
    cases hread : t.charBefore stop start with
    | none => rfl
    | some r =>
      simp only [Option.map_some, Option.bind_some, Prod.map_fst, id, Option.isSome_map,
        advance_map h hlimit hstop, advance_map h hlimit hstart]
      split
      · rfl
      · cases hnext : advance t limit (l.shift r.1) stop with
        | none => rfl
        | some stop' =>
          have hbounds := advance_bounds hnext (l.shift_pos r.1)
          cases hnext' : advance t limit (l.shift r.1) start with
          | none => rfl
          | some start' =>
            exact ih _ (by omega) (isBoundary_of_advance h.genuine hlimit hstart hnext')
              (isBoundary_of_advance h.genuine hlimit hstop hnext) rfl

/-- **The first occurrence of a literal is at the image of where it is in the
other text.**  The two searches may be of different kinds, by bytes and by
windows, and what they have in common is that they find the first occurrence. -/
theorem find?_map (hstart : t.isBoundary span.start = true) (hstop : t.isBoundary span.stop = true)
    (hle : span.start ≤ span.stop) :
    (ofChars cs fold).find? t' (span.map f) =
      ((ofChars cs fold).find? t span).map (Span.map f) := by
  rw [find?_eq_findChars? h.genuine hstart hstop hle,
    find?_eq_findChars? h.genuine' (h.boundary hstart) (h.boundary hstop)
      ((h.le_iff hstart hstop).mpr hle), findChars?, findChars?]
  cases (ofChars cs fold).chars.getLast? with
  | none => rfl
  | some last =>
    simp only [Span.map, advance_map h hstop hstart]
    cases hend : advance t span.stop (ofChars cs fold).chars.length span.start with
    | none => rfl
    | some stop =>
      exact findWindow?_map h _ last hstop hstart
        (isBoundary_of_advance h.genuine hstop hstart hend)

end Literal

/-! ### Anchors -/

namespace Anchor

variable {t t' : Target} {f : ℕ → ℕ} {o limit start : ℕ} {s : Span} {opts : Options}

/-- Characters that are ignored are passed over. -/
theorem lastType_eq (start offset : ℕ) : lastType opts t start offset =
    ((t.charBefore offset start).map fun r =>
      if WordType.of opts r.1 = .ignored then lastType opts t start r.2
      else .of opts r.1).getD .other := by
  rw [lastType]
  split
  · rename_i hchar
    rw [hchar, Option.map_some, Option.getD_some]
    split <;> simp_all
  · rename_i hchar
    rw [hchar, Option.map_none, Option.getD_none]

variable (h : t.Embeds t' f)

include h

theorem afterTerminator_map (ho : t.isBoundary o = true) (hstart : t.isBoundary start = true) :
    afterTerminator t' (f start) (f o) = afterTerminator t start o := by
  rw [afterTerminator, afterTerminator, h.charBefore ho hstart]
  cases t.charBefore o start <;> rfl

theorem beforeTerminator_map (ho : t.isBoundary o = true) (hlimit : t.isBoundary limit = true) :
    beforeTerminator t' (f limit) (f o) = beforeTerminator t limit o := by
  rw [beforeTerminator, beforeTerminator, h.charAfter ho hlimit]
  cases t.charAfter o limit <;> rfl

theorem atFinalTerminator_map (ho : t.isBoundary o = true) (hlimit : t.isBoundary limit = true) :
    atFinalTerminator t' (f limit) (f o) = atFinalTerminator t limit o := by
  rw [atFinalTerminator, atFinalTerminator, h.charAfter ho hlimit]
  simp only [h.eq_iff ho hlimit]
  cases hread : t.charAfter o limit with
  | none => rfl
  | some r =>
    obtain ⟨c, n⟩ := r
    have hn := Target.isBoundary_of_charAfter h.genuine hlimit hread
    have hfeed : t'.charAfter (f n) (f limit) = some ('\n', f limit) ↔
        t.charAfter n limit = some ('\n', limit) := by
      rw [h.charAfter hn hlimit]
      cases hnext : t.charAfter n limit with
      | none => simp
      | some r =>
        have hm := Target.isBoundary_of_charAfter h.genuine hlimit hnext
        simp [Prod.ext_iff, h.eq_iff hm hlimit]
    simp only [Option.map_some, Prod.map, id, h.eq_iff hn hlimit, hfeed]

theorem typeAfter_map (hstart : t.isBoundary s.start = true) (hstop : t.isBoundary s.stop = true)
    (ho : t.isBoundary o = true) :
    typeAfter opts t' (s.map f) (f o) = typeAfter opts t s o := by
  simp only [typeAfter, Span.map, h.lt_iff ho hstart, h.charAfter ho hstop]
  cases t.charAfter o s.stop <;> rfl

theorem lastType_map (ho : t.isBoundary o = true) (hstart : t.isBoundary start = true) :
    lastType opts t' (f start) (f o) = lastType opts t start o := by
  induction o using Nat.strong_induction_on with
  | _ o ih =>
    rw [lastType_eq, lastType_eq, h.charBefore ho hstart]
    cases hread : t.charBefore o start with
    | none => rfl
    | some r =>
      have hlt := (Target.charBefore_bounds hread).2
      simp only [Option.map_some, Prod.map_fst, Prod.map_snd, id,
        ih r.2 hlt (Target.isBoundary_of_charBefore h.genuine hstart hread)]

theorem typeBefore_map (hstart : t.isBoundary s.start = true) (hstop : t.isBoundary s.stop = true)
    (ho : t.isBoundary o = true) :
    typeBefore opts t' (s.map f) (f o) = typeBefore opts t s o := by
  simp only [typeBefore, Span.map, h.min_eq ho hstop]
  refine lastType_map h ?_ hstart
  rcases min_choice o s.stop with heq | heq <;> rw [heq] <;> assumption

/-- **An anchor holds at the image of an offset if it holds at the offset.**  It
looks at the characters around, but not beyond the ends of the span. -/
theorem holds_map (a : Anchor) (hstart : t.isBoundary s.start = true)
    (hstop : t.isBoundary s.stop = true) (ho : t.isBoundary o = true) :
    a.holds t' (s.map f) (f o) opts = a.holds t s o opts := by
  have hlt : f s.start < f o ↔ s.start < o := h.lt_iff hstart ho
  have hlt' : f o < f s.stop ↔ o < s.stop := h.lt_iff ho hstop
  have hempty : f s.start = f s.stop ↔ s.start = s.stop := h.eq_iff hstart hstop
  cases a with
  | startLine =>
    simp only [holds, Span.map, h.eq_iff ho hstart, gt_iff_lt, hlt, hlt',
      afterTerminator_map h ho hstart]
  | endLine =>
    simp only [holds, Span.map, h.eq_iff ho hstop, beforeTerminator_map h ho hstop,
      atFinalTerminator_map h ho hstop]
  | startText => simp only [holds, Span.map, h.eq_iff ho hstart]
  | endTextOrLine => exact atFinalTerminator_map h ho hstop
  | endText => simp only [holds, Span.map, h.eq_iff ho hstop]
  | wordBoundary | notWordBoundary =>
    simp only [holds, typeAfter_map h hstart hstop ho, typeBefore_map h hstart hstop ho]
    simp only [Span.map, ne_eq, hempty]
  | wordStart =>
    simp only [holds, typeAfter_map h hstart hstop ho, typeBefore_map h hstart hstop ho]
    simp only [Span.map, ne_eq, hempty, h.eq_iff ho hstop]
  | wordEnd =>
    simp only [holds, typeAfter_map h hstart hstop ho, typeBefore_map h hstart hstop ho]
    simp only [Span.map, ne_eq, hempty, h.eq_iff ho hstart]

end Anchor

/-! ### Attempts -/

namespace Attempt

/-- Whether an attempt runs the program of another one, on a text that
corresponds to the other's and on the image of its span. -/
structure Embeds (a a' : Attempt) (f : ℕ → ℕ) : Prop where
  target : a.target.Embeds a'.target f
  span_eq : a'.span = a.span.map f
  program_eq : a'.program = a.program
  whole_eq : a'.whole = a.whole
  start_boundary : a.target.isBoundary a.span.start = true
  stop_boundary : a.target.isBoundary a.span.stop = true

namespace Embeds

variable {a a' : Attempt} {f : ℕ → ℕ} {opts : Options} {reverse : Bool} {i : ℕ}
  {sl sl' : Option Slots} (h : a.Embeds a' f)

include h

theorem onText : a.OnText := ⟨h.target.genuine, h.start_boundary, h.stop_boundary⟩

theorem inSpan (hi : a.Placed i) : a'.InSpan (f i) := by
  rw [InSpan, h.span_eq]
  exact ⟨(h.target.le_iff h.start_boundary hi.2).mpr hi.1.1,
    (h.target.le_iff hi.2 h.stop_boundary).mpr hi.1.2⟩

theorem nextChar (hi : a.Placed i) :
    a'.nextChar reverse (f i) = (a.nextChar reverse i).map (Prod.map id f) := by
  simp only [Attempt.nextChar, h.span_eq]
  cases reverse with
  | false => exact h.target.charAfter hi.2 h.stop_boundary
  | true => exact h.target.charBefore hi.2 h.start_boundary

theorem readChar (hi : a.Placed i) (test : Char → Bool) :
    a'.readChar reverse (f i) test = (a.readChar reverse i test).map f := by
  rw [Attempt.readChar, Attempt.readChar, h.nextChar hi]
  cases a.nextChar reverse i with
  | none => rfl
  | some r =>
    simp only [Option.map_some, Prod.map, id]
    split <;> rfl

/-- What a group has captured has an image where the images of all slots are
recorded. -/
theorem capturedSpan_map (hheld : ∀ slots ∈ sl, a.PlacedAll slots) (group : ℕ) :
    capturedSpan (sl.map (Array.map (Option.map f))) group =
      (capturedSpan sl group).map (Option.map (Span.map f)) := by
  cases sl with
  | none => rfl
  | some slots =>
    simp only [capturedSpan, Option.map_some, Array.size_map, Array.getElem?_map]
    split
    · rfl
    · rw [Option.join_map_eq_map_join, Option.join_map_eq_map_join]
      cases hstart : slots[2 * group]?.join with
      | none => rfl
      | some i =>
        cases hstop : slots[2 * group + 1]?.join with
        | none => rfl
        | some j =>
          have hplaced : ∀ {n o : ℕ}, slots[n]?.join = some o → a.Placed o := fun ho =>
            hheld slots rfl _ (Array.mem_of_getElem? (Option.join_eq_some_iff.mp ho))
          simp only [Option.map_some, h.target.le_iff (hplaced hstart).2 (hplaced hstop).2]
          split <;> rfl

/-- **An atom reads to the image of the offset that it reads to**, if a group
that it copies has captured the image as well. -/
theorem read (hi : a.Placed i) (hheld : ∀ slots ∈ sl, a.PlacedAll slots) (atom : Atom)
    (hcaptured : ∀ group, atom = .backref group →
      capturedSpan sl' group = (capturedSpan sl group).map (Option.map (Span.map f))) :
    a'.read atom opts reverse (f i) sl' = (a.read atom opts reverse i sl).map (Option.map f) := by
  cases atom with
  | char | range | dot => exact congrArg Except.ok (h.readChar hi _)
  | string cs =>
    refine congrArg Except.ok ?_
    rw [h.span_eq]
    cases reverse with
    | false => exact h.target.regionMatches hi.2 h.stop_boundary hi.1.2
    | true => exact h.target.regionMatchesBack hi.2 h.start_boundary
  | anchor anchor =>
    refine congrArg Except.ok ?_
    have hholds : anchor.holds a'.target (a.span.map f) (f i) opts = _ :=
      anchor.holds_map h.target h.start_boundary h.stop_boundary hi.2
    rw [h.span_eq, hholds]
    split <;> rfl
  | backref group =>
    simp only [Attempt.read]
    rw [hcaptured group rfl]
    cases hspan : capturedSpan sl group with
    | error e => rfl
    | ok captured =>
      cases captured with
      | none => rfl
      | some region =>
        obtain ⟨-, hstart, hstop⟩ := placed_of_captured hheld hspan
        refine congrArg Except.ok ?_
        rw [h.span_eq]
        cases reverse with
        | false => exact h.target.repeatsFrom h.stop_boundary hstop.2 hi.2 hstart.2
        | true => exact h.target.repeatsUpTo h.start_boundary hstart.2 hi.2 hstop.2

end Embeds

end Attempt

end Regexp
