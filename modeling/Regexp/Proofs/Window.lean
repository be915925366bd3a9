import Regexp.Proofs.Translation

/-!
# Parts of texts

A search of a part of a text sees the characters of that part only: it finds
what a search of these characters alone finds, at offsets that are raised by
where the part begins.

This is said of whole searches, as a caller makes them, with any options, with
or without captures, and with any answer.  `Target.cut` is the text of the
characters of a span, in which offsets are counted from the start.  It
corresponds to the part of the text that it was cut from (`Target.embeds_cut`),
by a map that adds a number to each offset, so that the two searches run in step
(`Search.Raises.run`).  The characters around the span cannot matter because
they are not mentioned: in `Regex.yields_cut` the answer is told before the text
is.  An anchor or a lookbehind that looked across the ends of the span would
make it false.

A cursor is a buffer whose offsets start somewhere else, so it is the same kind
of map.  But a cursor may go up to the largest offset, which no slot can hold.
A group that touches it is not set, and a pattern that refers to groups then
misses what such a group captured.  `Regex.yields_cursor` states what is the
case for spans that end below the largest offset, and for all spans if the
pattern does not depend on captures; `Regex.not_yields_cursor_last` is about the
offset that is left out.

## Main definitions

* `Target.cut` — the text of the characters of a span.
* `Target.IsWindow` — whether a text has the characters of another one
  somewhere.
* `Captures.raise` — captures with raised offsets.

## Main statements

* `Target.embeds_cut` — the characters of a span correspond to that part of the
  text.
* `Captures.group?_raise` — a group has the raised span, unless it touches the
  largest offset.
* `Regex.yields_raise` — searches of corresponding texts yield captures at
  raised offsets.
* `Regex.yields_cut` — a span is searched as the text of its characters alone
  is.
* `Regex.yields_cursor` — a cursor is searched as a buffer of its characters is.
-/

namespace Regexp

/-! ### Windows -/

namespace Target

variable {t t' : Target} {d : ℕ} {span : Span}

/-- The text of the characters of a span, in which offsets are counted from the
start.  A string stays a string, and a cursor becomes a buffer. -/
def cut (t : Target) (s : Span) : Target :=
  let chars := (t.slice? s).getD []
  match t with
  | utf8 _ => .ofString (.ofList chars)
  | buffer _ | cursor _ _ => .buffer chars.toArray

/-- Whether a text has the characters of another one from some index on, at
places that are raised by some offset. -/
structure IsWindow (t t' : Target) (first d : ℕ) : Prop where
  genuine : t.IsGenuine
  genuine' : t'.IsGenuine
  length_le : first + t.chars.length ≤ t'.chars.length
  chars_eq : ∀ k < t.chars.length, t'.chars[first + k]? = t.chars[k]?
  place_eq : ∀ k ≤ t.chars.length, t'.place (first + k) = t.place k + d

namespace IsWindow

variable {first o limit start : ℕ} (h : t.IsWindow t' first d)

include h

theorem isBoundary (ho : t.isBoundary o = true) : t'.isBoundary (o + d) = true := by
  obtain ⟨k, hk, rfl⟩ := (isBoundary_iff h.genuine).mp ho
  have hle := h.length_le
  exact (isBoundary_iff h.genuine').mpr ⟨first + k, by omega, (h.place_eq k hk).symm⟩

theorem charAfter (ho : t.isBoundary o = true) (hlimit : t.isBoundary limit = true) :
    t'.charAfter (o + d) (limit + d) = (t.charAfter o limit).map (Prod.map id (· + d)) := by
  have hlimit' := h.isBoundary hlimit
  have hle := h.length_le
  obtain ⟨k, hk, rfl⟩ := (isBoundary_iff h.genuine).mp ho
  obtain ⟨l, hl, rfl⟩ := (isBoundary_iff h.genuine).mp hlimit
  ext ⟨c, i⟩
  rw [charAfter_iff h.genuine' hlimit', Option.map_eq_some_iff]
  constructor
  · rintro ⟨j, hj, hstart, rfl, hroom⟩
    have hj' := (List.getElem?_eq_some_iff.mp hj).1
    rw [← h.place_eq k hk] at hstart
    obtain rfl := place_inj (by omega) hj'.le hstart
    rw [← h.place_eq l hl] at hroom
    have hlt : first + k + 1 ≤ first + l := le_of_place_le hj' hroom
    rw [h.chars_eq k (by omega)] at hj
    rw [Nat.add_assoc, h.place_eq (k + 1) (by omega)] at hroom ⊢
    rw [h.place_eq l hl] at hroom
    exact ⟨(c, t.place (k + 1)), (charAfter_iff h.genuine hlimit).mpr
      ⟨k, hj, rfl, rfl, Nat.le_of_add_le_add_right hroom⟩, rfl⟩
  · rintro ⟨⟨c', i'⟩, hread, heq⟩
    cases heq
    obtain ⟨j, hj, hstart, rfl, hroom⟩ := (charAfter_iff h.genuine hlimit).mp hread
    have hj' := (List.getElem?_eq_some_iff.mp hj).1
    obtain rfl := place_inj hk hj'.le hstart
    exact ⟨first + k, (h.chars_eq k hj').trans hj, (h.place_eq k hk).symm,
      (h.place_eq (k + 1) hj').symm, Nat.add_le_add_right hroom d⟩

theorem charBefore (ho : t.isBoundary o = true) (hstart : t.isBoundary start = true) :
    t'.charBefore (o + d) (start + d) = (t.charBefore o start).map (Prod.map id (· + d)) := by
  have hstart' := h.isBoundary hstart
  have hle := h.length_le
  obtain ⟨k, hk, rfl⟩ := (isBoundary_iff h.genuine).mp ho
  obtain ⟨l, hl, rfl⟩ := (isBoundary_iff h.genuine).mp hstart
  ext ⟨c, i⟩
  rw [charBefore_iff h.genuine' hstart', Option.map_eq_some_iff]
  constructor
  · rintro ⟨j, hj, rfl, hstop, hroom⟩
    have hj' := (List.getElem?_eq_some_iff.mp hj).1
    rw [← h.place_eq k hk] at hstop
    have heq := place_inj (by omega) hj' hstop
    rw [← h.place_eq l hl] at hroom
    have hle' : first + l ≤ j := le_of_place_le (by omega) hroom
    obtain ⟨k, rfl⟩ : ∃ j', k = j' + 1 := ⟨k - 1, by omega⟩
    obtain rfl : j = first + k := by omega
    rw [h.chars_eq k (by omega)] at hj
    rw [h.place_eq k (by omega)] at hroom ⊢
    rw [h.place_eq l hl] at hroom
    exact ⟨(c, t.place k), (charBefore_iff h.genuine hstart).mpr
      ⟨k, hj, rfl, rfl, Nat.le_of_add_le_add_right hroom⟩, rfl⟩
  · rintro ⟨⟨c', i'⟩, hread, heq⟩
    cases heq
    obtain ⟨j, hj, rfl, hstop, hroom⟩ := (charBefore_iff h.genuine hstart).mp hread
    have hj' := (List.getElem?_eq_some_iff.mp hj).1
    obtain rfl := place_inj hk hj' hstop
    exact ⟨first + j, (h.chars_eq j hj').trans hj, (h.place_eq j hj'.le).symm,
      (h.place_eq (j + 1) hj').symm, Nat.add_le_add_right hroom d⟩

/-- A window corresponds to the text that it is a part of. -/
theorem embeds : t.Embeds t' (· + d) :=
  ⟨h.genuine, h.genuine', h.isBoundary, fun _ _ hlt => Nat.add_lt_add_right hlt d,
    h.charAfter, h.charBefore⟩

end IsWindow

/-- A valid span goes from the place of a character to that of a later one. -/
theorem exists_place_of_valid (ht : t.IsGenuine) (h : Search.isValidSpan t span = true) :
    ∃ k k', k ≤ k' ∧ k' ≤ t.chars.length ∧ span = ⟨t.place k, t.place k'⟩ := by
  obtain ⟨hstart, hstop⟩ := Search.isBoundary_of_valid h
  obtain ⟨k, hk, hplace⟩ := (isBoundary_iff ht).mp hstart
  obtain ⟨k', hk', hplace'⟩ := (isBoundary_iff ht).mp hstop
  refine ⟨k, k', le_of_place_le hk ?_, hk', ?_⟩
  · rw [← hplace, ← hplace']
    exact Search.start_le_stop h
  · rw [← hplace, ← hplace']

/-- The characters of a cut, and the places that they have in the text. -/
theorem cut_place {k k' : ℕ} (ht : t.IsGenuine) (hle : k ≤ k') (hk' : k' ≤ t.chars.length) :
    let whole := t.cut ⟨t.place k, t.place k'⟩
    whole.IsGenuine ∧ whole.chars = (t.chars.take k').drop k ∧ whole.place 0 = 0 ∧
      ∀ j ≤ k' - k, t.place (k + j) = whole.place j + t.place k := by
  intro whole
  have hwhole : whole = t.cut ⟨t.place k, t.place k'⟩ := rfl
  rw [cut.eq_def, slice?_place ht hle hk', Option.getD_some] at hwhole
  cases t with
  | utf8 text =>
    have hchars : whole.chars = (text.chars.toList.take k').drop k := by
      rw [hwhole]
      simp [chars, ofString, Utf8Text.ofString]
    refine ⟨hwhole ▸ isGenuine_ofString _, hchars, by rw [hwhole]; rfl, fun j hj => ?_⟩
    have hplace : whole.place j = byteCount (whole.chars.take j) := by
      rw [hwhole]
      rfl
    rw [hplace, hchars, List.drop_take, List.take_take, min_eq_left hj, Nat.add_comm]
    show byteCount (text.chars.toList.take (j + k)) = _ + byteCount (text.chars.toList.take k)
    rw [Nat.add_comm j, List.take_add, byteCount_append, Nat.add_comm]
  | buffer cs =>
    rw [hwhole]
    exact ⟨trivial, rfl, rfl, fun j _ => Nat.add_comm k j⟩
  | cursor first cs =>
    rw [hwhole]
    refine ⟨trivial, rfl, rfl, fun j _ => ?_⟩
    simp only [place]
    omega

/-- **The characters of a span correspond to that part of the text.** -/
theorem embeds_cut (ht : t.IsGenuine) (h : Search.isValidSpan t span = true) :
    (t.cut span).Embeds t (· + span.start) ∧
      Search.isValidSpan (t.cut span) (t.cut span).span = true ∧
        span = (t.cut span).span.map (· + span.start) := by
  obtain ⟨k, k', hle, hk', rfl⟩ := exists_place_of_valid ht h
  obtain ⟨hgenuine, hchars, hzero, hplace⟩ := cut_place ht hle hk'
  generalize t.cut ⟨t.place k, t.place k'⟩ = whole at *
  have hlength : whole.chars.length = k' - k := by
    rw [hchars, List.length_drop, List.length_take]
    omega
  have hspan := span_eq_locate hgenuine
  refine ⟨?_, ?_, ?_⟩
  · have hwindow : whole.IsWindow t k (t.place k) := by
      refine ⟨hgenuine, ht, by omega, fun j hj => ?_, fun j hj => ?_⟩
      · rw [hlength] at hj
        rw [hchars, List.getElem?_drop, List.getElem?_take_of_lt (by omega)]
      · rw [hplace j (hlength ▸ hj)]
    exact hwindow.embeds
  · rw [hspan]
    exact Search.isValidSpan_locate hgenuine (Nat.zero_le _) le_rfl
  · have hstop := hplace (k' - k) le_rfl
    rw [Nat.add_sub_cancel' hle] at hstop
    rw [hspan, locate, hzero, hlength, Span.map, Nat.zero_add, ← hstop]

end Target

/-! ### Captures -/

/-- Captures with raised offsets. -/
def Captures.raise (d : ℕ) (c : Captures) : Captures := ⟨raiseSlots d c.slots⟩

/-- Captures whose offsets stay small enough have the same groups at raised
offsets. -/
theorem Captures.movedBy_raise {d : ℕ} {c : Captures}
    (h : ∀ o, some o ∈ c.slots → o + d < maxOffset) : c.MovedBy (· + d) (c.raise d) := by
  rw [raise, raiseSlots_eq h]
  exact c.movedBy_map (· + d)

/-- A group has the raised span, unless it touches an offset that is too large
to be recorded. -/
theorem Captures.group?_raise (d : ℕ) (c : Captures) (g : ℕ) :
    (c.raise d).group? g = (c.group? g).bind fun s =>
      if s.start + d < maxOffset ∧ s.stop + d < maxOffset then some (s.map (· + d)) else none := by
  have hslot : ∀ i : ℕ, (raiseSlots d c.slots)[i]?.join = raiseSlot d c.slots[i]?.join := by
    intro i
    rw [getElem?_raiseSlots]
    rcases c.slots[i]? with _ | _ <;> rfl
  have hstart : (c.raise d).start? g = raiseSlot d (c.start? g) := hslot _
  have hstop : (c.raise d).stop? g = raiseSlot d (c.stop? g) := hslot _
  rw [group?, group?, hstart, hstop]
  cases c.start? g with
  | none => rfl
  | some i =>
    cases c.stop? g with
    | none =>
      simp only [raiseSlot, Option.bind_some, Option.bind_none]
      cases slotValue (i + d) <;> rfl
    | some j =>
      simp only [raiseSlot, Option.bind_some, slotValue]
      by_cases hi : i + d < maxOffset <;> by_cases hj : j + d < maxOffset <;>
        simp [hi, hj, Span.map]

/-- Captures of a raised search are the raised captures. -/
theorem SearchResult.captures_raise (d : ℕ) (r : SearchResult) :
    (r.raise d).captures = r.captures.raise d := by
  obtain ⟨answer, slots, cache⟩ := r
  have hslots : (slots.map (raiseSlots d)).getD #[] = raiseSlots d (slots.getD #[]) := by
    cases slots <;> simp [raiseSlots]
  simp only [captures, raise, hslots]
  cases answer with
  | error e => rfl
  | ok found =>
    cases found with
    | none => simp [Except.map, Captures.clear, Captures.raise, raiseSlots_replicate]
    | some m =>
      simp [Except.map, Captures.setGroup, Captures.raise, Span.map, slotValue_add, raiseSlots_set]

/-- Captures of a search of a span hold offsets of the span only. -/
theorem SearchResult.Placed.captures {r : SearchResult} {a : Attempt} (h : r.Placed a) :
    a.PlacedAll r.captures.slots := by
  have hslots : a.PlacedAll (r.slots.getD #[]) := by
    cases hr : r.slots with
    | none => exact fun o ho => absurd ho (by simp)
    | some slots => exact h.slots slots hr
  have hvalue : ∀ {i o : ℕ}, a.Placed i → o ∈ slotValue i → a.Placed o := by
    intro i o hi ho
    rw [slotValue] at ho
    split at ho
    · exact Option.some.inj ho ▸ hi
    · cases ho
  unfold SearchResult.captures
  cases hanswer : r.answer with
  | error e => exact hslots
  | ok found =>
    cases found with
    | none => exact fun o ho => absurd ho (by simp [Captures.clear])
    | some m =>
      obtain ⟨hstart, hstop⟩ := h.answer m hanswer
      exact (hslots.set _ fun o ho => hvalue hstart ho).set _ fun o ho => hvalue hstop ho

/-! ### Expressions -/

section

variable {p : Pattern} {opts : Options} {t t' : Target} {d : ℕ} {span : Span}

/-- Searches for a pattern on corresponding texts run in step. -/
theorem Search.raises_ofPattern (h : t.Embeds t' (· + d)) (hvalid : isValidSpan t span = true)
    (hrecordable : span.stop + d < maxOffset ∨ p.hasReferences = false) :
    (ofPattern p opts t span).Raises (ofPattern p opts t' (span.map (· + d))) d where
  attempt :=
    { target := h
      span_eq := rfl
      program_eq := rfl
      whole_eq := rfl
      start_boundary := (isBoundary_of_valid hvalid).1
      stop_boundary := (isBoundary_of_valid hvalid).2
      recordable := hrecordable.imp_right Program.neverRefers_ofPattern }
  strategy_eq := rfl
  opts_eq := rfl
  start_le := start_le_stop hvalid
  literal := by
    rintro l (hwhole | hrequired)
    · obtain ⟨chars, -, rfl⟩ := Strategy.fixedLiteral_of_whole hwhole
      rfl
    · have hrequired := Strategy.requiredOf_of_required hrequired
      unfold Strategy.requiredOf at hrequired
      split at hrequired
      · split at hrequired
        · cases hrequired
          rfl
        · cases hrequired
      · cases hrequired

namespace Regex

/-- **Searches of corresponding texts yield captures at raised offsets**, and
the same answer, which may be an error. -/
theorem yields_raise (p : Pattern) (opts : Options) (h : t.Embeds t' (· + d))
    (hvalid : Search.isValidSpan t span = true)
    (hvalid' : Search.isValidSpan t' (span.map (· + d)) = true)
    (hrecordable : span.stop + d < maxOffset ∨ p.hasReferences = false) :
    let result := (Search.ofPattern p opts t span).run .empty (p.slotsFor true)
    (∀ o, some o ∈ result.captures.slots → o ≤ span.stop) ∧ ∀ r, MadeFrom p opts r →
      r.Yields t span (result.answer.map Option.isSome) result.captures ∧
        r.Yields t' (span.map (· + d)) (result.answer.map Option.isSome)
          (result.captures.raise d) := by
  intro result
  have hslots : (p.slotsFor true).map (raiseSlots d) = p.slotsFor true := by
    simp [Pattern.slotsFor, Captures.ofGroupLen, raiseSlots_replicate]
  have hunset : ∀ slots ∈ p.slotsFor true,
      (Search.ofPattern p opts t span).toAttempt.PlacedAll slots := by
    intro slots hslots o ho
    cases hslots
    simp [Captures.ofGroupLen] at ho
  have hraises : Search.Raises (.ofPattern p opts t span) _ d :=
    Search.raises_ofPattern h hvalid hrecordable
  obtain ⟨hrun, hplaced⟩ := hraises.run .empty hunset
  rw [hslots] at hrun
  refine ⟨fun o ho => (hplaced.captures o ho).1.2, fun r hr => ⟨hr.has.yields hvalid .empty, ?_⟩⟩
  have hyields := hr.has.yields hvalid' (Cache.raise d .empty)
  simp only [hrun] at hyields
  rw [SearchResult.captures_raise] at hyields
  have hanswer : (result.raise d).answer.map Option.isSome = result.answer.map Option.isSome := by
    show (result.answer.map _).map _ = _
    cases result.answer with
    | error e => rfl
    | ok found => cases found <;> rfl
  rwa [hanswer] at hyields

/-- **A span is searched as the text of its characters alone is.**  What the
characters of a span yield is told before anything that is around them: all
searches of a valid span of any text, with any expression of a pattern under any
options, have the answer of those of the characters of the span alone, and
captures in which each offset is higher by where the span starts. -/
theorem yields_cut (p : Pattern) (opts : Options) (whole : Target) :
    ∃ answer caps, ∀ (t : Target) (span : Span), t.IsGenuine →
      Search.isValidSpan t span = true → t.cut span = whole → span.stop < maxOffset →
        ∃ caps', caps.MovedBy (· + span.start) caps' ∧ ∀ r, MadeFrom p opts r →
          r.Yields whole whole.span answer caps ∧ r.Yields t span answer caps' := by
  let result := (Search.ofPattern p opts whole whole.span).run .empty (p.slotsFor true)
  refine ⟨result.answer.map Option.isSome, result.captures, ?_⟩
  rintro t span ht hvalid rfl hlt
  obtain ⟨hembeds, hvalid', hspan⟩ := Target.embeds_cut ht hvalid
  have hstop : (t.cut span).span.stop + span.start < maxOffset := by
    have heq : span.stop = (t.cut span).span.stop + span.start := congrArg Span.stop hspan
    exact heq ▸ hlt
  rw [hspan] at hvalid
  obtain ⟨hheld, hyields⟩ := yields_raise p opts hembeds hvalid' hvalid (.inl hstop)
  refine ⟨_, Captures.movedBy_raise fun o ho => ?_, fun r hr => ?_⟩
  · exact (Nat.add_le_add_right (hheld o ho) _).trans_lt hstop
  · obtain ⟨hwhole, hpart⟩ := hyields r hr
    rw [← hspan] at hpart
    exact ⟨hwhole, hpart⟩

/-- `(?<!é)(a)$` on the letter inside of `éab`, which in the text stands behind
`é` and not at the end. -/
theorem yields_cut_inside :
    let p : Pattern := .concat
      [.look .notBehind (.char 'é'), .group (some 1) (.char 'a'), .anchor .endLine]
    let x := (Regex.ofPattern p .empty).searchWith .empty (.ofString "éab") ⟨2, 3⟩ (some .empty)
    x.answer = .ok true ∧ ∃ caps, x.caps = some caps ∧ caps.group? 1 = some ⟨2, 3⟩ := by
  intro p x
  let r : Regex := .ofPattern p .empty
  have hanswer : (r.searchWith .empty (.ofString "a") ⟨0, 1⟩ (some .empty)).answer = .ok true := by
    subst r p
    cbv
  have hcaps : (r.searchWith .empty (.ofString "a") ⟨0, 1⟩ (some .empty)).caps =
      some ⟨#[some 0, some 1, some 0, some 1]⟩ := by
    subst r p
    cbv
  obtain ⟨answer, caps, hspans⟩ := yields_cut p .empty (.ofString "a")
  obtain ⟨caps', hmoved, hyields⟩ := hspans (.ofString "éab") ⟨2, 3⟩ (Target.isGenuine_ofString _)
    (by decide) (by cbv) (by decide)
  obtain ⟨hwhole, hpart⟩ := hyields r (.parts _)
  obtain ⟨hanswer', hcaps'⟩ := (hwhole (some .empty)).1 .empty
  obtain ⟨hfound, hgroups⟩ := (hpart (some .empty)).1 .empty
  cases hanswer'.symm.trans hanswer
  cases hcaps'.symm.trans hcaps
  refine ⟨hfound, caps', hgroups, ?_⟩
  rw [hmoved.group?_eq]
  decide

/-! ### Cursors -/

/-- **A cursor is searched as a buffer of its characters is**, with any
expression on a span that ends below the largest offset, or of a pattern that
does not depend on what its groups captured.  Each group is then where it is in
the buffer, at offsets that are higher by where the cursor starts; only a group
that touches the largest offset is not set. -/
theorem yields_cursor (p : Pattern) (opts : Options) {first : ℕ} {chars : Array Char}
    (hvalid : Search.isValidSpan (.cursor first chars) span = true)
    (hrecordable : span.stop < maxOffset ∨ p.hasReferences = false) :
    ∃ answer caps caps',
      (span.stop < maxOffset → caps.MovedBy (· + first) caps') ∧
      (∀ g, caps'.group? g = (caps.group? g).bind fun s =>
        if s.start + first < maxOffset ∧ s.stop + first < maxOffset then some (s.map (· + first))
        else none) ∧
      ∀ r, MadeFrom p opts r →
        r.Yields (.buffer chars) ⟨span.start - first, span.stop - first⟩ answer caps ∧
          r.Yields (.cursor first chars) span answer caps' := by
  obtain ⟨hle, hfirst, hlast⟩ : span.start ≤ span.stop ∧ first ≤ span.start ∧
      span.stop ≤ first + chars.size := by
    simp only [Search.isValidSpan, Bool.and_eq_true, decide_eq_true_iff] at hvalid
    exact ⟨hvalid.1.1.1.1, hvalid.1.1.1.2, hvalid.1.1.2⟩
  have hspan : span = Span.map (· + first) ⟨span.start - first, span.stop - first⟩ := by
    rw [Span.map, Nat.sub_add_cancel hfirst, Nat.sub_add_cancel (hfirst.trans hle)]
  have hvalid' : Search.isValidSpan (.buffer chars) ⟨span.start - first, span.stop - first⟩ =
      true := by
    have hstop : span.stop - first ≤ chars.size := by omega
    have hlocated : Search.isValidSpan (.buffer chars)
        ((Target.buffer chars).locate ⟨span.start - first, span.stop - first⟩) = true :=
      Search.isValidSpan_locate trivial (Nat.sub_le_sub_right hle first) hstop
    exact hlocated
  have hwindow : (Target.buffer chars).IsWindow (.cursor first chars) 0 first :=
    ⟨trivial, trivial, by simp [Target.chars], fun k _ => by simp [Target.chars],
      fun k _ => by simp [Target.place, Nat.add_comm]⟩
  have hstop : span.stop - first + first = span.stop := congrArg Span.stop hspan.symm
  rw [hspan] at hvalid
  obtain ⟨hheld, hyields⟩ := yields_raise p opts hwindow.embeds hvalid' hvalid
    (hrecordable.imp_left fun hlt => hstop.trans_lt hlt)
  rw [← hspan] at hyields
  refine ⟨_, _, _, fun hlt => Captures.movedBy_raise fun o ho => ?_,
    fun g => Captures.group?_raise first _ g, hyields⟩
  exact (Nat.add_le_add_right (hheld o ho) first).trans_lt (hstop.trans_lt hlt)

/-- `(a)(?=a)` on the last characters of a cursor that ends one offset below the
largest. -/
theorem yields_cursor_below :
    let p : Pattern := .concat [.group (some 1) (.char 'a'), .look .ahead (.char 'a')]
    let t : Target := .cursor (maxOffset - 4) #['b', 'a', 'a']
    let x := (Regex.ofPattern p .empty).searchWith .empty t ⟨maxOffset - 3, maxOffset - 1⟩
      (some .empty)
    x.answer = .ok true ∧ ∃ caps, x.caps = some caps ∧
      caps.group? 1 = some ⟨maxOffset - 3, maxOffset - 2⟩ := by
  intro p t x
  let r : Regex := .ofPattern p .empty
  have hanswer : (r.searchWith .empty (.buffer #['b', 'a', 'a']) ⟨1, 3⟩ (some .empty)).answer =
      .ok true := by
    subst r p
    cbv
  have hcaps : (r.searchWith .empty (.buffer #['b', 'a', 'a']) ⟨1, 3⟩ (some .empty)).caps =
      some ⟨#[some 1, some 2, some 1, some 2]⟩ := by
    subst r p
    cbv
  have hvalid : Search.isValidSpan (.cursor (maxOffset - 4) #['b', 'a', 'a'])
      ⟨maxOffset - 3, maxOffset - 1⟩ = true := by decide
  obtain ⟨answer, caps, caps', hmoved, -, hyields⟩ :=
    yields_cursor p .empty hvalid (.inl (by decide))
  obtain ⟨hbuffer, hcursor⟩ := hyields r (.parts _)
  obtain ⟨hanswer', hcaps'⟩ := (hbuffer (some .empty)).1 .empty
  obtain ⟨hfound, hgroups⟩ := (hcursor (some .empty)).1 .empty
  cases hanswer'.symm.trans hanswer
  cases hcaps'.symm.trans hcaps
  refine ⟨hfound, caps', hgroups, ?_⟩
  rw [(hmoved (by decide)).group?_eq]
  decide

/-- On a cursor that ends at the largest offset, `.` matches the last character
but no group is set, and `()(?(1)b|)` matches the end as if its group had not
been left, although a buffer of the same characters has a group for the one and
no match for the other. -/
theorem not_yields_cursor_last :
    let conditional : Pattern :=
      .concat [.group (some 1) .empty, .ifGroup 1 (.char 'b') (some .empty)]
    let search (p : Pattern) (t : Target) (span : Span) :=
      (Regex.ofPattern p .empty).searchWith .empty t span (some .empty)
    (Pattern.parse .empty "." 1 = .ok .dot ∧
      Search.isValidSpan (.cursor (maxOffset - 1) #['a']) ⟨maxOffset - 1, maxOffset⟩ = true ∧
      (search .dot (.buffer #['a']) ⟨0, 1⟩).caps = some ⟨#[some 0, some 1]⟩ ∧
      (search .dot (.cursor (maxOffset - 1) #['a']) ⟨maxOffset - 1, maxOffset⟩).caps =
        some ⟨#[some (maxOffset - 1), none]⟩) ∧
    (Pattern.parse .empty "()(?(1)b|)" 2 = .ok conditional ∧
      Search.isValidSpan (.cursor maxOffset #[]) ⟨maxOffset, maxOffset⟩ = true ∧
      (search conditional (.buffer #[]) ⟨0, 0⟩).answer = .ok false ∧
      (search conditional (.cursor maxOffset #[]) ⟨maxOffset, maxOffset⟩).answer = .ok true) := by
  intro conditional search
  subst conditional search
  refine ⟨⟨?_, ?_, ?_, ?_⟩, ?_, ?_, ?_, ?_⟩
  · cbv
  · decide
  · cbv
  · cbv
  · cbv
  · decide
  · cbv
  · cbv

end Regex

end

end Regexp
