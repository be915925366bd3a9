import Regexp.Proofs.Counting
import Regexp.Proofs.References
import Regexp.Proofs.Unrecorded

/-!
# Texts with the same characters

An attempt that counts the characters of a text explores what the attempt on the
text itself does, offset by offset, and so a search reports the same groups,
each between the places of the characters between which the other search has it.

## Indices and places

A buffer counts characters, and every text has a buffer of its characters.  The
map from the index of a character to its place in the text is an embedding of
texts in the sense of `Target.Embeds`, so atoms read the same.  `Explores.onto`
lifts this to explorations, with the marks at the places of the marked indices
(`Attempt.SameMarks`).  Only offsets that cut no character have an index, and so
it has to be known that nothing else is ever found, which is `Explores.placed`.

## Searches do not run in step

A span may be too short for a match in characters but not in bytes, a literal is
looked for byte by byte in a string, and a scan stops where a match has no room,
which is earlier or later depending on what offsets count.  So searches are not
compared step by step.  Both of them find the leftmost match, which is told by
attempts alone, and the leftmost match among counted characters is the leftmost
one in the text (`Search.IsLeftmost.shows`).  Under XML Schema rules there is
only one attempt (`Search.IsWhole.shows`).

Two texts with the same characters are both compared with the buffer, and the
statement about a string and a buffer is the case in which one of them is the
buffer itself.

## Main definitions

* `Discovery.Placed` — a match that cuts no character, and neither do its
  groups.
* `Discovery.onto` — what is found on a text, if characters are counted in the
  search for it.
* `Attempt.SameMarks` — marks at the places of marked indices.
* `Search.Shows` — a result on a text that shows what another one counts.
* `Captures.MovedBy` — captures of the same groups at other offsets.
* `Regex.Yields` — the answer and the captures that all searches of a span have.

## Main statements

* `Explores.placed` — no exploration finds a match that cuts a character.
* `Explores.onto` — an exploration of counted characters is one of the text.
* `Search.run_shows` — a search of counted characters reports what the search of
  the text does.
* `Regex.yields_ofString` — a string and a buffer of its characters are searched
  alike.
-/

namespace Regexp

/-! ### Offsets that are found -/

/-- Whether a match that has been found ends where it cuts no character, like
all its groups. -/
def Discovery.Placed (a : Attempt) : Discovery → Prop
  | matched e sl => a.Placed e ∧ ∀ slots ∈ sl, a.PlacedAll slots
  | _ => True

section

variable {a : Attempt} {watch : ℕ → Mode → ℕ → Marks → Prop} {top : Bool} {m : Mode}
  {V V' : Marks} {links : List Link} {i : ℕ} {sl sl₁ : Option Slots} {r : Discovery}

theorem Discovery.Placed.of_ending {stop : Option ℕ} (h : r.Placed a)
    (hsl : ∀ slots ∈ sl, a.PlacedAll slots) (hr : r.ending? sl = some (stop, sl₁)) :
    (∀ o ∈ stop, a.Placed o) ∧ ∀ slots ∈ sl₁, a.PlacedAll slots := by
  cases r with
  | matched e sl' =>
    cases hr
    exact ⟨fun o ho => Option.some.inj ho ▸ h.1, h.2⟩
  | failed =>
    cases hr
    exact ⟨nofun, hsl⟩
  | refused e => cases hr

/-- **An exploration finds no match that cuts a character**, and records no such
group. -/
theorem Explores.placed (ht : a.OnText) (h : Explores a watch top m V links i sl V' r)
    (hi : a.Placed i) (hsl : ∀ slots ∈ sl, a.PlacedAll slots) : r.Placed a := by
  induction h with
  | accept => exact ⟨hi, hsl⟩
  | read _ hread _ ih => exact ih (Attempt.placed_of_read ht hi hread) hsl
  | mark _ _ ih => exact ih hi (Attempt.placedAll_recordIn hsl _ hi)
  | choose _ _ _ ih | enter _ _ _ ih | test _ _ _ ih | first _ _ ih => exact ih hi hsl
  | later _ _ _ ih => exact ih hi hsl
  | resume hop _ _ _ hr hgo _ ihb ih =>
    obtain ⟨hstop, hsl₁⟩ := (ihb hi hsl).of_ending hsl hr
    exact ih (Attempt.placed_of_resume hop hi hstop hgo) hsl₁
  | refuse | short | unread | unreadable | reenter | untestable | fail | abandon | nil => trivial

end

/-! ### Explorations -/

/-- What is found on a text, if characters are counted in the search for it:
each index has become the place of its character. -/
def Discovery.onto (t : Target) : Discovery → Discovery
  | matched e sl => .matched (t.place e) (sl.map t.placeAll)
  | failed => .failed
  | refused e => .refused e

/-- Where a machine goes on in a text. -/
def Resumption.onto (t : Target) : Resumption → Resumption
  | go offset link => .go (t.place offset) link
  | abandon => .abandon

theorem Discovery.ending_onto {r : Discovery} {sl sl₁ : Option Slots} {stop : Option ℕ}
    (t : Target) (h : r.ending? sl = some (stop, sl₁)) :
    (r.onto t).ending? (sl.map t.placeAll) = some (stop.map t.place, sl₁.map t.placeAll) := by
  cases r <;> cases h <;> rfl

theorem Discovery.onto_eq_failed_iff {t : Target} {r : Discovery} :
    r.onto t = .failed ↔ r = .failed := by
  cases r <;> simp [onto]

theorem Op.resume_onto {op : Op} {i : ℕ} {stop : Option ℕ} {go : Resumption} (t : Target)
    (h : op.resume? i stop = some go) :
    op.resume? (t.place i) (stop.map t.place) = some (go.onto t) := by
  rw [op.resume?_map (F := Resumption.onto t) (fun _ _ => rfl) rfl, h, Option.map_some]

/-- Whether marks are at the places of the indices where others are.  Marks at
offsets within a character do not count, since nothing comes there. -/
def Attempt.SameMarks (a : Attempt) (t : Target) (V W : Marks) : Prop :=
  ∀ id k, a.InSpan k → ((id, t.place k) ∈ W ↔ (id, k) ∈ V)

section

variable {a : Attempt} {t : Target} {watch : ℕ → Mode → ℕ → Marks → Prop} {top : Bool} {m : Mode}
  {V V' W : Marks} {links : List Link} {i : ℕ} {sl sl₁ : Option Slots} {r : Discovery}

theorem Attempt.SameMarks.insert (hV : a.SameMarks t V W) (h : a.Counts t) {id k : ℕ}
    (hk : a.InSpan k) : a.SameMarks t (insert (id, k) V) (insert (id, t.place k) W) := by
  intro id' k' hk'
  simp only [Finset.mem_insert, Prod.mk.injEq, hV id' k' hk',
    Target.place_eq_iff (h.le_length hk') (h.le_length hk)]

/-- **An exploration of counted characters is one of the text**, with the places
of all offsets.  Since explorations have one result, this is as good as an
equivalence. -/
theorem Explores.onto (h : a.Counts t) (he : Explores a watch top m V links i sl V' r)
    (hi : a.InSpan i) (hsl : ∀ slots ∈ sl, a.PlacedAll slots) (hV : a.SameMarks t V W) :
    ∃ W', Explores (a.onto t) (fun _ _ _ _ => True) top m W links (t.place i) (sl.map t.placeAll) W'
      (r.onto t) ∧ a.SameMarks t V' W' := by
  induction he generalizing W with
  | accept hend =>
    exact ⟨W, .accept fun htop hwhole => congrArg t.place (hend htop hwhole), hV⟩
  | short hwhole hne =>
    refine ⟨W, .short hwhole fun heq => hne ?_, hV⟩
    exact Target.place_inj (h.le_length hi) h.stop_le heq
  | read hop hread _ ih =>
    obtain ⟨W', he, hV'⟩ := ih (Attempt.read_inSpan hi hread) hsl hV
    refine ⟨W', .read hop ?_ he, hV'⟩
    rw [h.read_place hi hsl, hread]
    rfl
  | unread hop hread =>
    refine ⟨W, .unread hop ?_, hV⟩
    rw [h.read_place hi hsl, hread]
    rfl
  | unreadable hop hread =>
    refine ⟨W, .unreadable hop ?_, hV⟩
    rw [h.read_place hi hsl, hread]
    rfl
  | choose hop hc _ ih =>
    obtain ⟨W', he, hV'⟩ := ih hi hsl hV
    exact ⟨W', .choose hop hc he, hV'⟩
  | reenter hop hmem => exact ⟨W, .reenter hop ((hV _ _ hi).mpr hmem), hV⟩
  | enter hop hnew _ ih =>
    obtain ⟨W', he, hV'⟩ := ih hi hsl (hV.insert h hi)
    exact ⟨W', .enter hop (fun hmem => hnew ((hV _ _ hi).mp hmem)) he, hV'⟩
  | mark hop _ ih =>
    obtain ⟨W', he, hV'⟩ := ih hi (Attempt.placedAll_recordIn hsl _ (h.placed hi)) hV
    rw [← Target.recordIn_place (h.le_length hi) (h.place_lt hi)] at he
    exact ⟨W', .mark hop he, hV'⟩
  | @test _ _ _ _ _ sl _ _ group _ _ captured hop hg _ ih =>
    obtain ⟨W', he, hV'⟩ := ih hi hsl hV
    have hg' : capturedSpan (sl.map t.placeAll) group = .ok (captured.map t.locate) := by
      rw [h.capturedSpan_place hsl, hg]
      rfl
    exact ⟨W', .test hop hg' (by rwa [Option.isSome_map]), hV'⟩
  | untestable hop hg =>
    refine ⟨W, .untestable hop ?_, hV⟩
    rw [h.capturedSpan_place hsl, hg]
    rfl
  | fail hop => exact ⟨W, .fail hop, hV⟩
  | resume hop hb _ body hr hgo _ ihb ih =>
    obtain ⟨W₁, hbody, hV₁⟩ := ihb hi hsl hV
    obtain ⟨hstop, hsl₁⟩ := (body.placed h.onText (h.placed hi) hsl).of_ending hsl hr
    have hj := (Attempt.placed_of_resume hop (h.placed hi) hstop hgo).1
    obtain ⟨W', he, hV'⟩ := ih hj hsl₁ hV₁
    exact ⟨W', .resume hop hb trivial hbody (Discovery.ending_onto t hr) (Op.resume_onto t hgo) he,
      hV'⟩
  | abandon hop hb _ _ hr hgo ihb =>
    obtain ⟨W₁, hbody, hV₁⟩ := ihb hi hsl hV
    exact ⟨W₁, .abandon hop hb trivial hbody (Discovery.ending_onto t hr) (Op.resume_onto t hgo),
      hV₁⟩
  | refuse hop hb _ _ ihb =>
    obtain ⟨W₁, hbody, hV₁⟩ := ihb hi hsl hV
    exact ⟨W₁, .refuse hop hb trivial hbody, hV₁⟩
  | nil => exact ⟨W, .nil, hV⟩
  | first _ hne ih =>
    obtain ⟨W', he, hV'⟩ := ih hi hsl hV
    exact ⟨W', .first he (mt Discovery.onto_eq_failed_iff.mp hne), hV'⟩
  | later _ _ ih ih' =>
    obtain ⟨W₁, he, hV₁⟩ := ih hi hsl hV
    obtain ⟨W', he', hV'⟩ := ih' hi hsl hV₁
    exact ⟨W', .later he he', hV'⟩

end

/-! ### Searches -/

namespace Attempt

variable {a : Attempt} {t : Target} {opts : Options} {sl : Option Slots} {i : ℕ} {r : Discovery}

/-- An attempt that counts characters discovers what the attempt on the text
does. -/
theorem Discovers.onto (h : a.Counts t) (hr : a.Discovers opts sl i r) (hi : a.InSpan i)
    (hsl : ∀ slots ∈ sl, a.PlacedAll slots) :
    (a.onto t).Discovers opts (sl.map t.placeAll) (t.place i) (r.onto t) := by
  obtain ⟨V', he⟩ := hr
  have hmarks : a.SameMarks t ∅ ∅ := fun id k _ => by simp
  obtain ⟨W', he', -⟩ := he.onto h hi hsl hmarks
  exact ⟨W', he'⟩

end Attempt

namespace Search

variable {s : Search} {t : Target} {slots : Option Slots} {o : ℕ} {r r' : SearchResult}

/-- A search on another text, from the place of one of its characters to the
place of another. -/
def onto (s : Search) (t : Target) : Search := { s with target := t, span := t.locate s.span }

/-- Whether a search counts the characters of a text, with slots that are not
set. -/
structure Counts (s : Search) (t : Target) (slots : Option Slots) : Prop where
  attempt : s.toAttempt.Counts t
  unset : ∀ slots' ∈ slots, ∀ o, some o ∉ slots'

/-- Whether a result on a text has the places of what another result has, and
neither is an error. -/
structure Shows (s : Search) (t : Target) (r r' : SearchResult) : Prop where
  answers : ∃ found : Option Span, r.answer = .ok found ∧ r'.answer = .ok (found.map t.locate) ∧
    ∀ m ∈ found, s.toAttempt.InSpan m.start ∧ s.toAttempt.InSpan m.stop
  slots_eq : r'.slots = r.slots.map t.placeAll

/-- Whether a result is that of the only attempt that is made if a match has to
take the whole span. -/
def IsWhole (s : Search) (slots : Option Slots) (r : SearchResult) : Prop :=
  (∃ e, s.Discovers slots s.span.start (.matched e r.slots) ∧
      r.answer = .ok (some ⟨s.span.start, e⟩)) ∨
    s.Discovers slots s.span.start .failed ∧ r.answer = .ok none ∧ r.slots = slots

/-- Slots that are not set are the same for all ways to number offsets. -/
theorem Counts.placeAll_eq (h : s.Counts t slots) : slots.map t.placeAll = slots := by
  cases slots with
  | none => rfl
  | some slots =>
    refine congrArg some ((Array.map_congr_left fun o ho => ?_).trans slots.map_id)
    cases o with
    | none => rfl
    | some o => exact absurd ho (h.unset slots rfl o)

theorem Counts.discovers (h : s.Counts t slots) {r : Discovery} (ho : s.Reachable o)
    (hr : s.Discovers slots o r) : (s.onto t).Discovers slots (t.place o) (r.onto t) := by
  have hr' := Attempt.Discovers.onto h.attempt hr ho.inSpan fun slots' hslots o ho =>
    absurd ho (h.unset slots' hslots o)
  rwa [h.placeAll_eq] at hr'

/-- The offsets of a span that cut no character are the places of the indices of
the span. -/
theorem Counts.reachable_iff (h : s.Counts t slots) :
    (s.onto t).Reachable o ↔ ∃ k, s.Reachable k ∧ o = t.place k := by
  constructor
  · rintro ⟨hstart, hstop, hboundary⟩
    obtain ⟨k, hk, rfl⟩ := (Target.isBoundary_iff h.attempt.genuine).mp hboundary
    have hk' : s.toAttempt.InSpan k := by
      refine ⟨Target.le_of_place_le h.attempt.start_le_length hstart, ?_⟩
      exact Target.le_of_place_le hk hstop
    exact ⟨k, ⟨hk'.1, hk'.2, (h.attempt.placed hk').2⟩, rfl⟩
  · rintro ⟨k, hk, rfl⟩
    have hk' := h.attempt.inSpan_onto hk.inSpan
    exact ⟨hk'.1, hk'.2, Target.isBoundary_place h.attempt.genuine (h.attempt.le_length hk.inSpan)⟩

/-- A match that is found ends in the span. -/
theorem inSpan_of_discovers {e : ℕ} {sl : Option Slots} (ho : s.Reachable o)
    (hfound : s.Discovers slots o (.matched e sl)) : s.toAttempt.InSpan e := by
  obtain ⟨V', he⟩ := hfound
  exact (he.lies ho.inSpan e sl rfl).inSpan

/-- **The leftmost match among counted characters is the leftmost one in the
text.** -/
theorem IsLeftmost.shows (h : s.Counts t slots) (hr : s.IsLeftmost slots r)
    (hr' : (s.onto t).IsLeftmost slots r') : s.Shows t r r' := by
  rcases hr with ⟨o, e, ho, hbefore, hfound, hanswer⟩ | ⟨hfails, hanswer, hslots⟩
  · have himage : (s.onto t).IsLeftmost slots
        ⟨.ok (some ⟨t.place o, t.place e⟩), r.slots.map t.placeAll, r'.cache⟩ := by
      refine .inl ⟨_, _, h.reachable_iff.mpr ⟨o, ho, rfl⟩, fun i hi hlt => ?_,
        h.discovers ho hfound, rfl⟩
      obtain ⟨k, hk, rfl⟩ := h.reachable_iff.mp hi
      have hlength := h.attempt.le_length hk.inSpan
      rw [Target.place_lt_iff hlength (h.attempt.le_length ho.inSpan)] at hlt
      exact h.discovers hk (hbefore k hk hlt)
    obtain ⟨hanswer', hslots'⟩ := hr'.unique himage
    refine ⟨⟨_, hanswer, hanswer', fun m hm => ?_⟩, hslots'⟩
    cases hm
    exact ⟨ho.inSpan, inSpan_of_discovers ho hfound⟩
  · have himage : (s.onto t).IsLeftmost slots ⟨.ok none, slots, r'.cache⟩ := by
      refine .inr ⟨fun i hi => ?_, rfl, rfl⟩
      obtain ⟨k, hk, rfl⟩ := h.reachable_iff.mp hi
      exact h.discovers hk (hfails k hk)
    obtain ⟨hanswer', hslots'⟩ := hr'.unique himage
    exact ⟨⟨none, hanswer, hanswer', nofun⟩, by rw [hslots', hslots, h.placeAll_eq]⟩

/-- A match of all counted characters of the span is one of the whole span of
the text. -/
theorem IsWhole.shows (h : s.Counts t slots) (hstart : s.Reachable s.span.start)
    (hr : s.IsWhole slots r) (hr' : (s.onto t).IsWhole slots r') : s.Shows t r r' := by
  rcases hr with ⟨e, hfound, hanswer⟩ | ⟨hfails, hanswer, hslots⟩
  · have himage := h.discovers hstart hfound
    rcases hr' with ⟨e', hfound', hanswer'⟩ | ⟨hfails', -⟩
    · have heq := himage.unique hfound'
      injection heq with he hslots
      subst he
      refine ⟨⟨_, hanswer, hanswer', fun m hm => ?_⟩, hslots.symm⟩
      cases hm
      exact ⟨hstart.inSpan, inSpan_of_discovers hstart hfound⟩
    · cases himage.unique hfails'
  · have himage := h.discovers hstart hfails
    rcases hr' with ⟨e', hfound', -⟩ | ⟨-, hanswer', hslots'⟩
    · cases himage.unique hfound'
    · exact ⟨⟨none, hanswer, hanswer', nofun⟩, by rw [hslots', hslots, h.placeAll_eq]⟩

variable {p : Pattern} {opts : Options} {span : Span}

/-- Under XML Schema rules the only attempt is made, unless there is no room for
its match. -/
theorem run_isWhole (ht : t.IsGenuine) (h : isValidSpan t span = true)
    (hfits : (ofPattern p opts t span).Fits slots) (hX : opts.xmlSchema = true) (cache : Cache) :
    (ofPattern p opts t span).IsWhole slots ((ofPattern p opts t span).run cache slots) := by
  have hstart : (ofPattern p opts t span).Reachable span.start := reachable_start h
  unfold run
  split
  · rename_i hshort
    replace hshort : span.stop - span.start < p.minLen := hshort
    rcases failed_or_matched hfits cache hstart with hfails | ⟨e, sl, hfound⟩
    · exact .inr ⟨hfails, rfl, rfl⟩
    · have := add_minLen_le ht h hstart hfound
      omega
  · rw [if_pos (show (ofPattern p opts t span).opts.xmlSchema = true from hX)]
    rcases attempt_cases hfits cache hstart with ⟨hfails, hanswer, hslots⟩ | ⟨e, hfound, hanswer⟩
    · exact .inr ⟨hfails, hanswer, hslots⟩
    · exact .inl ⟨e, hfound, hanswer⟩

end Search

/-! ### Spans -/

section

variable {t : Target} {k : ℕ} {span : Span}

/-- The offsets of a text are those from its first place to its last one. -/
theorem Target.span_eq_locate (ht : t.IsGenuine) : t.span = t.locate ⟨0, t.chars.length⟩ := by
  cases t with
  | utf8 text =>
    obtain ⟨str, rfl⟩ := ht
    have hsize : str.toUTF8.size = byteCount str.toList := by
      rw [← length_encode, ← data_toUTF8]
      simp
    have hall : byteCount (str.toList.take str.toList.length) = byteCount str.toList := by
      rw [List.take_length]
    exact congrArg (Span.mk 0) (hsize.trans hall.symm)
  | buffer | cursor => rfl

/-- The places of characters lie within the text. -/
theorem Target.place_mem_span (ht : t.IsGenuine) (hk : k ≤ t.chars.length) :
    t.span.start ≤ t.place k ∧ t.place k ≤ t.span.stop := by
  rw [span_eq_locate ht]
  exact ⟨place_le (Nat.zero_le k) hk, place_le hk le_rfl⟩

/-- The span from the place of one character to that of a later one is valid. -/
theorem Search.isValidSpan_locate (ht : t.IsGenuine) (hle : span.start ≤ span.stop)
    (hstop : span.stop ≤ t.chars.length) : isValidSpan t (t.locate span) = true := by
  have hstart := hle.trans hstop
  have hwithin := (Target.place_mem_span ht hstart).1
  have hwithin' := (Target.place_mem_span ht hstop).2
  simp only [isValidSpan, Bool.and_eq_true, decide_eq_true_iff]
  exact ⟨⟨⟨⟨Target.place_le hle hstop, hwithin⟩, hwithin'⟩, Target.isBoundary_place ht hstart⟩,
    Target.isBoundary_place ht hstop⟩

end

/-! ### Captures -/

/-- Captures with the places of characters where there were indices. -/
def Captures.onto (t : Target) (c : Captures) : Captures := ⟨t.placeAll c.slots⟩

/-- Whether captures have the groups of others at other offsets.  It is stated
of what can be asked of captures and not of their slots. -/
structure Captures.MovedBy (f : ℕ → ℕ) (c c' : Captures) : Prop where
  groupLen_eq : c'.groupLen = c.groupLen
  start?_eq : ∀ g, c'.start? g = (c.start? g).map f
  stop?_eq : ∀ g, c'.stop? g = (c.stop? g).map f
  group?_eq : ∀ g, c'.group? g = (c.group? g).map fun s => ⟨f s.start, f s.stop⟩

/-- Captures of which every offset is mapped have the same groups at other
offsets. -/
theorem Captures.movedBy_map (f : ℕ → ℕ) (c : Captures) :
    c.MovedBy f ⟨c.slots.map (Option.map f)⟩ := by
  have hslot : ∀ i : ℕ, (c.slots.map (Option.map f))[i]?.join = c.slots[i]?.join.map f := by
    intro i
    rw [Array.getElem?_map, Option.join_map_eq_map_join]
  have hstart : ∀ g, start? ⟨c.slots.map (Option.map f)⟩ g = (c.start? g).map f := fun _ => hslot _
  have hstop : ∀ g, stop? ⟨c.slots.map (Option.map f)⟩ g = (c.stop? g).map f := fun _ => hslot _
  refine ⟨by simp [groupLen], hstart, hstop, fun g => ?_⟩
  rw [group?, group?, hstart, hstop]
  cases c.start? g with
  | none => rfl
  | some i => cases c.stop? g <;> rfl

theorem Captures.movedBy_onto (t : Target) (c : Captures) : c.MovedBy t.place (c.onto t) :=
  c.movedBy_map t.place

/-- The captures that are handed back show the places of what was counted. -/
theorem Search.Shows.captures {s : Search} {t : Target} {r r' : SearchResult} (h : s.Shows t r r')
    (hs : s.toAttempt.Counts t) : r'.captures = r.captures.onto t := by
  obtain ⟨found, hanswer, hanswer', hinSpan⟩ := h.answers
  have hslots : r'.slots.getD #[] = t.placeAll (r.slots.getD #[]) := by
    rw [h.slots_eq]
    cases r.slots <;> simp [Target.placeAll]
  rw [SearchResult.captures, SearchResult.captures, hanswer, hanswer', hslots]
  cases found with
  | none => simp [Captures.clear, Captures.onto, Target.placeAll]
  | some m =>
    obtain ⟨hstart, hstop⟩ := hinSpan m rfl
    simp only [Option.map_some, Captures.setGroup, Captures.onto, Target.placeAll_set,
      Target.locate, Target.slotValue_place (hs.le_length hstart) (hs.place_lt hstart),
      Target.slotValue_place (hs.le_length hstop) (hs.place_lt hstop)]

/-! ### Expressions -/

namespace Search

variable {p : Pattern} {opts : Options} {t : Target} {span : Span}

/-- The search for a pattern of counted characters. -/
theorem counts_ofPattern (ht : t.IsGenuine) (hle : span.start ≤ span.stop)
    (hstop : span.stop ≤ t.chars.length) (hlt : t.place span.stop < maxOffset) (recording : Bool) :
    (ofPattern p opts t.counted span).Counts t (p.slotsFor recording) where
  attempt := ⟨ht, rfl, hle, hstop, hlt⟩
  unset := by
    intro slots hslots o ho
    rw [Pattern.slotsFor] at hslots
    split at hslots
    · cases hslots
      simp [Captures.ofGroupLen] at ho
    · cases hslots

/-- **A search of counted characters reports what the search of the text does.** -/
theorem run_shows (hp : p.RefersToGroups) (ht : t.IsGenuine) (hle : span.start ≤ span.stop)
    (hstop : span.stop ≤ t.chars.length) (hlt : t.place span.stop < maxOffset)
    (cache cache' : Cache) :
    (ofPattern p opts t.counted span).Shows t
      ((ofPattern p opts t.counted span).run cache (p.slotsFor true))
      ((ofPattern p opts t (t.locate span)).run cache' (p.slotsFor true)) := by
  have hcounts : (ofPattern p opts t.counted span).Counts t (p.slotsFor true) :=
    counts_ofPattern ht hle hstop hlt true
  have hvalid : isValidSpan t.counted span = true :=
    isValidSpan_locate t.isGenuine_counted hle hstop
  have hvalid' := isValidSpan_locate ht hle hstop
  cases hX : opts.xmlSchema with
  | false =>
    exact (run_isLeftmost t.isGenuine_counted hvalid (fits_of_captures hp) hX cache).shows hcounts
      (run_isLeftmost ht hvalid' (fits_of_captures hp) hX cache')
  | true =>
    exact (run_isWhole t.isGenuine_counted hvalid (fits_of_captures hp) hX cache).shows hcounts
      (reachable_start hvalid) (run_isWhole ht hvalid' (fits_of_captures hp) hX cache')

end Search

namespace Regex

variable {p : Pattern} {opts : Options} {r : Regex} {t : Target} {span : Span}

/-- Whether all searches of a span have an answer, and leave captures if any are
brought along: with a cache of the caller's or one from the pool, and whatever
the captures were used for before. -/
def Yields (r : Regex) (t : Target) (span : Span) (answer : Except MatchError Bool)
    (found : Captures) : Prop :=
  ∀ caps : Option Captures,
    (∀ cache, (r.searchWith cache t span caps).answer = answer ∧
      (r.searchWith cache t span caps).caps = caps.map fun _ => found) ∧
    (r.search t span caps).1 = answer ∧ (r.search t span caps).2.2 = caps.map fun _ => found

/-- All searches of a valid span yield what the strategy of the pattern finds. -/
theorem Has.yields (hhas : Has p opts r) (h : Search.isValidSpan t span = true) (cache : Cache) :
    let result := (Search.ofPattern p opts t span).run cache (p.slotsFor true)
    r.Yields t span (result.answer.map Option.isSome) result.captures := by
  intro result caps
  have hsearch : ∀ {r : Regex}, Has p opts r → ∀ cache',
      (r.searchWith cache' t span caps).answer = result.answer.map Option.isSome ∧
        (r.searchWith cache' t span caps).caps = caps.map fun _ => result.captures := by
    intro r hhas cache'
    obtain ⟨hanswer, hcaps⟩ := hhas.searchWith_of_valid h cache' caps
    rw [hanswer, hcaps]
    cases caps with
    | none => exact ⟨congrArg _ (Search.answer_slotsFor p opts t span cache cache').symm, rfl⟩
    | some caps =>
      obtain ⟨hfound, hslots⟩ :=
        Search.run_cache (.ofPattern p opts t span) cache' cache (p.slotsFor true)
      exact ⟨congrArg _ hfound, congrArg some (SearchResult.captures_congr hfound hslots)⟩
  exact ⟨hsearch hhas, hsearch (hhas.withPool _) _⟩

/-- **A text and a buffer of its characters are searched alike** by all
expressions of a pattern that refers to no groups but its own. -/
theorem yields_counted (hp : p.RefersToGroups) (ht : t.IsGenuine) (hle : span.start ≤ span.stop)
    (hstop : span.stop ≤ t.chars.length) (hlt : t.place span.stop < maxOffset) :
    ∃ found caps, ∀ r, MadeFrom p opts r → r.Yields t.counted span (.ok found) caps ∧
      r.Yields t (t.locate span) (.ok found) (caps.onto t) := by
  let result := (Search.ofPattern p opts t.counted span).run .empty (p.slotsFor true)
  let result' := (Search.ofPattern p opts t (t.locate span)).run .empty (p.slotsFor true)
  have hcounts : (Search.ofPattern p opts t.counted span).Counts t (p.slotsFor true) :=
    Search.counts_ofPattern ht hle hstop hlt true
  have hshows : (Search.ofPattern p opts t.counted span).Shows t result result' :=
    Search.run_shows hp ht hle hstop hlt .empty .empty
  have hvalid : Search.isValidSpan t.counted span = true :=
    Search.isValidSpan_locate t.isGenuine_counted hle hstop
  obtain ⟨found, hanswer, hanswer', -⟩ := hshows.answers
  refine ⟨found.isSome, result.captures, fun r hr => ⟨?_, ?_⟩⟩
  · have hyields : r.Yields t.counted span (result.answer.map Option.isSome) result.captures :=
      hr.has.yields hvalid .empty
    rwa [hanswer] at hyields
  · have hyields : r.Yields t (t.locate span) (result'.answer.map Option.isSome) result'.captures :=
      hr.has.yields (Search.isValidSpan_locate ht hle hstop) .empty
    rw [hanswer', hshows.captures hcounts.attempt] at hyields
    simpa only [Except.map, Option.isSome_map] using hyields

/-- **A string and a buffer of its characters are searched alike.**  With an
expression that was read from text, all searches from one character of a string
to another one have the same answer as those of a buffer of its characters, and
what a group spans in the string is where it has the characters that it spans in
the buffer. -/
theorem yields_ofString {text : String} {limit : ℕ} (hp : Pattern.parse opts text limit = .ok p)
    (str : String) {k k' : ℕ} (hle : k ≤ k') (hk' : k' ≤ str.toList.length)
    (hsize : byteCount (str.toList.take k') < maxOffset) :
    let offset : ℕ → ℕ := fun j => byteCount (str.toList.take j)
    ∃ found caps caps', caps.MovedBy offset caps' ∧ ∀ r, MadeFrom p opts r →
      r.Yields (.bufferOfString str) ⟨k, k'⟩ (.ok found) caps ∧
        r.Yields (.ofString str) ⟨offset k, offset k'⟩ (.ok found) caps' := by
  intro offset
  let span : Span := ⟨k, k'⟩
  obtain ⟨found, caps, hyields⟩ := yields_counted (Pattern.parse_refersToGroups hp)
    (Target.isGenuine_ofString str) (show span.start ≤ span.stop from hle) hk' hsize
  exact ⟨found, caps, _, caps.movedBy_onto (.ofString str), hyields⟩

/-- `(s)s` without regard to case on `éſs`, where the long s takes two bytes and
the letter that it is equal to takes one. -/
theorem yields_ofString_longS :
    let opts : Options := { caseInsensitive := true, noFirstChars := true, noLiteralScan := true }
    let p : Pattern := .concat [.group (some 1) (.char 's'), .char 's']
    let x := (Regex.ofParts "(s)s" p opts).searchWith .empty (.ofString "éſs") ⟨0, 5⟩ (some .empty)
    Pattern.parse opts "(s)s" 1 = .ok p ∧ x.answer = .ok true ∧ ∃ caps, x.caps = some caps ∧
      caps.group? 0 = some ⟨2, 5⟩ ∧ caps.group? 1 = some ⟨2, 4⟩ := by
  intro opts p x
  let r : Regex := .ofParts "(s)s" p opts
  have hp : Pattern.parse opts "(s)s" 1 = .ok p := by cbv
  have hanswer : (r.searchWith .empty (.bufferOfString "éſs") ⟨0, 3⟩ (some .empty)).answer =
      .ok true := by
    subst r p opts
    cbv
  have hcaps : (r.searchWith .empty (.bufferOfString "éſs") ⟨0, 3⟩ (some .empty)).caps =
      some ⟨#[some 1, some 3, some 1, some 2]⟩ := by
    subst r p opts
    cbv
  obtain ⟨found, caps, caps', hmoved, hyields⟩ := yields_ofString hp "éſs"
    (show 0 ≤ 3 by decide) (by decide) (by decide)
  obtain ⟨hchars, hbytes⟩ := hyields r (.parts _)
  obtain ⟨hanswer', hcaps'⟩ := (hchars (some .empty)).1 .empty
  obtain ⟨hfound, hgroups⟩ := (hbytes (some .empty)).1 .empty
  cases hanswer'.symm.trans hanswer
  cases hcaps'.symm.trans hcaps
  refine ⟨hp, hfound, caps', hgroups, ?_, ?_⟩ <;>
  · rw [hmoved.group?_eq]
    decide

end Regex

end Regexp
