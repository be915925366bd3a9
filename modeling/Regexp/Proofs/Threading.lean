import Mathlib.Logic.Function.Basic
import Regexp.Proofs.Trail

/-!
# Captures threaded through derivations

Derivations from left to right that keep in mind what each group has captured
last, so that references and conditions on groups can be followed.  They are
told without slots: a `Stage` is an offset with what each group has captured,
and a group captures all at once, when its body has been derived.  So this is
again a description of what a pattern matches that does not mention a machine,
for patterns of which `Pattern.Derives` does not say enough.

## Stages and places

A machine does not capture all at once.  While a group is open, its slots and
its last capture do not agree: the slot for its start has been written, and the
one for its end has not.  Nobody looks at them if the group is not mentioned
inside of itself (`Pattern.IsProper`), so `Meets` asks of an open group only
that its start is recorded, and of the others that the slots hold what they have
captured.

## Imitation

`Pattern.mirrors` says that the walks between places and the derivations between
stages imitate each other, as long as places and stages meet.  `Mirrors` is the
notion behind this, a relation between two relations in both directions; it is
kept by composition, choice and iteration, so that each construct of a pattern
is one application of a lemma.  The first direction can be switched off, because
without captures that can be followed a derivation is still imitated by a walk,
but not the other way round (`Pattern.Followable`).

An iteration of a loop over the empty text is refused by the machine at its
second entry, while a derivation may have it.  `Pattern.Threads` comes with and
without such iterations, which makes a difference here because an empty
iteration may still capture something.

## Main definitions

* `Stage` — an offset with what each group has captured last.
* `Pattern.Threads` — derivations that thread captures.
* `Pattern.mentions`, `Pattern.IsProper` — patterns in which no group is
  mentioned inside of itself.
* `Mirrors` — two relations that imitate each other.

## Main statements

* `Target.repeats_iff` — a copy of a region has the characters of the region.
* `Pattern.mirrors` — patterns thread captures as they walk between places.
-/

namespace Regexp

/-! ### Copies -/

namespace Target

variable {t : Target} {s : Span} {fold : Bool} {i j pos stop limit : ℕ} {w : List Char}

/-- What characters stand in ends where one of them does, unless there are none. -/
theorem Spells.isBoundary (ht : t.IsGenuine) (h : t.Spells s fold i w j) (hw : w ≠ []) :
    t.isBoundary j = true := by
  induction w generalizing i with
  | nil => exact absurd rfl hw
  | cons c w ih =>
    obtain ⟨d, i', ⟨k, hk, -, rfl, -⟩, -, h⟩ := h
    cases w with
    | nil =>
      obtain rfl : t.place (k + 1) = j := h
      exact (isBoundary_iff ht).mpr ⟨k + 1, (List.getElem?_eq_some_iff.mp hk).1, rfl⟩
    | cons c' w => exact ih h (by simp)

theorem repeatsFrom_iff (ht : t.IsGenuine) (hlimit : t.isBoundary s.stop = true)
    (hi : s.start ≤ i) (hw : t.Spells s false pos w stop) :
    t.repeatsFrom fold s.stop stop i pos = some j ↔ t.Spells s fold i w j := by
  induction w generalizing i pos with
  | nil =>
    obtain rfl : pos = stop := hw
    rw [repeatsFrom, if_neg (lt_irrefl pos), Option.some_inj]
    exact Iff.rfl
  | cons c w ih =>
    have hstop := hw.isBoundary ht (by simp)
    obtain ⟨d, pos', hchar, hd, hw⟩ := hw
    obtain rfl : d = c := Case.charsMatch_false.mp hd
    have hlt := hchar.bounds
    have hle := hw.le
    -- The region ends at a boundary as well, so its characters can be read one by one.
    have hexpected : t.charAfter pos stop = some (d, pos') :=
      (charAfter_hasChar (s := ⟨s.start, stop⟩) ht hstop hlt.1).mpr
        (hchar.imp fun k => fun ⟨hk, hpos, hpos', hstart, _⟩ => ⟨hk, hpos, hpos', hstart, hle⟩)
    rw [repeatsFrom, if_pos (by omega), Spells]
    constructor
    · intro h
      split at h
      · rename_i heq
        cases hexpected.symm.trans heq
        split at h
        · rename_i c next hc
          rw [charAfter_hasChar ht hlimit hi] at hc
          have hbounds := hc.bounds
          split at h
          · exact ⟨c, next, hc, by assumption, (ih (by omega) hw).mp h⟩
          · cases h
        · cases h
      · cases h
    · rintro ⟨c, next, hc, hmatch, h⟩
      have hbounds := hc.bounds
      split
      · rename_i heq
        cases hexpected.symm.trans heq
        rw [(charAfter_hasChar ht hlimit hi).mpr hc]
        simp only [hmatch, if_true]
        exact (ih (by omega) hw).mpr h
      · rename_i heq
        cases hexpected.symm.trans heq

/-- A copy of a region has the characters of the region, up to case if case does
not matter. -/
theorem repeats_iff (ht : t.IsGenuine) (hlimit : t.isBoundary s.stop = true) (hi : s.start ≤ i)
    {region : Span} (hregion : Pattern.HasText t s 0 region.start region.stop) :
    t.repeats fold i s.stop region = some j ↔
      ∃ w, t.Spells s false region.start w region.stop ∧ t.Spells s fold i w j := by
  obtain ⟨w, hw, -⟩ := hregion
  rw [repeats, repeatsFrom_iff ht hlimit hi hw]
  constructor
  · intro h
    exact ⟨w, hw, h⟩
  · rintro ⟨w', hw', h⟩
    rwa [hw.unique hw']

end Target

/-! ### Derivations with captures -/

/-- An offset with what each group has captured last.  Unlike slots a stage
never holds a start without its end. -/
structure Stage where
  offset : ℕ
  captured : ℕ → Option Span

namespace Stage

/-- The stage at an offset when nothing has been captured. -/
def fresh (i : ℕ) : Stage := ⟨i, fun _ => none⟩

/-- The stage after a group has captured the text from an offset on, up to where
the stage is. -/
def capture (x : Stage) (n start : ℕ) : Stage :=
  ⟨x.offset, Function.update x.captured n (some ⟨start, x.offset⟩)⟩

@[simp] theorem capture_self (x : Stage) (n start : ℕ) :
    (x.capture n start).captured n = some ⟨start, x.offset⟩ := Function.update_self ..

theorem capture_of_ne (x : Stage) {n n' : ℕ} (h : n' ≠ n) (start : ℕ) :
    (x.capture n start).captured n' = x.captured n' := Function.update_of_ne h ..

end Stage

namespace Pattern

section

variable (t : Target) (s : Span) (nonempty : Bool)

mutual

/-- Whether a pattern derives the text between two offsets, with the captures
before and after.  If derivations are to be `nonempty`, no iteration of a loop
without an upper bound is empty.  Matches within the match have no such
derivations, and a reference has one only where the text is the same as the text
that was captured. -/
def Threads (opts : Options) : Pattern → Stage → Stage → Prop
  | .concat items, x, y => ThreadsSeq opts items x y
  | .union alternatives, x, y => ThreadsOne opts alternatives x y
  | .repetition body min max _, x, y => ∃ n, min ≤ n ∧ (∀ b, max = some b → n ≤ min ∨ n ≤ b) ∧
      Repeats (fun x y => Threads opts body x y ∧
        (nonempty = true → max = none → x.offset ≠ y.offset)) n x y
  | .group none body, x, y => Threads opts body x y
  | .group (some n) body, x, y => ∃ z, Threads opts body x z ∧ y = z.capture n x.offset
  | .backref n, x, y => y.captured = x.captured ∧ ∃ region w, x.captured n = some region ∧
      t.Spells s false region.start w region.stop ∧
        t.Spells s opts.caseInsensitive x.offset w y.offset
  | .ifGroup n yes none, x, y =>
    (x.captured n).isSome = true ∧ Threads opts yes x y ∨ (x.captured n).isSome = false ∧ x = y
  | .ifGroup n yes (some no), x, y =>
    (x.captured n).isSome = true ∧ Threads opts yes x y ∨
      (x.captured n).isSome = false ∧ Threads opts no x y
  | .look _ _, _, _ | .independent _, _, _ | .modifier _ _ _, _, _ | .ifLook _ _ _, _, _ => False
  | p, x, y => y.captured = x.captured ∧ Derives t s true false opts p x.offset y.offset
  termination_by structural p => p

/-- Whether patterns in sequence have derivations one after the other. -/
def ThreadsSeq (opts : Options) : List Pattern → Stage → Stage → Prop
  | [], x, y => x = y
  | p :: ps, x, y => ∃ z, Threads opts p x z ∧ ThreadsSeq opts ps z y
  termination_by structural ps => ps

/-- Whether one of several patterns has a derivation. -/
def ThreadsOne (opts : Options) : List Pattern → Stage → Stage → Prop
  | [], _, _ => False
  | p :: ps, x, y => Threads opts p x y ∨ ThreadsOne opts ps x y
  termination_by structural ps => ps

end

end

mutual

/-- The groups that a pattern captures or refers to, each as often as it does.
References and tests of groups count alike. -/
def mentions : Pattern → List ℕ
  | .backref n => [n]
  | .concat items => mentionsAny items
  | .union alternatives => mentionsAny alternatives
  | .repetition body _ _ _ => mentions body
  | .group none body => mentions body
  | .group (some n) body => n :: mentions body
  | .look _ body => mentions body
  | .independent body => mentions body
  | .modifier _ _ body => mentions body
  | .ifGroup n yes none => n :: mentions yes
  | .ifGroup n yes (some no) => n :: (mentions yes ++ mentions no)
  | .ifLook test yes none => mentions test ++ mentions yes
  | .ifLook test yes (some no) => mentions test ++ mentions yes ++ mentions no
  | _ => []
  termination_by structural p => p

/-- The groups that several patterns capture or refer to. -/
def mentionsAny : List Pattern → List ℕ
  | [] => []
  | p :: ps => mentions p ++ mentionsAny ps
  termination_by structural ps => ps

end

/-- Whether no group is mentioned inside of itself.  While such a group is open,
its slots hold the new start beside the old end, and a reference to it would
read what no stage can hold. -/
def IsProper (p : Pattern) : Prop :=
  ∀ n body, .group (some n) body ∈ p.subpatterns → n ∉ body.mentions

end Pattern

/-! ### Relations that imitate each other -/

/-- Whether two relations imitate each other, step by step, where the first one
need be imitated only if `exact`. -/
structure Mirrors {X Y : Type} (exact : Prop) (W : X → X → Prop) (T : Y → Y → Prop)
    (R : X → Y → Prop) : Prop where
  forth : exact → ∀ x x' y, R x y → W x x' → ∃ y', T y y' ∧ R x' y'
  back : ∀ x y y', R x y → T y y' → ∃ x', W x x' ∧ R x' y'

namespace Mirrors

variable {X Y : Type} {exact : Prop} {W W' : X → X → Prop} {T T' : Y → Y → Prop} {R : X → Y → Prop}

theorem refl : Mirrors exact (· = ·) (· = ·) R where
  forth _ _ _ y hR h := ⟨y, rfl, h ▸ hR⟩
  back x _ _ hR h := ⟨x, rfl, h ▸ hR⟩

theorem trans (h : Mirrors exact W T R) (h' : Mirrors exact W' T' R) :
    Mirrors exact (fun x y => ∃ z, W x z ∧ W' z y) (fun x y => ∃ z, T x z ∧ T' z y) R where
  forth hexact x x' y hR := by
    rintro ⟨z, hz, hx'⟩
    obtain ⟨w, hw, hR⟩ := h.forth hexact x z y hR hz
    obtain ⟨y', hy', hR⟩ := h'.forth hexact z x' w hR hx'
    exact ⟨y', ⟨w, hw, hy'⟩, hR⟩
  back x y y' hR := by
    rintro ⟨w, hw, hy'⟩
    obtain ⟨z, hz, hR⟩ := h.back x y w hR hw
    obtain ⟨x', hx', hR⟩ := h'.back z w y' hR hy'
    exact ⟨x', ⟨z, hz, hx'⟩, hR⟩

theorem empty : Mirrors exact (fun _ _ => False) (fun _ _ => False) R where
  forth _ _ _ _ _ h := h.elim
  back _ _ _ _ h := h.elim

theorem or (h : Mirrors exact W T R) (h' : Mirrors exact W' T' R) :
    Mirrors exact (fun x y => W x y ∨ W' x y) (fun x y => T x y ∨ T' x y) R where
  forth hexact x x' y hR hx := by
    rcases hx with hx | hx
    · obtain ⟨y', hy', hR⟩ := h.forth hexact x x' y hR hx
      exact ⟨y', .inl hy', hR⟩
    · obtain ⟨y', hy', hR⟩ := h'.forth hexact x x' y hR hx
      exact ⟨y', .inr hy', hR⟩
  back x y y' hR hy := by
    rcases hy with hy | hy
    · obtain ⟨x', hx', hR⟩ := h.back x y y' hR hy
      exact ⟨x', .inl hx', hR⟩
    · obtain ⟨x', hx', hR⟩ := h'.back x y y' hR hy
      exact ⟨x', .inr hx', hR⟩

/-- Both relations may be restricted by conditions that agree on related places. -/
theorem guard {P : X → Prop} {Q : Y → Prop} (hPQ : ∀ x y, R x y → (P x ↔ Q y))
    (h : Mirrors exact W T R) :
    Mirrors exact (fun x y => P x ∧ W x y) (fun x y => Q x ∧ T x y) R where
  forth hexact x x' y hR := by
    rintro ⟨hP, hx⟩
    obtain ⟨y', hy', hR'⟩ := h.forth hexact x x' y hR hx
    exact ⟨y', ⟨(hPQ x y hR).mp hP, hy'⟩, hR'⟩
  back x y y' hR := by
    rintro ⟨hQ, hy⟩
    obtain ⟨x', hx', hR'⟩ := h.back x y y' hR hy
    exact ⟨x', ⟨(hPQ x y hR).mpr hQ, hx'⟩, hR'⟩

/-- The second relation may be restricted where the first one need not be
imitated. -/
theorem restrict {P : Y → Y → Prop} (hP : exact → ∀ y y', P y y') (h : Mirrors exact W T R) :
    Mirrors exact W (fun y y' => T y y' ∧ P y y') R where
  forth hexact x x' y hR hx := by
    obtain ⟨y', hy', hR⟩ := h.forth hexact x x' y hR hx
    exact ⟨y', ⟨hy', hP hexact y y'⟩, hR⟩
  back x y y' hR hy := h.back x y y' hR hy.1

theorem repeats (h : Mirrors exact W T R) (n : ℕ) :
    Mirrors exact (Repeats W n) (Repeats T n) R := by
  induction n with
  | zero => exact .refl
  | succ n ih => exact h.trans ih

/-- One of many relations on each side, if those with the same index mirror each
other. -/
theorem any {ι : Type} {W : ι → X → X → Prop} {T : ι → Y → Y → Prop}
    (h : ∀ i, Mirrors exact (W i) (T i) R) :
    Mirrors exact (fun x y => ∃ i, W i x y) (fun x y => ∃ i, T i x y) R where
  forth hexact x x' y hR := by
    rintro ⟨i, hx⟩
    obtain ⟨y', hy', hR⟩ := (h i).forth hexact x x' y hR hx
    exact ⟨y', ⟨i, hy'⟩, hR⟩
  back x y y' hR := by
    rintro ⟨i, hy⟩
    obtain ⟨x', hx', hR⟩ := (h i).back x y y' hR hy
    exact ⟨x', ⟨i, hx'⟩, hR⟩

end Mirrors

/-! ### Places and stages -/

/-- The end of a span at an edge. -/
def Edge.of : Edge → Span → ℕ
  | .start, s => s.start
  | .stop, s => s.stop

/-- Whether slots hold what the groups have captured, where for the groups that
are open, with the offsets at which they have begun, only their starts have been
recorded. -/
structure Meets (a : Attempt) (size : Option ℕ) (begun : ℕ → Option ℕ) (x : Place) (y : Stage) :
    Prop where
  offset : y.offset = x.offset
  inSpan : a.InSpan x.offset
  size : x.slots.map Array.size = size
  opened : ∀ n i, begun n = some i → x.HasRoom n → x.recorded n .start = some i
  closed : ∀ n, begun n = none → x.HasRoom n → ∀ edge,
    x.recorded n edge = (y.captured n).map edge.of
  text : ∀ n region, y.captured n = some region →
    Pattern.HasText a.target a.span 0 region.start region.stop

namespace Meets

variable {a : Attempt} {size : Option ℕ} {begun : ℕ → Option ℕ} {x x' : Place} {y y' : Stage}
  {n i : ℕ}

/-- Only the offset has changed.  Slots and captures still tell the same. -/
theorem move (h : Meets a size begun x y) (hslots : x'.slots = x.slots)
    (hcaptured : y'.captured = y.captured) (hoffset : y'.offset = x'.offset)
    (hin : a.InSpan x'.offset) : Meets a size begun x' y' where
  offset := hoffset
  inSpan := hin
  size := hslots ▸ h.size
  opened n i hn hroom := by
    rw [Place.recorded, hslots]
    exact h.opened n i hn (by rwa [Place.HasRoom, hslots] at hroom)
  closed n hn hroom edge := by
    rw [Place.recorded, hslots, hcaptured]
    exact h.closed n hn (by rwa [Place.HasRoom, hslots] at hroom) edge
  text := hcaptured ▸ h.text

/-- Where a group is not open, its slots tell what it has captured.  While it is
open, one of them is ahead of the other. -/
theorem capturedSpan_eq {f : Feature} (h : Meets a size begun x y) (hn : begun n = none)
    (hserved : f.Served size) (hf : f.group? = some n) :
    capturedSpan x.slots n = .ok (y.captured n) := by
  obtain ⟨count, rfl, hpos, hlt⟩ := hserved n hf
  obtain ⟨slots, hslots, rfl⟩ := Option.map_eq_some_iff.mp h.size
  have hclosed := h.closed n hn ⟨slots, hslots, by omega⟩
  have hstart := hclosed .start
  have hstop := hclosed .stop
  simp only [Place.recorded, hslots, Option.bind_some, Edge.slot] at hstart hstop
  rw [hslots, capturedSpan, if_neg (by omega), hstart, hstop]
  cases hregion : y.captured n with
  | none => rfl
  | some region =>
    obtain ⟨w, hw, -⟩ := h.text n region hregion
    exact congrArg Except.ok (if_pos hw.le)

/-- A group is opened.  Nothing is captured yet, but its first slot holds the
offset. -/
theorem opening (hstop : a.span.stop < maxOffset) (h : Meets a size begun x y) (n : ℕ) :
    Meets a size (Function.update begun n (some x.offset)) (x.record (Edge.start.slot n)) y where
  offset := h.offset
  inSpan := h.inSpan
  size := (size_recordIn _ _ _).trans h.size
  opened n' i hn' hroom := by
    rw [Place.hasRoom_record] at hroom
    by_cases heq : n' = n
    · subst heq
      rw [Function.update_self] at hn'
      rw [Place.recorded_record_self hroom, slotValue_of_inSpan hstop h.inSpan, hn']
    · rw [Function.update_of_ne heq] at hn'
      rw [Place.recorded_record_of_ne (by simp [heq])]
      exact h.opened n' i hn' hroom
  closed n' hn' hroom edge := by
    rw [Place.hasRoom_record] at hroom
    have heq : n' ≠ n := by
      rintro rfl
      simp at hn'
    rw [Function.update_of_ne heq] at hn'
    rw [Place.recorded_record_of_ne (by simp [heq])]
    exact h.closed n' hn' hroom edge
  text := h.text

/-- A group is closed, and has captured the text from where it was opened.  The
slots agree with the captures again. -/
theorem closing (hstop : a.span.stop < maxOffset) (hn : begun n = none)
    (h : Meets a size (Function.update begun n (some i)) x y)
    (htext : Pattern.HasText a.target a.span 0 i x.offset) :
    Meets a size begun (x.record (Edge.stop.slot n)) (y.capture n i) where
  offset := h.offset
  inSpan := h.inSpan
  size := (size_recordIn _ _ _).trans h.size
  opened n' j hn' hroom := by
    rw [Place.hasRoom_record] at hroom
    have heq : n' ≠ n := by
      rintro rfl
      rw [hn] at hn'
      cases hn'
    rw [Place.recorded_record_of_ne (by simp [heq])]
    exact h.opened n' j (by rwa [Function.update_of_ne heq]) hroom
  closed n' hn' hroom edge := by
    rw [Place.hasRoom_record] at hroom
    by_cases heq : n' = n
    · subst heq
      rw [Stage.capture_self, Option.map_some]
      cases edge with
      | start =>
        rw [Place.recorded_record_of_ne (by simp)]
        exact h.opened n' i (Function.update_self ..) hroom
      | stop =>
        rw [Place.recorded_record_self hroom, slotValue_of_inSpan hstop h.inSpan, ← h.offset]
        rfl
    · rw [Place.recorded_record_of_ne (by simp [heq]), y.capture_of_ne heq]
      exact h.closed n' (by rwa [Function.update_of_ne heq]) hroom edge
  text n' region hregion := by
    by_cases heq : n' = n
    · subst heq
      rw [Stage.capture_self] at hregion
      cases hregion
      rw [h.offset]
      exact htext
    · rw [y.capture_of_ne heq] at hregion
      exact h.text n' region hregion

end Meets

namespace Pattern

variable {a : Attempt} {size : Option ℕ} {begun : ℕ → Option ℕ} {nonempty strict : Bool}
  {opts : Options} {p : Pattern}

/-- Atoms read what stages have derivations for, if they do so at each place. -/
theorem mirrors_read {exact : Prop} {atom : Atom} {P : Stage → ℕ → Prop}
    (hread : ∀ x y j, Meets a size begun x y →
      (a.read atom opts false x.offset x.slots = .ok (some j) ↔ P y j)) :
    Mirrors exact (fun x x' => (Meaning.places a).read ⟨false, opts⟩ atom x x')
      (fun y y' => y'.captured = y.captured ∧ P y y'.offset) (Meets a size begun) where
  forth _ x x' y hR := by
    rintro ⟨hx', hslots⟩
    have hy' := (hread x y x'.offset hR).mp hx'
    exact ⟨⟨x'.offset, y.captured⟩, ⟨rfl, hy'⟩,
      hR.move hslots rfl rfl (Attempt.read_inSpan hR.inSpan hx')⟩
  back x y y' hR := by
    rintro ⟨hcaptured, hy'⟩
    have hx' := (hread x y y'.offset hR).mpr hy'
    exact ⟨⟨y'.offset, x.slots⟩, ⟨hx', rfl⟩,
      hR.move rfl hcaptured rfl (Attempt.read_inSpan hR.inSpan hx')⟩

/-- Patterns that read text without asking for what was captured. -/
theorem mirrors_atom {exact : Prop} {atom : Atom} (hread : ∀ (x : Place) (j : ℕ),
      a.InSpan x.offset → (a.read atom opts false x.offset x.slots = .ok (some j) ↔
        Derives a.target a.span true false opts p x.offset j)) :
    Mirrors exact (fun x x' => (Meaning.places a).read ⟨false, opts⟩ atom x x')
      (fun y y' => y'.captured = y.captured ∧
        Derives a.target a.span true false opts p y.offset y'.offset) (Meets a size begun) :=
  mirrors_read (P := fun y j => Derives a.target a.span true false opts p y.offset j)
    fun x _ j hR => hR.offset ▸ hread x j hR.inSpan

/-- A reference reads a copy of what its group has captured.  If that is
nothing, it does not match. -/
theorem read_backref_iff (ht : a.OnText) {x : Place} {y : Stage} {n j : ℕ}
    (hR : Meets a size begun x y) (hn : begun n = none)
    (hserved : Feature.Served size (.reference n)) :
    a.read (.backref n) opts false x.offset x.slots = .ok (some j) ↔
      ∃ region w, y.captured n = some region ∧
        a.target.Spells a.span false region.start w region.stop ∧
          a.target.Spells a.span opts.caseInsensitive y.offset w j := by
  rw [hR.offset]
  have hspan := hR.capturedSpan_eq hn hserved rfl
  simp only [Attempt.read, hspan]
  cases hregion : y.captured n with
  | none => simp
  | some region =>
    have hcopy : a.target.repeats opts.caseInsensitive x.offset a.span.stop region = some j ↔ _ :=
      Target.repeats_iff ht.genuine ht.stop_boundary hR.inSpan.1 (hR.text n region hregion)
    simpa using hcopy

/-- A condition on a group asks for what the group has captured. -/
theorem test_iff {x : Place} {y : Stage} {n : ℕ} {b : Bool} (hR : Meets a size begun x y)
    (hn : begun n = none) (hserved : Feature.Served size (.groupTest n)) :
    (Meaning.places a).test n b x ↔ (y.captured n).isSome = b := by
  have hspan := hR.capturedSpan_eq hn hserved rfl
  constructor
  · rintro ⟨captured, h, rfl⟩
    cases hspan.symm.trans h
    rfl
  · intro h
    exact ⟨y.captured n, hspan, h⟩

/-- Whether captures can be followed through a pattern while groups are open:
there are slots for the groups that it refers to, and it mentions no group that
is open. -/
structure Followable (size : Option ℕ) (begun : ℕ → Option ℕ) (p : Pattern) : Prop where
  flat : p.IsFlat
  proper : p.IsProper
  served : ∀ f ∈ p.features, f.Served size
  unopened : ∀ n ∈ p.mentions, begun n = none

/-- What holds of a pattern holds of its parts: their features, groups and
mentions are among its own. -/
theorem Followable.part {q : Pattern} (h : p.Followable size begun)
    (hfeatures : ∀ f ∈ q.features, f ∈ p.features)
    (hgroups : ∀ n body, .group (some n) body ∈ q.subpatterns →
      .group (some n) body ∈ p.subpatterns)
    (hmentions : ∀ n ∈ q.mentions, n ∈ p.mentions) : q.Followable size begun where
  flat f hf := h.flat f (hfeatures f hf)
  proper n body hbody := h.proper n body (hgroups n body hbody)
  served f hf := h.served f (hfeatures f hf)
  unopened n hn := h.unopened n (hmentions n hn)

/-- The body of a group mentions no group that is open, once the group is open
itself. -/
theorem Followable.body {n : ℕ} (h : (group (some n) p).Followable size begun) (i : ℕ) :
    p.Followable size (Function.update begun n (some i)) where
  flat := h.flat
  proper n' body hbody := h.proper n' body (List.mem_cons_of_mem _ hbody)
  served := h.served
  unopened n' hn' := by
    have hne : n' ≠ n := by
      rintro rfl
      exact h.proper n' p List.mem_cons_self hn'
    rw [Function.update_of_ne hne]
    exact h.unopened n' (List.mem_cons_of_mem _ hn')

/-- A group captures what its body derives.  The body is followed with the group
open. -/
theorem mirrors_group (ht : a.OnText) (hstop : a.span.stop < maxOffset) {exact : Prop} {n : ℕ}
    (hp : (group (some n) p).Followable size begun)
    (hbody : ∀ i, Mirrors exact (Walks (.places a) strict ⟨false, opts⟩ p)
      (Threads a.target a.span nonempty opts p) (Meets a size (Function.update begun n (some i)))) :
    Mirrors exact (Walks (.places a) strict ⟨false, opts⟩ (.group (some n) p))
      (Threads a.target a.span nonempty opts (.group (some n) p)) (Meets a size begun) := by
  have hn : begun n = none := hp.unopened n List.mem_cons_self
  have htext : ∀ x z : Place, a.InSpan x.offset →
      Walks (.places a) strict ⟨false, opts⟩ p (x.record (Edge.start.slot n)) z →
        HasText a.target a.span 0 x.offset z.offset := by
    intro x z hx h
    have hderives : Derives a.target a.span false false opts p x.offset z.offset :=
      Walks.derives Meaning.places_over ht p (by simp) ⟨false, opts⟩
        (x.record (Edge.start.slot n)) z hx h
    exact (Derives.hasText p false opts _ _ hderives).mono (Nat.zero_le _)
  constructor
  · rintro hexact x x' y hR ⟨_, z, rfl, hwalks, rfl⟩
    obtain ⟨w, hw, hR'⟩ := (hbody x.offset).forth hexact _ z y (hR.opening hstop n) hwalks
    refine ⟨_, ⟨w, hw, rfl⟩, ?_⟩
    rw [hR.offset]
    exact hR'.closing hstop hn (htext x z hR.inSpan hwalks)
  · rintro x y y' hR ⟨w, hw, rfl⟩
    obtain ⟨z, hwalks, hR'⟩ := (hbody x.offset).back _ y w (hR.opening hstop n) hw
    refine ⟨_, ⟨_, z, rfl, hwalks, rfl⟩, ?_⟩
    rw [hR.offset]
    exact hR'.closing hstop hn (htext x z hR.inSpan hwalks)

mutual

/-- A flat pattern threads captures as it walks between places.  The induction
is on the pattern, for all sets of groups that are open. -/
theorem mirrors (ht : a.OnText) (hstop : a.span.stop < maxOffset) :
    (p : Pattern) → (begun : ℕ → Option ℕ) → p.Followable size begun →
    Mirrors (nonempty = false) (Walks (.places a) strict ⟨false, opts⟩ p)
      (Threads a.target a.span nonempty opts p) (Meets a size begun)
  | .empty, _, _ =>
    { forth := fun _ x x' y hR h => ⟨y, ⟨rfl, rfl⟩, h ▸ hR⟩
      back := fun x y y' hR ⟨hcaptured, hoffset⟩ =>
        ⟨x, rfl, hR.move rfl hcaptured (hoffset.symm.trans hR.offset) hR.inSpan⟩ }
  | .char _, _, _ => mirrors_atom fun _ _ hx => Attempt.read_char_iff ht hx
  | .string _, _, _ => mirrors_atom fun _ _ hx => Attempt.read_string_iff ht hx
  | .dot, _, _ => mirrors_atom fun _ _ hx => Attempt.read_dot_iff ht hx
  | .charClass _ _, _, _ => mirrors_atom fun _ _ hx => Attempt.read_range_iff ht hx
  | .anchor _, _, _ => mirrors_atom fun _ _ _ => Attempt.read_anchor_iff
  | .backref n, _, hp =>
    mirrors_read (P := fun y j => ∃ region w, y.captured n = some region ∧
        a.target.Spells a.span false region.start w region.stop ∧
          a.target.Spells a.span opts.caseInsensitive y.offset w j)
      fun _ _ _ hR => read_backref_iff ht hR (hp.unopened n List.mem_cons_self)
        (hp.served _ List.mem_cons_self)
  | .concat items, begun, hp => mirrorsSeq ht hstop items begun hp
  | .union alternatives, begun, hp => mirrorsOne ht hstop alternatives begun hp
  | .repetition body min max greedy, begun, hp => by
    have hbody := mirrors ht hstop body begun
      (hp.part (fun _ h => h) (fun _ _ h => List.mem_cons_of_mem _ h) fun _ h => h)
    -- A round that has to move is guarded, and then it is repeated like any other.
    have hstep := hbody.restrict (P := fun y y' =>
      nonempty = true → max = none → y.offset ≠ y'.offset) fun hexact _ _ h => by simp [hexact] at h
    refine .any fun n => .guard (fun _ _ _ => Iff.rfl) (.guard (fun _ _ _ => Iff.rfl) ?_)
    exact hstep.repeats n
  | .group none body, begun, hp => mirrors ht hstop body begun
    (hp.part (fun _ h => h) (fun _ _ h => List.mem_cons_of_mem _ h) fun _ h => h)
  | .group (some n) body, begun, hp =>
    mirrors_group ht hstop hp fun i =>
      mirrors ht hstop body (Function.update begun n (some i)) (hp.body i)
  | .look _ _, _, hp | .independent _, _, hp | .modifier _ _ _, _, hp =>
    absurd (hp.flat _ List.mem_cons_self) (by simp [Feature.isNested])
  | .ifGroup n yes none, begun, hp => by
    have htest : ∀ b x y, Meets a size begun x y →
        ((Meaning.places a).test n b x ↔ (y.captured n).isSome = b) := fun b x y hR =>
      test_iff hR (hp.unopened n List.mem_cons_self) (hp.served _ List.mem_cons_self)
    have hyes := mirrors ht hstop yes begun (hp.part (fun _ h => List.mem_cons_of_mem _ h)
      (fun _ _ h => List.mem_cons_of_mem _ h) fun _ h => List.mem_cons_of_mem _ h)
    exact (hyes.guard (htest true)).or (Mirrors.refl.guard (htest false))
  | .ifGroup n yes (some no), begun, hp => by
    have htest : ∀ b x y, Meets a size begun x y →
        ((Meaning.places a).test n b x ↔ (y.captured n).isSome = b) := fun b x y hR =>
      test_iff hR (hp.unopened n List.mem_cons_self) (hp.served _ List.mem_cons_self)
    have hyes := mirrors ht hstop yes begun (hp.part (fun f h => by simp [features, h])
      (fun n b h => by simp [subpatterns, h]) fun n h => by simp [mentions, h])
    have hno := mirrors ht hstop no begun (hp.part (fun f h => by simp [features, h])
      (fun n b h => by simp [subpatterns, h]) fun n h => by simp [mentions, h])
    exact (hyes.guard (htest true)).or (hno.guard (htest false))
  | .ifLook _ _ none, _, hp | .ifLook _ _ (some _), _, hp =>
    absurd (hp.flat _ List.mem_cons_self) (by simp [Feature.isNested])
  termination_by structural p => p

theorem mirrorsSeq (ht : a.OnText) (hstop : a.span.stop < maxOffset) :
    (ps : List Pattern) → (begun : ℕ → Option ℕ) → (concat ps).Followable size begun →
    Mirrors (nonempty = false) (WalksSeq (.places a) strict ⟨false, opts⟩ ps)
      (ThreadsSeq a.target a.span nonempty opts ps) (Meets a size begun)
  | [], _, _ => .refl
  | p :: ps, begun, hp => by
    have hfirst := mirrors ht hstop p begun (hp.part (fun f h => by simp [features, featuresAll, h])
      (fun n b h => by simp [subpatterns, subpatternsAll, h])
      fun n h => by simp [mentions, mentionsAny, h])
    have hrest := mirrorsSeq ht hstop ps begun (hp.part
      (fun f (h : f ∈ featuresAll ps) => by simp [features, featuresAll, h])
      (fun n b h => by simp_all [subpatterns, subpatternsAll])
      fun n (h : n ∈ mentionsAny ps) => by simp [mentions, mentionsAny, h])
    exact hfirst.trans hrest
  termination_by structural ps => ps

theorem mirrorsOne (ht : a.OnText) (hstop : a.span.stop < maxOffset) :
    (ps : List Pattern) → (begun : ℕ → Option ℕ) → (union ps).Followable size begun →
    Mirrors (nonempty = false) (WalksOne (.places a) strict ⟨false, opts⟩ ps)
      (ThreadsOne a.target a.span nonempty opts ps) (Meets a size begun)
  | [], _, _ => .empty
  | p :: ps, begun, hp => by
    have hfirst := mirrors ht hstop p begun (hp.part (fun f h => by simp [features, featuresAll, h])
      (fun n b h => by simp [subpatterns, subpatternsAll, h])
      fun n h => by simp [mentions, mentionsAny, h])
    have hrest := mirrorsOne ht hstop ps begun (hp.part
      (fun f (h : f ∈ featuresAll ps) => by simp [features, featuresAll, h])
      (fun n b h => by simp_all [subpatterns, subpatternsAll])
      fun n (h : n ∈ mentionsAny ps) => by simp [mentions, mentionsAny, h])
    exact hfirst.or hrest
  termination_by structural ps => ps

end

end Pattern

end Regexp
