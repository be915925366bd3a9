import Regexp.Proofs.Outcome

/-!
# Trails

Paths through a program that carry what is recorded on the way.  What an attempt
has found, with the slots that it reports, lies at the end of a trail, and a
trail can be compared with the pattern.

A trail is to slots what a path of `Regexp.Proofs.Path` is to offsets.  It moves
between a `Place`, an offset with the slots recorded so far, and another one:
reading changes the offset, an end of a group is recorded at the current offset,
and a lookaround keeps the slots that its body has recorded and goes back to its
offset.  Nothing is ever taken back on a trail, since it follows the one way
that has led to the match.

A trail is generous.  It may take every match within the match to have failed,
and leaves the slots then as they were; for it does not know which ways through
a body were tried.  So trails say what may be found, and for flat patterns, in
which there are no matches within the match, what there is to find.

The meaning of operations is an instance of that of `Regexp.Proofs.Meaning`,
with places in the role of offsets (`Meaning.places`).  That trails obey it is
shown operation by operation, and the comparison with the pattern is then the
general one.

## Main definitions

* `Place` — an offset with the slots recorded so far.
* `Tread`, `Trail` — one operation of a trail, and a trail to the end of the
  program.
* `Meaning.places` — what operations do to places.

## Main statements

* `Explores.trail` — a match that is found lies at the end of a trail.
* `obeys_places`, `obeys_places_flat` — trails obey the meaning.
* `Attempt.Discovers.walks` — the pattern leads to what an attempt has found.
-/

namespace Regexp

/-- An offset with the slots recorded so far.  This is the part of a state that
the operations of a pattern read and write. -/
structure Place where
  offset : ℕ
  slots : Option Slots

namespace Place

/-- The first place as it is after a lookaround from there that ended at the
second one: the slots that the lookaround recorded are kept. -/
def back (x y : Place) : Place := ⟨x.offset, y.slots⟩

/-- The place after an end of a group has been recorded, at the place's own
offset. -/
def record (x : Place) (slot : ℕ) : Place := ⟨x.offset, recordIn x.slots slot x.offset⟩

end Place

/-! ### What is recorded at a place -/

theorem Edge.slot_inj {n n' : ℕ} {edge edge' : Edge} :
    edge.slot n = edge'.slot n' ↔ n = n' ∧ edge = edge' := by
  cases edge <;> cases edge' <;> simp [Edge.slot] <;> omega

/-- Recording leaves as many slots as there were. -/
theorem size_recordIn (sl : Option Slots) (slot offset : ℕ) :
    (recordIn sl slot offset).map Array.size = sl.map Array.size := by
  rw [recordIn, Option.map_map]
  exact congrArg (Option.map · sl) (funext fun slots => Array.size_setIfInBounds)

namespace Place

variable {x y : Place} {n n' : ℕ} {edge edge' : Edge}

/-- Whether both ends of a group can be recorded.  An attempt without slots has
room for none, and it is refused where one is asked for. -/
def HasRoom (x : Place) (n : ℕ) : Prop := ∃ slots, x.slots = some slots ∧ 2 * n + 1 < slots.size

/-- What is recorded for an end of a group, which is nothing if the slot is not
there or not set. -/
def recorded (x : Place) (n : ℕ) (edge : Edge) : Option ℕ :=
  x.slots.bind fun slots => slots[edge.slot n]?.join

theorem hasRoom_record {slot : ℕ} : (x.record slot).HasRoom n ↔ x.HasRoom n := by
  unfold HasRoom record recordIn
  cases x.slots <;> simp

theorem recorded_record_self (h : x.HasRoom n) :
    (x.record (edge.slot n)).recorded n edge = slotValue x.offset := by
  obtain ⟨slots, hslots, hlt⟩ := h
  have hedge : edge.slot n < slots.size := by cases edge <;> simp [Edge.slot] <;> omega
  simp [recorded, record, recordIn, hslots, hedge]

theorem recorded_record_of_ne (h : ¬ (n' = n ∧ edge' = edge)) :
    (x.record (edge.slot n)).recorded n' edge' = x.recorded n' edge' := by
  have hne : edge.slot n ≠ edge'.slot n' := fun heq => h (Edge.slot_inj.mp heq.symm)
  unfold recorded record recordIn
  cases x.slots with
  | none => rfl
  | some slots => simp [hne]

end Place

/-- Nothing is recorded when an attempt begins. -/
theorem Attempt.recorded_fresh {slots : Option Slots} {offset n : ℕ} {edge : Edge} :
    (Place.mk offset (Attempt.fresh slots)).recorded n edge = none := by
  unfold Place.recorded Attempt.fresh
  cases slots with
  | none => rfl
  | some slots =>
    simp only [Option.map_some, Option.bind_some, Array.getElem?_replicate]
    split <;> rfl

/-- An offset of a span that ends early enough can be recorded.  Only the
greatest offset of all cannot. -/
theorem slotValue_of_inSpan {a : Attempt} {i : ℕ} (hstop : a.span.stop < maxOffset)
    (hi : a.InSpan i) : slotValue i = some i := if_pos (hi.2.trans_lt hstop)

/-! ### Trails -/

mutual

/-- One operation of a trail, from its index and a place to a link and a place.
Unlike `Move` it reads with the slots that the trail has recorded, and tests
groups by them; a match within the match is a trail of its own, from which only
the slots or also the offset are taken over. -/
inductive Tread (a : Attempt) : Mode → ℕ → Place → Link → Place → Prop
  | read {m k x atom next j} (hop : a.program.ops[k]? = some (.atom atom next))
    (hread : a.read atom m.opts m.reverse x.offset x.slots = .ok (some j)) :
    Tread a m k x next ⟨j, x.slots⟩
  | branch {m k x op l} (hop : a.program.ops[k]? = some op)
    (hkind : (op.isChoice || op.isClosure) = true) (hl : l ∈ op.branches) : Tread a m k x l x
  | mark {m k x group edge next} (hop : a.program.ops[k]? = some (.mark group edge next)) :
    Tread a m k x next (x.record (edge.slot group))
  | test {m k x group yes no captured} (hop : a.program.ops[k]? = some (.ifGroup group yes no))
    (hg : capturedSpan x.slots group = .ok captured) :
    Tread a m k x (if captured.isSome then yes else no) x
  | ended {m k x op child m' y l z} (hop : a.program.ops[k]? = some op)
    (hb : op.body? m = some (child, m')) (body : Trail a m' child x y)
    (hgo : op.sequel? Place.back x (some y) = some (l, z)) : Tread a m k x l z
  | failed {m k x op child m' l z} (hop : a.program.ops[k]? = some op)
    (hb : op.body? m = some (child, m')) (hgo : op.sequel? Place.back x none = some (l, z)) :
    Tread a m k x l z

/-- A trail from a link and a place to the end of the program at a place.  It is
what a run leaves of its operations if those that have been taken back are left
out. -/
inductive Trail (a : Attempt) : Mode → Link → Place → Place → Prop
  | done {m x} : Trail a m none x x
  | step {m k x l y z} (tread : Tread a m k x l y) (rest : Trail a m l y z) :
    Trail a m (some k) x z

end

variable {a : Attempt} {watch : ℕ → Mode → ℕ → Marks → Prop} {top : Bool} {m : Mode}
  {V V' : Marks} {links : List Link} {link l : Link} {i j k e : ℕ} {sl sl' : Option Slots}
  {r : Discovery} {x y z : Place} {op : Op}

/-! ### Trails of matches -/

/-- A match within the match goes on at a place as it goes on at an offset.
What the body has recorded is kept. -/
theorem Op.sequel?_of_resume?_some (h : op.resume? i (some e) = some (.go j l)) :
    op.sequel? Place.back ⟨i, sl⟩ (some ⟨e, sl'⟩) = some (l, ⟨j, sl'⟩) := by
  cases op with
  | look kind child next =>
    simp only [Op.resume?] at h
    split at h
    · cases h
    · rename_i hne
      cases h
      exact if_neg hne
  | independent | modifier | ifLook =>
    cases h
    rfl
  | _ => cases h

theorem Op.sequel?_of_resume?_none (h : op.resume? i none = some (.go j l)) :
    op.sequel? Place.back ⟨i, sl⟩ none = some (l, ⟨j, sl⟩) := by
  cases op with
  | look kind child next =>
    simp only [Op.resume?] at h
    split at h
    · cases h
    · rename_i hne
      cases h
      exact if_neg hne
  | ifLook =>
    cases h
    rfl
  | _ => cases h

/-- A match that is found lies at the end of a trail, which tells its slots as
well. -/
theorem Explores.trail (h : Explores a watch top m V links i sl V' r) :
    ∀ e sl', r = .matched e sl' → ∃ l ∈ links, Trail a m l ⟨i, sl⟩ ⟨e, sl'⟩ := by
  induction h with
  | accept =>
    rintro e sl' ⟨⟩
    exact ⟨none, List.mem_cons_self, .done⟩
  | read hop hread _ ih =>
    intro e sl' hr
    obtain ⟨l, hl, htrail⟩ := ih e sl' hr
    obtain rfl := List.mem_singleton.mp hl
    exact ⟨_, List.mem_cons_self, .step (.read hop hread) htrail⟩
  | choose hop hc _ ih =>
    intro e sl' hr
    obtain ⟨l, hl, htrail⟩ := ih e sl' hr
    exact ⟨_, List.mem_cons_self, .step (.branch hop (by rw [hc]; rfl) hl) htrail⟩
  | enter hop _ _ ih =>
    intro e sl' hr
    obtain ⟨l, hl, htrail⟩ := ih e sl' hr
    exact ⟨_, List.mem_cons_self, .step (.branch hop rfl hl) htrail⟩
  | mark hop _ ih =>
    intro e sl' hr
    obtain ⟨l, hl, htrail⟩ := ih e sl' hr
    obtain rfl := List.mem_singleton.mp hl
    exact ⟨_, List.mem_cons_self, .step (.mark hop) htrail⟩
  | test hop hg _ ih =>
    intro e sl' hr
    obtain ⟨l, hl, htrail⟩ := ih e sl' hr
    obtain rfl := List.mem_singleton.mp hl
    exact ⟨_, List.mem_cons_self, .step (.test hop hg) htrail⟩
  | @resume _ _ _ _ _ sl _ r₁ _ _ _ _ _ stop sl₁ _ _ hop hb _ _ hr hgo _ ihb ih =>
    intro e sl' hr'
    obtain ⟨l, hl, htrail⟩ := ih e sl' hr'
    obtain rfl := List.mem_singleton.mp hl
    -- A body that matches has a trail of its own, and the captures on it are kept.
    cases r₁ with
    | refused => cases hr
    | matched stop sl₁ =>
      cases hr
      obtain ⟨l', hl', hbody⟩ := ihb stop sl₁ rfl
      obtain rfl := List.mem_singleton.mp hl'
      exact ⟨_, List.mem_cons_self,
        .step (.ended hop hb hbody (Op.sequel?_of_resume?_some hgo)) htrail⟩
    | failed =>
      cases hr
      exact ⟨_, List.mem_cons_self,
        .step (.failed hop hb (Op.sequel?_of_resume?_none hgo)) htrail⟩
  | first _ _ ih =>
    intro e sl' hr
    obtain ⟨l, hl, htrail⟩ := ih e sl' hr
    obtain rfl := List.mem_singleton.mp hl
    exact ⟨_, List.mem_cons_self, htrail⟩
  | later _ _ _ ih =>
    intro e sl' hr
    obtain ⟨l, hl, htrail⟩ := ih e sl' hr
    exact ⟨l, List.mem_cons_of_mem _ hl, htrail⟩
  | _ =>
    rintro e sl' hr
    cases hr

/-! ### What trails do -/

/-- What operations do to places: atoms read with the slots, ends of groups are
recorded, and conditions on groups come out as the slots say.  The walks over
this meaning are what trails lead through. -/
def Meaning.places (a : Attempt) : Meaning Place where
  good x := a.InSpan x.offset
  read m atom x y :=
    a.read atom m.opts m.reverse x.offset x.slots = .ok (some y.offset) ∧ y.slots = x.slots
  mark group edge x y := y = x.record (edge.slot group)
  test group b x := ∃ captured, capturedSpan x.slots group = .ok captured ∧ captured.isSome = b
  back := Place.back
  good_read hx h := Attempt.read_inSpan hx h.1
  good_mark hx h := h ▸ hx
  good_back hx _ := hx

theorem Meaning.places_over : (Meaning.places a).Over a Place.offset where
  good_iff := Iff.rfl
  read h := ⟨_, h.1⟩
  mark h := h ▸ rfl
  back := rfl

/-- Trails are paths between places, with some number of treads. -/
theorem Trail.leads : ∀ {link x z}, Trail a m link x z → ∃ n, Leads (Tread a m) n link x z
  | _, _, _, .done => ⟨0, .done⟩
  | _, _, _, .step tread rest =>
    have ⟨n, h⟩ := rest.leads
    ⟨n + 1, .step tread h⟩

theorem trail_iff_leads : Trail a m link x z ↔ ∃ n, Leads (Tread a m) n link x z := by
  refine ⟨Trail.leads, ?_⟩
  rintro ⟨n, h⟩
  induction h with
  | done => exact .done
  | step tread _ ih => exact .step tread ih

/-- The treads of an operation without a body of its own, kind by kind. -/
theorem tread_iff (hop : a.program.ops[k]? = some op) (hb : op.body? m = none) :
    Tread a m k x l y ↔ match op with
    | .atom atom next => l = next ∧
        a.read atom m.opts m.reverse x.offset x.slots = .ok (some y.offset) ∧ y.slots = x.slots
    | .mark group edge next => l = next ∧ y = x.record (edge.slot group)
    | .ifGroup group yes no => ∃ captured, capturedSpan x.slots group = .ok captured ∧
        l = (if captured.isSome then yes else no) ∧ y = x
    | _ => l ∈ op.branches ∧ y = x := by
  constructor
  · intro h
    cases h with
    | read hop' hread => cases hop.symm.trans hop'; exact ⟨rfl, hread, rfl⟩
    | mark hop' => cases hop.symm.trans hop'; exact ⟨rfl, rfl⟩
    | test hop' hg => cases hop.symm.trans hop'; exact ⟨_, hg, rfl, rfl⟩
    | branch hop' hkind hl =>
      cases hop.symm.trans hop'
      cases op <;> first | exact ⟨hl, rfl⟩ | simp [Op.isChoice, Op.isClosure] at hkind
    | ended hop' hb' | failed hop' hb' =>
      cases hop.symm.trans hop'
      cases hb.symm.trans hb'
  · intro h
    cases op with
    | atom atom next =>
      obtain ⟨rfl, hread, hslots⟩ := h
      obtain ⟨j, slots⟩ := y
      obtain rfl : slots = x.slots := hslots
      exact .read hop hread
    | mark group edge next =>
      obtain ⟨rfl, rfl⟩ := h
      exact .mark hop
    | ifGroup group yes no =>
      obtain ⟨captured, hg, rfl, rfl⟩ := h
      exact .test hop hg
    | union | closure | question =>
      obtain ⟨hl, rfl⟩ := h
      exact .branch hop rfl hl
    | fail =>
      obtain ⟨hl, -⟩ := h
      cases hl
    | look | independent | modifier | ifLook => cases hb

/-- The treads of an operation with a body of its own: the body concludes
somehow, and the operation goes on accordingly. -/
theorem tread_body_iff {child : Link} {m' : Mode} (hop : a.program.ops[k]? = some op)
    (hb : op.body? m = some (child, m')) : Tread a m k x l y ↔
      ∃ stop, Concludes (Tread a m') false child x stop ∧
        op.sequel? Place.back x stop = some (l, y) := by
  constructor
  · intro h
    cases h with
    | ended hop' hb' body hgo =>
      cases hop.symm.trans hop'
      cases hb.symm.trans hb'
      exact ⟨some _, body.leads, hgo⟩
    | failed hop' hb' hgo =>
      cases hop.symm.trans hop'
      cases hb.symm.trans hb'
      exact ⟨none, nofun, hgo⟩
    | branch hop' hkind =>
      cases hop.symm.trans hop'
      cases op <;> simp_all [Op.isChoice, Op.isClosure, Op.body?]
    | read hop' | mark hop' | test hop' =>
      cases hop.symm.trans hop'
      cases hb
  · rintro ⟨stop, hstop, hgo⟩
    cases stop with
    | some z => exact .ended hop hb (trail_iff_leads.mpr hstop) hgo
    | none => exact .failed hop hb hgo

theorem tread_branching (m : Mode) : Moves.Branching (Tread a m) a.program.ops := by
  intro k op x l y hop hkind
  have hb : op.body? m = none := by cases op <;> first | rfl | cases hkind
  rw [tread_iff hop hb]
  cases op <;> first | exact Iff.rfl | cases hkind

theorem tread_test {group : ℕ} {yes no : Link}
    (hop : a.program.ops[k]? = some (.ifGroup group yes no)) : Tread a m k x l y ↔
      ∃ b : Bool, l = (if b then yes else no) ∧ (Meaning.places a).test group b x ∧ y = x := by
  rw [tread_iff hop rfl]
  constructor
  · rintro ⟨captured, hg, rfl, rfl⟩
    exact ⟨captured.isSome, rfl, ⟨captured, hg, rfl⟩, rfl⟩
  · rintro ⟨b, rfl, ⟨captured, hg, rfl⟩, rfl⟩
    exact ⟨captured, hg, rfl, rfl⟩

/-- Trails obey where there are no matches within the match.  Nothing has to be
said of bodies then. -/
theorem obeys_places_flat {strict : Bool} :
    Obeys (.places a) a.program.ops strict false (Tread a) where
  branching := tread_branching
  read hop _ := tread_iff hop rfl
  mark hop _ := tread_iff hop rfl
  test hop _ := tread_test hop
  body h := by cases h

/-- Trails obey everywhere, if matches within the match need not be strict. -/
theorem obeys_places : Obeys (.places a) a.program.ops false true (Tread a) where
  branching := tread_branching
  read hop _ := tread_iff hop rfl
  mark hop _ := tread_iff hop rfl
  test hop _ := tread_test hop
  body _ hop hb _ := tread_body_iff hop hb

namespace Attempt

variable {p : Pattern} {opts : Options} {offset : ℕ}

/-- A pattern leads to what an attempt has found, with what was recorded on the
way. -/
theorem Discovers.walks (hprogram : a.program = .ofPattern p) (ho : a.InSpan offset)
    (h : Discovers a opts sl offset (.matched e sl')) :
    p.Walks (.places a) false ⟨false, opts⟩ ⟨offset, sl⟩ ⟨e, sl'⟩ := by
  obtain ⟨V', h⟩ := h
  obtain ⟨l, hl, htrail⟩ := h.trail e sl' rfl
  obtain rfl := List.mem_singleton.mp hl
  obtain ⟨n, hleads⟩ := htrail.leads
  have hgood : ∃ x, (Meaning.places a).good x := ⟨⟨offset, sl⟩, ho⟩
  exact (start_conveys obeys_places hgood hprogram (by simp) opts).of_leads ho hleads

end Attempt

end Regexp
