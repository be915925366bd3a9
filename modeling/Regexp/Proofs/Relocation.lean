import Regexp.Program.Compile
import Regexp.Proofs.WhitePath

/-!
# Relocated programs

The operations of a pattern do not depend on those that were made before, except
for their place: the indices of their links and the numbers of their closures go
up by as many as there were (`Pattern.emit_above`).  So a body within a larger
program is explored as it is explored alone.  This is what lets the body of a
group be compared with an attempt for the body as a pattern of its own.

`Explores.relocate` is an induction over explorations.  `Attempt.Holds` says
that the operations of the one program are found in the other one, moved up, and
`MarksAgree` that the marks are the same but for the numbers of closures; both
sets of marks have the same effect, since no two closures share a number.  Marks
of closures outside of the part make no difference to it and remain as they are.

In a plain part nothing asks for what was recorded, so the slots may differ as
well, although the slots that are found then differ too and only the end is the
same.  A program holds its own parts without moving them up, and that gives
`Explores.of_slots`: a part is explored alike whatever was recorded before.

## Main definitions

* `Op.shift` — an operation at another place.
* `Builder.above` — operations on top of others.
* `Attempt.Holds` — an attempt whose program holds a plain part of another one.
* `MarksAgree` — marks that are the same but for the numbers of closures.

## Main statements

* `Pattern.emit_above` — a pattern emits the same operations on top of others.
* `Explores.relocate` — a part is explored within another program as it is
  explored alone.
* `Explores.of_slots` — it is explored alike whatever was recorded before.
-/

namespace Regexp

/-- A link whose operations have been moved up.  The end of the program stays
what it is. -/
def Link.shift (d : ℕ) (link : Link) : Link := link.map (d + ·)

/-- An operation whose links and closures have been moved up, those by the
number of operations below and these by the number of closures there. -/
def Op.shift (d c : ℕ) : Op → Op
  | atom a next => .atom a (next.shift d)
  | union links => .union (links.map (Link.shift d))
  | closure id child greedy next => .closure (c + id) (d + child) greedy (next.shift d)
  | question child greedy next => .question (child.shift d) greedy (next.shift d)
  | mark group edge next => .mark group edge (next.shift d)
  | look kind child next => .look kind (child.shift d) (next.shift d)
  | independent child next => .independent (child.shift d) (next.shift d)
  | modifier add remove child next => .modifier add remove (child.shift d) (next.shift d)
  | ifGroup group yes no => .ifGroup group (yes.shift d) (no.shift d)
  | ifLook test yes no => .ifLook (test.shift d) (yes.shift d) (no.shift d)
  | fail => .fail

namespace Builder

/-- Operations on top of others.  What the others are is of no account, only how
many there are and how many closures they have. -/
def above (base b : Builder) : Builder where
  ops := base.ops ++ b.ops.map (Op.shift base.ops.size base.closureLen)
  closureLen := base.closureLen + b.closureLen

variable (base b : Builder)

@[simp] theorem size_above : (base.above b).ops.size = base.ops.size + b.ops.size := by
  simp [above]

theorem above_empty : base.above empty = base := by
  simp [above, empty]

theorem above_reserve : base.above b.reserve = (base.above b).reserve := by
  simp [above, reserve, Op.shift, Nat.add_assoc]

theorem above_push (op : Op) : ((base.above b).push (op.shift base.ops.size base.closureLen)) =
    ((b.push op).1.shift base.ops.size, base.above (b.push op).2) := by
  simp [above, push, Link.shift]

theorem above_patch (i : ℕ) (op : Op) : base.above (b.patch i op) =
    (base.above b).patch (base.ops.size + i) (op.shift base.ops.size base.closureLen) := by
  simp only [above, patch, Builder.mk.injEq, and_true]
  rw [Array.setIfInBounds_append_right (by omega)]
  simp

/-- The operations on top, at their new places. -/
theorem getElem?_above {k : ℕ} {op : Op} (h : b.ops[k]? = some op) :
    (base.above b).ops[base.ops.size + k]? = some (op.shift base.ops.size base.closureLen) := by
  rw [above, Array.getElem?_append_right (by omega)]
  simp [h]

end Builder

/-- Whether an emitter makes the same operations on top of others, with its
links and closures moved up. -/
def Emitter.Movable (e : Emitter) : Prop :=
  ∀ (base : Builder) (next : Link) (b : Builder), e (next.shift base.ops.size) (base.above b) =
    ((e next b).1.shift base.ops.size, base.above (e next b).2)

namespace Emitter.Movable

variable {e e' body : Emitter}

theorem refl : Movable fun next b => (next, b) := fun _ _ _ => rfl

/-- One operation. -/
theorem push (op : Link → Op) (hop : ∀ d c next, (op next).shift d c = op (next.shift d)) :
    Movable fun next b => b.push (op next) := by
  intro base next b
  have hpush := base.above_push b (op next)
  rwa [hop] at hpush

/-- One emitter in front of another one. -/
theorem seq (h : e.Movable) (h' : e'.Movable) :
    Movable fun next b => e (e' next b).1 (e' next b).2 := by
  intro base next b
  simp only [h' base next b]
  exact h base _ _

/-- An operation with a body that leads to nothing else. -/
theorem inner (op : Link → Link → Op) (h : e.Movable)
    (hop : ∀ d c child next, (op child next).shift d c = op (child.shift d) (next.shift d)) :
    Movable fun next b => (e none b).2.push (op (e none b).1 next) := by
  intro base next b
  have hbody := h base none b
  simp only [show Link.shift base.ops.size none = none from rfl] at hbody
  simp only [hbody, ← hop _ base.closureLen]
  exact base.above_push _ _

theorem copies (h : body.Movable) (n : ℕ) : (copies body n).Movable := by
  intro base next b
  induction n generalizing next b with
  | zero => rfl
  | succ n ih => simp only [Emitter.copies, h base next b, ih]

theorem optionals (h : body.Movable) (greedy : Bool) (base : Builder) (next tail : Link) (n : ℕ)
    (b : Builder) :
    Emitter.optionals body greedy (next.shift base.ops.size) n (tail.shift base.ops.size)
        (base.above b) =
      ((Emitter.optionals body greedy next n tail b).1.shift base.ops.size,
        base.above (Emitter.optionals body greedy next n tail b).2) := by
  induction n generalizing tail b with
  | zero => rfl
  | succ n ih =>
    have hpush := Builder.above_push base (body tail b).2 (.question (body tail b).1 greedy next)
    simp only [Op.shift] at hpush
    simp only [Emitter.optionals, h base tail b, hpush, ih]

theorem closure (h : body.Movable) (greedy : Bool) : (closure body greedy).Movable := by
  intro base next b
  have hbody := h base (some b.ops.size) b.reserve
  have hchild : ((body (some b.ops.size) b.reserve).1.shift base.ops.size).getD
      (base.ops.size + b.ops.size) =
        base.ops.size + (body (some b.ops.size) b.reserve).1.getD b.ops.size := by
    cases (body (some b.ops.size) b.reserve).1 <;> rfl
  rw [Builder.above_reserve] at hbody
  simp only [Emitter.closure, Builder.size_above, Builder.above_patch, Op.shift, ← hchild]
  rw [show some (base.ops.size + b.ops.size) = Link.shift base.ops.size (some b.ops.size) from rfl,
    hbody]
  rfl

theorem repetition (h : body.Movable) (min : ℕ) (max : Option ℕ) (greedy : Bool) :
    (repetition body min max greedy).Movable := by
  intro base next b
  cases max with
  | none => simp only [Emitter.repetition, h.closure greedy base next b, h.copies min base _ _]
  | some max =>
    simp only [Emitter.repetition, h.optionals greedy base next next _ b, h.copies min base _ _]

end Emitter.Movable

namespace Pattern

mutual

/-- A pattern emits the same operations on top of others. -/
theorem emit_above (reverse : Bool) : (p : Pattern) → (emit reverse p).Movable
  | .empty => .refl
  | .char _ | .string _ | .dot | .charClass _ _ | .anchor _ | .backref _ =>
    .push (.atom _) fun _ _ _ => rfl
  | .concat items => emitSeq_above reverse items
  | .union alternatives => fun base next b => by
    simp only [emit, emitAll_above reverse alternatives base next b]
    exact base.above_push _ (.union _)
  | .repetition body min max greedy => (emit_above reverse body).repetition min max greedy
  | .group none body => emit_above reverse body
  | .group (some n) body => by
    cases reverse with
    | false =>
      exact .seq (.push (.mark n .start) fun _ _ _ => rfl)
        ((emit_above false body).seq (.push (.mark n .stop) fun _ _ _ => rfl))
    | true =>
      exact .seq (.push (.mark n .stop) fun _ _ _ => rfl)
        ((emit_above true body).seq (.push (.mark n .start) fun _ _ _ => rfl))
  | .look kind body => (emit_above kind.isBehind body).inner (.look kind) fun _ _ _ _ => rfl
  | .independent body => (emit_above reverse body).inner .independent fun _ _ _ _ => rfl
  | .modifier add remove body =>
    (emit_above reverse body).inner (.modifier add remove) fun _ _ _ _ => rfl
  | .ifGroup n yes none => fun base next b => by
    simp only [emit, emit_above reverse yes base next b]
    exact base.above_push _ (.ifGroup n _ next)
  | .ifGroup n yes (some no) => fun base next b => by
    simp only [emit, emit_above reverse yes base next b, emit_above reverse no base next _]
    exact base.above_push _ (.ifGroup n _ _)
  | .ifLook test yes none => fun base next b => by
    have htest := emit_above reverse test base none b
    simp only [show Link.shift base.ops.size none = none from rfl] at htest
    simp only [emit, htest, emit_above reverse yes base next _]
    exact base.above_push _ (.ifLook _ _ next)
  | .ifLook test yes (some no) => fun base next b => by
    have htest := emit_above reverse test base none b
    simp only [show Link.shift base.ops.size none = none from rfl] at htest
    simp only [emit, htest, emit_above reverse yes base next _, emit_above reverse no base next _]
    exact base.above_push _ (.ifLook _ _ _)
  termination_by structural p => p

theorem emitSeq_above (reverse : Bool) : (ps : List Pattern) → (emitSeq reverse ps).Movable
  | [] => .refl
  | p :: ps => by
    cases reverse with
    | false => exact (emit_above false p).seq (emitSeq_above false ps)
    | true => exact (emitSeq_above true ps).seq (emit_above true p)
  termination_by structural ps => ps

theorem emitAll_above (reverse : Bool) : (ps : List Pattern) → (base : Builder) → (next : Link) →
    (b : Builder) → emitAll reverse ps (next.shift base.ops.size) (base.above b) =
      ((emitAll reverse ps next b).1.map (Link.shift base.ops.size),
        base.above (emitAll reverse ps next b).2)
  | [], _, _, _ => rfl
  | p :: ps, base, next, b => by
    simp only [emitAll, emit_above reverse p base next b, emitAll_above reverse ps base next _,
      List.map_cons]
  termination_by structural ps => ps

end

end Pattern

/-! ### Exploring a program within another one -/

/-- Whether the program of an attempt holds a part of the program of another one
on the same text, with the indices and the numbers of closures moved up.  The
part has an owner, and it is plain. -/
structure Attempt.Holds (a a₀ : Attempt) (own : ℕ → ℕ) (o d c : ℕ) : Prop where
  target : a.target = a₀.target
  span : a.span = a₀.span
  whole : a.whole = false
  whole₀ : a₀.whole = false
  owned : a₀.program.Owned own
  plain : ∀ (k : ℕ) (op : Op), a₀.program.ops[k]? = some op → own k = o → op.feature? = none
  op : ∀ (k : ℕ) (op : Op), a₀.program.ops[k]? = some op → own k = o →
    a.program.ops[d + k]? = some (op.shift d c)

/-- Whether two sets of marks agree on the closures of a program that has been
moved up.  Marks of other closures do not count. -/
def MarksAgree (c n : ℕ) (V V₀ : Marks) : Prop :=
  ∀ id < n, ∀ o, (c + id, o) ∈ V ↔ (id, o) ∈ V₀

theorem MarksAgree.insert {c n id o : ℕ} {V V₀ : Marks} (h : MarksAgree c n V V₀) :
    MarksAgree c n (insert (c + id, o) V) (insert (id, o) V₀) := by
  intro id' hid' o'
  simp only [Finset.mem_insert, Prod.mk.injEq, Nat.add_left_cancel_iff, h id' hid' o']

theorem Op.branches_shift (op : Op) (d c : ℕ) :
    (op.shift d c).branches = op.branches.map (Link.shift d) := by
  cases op with
  | closure id child greedy next => cases greedy <;> rfl
  | question child greedy next => cases greedy <;> rfl
  | _ => rfl

theorem Op.isChoice_shift (op : Op) (d c : ℕ) : (op.shift d c).isChoice = op.isChoice := by
  cases op <;> rfl

theorem Link.shift_zero : Link.shift 0 = id := by
  funext link
  simp [Link.shift]

theorem Op.shift_zero (op : Op) : op.shift 0 0 = op := by
  cases op <;> simp [Op.shift, Link.shift_zero]

section

variable {a a₀ : Attempt} {own : ℕ → ℕ} {o d c : ℕ} {watch watch₀ : ℕ → Mode → ℕ → Marks → Prop}
  {top top₀ : Bool} {m : Mode} {V V₀ V₀' : Marks} {links : List Link} {i : ℕ}
  {sl₀ : Option Slots} {r₀ : Discovery}

/-- Plain atoms read the same on the same text, whatever was recorded. -/
theorem Attempt.Holds.read_eq (h : a.Holds a₀ own o d c) {k : ℕ} {atom : Atom} {next : Link}
    (hop : a₀.program.ops[k]? = some (.atom atom next)) (ho : own k = o) (opts : Options)
    (reverse : Bool) (sl : Option Slots) :
    a.read atom opts reverse i sl = a₀.read atom opts reverse i sl₀ := by
  have hplain := h.plain k _ hop ho
  cases atom with
  | backref => cases hplain
  | _ => simp only [Attempt.read, Attempt.readChar, Attempt.nextChar, h.target, h.span]

/-- There is no match within the match in a plain part. -/
theorem Attempt.Holds.body?_eq_none (h : a.Holds a₀ own o d c) {k : ℕ} {op : Op}
    (hop : a₀.program.ops[k]? = some op) (ho : own k = o) : op.body? m = none := by
  have := h.plain k op hop ho
  cases op <;> simp_all [Op.feature?, Op.body?]

/-- **A plain part of a program is explored within another one as it is explored
alone**, if the marks agree.  It ends at the same offset, whatever was recorded
before. -/
theorem Explores.relocate (hholds : a.Holds a₀ own o d c)
    (h : Explores a₀ watch₀ top₀ m V₀ links i sl₀ V₀' r₀) (hlinks : ∀ l ∈ links, LinkIn own o l)
    (hV : MarksAgree c a₀.program.closureLen V V₀) (sl : Option Slots) :
    ∃ V' r, Explores a watch top m V (links.map (Link.shift d)) i sl V' r ∧ r.stop? = r₀.stop? ∧
      MarksAgree c a₀.program.closureLen V' V₀' := by
  -- For all slots at once: where the second program comes to a link, other offsets may be recorded.
  induction h generalizing V sl with
  | accept => exact ⟨V, _, .accept fun _ hw => by simp [hholds.whole] at hw, rfl, hV⟩
  | short hw => simp [hholds.whole₀] at hw
  | read hop hread _ ih =>
    have ho := own_eq_of_links hlinks
    obtain ⟨V', r, h, hr, hV'⟩ := ih (linksIn_links hholds.owned hlinks hop) hV sl
    rw [← hholds.read_eq hop ho _ _ sl] at hread
    exact ⟨V', r, .read (hholds.op _ _ hop ho) hread h, hr, hV'⟩
  | unread hop hread =>
    have ho := own_eq_of_links hlinks
    rw [← hholds.read_eq hop ho _ _ sl] at hread
    exact ⟨V, _, .unread (hholds.op _ _ hop ho) hread, rfl, hV⟩
  | unreadable hop hread =>
    have ho := own_eq_of_links hlinks
    rw [← hholds.read_eq hop ho _ _ sl] at hread
    exact ⟨V, _, .unreadable (hholds.op _ _ hop ho) hread, rfl, hV⟩
  | @choose _ _ _ _ _ _ _ _ op hop hc _ ih =>
    have ho := own_eq_of_links hlinks
    obtain ⟨V', r, h, hr, hV'⟩ := ih (linksIn_branches hholds.owned hlinks hop) hV sl
    rw [← op.branches_shift d c] at h
    exact ⟨V', r, .choose (hholds.op _ _ hop ho) (by rwa [Op.isChoice_shift]) h, hr, hV'⟩
  | @reenter _ _ _ k _ _ id _ _ _ hop hmem =>
    have ho := own_eq_of_links hlinks
    have hid := (a₀.program.linked k _ hop).1
    exact ⟨V, _, .reenter (hholds.op _ _ hop ho) ((hV id hid _).mpr hmem), rfl, hV⟩
  | @enter _ _ _ k _ _ _ _ id child greedy next hop hnew _ ih =>
    have ho := own_eq_of_links hlinks
    have hid := (a₀.program.linked k _ hop).1
    obtain ⟨V', r, h, hr, hV'⟩ := ih (linksIn_branches hholds.owned hlinks hop) hV.insert sl
    rw [← Op.branches_shift _ d c] at h
    exact ⟨V', r, .enter (hholds.op _ _ hop ho) (fun hmem => hnew ((hV id hid _).mp hmem)) h, hr,
      hV'⟩
  | mark hop _ ih =>
    have ho := own_eq_of_links hlinks
    obtain ⟨V', r, h, hr, hV'⟩ := ih (linksIn_links hholds.owned hlinks hop) hV _
    exact ⟨V', r, .mark (hholds.op _ _ hop ho) h, hr, hV'⟩
  | test hop | untestable hop =>
    have ho := own_eq_of_links hlinks
    exact absurd (hholds.plain _ _ hop ho) (by simp [Op.feature?])
  | fail hop =>
    have ho := own_eq_of_links hlinks
    exact ⟨V, _, .fail (hholds.op _ _ hop ho), rfl, hV⟩
  | resume hop hb | abandon hop hb | refuse hop hb =>
    have ho := own_eq_of_links hlinks
    rw [hholds.body?_eq_none hop ho] at hb
    cases hb
  | nil => exact ⟨V, _, .nil, rfl, hV⟩
  | first _ hne ih =>
    obtain ⟨V', r, h, hr, hV'⟩ := ih (linksIn_head hlinks) hV sl
    refine ⟨V', r, .first h ?_, hr, hV'⟩
    rwa [ne_eq, Discovery.eq_failed_iff, hr, ← Discovery.eq_failed_iff]
  | later _ _ ih ih' =>
    obtain ⟨V₁, r₁, h, hr₁, hV₁⟩ := ih (linksIn_head hlinks) hV sl
    obtain rfl := Discovery.eq_failed_iff.mpr hr₁
    obtain ⟨V', r, h', hr, hV'⟩ := ih' (linksIn_tail hlinks) hV₁ sl
    exact ⟨V', r, .later h h', hr, hV'⟩

/-- **A plain part of a program is explored alike whatever was recorded
before.** -/
theorem Explores.of_slots (hwhole : a.whole = false) (hown : a.program.Owned own)
    (hplain : ∀ (k : ℕ) (op : Op), a.program.ops[k]? = some op → own k = o → op.feature? = none)
    (h : Explores a watch top m V₀ links i sl₀ V₀' r₀) (hlinks : ∀ l ∈ links, LinkIn own o l)
    (sl : Option Slots) :
    ∃ V' r, Explores a watch top m V₀ links i sl V' r ∧ r.stop? = r₀.stop? := by
  have hholds : a.Holds a own o 0 0 := by
    refine ⟨rfl, rfl, hwhole, hwhole, hown, hplain, fun k op hop _ => ?_⟩
    rw [Op.shift_zero, Nat.zero_add, hop]
  have hagree : MarksAgree 0 a.program.closureLen V₀ V₀ := fun id _ o => by rw [Nat.zero_add]
  obtain ⟨V', r, h', hr, -⟩ := h.relocate hholds hlinks hagree sl
  rw [Link.shift_zero, List.map_id] at h'
  exact ⟨V', r, h', hr⟩

end

end Regexp
