import Mathlib.Data.Finset.Prod
import Mathlib.Data.Finset.SDiff
import Mathlib.Order.Interval.Finset.Nat
import Regexp.Machine

/-!
# Exploration of a program

What a match attempt finds, said without its stack.  To explore a link is to run
the operations from there on and to try their branches in order; the one thing
that is handed from a branch that has failed to the next one is the set of the
closures entered so far.

## Why a relation of its own

The machine keeps everything that it has still to do on one stack, and a
statement about what it finds from some link would have to speak of what lies
below.  `Explores` is the recursive search that the machine carries out, with
its recursion visible: exploring an operation is exploring what follows it, and
exploring a match within the match is one premise among others.
`Regexp.Proofs.Simulation` shows that the machine does this.  All that is said
of the matches which are found, or missed, is then an induction over
explorations.

## The shape of the rules

A list of links stands for the branches that are left to try at one offset, so a
choice, a closure and an optional part share their rules: the first link is
explored, and only if this fails the others are, with the marks that it has
left.  `Marks` are the closures with the offsets at which they were entered.
They are an argument and a result of each exploration, because they are not
taken back (`Explores.subset`).

Slots are an argument only.  What a failed branch has recorded does not matter,
since the machine restores it, and so the next branch begins with the same
slots.

The parameter `watch` is a condition on every place at which a match within the
match begins; it keeps what a machine knows of those places when its steps are
forgotten.  Results about all programs do not need it, and it may always be
weakened (`Explores.mono`).

## Main definitions

* `Marks` — closures with the offsets at which they were entered.
* `Mode` — the direction and the options of a match within the match.
* `Discovery` — what an exploration ends with.
* `Explores` — the exploration, as a relation.

## Main statements

* `Explores.mono` — what is watched for may be weakened.
* `Explores.subset` — marks are never taken back.
* `Explores.of_isChoice`, `Explores.of_body` — what an exploration does at an
  operation.
* `Explores.unique` — an exploration has one outcome.
-/

namespace Regexp

/-- Closures with the offsets at which they were entered.  A mark is what
`State.visited` holds, with the offset counted from the start of the text and
not of the span. -/
abbrev Marks := Finset (ℕ × ℕ)

/-- What does not change until a match within the match begins or ends. -/
structure Mode where
  /-- Whether the text is walked over backward. -/
  reverse : Bool
  opts : Options

/-- What an exploration ends with. -/
inductive Discovery where
  /-- The end of the program at an offset, with the slots recorded on the way. -/
  | matched (stop : ℕ) (slots : Option Slots)
  /-- No way is left. -/
  | failed
  /-- The program cannot be run. -/
  | refused (e : MatchError)

/-- The end of a match within the match and the slots to go on with, where one
that has failed leaves the slots as they were.  If the program cannot be run
there is neither. -/
def Discovery.ending? (slots : Option Slots) : Discovery → Option (Option ℕ × Option Slots)
  | matched stop slots => some (some stop, slots)
  | failed => some (none, slots)
  | refused _ => none

/-- Where an exploration ends, if it has an answer: at an offset, or without a
match.  What was captured on the way is left out. -/
def Discovery.stop? : Discovery → Option (Option ℕ)
  | matched stop _ => some (some stop)
  | failed => some none
  | refused _ => none

theorem Discovery.stop?_of_ending {r : Discovery} {sl sl' : Option Slots} {stop : Option ℕ}
    (h : r.ending? sl = some (stop, sl')) : r.stop? = some stop := by
  cases r <;> cases h <;> rfl

/-- Whether an exploration has failed is told by where it ends. -/
theorem Discovery.eq_failed_iff {r : Discovery} : r = .failed ↔ r.stop? = some none := by
  cases r <;> simp [stop?]

namespace Op

/-- The links that an operation tries in order, if it offers a choice.  For a
closure and a question, whether it is greedy decides the order and nothing else. -/
def branches : Op → List Link
  | union links => links
  | closure _ child greedy next => if greedy then [some child, next] else [next, some child]
  | question child greedy next => if greedy then [child, next] else [next, child]
  | _ => []

/-- Whether an operation offers a choice under no further condition.  A closure
is not one of these, since its branches are only tried when it is entered. -/
def isChoice : Op → Bool
  | union _ | question _ _ _ => true
  | _ => false

/-- The body that an operation runs as a match of its own, with the mode for it.
Only a lookaround turns the direction, and only a group with options changes
them. -/
def body? (m : Mode) : Op → Option (Link × Mode)
  | look kind child _ => some (child, ⟨kind.isBehind, m.opts⟩)
  | independent child _ => some (child, m)
  | modifier add remove child _ => some (child, ⟨m.reverse, m.opts.modify add remove⟩)
  | ifLook test _ _ => some (test, m)
  | _ => none

/-- A match within the match that is no lookaround walks in the same direction. -/
theorem reverse_of_body {op : Op} {m m' : Mode} {child : Link} (hb : op.body? m = some (child, m'))
    (hlook : ∀ kind child next, op ≠ .look kind child next) : m'.reverse = m.reverse := by
  cases op <;> cases hb <;> first | rfl | exact absurd rfl (hlook _ _ _)

end Op

/-- Slots with an offset recorded in one of them.  A slot that there is no room
for is not recorded, which an attempt with the slots of its program never comes
to. -/
def recordIn (slots : Option Slots) (slot offset : ℕ) : Option Slots :=
  slots.map (·.setIfInBounds slot (slotValue offset))

/-- Exploring links in order from an offset, with the marks before and after.
At the top the end of the program is a match only where the attempt allows it.
There is no stack: what is left to try is the list of links, and that a mark
outlives the branch in which it was made shows in the marks which one branch
hands on to the next.  The relation `watch` is told of each match within the
match before it begins. -/
inductive Explores (a : Attempt) (watch : ℕ → Mode → ℕ → Marks → Prop) :
    (top : Bool) → Mode → Marks → List Link → ℕ → Option Slots → Marks → Discovery → Prop
  | accept {top m V i sl} (h : top = true → a.whole = true → i = a.span.stop) :
    Explores a watch top m V [none] i sl V (.matched i sl)
  | short {m V i sl} (hw : a.whole = true) (hi : i ≠ a.span.stop) :
    Explores a watch true m V [none] i sl V .failed
  | read {top m V k i sl V' r atom next j} (hop : a.program.ops[k]? = some (.atom atom next))
    (hread : a.read atom m.opts m.reverse i sl = .ok (some j))
    (rest : Explores a watch top m V [next] j sl V' r) :
    Explores a watch top m V [some k] i sl V' r
  | unread {top m V k i sl atom next} (hop : a.program.ops[k]? = some (.atom atom next))
    (hread : a.read atom m.opts m.reverse i sl = .ok none) :
    Explores a watch top m V [some k] i sl V .failed
  | unreadable {top m V k i sl atom next e} (hop : a.program.ops[k]? = some (.atom atom next))
    (hread : a.read atom m.opts m.reverse i sl = .error e) :
    Explores a watch top m V [some k] i sl V (.refused e)
  | choose {top m V k i sl V' r op} (hop : a.program.ops[k]? = some op) (hc : op.isChoice = true)
    (rest : Explores a watch top m V op.branches i sl V' r) :
    Explores a watch top m V [some k] i sl V' r
  | reenter {top m V k i sl id child greedy next}
    (hop : a.program.ops[k]? = some (.closure id child greedy next)) (hV : (id, i) ∈ V) :
    Explores a watch top m V [some k] i sl V .failed
  | enter {top m V k i sl V' r id child greedy next}
    (hop : a.program.ops[k]? = some (.closure id child greedy next)) (hV : (id, i) ∉ V)
    (rest : Explores a watch top m (insert (id, i) V) (Op.closure id child greedy next).branches
      i sl V' r) :
    Explores a watch top m V [some k] i sl V' r
  | mark {top m V k i sl V' r group edge next}
    (hop : a.program.ops[k]? = some (.mark group edge next))
    (rest : Explores a watch top m V [next] i (recordIn sl (edge.slot group) i) V' r) :
    Explores a watch top m V [some k] i sl V' r
  | test {top m V k i sl V' r group yes no captured}
    (hop : a.program.ops[k]? = some (.ifGroup group yes no))
    (hg : capturedSpan sl group = .ok captured)
    (rest : Explores a watch top m V [if captured.isSome then yes else no] i sl V' r) :
    Explores a watch top m V [some k] i sl V' r
  | untestable {top m V k i sl group yes no e}
    (hop : a.program.ops[k]? = some (.ifGroup group yes no))
    (hg : capturedSpan sl group = .error e) :
    Explores a watch top m V [some k] i sl V (.refused e)
  | fail {top m V k i sl} (hop : a.program.ops[k]? = some .fail) :
    Explores a watch top m V [some k] i sl V .failed
  | resume {top m V k i sl V₁ r₁ V' r op child m' stop sl₁ j link}
    (hop : a.program.ops[k]? = some op) (hb : op.body? m = some (child, m')) (hw : watch k m i V)
    (body : Explores a watch false m' V [child] i sl V₁ r₁)
    (hr : r₁.ending? sl = some (stop, sl₁)) (hgo : op.resume? i stop = some (.go j link))
    (rest : Explores a watch top m V₁ [link] j sl₁ V' r) :
    Explores a watch top m V [some k] i sl V' r
  | abandon {top m V k i sl V₁ r₁ op child m' stop sl₁}
    (hop : a.program.ops[k]? = some op) (hb : op.body? m = some (child, m')) (hw : watch k m i V)
    (body : Explores a watch false m' V [child] i sl V₁ r₁)
    (hr : r₁.ending? sl = some (stop, sl₁)) (hgo : op.resume? i stop = some .abandon) :
    Explores a watch top m V [some k] i sl V₁ .failed
  | refuse {top m V k i sl V₁ e op child m'}
    (hop : a.program.ops[k]? = some op) (hb : op.body? m = some (child, m')) (hw : watch k m i V)
    (body : Explores a watch false m' V [child] i sl V₁ (.refused e)) :
    Explores a watch top m V [some k] i sl V₁ (.refused e)
  | nil {top m V i sl} : Explores a watch top m V [] i sl V .failed
  | first {top m V l l' ls i sl V' r} (head : Explores a watch top m V [l] i sl V' r)
    (hr : r ≠ .failed) :
    Explores a watch top m V (l :: l' :: ls) i sl V' r
  | later {top m V l l' ls i sl V₁ V' r} (head : Explores a watch top m V [l] i sl V₁ .failed)
    (rest : Explores a watch top m V₁ (l' :: ls) i sl V' r) :
    Explores a watch top m V (l :: l' :: ls) i sl V' r

namespace Explores

variable {a : Attempt} {watch watch' : ℕ → Mode → ℕ → Marks → Prop} {top : Bool} {m : Mode}
  {V V₁ V' : Marks} {links : List Link} {i : ℕ} {sl : Option Slots} {r r₁ : Discovery}

/-- What is watched for may be weakened.  Most statements about explorations
watch for nothing, and this brings one that does under them. -/
theorem mono (hw : ∀ k m i V, watch k m i V → watch' k m i V)
    (h : Explores a watch top m V links i sl V' r) :
    Explores a watch' top m V links i sl V' r := by
  induction h with
  | accept h => exact .accept h
  | short h hi => exact .short h hi
  | read hop hread _ ih => exact .read hop hread ih
  | unread hop hread => exact .unread hop hread
  | unreadable hop hread => exact .unreadable hop hread
  | choose hop hc _ ih => exact .choose hop hc ih
  | reenter hop hV => exact .reenter hop hV
  | enter hop hV _ ih => exact .enter hop hV ih
  | mark hop _ ih => exact .mark hop ih
  | test hop hg _ ih => exact .test hop hg ih
  | untestable hop hg => exact .untestable hop hg
  | fail hop => exact .fail hop
  | resume hop hb h _ hr hgo _ ihb ih => exact .resume hop hb (hw _ _ _ _ h) ihb hr hgo ih
  | abandon hop hb h _ hr hgo ihb => exact .abandon hop hb (hw _ _ _ _ h) ihb hr hgo
  | refuse hop hb h _ ihb => exact .refuse hop hb (hw _ _ _ _ h) ihb
  | nil => exact .nil
  | first _ hr ih => exact .first ih hr
  | later _ _ ih ih' => exact .later ih ih'

/-- Marks are never taken back, not even by a branch that fails. -/
theorem subset (h : Explores a watch top m V links i sl V' r) : V ⊆ V' := by
  induction h with
  | read _ _ _ ih | choose _ _ _ ih | mark _ _ ih | test _ _ _ ih => exact ih
  | enter _ _ _ ih => exact (Finset.subset_insert _ _).trans ih
  | resume _ _ _ _ _ _ _ ihb ih => exact ihb.trans ih
  | abandon _ _ _ _ _ _ ihb | refuse _ _ _ _ ihb => exact ihb
  | first _ _ ih => exact ih
  | later _ _ ih ih' => exact ih.trans ih'
  | _ => exact subset_rfl

variable {k : ℕ} {op : Op} {V₂ : Marks} {r₂ : Discovery}

/-! ### What an exploration does at an operation -/

/-- A choice is explored by its branches. -/
theorem of_isChoice (h : Explores a watch top m V [some k] i sl V' r)
    (hop : a.program.ops[k]? = some op) (hc : op.isChoice = true) :
    Explores a watch top m V op.branches i sl V' r := by
  cases h with
  | choose hop' _ rest =>
    cases hop.symm.trans hop'
    exact rest
  | resume hop' hb' | abandon hop' hb' | refuse hop' hb' =>
    cases hop.symm.trans hop'
    cases op <;> simp [Op.isChoice, Op.body?] at hc hb'
  | _ =>
    simp only [hop, Option.some.injEq] at *
    subst_vars
    simp [Op.isChoice] at hc

/-- A match within the match is explored by its body, whose end decides how to
go on. -/
theorem of_body {child : Link} {m' : Mode} (h : Explores a watch top m V [some k] i sl V' r)
    (hop : a.program.ops[k]? = some op) (hb : op.body? m = some (child, m')) :
    watch k m i V ∧ ∃ V₁ r₁, Explores a watch false m' V [child] i sl V₁ r₁ ∧
      ((∃ stop sl₁ j link, r₁.ending? sl = some (stop, sl₁) ∧
          op.resume? i stop = some (.go j link) ∧
          Explores a watch top m V₁ [link] j sl₁ V' r) ∨
        (∃ stop sl₁, r₁.ending? sl = some (stop, sl₁) ∧ op.resume? i stop = some .abandon ∧
          V' = V₁ ∧ r = .failed) ∨
        ∃ e, r₁ = .refused e ∧ V' = V₁ ∧ r = .refused e) := by
  cases h with
  | resume hop' hb' hw body hr hgo rest =>
    cases hop.symm.trans hop'
    cases hb.symm.trans hb'
    exact ⟨hw, _, _, body, .inl ⟨_, _, _, _, hr, hgo, rest⟩⟩
  | abandon hop' hb' hw body hr hgo =>
    cases hop.symm.trans hop'
    cases hb.symm.trans hb'
    exact ⟨hw, _, _, body, .inr (.inl ⟨_, _, hr, hgo, rfl, rfl⟩)⟩
  | refuse hop' hb' hw body =>
    cases hop.symm.trans hop'
    cases hb.symm.trans hb'
    exact ⟨hw, _, _, body, .inr (.inr ⟨_, rfl, rfl, rfl⟩)⟩
  | choose hop' hc =>
    cases hop.symm.trans hop'
    cases op <;> simp [Op.isChoice, Op.body?] at hc hb
  | _ =>
    simp only [hop, Option.some.injEq] at *
    subst_vars
    simp [Op.body?] at hb

/-- What an exploration does at an operation that neither offers a choice nor
has a body that is a match of its own. -/
theorem of_simple (h : Explores a watch top m V [some k] i sl V' r)
    (hop : a.program.ops[k]? = some op) (hc : op.isChoice = false) (hb : op.body? m = none) :
    match op with
    | .atom atom next =>
      (∃ j, a.read atom m.opts m.reverse i sl = .ok (some j) ∧
        Explores a watch top m V [next] j sl V' r) ∨
      (a.read atom m.opts m.reverse i sl = .ok none ∧ V' = V ∧ r = .failed) ∨
      ∃ e, a.read atom m.opts m.reverse i sl = .error e ∧ V' = V ∧ r = .refused e
    | .closure id _ _ _ =>
      (id, i) ∈ V ∧ V' = V ∧ r = .failed ∨
      (id, i) ∉ V ∧ Explores a watch top m (insert (id, i) V) op.branches i sl V' r
    | .mark group edge next =>
      Explores a watch top m V [next] i (recordIn sl (edge.slot group) i) V' r
    | .ifGroup group yes no =>
      (∃ captured, capturedSpan sl group = .ok captured ∧
        Explores a watch top m V [if captured.isSome then yes else no] i sl V' r) ∨
      ∃ e, capturedSpan sl group = .error e ∧ V' = V ∧ r = .refused e
    | .fail => V' = V ∧ r = .failed
    | _ => False := by
  cases h with
  | choose hop' hc' =>
    cases hop.symm.trans hop'
    simp [hc] at hc'
  | resume hop' hb' | abandon hop' hb' | refuse hop' hb' =>
    cases hop.symm.trans hop'
    simp [hb] at hb'
  | _ =>
    simp only [hop, Option.some.injEq] at *
    subst_vars
    simp_all

/-- An exploration has one outcome, whatever is watched for.  So where two
explorations begin alike, whatever is known of the one is known of the other. -/
theorem unique (h : Explores a watch top m V links i sl V₁ r₁)
    (h' : Explores a watch' top m V links i sl V₂ r₂) : V₁ = V₂ ∧ r₁ = r₂ := by
  induction h generalizing V₂ r₂ with
  | accept h =>
    cases h' with
    | accept => exact ⟨rfl, rfl⟩
    | short hw hi => exact absurd (h rfl hw) hi
  | short hw hi =>
    cases h' with
    | accept h => exact absurd (h rfl hw) hi
    | short => exact ⟨rfl, rfl⟩
  | nil =>
    cases h'
    exact ⟨rfl, rfl⟩
  | first _ hr ih =>
    cases h' with
    | first h' => exact ih h'
    | later h' => exact absurd (ih h').2 hr
  | later _ _ ih ih' =>
    cases h' with
    | first h' hr => exact absurd (ih h').2.symm hr
    | later h' rest =>
      obtain rfl := (ih h').1
      exact ih' rest
  | choose hop hc _ ih => exact ih (h'.of_isChoice hop hc)
  | resume hop hb _ _ hr hgo _ ihb ih =>
    obtain ⟨-, _, _, hbody, hcases⟩ := h'.of_body hop hb
    obtain ⟨rfl, rfl⟩ := ihb hbody
    rcases hcases with ⟨_, _, _, _, hr', hgo', rest⟩ | ⟨_, _, hr', hgo', -⟩ | ⟨_, rfl, -⟩
    · cases hr.symm.trans hr'
      cases hgo.symm.trans hgo'
      exact ih rest
    · cases hr.symm.trans hr'
      cases hgo.symm.trans hgo'
    · cases hr
  | abandon hop hb _ _ hr hgo ihb =>
    obtain ⟨-, _, _, hbody, hcases⟩ := h'.of_body hop hb
    obtain ⟨rfl, rfl⟩ := ihb hbody
    rcases hcases with ⟨_, _, _, _, hr', hgo', -⟩ | ⟨_, _, -, -, hV, hr'⟩ | ⟨_, rfl, -⟩
    · cases hr.symm.trans hr'
      cases hgo.symm.trans hgo'
    · exact ⟨hV.symm, hr'.symm⟩
    · cases hr
  | refuse hop hb _ _ ihb =>
    obtain ⟨-, _, _, hbody, hcases⟩ := h'.of_body hop hb
    obtain ⟨rfl, rfl⟩ := ihb hbody
    rcases hcases with ⟨_, _, _, _, hr', -⟩ | ⟨_, _, hr', -⟩ | ⟨_, he, hV, hr'⟩
    · cases hr'
    · cases hr'
    · cases he
      exact ⟨hV.symm, hr'.symm⟩
  | read hop _ _ ih | enter hop _ _ ih | mark hop _ ih | test hop _ _ ih =>
    have := h'.of_simple hop rfl rfl
    grind
  | _ hop =>
    have := h'.of_simple hop rfl rfl
    grind

end Explores

end Regexp
