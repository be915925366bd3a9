import Regexp.Program.Compile
import Regexp.Proofs.Simulation

/-!
# Every attempt halts

An attempt has an answer after a number of steps that can be told before it
begins.  The bound depends on the program and on the length of the span, and on
nothing else.

That it halts at all is known from its definition: each step makes a state
lighter (`Attempt.step_progress`), and that order is well founded.  But the
order is lexicographic.  Between two entries into closures the weight goes down;
an entry uses up room and may raise the weight again, by an amount that the
order does not bound.  So nothing follows from it about the number of steps.

What makes a bound possible is that an entry adds only one frame and goes on at
one operation, whose weight is at most that of an index of the program
(`Attempt.weight_of_entry`).  So an entry is worth a fixed number of steps,
`Program.entryWeight`, and weight and room together make one number that each
step decreases, `State.budget`.  The number of entries is at most that of
closures times offsets (`Attempt.room_le`).

`Attempt.after` are the steps of an attempt counted, without the recursion of
`Attempt.loop`; `Attempt.halts` says that both come to the same answer.  It also
gives the induction by which invariants of a single step are carried to whole
runs (`Attempt.after_induction`).

## Main definitions

* `Attempt.after` — what a number of steps leads to.
* `State.budget` — a bound for the steps that are left.
* `Attempt.stepLimit` — a bound for the steps of an attempt.

## Main statements

* `Attempt.visited_of_step` — a step enters a closure, or it leaves the entries
  as they are.
* `Attempt.budget_lt_of_step` — every step uses up some of the budget.
* `Attempt.halts` — a machine halts before its budget is used up.
* `Attempt.run_halts` — an attempt halts, and the answer it halts with is its
  result.
-/

namespace Regexp

namespace Program

/-- A bound for what an entry into a closure adds to the weight of a state.  The
index goes up by at most the size of the program, and one frame is put on the
stack. -/
def entryWeight (p : Program) : ℕ := 2 * p.power p.ops.size

end Program

/-- A bound for the steps that are left.  Each entry that there is room for is
paid for in advance, so that a step which enters a closure uses up some of it as
well. -/
def State.budget (a : Attempt) (s : State) : ℕ :=
  s.room a * (a.program.entryWeight + 1) + s.weight a

namespace Attempt

/-- What a number of steps from a state leads to; a machine that has halted
takes no further steps. -/
def after (a : Attempt) : ℕ → State → Outcome
  | 0, s => .next s
  | n + 1, s =>
    match a.step s with
    | .next s' => a.after n s'
    | .halt answer s' => .halt answer s'
    | .stuck => .stuck

/-- Whether a machine goes on with a state of some kind can be found out by
running it. -/
instance decidableExistsNext (P : State → Prop) [DecidablePred P] :
    ∀ outcome : Outcome, Decidable (∃ s, outcome = .next s ∧ P s)
  | .next s => decidable_of_iff (P s) (by simp)
  | .halt _ _ => .isFalse (by simp)
  | .stuck => .isFalse (by simp)

/-- A bound for the steps of an attempt, which depends on the program and the
span alone: the budget of any state in which no closure has been entered and
there are no frames. -/
def stepLimit (a : Attempt) : ℕ :=
  a.program.closureLen * (a.span.stop - a.span.start + 1) * (a.program.entryWeight + 1) +
    a.program.power a.program.ops.size

variable {a : Attempt} {s s' : State} {answer : Except MatchError (Option ℕ)} {n : ℕ}

/-! ### Entries -/

/-- A step enters a closure that was not entered at its offset, or it leaves the
entries as they are. -/
theorem visited_of_step (h : a.step s = .next s') : s'.visited = s.visited ∨
    ∃ i id child greedy next, s.control = .run (some i) ∧
      a.program.ops[i]? = some (.closure id child greedy next) ∧ a.entered? s id = some false ∧
      s' = ((a.markEntered s id).push (.retry i s.offset)).goto
        (if greedy then some child else next) := by
  cases transition_of_step h with
  | enter hc hop hnew => exact .inr ⟨_, _, _, _, _, hc, hop, hnew, rfl⟩
  | mark => exact .inl (s.record_visited _)
  | _ => exact .inl rfl

/-! ### Budgets -/

/-- An entry into a closure does not raise the weight by more than its bound. -/
theorem weight_of_entry {i id child : ℕ} {greedy : Bool} {next : Link}
    (hc : s.control = .run (some i))
    (hop : a.program.ops[i]? = some (.closure id child greedy next)) :
    (((a.markEntered s id).push (.retry i s.offset)).goto
        (if greedy then some child else next)).weight a ≤ s.weight a + a.program.entryWeight := by
  obtain ⟨-, hchild, hnext⟩ := a.program.linked i _ hop
  have hi := (Array.getElem?_eq_some_iff.mp hop).1
  have hbelow : Link.Below (if greedy then some child else next) a.program.ops.size := by
    split
    · exact Link.below_some hchild
    · exact hnext.mono hi.le
  have hlink := a.program.linkWeight_le hbelow
  have hpos := a.program.power_pos (i + 1)
  have hframe : a.program.frameWeight (.retry i s.offset) =
      a.program.power a.program.ops.size + 1 := by
    rw [Program.frameWeight, hop]
  rw [State.weight_run hc]
  simp only [State.weight, State.goto, State.push, Control.weight, Program.stackWeight_cons, hframe,
    markEntered, Program.entryWeight]
  omega

/-- Every step uses up some of the budget. -/
theorem budget_lt_of_step (hs : s.Valid a) (h : a.step s = .next s') :
    s'.budget a < s.budget a := by
  rcases visited_of_step h with hvisited | ⟨i, id, child, greedy, next, hc, hop, hnew, rfl⟩
  · -- Without an entry the room is the same, so it is the weight that has become less.
    have hroom := State.room_eq (a := a) hvisited
    rcases step_lighter hs h with hlt | ⟨-, hlt⟩
    · omega
    · unfold State.budget
      rw [hroom]
      omega
  · have hroom : (((a.markEntered s id).push (.retry i s.offset)).goto
        (if greedy then some child else next)).room a < s.room a :=
      State.room_markEntered hs (a.program.linked i _ hop).1 hnew
    have hweight := weight_of_entry hc hop
    have hmul := Nat.mul_le_mul_right (a.program.entryWeight + 1) (Nat.succ_le_of_lt hroom)
    rw [Nat.succ_mul] at hmul
    unfold State.budget
    omega

/-! ### Runs -/

theorem after_succ (h : a.step s = .next s') : a.after (n + 1) s = a.after n s' := by
  simp only [after, h]

/-- A run keeps what each of its steps keeps. -/
theorem after_induction {P : State → Prop}
    (hkeep : ∀ s s', P s → a.step s = .next s' → P s') (hs : P s) (h : a.after n s = .next s') :
    P s' := by
  induction n generalizing s with
  | zero =>
    cases h
    exact hs
  | succ n ih =>
    rw [after] at h
    split at h
    · rename_i s₁ hstep
      exact ih (hkeep s s₁ hs hstep) h
    · cases h
    · cases h

/-- A machine halts before its budget is used up, with the answer of its loop. -/
theorem halts (hs : s.Valid a) : ∃ n ≤ s.budget a, ∃ s' s'' answer,
    a.after n s = .next s' ∧ a.step s' = .halt answer s'' ∧ a.loop s hs = (answer, s'') := by
  -- Every step lowers the budget, so the induction is on it and not on a number of steps.
  induction hb : s.budget a using Nat.strong_induction_on generalizing s with
  | _ b ih =>
    cases hstep : a.step s with
    | next s₁ =>
      have hlt := budget_lt_of_step hs hstep
      obtain ⟨n, hn, s', s'', answer, hafter, hhalt, hloop⟩ :=
        ih _ (hb ▸ hlt) (step_valid hs hstep) rfl
      refine ⟨n + 1, by omega, s', s'', answer, ?_, hhalt, ?_⟩
      · rw [after_succ hstep, hafter]
      · rw [loop_eq_of_step hs hstep, hloop]
    | halt answer s'' =>
      exact ⟨0, Nat.zero_le b, s, s'', answer, rfl, hstep, loop_eq_of_halt hs hstep⟩
    | stuck => exact absurd hstep (step_ne_stuck hs)

/-- There are no more entries than there are closures and offsets. -/
theorem room_le (s : State) :
    s.room a ≤ a.program.closureLen * (a.span.stop - a.span.start + 1) := by
  have hlength : (State.entries a).length =
      a.program.closureLen * (a.span.stop - a.span.start + 1) := by
    simp [State.entries, List.length_flatMap]
  exact hlength ▸ List.countP_le_length

theorem budget_start_le (cache : Cache) (opts : Options) (slots : Option Slots) (offset : ℕ) :
    (a.start cache opts slots offset).budget a ≤ a.stepLimit := by
  have hweight : (a.start cache opts slots offset).weight a ≤
      a.program.power a.program.ops.size := a.program.linkWeight_le a.program.start_below
  have hroom := Nat.mul_le_mul_right (a.program.entryWeight + 1)
    (a.room_le (a.start cache opts slots offset))
  unfold State.budget stepLimit
  omega

/-- **Every attempt halts.**  From any offset of the span the machine of a
pattern goes on for a bounded number of steps, and then it has an answer, which
is that of the attempt. -/
theorem run_halts (p : Pattern) (t : Target) (span : Span) (whole : Bool) (cache : Cache)
    (opts : Options) (slots : Option Slots) (offset : ℕ)
    (ho : InSpan ⟨.ofPattern p, t, span, whole⟩ offset) :
    let a : Attempt := ⟨.ofPattern p, t, span, whole⟩
    ∃ n ≤ a.stepLimit, ∃ s s' answer, a.after n (a.start cache opts slots offset) = .next s ∧
      a.step s = .halt answer s' ∧
      a.run cache opts slots offset = ⟨answer, s'.slots, s'.cache⟩ := by
  intro a
  obtain ⟨n, hn, s, s', answer, hafter, hhalt, hloop⟩ :=
    halts (start_valid ho : (a.start cache opts slots offset).Valid a)
  refine ⟨n, hn.trans (budget_start_le cache opts slots offset), s, s', answer, hafter, hhalt, ?_⟩
  rw [run, dif_pos ho, hloop]

/-- A loop over the empty text, with a lookbehind and a loop inside of it. -/
theorem run_halts_nested :
    let p : Pattern := .repetition
      (.concat [.look .behind (.repetition .dot 0 none false), .repetition .empty 0 none true])
      0 none true
    let a : Attempt := ⟨.ofPattern p, .bufferOfString "ab", ⟨0, 2⟩, false⟩
    a.InSpan 1 ∧ ∃ n ≤ a.stepLimit, ∃ s s' answer,
      a.after n (a.start .empty .empty none 1) = .next s ∧ a.step s = .halt answer s' ∧
        a.run .empty .empty none 1 = ⟨answer, s'.slots, s'.cache⟩ :=
  ⟨by decide, run_halts _ _ _ _ _ _ _ _ (by decide)⟩

end Attempt

end Regexp
