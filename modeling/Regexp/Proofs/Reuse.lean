import Mathlib
import Regexp.Proofs.Leftmost
import Regexp.Proofs.Safety

/-!
# Searches in a row

A search leaves a good deal behind: in the cache the stack of its last attempt,
with all choices that were open when the attempt found a match or was refused,
and the sets of offsets, some of which may belong to another program; in the
expression a strategy, once one has been made; and the captures.  None of it has
a say in what a later search finds.

An attempt begins with `Cache.reset`, which takes all frames away and leaves no
member in any set, so that `Attempt.start` differs between two caches in the
sets alone: in how many there are, and in what they are made of.  `State.Alike`
is what this comes to for the states of an attempt, `step_alike` says that like
states take like steps, and `run_cache` that attempts with different caches have
the same answer and leave the same slots.  Scans and shortcuts hand the cache
from one attempt to the next, so `Search.run_agrees` lifts this to searches, and
`Session.serve_eq_new` to all that a caller may have done before: with this
expression or another, with a cache of the caller's or one from the pool, with
any outcome, also one in the middle of a match within the match.

## Main definitions

* `State.Alike` — states that differ in nothing but what their sets of offsets
  are made of.
* `SearchResult.Agrees` — results with the same answer and with related slots.
* `Session` — expressions, a cache and captures, and the requests that are
  served with them.

## Main statements

* `Attempt.step_alike` — like states take like steps.
* `Attempt.run_cache`, `Search.run_cache` — attempts and searches do not depend
  on the cache.
* `Search.run_agrees` — searches agree if their attempts do, shortcuts included.
* `Regex.Has.searchWith_of_valid` — what a search on a valid span hands back.
* `Session.serve_eq_new` — a request is served as in a new session.

## Design notes

A cache may hold more or fewer sets than a program has closures, so states are
compared by the entries that an attempt asks for.  An attempt that is refused
leaves slots behind as well, which an exploration does not tell of; so this is
an induction on steps.

Frames that a step lifts out of a match within the match are on the kept list
only while the step lasts.  The list is cleared with the rest of the cache
nevertheless, and nothing here relies on its having been empty.
-/

namespace Regexp

/-! ### States -/

/-- The state with other sets of offsets.  Sets can differ in what they hold
beyond what has been inserted, as one that was emptied keeps its arrays. -/
def State.withVisited (s : State) (visited : Array OffsetSet) : State :=
  { s with visited := visited }

/-- What a step leads to, with other sets of offsets. -/
def Outcome.withVisited (visited : Array OffsetSet) : Outcome → Outcome
  | .next s => .next (s.withVisited visited)
  | .halt answer s => .halt answer (s.withVisited visited)
  | .stuck => .stuck

/-- Whether two states differ in nothing but their sets of offsets, in which the
closures of an attempt were entered at the same ones. -/
structure State.Alike (a : Attempt) (s s' : State) : Prop where
  eq : s' = s.withVisited s'.visited
  hasEntered : ∀ id < a.program.closureLen, ∀ d, s'.hasEntered id d = s.hasEntered id d

namespace Attempt

variable {a : Attempt} {s s' s₁ : State} {v : Array OffsetSet} {k : ℕ} {op : Op}

theorem exec_withVisited (hop : op.isClosure = false) :
    a.exec k op (s.withVisited v) = (a.exec k op s).withVisited v := by
  obtain ⟨control, offset, reverse, opts, depth, stack, kept, visited, slots⟩ := s
  cases op with
  | atom atom next =>
    simp only [exec, State.withVisited]
    split <;> rfl
  | union links => rcases links with _ | ⟨l, _ | ⟨l', ls⟩⟩ <;> rfl
  | closure => cases hop
  | mark group edge next =>
    simp only [exec, State.withVisited, State.record]
    split
    · split <;> rfl
    · rfl
  | ifGroup group yes no =>
    simp only [exec, State.withVisited]
    split <;> rfl
  | _ => rfl

theorem accept_withVisited : a.accept (s.withVisited v) = (a.accept s).withVisited v := by
  obtain ⟨control, offset, reverse, opts, depth, stack, kept, visited, slots⟩ := s
  cases depth with
  | zero =>
    simp only [accept_eq, State.withVisited]
    rw [apply_ite (Outcome.withVisited v)]
    rfl
  | succ depth =>
    simp only [accept_eq, State.withVisited]
    split
    · rfl
    · split <;> rfl

theorem back_withVisited : a.back (s.withVisited v) = (a.back s).withVisited v := by
  obtain ⟨control, offset, reverse, opts, depth, stack, kept, visited, slots⟩ := s
  simp only [back, State.withVisited]
  split
  · rfl
  · rfl
  · split <;> rfl
  · split
    · split <;> rfl
    · rfl
  · split
    · rfl
    · split <;> rfl

/-- A state that is not at a closure steps alike, whatever its sets of offsets
hold. -/
theorem step_withVisited (h : ∀ k op, s.control = .run (some k) → a.program.ops[k]? = some op →
    op.isClosure = false) : a.step (s.withVisited v) = (a.step s).withVisited v := by
  have hcontrol : (s.withVisited v).control = s.control := rfl
  rw [step, step, hcontrol]
  cases hc : s.control with
  | run l =>
    cases l with
    | none => exact accept_withVisited
    | some k =>
      simp only
      cases hop : a.program.ops[k]? with
      | none => rfl
      | some op => exact exec_withVisited (h k op hc hop)
  | fail => exact back_withVisited

/-- At a closure a valid state turns back if it has entered it there before,
else it enters it. -/
theorem step_closure (hs : s.Valid a) {id child : ℕ} {greedy : Bool} {next : Link}
    (hc : s.control = .run (some k))
    (hop : a.program.ops[k]? = some (.closure id child greedy next)) :
    a.step s = if s.hasEntered id (s.offset - a.span.start) then .next s.abandon
      else .next (((a.markEntered s id).push (.retry k s.offset)).goto
        (if greedy then some child else next)) := by
  simp only [step, hc, hop, exec, hs.entered?_eq (a.program.linked k _ hop).1]
  split <;> simp_all

/-- The state in which a machine halts is the one it was in.  So what it leaves
behind is what it had. -/
theorem eq_of_halt {answer : Except MatchError (Option ℕ)} (h : a.step s = .halt answer s₁) :
    s₁ = s := by
  unfold step at h
  split at h
  · rw [accept_eq] at h
    split at h
    · split at h
      · cases h
      · cases h
        rfl
    · split at h
      · cases h
      · dsimp only at h
        split at h <;> cases h
  · split at h
    · cases h
    · rename_i op _
      cases op with
      | atom atom next =>
        simp only [exec] at h
        split at h
        · cases h
          rfl
        · cases h
        · cases h
      | union links => rcases links with _ | ⟨l, _ | ⟨l', ls⟩⟩ <;> cases h
      | closure id child greedy next =>
        simp only [exec] at h
        split at h <;> cases h
      | ifGroup group yes no =>
        simp only [exec] at h
        split at h
        · cases h
          rfl
        · cases h
        · cases h
      | _ => cases h
  · unfold back at h
    split at h
    · cases h
      rfl
    · cases h
    · split at h <;> cases h
    · split at h
      · split at h <;> cases h
      · cases h
    · split at h
      · cases h
      · dsimp only at h
        split at h <;> cases h

/-- **Like states take like steps.**  A step asks whether a closure was entered
and marks it as entered, and does nothing else to the sets. -/
theorem step_alike (hs : s.Valid a) (hs' : s'.Valid a) (h : s.Alike a s') :
    (∃ s₁ s₁', a.step s = .next s₁ ∧ a.step s' = .next s₁' ∧ s₁.Alike a s₁') ∨
      ∃ answer, a.step s = .halt answer s ∧ a.step s' = .halt answer s' := by
  by_cases hclosure : ∃ k id child greedy next, s.control = .run (some k) ∧
      a.program.ops[k]? = some (.closure id child greedy next)
  · obtain ⟨k, id, child, greedy, next, hc, hop⟩ := hclosure
    have hid := (a.program.linked k _ hop).1
    obtain ⟨control, offset, reverse, opts, depth, stack, kept, visited, slots⟩ := s
    obtain ⟨control', offset', reverse', opts', depth', stack', kept', visited', slots'⟩ := s'
    obtain ⟨heq, hentered⟩ := h
    cases heq
    rw [step_closure hs hc hop, step_closure hs' hc hop, hentered id hid]
    left
    split
    · exact ⟨_, _, rfl, rfl, rfl, hentered⟩
    · refine ⟨_, _, rfl, rfl, rfl, fun id' hid' d => ?_⟩
      exact (State.hasEntered_markEntered (hid.trans_le hs'.visited_le) id' d).trans <|
        (congrArg (· || _) (hentered id' hid' d)).trans
          (State.hasEntered_markEntered (hid.trans_le hs.visited_le) id' d).symm
  · have hstep := step_withVisited (v := s'.visited) fun k op hc hop => by
      cases op with
      | closure id child greedy next => exact absurd ⟨k, id, child, greedy, next, hc, hop⟩ hclosure
      | _ => rfl
    rw [← h.eq] at hstep
    cases hnext : a.step s with
    | next s₁ =>
      have hvisited : s₁.visited = s.visited := by
        refine (visited_of_step hnext).resolve_right ?_
        rintro ⟨k, id, child, greedy, next, hc, hop, -⟩
        exact hclosure ⟨k, id, child, greedy, next, hc, hop⟩
      rw [hnext] at hstep
      refine .inl ⟨s₁, _, rfl, hstep, rfl, fun id hid d => ?_⟩
      rw [State.hasEntered, State.hasEntered, hvisited]
      exact h.hasEntered id hid d
    | halt answer s₁ =>
      rw [hnext, eq_of_halt hnext, Outcome.withVisited, ← h.eq] at hstep
      exact .inr ⟨answer, eq_of_halt hnext ▸ rfl, hstep⟩
    | stuck => exact absurd hnext (step_ne_stuck hs)

/-- Like states have the same answer, and they come to like states.  The
induction is that of the loop. -/
theorem loop_alike (hs : s.Valid a) (hs' : s'.Valid a) (h : s.Alike a s') :
    (a.loop s hs).1 = (a.loop s' hs').1 ∧ (a.loop s hs).2.Alike a (a.loop s' hs').2 := by
  induction s using (State.lighter_wf a).induction generalizing s' with
  | _ s ih =>
    rcases step_alike hs hs' h with ⟨s₁, s₁', hstep, hstep', h₁⟩ | ⟨answer, hstep, hstep'⟩
    · rw [loop_eq_of_step hs hstep, loop_eq_of_step hs' hstep']
      exact ih s₁ (step_lighter hs hstep) _ _ h₁
    · rw [loop_eq_of_halt hs hstep, loop_eq_of_halt hs' hstep']
      exact ⟨rfl, h⟩

/-- **An attempt does not depend on the cache**: neither its answer, nor the
slots it leaves.  At its start the stack and the kept frames are emptied, and
the sets are emptied and made large enough, so that the two runs begin with like
states. -/
theorem run_cache (cache cache' : Cache) (opts : Options) (slots : Option Slots) (offset : ℕ) :
    (a.run cache opts slots offset).answer = (a.run cache' opts slots offset).answer ∧
      (a.run cache opts slots offset).slots = (a.run cache' opts slots offset).slots := by
  by_cases ho : a.InSpan offset
  · obtain ⟨hanswer, hstate⟩ := loop_alike
      (start_valid ho : (a.start cache opts slots offset).Valid a)
      (start_valid ho : (a.start cache' opts slots offset).Valid a)
      ⟨rfl, fun id _ d => (hasEntered_start ..).trans (hasEntered_start ..).symm⟩
    rw [run, run, dif_pos ho, dif_pos ho]
    exact ⟨hanswer, (congrArg State.slots hstate.eq).symm⟩
  · simp [run, ho]

/-- An attempt keeps the number of slots. -/
theorem size_run (cache : Cache) (opts : Options) (slots : Option Slots) (offset : ℕ) :
    (a.run cache opts slots offset).slots.map Array.size = slots.map Array.size := by
  by_cases ho : a.InSpan offset
  · obtain ⟨n, -, s', s'', answer, hafter, hhalt, hloop⟩ :=
      halts (start_valid ho : (a.start cache opts slots offset).Valid a)
    rw [run, dif_pos ho, hloop]
    show s''.slots.map Array.size = _
    rw [eq_of_halt hhalt, size_slots_of_after hafter]
    simp [start, Function.comp_def]
  · simp [run, ho]

end Attempt

/-! ### Searches -/

/-- Whether two searches have the same answer and leave related slots.  The
caches they leave may differ. -/
def SearchResult.Agrees (R : Option Slots → Option Slots → Prop) (r r' : SearchResult) : Prop :=
  r.answer = r'.answer ∧ R r.slots r'.slots

namespace Search

variable {s : Search} {R : Option Slots → Option Slots → Prop} {cache cache' : Cache}
  {slots slots' : Option Slots}
  (hattempt : ∀ cache cache' slots slots' o, R slots slots' →
    (s.attempt cache slots o).Agrees R (s.attempt cache' slots' o))

include hattempt

/-- Scans of which all attempts agree do so themselves, though they hand on
different caches. -/
theorem scan_agrees (last : ℕ) (filter : (before behind : Option Char) → Bool)
    (before : Option Char) (o : ℕ) (h : R slots slots') :
    (s.scan last filter before cache slots o).Agrees R
      (s.scan last filter before cache' slots' o) := by
  induction hn : s.span.stop - o using Nat.strong_induction_on
    generalizing o before cache cache' slots slots' with
  | _ n ih =>
    let tried (cache : Cache) (slots : Option Slots) : SearchResult :=
      if filter before ((s.target.charAfter o s.span.stop).map (·.1)) then s.attempt cache slots o
      else ⟨.ok none, slots, cache⟩
    obtain ⟨r, hr⟩ : ∃ r, r = tried cache slots := ⟨_, rfl⟩
    obtain ⟨r', hr'⟩ : ∃ r', r' = tried cache' slots' := ⟨_, rfl⟩
    have hagrees : r.Agrees R r' := by
      rw [hr, hr']
      unfold tried
      split
      · exact hattempt _ _ _ _ _ h
      · exact ⟨rfl, h⟩
    rw [scan.eq_def, scan.eq_def]
    simp only [tried] at hr hr'
    simp only [← hr, ← hr', ← hagrees.1]
    split
    · split
      · rename_i c next hnext
        have hbounds := Target.charAfter_bounds hnext
        split
        · exact ih _ (by omega) _ _ hagrees.2 rfl
        · exact hagrees
      · exact hagrees
    · exact hagrees

theorem byAttempts_agrees (h : R slots slots') :
    (s.byAttempts cache slots).Agrees R (s.byAttempts cache' slots') := by
  unfold byAttempts
  split
  · split
    · exact hattempt _ _ _ _ _ h
    · exact scan_agrees hattempt _ _ _ _ h
  · exact scan_agrees hattempt _ _ _ _ h

/-- Searches of which all attempts agree do so themselves, shortcuts included. -/
theorem run_agrees (h : R slots slots') :
    (s.run cache slots).Agrees R (s.run cache' slots') := by
  unfold run
  split
  · exact ⟨rfl, h⟩
  · split
    · exact hattempt _ _ _ _ _ h
    · split
      · exact ⟨rfl, h⟩
      · split
        · exact ⟨rfl, h⟩
        · exact byAttempts_agrees hattempt h
      · exact byAttempts_agrees hattempt h

omit hattempt in
/-- **A search does not depend on the cache**: neither its answer, nor the slots
it leaves. -/
theorem run_cache (s : Search) (cache cache' : Cache) (slots : Option Slots) :
    (s.run cache slots).answer = (s.run cache' slots).answer ∧
      (s.run cache slots).slots = (s.run cache' slots).slots := by
  refine run_agrees (R := Eq) ?_ rfl
  rintro cache cache' slots _ o rfl
  obtain ⟨hanswer, hslots⟩ := s.toAttempt.run_cache cache cache' s.opts slots o
  exact ⟨by rw [attempt_answer, attempt_answer, hanswer], hslots⟩

end Search

/-! ### Expressions -/

/-- The captures that are handed back after a search.  After an error the groups
are as they were left, without a match none is set, and otherwise group zero is
the match. -/
def SearchResult.captures (r : SearchResult) : Captures :=
  let caps : Captures := ⟨r.slots.getD #[]⟩
  match r.answer with
  | .error _ => caps
  | .ok none => caps.clear
  | .ok (some span) => caps.setGroup 0 span

theorem SearchResult.captures_congr {r r' : SearchResult} (h : r.answer = r'.answer)
    (hslots : r.slots = r'.slots) : r.captures = r'.captures := by
  rw [captures, captures, h, hslots]

/-- The slots that a search for a pattern begins with: those of its groups, if
they are asked for or if the pattern depends on them. -/
def Pattern.slotsFor (p : Pattern) (recording : Bool) : Option Slots :=
  if recording || p.hasReferences then some (Captures.ofGroupLen p.groupLen).slots else none

namespace Regex

variable {p : Pattern} {opts : Options} {r r' : Regex} {t : Target} {span : Span}

/-- A search on a span that is not one of the text has no effect, not even on
the captures. -/
theorem searchWith_of_not_valid (h : Search.isValidSpan t span = false) (cache : Cache)
    (caps : Option Captures) : r.searchWith cache t span caps =
      ⟨.error (.invalidSpan span.start span.stop), r, cache, caps⟩ := by
  rw [searchWith, if_neg (by simp [h])]

/-- A search on a valid span hands back what the strategy of the pattern finds,
whether or not the expression has made it before. -/
theorem Has.searchWith_of_valid (hhas : Has p opts r) (h : Search.isValidSpan t span = true)
    (cache : Cache) (caps : Option Captures) :
    let result := (Search.mk (.ofPattern p opts) t span opts).run cache (p.slotsFor caps.isSome)
    (r.searchWith cache t span caps).answer = result.answer.map Option.isSome ∧
      (r.searchWith cache t span caps).caps = caps.map fun _ => result.captures := by
  rw [Regex.searchWith, if_pos h]
  simp only [hhas.prepare.strategy_eq, hhas.prepare.opts_eq, groupLen, hhas.prepare.pattern_eq]
  cases caps with
  | some caps =>
    have hslots : p.slotsFor (some caps).isSome = some (Captures.ofGroupLen p.groupLen).slots := rfl
    simp only [hslots, SearchResult.captures]
    split <;> simp only [*] <;> exact ⟨rfl, rfl⟩
  | none => exact ⟨rfl, rfl⟩

end Regex

/-! ### Sessions -/

/-- What an expression is built from. -/
structure Source where
  text : String
  pattern : Pattern
  opts : Options

/-- The expression that is built, of which nothing is known yet: what is found
out about the pattern is kept in it from its first search on. -/
def Source.build (s : Source) : Regex := .ofParts s.text s.pattern s.opts

/-- What searches hand on to one another: the expressions by number, a cache and
captures.  Each expression has a pool of caches of its own as well. -/
structure Session where
  regexes : ℕ → Regex
  cache : Cache
  caps : Captures

/-- A search that is asked for in a session. -/
structure Request where
  /-- The number of the expression. -/
  number : ℕ
  /-- Whether the cache is one of the expression's own, and not that of the
  session. -/
  pooled : Bool
  target : Target
  span : Span
  /-- Whether the captures of the session are brought along. -/
  recording : Bool

namespace Session

/-- The session in which nothing has been searched. -/
def new (sources : ℕ → Source) (caps : Captures) : Session :=
  ⟨fun i => (sources i).build, .empty, caps⟩

/-- The answer to a request, and the session after it.  Whatever the request
changes is in the session: the expression with its strategy and its pool, the
cache of the session, or its captures. -/
def serve (s : Session) (q : Request) : Except MatchError Bool × Session :=
  let caps := if q.recording then some s.caps else none
  if q.pooled then
    let (answer, regex, caps) := (s.regexes q.number).search q.target q.span caps
    (answer, { s with
      regexes := Function.update s.regexes q.number regex
      caps := caps.getD s.caps })
  else
    let result := (s.regexes q.number).searchWith s.cache q.target q.span caps
    (result.answer, {
      regexes := Function.update s.regexes q.number result.regex
      cache := result.cache
      caps := result.caps.getD s.caps })

/-- The session after several requests, in which each may change what the next
one finds. -/
def serveAll (s : Session) (history : List Request) : Session :=
  history.foldl (fun s q => (s.serve q).2) s

variable {sources : ℕ → Source} {s : Session}

/-- Whether the expressions of a session are those that were built, whatever has
been searched.  The caches may be anything. -/
def Has (sources : ℕ → Source) (s : Session) : Prop :=
  ∀ i, (s.regexes i).Has (sources i).pattern (sources i).opts

theorem has_new (caps : Captures) : Has sources (new sources caps) := fun i =>
  (Regex.MadeFrom.parts (sources i).text).has

/-- A request keeps the expressions of a session. -/
theorem Has.serve (h : Has sources s) (q : Request) : Has sources (s.serve q).2 := by
  intro i
  simp only [Session.serve]
  split <;>
  · simp only
    rw [Function.update_apply]
    split
    · subst_vars
      first | exact (h _).search _ _ _ | exact (h _).searchWith _ _ _ _
    · exact h i

/-- Requests keep the expressions of a session. -/
theorem Has.serveAll (h : Has sources s) (history : List Request) :
    Has sources (s.serveAll history) := by
  induction history generalizing s with
  | nil => exact h
  | cons q history ih => exact ih (h.serve q)

/-- A request is a search with a cache, the session's or one of the
expression's. -/
theorem serve_eq (s : Session) (q : Request) : ∃ pool cache,
    let result := { s.regexes q.number with pool := pool }.searchWith cache q.target q.span
      (if q.recording then some s.caps else none)
    (s.serve q).1 = result.answer ∧ (s.serve q).2.caps = result.caps.getD s.caps := by
  rw [serve]
  by_cases hpooled : q.pooled = true
  · rw [if_pos hpooled]
    exact ⟨(s.regexes q.number).pool.take.2, (s.regexes q.number).pool.take.1, rfl, rfl⟩
  · rw [if_neg hpooled]
    exact ⟨(s.regexes q.number).pool, s.cache, rfl, rfl⟩

/-- What a request leaves on a valid span is what the strategy of the pattern
finds there. -/
theorem Has.serve_of_valid (hhas : Has sources s) {q : Request}
    (h : Search.isValidSpan q.target q.span = true) : ∃ cache,
    let source := sources q.number
    let search : Search := ⟨.ofPattern source.pattern source.opts, q.target, q.span, source.opts⟩
    let result := search.run cache (source.pattern.slotsFor q.recording)
    (s.serve q).1 = result.answer.map Option.isSome ∧
      (s.serve q).2.caps = if q.recording then result.captures else s.caps := by
  obtain ⟨pool, cache, hanswer, hcaps⟩ := serve_eq s q
  have hfound := ((hhas q.number).withPool pool).searchWith_of_valid h cache
    (if q.recording then some s.caps else none)
  refine ⟨cache, ?_⟩
  cases hrecording : q.recording <;> simp_all

/-- **Searches leave nothing behind.**  Whatever has been searched in a session,
the next request has the answer that it has in a new session, and it leaves the
captures that it leaves there.  Only where the span is not one of the text, or
where no captures are brought along, the captures stay as they are. -/
theorem serve_eq_new (sources : ℕ → Source) (caps caps' : Captures) (history : List Request)
    (q : Request) :
    let s := (new sources caps).serveAll history
    let s' := new sources caps'
    (s.serve q).1 = (s'.serve q).1 ∧
      (s.serve q).2.caps =
        (if Search.isValidSpan q.target q.span && q.recording then (s'.serve q).2.caps
          else s.caps) ∧
      (Search.isValidSpan q.target q.span = false →
        (s.serve q).1 = .error (.invalidSpan q.span.start q.span.stop)) := by
  intro s s'
  have hhas : Has sources s := (has_new caps).serveAll history
  cases h : Search.isValidSpan q.target q.span with
  | true =>
    obtain ⟨cache, hanswer, hcaps⟩ := hhas.serve_of_valid h
    obtain ⟨cache', hanswer', hcaps'⟩ := (has_new caps' : Has sources s').serve_of_valid h
    obtain ⟨hfound, hslots⟩ := Search.run_cache _ cache cache' _
    rw [hanswer, hanswer', hcaps, hcaps', hfound, SearchResult.captures_congr hfound hslots]
    refine ⟨rfl, ?_, nofun⟩
    cases q.recording <;> rfl
  | false =>
    obtain ⟨pool, cache, hanswer, hcaps⟩ := serve_eq s q
    obtain ⟨pool', cache', hanswer', hcaps'⟩ := serve_eq s' q
    rw [Regex.searchWith_of_not_valid h] at hanswer hcaps hanswer' hcaps'
    refine ⟨hanswer.trans hanswer'.symm, ?_, fun _ => hanswer⟩
    rw [hcaps]
    cases q.recording <;> rfl

/-- A search for `(a)b` after one that was refused, one on no span of the text
and one without a match.  The search that was refused, for `.*\9`, has left two
choices on the stack of the cache. -/
theorem serve_eq_new_refused :
    let sources : ℕ → Source := fun i =>
      if i = 0 then ⟨"", .concat [.repetition .dot 0 none true, .backref 9], .empty⟩
      else ⟨"(a)b", .concat [.group (some 1) (.char 'a'), .char 'b'], .empty⟩
    let t : Target := .bufferOfString "ab"
    let s := (new sources .empty).serveAll
      [⟨0, false, t, ⟨0, 2⟩, true⟩, ⟨1, true, t, ⟨1, 5⟩, true⟩, ⟨1, true, t, ⟨1, 2⟩, true⟩]
    let q : Request := ⟨1, false, t, ⟨0, 2⟩, true⟩
    s.cache.stack = [.retry 1 1, .retry 1 0] ∧ (s.serve q).1 = .ok true ∧
      (s.serve q).2.caps = ⟨#[some 0, some 2, some 0, some 1]⟩ := by
  intro sources t s q
  obtain ⟨hanswer, hcaps, -⟩ := serve_eq_new sources .empty .empty
    [⟨0, false, t, ⟨0, 2⟩, true⟩, ⟨1, true, t, ⟨1, 5⟩, true⟩, ⟨1, true, t, ⟨1, 2⟩, true⟩] q
  refine ⟨?_, hanswer.trans ?_, hcaps.trans ?_⟩
  · cbv
  · cbv
  · cbv

end Session

end Regexp
