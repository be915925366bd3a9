import Regexp.Machine.Progress

/-!
# Match attempts

`Regexp.Machine.Basic` says what one step of the machine does, and
`Regexp.Machine.Progress` that a step from a valid state leads to a lighter
valid state or to an answer.  This module puts the two together: an attempt sets
the machine up at an offset, takes steps until there is an answer, and hands on
what it has used to the next attempt.

## Running to an answer

`Attempt.loop` takes no fuel and counts no steps.  It can only be called with a
proof that the state is valid, which each step passes on; so the outcome `stuck`
is impossible and needs no answer of its own, and the recursion is well founded
on the pair of `State.room` and `State.weight`.  Neither the length of the span
nor the size of the program gives a simple bound for the number of steps, and
none is needed: the order is that of `State.Lighter`, in which every step goes
down.

An attempt begins in a valid state whatever the cache and the slots are
(`Attempt.start_valid`).  The one thing that has to be asked for is that the
offset lies in the span, and `Attempt.run` asks for it itself: an offset outside
of the span has no match.

## What attempts hand on

The stack, the frames that are kept and the sets of visited offsets of one
attempt are the storage of the next one, `Cache`.  Nothing is cleared at the end
of an attempt.  A match is reported with the choices that it did not need still
on the stack, an attempt that ends with an error may leave more than that, and
the sets may be those of another program, or of a longer span.  It is
`Cache.reset` that makes a cache fit for use, at the start of the attempt: it
drops the frames, empties each of the sets and adds as many sets as there are
closures without one.  It never takes sets away, so a cache may have more of
them than a program asks for (`Cache.le_size_reset`).

Slots are passed in by the caller and are all unset at first (`Attempt.start`),
however they were left by an attempt before.

## Main definitions

* `Cache`, `Cache.reset` — what attempts hand on to one another, and how it is
  made fit for use.
* `Attempt.start` — the state in which an attempt begins.
* `Attempt.loop` — the steps from a valid state to an answer.
* `Attempt.run` — a match attempt.
-/

namespace Regexp

/-- What attempts hand on to one another, so that it need not be made anew each
time.  An attempt leaves behind what was on its stack when it came to an answer,
and it may have marked offsets in sets that belong to another program. -/
structure Cache where
  stack : List Frame
  kept : List Frame
  visited : Array OffsetSet

namespace Cache

/-- The cache that nothing has used. -/
def empty : Cache := ⟨[], [], #[]⟩

/-- The cache as an attempt with `n` closures needs it: no frames, and at least
`n` sets of offsets, none of which has members. -/
def reset (c : Cache) (n : Nat) : Cache where
  stack := []
  kept := []
  visited :=
    (c.visited ++ Array.replicate (n - c.visited.size) (OffsetSet.empty 0)).map OffsetSet.clear

theorem le_size_reset (c : Cache) (n : Nat) : n ≤ (c.reset n).visited.size := by
  simp only [reset, Array.size_map, Array.size_append, Array.size_replicate]
  omega

end Cache

/-- What a state leaves to later attempts. -/
def State.cache (s : State) : Cache := ⟨s.stack, s.kept, s.visited⟩

/-- What a match attempt leaves behind.  The slots are part of it whether or not
there is a match. -/
structure AttemptResult where
  /-- The offset where the match ends, if there is a match. -/
  answer : Except MatchError (Option Nat)
  slots : Option Slots
  cache : Cache

namespace Attempt

variable (a : Attempt)

instance (offset : Nat) : Decidable (a.InSpan offset) :=
  inferInstanceAs (Decidable (a.span.start ≤ offset ∧ offset ≤ a.span.stop))

/-- The state in which an attempt begins: it works on the cache, once that is
reset, and no slot is set. -/
def start (cache : Cache) (opts : Options) (slots : Option Slots) (offset : Nat) : State where
  control := .run a.program.start
  offset := offset
  reverse := false
  opts := opts
  depth := 0
  stack := (cache.reset a.program.closureLen).stack
  kept := (cache.reset a.program.closureLen).kept
  visited := (cache.reset a.program.closureLen).visited
  slots := slots.map fun slots => .replicate slots.size none

variable {a} in
/-- An attempt begins in a valid state, whatever the cache holds: the stack is
empty, and there are sets for all closures after `Cache.reset`. -/
theorem start_valid {cache : Cache} {opts : Options} {slots : Option Slots} {offset : Nat}
    (h : a.InSpan offset) : (a.start cache opts slots offset).Valid a where
  offset_mem := h
  control_below _ hl := by
    cases hl
    exact a.program.start_below
  frames := by simp [start, Cache.reset]
  depth_eq := rfl
  visited_le := Cache.le_size_reset _ _

/-- The steps from a valid state to an answer.  Validity rules out the outcome
`stuck`, and each step makes the state lighter; there is no bound on the number
of steps to be given. -/
def loop (s : State) (h : s.Valid a) : Except MatchError (Option Nat) × State :=
  match hs : a.step s with
  | .next s' => loop s' (step_valid h hs)
  | .halt answer s' => (answer, s')
  | .stuck => absurd hs (step_ne_stuck h)
  termination_by (s.room a, s.weight a)
  decreasing_by
    rcases step_lighter h hs with hlt | ⟨heq, hlt⟩
    · exact .left _ _ hlt
    · rw [heq]
      exact .right _ hlt

/-- A match attempt from an offset, with slots to record the ends of the groups
if there are any.  Outside of the span there is no match, and then slots and
cache are left as they are. -/
def run (cache : Cache) (opts : Options) (slots : Option Slots) (offset : Nat) : AttemptResult :=
  if h : a.InSpan offset then
    let (answer, s) := a.loop (a.start cache opts slots offset) (start_valid h)
    ⟨answer, s.slots, s.cache⟩
  else ⟨.ok none, slots, cache⟩

end Attempt

end Regexp
