import Regexp.Proofs.Reading
import Regexp.Regex

/-!
# Expressions in use

Searches change a regular expression: the first one makes its strategy, and each
of them takes a cache from the pool and may put one back.  None of this changes
what later searches find.

`Regex.MadeFrom` are the expressions that a pattern and options become in the
course of searches and by cloning.  All that is needed of them is that the
strategy, if there is one, is that of the pattern (`Regex.Has`,
`Regex.MadeFrom.has`).  A search with a cache from the pool is a search with
some cache (`Regex.search_eq`), so that statements about searches with any cache
cover both; `Regex.searchWith_answer` then reduces a search on a valid span to
the strategy.

## Main definitions

* `Regex.MadeFrom` — the expressions that a pattern and options become in the
  course of searches.
* `Regex.Has` — an expression of a pattern and options, with no other strategy
  than theirs.

## Main statements

* `Regex.MadeFrom.has` — such an expression has the strategy of its pattern.
* `Regex.search_eq` — a search with the pool is a search with some cache.
* `Regex.searchWith_answer` — a search answers whether the strategy finds a
  match.
* `Search.isBoundary_of_valid` — a valid span cuts no character.
-/

namespace Regexp

/-- The expressions that come from a pattern and options by searching and
cloning.  What was searched, with what captures and what cache, is left open. -/
inductive Regex.MadeFrom (p : Pattern) (opts : Options) : Regex → Prop
  | parts (text : String) : MadeFrom p opts (.ofParts text p opts)
  | clone {r} (h : MadeFrom p opts r) : MadeFrom p opts r.clone
  | searchWith {r} (h : MadeFrom p opts r) (cache : Cache) (t : Target) (span : Span)
    (caps : Option Captures) : MadeFrom p opts (r.searchWith cache t span caps).regex
  | search {r} (h : MadeFrom p opts r) (t : Target) (span : Span) (caps : Option Captures) :
    MadeFrom p opts (r.search t span caps).2.1

namespace Regex

variable {p : Pattern} {opts : Options} {r : Regex}

/-- Whether an expression has a pattern and options, and no other strategy than
theirs.  It is kept by all that can be done with an expression. -/
structure Has (p : Pattern) (opts : Options) (r : Regex) : Prop where
  pattern_eq : r.pattern = p
  opts_eq : r.opts = opts
  strategy_eq : r.strategy = .ofPattern p opts

theorem Has.prepare (h : Has p opts r) : Has p opts r.prepare :=
  ⟨h.pattern_eq, h.opts_eq, h.strategy_eq⟩

theorem Has.withPool (h : Has p opts r) (pool : Pool Cache) : Has p opts { r with pool := pool } :=
  ⟨h.pattern_eq, h.opts_eq, h.strategy_eq⟩

theorem Has.searchWith (h : Has p opts r) (cache : Cache) (t : Target) (span : Span)
    (caps : Option Captures) : Has p opts (r.searchWith cache t span caps).regex := by
  rw [Regex.searchWith]
  split
  · split
    · simp only
      split <;> exact h.prepare
    · exact h.prepare
  · exact h

theorem Has.search (h : Has p opts r) (t : Target) (span : Span) (caps : Option Captures) :
    Has p opts (r.search t span caps).2.1 := by
  have h' := (h.withPool r.pool.take.2).searchWith r.pool.take.1 t span caps
  simp only [Regex.search]
  split
  · exact h'.withPool _
  · exact h'

/-- An expression keeps its pattern and its options, and its strategy is that of
the pattern. -/
theorem MadeFrom.has (h : MadeFrom p opts r) : Has p opts r := by
  induction h with
  | parts => exact ⟨rfl, rfl, rfl⟩
  | clone _ ih => exact ⟨ih.pattern_eq, ih.opts_eq, ih.strategy_eq⟩
  | searchWith _ cache t span caps ih => exact ih.searchWith cache t span caps
  | search _ t span caps ih => exact ih.search t span caps

/-- A search with the pool is a search with the cache that the pool has to give. -/
theorem search_eq (r : Regex) (t : Target) (span : Span) (caps : Option Captures) :
    let result := { r with pool := r.pool.take.2 }.searchWith r.pool.take.1 t span caps
    (r.search t span caps).1 = result.answer ∧ (r.search t span caps).2.2 = result.caps :=
  ⟨rfl, rfl⟩

/-- The answer of a search on a valid span is whether the strategy finds a
match. -/
theorem searchWith_answer {r : Regex} (hhas : Has p opts r) {t : Target} {span : Span}
    (h : Search.isValidSpan t span = true) (cache : Cache) (caps : Option Captures) :
    ∃ slots, (r.searchWith cache t span caps).answer =
      ((Search.mk (.ofPattern p opts) t span opts).run cache slots).answer.map Option.isSome := by
  rw [searchWith, if_pos h]
  simp only [hhas.prepare.strategy_eq, hhas.prepare.opts_eq]
  cases caps with
  | some caps =>
    refine ⟨some (Captures.ofGroupLen r.prepare.groupLen).slots, ?_⟩
    simp only
    split <;> simp only [*] <;> rfl
  | none => exact ⟨_, rfl⟩

end Regex

namespace Search

variable {t : Target} {span : Span}

theorem start_le_stop (h : isValidSpan t span = true) : span.start ≤ span.stop := by
  simp only [isValidSpan, Bool.and_eq_true, decide_eq_true_iff] at h
  exact h.1.1.1.1

/-- A valid span cuts no character. -/
theorem isBoundary_of_valid (h : isValidSpan t span = true) :
    t.isBoundary span.start = true ∧ t.isBoundary span.stop = true := by
  simp only [isValidSpan, Bool.and_eq_true] at h
  exact ⟨h.1.2, h.2⟩

theorem onText_of_valid (ht : t.IsGenuine) (h : isValidSpan t span = true) (program : Program)
    (whole : Bool) : Attempt.OnText ⟨program, t, span, whole⟩ :=
  ⟨ht, (isBoundary_of_valid h).1, (isBoundary_of_valid h).2⟩

end Search

end Regexp
