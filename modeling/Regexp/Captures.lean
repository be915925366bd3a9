import Regexp.Machine.Basic

/-!
# Captures

The offsets of the groups after a search, two slots a group.  Group zero is the
whole match.  A group is set if both its ends are; a search that has ended may
leave a group with one end, which is then as good as none.

A slot holds any offset but the largest one, which stands for a slot that is not
set.  So a group that ends at the largest offset is not set either, and
`Captures.setGroup` passes through the same restriction.

## Main definitions

* `Captures` — the slots of all groups.
* `Captures.group?`, `Captures.start?`, `Captures.stop?` — reading a group.
* `Captures.ofGroupLen`, `Captures.clear`, `Captures.setGroup` — what a search
  does with captures.
-/

namespace Regexp

/-- The offsets of the groups after a search.  Each group has a slot for its
start and one for its end, and group zero is the whole match. -/
structure Captures where
  slots : Slots
  deriving DecidableEq

namespace Captures

/-- Captures without groups. -/
def empty : Captures := ⟨#[]⟩

/-- Captures of `groupLen` groups that are not set.  Each group has two slots,
for its ends. -/
def ofGroupLen (groupLen : Nat) : Captures := ⟨.replicate (groupLen * 2) none⟩

/-- The number of groups. -/
def groupLen (c : Captures) : Nat := c.slots.size / 2

/-- The offset at which a group starts, if it is set. -/
def start? (c : Captures) (group : Nat) : Option Nat := c.slots[Edge.start.slot group]?.join

/-- The offset at which a group stops, if it is set. -/
def stop? (c : Captures) (group : Nat) : Option Nat := c.slots[Edge.stop.slot group]?.join

/-- The span of a group, if the group exists and both its ends are set. -/
def group? (c : Captures) (group : Nat) : Option Span :=
  match c.start? group, c.stop? group with
  | some start, some stop => some ⟨start, stop⟩
  | _, _ => none

/-- Whether there is a match, by the two ends of group zero.  Nothing else says
so. -/
def isMatch (c : Captures) : Bool := (c.group? 0).isSome

/-- The spans of all groups, in the order of their numbers; those that are not
set have none. -/
def groups (c : Captures) : List (Option Span) := (List.range c.groupLen).map c.group?

/-- The same number of groups, none of them set.  This is how captures are made
ready for another search. -/
def clear (c : Captures) : Captures := ⟨.replicate c.slots.size none⟩

/-- The captures with a group set to a span.  An end at the largest offset
cannot be held, and leaves the group not set. -/
def setGroup (c : Captures) (group : Nat) (span : Span) : Captures :=
  ⟨(c.slots.setIfInBounds (Edge.start.slot group) (slotValue span.start)).setIfInBounds
    (Edge.stop.slot group) (slotValue span.stop)⟩

end Captures

end Regexp
