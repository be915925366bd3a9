import Regexp.Pattern

/-!
# Counts over patterns

What a search and its captures need to know of a pattern before it is run.  All
of these are recursions over the tree.

The number of groups and the dependence on captures are exact.  The other two
are about all matches at once, and say less than could be said: a reference
counts as empty, and a lookaround, which reads nothing, contributes neither
length nor text.  Sums and products of lengths are cut off (`saturatingAdd`,
`saturatingMul`), so that repetitions within repetitions do not run away; as
lower bounds they may be too small but never too large.  A required text is only
looked for in parts that every match goes through (`Pattern.fixedString`), and
it comes with the options in force at its place, since these decide about case.

## Main definitions

* `Pattern.groupLen` — the number of groups, the whole match included.
* `Pattern.hasReferences` — whether the pattern depends on what a group
  captured.
* `Pattern.minLen` — a lower bound for the number of characters of a match.
* `Pattern.fixedString` — a text that every match contains, with the options in
  force there.
-/

namespace Regexp.Pattern

mutual

/-- The least number above the indices of all groups, and above zero.  Group
zero, the whole match, is counted as well. -/
def groupLen : Pattern → Nat
  | .concat items => groupLenAll items
  | .union alternatives => groupLenAll alternatives
  | .repetition body _ _ _ => body.groupLen
  | .group (some i) body => max (i + 1) body.groupLen
  | .group none body => body.groupLen
  | .look _ body => body.groupLen
  | .independent body => body.groupLen
  | .modifier _ _ body => body.groupLen
  | .ifGroup _ yes none => yes.groupLen
  | .ifGroup _ yes (some no) => max yes.groupLen no.groupLen
  | .ifLook test yes none => max test.groupLen yes.groupLen
  | .ifLook test yes (some no) => max test.groupLen (max yes.groupLen no.groupLen)
  | _ => 1
  termination_by structural p => p

/-- The least number above the indices of all groups of several patterns, and
above zero. -/
def groupLenAll : List Pattern → Nat
  | [] => 1
  | p :: ps => max p.groupLen (groupLenAll ps)
  termination_by structural ps => ps

end

mutual

/-- Whether a pattern refers to what a group captured, by a reference or by a
condition. -/
def hasReferences : Pattern → Bool
  | .backref _ => true
  | .ifGroup _ _ _ => true
  | .concat items => hasReferencesAny items
  | .union alternatives => hasReferencesAny alternatives
  | .repetition body _ _ _ => body.hasReferences
  | .group _ body => body.hasReferences
  | .look _ body => body.hasReferences
  | .independent body => body.hasReferences
  | .modifier _ _ body => body.hasReferences
  | .ifLook test yes none => test.hasReferences || yes.hasReferences
  | .ifLook test yes (some no) => test.hasReferences || yes.hasReferences || no.hasReferences
  | _ => false
  termination_by structural p => p

/-- Whether one of several patterns refers to what a group captured. -/
def hasReferencesAny : List Pattern → Bool
  | [] => false
  | p :: ps => p.hasReferences || hasReferencesAny ps
  termination_by structural ps => ps

end

mutual

/-- A lower bound for the number of characters of a match, at most the largest
count.  A reference may match nothing and counts for nothing, like a conditional
with one branch. -/
def minLen : Pattern → Nat
  | .char _ | .dot | .charClass _ _ => 1
  | .string s => s.length
  | .concat items => (minLens items).foldl saturatingAdd 0
  | .union alternatives => (minLens alternatives).min?.getD 0
  | .repetition body min _ _ => saturatingMul min body.minLen
  | .group _ body => body.minLen
  | .independent body => body.minLen
  | .modifier _ _ body => body.minLen
  | .ifGroup _ yes (some no) => min yes.minLen no.minLen
  | .ifLook _ yes (some no) => min yes.minLen no.minLen
  | _ => 0
  termination_by structural p => p

/-- The lower bounds for the matches of several patterns. -/
def minLens : List Pattern → List Nat
  | [] => []
  | p :: ps => p.minLen :: minLens ps
  termination_by structural ps => ps

end

/-- The longer of two texts, the first one if they are equally long. -/
def longerString (best : Option (List Char × Options)) (found : Option (List Char × Options)) :
    Option (List Char × Options) :=
  match best, found with
  | none, found => found
  | best, none => best
  | some b, some f => if b.1.length < f.1.length then some f else some b

mutual

/-- The longest string among the parts that every match goes through, with the
options in force there.  Single characters are not taken, and choices,
repetitions, lookarounds and conditionals are not looked into. -/
def fixedString (opts : Options) : Pattern → Option (List Char × Options)
  | .string s => some (s, opts)
  | .concat items => (fixedStrings opts items).foldl longerString none
  | .group _ body => body.fixedString opts
  | .independent body => body.fixedString opts
  | .modifier add remove body => body.fixedString (opts.modify add remove)
  | _ => none
  termination_by structural p => p

/-- The strings of several patterns that follow each other. -/
def fixedStrings (opts : Options) : List Pattern → List (Option (List Char × Options))
  | [] => []
  | p :: ps => p.fixedString opts :: fixedStrings opts ps
  termination_by structural ps => ps

end

end Regexp.Pattern
