import Regexp.CharSet.RunText

/-!
# Named classes of characters

A standard gives a class of characters one or more names and lists its members.
The members are kept in written form until the class is asked for.

## Main definitions

* `NamedClass` — a class with its names and its members in written form.
* `NamedClass.members` — the set of its members.
* `NamedClass.find?` — the members of the class with a name.
-/

namespace Regexp

/-- A class of characters with its names. -/
structure NamedClass where
  /-- The names, in lower case and without blanks, hyphens and underscores. -/
  names : List String
  /-- The distances between the changes of membership, as hexadecimal numbers. -/
  runs : String

namespace NamedClass

/-- The set of the members of a class. -/
def members (k : NamedClass) : CharSet := .ofRunText k.runs

/-- The members of the class with a name. -/
def find? (ks : List NamedClass) (name : String) : Option CharSet :=
  (ks.find? (·.names.contains name)).map members

end NamedClass

end Regexp
