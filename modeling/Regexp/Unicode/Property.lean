import Regexp.Unicode.BinaryProperty
import Regexp.Unicode.Block
import Regexp.Unicode.GeneralCategory
import Regexp.Unicode.Script

/-!
# Properties by name

A property escape names a set of characters: everything, the assigned or the
unassigned characters, a block, a binary property, a general category or a
script.

## Main definitions

* `Property.looseName` — a name as it is compared.
* `Property.find?` — the set with a name.

## Design notes

Names of blocks begin with `Is` and are compared exactly.  All other names are
compared loosely:  a leading `is` and the case of letters do not matter, and
neither do blanks, hyphens and underscores.  A binary property goes before a
category and a category before a script.
-/

namespace Regexp.Property

/-- A name in lower case without blanks, hyphens and underscores. -/
def squeeze (name : List Char) : List Char :=
  (name.filter fun c => c ≠ ' ' && c ≠ '_' && c ≠ '-').map Char.toLower

/-- A name as it is compared.  A leading `is` is dropped, except where only the
name `isc` of a property is left. -/
def looseName (name : List Char) : String :=
  match name with
  | c :: d :: rest =>
    if c.toLower = 'i' && d.toLower = 's' then
      let short := squeeze rest
      String.ofList (if short = ['c'] then ['i', 's', 'c'] else short)
    else String.ofList (squeeze name)
  | _ => String.ofList (squeeze name)

/-- Names that denote properties with other values than yes and no, and so no
set, although categories have them too. -/
def reservedNames : List String := ["sc", "lc"]

/-- The members of a property, category or script by its name as it is compared. -/
def findLoose? (name : String) : Option CharSet :=
  if reservedNames.contains name then none
  else match BinaryProperty.find? name with
    | some s => some s
    | none =>
      match name with
      | "any" => some .full
      | "assigned" => some GeneralCategory.unassigned.members.compl
      | "ascii" => some (.ofRange (.ofEnds (Char.ofNat 0) (Char.ofNat 0x7F)))
      | _ =>
        match GeneralCategory.find? name with
        | some s => some s
        | none => Script.find? name

/-- Whether a character may occur in a name that is compared loosely. -/
def isNameChar (c : Char) : Bool := c.isAlphanum || c = '_' || c = '-' || c = ' '

/-- The set that a property name denotes.  Three names and those of blocks are
compared exactly, and all others loosely. -/
def find? (name : List Char) : Option CharSet :=
  if name = "ALL".toList then some .full
  else if name = "ASSIGNED".toList then some GeneralCategory.unassigned.members.compl
  else if name = "UNASSIGNED".toList then some GeneralCategory.unassigned.members
  else match name with
    | 'I' :: 's' :: block => Block.find? (String.ofList block)
    | _ => if !name.isEmpty && name.all isNameChar then findLoose? (looseName name) else none

end Regexp.Property
