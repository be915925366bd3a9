import Regexp.Span
import Regexp.Unicode.Case

/-!
# Texts to search

A search sees a text through the characters before and after an offset.  A text
is a string whose offsets count bytes of UTF-8, a buffer whose offsets count
characters, or a cursor, which is a buffer whose offsets start at some first
index.  `Target` is the one type of all three, and everything that is said of
searches is said of all of them.

## Offsets

An offset is a number, and not every number is one of the text's.  In a string
only the offsets at which a character starts or the text ends are boundaries
(`Target.isBoundary`); a span that cuts a character is refused before the search
begins.  Reading (`Target.charAfter`, `Target.charBefore`) takes a bound that it
must not cross, the end of the span that is searched: a character that reaches
over the bound is not read.  Reading a character moves the offset, and not past
the bound, which is `Target.charAfter_bounds` and `Target.charBefore_bounds`;
all loops over a text end because of this, and no loop knows the length of a
character.

For a string the characters are kept in an array, `Utf8Text`, with a table that
maps each byte offset to the index of the character that starts there; the
offset past the end has an index too.  The bytes are kept as well, for the
search for literals.

## Comparison

A literal is compared with the text character by character (`Target.matchAfter`,
`Target.matchBefore`), and so is a copy of another part of the text
(`Target.repeats`, `Target.repeatsBack`), up to case if that is asked for.
Characters that are the same up to case may differ in length, so the end of such
a comparison is only known when it is done.  In a buffer a literal without
enough room behind the offset is refused before any character is read
(`Target.hasRoom`), which makes a difference for literals without characters
only.

## Main definitions

* `Target` — a text with its way of numbering offsets.
* `Target.charAfter`, `Target.charBefore` — the character on either side of an
  offset.
* `Target.isBoundary`, `Target.span` — the offsets of a text.
* `Target.regionMatches`, `Target.regionMatchesBack` — comparison with a
  literal.
* `Target.repeats`, `Target.repeatsBack` — comparison with another part of the
  text.
-/

namespace Regexp

/-- A string as its characters, the character index of each byte offset that
starts one, and its bytes.  The three parts belong together, which the type does
not say; `Utf8Text.ofString` makes them so. -/
structure Utf8Text where
  chars : Array Char
  index : Array (Option Nat)
  bytes : ByteArray

namespace Utf8Text

/-- The table of character indices with the entries for one more character: its
index at its first byte, and none at the others. -/
def addIndex (table : Array (Option Nat)) (i : Nat) (c : Char) : Array (Option Nat) :=
  table.push (some i) ++ Array.replicate (c.utf8Size - 1) none

/-- The table of character indices for characters from the `i`-th on. -/
def indexFrom (table : Array (Option Nat)) (i : Nat) : List Char → Array (Option Nat)
  | [] => table.push (some i)
  | c :: cs => indexFrom (addIndex table i c) (i + 1) cs

/-- A string prepared for reading by byte offset.  The characters, their places
and the bytes are all kept. -/
def ofString (s : String) : Utf8Text where
  chars := s.toList.toArray
  index := indexFrom #[] 0 s.toList
  bytes := s.toUTF8

/-- The index of the character that starts at a byte offset.  The end of the
text counts as the start of one more. -/
def charIndex? (t : Utf8Text) (offset : Nat) : Option Nat := (t.index[offset]?).join

/-- Whether a character or the end of the text starts at a byte offset. -/
def isBoundary (t : Utf8Text) (offset : Nat) : Bool := (t.charIndex? offset).isSome

end Utf8Text

/-- A text to search.  All that a search does with a text goes through the
functions below, and none of them is given the kind of the text to decide about
anything else. -/
inductive Target where
  /-- A string, whose offsets count bytes of UTF-8. -/
  | utf8 (text : Utf8Text)
  /-- A buffer, whose offsets count characters. -/
  | buffer (chars : Array Char)
  /-- A cursor, whose offsets count characters and start at `first`. -/
  | cursor (first : Nat) (chars : Array Char)

namespace Target

/-- The text of a string, with byte offsets, as searches in strings have it. -/
def ofString (s : String) : Target := .utf8 (.ofString s)

/-- The text of a string as a buffer of characters. -/
def bufferOfString (s : String) : Target := .buffer s.toList.toArray

/-- The text of a string behind a cursor. -/
def cursorOfString (first : Nat) (s : String) : Target := .cursor first s.toList.toArray

/-- The span of all offsets of a text.  Only that of a cursor need not begin at
zero. -/
def span : Target → Span
  | .utf8 text => ⟨0, text.bytes.size⟩
  | .buffer chars => ⟨0, chars.size⟩
  | .cursor first chars => ⟨first, first + chars.size⟩

/-- Whether an offset is one of the text's and not inside a character.  In
buffers and behind cursors no offset is inside of one. -/
def isBoundary : Target → Nat → Bool
  | .utf8 text, offset => text.isBoundary offset
  | .buffer chars, offset => offset ≤ chars.size
  | .cursor first chars, offset => first ≤ offset && offset ≤ first + chars.size

/-- The bytes of a text that is stored as UTF-8.  Only such a text is searched
by bytes. -/
def utf8? : Target → Option ByteArray
  | .utf8 text => some text.bytes
  | _ => none

/-- The characters of a span, if it is one of the text and cuts no character. -/
def slice? (t : Target) (s : Span) : Option (List Char) :=
  if s.start ≤ s.stop && t.isBoundary s.start && t.isBoundary s.stop then
    match t with
    | .utf8 text =>
      some (text.chars.extract ((text.charIndex? s.start).getD 0)
        ((text.charIndex? s.stop).getD 0)).toList
    | .buffer chars => some (chars.extract s.start s.stop).toList
    | .cursor first chars => some (chars.extract (s.start - first) (s.stop - first)).toList
  else none

/-- The character of a buffer at an offset, and the offset after it, if that is
at most `limit`. -/
def readAfter (chars : Array Char) (first offset limit : Nat) : Option (Char × Nat) :=
  if first ≤ offset ∧ offset + 1 ≤ limit then
    chars[offset - first]?.map fun c => (c, offset + 1)
  else none

/-- The character of a buffer before an offset, and the offset before it, if
that is at least `start`. -/
def readBefore (chars : Array Char) (first offset start : Nat) : Option (Char × Nat) :=
  if first < offset ∧ start < offset then
    chars[offset - 1 - first]?.map fun c => (c, offset - 1)
  else none

/-- The character that starts at an offset, and the offset after it, if it ends
at or before `limit`.  Inside of a character there is none that starts. -/
def charAfter : Target → (offset limit : Nat) → Option (Char × Nat)
  | .utf8 text, offset, limit =>
    if text.isBoundary limit then
      (text.charIndex? offset).bind fun i => (text.chars[i]?).bind fun c =>
        if offset + c.utf8Size ≤ limit then some (c, offset + c.utf8Size) else none
    else none
  | .buffer chars, offset, limit => readAfter chars 0 offset limit
  | .cursor first chars, offset, limit => readAfter chars first offset limit

/-- The character that ends at an offset, and the offset before it, if it starts
at or after `start`. -/
def charBefore : Target → (offset start : Nat) → Option (Char × Nat)
  | .utf8 text, offset, start =>
    if text.isBoundary start then
      (text.charIndex? offset).bind fun i =>
        if i = 0 then none
        else (text.chars[i - 1]?).bind fun c =>
          if start + c.utf8Size ≤ offset then some (c, offset - c.utf8Size) else none
    else none
  | .buffer chars, offset, start => readBefore chars 0 offset start
  | .cursor first chars, offset, start => readBefore chars first offset start

/-! ### Bounds -/

theorem readAfter_bounds {chars : Array Char} {first offset limit : Nat} {c : Char} {next : Nat}
    (h : readAfter chars first offset limit = some (c, next)) : offset < next ∧ next ≤ limit := by
  unfold readAfter at h
  split at h
  · obtain ⟨d, _, hd⟩ := Option.map_eq_some_iff.mp h
    cases hd
    omega
  · simp at h

theorem readBefore_bounds {chars : Array Char} {first offset start : Nat} {c : Char} {prev : Nat}
    (h : readBefore chars first offset start = some (c, prev)) : start ≤ prev ∧ prev < offset := by
  unfold readBefore at h
  split at h
  · obtain ⟨d, _, hd⟩ := Option.map_eq_some_iff.mp h
    cases hd
    omega
  · simp at h

/-- Reading forward moves the offset up, and not past the limit.  Loops that
read forward end by this. -/
theorem charAfter_bounds {t : Target} {offset limit : Nat} {c : Char} {next : Nat}
    (h : t.charAfter offset limit = some (c, next)) : offset < next ∧ next ≤ limit := by
  unfold charAfter at h
  split at h
  · split at h
    · obtain ⟨i, _, h⟩ := Option.bind_eq_some_iff.mp h
      obtain ⟨d, _, h⟩ := Option.bind_eq_some_iff.mp h
      split at h
      · have := d.utf8Size_pos
        cases h
        omega
      · simp at h
    · simp at h
  · exact readAfter_bounds h
  · exact readAfter_bounds h

/-- Reading backward moves the offset down, and not past the start.  Loops that
read backward end by this. -/
theorem charBefore_bounds {t : Target} {offset start : Nat} {c : Char} {prev : Nat}
    (h : t.charBefore offset start = some (c, prev)) : start ≤ prev ∧ prev < offset := by
  unfold charBefore at h
  split at h
  · split at h
    · obtain ⟨i, _, h⟩ := Option.bind_eq_some_iff.mp h
      split at h
      · simp at h
      · obtain ⟨d, _, h⟩ := Option.bind_eq_some_iff.mp h
        split at h
        · have := d.utf8Size_pos
          cases h
          omega
        · simp at h
    · simp at h
  · exact readBefore_bounds h
  · exact readBefore_bounds h

/-! ### Comparison of regions -/

/-- The offset after a literal that starts at an offset, read character by
character. -/
def matchAfter (t : Target) (fold : Bool) (limit : Nat) : Nat → List Char → Option Nat
  | offset, [] => some offset
  | offset, expected :: rest =>
    match t.charAfter offset limit with
    | some (c, next) =>
      if Case.charsMatch fold c expected then matchAfter t fold limit next rest else none
    | none => none

/-- The offset before a literal that ends at an offset, given its characters
from the last to the first. -/
def matchBefore (t : Target) (fold : Bool) (start : Nat) : Nat → List Char → Option Nat
  | offset, [] => some offset
  | offset, expected :: rest =>
    match t.charBefore offset start with
    | some (c, prev) =>
      if Case.charsMatch fold c expected then matchBefore t fold start prev rest else none
    | none => none

/-- Whether the characters of a literal fit between an offset and a limit: in a
buffer this is known before any of them is read, so that even a literal without
characters needs an offset up to the limit. -/
def hasRoom : Target → (offset limit : Nat) → List Char → Bool
  | .buffer chars, offset, limit, literal =>
    offset + literal.length ≤ limit && offset + literal.length ≤ chars.size
  | _, _, _, _ => true

/-- The offset after a literal, if the text has it at an offset and before
`limit`. -/
def regionMatches (t : Target) (fold : Bool) (offset limit : Nat) (literal : List Char) :
    Option Nat :=
  if t.hasRoom offset limit literal then t.matchAfter fold limit offset literal else none

/-- The offset before a literal, if the text has it up to an offset and after
`start`. -/
def regionMatchesBack (t : Target) (fold : Bool) (offset start : Nat) (literal : List Char) :
    Option Nat :=
  t.matchBefore fold start offset literal.reverse

/-- The offset after a copy of the text from `pos` up to `stop`, if the text has
one at an offset and before `limit`.  The two parts may overlap, and up to case
their lengths may differ. -/
def repeatsFrom (t : Target) (fold : Bool) (limit stop : Nat) (offset pos : Nat) : Option Nat :=
  if pos < stop then
    match _hp : t.charAfter pos stop with
    | some (expected, pos') =>
      match t.charAfter offset limit with
      | some (c, next) =>
        if Case.charsMatch fold c expected then repeatsFrom t fold limit stop next pos' else none
      | none => none
    | none => none
  else some offset
  termination_by stop - pos
  decreasing_by
    have := charAfter_bounds _hp
    omega

/-- The offset before a copy of the text from `first` up to `pos`, if the text
has one up to an offset and after `start`. -/
def repeatsUpTo (t : Target) (fold : Bool) (start first : Nat) (offset pos : Nat) : Option Nat :=
  if first < pos then
    match _hp : t.charBefore pos first with
    | some (expected, pos') =>
      match t.charBefore offset start with
      | some (c, prev) =>
        if Case.charsMatch fold c expected then repeatsUpTo t fold start first prev pos' else none
      | none => none
    | none => none
  else some offset
  termination_by pos
  decreasing_by
    have := charBefore_bounds _hp
    omega

/-- The offset after a copy of a region, if the text has one at an offset and
before `limit`. -/
def repeats (t : Target) (fold : Bool) (offset limit : Nat) (region : Span) : Option Nat :=
  t.repeatsFrom fold limit region.stop offset region.start

/-- The offset before a copy of a region, if the text has one up to an offset
and after `start`. -/
def repeatsBack (t : Target) (fold : Bool) (offset start : Nat) (region : Span) : Option Nat :=
  t.repeatsUpTo fold start region.start offset region.stop

theorem matchAfter_bounds {t : Target} {fold : Bool} {limit offset stop : Nat} {l : List Char}
    (h : t.matchAfter fold limit offset l = some stop) (hlim : offset ≤ limit) :
    offset ≤ stop ∧ stop ≤ limit := by
  induction l generalizing offset with
  | nil =>
    cases h
    omega
  | cons e es ih =>
    unfold matchAfter at h
    split at h
    · rename_i c next hc
      have := charAfter_bounds hc
      split at h
      · have := ih h (by omega)
        omega
      · simp at h
    · simp at h

theorem matchBefore_bounds {t : Target} {fold : Bool} {start offset stop : Nat} {l : List Char}
    (h : t.matchBefore fold start offset l = some stop) (hst : start ≤ offset) :
    start ≤ stop ∧ stop ≤ offset := by
  induction l generalizing offset with
  | nil =>
    cases h
    omega
  | cons e es ih =>
    unfold matchBefore at h
    split at h
    · rename_i c prev hc
      have := charBefore_bounds hc
      split at h
      · have := ih h (by omega)
        omega
      · simp at h
    · simp at h

theorem regionMatches_bounds {t : Target} {fold : Bool} {limit offset stop : Nat} {l : List Char}
    (h : t.regionMatches fold offset limit l = some stop) (hlim : offset ≤ limit) :
    offset ≤ stop ∧ stop ≤ limit := by
  unfold regionMatches at h
  split at h
  · exact matchAfter_bounds h hlim
  · simp at h

theorem regionMatchesBack_bounds {t : Target} {fold : Bool} {start offset stop : Nat}
    {l : List Char} (h : t.regionMatchesBack fold offset start l = some stop)
    (hst : start ≤ offset) : start ≤ stop ∧ stop ≤ offset :=
  matchBefore_bounds h hst

theorem repeatsFrom_bounds {t : Target} {fold : Bool} {limit stop offset pos r : Nat}
    (h : t.repeatsFrom fold limit stop offset pos = some r) (hlim : offset ≤ limit) :
    offset ≤ r ∧ r ≤ limit := by
  fun_induction repeatsFrom t fold limit stop offset pos with
  | case1 offset pos hlt expected pos' hp c next hc hm ih =>
    have := charAfter_bounds hc
    have := ih h (by omega)
    omega
  | case2 => simp at h
  | case3 => simp at h
  | case4 => simp at h
  | case5 =>
    cases h
    omega

theorem repeatsUpTo_bounds {t : Target} {fold : Bool} {start first offset pos r : Nat}
    (h : t.repeatsUpTo fold start first offset pos = some r) (hst : start ≤ offset) :
    start ≤ r ∧ r ≤ offset := by
  fun_induction repeatsUpTo t fold start first offset pos with
  | case1 offset pos hlt expected pos' hp c prev hc hm ih =>
    have := charBefore_bounds hc
    have := ih h (by omega)
    omega
  | case2 => simp at h
  | case3 => simp at h
  | case4 => simp at h
  | case5 =>
    cases h
    omega

end Target

end Regexp
