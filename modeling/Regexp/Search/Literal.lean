import Regexp.Target

/-!
# Literal search

The leftmost occurrence of a literal in a span.  A text that is stored as UTF-8
is searched byte by byte, unless case does not matter: the encoding keeps
characters apart, so an occurrence of the bytes is one of the characters.
Otherwise a window of as many characters as the literal has moves over the text,
by as much as its last character allows.

## The table of shifts

The table has one entry for each of 256 buckets of characters; characters that
are equal without regard to case share one, because the bucket is that of the
representative (`Literal.bucket`).  An entry is the distance from the last
character of that bucket to the end of the literal, where the end itself does
not count.  Several characters in a bucket only make the entry smaller, so a
window never moves too far.

Every entry is at least one.  This is a field of `Literal` and is shown where
the table is made (`Literal.addShifts_pos`): all characters that get an entry
have one behind them, and the entry at the beginning is at least one even for
the empty literal.  The loop over the windows needs nothing else to end, and
`Literal.shift_pos` is all that it uses.

## Windows

The offsets of a window are those of the text, not counts of characters, so
moving it by some number of characters means reading them (`Literal.advance`).
Both ends of the window move in this way, and there is no further window when
the end cannot.

## Main definitions

* `Literal`, `Literal.ofChars` — a literal with its table of shifts.
* `Literal.firstBytes?`, `Literal.findBytes?` — the search by bytes.
* `Literal.findWindow?`, `Literal.findChars?` — the search by windows.
* `Literal.find?` — the leftmost occurrence of a literal.
-/

namespace Regexp

/-- The number of buckets that the table of shifts has entries for.  Code points
that differ by a multiple of it share one. -/
def Literal.bucketCount : Nat := 256

/-- A literal to search for.  The table of shifts has an entry for each bucket,
and no entry keeps a window where it is. -/
structure Literal where
  chars : List Char
  /-- Whether case does not matter. -/
  fold : Bool
  /-- How far a window may move for each bucket that its last character can be
  in. -/
  shifts : Vector Nat Literal.bucketCount
  shifts_pos : ∀ b : Fin Literal.bucketCount, 0 < shifts[b]

namespace Literal

/-- The bucket of a character.  If case does not matter it is that of the
representative, so that characters which are the same up to case are in one
bucket. -/
def bucket (fold : Bool) (c : Char) : Fin bucketCount :=
  ⟨(if fold then Case.foldKey c else c).toNat % bucketCount, Nat.mod_lt _ (by decide)⟩

/-- The table of shifts with the entries for further characters of a literal,
where the last character of the literal gets none.  A later character takes the
place of an earlier one in its bucket, and is closer to the end. -/
def addShifts (fold : Bool) (shifts : Vector Nat bucketCount) :
    List Char → Vector Nat bucketCount
  | [] | [_] => shifts
  | c :: d :: rest =>
    addShifts fold (shifts.set (bucket fold c) (d :: rest).length (bucket fold c).isLt)
      (d :: rest)

/-- Every character but the last one is at least one character before the end of
the literal. -/
theorem addShifts_pos {fold : Bool} {shifts : Vector Nat bucketCount} {chars : List Char}
    (h : ∀ b : Fin bucketCount, 0 < shifts[b]) (b : Fin bucketCount) :
    0 < (addShifts fold shifts chars)[b] := by
  fun_induction addShifts fold shifts chars with
  | case1 | case2 => exact h b
  | case3 shifts c d rest ih =>
    refine ih fun b' => ?_
    rw [Fin.getElem_fin, Vector.getElem_set]
    split
    · exact Nat.succ_pos _
    · exact h b'

/-- A literal with its table.  Buckets without characters of the literal let the
window move behind its last character. -/
def ofChars (chars : List Char) (fold : Bool) : Literal where
  chars := chars
  fold := fold
  shifts := addShifts fold (.replicate bucketCount (max chars.length 1)) chars
  shifts_pos := addShifts_pos fun b => by
    rw [Fin.getElem_fin, Vector.getElem_replicate]
    exact Nat.le_max_right _ _

/-- How far a window may move whose last character is `c`.  Every bucket has an
entry. -/
def shift (l : Literal) (c : Char) : Nat := l.shifts[bucket l.fold c]

/-- A window that is moved does not stay where it is, since all entries of the
table are positive. -/
theorem shift_pos (l : Literal) (c : Char) : 0 < l.shift c := l.shifts_pos _

/-! ### Search by bytes -/

/-- The bytes of a literal, as they stand in a text that is stored as UTF-8. -/
def bytes (l : Literal) : List UInt8 := (String.ofList l.chars).toUTF8.toList

/-- Whether bytes stand at an offset of a text, which may end before they do. -/
def bytesAt (text : ByteArray) (offset : Nat) : List UInt8 → Bool
  | [] => true
  | b :: bs => text[offset]? = some b && bytesAt text (offset + 1) bs

/-- The first of `n` offsets at which bytes stand.  All offsets are tried in
order, also those inside of characters. -/
def firstBytes? (text : ByteArray) (needle : List UInt8) : (n offset : Nat) → Option Nat
  | 0, _ => none
  | n + 1, offset =>
    if bytesAt text offset needle then some offset else firstBytes? text needle n (offset + 1)

/-- The leftmost occurrence in a span of a text that is stored as UTF-8.  Its
end is told by the number of bytes of the literal. -/
def findBytes? (l : Literal) (text : ByteArray) (span : Span) : Option Span :=
  let needle := l.bytes
  (firstBytes? text needle (span.stop + 1 - span.start - needle.length) span.start).map
    fun i => ⟨i, i + needle.length⟩

/-! ### Search by windows -/

/-- The offset so many characters further, if there are so many before the
limit. -/
def advance (t : Target) (limit : Nat) : (count offset : Nat) → Option Nat
  | 0, offset => some offset
  | n + 1, offset =>
    match t.charAfter offset limit with
    | some (_, next) => advance t limit n next
    | none => none

theorem advance_bounds {t : Target} {limit count offset offset' : Nat}
    (h : advance t limit count offset = some offset') (hc : 0 < count) :
    offset < offset' ∧ offset' ≤ limit := by
  induction count generalizing offset with
  | zero => omega
  | succ n ih =>
    simp only [advance] at h
    split at h
    · rename_i c next hn
      have := Target.charAfter_bounds hn
      rcases Nat.eq_zero_or_pos n with rfl | hpos
      · cases h
        omega
      · have := ih h hpos
        omega
    · simp at h

/-- The leftmost occurrence from the window between two offsets on, where `last`
is the last character of the literal. -/
def findWindow? (l : Literal) (t : Target) (limit : Nat) (last : Char) (start stop : Nat) :
    Option Span :=
  match t.charBefore stop start with
  | none => none
  | some (c, _) =>
    if Case.charsMatch l.fold c last && (t.regionMatchesBack l.fold stop start l.chars).isSome then
      some ⟨start, stop⟩
    else
      match _hs : advance t limit (l.shift c) stop with
      | none => none
      | some stop' =>
        match advance t limit (l.shift c) start with
        | none => none
        | some start' => findWindow? l t limit last start' stop'
  termination_by limit - stop
  decreasing_by
    have := advance_bounds _hs (l.shift_pos c)
    omega

/-- The leftmost occurrence in a span of any text.  A window as long as the
literal is moved over it by the table of shifts. -/
def findChars? (l : Literal) (t : Target) (span : Span) : Option Span :=
  match l.chars.getLast? with
  | none => some ⟨span.start, span.start⟩
  | some last =>
    match advance t span.stop l.chars.length span.start with
    | none => none
    | some stop => l.findWindow? t span.stop last span.start stop

/-- The leftmost occurrence of a literal in a span.  By bytes it is looked for
only where case counts, in texts that are stored as UTF-8. -/
def find? (l : Literal) (t : Target) (span : Span) : Option Span :=
  match l.fold, t.utf8? with
  | false, some text => l.findBytes? text span
  | _, _ => l.findChars? t span

end Literal

end Regexp
