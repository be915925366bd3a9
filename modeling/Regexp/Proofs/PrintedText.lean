import Mathlib.Data.Bool.AllAny
import Regexp.Pattern.Printer
import Regexp.Proofs.CharRange
import Regexp.Proofs.Dialect
import Regexp.Proofs.Numeral

/-!
# Printed text that is read back

The text of a character, of a class, of an anchor, of a quantifier and of a
change of options is read as what it was printed for, whatever stands behind it.

These are the constructs without a pattern inside of them, so there is no
induction over patterns here, but each of them has its own way to go wrong.  A
character with a meaning is written after a backslash, and the escape has to
stand for the character and for nothing else under the options of the reader
(`Parser.Escapes`).  Not every dialect has every escape, and so each statement
is made under the condition that the escapes in the text are known
(`Parser.knowsEscape`, `Parser.knowsClass`), which can be evaluated.  A class
ends at its bracket, and a hyphen between the texts of two characters must be
the one of a range, while no hyphen or caret may be read that was meant as a
character (`Parser.startsRange_printClassChar`,
`Parser.startsRange_printRanges`).

A quantifier belongs to the construct before it, so one has to know for a
construct without one that what stands behind it begins with none, also behind
blanks if these are skipped.  `Parser.Settled` is this condition on the text
behind; it holds at the end of a sequence and where another construct begins
(`Parser.Opens`).

## Main definitions

* `Parser.knowsEscape` — whether a dialect has the escape that a text begins
  with.
* `Parser.Escapes` — what stands for a character after a backslash, and for
  nothing else.
* `Parser.Settled` — texts that a construct is not continued by.
* `Pattern.writtenClass` — the class that is written for another one.

## Main statements

* `Parser.consumes_printClass` — classes.
* `Parser.consumes_atom_printChar`, `Parser.consumes_atom_printAnchor` —
  characters and anchors.
* `Parser.scansTo_quantified` — quantifiers.
* `Parser.flags_printFlags` — changes of options.
-/

namespace Regexp.Pattern

/-- The class that is written for another one: the complement of the full class
for one without characters, which has no text of its own. -/
def writtenClass (set : CharSet) (negated : Bool) : CharSet × Bool :=
  if set.isEmpty then (.full, !negated) else (set, negated)

namespace Parser

variable {c d : Char} {e rest start : List Char} {o opts : Options} {ledger : Ledger}
  {group : GroupReader}

/-! ### Escapes -/

/-- The letters that stand for one character after a backslash in every dialect.
All others are known outside of XML Schema only. -/
def commonEscapes : List Char := 'n' :: 'r' :: 't' :: escapableChars

/-- Whether the escape that a text begins with, if it begins with one, is one of
the dialect. -/
def knowsEscape (xmlSchema : Bool) : List Char → Bool
  | '\\' :: d :: _ => !xmlSchema || commonEscapes.contains d
  | _ => true

theorem knowsEscape_false (s : List Char) : knowsEscape false s = true := by
  rw [knowsEscape.eq_def]
  split <;> rfl

/-- A known escape is read alike under all options.  So what is proved of
reading it without options holds under any. -/
theorem charEscape_of_known (h : knowsEscape o.xmlSchema ('\\' :: d :: e) = true)
    (start rest : List Char) :
    charEscape o start (d :: rest) = charEscape {} start (d :: rest) := by
  cases hX : o.xmlSchema with
  | false => simp only [charEscape, hX]
  | true =>
    have hd : d = 'n' ∨ d = 'r' ∨ d = 't' ∨ escapableChars.contains d = true := by
      simpa [knowsEscape, hX, commonEscapes] using h
    rcases hd with rfl | rfl | rfl | hd
    · rfl
    · rfl
    · rfl
    · simp only [charEscape, hd, if_true]

/-- Whether a letter after a backslash, with more text behind it, stands for a
character, and nothing else begins with the letter after a backslash. -/
structure Escapes (d : Char) (e : List Char) (c : Char) : Prop where
  classEscape_eq : ∀ o rest, classEscape o (d :: rest) = .ok none
  escapedAnchor_eq : escapedAnchor? d = none
  digit_eq : Scalar.digit? 10 d = none
  ne : d ≠ 'X' ∧ d ≠ 'g'
  consumes : ∀ o start rest, knowsEscape o.xmlSchema ('\\' :: d :: e) = true →
    Consumes (charEscape o start (d :: (e ++ rest))) c rest

/-- Letters that begin no escape for a class are no failure of the reader for
those, which finds nothing there. -/
theorem classEscape_eq_none (h : d.toLower ∉ ['d', 'w', 's', 'i', 'c', 'p']) (rest : List Char) :
    classEscape o (d :: rest) = .ok none := by
  have hclass : d.toLower ∉ ['d', 'w', 's', 'i', 'c'] ∧ d.toLower ≠ 'p' := by
    simpa [and_assoc] using h
  simp only [classEscape, List.contains_eq_mem, hclass.1, hclass.2, decide_false,
    Bool.false_eq_true, if_false, ite_self]

/-- ASCII punctuation characters stand for themselves. -/
theorem charEscape_punctuation (hpunctuation : Scalar.isAsciiPunctuation c = true)
    (h : c ∉ ['n', 'r', 't', 'f', 'e', 'x', 'u', 'v', 'c']) (start rest : List Char) :
    Consumes (charEscape {} start (c :: rest)) c rest := by
  have hone : charEscape {} start (c :: rest) = .ok (.one c) := by
    simp only [List.mem_cons, List.not_mem_nil, or_false, not_or] at h
    simp only [charEscape, h, hpunctuation, if_false, Bool.false_eq_true, Bool.true_or,
      if_true, ite_self]
  rw [hone]
  exact .one c rest

/-- Characters with a meaning stand for themselves after a backslash, those with
a meaning in classes only included. -/
theorem escapes_self (h : c ∈ '#' :: (specialChars ++ specialClassChars)) : Escapes c [] c := by
  have hall : ∀ c ∈ '#' :: (specialChars ++ specialClassChars),
      (c.toLower ∉ ['d', 'w', 's', 'i', 'c', 'p'] ∧ escapedAnchor? c = none ∧
        Scalar.digit? 10 c = none ∧ c ≠ 'X' ∧ c ≠ 'g') ∧
      Scalar.isAsciiPunctuation c = true ∧ c ∉ ['n', 'r', 't', 'f', 'e', 'x', 'u', 'v', 'c'] :=
    List.all_iff_forall_prop.mp (by decide)
  obtain ⟨⟨hclass, hanchor, hdigit, hne⟩, hpunctuation, hletter⟩ := hall c h
  refine ⟨fun o rest => classEscape_eq_none hclass rest, hanchor, hdigit, hne,
    fun o start rest hknown => ?_⟩
  rw [charEscape_of_known hknown]
  exact charEscape_punctuation hpunctuation hletter start rest

/-- The letters for control characters.  None of them begins an escape of
another kind. -/
theorem escapes_control (h : (d, c) ∈
    [('t', '\t'), ('n', '\n'), ('r', '\r'), ('f', '\x0C'), ('e', '\x1B')]) : Escapes d [] c := by
  simp only [List.mem_cons, Prod.mk.injEq, List.not_mem_nil, or_false] at h
  rcases h with ⟨rfl, rfl⟩ | ⟨rfl, rfl⟩ | ⟨rfl, rfl⟩ | ⟨rfl, rfl⟩ | ⟨rfl, rfl⟩ <;>
  · refine ⟨fun o rest => rfl, rfl, rfl, by decide, fun o start rest hknown => ?_⟩
    rw [charEscape_of_known hknown]
    exact .one _ rest

/-- The code point of a character, in hexadecimal digits between braces, stands
for the character.  This works for every character, and is used for those that
cannot be seen. -/
theorem escapes_codePoint (c : Char) :
    Escapes 'x' ('\x7b' :: (Numeral.hex c.toNat ++ ['\x7d'])) c := by
  refine ⟨fun o rest => rfl, rfl, rfl, by decide, fun o start rest hknown => ?_⟩
  have hread := (codePointChar_hex c start rest).behind (c := 'x')
  have htext : '\x7b' :: (Numeral.hex c.toNat ++ ['\x7d']) ++ rest =
      '\x7b' :: (Numeral.hex c.toNat ++ '\x7d' :: rest) := by simp
  rw [charEscape_of_known hknown, htext]
  simpa [charEscape, escapableChars] using hread

/-- A character is written as itself, unless it cannot be seen.  Then an escape
for it is written, and of all blanks only the space is left as it is. -/
theorem printPlain_cases (c : Char) :
    (printPlain c = [c] ∧ (c = ' ' ∨ Scalar.isBlank c = false)) ∨
      ∃ d e, printPlain c = '\\' :: d :: e ∧ Escapes d e c := by
  unfold printPlain
  split
  · exact .inr ⟨'t', [], rfl, escapes_control (by simp [*])⟩
  split
  · exact .inr ⟨'n', [], rfl, escapes_control (by simp [*])⟩
  split
  · exact .inr ⟨'r', [], rfl, escapes_control (by simp [*])⟩
  split
  · exact .inr ⟨'f', [], rfl, escapes_control (by simp [*])⟩
  split
  · exact .inr ⟨'e', [], rfl, escapes_control (by simp [*])⟩
  split
  · exact .inr ⟨'x', _, rfl, escapes_codePoint c⟩
  · rename_i hseen
    refine .inl ⟨rfl, ?_⟩
    simp only [Bool.or_eq_true, Bool.and_eq_true, decide_eq_true_iff, not_or, not_and,
      Classical.not_not, Bool.not_eq_true] at hseen
    cases hblank : Scalar.isBlank c with
    | false => exact .inr rfl
    | true => exact .inl (hseen.1.2 hblank)

/-- A character outside of classes is written as itself, unless it has a meaning
or cannot be seen. -/
theorem printChar_cases (opts : Options) (c : Char) :
    (printChar opts c = [c] ∧ c ∉ specialChars ∧
        (opts.extended = true → c ≠ '#' ∧ Scalar.isBlank c = false)) ∨
      ∃ d e, printChar opts c = '\\' :: d :: e ∧ Escapes d e c := by
  unfold printChar
  split
  · rename_i hspecial
    exact .inr ⟨c, [], rfl, escapes_self (by simp_all)⟩
  rename_i hspecial
  split
  · rename_i hsharp
    obtain ⟨rfl, -⟩ : c = '#' ∧ opts.extended = true := by simpa using hsharp
    exact .inr ⟨'#', [], rfl, escapes_self List.mem_cons_self⟩
  rename_i hsharp
  split
  · rename_i hblank
    obtain ⟨rfl, -⟩ : c = ' ' ∧ opts.extended = true := by simpa using hblank
    exact .inr ⟨'x', _, rfl, escapes_codePoint ' '⟩
  rename_i hblank
  rcases printPlain_cases c with ⟨hself, hseen⟩ | hescape
  · refine .inl ⟨hself, by simpa using hspecial, fun hX => ?_⟩
    simp only [hX, Bool.and_true, decide_eq_true_iff] at hsharp hblank
    exact ⟨hsharp, hseen.resolve_left hblank⟩
  · exact .inr hescape

/-- A character in a class is written as itself, unless it has a meaning there
or cannot be seen. -/
theorem printClassChar_cases (c : Char) :
    (printClassChar c = [c] ∧ c ∉ specialClassChars) ∨
      ∃ d e, printClassChar c = '\\' :: d :: e ∧ Escapes d e c := by
  unfold printClassChar
  split
  · rename_i hspecial
    exact .inr ⟨c, [], rfl, escapes_self (by simp_all)⟩
  · rename_i hspecial
    rcases printPlain_cases c with ⟨hself, -⟩ | hescape
    · exact .inl ⟨hself, by simpa using hspecial⟩
    · exact .inr hescape

/-! ### Classes -/

/-- The text of a character in a class begins with no mark, so that what is read
as a mark was written as one. -/
theorem printClassChar_head (c : Char) : ∃ h t, printClassChar c = h :: t ∧
    h ∉ ['-', '[', ']', '^', ','] := by
  rcases printClassChar_cases c with ⟨hself, hspecial⟩ | ⟨d, e, hescape, -⟩
  · refine ⟨c, [], hself, fun hmem => hspecial ?_⟩
    revert hmem
    simp only [specialClassChars, List.mem_cons, List.not_mem_nil, or_false]
    grind
  · exact ⟨'\\', d :: e, hescape, by decide⟩

/-- A hyphen and the text of a character go on a range.  A hyphen before a
bracket does not, and no text of a character begins with one. -/
theorem startsRange_printClassChar (c : Char) (rest : List Char) :
    startsRange ('-' :: (printClassChar c ++ rest)) = true := by
  obtain ⟨h, t, heq, hmark⟩ := printClassChar_head c
  rw [heq]
  simpa [startsRange] using ⟨fun h => hmark (by simp [h]), fun h => hmark (by simp [h])⟩

theorem printRange_head (r : CharRange) : ∃ h t, printRange r = h :: t ∧
    h ∉ ['-', '[', ']', '^', ','] := by
  obtain ⟨h, t, heq, hmark⟩ := printClassChar_head r.first
  unfold printRange
  split
  · exact ⟨h, t, heq, hmark⟩
  · exact ⟨h, _, by rw [heq]; rfl, hmark⟩

/-- A character in a class is read as itself, if its escape is known to the
dialect. -/
theorem consumes_classItem (hknown : knowsEscape o.xmlSchema (printClassChar c) = true)
    (rest : List Char) : Consumes (classItem o (printClassChar c ++ rest)) (.char c) rest := by
  rcases printClassChar_cases c with ⟨hself, hspecial⟩ | ⟨d, e, hescape, he⟩
  · have hc : c ≠ '\\' := fun hc => hspecial (by simp [hc, specialClassChars])
    have hone : classItem o (c :: rest) = .ok (.one (.char c)) := by
      rw [classItem]
      exact hc
    rw [hself, List.singleton_append, hone]
    exact .one _ rest
  · obtain ⟨hlt, hread⟩ := he.consumes o ('\\' :: d :: (e ++ rest)) rest (hescape ▸ hknown)
    have hitem : classItem o ('\\' :: d :: (e ++ rest)) =
        .ok (Consumed.map .char ⟨c, rest, hlt⟩).behind := by
      simp only [classItem, List.isEmpty_cons, he.classEscape_eq, Bool.false_eq_true, if_false]
      rw [hread]
      rfl
    rw [hescape, List.cons_append, List.cons_append, hitem]
    exact ⟨_, rfl⟩

/-- Behind a character in a class no range is begun by another range or by the
end. -/
theorem startsRange_printRanges (rs : List CharRange) (rest : List Char) :
    startsRange (rs.flatMap printRange ++ ']' :: rest) = false := by
  cases rs with
  | nil => rfl
  | cons r rs =>
    obtain ⟨h, t, heq, hmark⟩ := printRange_head r
    rw [List.flatMap_cons, heq]
    simp only [List.mem_cons, not_or] at hmark
    have hhyphen : h ≠ '-' := hmark.1
    cases t <;> simp [startsRange, hhyphen]

/-- Whether the escapes of the ends of a range are known, so that the dialect
can read the range. -/
def knowsEnds (xmlSchema : Bool) (r : CharRange) : Bool :=
  knowsEscape xmlSchema (printClassChar r.first) && knowsEscape xmlSchema (printClassChar r.last)

/-- A range in a class is read as itself.  A range of one character is written
without a hyphen, and must not be followed by a hyphen that goes on a range. -/
theorem consumes_classRange {r : CharRange} (hknown : knowsEnds o.xmlSchema r = true)
    (hrest : startsRange rest = false) :
    Consumes (classRange o (printRange r ++ rest)) (.ofRange r) rest := by
  obtain ⟨hfirst, hlast⟩ := Bool.and_eq_true_iff.mp hknown
  by_cases hone : r.first = r.last
  · have htext : printRange r = printClassChar r.first := if_pos hone
    obtain ⟨hlt, hread⟩ := consumes_classItem hfirst rest
    rw [htext, classRange, hread]
    have hset : CharSet.single r.first = .ofRange r := by
      obtain ⟨first, last, hle⟩ := r
      obtain rfl : first = last := hone
      rfl
    simp only [bind, Except.bind, hrest, Bool.false_eq_true, if_false, hset]
    exact ⟨hlt, rfl⟩
  · obtain ⟨hlt, hread⟩ := consumes_classItem hfirst ('-' :: (printClassChar r.last ++ rest))
    obtain ⟨hlt', hread'⟩ := consumes_classItem hlast rest
    have htext : printRange r ++ rest =
        printClassChar r.first ++ '-' :: (printClassChar r.last ++ rest) := by
      simp [printRange, hone]
    rw [htext, classRange, hread]
    simp only [bind, Except.bind, startsRange_printClassChar, hread', if_true]
    rw [if_neg (Char.not_lt.mpr r.first_le_last), CharRange.ofEnds_first_last]
    exact ⟨_, rfl⟩

/-- A range that begins with no mark is added to a class, and the reader goes on
behind it. -/
theorem classItems_of_unmarked (hmark : c ∉ ['-', '[', ']', '^', ',']) (s : List Char)
    (negated first : Bool) (set : CharSet) :
    classItems o start negated (c :: s) first set = (do
      let r ← classRange o (c :: s)
      let k ← classItems o start negated r.rest false (set.union r.value)
      .ok (k.after (Nat.le_of_lt r.lt))) := by
  simp only [List.mem_cons, List.not_mem_nil, or_false, not_or] at hmark
  obtain ⟨hhyphen, hopen, hclose, -, hcomma⟩ := hmark
  rw [classItems.eq_def]
  simp only [hhyphen, hopen, hclose, hcomma, decide_false, Bool.false_and, Bool.false_eq_true,
    if_false]

/-- **The ranges in a class are read one after the other.**  They are added to
the set that is there, and there have to be some unless others came before. -/
theorem consumes_classItems (start : List Char) (first negated : Bool) {rs : List CharRange}
    (hknown : ∀ r ∈ rs, knowsEnds o.xmlSchema r = true) (hrs : rs ≠ [] ∨ first = false)
    (set : CharSet) (rest : List Char) :
    Consumes (classItems o start negated (rs.flatMap printRange ++ ']' :: rest) first set)
      ⟨rs.foldl (fun t r => t.union (.ofRange r)) set, negated⟩ rest := by
  induction rs generalizing first set with
  | nil =>
    obtain rfl : first = false := hrs.resolve_left fun h => h rfl
    rw [List.flatMap_nil, List.nil_append, classItems.eq_def]
    exact ⟨_, rfl⟩
  | cons r rs ih =>
    obtain ⟨hr, hknown⟩ := List.forall_mem_cons.mp hknown
    obtain ⟨h, t, heq, hmark⟩ := printRange_head r
    have hread := consumes_classRange hr (startsRange_printRanges rs rest)
    rw [heq, List.cons_append] at hread
    obtain ⟨_, hread⟩ := hread
    obtain ⟨_, hmore⟩ := ih false hknown (.inr rfl) (set.union (.ofRange r))
    rw [List.flatMap_cons, heq, List.append_assoc, List.cons_append, classItems_of_unmarked hmark,
      hread]
    simp only [bind, Except.bind, hmore]
    exact ⟨_, rfl⟩

/-- Whether the escapes in the text of a class are known, those of the ends of
each range. -/
def knowsClass (xmlSchema : Bool) (set : CharSet) (negated : Bool) : Bool :=
  (writtenClass set negated).1.ranges.all (knowsEnds xmlSchema)

/-- The text of a class consists of the ranges of the class that is written for
it. -/
theorem printClass_append (set : CharSet) (negated : Bool) (rest : List Char) :
    printClass set negated ++ rest = '[' :: ((if (writtenClass set negated).2 then ['^'] else []) ++
      (writtenClass set negated).1.ranges.flatMap printRange) ++ ']' :: rest := by
  cases hempty : set.isEmpty <;> simp [printClass, writtenClass, hempty]

/-- The class that is written for another one has characters.  An empty one has
no text, and the full one, negated the other way, stands in for it. -/
theorem isEmpty_writtenClass (set : CharSet) (negated : Bool) :
    (writtenClass set negated).1.isEmpty = false := by
  unfold writtenClass
  split
  · rfl
  · simp_all

/-- A class is read from its items, which begin behind a caret if there is one. -/
theorem bracketClass_of_caret {body : List Char} {r : Scanned Bool body}
    (hcaret : afterCaret body = r) : bracketClass o (c :: body) =
      (classItems o (c :: body) r.value r.rest true .empty).map fun k =>
        (k.after (Nat.le_succ_of_le r.le) : Consumed BracketClass (c :: body)) := by
  subst hcaret
  cases hitems : classItems o (c :: body) (afterCaret body).value (afterCaret body).rest true
      .empty <;>
  · simp only [bracketClass, hitems]
    rfl

/-- The items of a class that is written are its ranges, with the caret in front
of them if it is negated. -/
theorem bracketClass_printClass (o : Options) (set : CharSet) (negated : Bool)
    (rest : List Char) : ∃ start h, bracketClass o (printClass set negated ++ rest) =
      (classItems o start (writtenClass set negated).2
        ((writtenClass set negated).1.ranges.flatMap printRange ++ ']' :: rest) true .empty).map
          fun k => k.after h := by
  rw [printClass_append]
  have hset := CharSet.ranges_ne_nil (isEmpty_writtenClass set negated)
  cases (writtenClass set negated).2 with
  | true => exact ⟨_, _, bracketClass_of_caret rfl⟩
  | false =>
    refine ⟨_, Nat.le_succ _, bracketClass_of_caret (r := .none false) ?_⟩
    cases hranges : (writtenClass set negated).1.ranges with
    | nil => exact absurd hranges hset
    | cons r rs =>
      obtain ⟨h, t, heq, hmark⟩ := printRange_head r
      have hcaret : h ≠ '^' := fun hh => hmark (by simp [hh])
      show afterCaret ((r :: rs).flatMap printRange ++ ']' :: rest) = _
      rw [List.flatMap_cons, heq]
      simp [afterCaret, hcaret]

/-- **A class is read as it is written.**  That need not be the class itself,
but is one with the same characters, `writtenClass`. -/
theorem consumes_printClass {set : CharSet} {negated : Bool}
    (hknown : knowsClass o.xmlSchema set negated = true) (rest : List Char) :
    Consumes (bracketClass o (printClass set negated ++ rest))
      ⟨(writtenClass set negated).1, (writtenClass set negated).2⟩ rest := by
  have hset := CharSet.ranges_ne_nil (isEmpty_writtenClass set negated)
  obtain ⟨start, h, hclass⟩ := bracketClass_printClass o set negated rest
  obtain ⟨_, hitems⟩ := consumes_classItems start true (writtenClass set negated).2
    (List.all_eq_true.mp hknown) (.inl hset) .empty rest
  rw [hclass, hitems, CharSet.foldl_union_ranges]
  exact ⟨_, rfl⟩

/-! ### Atoms -/

/-- In every dialect what stands after a backslash is read as a character.  This
holds also where the dialect does not know the escape. -/
theorem Escapes.atom_eq (h : Escapes d e c) (rest : List Char) :
    atom group o ledger ('\\' :: d :: (e ++ rest)) =
      (charEscape o ('\\' :: d :: (e ++ rest)) (d :: (e ++ rest))).map fun r =>
        (r.map fun d => (.char d, ledger)).behind := by
  show escape o ledger ('\\' :: d :: (e ++ rest)) = _
  simp only [escape, h.classEscape_eq, h.escapedAnchor_eq, h.digit_eq, h.ne.1, h.ne.2, if_false,
    ite_self, bind, Except.bind]

/-- A character after a backslash is read as itself, if the escape is known. -/
theorem Escapes.consumes_atom (h : Escapes d e c)
    (hknown : knowsEscape o.xmlSchema ('\\' :: d :: e) = true) (rest : List Char) :
    Consumes (atom group o ledger ('\\' :: d :: (e ++ rest))) (.char c, ledger) rest := by
  obtain ⟨hlt, hread⟩ := h.consumes o ('\\' :: d :: (e ++ rest)) rest hknown
  rw [h.atom_eq, hread]
  exact ⟨_, rfl⟩

/-- **A character is read as itself**, if its escape is known.  It may be
written under other options than it is read with. -/
theorem consumes_atom_printChar (hknown : knowsEscape o.xmlSchema (printChar opts c) = true)
    (rest : List Char) :
    Consumes (atom group o ledger (printChar opts c ++ rest)) (.char c, ledger) rest := by
  rcases printChar_cases opts c with ⟨hself, hspecial, -⟩ | ⟨d, e, hescape, he⟩
  · simp only [specialChars, List.mem_cons, List.not_mem_nil, or_false, not_or] at hspecial
    rw [hself, List.singleton_append, atom]
    simp only [startsQuantifier, hspecial]
    exact ⟨_, rfl⟩
  · rw [hescape] at hknown ⊢
    exact he.consumes_atom hknown rest

theorem consumes_atom_dot (hX : o.xmlSchema = false) (rest : List Char) :
    Consumes (atom group o ledger ('.' :: rest)) (.dot, ledger) rest := by
  have hone : atom group o ledger ('.' :: rest) = .ok (.one (.dot, ledger)) := by
    simp [atom, startsQuantifier, hX]
  rw [hone]
  exact .one _ rest

/-- **A class is read as it is written**, also where an atom is expected. -/
theorem consumes_atom_printClass {set : CharSet} {negated : Bool}
    (hknown : knowsClass o.xmlSchema set negated = true) (rest : List Char) :
    Consumes (atom group o ledger (printClass set negated ++ rest))
      (.charClass (writtenClass set negated).1 (writtenClass set negated).2, ledger) rest := by
  obtain ⟨hlt, hread⟩ := consumes_printClass hknown rest
  have hclass : atom group o ledger (printClass set negated ++ rest) =
      (bracketClass o (printClass set negated ++ rest)).map fun r =>
        r.map fun k => (.charClass k.set k.negated, ledger) := rfl
  rw [hclass, hread]
  exact ⟨_, rfl⟩

/-- **An anchor is read as itself**, except in XML Schema, which has none. -/
theorem consumes_atom_printAnchor (hX : o.xmlSchema = false) (a : Anchor) (rest : List Char) :
    Consumes (atom group o ledger (printAnchor a ++ rest)) (.anchor a, ledger) rest := by
  have hletter : ∀ d, d.toLower ∉ ['d', 'w', 's', 'i', 'c', 'p'] → escapedAnchor? d = some a →
      Consumes (atom group o ledger ('\\' :: d :: rest)) (.anchor a, ledger) rest := by
    intro d hclass hanchor
    show Consumes (escape o ledger ('\\' :: d :: rest)) _ _
    simp only [escape, classEscape_eq_none hclass, hanchor, hX, bind, Except.bind]
    exact ⟨_, rfl⟩
  cases a with
  | startLine | endLine =>
    simp only [printAnchor, List.cons_append, List.nil_append, atom, hX]
    exact ⟨_, rfl⟩
  | _ => exact hletter _ (by decide) rfl

/-- A reference to one of the first groups is read as itself, and the ledger
keeps it until the number of groups is known. -/
theorem consumes_atom_backref (group : GroupReader) (ledger : Ledger) (hX : o.xmlSchema = false)
    {n : Nat} (hn : n < 10) (rest : List Char) :
    ∃ s, Consumes (atom group o ledger ('\\' :: (Numeral.decimal n ++ rest)))
      (.backref n, ledger.refer n s) rest := by
  have hdigit := Numeral.digit?_upperDigit hn (by decide)
  obtain ⟨hclass, hanchor⟩ : (∀ rest, classEscape o (Numeral.upperDigit n :: rest) = .ok none) ∧
      escapedAnchor? (Numeral.upperDigit n) = none := by
    have hall : ∀ n < 10, (Numeral.upperDigit n).toLower ∉ ['d', 'w', 's', 'i', 'c', 'p'] ∧
        escapedAnchor? (Numeral.upperDigit n) = none := by decide
    exact ⟨fun rest => classEscape_eq_none (hall n hn).1 rest, (hall n hn).2⟩
  refine ⟨'\\' :: Numeral.upperDigit n :: rest, ?_⟩
  rw [Numeral.decimal_of_lt hn]
  show Consumes (escape o ledger ('\\' :: Numeral.upperDigit n :: rest)) _ _
  simp only [escape, hclass, hanchor, hdigit, hX, bind, Except.bind]
  exact ⟨_, rfl⟩

/-! ### What stands behind a construct -/

/-- Whether a text begins neither with a quantifier nor with what is skipped, so
that a construct before it ends there. -/
def Settled (o : Options) (s : List Char) : Prop :=
  skip o.extended s = s ∧ startsQuantifier s = false

/-- Whether a character can begin a construct: it is no quantifier, no bar and
no closing parenthesis, and where blanks are skipped it is not one of them. -/
def Opens (o : Options) (c : Char) : Prop :=
  c ∉ ['*', '+', '?', '\x7b', '|', ')'] ∧
    (o.extended = true → c ≠ '#' ∧ Scalar.isBlank c = false)

/-- Characters that are neither blank nor begin a comment are not skipped, and
without the option nothing is. -/
theorem skip_cons (h : o.extended = true → c ≠ '#' ∧ Scalar.isBlank c = false) (s : List Char) :
    skip o.extended (c :: s) = c :: s := by
  unfold skip
  split
  · obtain ⟨hsharp, hblank⟩ := h ‹_›
    simp [skipFrom, hsharp, hblank]
  · rfl

theorem Opens.settled (h : Opens o c) (s : List Char) : Settled o (c :: s) := by
  refine ⟨skip_cons h.2 s, ?_⟩
  have := h.1
  simp only [List.mem_cons, List.not_mem_nil, or_false, not_or] at this
  simp [startsQuantifier, this]

theorem Opens.continuesBranch (h : Opens o c) (s : List Char) :
    continuesBranch (c :: s) = true := by
  have := h.1
  simp only [List.mem_cons, List.not_mem_nil, or_false, not_or] at this
  simp [Parser.continuesBranch, this]

theorem Opens.mono {o' : Options} (h : Opens o c) (ho : o'.extended = true → o.extended = true) :
    Opens o' c := ⟨h.1, fun hX => h.2 (ho hX)⟩

theorem Settled.mono {o' : Options} {s : List Char} (h : Settled o s)
    (ho : o'.extended = true → o.extended = true) : Settled o' s := by
  refine ⟨?_, h.2⟩
  cases hX : o'.extended with
  | false => rfl
  | true => simpa [ho hX] using h.1

/-- The marks that end a sequence are neither skipped nor read as quantifiers,
whatever the options. -/
theorem settled_of_ends {s : List Char} (h : ∀ c ∈ s.head?, c = '|' ∨ c = ')') : Settled o s := by
  cases s with
  | nil => cases hX : o.extended <;> exact ⟨by simp [skip, skipFrom, hX], rfl⟩
  | cons c s =>
    rcases h c rfl with rfl | rfl
    · exact ⟨skip_cons (fun _ => by decide) s, rfl⟩
    · exact ⟨skip_cons (fun _ => by decide) s, rfl⟩

/-- Opening marks can begin a construct: they are no quantifiers, do not end a
sequence and are not skipped. -/
theorem opens_of_mem (h : c ∈ ['(', '[', '\\', '.', '^', '$']) : Opens o c := by
  have hall : ∀ c ∈ ['(', '[', '\\', '.', '^', '$'], c ∉ ['*', '+', '?', '\x7b', '|', ')'] ∧
      c ≠ '#' ∧ Scalar.isBlank c = false := List.all_iff_forall_prop.mp (by decide)
  exact ⟨(hall c h).1, fun _ => (hall c h).2⟩

/-- The text of a character can begin a construct. -/
theorem printChar_head (opts : Options) (c : Char) :
    ∃ h t, printChar opts c = h :: t ∧ Opens opts h := by
  rcases printChar_cases opts c with ⟨hself, hspecial, hskip⟩ | ⟨d, e, hescape, -⟩
  · refine ⟨c, [], hself, fun hmem => hspecial ?_, hskip⟩
    revert hmem
    simp only [specialChars, List.mem_cons, List.not_mem_nil, or_false]
    grind
  · exact ⟨'\\', d :: e, hescape, opens_of_mem (by decide)⟩

/-! ### Quantifiers -/

variable {min : Nat} {max : Option Nat} {greedy : Bool} {p : Pattern}

/-- Where no digit stands there is no count, and nothing is read. -/
theorem count_none (rest : List Char) (hrest : ∀ c ∈ rest.head?, c.isDigit = false) :
    ScansTo (count? rest) none rest := by
  have htake : rest.takeWhile Char.isDigit = [] := takeWhile_append (List.forall_mem_nil _) hrest
  rw [count?]
  simp only [htake]
  exact ⟨_, rfl⟩

/-- Whether a text begins with a quantifier, for these bounds and with this
rest. -/
def Quantifies (s : List Char) (v : Nat × Option Nat) (rest : List Char) : Prop :=
  ∃ h, quantifier? s = .ok (some ⟨v, rest, h⟩)

theorem Quantifies.of_bounds {s : List Char} {v : Nat × Option Nat}
    (h : Consumes (bounds ('\x7b' :: s) s) v rest) : Quantifies ('\x7b' :: s) v rest := by
  obtain ⟨_, h⟩ := h
  unfold Quantifies
  rw [quantifier?, h]
  exact ⟨_, rfl⟩

/-- One count in braces is the least and the greatest number of times. -/
theorem bounds_exact {n : Nat} (hn : n ≤ maxCount) (rest : List Char) :
    Consumes (bounds start (Numeral.decimal n ++ '\x7d' :: rest)) (n, some n) rest := by
  obtain ⟨_, hread⟩ := count_decimal ('\x7d' :: rest) hn (by simp)
  rw [bounds, hread]
  simp only [bind, Except.bind, Option.any_some, gt_iff_lt, Nat.lt_irrefl, decide_false,
    Bool.false_eq_true, if_false]
  exact ⟨_, rfl⟩

/-- A count in braces with a comma behind it is the least number of times, and
there is no greatest. -/
theorem bounds_from {n : Nat} (hn : n ≤ maxCount) (rest : List Char) :
    Consumes (bounds start (Numeral.decimal n ++ ',' :: '\x7d' :: rest)) (n, none) rest := by
  obtain ⟨_, hread⟩ := count_decimal (',' :: '\x7d' :: rest) hn (by simp)
  obtain ⟨_, hnone⟩ := count_none ('\x7d' :: rest) (by simp)
  rw [bounds, hread]
  simp only [bind, Except.bind, hnone]
  exact ⟨_, rfl⟩

/-- Two counts in braces, which have to be in order for the bounds to be
accepted. -/
theorem bounds_between {n m : Nat} (hn : n ≤ maxCount) (hm : m ≤ maxCount) (hle : n ≤ m)
    (rest : List Char) :
    Consumes (bounds start (Numeral.decimal n ++ ',' :: (Numeral.decimal m ++ '\x7d' :: rest)))
      (n, some m) rest := by
  obtain ⟨_, hread⟩ := count_decimal (',' :: (Numeral.decimal m ++ '\x7d' :: rest)) hn
    (by simp)
  obtain ⟨_, hread'⟩ := count_decimal ('\x7d' :: rest) hm (by simp)
  rw [bounds, hread]
  simp only [bind, Except.bind, hread', Option.any_some, gt_iff_lt, Nat.not_lt.mpr hle,
    decide_false, Bool.false_eq_true, if_false]
  exact ⟨_, rfl⟩

/-- **A quantifier is read as what it was written for.**  The bounds decide
which of its forms is written. -/
theorem quantifies_print (h : Bounds min max) (rest : List Char) :
    Quantifies (printQuantifier min max true ++ rest) (min, max) rest := by
  unfold printQuantifier
  split
  · exact ⟨Nat.lt_succ_self _, rfl⟩
  · exact ⟨Nat.lt_succ_self _, rfl⟩
  · exact ⟨Nat.lt_succ_self _, rfl⟩
  · simpa using Quantifies.of_bounds (bounds_from h.min_le rest)
  · rename_i m _
    by_cases heq : min = m
    · subst heq
      simpa using Quantifies.of_bounds (bounds_exact h.min_le rest)
    · simpa [heq] using
        Quantifies.of_bounds (bounds_between h.min_le (h.max_le m rfl) (h.ordered m rfl) rest)

/-- A quantifier is not skipped, as it begins with a mark that is neither blank
nor begins a comment. -/
theorem skip_printQuantifier (o : Options) (rest : List Char) :
    skip o.extended (printQuantifier min max greedy ++ rest) =
      printQuantifier min max greedy ++ rest := by
  obtain ⟨c, t, htext, hc⟩ : ∃ c t, printQuantifier min max greedy = c :: t ∧
      c ∈ ['*', '+', '?', '\x7b'] := by
    unfold printQuantifier
    split
    · exact ⟨'*', _, rfl, by decide⟩
    · exact ⟨'+', _, rfl, by decide⟩
    · exact ⟨'?', _, rfl, by decide⟩
    · exact ⟨'\x7b', _, rfl, by decide⟩
    · simp only
      split <;> exact ⟨'\x7b', _, rfl, by decide⟩
  have hall : ∀ c ∈ ['*', '+', '?', '\x7b'], c ≠ '#' ∧ Scalar.isBlank c = false :=
    List.all_iff_forall_prop.mp (by decide)
  rw [htext]
  exact skip_cons (fun _ => hall c hc) _

/-- **A quantifier belongs to the construct before it.**  What follows must not
be a quantifier, and a reluctant one is not known to XML Schema. -/
theorem scansTo_quantified (hX : o.xmlSchema = true → greedy = true) (h : Bounds min max)
    (hrest : Settled o rest) :
    ScansTo (quantified o p (printQuantifier min max greedy ++ rest))
      (.repetition p min max greedy) rest := by
  obtain ⟨hskip, hstarts⟩ := hrest
  cases greedy with
  | true =>
    have hread := quantifies_print h rest
    rw [← skip_printQuantifier o] at hread
    obtain ⟨hlt, hread⟩ := hread
    rw [quantified, hread]
    simp only [bind, Except.bind]
    split
    · cases hstarts
    · simp only [hskip, hstarts, Bool.false_eq_true, if_false]
      exact ⟨_, rfl⟩
  | false =>
    have htext : printQuantifier min max false ++ rest =
        printQuantifier min max true ++ '?' :: rest := by
      simp [printQuantifier]
    have hread := quantifies_print h ('?' :: rest)
    rw [← skip_printQuantifier o] at hread
    obtain ⟨hlt, hread⟩ := hread
    have hplain : o.xmlSchema = false := Bool.eq_false_iff.mpr fun h => Bool.noConfusion (hX h)
    rw [htext, quantified, hread]
    simp only [bind, Except.bind, hplain, hskip, hstarts, Bool.false_eq_true, if_false]
    exact ⟨_, rfl⟩

/-- Without a quantifier behind what is skipped, a construct stays as it is, but
the blanks and comments behind it are gone. -/
theorem scansTo_unquantified_skip (hrest : startsQuantifier (skip o.extended rest) = false) :
    ScansTo (quantified o p rest) p (skip o.extended rest) := by
  have hnone : quantifier? (skip o.extended rest) = .ok none := by
    cases hskip : skip o.extended rest with
    | nil => rfl
    | cons c t =>
      rw [hskip] at hrest
      simp only [startsQuantifier, Bool.or_eq_false_iff, decide_eq_false_iff_not] at hrest
      simp [quantifier?, hrest]
  rw [quantified, hnone]
  exact ⟨_, rfl⟩

theorem scansTo_unquantified (hrest : Settled o rest) : ScansTo (quantified o p rest) p rest := by
  obtain ⟨hskip, hstarts⟩ := hrest
  have hread : ScansTo (quantified o p rest) p (skip o.extended rest) :=
    scansTo_unquantified_skip (by rwa [hskip])
  rwa [hskip] at hread

/-! ### Changes of options -/

/-- Whether there are no options that only hold for a whole pattern.  A group
cannot name these, so they are neither printed nor read. -/
structure IsLocal (o : Options) : Prop where
  noLiteralScan : o.noLiteralScan = false
  noFirstChars : o.noFirstChars = false
  xmlSchema : o.xmlSchema = false
  commaSeparates : o.commaSeparates = false

variable {add remove : Options}

theorem IsLocal.mem_groupFlags (h : IsLocal o) : ∀ c ∈ o.letterList, c ∈ groupFlags := by
  obtain ⟨i, m, s, x, u, w, F, H, X, comma⟩ := o
  obtain ⟨rfl, rfl, rfl, rfl⟩ := h
  refine List.all_iff_forall_prop.mp ?_
  cases i <;> cases m <;> cases s <;> cases x <;> cases u <;> cases w <;> decide

/-- Options that a group may change are what their letters name.  So a group
that is given their letters changes them, and no others. -/
theorem IsLocal.parseLetters_eq (h : IsLocal o) :
    Options.parseLetters o.letterList .empty = .ok o := by
  obtain ⟨i, m, s, x, u, w, F, H, X, comma⟩ := o
  obtain ⟨rfl, rfl, rfl, rfl⟩ := h
  cases i <;> cases m <;> cases s <;> cases x <;> cases u <;> cases w <;> rfl

/-- Options without letters are none, as far as a group may change them. -/
theorem IsLocal.eq_empty (h : IsLocal o) (hnil : o.letterList = []) : o = .empty := by
  have heq := h.parseLetters_eq
  rw [hnil] at heq
  exact (Except.ok.inj heq).symm

/-- The text of a change of options consists of letters, and of others behind a
hyphen. -/
theorem printFlags_eq (add remove : Options) : printFlags add remove =
    optionLetters add.letterList (if remove.isEmpty then none else some remove.letterList) := by
  unfold printFlags optionLetters
  split <;> rfl

/-- The text of a change of options begins with a letter or a hyphen, so a group
with such a change is not taken for another kind of group. -/
theorem printFlags_head (hadd : IsLocal add) (hne : add ≠ .empty ∨ remove ≠ .empty) :
    ∃ c t, printFlags add remove = c :: t ∧ (c = '-' ∨ c ∈ groupFlags) := by
  rw [printFlags]
  cases hletters : add.letterList with
  | cons c t =>
    exact ⟨c, _, rfl, .inr (hadd.mem_groupFlags c (by rw [hletters]; exact List.mem_cons_self))⟩
  | nil =>
    have hremove := hne.resolve_left fun h => h (hadd.eq_empty hletters)
    exact ⟨'-', remove.letterList, by simp [Options.isEmpty, hremove], .inl rfl⟩

/-- **A change of options is read as it is written.** -/
theorem flags_printFlags (hadd : IsLocal add) (hremove : IsLocal remove) (rest : List Char) :
    Consumes (flags (printFlags add remove ++ ':' :: rest) {} false) ⟨add, remove, true⟩ rest := by
  have hletters : ∀ c ∈ add.letterList ++
      (if remove.isEmpty then none else some remove.letterList).getD [], c ∈ groupFlags := by
    intro c hc
    rcases List.mem_append.mp hc with hc | hc
    · exact hadd.mem_groupFlags c hc
    · split at hc
      · cases hc
      · exact hremove.mem_groupFlags c hc
  have hclear : Options.parseLetters
      ((if remove.isEmpty then none else some remove.letterList).getD []) .empty = .ok remove := by
    split
    · rename_i hempty
      obtain rfl : remove = .empty := by simpa [Options.isEmpty] using hempty
      rfl
    · exact hremove.parseLetters_eq
  rw [printFlags_eq]
  exact flags_consumes hletters hadd.parseLetters_eq hclear (.inl rfl) rest

end Parser

end Regexp.Pattern
