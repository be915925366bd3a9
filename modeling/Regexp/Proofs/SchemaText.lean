import Mathlib
import Regexp.Proofs.Likeness
import Regexp.Proofs.SchemaSearch

/-!
# Printed text in the dialect of XML Schema

Patterns are printed in the same way for every dialect, but the dialect of XML
Schema has few of the escapes for characters.  A printed pattern is read again
exactly if it needs none of the others: reading fails at the first escape that
the dialect does not have.  The dollar sign is the simplest example, a character
like any other in this dialect that is written with a backslash which it does
not know (`Pattern.not_parse_print_dollar`).

That a writable pattern is read again has been shown for all dialects
(`Pattern.parse_print_of_writable`).  This module shows that the others are not.
What stands before the first unknown escape is writable, and is read as it
should be, so that the reader does come to the escape; there it fails, and
failures only have to be carried outwards.  Hence nothing is asked of the text
behind the pattern, and `Parser.Refuses`, the counterpart of `Parser.Rereads`,
has fewer conditions.  `Parser.Fails` is not about why a reader fails: the same
text may be refused for different reasons, depending on what surrounds it.

A repetition of something that is no atom is written with a group that the
dialect does not have, so it is not writable either.

## Main definitions

* `Parser.Fails` — readers that give no value.
* `Parser.Refuses` — whether the text of a pattern is not read, in its place.

## Main statements

* `Parser.charEscape_fails`, `Parser.classItems_fails` — unknown escapes,
  outside and inside of classes.
* `Parser.refuses_of_written` — the text of a pattern that is not of the dialect
  is not read.
* `Pattern.parse_print_iff_isWritable` — whether the text of a pattern that was
  read in the dialect is read again.
-/

namespace Regexp.Pattern

namespace Parser

variable {opts o : Options} {ledger l : Ledger} {limit budget : ℕ} {c d : Char}
  {e s t rest start : List Char} {p : Pattern} {ps items : List Pattern} {group : GroupReader}

/-! ### Failures -/

/-- Whether a reader gives no value, for whatever reason.  The dialect refuses
with several errors. -/
def Fails {α : Type} (x : Except Failure α) : Prop := Yields (fun _ => False) x

namespace Fails

variable {α β : Type} {x : Except Failure α}

theorem fail (cause : ParseError.Cause) (s : List Char) :
    Fails (Parser.fail cause s : Except Failure α) := .error

/-- What goes on with the value of a reader fails with it. -/
theorem bind (h : Fails x) (f : α → Except Failure β) : Fails (x >>= f) :=
  Yields.bind h fun _ hfalse => hfalse.elim

theorem map (h : Fails x) (f : α → β) : Fails (x.map f) :=
  Yields.map h fun _ hfalse => hfalse

theorem comesTo {x : Scans α s} {y : Scans α t} (h : ComesTo x y) (hy : Fails y) : Fails x := by
  obtain ⟨_, rfl⟩ := h
  exact hy.map _

end Fails

/-! ### Escapes -/

/-- An escape that the dialect does not have stands for nothing, whatever stands
behind it. -/
theorem charEscape_fails (h : knowsEscape o.xmlSchema ('\\' :: d :: e) = false)
    (start rest : List Char) : Fails (charEscape o start (d :: rest)) := by
  have hunknown : o.xmlSchema = true ∧ d ≠ 'n' ∧ d ≠ 'r' ∧ d ≠ 't' ∧
      escapableChars.contains d = false := by
    simpa [knowsEscape, commonEscapes] using h
  obtain ⟨hX, hn, hr, ht, hd⟩ := hunknown
  simp only [charEscape, hX, hn, hr, ht, hd, if_false, if_true, Bool.false_eq_true]
  exact .fail _ _

/-- Only an escape can be unknown. -/
theorem knowsEscape_singleton (xmlSchema : Bool) (c : Char) : knowsEscape xmlSchema [c] = true := by
  rw [knowsEscape.eq_def]
  split
  · rename_i heq
    cases heq
  · rfl

theorem atom_printChar_fails (h : knowsEscape o.xmlSchema (printChar opts c) = false)
    (rest : List Char) : Fails (atom group o ledger (printChar opts c ++ rest)) := by
  rcases printChar_cases opts c with ⟨hself, -⟩ | ⟨d, e, hescape, he⟩
  · rw [hself, knowsEscape_singleton] at h
    cases h
  · rw [hescape] at h ⊢
    rw [List.cons_append, List.cons_append, he.atom_eq]
    exact (charEscape_fails h _ _).map _

/-! ### Classes -/

theorem classItem_fails (h : knowsEscape o.xmlSchema (printClassChar c) = false)
    (rest : List Char) : Fails (classItem o (printClassChar c ++ rest)) := by
  rcases printClassChar_cases c with ⟨hself, -⟩ | ⟨d, e, hescape, he⟩
  · rw [hself, knowsEscape_singleton] at h
    cases h
  · rw [hescape] at h ⊢
    simp only [List.cons_append, classItem, List.isEmpty_cons, he.classEscape_eq,
      Bool.false_eq_true, if_false]
    exact (charEscape_fails h _ _).bind _

/-- A range is not read if one of its ends is not. -/
theorem classRange_fails {r : CharRange} (h : knowsEnds o.xmlSchema r = false) (rest : List Char) :
    Fails (classRange o (printRange r ++ rest)) := by
  by_cases hfirst : knowsEscape o.xmlSchema (printClassChar r.first) = true
  · have hlast : knowsEscape o.xmlSchema (printClassChar r.last) = false := by
      simpa [knowsEnds, hfirst] using h
    have hne : r.first ≠ r.last := by
      intro heq
      rw [← heq, hfirst] at hlast
      cases hlast
    obtain ⟨hlt, hread⟩ := consumes_classItem hfirst ('-' :: (printClassChar r.last ++ rest))
    have htext : printRange r ++ rest =
        printClassChar r.first ++ '-' :: (printClassChar r.last ++ rest) := by
      simp [printRange, hne]
    rw [htext, classRange, hread]
    simp only [bind, Except.bind, startsRange_printClassChar, if_true]
    exact (classItem_fails hlast rest).bind _
  · obtain ⟨more, htext⟩ : ∃ more, printRange r ++ rest = printClassChar r.first ++ more := by
      unfold printRange
      split
      · exact ⟨rest, rfl⟩
      · exact ⟨'-' :: (printClassChar r.last ++ rest), by simp⟩
    rw [htext, classRange]
    exact (classItem_fails (by simpa using hfirst) more).bind _

/-- The ranges in a class are not read if one of them is not, at whatever place
it stands. -/
theorem classItems_fails (start : List Char) (first negated : Bool) {rs : List CharRange}
    (h : rs.all (knowsEnds o.xmlSchema) = false) (set : CharSet) (rest : List Char) :
    Fails (classItems o start negated (rs.flatMap printRange ++ ']' :: rest) first set) := by
  induction rs generalizing first set with
  | nil => cases h
  | cons r rs ih =>
    obtain ⟨a, t, heq, hmark⟩ := printRange_head r
    rw [List.flatMap_cons, List.append_assoc]
    by_cases hr : knowsEnds o.xmlSchema r = true
    · have hread := consumes_classRange hr (startsRange_printRanges rs rest)
      rw [heq, List.cons_append] at hread ⊢
      obtain ⟨_, hread⟩ := hread
      rw [classItems_of_unmarked hmark, hread]
      exact (ih false (by simpa [hr] using h) (set.union (.ofRange r))).bind _
    · have hread := classRange_fails (by simpa using hr) (rs.flatMap printRange ++ ']' :: rest)
      rw [heq, List.cons_append] at hread ⊢
      rw [classItems_of_unmarked hmark]
      exact hread.bind _

theorem atom_printClass_fails {set : CharSet} {negated : Bool}
    (h : knowsClass o.xmlSchema set negated = false) (rest : List Char) :
    Fails (atom group o ledger (printClass set negated ++ rest)) := by
  have hclass : atom group o ledger (printClass set negated ++ rest) =
      (bracketClass o (printClass set negated ++ rest)).map fun r =>
        r.map fun k => (.charClass k.set k.negated, ledger) := rfl
  obtain ⟨start, hle, hitems⟩ := bracketClass_printClass o set negated rest
  rw [hclass, hitems]
  exact ((classItems_fails start true _ h .empty rest).map _).map _

/-! ### Patterns in their places -/

/-- Whether the text of a pattern is not read where a pattern of a rank is
expected, whatever stands behind it.  It is the counterpart of `Rereads`, with
which each pattern of the dialect is decided one way or the other. -/
def Refuses (opts : Options) (p : Pattern) : Rank → Prop
  | .atom => ∀ o ledger limit budget rest,
    Fits opts o ledger budget (printChars opts p) p.groupIndices →
    Fails (atom (groupWithin limit budget) o ledger (printChars opts p ++ rest))
  | .item => ∀ o ledger limit budget rest,
    Fits opts o ledger budget (printChars opts p) p.groupIndices → ∀ items,
    Fails (branchItems (groupWithin limit budget) o ledger (printChars opts p ++ rest) items)
  | .branch => ∀ o ledger limit budget rest,
    Fits opts o ledger budget (printChars opts p) p.groupIndices →
    Fails (branch (groupWithin limit budget) o ledger (printChars opts p ++ rest))
  | .contents => ∀ o ledger limit budget rest,
    Fits opts o ledger budget (printChars opts p) p.groupIndices →
    Fails (alternation (groupWithin limit budget) o ledger (printChars opts p ++ rest))

/-- A sequence is not read if its first construct is not.  Those before it have
been read by then. -/
theorem branchItems_fails (hc : Opens o c) (h : Fails (atom group o ledger (c :: s)))
    (items : List Pattern) : Fails (branchItems group o ledger (c :: s) items) := by
  have hskip := (hc.settled s).1
  have hcontinues : continuesBranch (skip o.extended (c :: s)) = true := by
    rw [hskip]
    exact hc.continuesBranch s
  rw [← hskip] at h
  rw [branchItems.eq_def]
  simp only [hcontinues, if_true]
  exact h.bind _

theorem refuses_ofAtom (hp : Written PlainChange .atom p) (h : Refuses opts p .atom) :
    Refuses opts p .item := by
  intro o ledger limit budget rest hfits items
  have hatom := h o ledger limit budget rest hfits
  obtain ⟨c, t, htext, hc, -⟩ : Leads opts (printChars opts p) := begins_of_written opts hp
  rw [htext] at hatom ⊢
  exact branchItems_fails (hc.mono hfits.extended) hatom items

/-- The characters of a string are read up to the first unknown one. -/
theorem chars_fails (hextended : o.extended = true → opts.extended = true) {cs : List Char}
    (h : (cs.all fun c => knowsEscape o.xmlSchema (printChar opts c)) = false) (rest : List Char)
    (items : List Pattern) :
    Fails (branchItems group o ledger (cs.flatMap (printChar opts) ++ rest) items) := by
  induction cs generalizing items with
  | nil => cases h
  | cons c cs ih =>
    cases hc : knowsEscape o.xmlSchema (printChar opts c) with
    | true =>
      replace h : (cs.all fun c => knowsEscape o.xmlSchema (printChar opts c)) = false := by
        simpa [hc] using h
      have hnext : Settled o (cs.flatMap (printChar opts) ++ rest) :=
        settled_chars hextended cs (by rintro rfl; cases h)
      have hcomes : ComesTo (branchItems group o ledger ([c].flatMap (printChar opts) ++
          (cs.flatMap (printChar opts) ++ rest)) items) _ :=
        comesTo_chars hextended (List.forall_mem_singleton.mpr hc) hnext items
      rw [List.flatMap_singleton] at hcomes
      rw [List.flatMap_cons, List.append_assoc]
      exact .comesTo hcomes (ih h _)
    | false =>
      have hatom : Fails (atom group o ledger
          (printChar opts c ++ (cs.flatMap (printChar opts) ++ rest))) :=
        atom_printChar_fails hc _
      obtain ⟨d, t, htext, hd⟩ := printChar_head opts c
      rw [List.flatMap_cons, List.append_assoc]
      rw [htext] at hatom ⊢
      exact branchItems_fails (hd.mono hextended) hatom items

theorem refuses_string {cs : List Char} (hw : (string cs).isWritable opts = false) :
    Refuses opts (.string cs) .item := by
  intro o ledger limit budget rest hfits items
  refine chars_fails hfits.extended ?_ rest items
  rw [hfits.xmlSchema]
  exact hw

/-! ### Groups -/

theorem atom_group_fails
    (h : Fails (groupBody (groupWithin limit budget) o ledger ('(' :: s) s)) :
    Fails (atom (groupWithin limit (budget + 1)) o ledger ('(' :: s)) := by
  show Fails (Parser.group (groupWithin limit budget) o ledger ('(' :: s))
  rw [Parser.group]
  exact h.bind _

/-- A group that captures is not read if its contents are not. -/
theorem refuses_capture {i : ℕ} (hp : Written PlainChange .contents p)
    (h : Refuses opts p .contents) : Refuses opts (.group (some i) p) .atom := by
  intro o ledger limit budget rest hfits
  obtain ⟨-, hfollow⟩ : i = ledger.groups + 1 ∧ Follow (ledger.groups + 1) p.groupIndices :=
    hfits.follow.of_cons
  obtain ⟨budget, rfl, hinner⟩ := hfits.inner (t := printChars opts p) (by
    simp only [printChars, List.length_append, List.length_cons, List.length_nil]
    omega)
  have hcontents := h o { ledger with groups := ledger.groups + 1 } limit budget (')' :: rest)
    { hinner with follow := hfollow }
  have htext : printChars opts (.group (some i) p) ++ rest =
      '(' :: (printChars opts p ++ ')' :: rest) := by simp [printChars]
  rw [htext]
  refine atom_group_fails ?_
  rw [groupBody]
  · exact hcontents.bind _
  · intro t ht
    have hmark := (begins_of_written opts hp).ne_mark (t := ')' :: rest) (by simp)
    exact hmark '?' (by rw [ht]; rfl) rfl

/-- The dialect has no groups of other kinds.  So what has to be put in a group
to be printed cannot be read. -/
theorem atom_inGroup_fails (hX : o.xmlSchema = true) (text rest : List Char) :
    Fails (atom (groupWithin limit budget) o ledger (inGroup text ++ rest)) := by
  cases budget with
  | zero => exact .fail _ _
  | succ budget =>
    refine atom_group_fails ?_
    simp only [groupBody, hX, if_true]
    exact .fail _ _

/-- A repetition is not read if it needs such a group or what is repeated is not
read. -/
theorem refuses_repetition {min : ℕ} {max : Option ℕ} (hX : opts.xmlSchema = true)
    (hp : Written PlainChange (if p.isAtom then .atom else .contents) p)
    (h : p.isAtom = true → Refuses opts p .atom) :
    Refuses opts (.repetition p min max true) .item := by
  intro o ledger limit budget rest hfits items
  show Fails (branchItems _ o ledger (((if p.isAtom then printChars opts p
    else inGroup (printChars opts p)) ++ printQuantifier min max true) ++ rest) items)
  rw [List.append_assoc]
  cases hatom : p.isAtom with
  | true =>
    rw [hatom] at hp
    have hfits' : Fits opts o ledger budget (printChars opts p) p.groupIndices :=
      hfits.of_length_le (by simp [printChars, hatom])
    have hfails := h hatom o ledger limit budget (printQuantifier min max true ++ rest) hfits'
    obtain ⟨c, t, htext, hc, -⟩ : Leads opts (printChars opts p) := begins_of_written opts hp
    rw [if_pos rfl]
    rw [htext] at hfails ⊢
    exact branchItems_fails (hc.mono hfits.extended) hfails items
  | false =>
    have hfails : Fails (atom (groupWithin limit budget) o ledger
        (inGroup (printChars opts p) ++ (printQuantifier min max true ++ rest))) :=
      atom_inGroup_fails (hfits.xmlSchema.trans hX) _ _
    exact branchItems_fails (opens_of_mem (by decide)) hfails items

/-! ### Sequences and alternatives -/

/-- The parts of a sequence are read up to the first one that is not writable. -/
theorem items_fails (hps : ∀ p ∈ ps, Written PlainChange .item p)
    (h : ∀ p ∈ ps, p.isWritable opts = false → Refuses opts p .item)
    (hw : areWritable opts ps = false)
    (hfits : Fits opts o ledger budget (printItems opts ps) (groupIndicesAll ps))
    (items : List Pattern) :
    Fails (branchItems (groupWithin limit budget) o ledger (printItems opts ps ++ rest) items) := by
  induction ps generalizing ledger items with
  | nil => cases hw
  | cons p ps ih =>
    obtain ⟨hp, hps⟩ := List.forall_mem_cons.mp hps
    obtain ⟨hrefuses, h⟩ := List.forall_mem_cons.mp h
    have htext : printItems opts (p :: ps) = printChars opts p ++ printItems opts ps := by
      rw [printItems, guardUnion_of_branch (.ofItem hp)]
    rw [htext] at hfits ⊢
    rw [List.append_assoc]
    cases hwritable : p.isWritable opts with
    | true =>
      replace hw : areWritable opts ps = false := by simpa [areWritable, hwritable] using hw
      have hnext : Settled o (printItems opts ps ++ rest) :=
        settled_items hfits.extended hps (by rintro rfl; cases hw)
      obtain ⟨ledger₁, henters, hread⟩ :=
        rereads_of_written hp hwritable o ledger limit budget _ hfits.left hnext
      exact .comesTo (hread items) (ih hps h hw (hfits.right henters.groups) _)
    | false => exact hrefuses hwritable o ledger limit budget _ hfits.left items

/-- So are the alternatives after the first. -/
theorem moreBranches_fails (hps : ∀ p ∈ ps, Written PlainChange .branch p)
    (h : ∀ p ∈ ps, p.isWritable opts = false → Refuses opts p .branch)
    (hw : areWritable opts ps = false)
    (hfits : Fits opts o ledger budget (ps.flatMap fun q => '|' :: printChars opts q)
      (groupIndicesAll ps)) (items : List Pattern) :
    Fails (moreBranches (groupWithin limit budget) o ledger
      ((ps.flatMap fun q => '|' :: printChars opts q) ++ rest) items) := by
  induction ps generalizing ledger items with
  | nil => cases hw
  | cons p ps ih =>
    obtain ⟨hp, hps⟩ := List.forall_mem_cons.mp hps
    obtain ⟨hrefuses, h⟩ := List.forall_mem_cons.mp h
    rw [List.flatMap_cons] at hfits ⊢
    have hfits' : Fits opts o ledger budget (printChars opts p) p.groupIndices :=
      hfits.left.of_length_le (by simp)
    rw [List.append_assoc, List.cons_append, moreBranches]
    cases hwritable : p.isWritable opts with
    | true =>
      replace hw : areWritable opts ps = false := by simpa [areWritable, hwritable] using hw
      obtain ⟨ledger₁, henters, _, hread⟩ := rereads_of_written hp hwritable o ledger limit budget
        ((ps.flatMap fun q => '|' :: printChars opts q) ++ rest) hfits' (by
          cases ps with
          | nil => cases hw
          | cons q ps => simp)
      rw [hread]
      exact (ih hps h hw (hfits.right henters.groups) _).bind _
    | false => exact (hrefuses hwritable o ledger limit budget _ hfits').bind _

/-- So are all alternatives. -/
theorem branches_fails (hps : ∀ q ∈ p :: ps, Written PlainChange .branch q)
    (h : ∀ q ∈ p :: ps, q.isWritable opts = false → Refuses opts q .branch)
    (hw : areWritable opts (p :: ps) = false)
    (hfits : Fits opts o ledger budget (printAlternatives opts (p :: ps))
      (groupIndicesAll (p :: ps))) :
    Fails (branches (groupWithin limit budget) o ledger
      (printAlternatives opts (p :: ps) ++ rest)) := by
  obtain ⟨hp, hps⟩ := List.forall_mem_cons.mp hps
  obtain ⟨hrefuses, h⟩ := List.forall_mem_cons.mp h
  rw [printAlternatives_cons] at hfits ⊢
  rw [List.append_assoc, branches]
  cases hwritable : p.isWritable opts with
  | true =>
    replace hw : areWritable opts ps = false := by simpa [areWritable, hwritable] using hw
    obtain ⟨ledger₁, henters, _, hread⟩ := rereads_of_written hp hwritable o ledger limit budget
      ((ps.flatMap fun q => '|' :: printChars opts q) ++ rest) hfits.left (by
        cases ps with
        | nil => cases hw
        | cons q ps => simp)
    rw [hread]
    exact (moreBranches_fails hps h hw (hfits.right henters.groups) _).bind _
  | false => exact (hrefuses hwritable o ledger limit budget _ hfits.left).bind _

/-- Contents are not read if their alternatives are not.  A change of options
cannot stand before them. -/
theorem alternation_fails (hX : o.xmlSchema = true) (h : Fails (branches group o ledger s)) :
    Fails (alternation group o ledger s) := by
  rw [alternation, leadingFlags_eq_none hX]
  exact h.bind _

/-- **The text of a pattern that is not of the dialect is not read**, where a
pattern of its rank is expected.  What is written before the part at fault is
read as it should be, so that the reader comes to that part. -/
theorem refuses_of_written {rank : Rank} (hX : opts.xmlSchema = true)
    (h : Written PlainChange rank p) (hregular : p.isRegular = true)
    (hw : p.isWritable opts = false) : Refuses opts p rank := by
  induction h with
  | char c =>
    exact fun o ledger limit budget rest hfits =>
      atom_printChar_fails (by rwa [hfits.xmlSchema]) rest
  | charClass set negated =>
    exact fun o ledger limit budget rest hfits =>
      atom_printClass_fails (by rwa [hfits.xmlSchema]) rest
  | group index hbody ih =>
    cases index with
    | none => cases hregular
    | some i => exact refuses_capture hbody (ih hregular hw)
  | ofAtom hp ih => exact refuses_ofAtom hp (ih hregular hw)
  | string => exact refuses_string hw
  | @repetition body min max greedy hbody hbounds ih =>
    obtain ⟨hbounded, hrepeated⟩ := Bool.and_eq_true_iff.mp hregular
    obtain ⟨rfl, -⟩ := Bool.and_eq_true_iff.mp hbounded
    refine refuses_repetition hX hbody fun hatom => ?_
    rw [hatom] at ih
    exact ih hrepeated (by simpa [isWritable, hX, hatom] using hw)
  | empty => cases hw
  | ofItem _ ih =>
    exact fun o ledger limit budget rest hfits =>
      ih hregular hw o ledger limit budget rest hfits []
  | concat _ _ hitems ih =>
    exact fun o ledger limit budget rest hfits =>
      items_fails hitems (fun p hp => ih p hp (areRegular_iff.mp hregular p hp)) hw hfits []
  | @ofBranch p hp ih =>
    refine fun o ledger limit budget rest hfits =>
      alternation_fails (hfits.xmlSchema.trans hX) ?_
    exact (ih hregular hw o ledger limit budget rest hfits).bind _
  | @union ps hlen hps ih =>
    match ps, hlen with
    | p :: ps, hlen =>
      exact fun o ledger limit budget rest hfits => alternation_fails (hfits.xmlSchema.trans hX)
        (branches_fails hps (fun q hq => ih q hq (areRegular_iff.mp hregular q hq)) hw hfits)
  | dot | anchor | backref | look | independent | modifier | ifGroup | ifLook => cases hregular

end Parser

/-! ### Whole patterns -/

variable {opts : Options} {text : String} {limit limit' : ℕ} {p : Pattern}

/-- A regular pattern changes no options. -/
theorem modifier_notMem_of_isRegular (h : p.isRegular = true) (add remove : Options)
    (body : Pattern) : .modifier add remove body ∉ p.subpatterns := by
  intro hm
  have hfeatures := features_subset p _ hm
  rw [show p.features = [] from isPlain_of_isRegular p h] at hfeatures
  cases hfeatures List.mem_cons_self

/-- **In the dialect of XML Schema the text of a pattern is read again if and
only if the dialect has all that is written for it**, and then as a pattern with
a program alike. -/
theorem parse_print_iff_isWritable (hX : opts.xmlSchema = true)
    (h : parse opts text limit = .ok p) (hlimit : (p.print opts).length ≤ limit') :
    ((∃ q, parse opts (p.print opts) limit' = .ok q) ↔ p.isWritable opts = true) ∧
      ∀ q, parse opts (p.print opts) limit' = .ok q →
        (Program.ofPattern p).Alike (.ofPattern q) := by
  have hregular := parse_isRegular hX h
  have hmodifier := modifier_notMem_of_isRegular hregular
  rw [print, String.length_ofList] at hlimit
  cases hw : p.isWritable opts with
  | true =>
    have hread := parse_print_of_writable hw h
      (fun add remove body hm => absurd hm (hmodifier add remove body)) hlimit
    refine ⟨iff_of_true ⟨_, hread⟩ rfl, fun q hq => ?_⟩
    cases hread.symm.trans hq
    exact ofPattern_reread p
  | false =>
    obtain ⟨hwritten, n, hindices⟩ := parse_written h
    have hplain : Written Parser.PlainChange .contents p :=
      hwritten.restrict fun add remove body hm => absurd hm (hmodifier add remove body)
    have hfails := Parser.refuses_of_written hX hplain hregular hw opts {} limit' limit' []
      ⟨rfl, id, hlimit, n, hindices⟩
    have htext : p.printChars opts ++ [] = (p.print opts).toList := by
      rw [List.append_nil, print, String.toList_ofList]
    rw [htext] at hfails
    have hnone : ∀ q, parse opts (p.print opts) limit' ≠ .ok q := by
      intro q hq
      obtain ⟨ledger, ⟨_, hread⟩, -⟩ := Parser.whole_eq_ok_iff.mp (parse_eq_ok_iff.mp hq)
      exact hfails _ hread
    exact ⟨iff_of_false (not_exists.mpr hnone) Bool.false_ne_true, fun q hq => absurd hq (hnone q)⟩

/-- A text with a hyphen in a class and with spaces that are skipped, which is
written in another way than it was read. -/
theorem parse_print_iff_isWritable_hyphen :
    let opts : Options := { xmlSchema := true, extended := true }
    let p : Pattern := .concat [.repetition (.group (some 1) (.union [.char 'a', .repetition
      (.charClass (.ofRanges [.ofEnds '-' '-', .ofEnds 'b' 'd']) false) 2 (some 3) true])) 1 none
      true, .char '\n', Parser.schemaDot]
    parse opts "( a | [b-d\\-]\x7b2,3\x7d )+ \\n." 3 = .ok p ∧
      p.print opts = "(a|[\\-b-d]\x7b2,3\x7d)+\\n[^\\n\\r]" ∧
      (∃ q, parse opts (p.print opts) 50 = .ok q) ∧
      ∀ q, parse opts (p.print opts) 50 = .ok q →
        (Program.ofPattern p).Alike (.ofPattern q) := by
  intro opts p
  have hp : parse opts "( a | [b-d\\-]\x7b2,3\x7d )+ \\n." 3 = .ok p := by
    unfold p
    cbv
  have htext : p.print opts = "(a|[\\-b-d]\x7b2,3\x7d)+\\n[^\\n\\r]" := by cbv
  have hw : p.isWritable opts = true := by cbv
  have hlimit : (p.print opts).length ≤ 50 := by
    rw [htext]
    decide
  obtain ⟨hiff, halike⟩ := parse_print_iff_isWritable rfl hp hlimit
  exact ⟨hp, htext, hiff.mpr hw, halike⟩

/-- The dollar sign stands for itself in the dialect, but it is written with an
escape that the dialect does not have. -/
theorem not_parse_print_dollar :
    let opts : Options := { xmlSchema := true }
    parse opts "$" = .ok (.char '$') ∧ (Pattern.char '$').print opts = "\\$" ∧
      ∀ limit, parse opts "\\$" limit = .error ⟨.escapeUnknown '$', 0⟩ := by
  intro opts
  refine ⟨by cbv, by cbv, fun limit => ?_⟩
  cbv

end Regexp.Pattern
