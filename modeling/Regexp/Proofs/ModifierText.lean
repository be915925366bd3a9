import Regexp.Proofs.RoundTrip

/-!
# The text of groups that change options

What stands in a group that changes options is printed under the options outside
of the group and read under those inside of it.  Where the group begins to skip
blanks, the spaces of a literal are lost, and a number sign hides the end of the
group.  Everything else is read back, if there is any option to write.

The module answers for a group around a literal, with any change of options and
in any dialect that has such groups, what becomes of its text.  There are four
cases.

* A group that changes nothing has no option to write, and is read as one
  without options.
* If no more blanks are skipped inside than outside, the group is read back.
* If it begins to skip blanks (`Pattern.BeginsToSkip`) and the literal has
  spaces but no number sign, it is read as a group around the characters that
  are left (`Pattern.visible`).
* If there is a number sign, the group is not read at all.

`Pattern.parse_print_modifier_iff` follows from these: in the last two cases
another pattern is read or none, unless nothing in the literal is skipped.

A literal is read character by character, as a sequence whose parts are joined.
Where blanks are skipped the induction over its characters needs three cases,
spaces, number signs and the others, and what stands behind a number sign is
never looked at (`Pattern.skipping_induction`).  For characters that are neither
the text is the same under all options.

## Main definitions

* `Pattern.visible` — the characters of a text that are read where blanks and
  comments are skipped.
* `Pattern.BeginsToSkip` — whether blanks are skipped in a group and not outside
  of it.

## Main statements

* `Pattern.parse_print_modifier_iff` — which groups around a literal are read
  back.
* `Pattern.BeginsToSkip.parse_print_visible`,
  `Pattern.BeginsToSkip.parse_print_sharp` and
  `Pattern.parse_print_modifier_empty` — what is read for the other ones.
-/

namespace Regexp.Pattern

variable {c d e : Char} {s t : List Char}

/-! ### Literals -/

theorem literal_of_two_le (hlen : 2 ≤ s.length) : literal s = .string s := by
  have hjoin : joinLiterals [] (s.map .char) = consLiteral s.reverse [] := by
    have hpending : joinLiterals [] (s.map .char ++ []) = joinLiterals (s.reverse ++ []) [] :=
      joinLiterals_chars s []
    simpa [joinLiterals] using hpending
  rw [literal, seq, partsOfAll_chars, hjoin, consLiteral_string hlen]
  rfl

/-- A literal is printed character by character. -/
theorem printChars_literal (o : Options) (s : List Char) :
    printChars o (literal s) = s.flatMap (printChar o) := by
  match s with
  | [] => rfl
  | [c] => exact (List.append_nil _).symm
  | c :: d :: s =>
    rw [literal_of_two_le (by simp)]
    rfl

/-- Literals have the characters that they were made of, whether they are a
character, a string or empty. -/
theorem literal_inj : literal s = literal t ↔ s = t := by
  refine ⟨fun h => ?_, congrArg literal⟩
  match s, t with
  | [], [] => rfl
  | [c], [d] =>
    cases h
    rfl
  | [], [d] | [c], [] => cases h
  | c :: d :: s, [] | c :: d :: s, [e] =>
    rw [literal_of_two_le (by simp)] at h
    cases h
  | [], c :: d :: t | [e], c :: d :: t =>
    rw [literal_of_two_le (s := c :: d :: t) (by simp)] at h
    cases h
  | a :: b :: s, c :: d :: t =>
    rw [literal_of_two_le (by simp), literal_of_two_le (by simp)] at h
    exact string.inj h

/-- The characters of a text that are read where blanks and comments are
skipped: no spaces, and nothing from a number sign on. -/
def visible (s : List Char) : List Char := (s.takeWhile (· ≠ '#')).filter (· ≠ ' ')

theorem visible_cons (h : c ≠ ' ' ∧ c ≠ '#') : visible (c :: s) = c :: visible s := by
  simp [visible, h]

theorem visible_eq_self (h : ∀ c ∈ s, c ≠ ' ' ∧ c ≠ '#') : visible s = s := by
  induction s with
  | nil => rfl
  | cons c s ih =>
    obtain ⟨hc, hs⟩ := List.forall_mem_cons.mp h
    rw [visible_cons hc, ih hs]

/-- Where something is not visible, the visible characters are others. -/
theorem visible_eq_self_iff : visible s = s ↔ ∀ c ∈ s, c ≠ ' ' ∧ c ≠ '#' := by
  refine ⟨fun h c hc => ?_, visible_eq_self⟩
  rw [← h] at hc
  obtain ⟨htake, hblank⟩ := List.mem_filter.mp hc
  exact ⟨by simpa using hblank, by simpa using List.all_eq_true.mp List.all_takeWhile c htake⟩

namespace Parser

variable {o o' : Options} {ledger ledger' : Ledger} {group : GroupReader} {rest : List Char}
  {items : List Pattern} {p : Pattern} {limit : ℕ}

/-! ### What is skipped -/

theorem skipFrom_skipFrom (inComment : Bool) (s : List Char) :
    skipFrom false (skipFrom inComment s) = skipFrom inComment s := by
  fun_induction skipFrom inComment s with
  | case1 => rfl
  | case2 | case3 | case4 => assumption
  | case5 => simp [skipFrom, *]

/-- A comment without an end of its line goes on to the end of the text, so
whatever stands behind it is lost. -/
theorem skipFrom_comment (h : ∀ c ∈ s, Scalar.isLineTerminator c = false) :
    skipFrom true s = [] := by
  induction s with
  | nil => rfl
  | cons c s ih =>
    obtain ⟨hc, hs⟩ := List.forall_mem_cons.mp h
    simp [skipFrom, hc, ih hs]

/-- A sequence begins behind what is skipped.  Skipping twice is skipping once. -/
theorem comesTo_branchItems_skip (group : GroupReader) (o : Options) (ledger : Ledger)
    (s : List Char) (items : List Pattern) :
    ComesTo (branchItems group o ledger s items)
      (branchItems group o ledger (skip o.extended s) items) := by
  have hskip : skip o.extended (skip o.extended s) = skip o.extended s := by
    cases o.extended
    · rfl
    · exact skipFrom_skipFrom false s
  refine ⟨length_skip_le _ _, ?_⟩
  rw [branchItems.eq_def, branchItems.eq_def group o ledger (skip o.extended s)]
  simp only [hskip]
  split
  · cases hatom : atom group o ledger (skip o.extended s) with
    | error e =>
      have hatom' : atom group o ledger (skip o.extended (skip o.extended s)) = .error e := by
        rw [hskip, hatom]
      rw [hatom']
      rfl
    | ok r =>
      obtain ⟨v, rest, hlt⟩ := r
      have hread : Consumes (atom group o ledger (skip o.extended s)) v rest := ⟨hlt, hatom⟩
      rw [← hskip] at hread
      obtain ⟨_, hread⟩ := hread
      rw [hread]
      simp only [bind, Except.bind]
      cases quantified o v.1 rest with
      | error e => rfl
      | ok q =>
        simp only
        cases branchItems group o v.2 q.rest (q.value :: items) <;> rfl
  · rfl

/-! ### Characters where blanks are skipped -/

/-- Only spaces and number signs are printed otherwise under other options. -/
theorem printChar_of_visible (h : c ≠ ' ' ∧ c ≠ '#') (o o' : Options) :
    printChar o c = printChar o' c := by
  simp [printChar, h]

theorem isLineTerminator_of_mem_printCodePoint (h : d ∈ printCodePoint c) :
    Scalar.isLineTerminator d = false := by
  simp only [printCodePoint, List.cons_append, List.nil_append, List.mem_cons, List.mem_append,
    List.not_mem_nil, or_false] at h
  rcases h with rfl | rfl | rfl | h | rfl
  · rfl
  · rfl
  · rfl
  · have hdigit := Numeral.hex_isSome h
    refine Bool.eq_false_iff.mpr fun hend => ?_
    simp only [Scalar.isLineTerminator, Bool.or_eq_true, decide_eq_true_iff] at hend
    rcases hend with ((rfl | rfl) | rfl) | rfl <;> cases hdigit
  · rfl

theorem isLineTerminator_of_mem_escape (he : Scalar.isLineTerminator e = false)
    (h : d ∈ ['\\', e]) : Scalar.isLineTerminator d = false := by
  simp only [List.mem_cons, List.not_mem_nil, or_false] at h
  rcases h with rfl | rfl
  · rfl
  · exact he

theorem isLineTerminator_of_mem_printPlain (h : d ∈ printPlain c) :
    Scalar.isLineTerminator d = false := by
  unfold printPlain at h
  split at h
  · exact isLineTerminator_of_mem_escape (e := 't') rfl h
  split at h
  · exact isLineTerminator_of_mem_escape (e := 'n') rfl h
  split at h
  · exact isLineTerminator_of_mem_escape (e := 'r') rfl h
  split at h
  · exact isLineTerminator_of_mem_escape (e := 'f') rfl h
  split at h
  · exact isLineTerminator_of_mem_escape (e := 'e') rfl h
  split at h
  · exact isLineTerminator_of_mem_printCodePoint h
  · rename_i hseen
    obtain rfl := List.mem_singleton.mp h
    refine Bool.eq_false_iff.mpr fun hend => hseen ?_
    simp only [Scalar.isLineTerminator, Bool.or_eq_true, decide_eq_true_iff] at hend
    rcases hend with ((rfl | rfl) | rfl) | rfl <;> decide

/-- The ends of lines are written by their escapes. -/
theorem isLineTerminator_of_mem_printChar (h : d ∈ printChar o c) :
    Scalar.isLineTerminator d = false := by
  unfold printChar at h
  split at h
  · rename_i hspecial
    have hall : ∀ c ∈ specialChars, Scalar.isLineTerminator c = false :=
      List.all_iff_forall_prop.mp (by decide)
    exact isLineTerminator_of_mem_escape (hall c (by simpa using hspecial)) h
  split at h
  · exact isLineTerminator_of_mem_escape (e := '#') rfl h
  split at h
  · exact isLineTerminator_of_mem_printCodePoint h
  · exact isLineTerminator_of_mem_printPlain h

/-! ### Literals where blanks are skipped -/

/-- The characters of a text are spaces, number signs, behind which nothing is
read, or visible. -/
@[elab_as_elim]
theorem skipping_induction {motive : List Char → Prop} (nil : motive [])
    (blank : ∀ s, motive s → motive (' ' :: s)) (sharp : ∀ s, motive ('#' :: s))
    (seen : ∀ c s, c ≠ ' ' ∧ c ≠ '#' → motive s → motive (c :: s)) (s : List Char) : motive s := by
  induction s with
  | nil => exact nil
  | cons c s ih =>
    by_cases hblank : c = ' '
    · exact hblank ▸ blank s ih
    · by_cases hsharp : c = '#'
      · exact hsharp ▸ sharp s
      · exact seen c s ⟨hblank, hsharp⟩ ih

/-- The end of the group is not skipped, as it is neither blank nor begins a
comment. -/
theorem skip_nil (o o' : Options) :
    skip o'.extended (([] : List Char).flatMap (printChar o) ++ [')']) = [')'] :=
  skip_cons (fun _ => by decide) []

/-- A space is printed as it is where blanks are not skipped. -/
theorem skip_blank (ho : o.extended = false) (ho' : o'.extended = true) (s t : List Char) :
    skip o'.extended ((' ' :: s).flatMap (printChar o) ++ t) =
      skip o'.extended (s.flatMap (printChar o) ++ t) := by
  have hself : printChar o ' ' = [' '] := by simp [printChar, ho]; decide
  rw [List.flatMap_cons, hself, ho']
  rfl

/-- So is a number sign, and everything behind it is skipped, the end of the
group included. -/
theorem skip_sharp (ho : o.extended = false) (ho' : o'.extended = true) (s : List Char) :
    skip o'.extended (('#' :: s).flatMap (printChar o) ++ [')']) = [] := by
  have hself : printChar o '#' = ['#'] := by simp [printChar, ho]; decide
  have hend : ∀ c ∈ s.flatMap (printChar o) ++ [')'], Scalar.isLineTerminator c = false := by
    simp only [List.mem_append, List.mem_flatMap, List.mem_singleton]
    rintro c (⟨d, -, hc⟩ | rfl)
    · exact isLineTerminator_of_mem_printChar hc
    · rfl
  rw [List.flatMap_cons, hself, ho']
  exact skipFrom_comment hend

/-- A visible character can begin a construct under all options. -/
theorem opens_of_visible (h : c ≠ ' ' ∧ c ≠ '#') (o o' : Options) :
    ∃ d t, printChar o c = d :: t ∧ Opens o' d := by
  obtain ⟨d, t, htext, hd⟩ := printChar_head { o with extended := true } c
  exact ⟨d, t, (printChar_of_visible h _ _).trans htext, hd.mono fun _ => rfl⟩

/-- No quantifier is found behind what is skipped, since literals are printed
without any. -/
theorem startsQuantifier_skip (ho : o.extended = false) (ho' : o'.extended = true)
    (s : List Char) :
    startsQuantifier (skip o'.extended (s.flatMap (printChar o) ++ [')'])) = false := by
  induction s using skipping_induction with
  | nil => rw [skip_nil]; rfl
  | blank s ih => rwa [skip_blank ho ho']
  | sharp s =>
    rw [skip_sharp ho ho']
    rfl
  | seen c s hc _ =>
    obtain ⟨d, t, htext, hd⟩ := opens_of_visible hc o o'
    obtain ⟨hskip, hstarts⟩ := hd.settled (t ++ (s.flatMap (printChar o) ++ [')']))
    rw [List.flatMap_cons, htext, List.append_assoc, List.cons_append, hskip, hstarts]

/-- What is left of the text of a literal and the end of its group, where blanks
are skipped.  A comment takes the end of the group with it. -/
def leftover (s : List Char) : List Char := if '#' ∈ s then [] else [')']

theorem leftover_cons (h : c ≠ '#') : leftover (c :: s) = leftover s := by
  simp [leftover, Ne.symm h]

/-- **The visible characters of a literal are read**, and behind a number sign
nothing. -/
theorem comesTo_visible (hX : o'.xmlSchema = false) (ho : o.extended = false)
    (ho' : o'.extended = true) (s : List Char) (items : List Pattern) :
    ComesTo
      (branchItems group o' ledger (skip o'.extended (s.flatMap (printChar o) ++ [')'])) items)
      (branchItems group o' ledger (leftover s) (((visible s).map .char).reverse ++ items)) := by
  induction s using skipping_induction generalizing items with
  | nil =>
    rw [skip_nil]
    exact .refl _
  | blank s ih =>
    rw [skip_blank ho ho', leftover_cons (by decide)]
    exact ih items
  | sharp s =>
    rw [skip_sharp ho ho', leftover, if_pos List.mem_cons_self]
    exact .refl _
  | seen c s hc ih =>
    obtain ⟨d, t, htext, hd⟩ := opens_of_visible hc o o'
    have hread : Consumes (atom group o' ledger
        (printChar o c ++ (s.flatMap (printChar o) ++ [')']))) (.char c, ledger)
        (s.flatMap (printChar o) ++ [')']) :=
      consumes_atom_printChar (by rw [hX, knowsEscape_false]) _
    rw [List.flatMap_cons, List.append_assoc]
    rw [htext] at hread ⊢
    rw [List.cons_append, (hd.settled _).1, leftover_cons hc.2, visible_cons hc, List.map_cons,
      List.reverse_cons, List.append_assoc]
    exact .trans (comesTo_branchItems_cons hd hread
      (scansTo_unquantified_skip (startsQuantifier_skip ho ho' s)) items) (ih _)

/-! ### Literals in groups -/

/-- No change of options stands before a literal. -/
theorem leadingFlags_chars (o o' : Options) (s rest : List Char) :
    leadingFlags o' (s.flatMap (printChar o) ++ ')' :: rest) = .ok none := by
  cases s with
  | nil => exact leadingFlags_of_head o' (by simp)
  | cons c s =>
    obtain ⟨_, _, -, -, hflags⟩ := (Leads.of_printChar o c).append (s.flatMap (printChar o))
    rw [List.flatMap_cons]
    exact hflags o' _

/-- A sequence that ends at the end of its group is the contents of the group,
if no options are changed first. -/
theorem scansTo_alternation_of_items (hflags : leadingFlags o s = .ok none)
    (h : ScansTo (branchItems group o ledger s []) (p, ledger') rest)
    (hrest : ∀ c ∈ rest.head?, c = ')') :
    ScansTo (alternation group o ledger s) (p, ledger') rest := by
  refine (scansTo_alternation_of_none hflags).mpr ⟨[p], ?_, rfl⟩
  obtain ⟨_, h⟩ := h
  have hend : ScansTo (moreBranches group o ledger' rest [p]) ([p], ledger') rest :=
    scansTo_moreBranches_end hrest
  obtain ⟨_, hmore⟩ := hend
  rw [branches, branch, h]
  simp only [bind, Except.bind, hmore]
  exact ⟨_, rfl⟩

/-- **A literal is read back** where no more blanks are skipped than they were
escaped for. -/
theorem scansTo_alternation_literal (hX : o'.xmlSchema = false)
    (hextended : o'.extended = true → o.extended = true) (s rest : List Char) :
    ScansTo (alternation group o' ledger (s.flatMap (printChar o) ++ ')' :: rest))
      (literal s, ledger) (')' :: rest) := by
  have hends : ∀ c ∈ (')' :: rest).head?, c = '|' ∨ c = ')' := by simp
  have hknown : ∀ c ∈ s, knowsEscape o'.xmlSchema (printChar o c) = true := fun c _ => by
    rw [hX, knowsEscape_false]
  refine scansTo_alternation_of_items (leadingFlags_chars o o' s rest) ?_ (by simp)
  have hread : ScansTo
      (branchItems group o' ledger (s.flatMap (printChar o) ++ ')' :: rest) []) _ _ :=
    (comesTo_chars hextended hknown (settled_of_ends hends) []).scansTo
      (scansTo_branchItems_end hends)
  rwa [List.append_nil, List.reverse_reverse] at hread

/-- **Of a literal in a group that begins to skip blanks** its visible
characters are read. -/
theorem scansTo_alternation_visible (hX : o'.xmlSchema = false) (ho : o.extended = false)
    (ho' : o'.extended = true) (s : List Char) :
    ScansTo (alternation group o' ledger (s.flatMap (printChar o) ++ [')']))
      (literal (visible s), ledger) (leftover s) := by
  have hends : ∀ c ∈ (leftover s).head?, c = ')' := by
    unfold leftover
    split <;> simp
  have hread := ((comesTo_branchItems_skip group o' ledger _ []).trans
    (comesTo_visible hX ho ho' s [])).scansTo
    (scansTo_branchItems_end fun c hc => .inr (hends c hc))
  rw [List.append_nil, List.reverse_reverse] at hread
  exact scansTo_alternation_of_items (leadingFlags_chars o o' s []) hread hends

/-! ### Texts of one group -/

theorem Leads.leadingFlags_eq (h : Leads o s) : leadingFlags o s = .ok none := by
  obtain ⟨_, _, rfl, -, hflags⟩ := h
  have hnone := hflags o []
  rwa [List.append_nil] at hnone

/-- A group that is all of the text is read as the text.  The limit on nesting
has to allow for the group. -/
theorem whole_specialGroup (hX : o.xmlSchema = false) (hlimit : 0 < limit)
    (hlead : Leads o ('(' :: '?' :: s)) (hp : seq [p] = p)
    (h : ∀ group, ScansTo (specialGroup group o {} ('(' :: '?' :: s) s) (p, {}) [')']) :
    whole o limit ('(' :: '?' :: s) = .ok p := by
  obtain ⟨limit, rfl⟩ := Nat.exists_eq_succ_of_ne_zero hlimit.ne'
  have hend : ∀ c ∈ ([] : List Char).head?, c = '|' ∨ c = ')' := nofun
  have hitems := (comesTo_branchItems_cons (opens_of_mem (by decide))
    (consumes_atom_special hX (h (groupWithin (limit + 1) limit)))
    (scansTo_unquantified (settled_of_ends hend)) []).scansTo (scansTo_branchItems_end hend)
  rw [List.reverse_singleton, hp] at hitems
  exact whole_eq_ok_iff.mpr
    ⟨{}, scansTo_alternation_of_items hlead.leadingFlags_eq hitems nofun, rfl⟩

/-- A group that takes all of the text without its end is not read.  The failure
points to where the group begins. -/
theorem whole_specialGroup_unclosed (hX : o.xmlSchema = false) (hlimit : 0 < limit)
    (hlead : Leads o ('(' :: '?' :: s))
    (h : ∀ group, ScansTo (specialGroup group o {} ('(' :: '?' :: s) s) (p, {}) []) :
    whole o limit ('(' :: '?' :: s) = fail .groupUnclosed ('(' :: '?' :: s) := by
  obtain ⟨limit, rfl⟩ := Nat.exists_eq_succ_of_ne_zero hlimit.ne'
  have hgroup : groupWithin (limit + 1) (limit + 1) o {} ('(' :: '?' :: s) =
      fail .groupUnclosed ('(' :: '?' :: s) := by
    obtain ⟨_, hbody⟩ := h (groupWithin (limit + 1) limit)
    rw [groupWithin, Parser.group, groupBody]
    simp only [hX, hbody]
    rfl
  rw [whole, alternation, hlead.leadingFlags_eq]
  simp only [bind, Except.bind, Nat.succ_eq_add_one, branches_error hgroup, fail]

end Parser

/-! ### Modifiers of literals -/

section

open Regexp.Pattern.Parser

variable {o add remove : Options} {limit : ℕ}

theorem print_modifier_literal (o add remove : Options) (s : List Char) :
    ((modifier add remove (literal s)).print o).toList =
      '(' :: '?' :: (printFlags add remove ++ ':' :: (s.flatMap (printChar o) ++ [')'])) := by
  simp [print, printChars, printChars_literal]

/-- **A group that changes nothing** is read as one without options, since its
text has no letters. -/
theorem parse_print_modifier_empty (hX : o.xmlSchema = false) (s : List Char)
    (hlimit : 0 < limit) :
    parse o ((modifier .empty .empty (literal s)).print o) limit =
      .ok (.group none (literal s)) := by
  rw [parse_eq_ok_iff, print_modifier_literal]
  exact whole_specialGroup hX hlimit (.of_mark (c := ':') (by decide) _) rfl fun group =>
    Marks.group.scansTo (scansTo_alternation_literal hX id s [])

/-- **A group in which no more blanks are skipped than outside of it** is read
back. -/
theorem parse_print_modifier_literal (hX : o.xmlSchema = false) (hadd : IsLocal add)
    (hremove : IsLocal remove) (hne : add ≠ .empty ∨ remove ≠ .empty)
    (hextended : (o.modify add remove).extended = true → o.extended = true) (s : List Char)
    (hlimit : 0 < limit) :
    parse o ((modifier add remove (literal s)).print o) limit =
      .ok (.modifier add remove (literal s)) := by
  have hX' := (hadd.xmlSchema_modify hremove o).trans hX
  rw [parse_eq_ok_iff, print_modifier_literal]
  exact whole_specialGroup hX hlimit (.of_flags hadd hremove hne _) rfl fun group =>
    scansTo_specialGroup_printFlags hadd hremove hne
      (scansTo_alternation_literal hX' hextended s [])

/-- Whether a group of a dialect that has groups with options begins to skip
blanks: they are not skipped outside of it. -/
structure BeginsToSkip (o add remove : Options) : Prop where
  xmlSchema : o.xmlSchema = false
  add_local : IsLocal add
  remove_local : IsLocal remove
  outside : o.extended = false
  inside : (o.modify add remove).extended = true

namespace BeginsToSkip

/-- An option is added by such a group. -/
theorem named (h : BeginsToSkip o add remove) : add ≠ .empty ∨ remove ≠ .empty := by
  refine .inl ?_
  rintro rfl
  have hinside := h.inside
  simp [Options.modify, Options.diff, Options.union, Options.zipWith, Options.empty, h.outside]
    at hinside

theorem scansTo_specialGroup (h : BeginsToSkip o add remove) (group : GroupReader)
    (start s : List Char) :
    ScansTo (specialGroup group o {} start
      (printFlags add remove ++ ':' :: (s.flatMap (printChar o) ++ [')'])))
      (.modifier add remove (literal (visible s)), {}) (leftover s) :=
  scansTo_specialGroup_printFlags h.add_local h.remove_local h.named
    (scansTo_alternation_visible ((h.add_local.xmlSchema_modify h.remove_local o).trans h.xmlSchema)
      h.outside h.inside s)

/-- **A group that begins to skip blanks** is read with the visible characters
of its literal, if there is no number sign. -/
theorem parse_print_visible (h : BeginsToSkip o add remove) (hsharp : '#' ∉ s)
    (hlimit : 0 < limit) : parse o ((modifier add remove (literal s)).print o) limit =
      .ok (.modifier add remove (literal (visible s))) := by
  rw [parse_eq_ok_iff, print_modifier_literal]
  refine whole_specialGroup h.xmlSchema hlimit (.of_flags h.add_local h.remove_local h.named _) rfl
    fun group => ?_
  have hread := h.scansTo_specialGroup group
    ('(' :: '?' :: (printFlags add remove ++ ':' :: (s.flatMap (printChar o) ++ [')']))) s
  rwa [leftover, if_neg hsharp] at hread

/-- **With a number sign it is not read at all**, since the end of the group is
skipped. -/
theorem parse_print_sharp (h : BeginsToSkip o add remove) (hsharp : '#' ∈ s)
    (hlimit : 0 < limit) : parse o ((modifier add remove (literal s)).print o) limit =
      .error ⟨.groupUnclosed, 0⟩ := by
  have hleftover : leftover s = [] := if_pos hsharp
  have hread := whole_specialGroup_unclosed h.xmlSchema hlimit
    (.of_flags h.add_local h.remove_local h.named _)
    fun group => hleftover ▸ h.scansTo_specialGroup group _ s
  rw [parse, print_modifier_literal, hread]
  simp [fail]

end BeginsToSkip

/-- **Which groups around a literal are read back.**  In a dialect that has
groups with options, the text of a group with any change of options is read as
the group just if there is an option to write, and if the group either does not
begin to skip blanks or has neither spaces nor number signs. -/
theorem parse_print_modifier_iff (hX : o.xmlSchema = false) (hadd : IsLocal add)
    (hremove : IsLocal remove) (s : List Char) (hlimit : 0 < limit) :
    parse o ((modifier add remove (literal s)).print o) limit =
        .ok (.modifier add remove (literal s)) ↔
      (add ≠ .empty ∨ remove ≠ .empty) ∧ ((o.modify add remove).extended = true →
        o.extended = true ∨ ∀ c ∈ s, c ≠ ' ' ∧ c ≠ '#') := by
  by_cases hne : add ≠ .empty ∨ remove ≠ .empty
  · by_cases hextended : (o.modify add remove).extended = true → o.extended = true
    · refine iff_of_true (parse_print_modifier_literal hX hadd hremove hne hextended s hlimit) ?_
      exact ⟨hne, fun h => .inl (hextended h)⟩
    · obtain ⟨hinside, houtside⟩ := Classical.not_imp.mp hextended
      have hskip : BeginsToSkip o add remove :=
        ⟨hX, hadd, hremove, Bool.eq_false_iff.mpr houtside, hinside⟩
      simp only [hne, hinside, houtside, true_and, forall_const, false_or, Bool.false_eq_true]
      by_cases hsharp : '#' ∈ s
      · rw [hskip.parse_print_sharp hsharp hlimit]
        exact iff_of_false nofun fun h => (h '#' hsharp).2 rfl
      · rw [hskip.parse_print_visible hsharp hlimit, ← visible_eq_self_iff]
        simp [literal_inj]
  · obtain ⟨rfl, rfl⟩ : add = .empty ∧ remove = .empty := by simpa using hne
    rw [parse_print_modifier_empty hX s hlimit]
    exact iff_of_false nofun fun h => hne h.1

/-- A space and a number sign where they are skipped inside and outside of the
group. -/
theorem parse_print_modifier_iff_extended :
    let o : Options := { extended := true }
    let p := modifier { caseInsensitive := true } { singleLine := true } (literal [' ', '#'])
    p.print o = "(?i-s:\\x\x7b20\x7d\\#)" ∧ parse o (p.print o) = .ok p := by
  intro o p
  have hadd : IsLocal { caseInsensitive := true } := ⟨rfl, rfl, rfl, rfl⟩
  have hremove : IsLocal { singleLine := true } := ⟨rfl, rfl, rfl, rfl⟩
  refine ⟨by decide +kernel,
    (parse_print_modifier_iff rfl hadd hremove [' ', '#'] (by decide)).mpr ?_⟩
  exact ⟨.inl (by decide), fun _ => .inl rfl⟩

/-- A space in a group that begins to skip blanks, of which nothing is left. -/
theorem not_parse_print_modifier :
    ¬ ∀ (o add remove : Options) (s : List Char), o.xmlSchema = false → IsLocal add →
      IsLocal remove → parse o ((modifier add remove (literal s)).print o) =
        .ok (.modifier add remove (literal s)) := by
  intro hall
  have hadd : IsLocal { extended := true } := ⟨rfl, rfl, rfl, rfl⟩
  have hremove : IsLocal {} := ⟨rfl, rfl, rfl, rfl⟩
  have hskip : BeginsToSkip {} { extended := true } {} := ⟨rfl, hadd, hremove, rfl, rfl⟩
  have hblank : parse {} ((modifier { extended := true } {} (literal [' '])).print {}) =
      .ok (.modifier { extended := true } {} .empty) :=
    hskip.parse_print_visible (by decide) (by decide)
  have hread := hall {} { extended := true } {} [' '] rfl hadd hremove
  rw [hblank] at hread
  cases hread

end

end Regexp.Pattern
