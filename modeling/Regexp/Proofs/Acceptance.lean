import Regexp.Pattern.Parser

/-!
# What readers accept

A reader takes a value off a text and leaves the rest of it.  Here it is said of
texts that are written down which value and which rest that is.

The result of a reader carries a proof about the length of its rest, which
depends on the text that was read.  Two results can therefore only be compared
if they are results for the very same text, and rewriting the text under a
reader is not possible.  `Parser.Consumes` and `Parser.ScansTo` say that a
reader gives a value and leaves a rest, with the proof left out, and in this
form statements about readers can be put one after the other.

The main part of the module is about changes of options.  A group that sets and
clears options can stand in front of a whole pattern, and building an expression
with options differs from writing them down in front of its text in who reads
the letters.  `Parser.flags_consumes` reads the letters of any change,
`Parser.leadingFlags_optionGroup` the group, and `Parser.whole_optionGroup` a
text with the group in front of it.  The other direction is needed as well,
since a text of which nothing is known could begin with such a group itself:
`Parser.beginsWithOptions_of_leadingFlags` says that nothing else is read as
one.

## Main definitions

* `Parser.Consumes`, `Parser.ScansTo` — a reader gives a value and leaves a
  rest.
* `Parser.optionLetters`, `Parser.optionGroup` — the text of a change of
  options.
* `Parser.BeginsWithOptions` — texts that begin with a group that only changes
  options.

## Main statements

* `Parser.flags_consumes` — option letters are read up to what ends them.
* `Parser.leadingFlags_optionGroup` — a leading change of options is read.
* `Parser.beginsWithOptions_of_leadingFlags` — nothing else is read as one.
* `Parser.whole_optionGroup` — a text is read into a modifier if a change of
  options stands before it.
-/

namespace Regexp.Pattern

namespace Parser

/-- Whether a reader gives a value and leaves a rest, which is shorter than the
text. -/
def Consumes {α : Type} {s : List Char} (x : Reads α s) (v : α) (rest : List Char) : Prop :=
  ∃ h, x = .ok ⟨v, rest, h⟩

/-- Whether a reader that may take nothing gives a value and leaves a rest. -/
def ScansTo {α : Type} {s : List Char} (x : Scans α s) (v : α) (rest : List Char) : Prop :=
  ∃ h, x = .ok ⟨v, rest, h⟩

namespace Consumes

variable {α β : Type} {s t rest : List Char} {x : Reads α s} {v : α} {c : Char}

theorem one (v : α) (rest : List Char) :
    Consumes (s := c :: rest) (.ok (.one v)) v rest := ⟨_, rfl⟩

/-- A reader that begins behind a character gives what it would without it. -/
theorem behind_iff : Consumes (s := c :: s) (x.map Consumed.behind) v rest ↔
    Consumes x v rest := by
  cases x with
  | error e => exact ⟨nofun, nofun⟩
  | ok r =>
    obtain ⟨v', rest', h⟩ := r
    constructor
    · rintro ⟨_, heq⟩
      cases heq
      exact ⟨_, rfl⟩
    · rintro ⟨_, heq⟩
      cases heq
      exact ⟨_, rfl⟩

/-- A reader gives one value, and leaves one rest. -/
theorem unique {v' : α} {rest' : List Char} (h : Consumes x v rest) (h' : Consumes x v' rest') :
    v = v' ∧ rest = rest' := by
  obtain ⟨_, h⟩ := h
  obtain ⟨_, h'⟩ := h'
  cases h.symm.trans h'
  exact ⟨rfl, rfl⟩

end Consumes

/-- A reader that begins behind a character, which is thus read in any case. -/
theorem ScansTo.behind {α : Type} {s rest : List Char} {x : Scans α s} {v : α} {c : Char}
    (h : ScansTo x v rest) : Consumes (s := c :: s) (x.map Scanned.behind) v rest := by
  obtain ⟨_, rfl⟩ := h
  exact ⟨_, rfl⟩

/-- A reader of which each pattern is made into another one, with the same
ledger and rest. -/
theorem ScansTo.bind_ok_iff {α : Type} {s t rest : List Char} {x : Scans (α × Ledger) s}
    {ledger : Ledger} {p : Pattern} {f : Scanned (α × Ledger) s → Scanned Piece t}
    {g : α → Pattern}
    (hf : ∀ r, (f r).value = (g r.value.1, r.value.2) ∧ (f r).rest = r.rest) :
    ScansTo (x >>= fun r => .ok (f r)) (p, ledger) rest ↔
      ∃ v, ScansTo x (v, ledger) rest ∧ p = g v := by
  cases x with
  | error e => exact ⟨nofun, nofun⟩
  | ok r =>
    obtain ⟨hvalue, hrest⟩ := hf r
    obtain ⟨⟨v, ledger'⟩, rest', hle⟩ := r
    show (∃ h, Except.ok (f _) = .ok ⟨(p, ledger), rest, h⟩) ↔ _
    generalize f _ = r at hvalue hrest
    obtain ⟨w, rest'', hle'⟩ := r
    obtain rfl : w = (g v, ledger') := hvalue
    obtain rfl : rest'' = rest' := hrest
    constructor
    · rintro ⟨_, heq⟩
      cases heq
      exact ⟨v, ⟨hle, rfl⟩, rfl⟩
    · rintro ⟨_, ⟨_, heq⟩, rfl⟩
      cases heq
      exact ⟨hle', rfl⟩

/-! ### Option letters -/

/-- The letters of the options that a group sets, and after a hyphen, if there
is one, those that it clears. -/
def optionLetters (set : List Char) (clear : Option (List Char)) : List Char :=
  set ++ clear.elim [] ('-' :: ·)

/-- A group that only changes options: its letters to set, and after a hyphen
those to clear, if there is a hyphen. -/
def optionGroup (set : List Char) (clear : Option (List Char)) : List Char :=
  '(' :: '?' :: optionLetters set clear ++ [')']

/-- Whether a text begins with a group that only changes options.  At least one
letter or a hyphen has to stand in it. -/
def BeginsWithOptions (s : List Char) : Prop :=
  ∃ set clear rest, (∀ c ∈ set ++ clear.getD [], c ∈ groupFlags) ∧ (set ≠ [] ∨ clear ≠ none) ∧
    s = optionGroup set clear ++ rest

variable {acc v : Flags} {negated : Bool} {c mark : Char} {s cs rest set : List Char}
  {clear : Option (List Char)} {o add remove : Options}

/-- Flags with other options to set, or to clear if they stand after a hyphen. -/
def Flags.assign (acc : Flags) (negated : Bool) (o : Options) : Flags :=
  if negated then { acc with remove := o } else { acc with add := o }

/-- The options to set, or those to clear after a hyphen. -/
def Flags.part (acc : Flags) (negated : Bool) : Options :=
  if negated then acc.remove else acc.add

theorem Flags.assign_part : acc.assign negated (acc.part negated) = acc := by cases negated <;> rfl

theorem Flags.part_assign : (acc.assign negated o).part negated = o := by cases negated <;> rfl

theorem Flags.assign_assign {o' : Options} :
    (acc.assign negated o).assign negated o' = acc.assign negated o' := by cases negated <;> rfl

/-- Option letters name options, and not those of another dialect.  The letters
of a group leave the dialect alone. -/
theorem exists_parseLetters (hcs : ∀ c ∈ cs, c ∈ groupFlags) (acc : Options) :
    ∃ o, Options.parseLetters cs acc = .ok o ∧ o.xmlSchema = acc.xmlSchema := by
  induction cs generalizing acc with
  | nil => exact ⟨acc, rfl, rfl⟩
  | cons c cs ih =>
    obtain ⟨hc, hrest⟩ := List.forall_mem_cons.mp hcs
    obtain ⟨one, hone, hX⟩ : ∃ one, Options.ofLetter? c = some one ∧ one.xmlSchema = false := by
      simp only [groupFlags, List.mem_cons, List.not_mem_nil, or_false] at hc
      rcases hc with rfl | rfl | rfl | rfl | rfl | rfl <;> exact ⟨_, rfl, rfl⟩
    obtain ⟨o, ho, hoX⟩ := ih hrest (acc.union one)
    refine ⟨o, ?_, ?_⟩
    · rw [Options.parseLetters, hone]
      exact ho
    · simp [hoX, Options.union, Options.zipWith, hX]

/-- What is read at a letter, a hyphen or a mark.  There is one case for each,
and nothing else is read. -/
theorem flags_cons_iff : Consumes (flags (c :: s) acc negated) v rest ↔
    (c = ':' ∨ c = ')') ∧ v = { acc with colon := c = ':' } ∧ rest = s ∨
    c = '-' ∧ negated = false ∧ Consumes (flags s acc true) v rest ∨
    c ∈ groupFlags ∧ Consumes (flags s (acc.assign negated
      ((acc.part negated).union ((Options.ofLetter? c).getD {}))) negated) v rest := by
  rw [flags]
  split
  · rename_i hmark
    have hmark : c = ':' ∨ c = ')' := by simpa using hmark
    have hhyphen : c ≠ '-' := by rcases hmark with rfl | rfl <;> decide
    have hletter : c ∉ groupFlags := by rcases hmark with rfl | rfl <;> decide
    simp only [hmark, hhyphen, hletter, true_and, false_and, or_false]
    constructor
    · intro h
      obtain ⟨hv, hrest⟩ := h.unique (.one _ _)
      exact ⟨hv, hrest⟩
    · rintro ⟨rfl, rfl⟩
      exact .one _ _
  · rename_i hmark
    have hmark : ¬ (c = ':' ∨ c = ')') := by simpa using hmark
    simp only [hmark, false_and, false_or]
    split
    · rename_i hhyphen
      obtain ⟨rfl, rfl⟩ : c = '-' ∧ negated = false := by simpa using hhyphen
      have hletter : '-' ∉ groupFlags := by decide
      simp only [hletter, true_and, false_and, or_false]
      exact Consumes.behind_iff
    · rename_i hhyphen
      have hhyphen : ¬ (c = '-' ∧ negated = false) := by simpa using hhyphen
      rw [← and_assoc, eq_false hhyphen, false_and, false_or]
      split
      · rename_i hletter
        have hletter : c ∈ groupFlags := by simpa using hletter
        simp only [hletter, true_and]
        have hassign : acc.assign negated ((acc.part negated).union
            ((Options.ofLetter? c).getD {})) = if negated then
              { acc with remove := acc.remove.union ((Options.ofLetter? c).getD {}) }
              else { acc with add := acc.add.union ((Options.ofLetter? c).getD {}) } := by
          cases negated <;> rfl
        rw [hassign]
        exact Consumes.behind_iff
      · rename_i hletter
        have hletter : c ∉ groupFlags := by simpa using hletter
        simp only [hletter, false_and, iff_false]
        exact nofun

/-- Letters are read one by one, in front of whatever is read after them.  They
add to what was named before. -/
theorem flags_letters (hcs : ∀ c ∈ cs, c ∈ groupFlags)
    (ho : Options.parseLetters cs (acc.part negated) = .ok o)
    (h : Consumes (flags s (acc.assign negated o) negated) v rest) :
    Consumes (flags (cs ++ s) acc negated) v rest := by
  induction cs generalizing acc with
  | nil =>
    cases ho
    rwa [Flags.assign_part] at h
  | cons c cs ih =>
    obtain ⟨hc, hcs⟩ := List.forall_mem_cons.mp hcs
    rw [Options.parseLetters] at ho
    split at ho
    · rename_i one hone
      refine flags_cons_iff.mpr (.inr (.inr ⟨hc, ih hcs ?_ ?_⟩))
      · rwa [Flags.part_assign, hone]
      · rwa [Flags.assign_assign]
    · cases ho

/-- **Option letters are read up to what ends them**, a colon or a closing
parenthesis.  The letters behind a hyphen are gathered apart from those before
it, `Flags.part`. -/
theorem flags_consumes (hletters : ∀ c ∈ set ++ clear.getD [], c ∈ groupFlags)
    (hadd : Options.parseLetters set .empty = .ok add)
    (hremove : Options.parseLetters (clear.getD []) .empty = .ok remove)
    (hmark : mark = ':' ∨ mark = ')') (rest : List Char) :
    Consumes (flags (optionLetters set clear ++ mark :: rest) {} false) ⟨add, remove, mark = ':'⟩
      rest := by
  rw [optionLetters, List.append_assoc]
  refine flags_letters (fun c hc => hletters c (List.mem_append_left _ hc)) hadd ?_
  cases clear with
  | none =>
    cases hremove
    exact flags_cons_iff.mpr (.inl ⟨hmark, rfl, rfl⟩)
  | some cs =>
    refine flags_cons_iff.mpr (.inr (.inl ⟨rfl, rfl, ?_⟩))
    refine flags_letters (fun c hc => hletters c (List.mem_append_right _ hc)) hremove ?_
    exact flags_cons_iff.mpr (.inl ⟨hmark, rfl, rfl⟩)

/-- Letters that were read up to a closing parenthesis are what the text begins
with. -/
theorem exists_of_flags (h : Consumes (flags s acc negated) v rest) (hcolon : v.colon = false) :
    ∃ set clear, (∀ c ∈ set ++ clear.getD [], c ∈ groupFlags) ∧ (negated = true → clear = none) ∧
      s = optionLetters set clear ++ ')' :: rest := by
  induction s generalizing acc negated with
  | nil =>
    obtain ⟨_, h⟩ := h
    cases h
  | cons c s ih =>
    rcases flags_cons_iff.mp h with ⟨hmark, rfl, rfl⟩ | ⟨rfl, rfl, hrest⟩ | ⟨hc, hrest⟩
    · have hc : c = ')' := hmark.resolve_left (by simpa using hcolon)
      exact ⟨[], none, by simp, fun _ => rfl, by rw [hc]; rfl⟩
    · obtain ⟨set, clear, hletters, hclear, rfl⟩ := ih hrest
      obtain rfl := hclear rfl
      refine ⟨[], some set, by simpa using hletters, nofun, ?_⟩
      simp [optionLetters]
    · obtain ⟨set, clear, hletters, hclear, rfl⟩ := ih hrest
      exact ⟨c :: set, clear, List.forall_mem_cons.mpr ⟨hc, hletters⟩, hclear, rfl⟩

/-! ### Leading options -/

/-- **A leading change of options is read.** -/
theorem leadingFlags_optionGroup (hX : o.xmlSchema = false)
    (hletters : ∀ c ∈ set ++ clear.getD [], c ∈ groupFlags) (hne : set ≠ [] ∨ clear ≠ none)
    (hadd : Options.parseLetters set .empty = .ok add)
    (hremove : Options.parseLetters (clear.getD []) .empty = .ok remove) (rest : List Char) :
    ∃ h, leadingFlags o (optionGroup set clear ++ rest) =
      .ok (some ⟨⟨add, remove, false⟩, rest, h⟩) := by
  obtain ⟨c, cs, hcs, hc⟩ : ∃ c cs, optionLetters set clear = c :: cs ∧
      (c = '-' ∨ c ∈ groupFlags) := by
    cases set with
    | cons c set => exact ⟨c, _, rfl, .inr (hletters c List.mem_cons_self)⟩
    | nil =>
      cases clear with
      | none => simp at hne
      | some clear => exact ⟨'-', clear, rfl, .inl rfl⟩
  have hread := flags_consumes hletters hadd hremove (.inr rfl) rest
  have htext : optionGroup set clear ++ rest = '(' :: '?' :: c :: (cs ++ ')' :: rest) := by
    simp [optionGroup, hcs]
  rw [hcs] at hread
  obtain ⟨hlt, hread⟩ := hread
  have hread : flags (c :: (cs ++ ')' :: rest)) {} false = .ok ⟨⟨add, remove, false⟩, rest, hlt⟩ :=
    hread
  rw [htext, leadingFlags, if_pos (by simpa [hX] using hc), hread]
  exact ⟨_, rfl⟩

/-- **Nothing else is read as a leading change of options.** -/
theorem beginsWithOptions_of_leadingFlags {r : Consumed Flags s}
    (h : leadingFlags o s = .ok (some r)) : BeginsWithOptions s := by
  unfold leadingFlags at h
  split at h
  · rename_i c rest
    split at h
    · rename_i hc
      have hc : o.xmlSchema = false ∧ (c = '-' ∨ c ∈ groupFlags) := by simpa using hc
      cases hread : flags (c :: rest) {} false with
      | error e =>
        rw [hread] at h
        cases h
      | ok read =>
        obtain ⟨v, rest', hlt⟩ := read
        have hcolon : v.colon = false := by
          rw [hread] at h
          cases hcolon : v.colon with
          | false => rfl
          | true => simp [Except.map, hcolon] at h
        obtain ⟨set, clear, hletters, -, htext⟩ := exists_of_flags ⟨hlt, hread⟩ hcolon
        refine ⟨set, clear, rest', hletters, ?_, ?_⟩
        · -- A closing parenthesis is neither a hyphen nor a letter.
          cases set with
          | cons c set => exact .inl (List.cons_ne_nil _ _)
          | nil =>
            refine .inr fun hclear => ?_
            rw [hclear] at htext
            cases htext
            simp [groupFlags] at hc
        · simp [optionGroup, htext]
    · cases h
  · cases h

/-! ### Contents of groups -/

variable {group : GroupReader} {ledger ledger' : Ledger} {t : List Char} {p : Pattern}
  {flags : Flags} {e : Failure} {limit : Nat}

/-- Contents without a leading change of options are the alternatives alone. -/
theorem scansTo_alternation_of_none (h : leadingFlags o s = .ok none) :
    ScansTo (alternation group o ledger s) (p, ledger') rest ↔
      ∃ ps, ScansTo (branches group o ledger s) (ps, ledger') rest ∧ p = .alt ps := by
  rw [alternation, h]
  exact ScansTo.bind_ok_iff fun r => ⟨rfl, rfl⟩

/-- Contents with a leading change of options, which holds for all alternatives. -/
theorem scansTo_alternation_of_some {hlt : t.length < s.length}
    (h : leadingFlags o s = .ok (some ⟨flags, t, hlt⟩)) :
    ScansTo (alternation group o ledger s) (p, ledger') rest ↔
      ∃ ps, ScansTo (branches group (o.modify flags.add flags.remove) ledger t) (ps, ledger') rest ∧
        p = .modifier flags.add flags.remove (.alt ps) := by
  rw [alternation, h]
  exact ScansTo.bind_ok_iff fun r => ⟨rfl, rfl⟩

/-- A whole text is read if nothing is left of it and the groups are there that
it refers to. -/
theorem whole_eq_ok_iff : whole o limit s = .ok p ↔ ∃ ledger,
    ScansTo (alternation (groupWithin limit limit) o {} s) (p, ledger) [] ∧
      ledger.undefined? = none := by
  rw [whole]
  cases alternation (groupWithin limit limit) o {} s with
  | error e => exact ⟨nofun, nofun⟩
  | ok r =>
    obtain ⟨⟨q, ledger⟩, rest, hle⟩ := r
    simp only [bind, Except.bind]
    constructor
    · intro h
      split at h
      · rename_i hempty
        obtain rfl := List.isEmpty_iff.mp hempty
        split at h
        · cases h
        · rename_i hdefined
          cases h
          exact ⟨ledger, ⟨hle, rfl⟩, hdefined⟩
      · cases h
    · rintro ⟨_, ⟨_, heq⟩, hdefined⟩
      cases heq
      rw [if_pos (show ([] : List Char).isEmpty = true from rfl), hdefined]

/-! ### A change of options in front of a text -/

/-- A group at the start that cannot be read makes the alternatives fail with
its error. -/
theorem branches_error (h : group o ledger ('(' :: s) = .error e) :
    branches group o ledger ('(' :: s) = .error e := by
  have hskip : skip o.extended ('(' :: s) = '(' :: s := by cases o.extended <;> rfl
  have hcontinues : continuesBranch (skip o.extended ('(' :: s)) = true := by
    rw [hskip]
    rfl
  have hatom : atom group o ledger (skip o.extended ('(' :: s)) = .error e := by
    rw [hskip]
    exact h
  rw [branches, branch, branchItems.eq_def]
  simp only [hcontinues, if_true, hatom]
  rfl

/-- Option letters begin a group with changed options. -/
theorem specialGroup_of_flags (hc : c = '-' ∨ c ∈ groupFlags) (start s : List Char) :
    specialGroup group o ledger start (c :: s) = modifierGroup group o ledger start (c :: s) := by
  simp only [groupFlags, List.mem_cons, List.not_mem_nil, or_false] at hc
  rcases hc with rfl | rfl | rfl | rfl | rfl | rfl | rfl <;> rfl

/-- A group of which the option letters cannot be read fails with the error of
the letters. -/
theorem group_error_of_flags (hX : o.xmlSchema = false) (hc : c = '-' ∨ c ∈ groupFlags)
    (h : Parser.flags (c :: s) {} false = .error e) :
    Parser.group group o ledger ('(' :: '?' :: c :: s) = .error e := by
  have hbody : groupBody group o ledger ('(' :: '?' :: c :: s) ('?' :: c :: s) = .error e := by
    simp only [groupBody, hX, Bool.false_eq_true, if_false]
    rw [specialGroup_of_flags hc, modifierGroup, h]
    rfl
  rw [Parser.group, hbody]
  rfl

/-- Where a leading change of options cannot be read, no group can be read
either. -/
theorem branches_error_of_leadingFlags (h : leadingFlags o s = .error e) :
    ∃ e', branches (groupWithin limit limit) o ledger s = .error e' := by
  unfold leadingFlags at h
  split at h
  · rename_i c rest
    split at h
    · rename_i hc
      have hc : o.xmlSchema = false ∧ (c = '-' ∨ c ∈ groupFlags) := by simpa using hc
      cases hread : Parser.flags (c :: rest) {} false with
      | ok r =>
        rw [hread] at h
        cases h
      | error f =>
        cases limit with
        | zero => exact ⟨_, branches_error rfl⟩
        | succ n => exact ⟨f, branches_error (group_error_of_flags hc.1 hc.2 hread)⟩
    · cases h
  · cases h

/-- **A text that begins with a change of options** is read into a modifier
around what the rest of the text is read into under the changed options. -/
theorem whole_optionGroup (hX : o.xmlSchema = false)
    (hletters : ∀ c ∈ set ++ clear.getD [], c ∈ groupFlags) (hne : set ≠ [] ∨ clear ≠ none)
    (hadd : Options.parseLetters set .empty = .ok add)
    (hremove : Options.parseLetters (clear.getD []) .empty = .ok remove)
    (hs : ¬ BeginsWithOptions s) :
    whole o limit (optionGroup set clear ++ s) = .ok p ↔
      ∃ q, whole (o.modify add remove) limit s = .ok q ∧ p = .modifier add remove q := by
  obtain ⟨hlt, hflags⟩ := leadingFlags_optionGroup hX hletters hne hadd hremove s
  cases hlead : leadingFlags (o.modify add remove) s with
  | error e =>
    -- Neither text is read.
    obtain ⟨e', he'⟩ : ∃ e', branches (groupWithin limit limit) (o.modify add remove) {} s =
        .error e' := branches_error_of_leadingFlags hlead
    constructor
    · intro h
      obtain ⟨ledger, hscans, -⟩ := whole_eq_ok_iff.mp h
      obtain ⟨ps, ⟨_, hps⟩, -⟩ := (scansTo_alternation_of_some hflags).mp hscans
      cases he'.symm.trans hps
    · rintro ⟨q, h, -⟩
      obtain ⟨ledger, ⟨_, hscans⟩, -⟩ := whole_eq_ok_iff.mp h
      rw [alternation, hlead] at hscans
      cases hscans
  | ok leading =>
    cases leading with
    | some r => exact absurd (beginsWithOptions_of_leadingFlags hlead) hs
    | none =>
      simp only [whole_eq_ok_iff, scansTo_alternation_of_some hflags,
        scansTo_alternation_of_none hlead]
      constructor
      · rintro ⟨ledger, ⟨ps, hps, rfl⟩, hdefined⟩
        exact ⟨_, ⟨ledger, ⟨ps, hps, rfl⟩, hdefined⟩, rfl⟩
      · rintro ⟨_, ⟨ledger, ⟨ps, hps, rfl⟩, hdefined⟩, rfl⟩
        exact ⟨ledger, ⟨ps, hps, rfl⟩, hdefined⟩

end Parser

/-- A pattern is read if the whole text is.  Only a failure differs, which tells
a byte offset and not the rest. -/
theorem parse_eq_ok_iff {opts : Options} {text : String} {limit : Nat} {p : Pattern} :
    parse opts text limit = .ok p ↔ Parser.whole opts limit text.toList = .ok p := by
  rw [parse]
  cases Parser.whole opts limit text.toList with
  | error e => exact ⟨nofun, nofun⟩
  | ok q => simp only [Except.ok.injEq]

end Regexp.Pattern
