import Mathlib.Data.List.Range
import Regexp.Proofs.Dialect
import Regexp.Proofs.PrintedText

/-!
# Patterns that come from text

Not every tree can be read from a text.  Those that can have a shape:
alternatives hold sequences, sequences hold items that are repeated or not, and
what is repeated is an atom.  Their groups are numbered in the order in which
they are opened.

`Rank` are the places at which a pattern can stand in a text, and
`Pattern.Written` are the trees of each rank.  It is an inductive relation with
the grammar of patterns as its rules, so that a proof about trees that come from
text is an induction on it, with one case for each rule; it is what printing and
reading back rests on.  The one rule that is not a matter of grammar is the one
for sequences, in which literals are joined: a sequence in normal form has no
two literals side by side, whatever its parts were
(`Pattern.isChain_joinLiterals`), and it has the shape of a sequence
(`Pattern.seq_written`).

Shape and numbers are shown together (`Parser.ReadAs`), since the readers are
gone through only once.  `Parser.Numbered` says of groups that they have the
numbers after those of the groups opened so far, in order, and it composes along
the ledger.

## Main definitions

* `Rank`, `Pattern.Written` — the shape of the trees that are read from texts.
* `Pattern.groupIndices` — the numbers of the groups, in the order in which they
  are opened.
* `Parser.Numbered` — groups that have the numbers after those of the groups
  opened so far.

## Main statements

* `Pattern.seq_written` — a sequence in normal form has the shape of a sequence.
* `Parser.alternation_readAs` — the contents of a group have their shape.
* `Pattern.parse_written` — so has a whole pattern, with its groups numbered
  from one.
-/

namespace Regexp

/-- The places at which a pattern can stand in a text, from what binds most
tightly on.  They are the levels of the grammar. -/
inductive Rank where
  /-- What a quantifier can follow. -/
  | atom
  /-- A part of a sequence. -/
  | item
  /-- One of the alternatives. -/
  | branch
  /-- All that is in a group. -/
  | contents
  deriving DecidableEq

namespace Pattern

/-- Whether a pattern is some literal text.  No two of these stand next to each
other in a sequence that was read. -/
def isLiteral : Pattern → Bool
  | .char _ | .string _ => true
  | _ => false

theorem isLiteral_eq_false {p : Pattern} (hchar : ∀ c, p ≠ .char c) (hstring : ∀ s, p ≠ .string s) :
    p.isLiteral = false := by
  cases p with
  | char c => exact absurd rfl (hchar c)
  | string s => exact absurd rfl (hstring s)
  | _ => rfl

/-- The trees of each rank, where a modifier only makes changes of options that
are allowed.  It is the grammar as a predicate on trees: printing is right for
the trees of a rank, and reading gives no others. -/
inductive Written (allowed : Options → Options → Prop) : Rank → Pattern → Prop
  | char (c : Char) : Written allowed .atom (.char c)
  | dot : Written allowed .atom .dot
  | charClass (set : CharSet) (negated : Bool) : Written allowed .atom (.charClass set negated)
  | anchor (a : Anchor) : Written allowed .atom (.anchor a)
  | backref {n : ℕ} (hn : n < 10) : Written allowed .atom (.backref n)
  | group (index : Option ℕ) {body : Pattern} (h : Written allowed .contents body) :
    Written allowed .atom (.group index body)
  | look (kind : LookKind) {body : Pattern} (h : Written allowed .contents body) :
    Written allowed .atom (.look kind body)
  | independent {body : Pattern} (h : Written allowed .contents body) :
    Written allowed .atom (.independent body)
  | modifier {add remove : Options} {body : Pattern} (ha : allowed add remove)
    (h : Written allowed .contents body) : Written allowed .atom (.modifier add remove body)
  | ifGroup {n : ℕ} {yes : Pattern} {no : Option Pattern} (hpos : 0 < n) (hn : n ≤ Parser.maxCount)
    (hyes : Written allowed .branch yes) (hno : ∀ q ∈ no, Written allowed .branch q) :
    Written allowed .atom (.ifGroup n yes no)
  | ifLook (kind : LookKind) {test yes : Pattern} {no : Option Pattern}
    (htest : Written allowed .contents test) (hyes : Written allowed .branch yes)
    (hno : ∀ q ∈ no, Written allowed .branch q) :
    Written allowed .atom (.ifLook (.look kind test) yes no)
  | ofAtom {p : Pattern} (h : Written allowed .atom p) : Written allowed .item p
  | string {cs : List Char} (hlen : 2 ≤ cs.length) : Written allowed .item (.string cs)
  | repetition {body : Pattern} {min : ℕ} {max : Option ℕ} (greedy : Bool)
    (h : Written allowed (if body.isAtom then .atom else .contents) body)
    (hbounds : Parser.Bounds min max) :
    Written allowed .item (.repetition body min max greedy)
  | empty : Written allowed .branch .empty
  | ofItem {p : Pattern} (h : Written allowed .item p) : Written allowed .branch p
  | concat {items : List Pattern} (hlen : 2 ≤ items.length)
    (hjoined : items.IsChain fun p q => ¬ (p.isLiteral = true ∧ q.isLiteral = true))
    (h : ∀ p ∈ items, Written allowed .item p) : Written allowed .branch (.concat items)
  | ofBranch {p : Pattern} (h : Written allowed .branch p) : Written allowed .contents p
  | union {ps : List Pattern} (hlen : 2 ≤ ps.length) (h : ∀ p ∈ ps, Written allowed .branch p) :
    Written allowed .contents (.union ps)

namespace Written

variable {allowed : Options → Options → Prop} {p : Pattern}

theorem contents_of_item (h : Written allowed .item p) : Written allowed .contents p :=
  .ofBranch (.ofItem h)

theorem contents_of_atom (h : Written allowed .atom p) : Written allowed .contents p :=
  contents_of_item (.ofAtom h)

end Written

/-! ### Numbers of groups -/

mutual

/-- The numbers of the groups that capture, in the order in which they are
opened, which is that of their opening parentheses. -/
def groupIndices : Pattern → List ℕ
  | .concat items => groupIndicesAll items
  | .union alternatives => groupIndicesAll alternatives
  | .repetition body _ _ _ => groupIndices body
  | .group (some i) body => i :: groupIndices body
  | .group none body => groupIndices body
  | .look _ body => groupIndices body
  | .independent body => groupIndices body
  | .modifier _ _ body => groupIndices body
  | .ifGroup _ yes none => groupIndices yes
  | .ifGroup _ yes (some no) => groupIndices yes ++ groupIndices no
  | .ifLook test yes none => groupIndices test ++ groupIndices yes
  | .ifLook test yes (some no) => groupIndices test ++ groupIndices yes ++ groupIndices no
  | _ => []
  termination_by structural p => p

/-- The numbers of the groups of several patterns, in the order in which the
patterns stand. -/
def groupIndicesAll : List Pattern → List ℕ
  | [] => []
  | p :: ps => groupIndices p ++ groupIndicesAll ps
  termination_by structural ps => ps

end

variable {ps qs : List Pattern} {p : Pattern}

theorem groupIndicesAll_append :
    groupIndicesAll (ps ++ qs) = groupIndicesAll ps ++ groupIndicesAll qs := by
  induction ps with
  | nil => rfl
  | cons p ps ih => rw [List.cons_append, groupIndicesAll, ih, groupIndicesAll, List.append_assoc]

theorem groupIndicesAll_singleton : groupIndicesAll [p] = p.groupIndices := List.append_nil _

/-! ### Sequences in normal form -/

section

variable {allowed : Options → Options → Prop}

/-- The parts of a sequence that are no empty patterns are items, and what is
left out has no groups. -/
theorem partsOfAll_of_items (h : ∀ p ∈ ps, p = .empty ∨ Written allowed .item p) :
    (∀ p ∈ partsOfAll ps, Written allowed .item p) ∧
      groupIndicesAll (partsOfAll ps) = groupIndicesAll ps := by
  induction ps with
  | nil => exact ⟨nofun, rfl⟩
  | cons p ps ih =>
    obtain ⟨hp, hps⟩ := List.forall_mem_cons.mp h
    obtain ⟨hitems, hindices⟩ := ih hps
    rcases hp with rfl | hp
    · exact ⟨hitems, hindices⟩
    · have hparts : p.parts = [p] := by
        cases hp with
        | ofAtom hp => cases hp <;> rfl
        | string | repetition => rfl
      rw [partsOfAll, hparts, List.singleton_append, groupIndicesAll, groupIndicesAll, hindices]
      exact ⟨List.forall_mem_cons.mpr ⟨hp, hitems⟩, rfl⟩

/-- A list that has not one element but is not empty. -/
theorem two_le_length {α : Type} {l : List α} (hnil : l ≠ []) (hone : ∀ a, l ≠ [a]) :
    2 ≤ l.length := by
  match l, hnil, hone with
  | [], hnil, _ => exact absurd rfl hnil
  | [a], _, hone => exact absurd rfl (hone a)
  | _ :: _ :: _, _, _ => simp

/-- Whether patterns are items of which no two literals stand next to each
other. -/
def Joined (allowed : Options → Options → Prop) (ps : List Pattern) : Prop :=
  (∀ p ∈ ps, Written allowed .item p) ∧
    ps.IsChain fun p q => ¬ (p.isLiteral = true ∧ q.isLiteral = true)

/-- Pending characters in front of patterns that do not begin with a literal.
Whether they become a character, a string or nothing, they meet no other
literal. -/
theorem isChain_consLiteral (pending : List Char)
    (h : ps.IsChain fun p q => ¬ (p.isLiteral = true ∧ q.isLiteral = true))
    (hhead : ∀ p ∈ ps.head?, p.isLiteral = false) :
    (consLiteral pending ps).IsChain fun p q => ¬ (p.isLiteral = true ∧ q.isLiteral = true) := by
  have hcons : ∀ l : Pattern, ∀ q ∈ ps.head?, ¬ (l.isLiteral = true ∧ q.isLiteral = true) := by
    intro l q hq hboth
    rw [hhead q hq] at hboth
    cases hboth.2
  rw [consLiteral.eq_def]
  split
  · exact h
  · exact List.isChain_cons.mpr ⟨hcons _, h⟩
  · exact List.isChain_cons.mpr ⟨hcons _, h⟩

/-- **Neighbouring literals are joined**, whatever the patterns are. -/
theorem isChain_joinLiterals (pending : List Char) (ps : List Pattern) :
    (joinLiterals pending ps).IsChain fun p q => ¬ (p.isLiteral = true ∧ q.isLiteral = true) := by
  fun_induction joinLiterals pending ps with
  | case1 pending => exact isChain_consLiteral pending .nil (by simp)
  | case2 pending c ps ih | case3 pending s ps ih => exact ih
  | case4 pending p ps hchar hstring ih =>
    have hliteral : p.isLiteral = false := isLiteral_eq_false hchar hstring
    refine isChain_consLiteral pending (List.isChain_cons.mpr ⟨fun q _ => ?_, ih⟩) ?_
    · simp [hliteral]
    · simpa using hliteral

theorem groupIndicesAll_consLiteral (pending : List Char) :
    groupIndicesAll (consLiteral pending ps) = groupIndicesAll ps := by
  rw [consLiteral.eq_def]
  split <;> rfl

theorem groupIndicesAll_joinLiterals (pending : List Char) :
    groupIndicesAll (joinLiterals pending ps) = groupIndicesAll ps := by
  fun_induction joinLiterals pending ps with
  | case1 pending => exact groupIndicesAll_consLiteral pending
  | case2 _ _ _ ih | case3 _ _ _ ih => exact ih
  | case4 pending _ _ _ _ ih =>
    rw [groupIndicesAll_consLiteral, groupIndicesAll, ih, groupIndicesAll]

/-- Items with their literals joined are items, with the same groups.  Literals
have no groups, so joining them loses none. -/
theorem joinLiterals_joined (pending : List Char) (h : ∀ p ∈ ps, Written allowed .item p) :
    Joined allowed (joinLiterals pending ps) ∧
      groupIndicesAll (joinLiterals pending ps) = groupIndicesAll ps := by
  have hitems : ∀ p ∈ joinLiterals pending ps, Written allowed .item p :=
    forall_mem_joinLiterals (fun c => .ofAtom (.char c)) (fun _ => .string) pending h
  exact ⟨⟨hitems, isChain_joinLiterals pending ps⟩, groupIndicesAll_joinLiterals pending⟩

/-- **A sequence in normal form has the shape of a sequence**, with the groups
of its parts. -/
theorem seq_written (h : ∀ p ∈ ps, p = .empty ∨ Written allowed .item p) :
    Written allowed .branch (seq ps) ∧ (seq ps).groupIndices = groupIndicesAll ps := by
  obtain ⟨hitems, hindices⟩ := partsOfAll_of_items h
  obtain ⟨⟨hitems, hchain⟩, hindices'⟩ := joinLiterals_joined [] hitems
  rw [← hindices, ← hindices', seq]
  generalize joinLiterals [] (partsOfAll ps) = items at hitems hchain
  rw [ofParts.eq_def]
  split
  · exact ⟨.empty, rfl⟩
  · exact ⟨.ofItem (hitems _ List.mem_cons_self), groupIndicesAll_singleton.symm⟩
  · exact ⟨.concat (two_le_length ‹_› ‹_›) hchain hitems, rfl⟩

/-- Alternatives have the shape of contents, with the groups of each of them.
One alternative alone is a branch, and several are a union. -/
theorem alt_written (hne : ps ≠ []) (h : ∀ p ∈ ps, Written allowed .branch p) :
    Written allowed .contents (alt ps) ∧ (alt ps).groupIndices = groupIndicesAll ps := by
  rw [alt.eq_def]
  split
  · exact ⟨.ofBranch (h _ List.mem_cons_self), groupIndicesAll_singleton.symm⟩
  · exact ⟨.union (two_le_length hne ‹_›) h, rfl⟩

end

namespace Parser

/-! ### Ledgers -/

/-- Whether the groups of a pattern have the numbers after those of the groups
that were open before it was read, in order. -/
def Numbered (l : Ledger) (p : Pattern) (l' : Ledger) : Prop :=
  ∃ n, l'.groups = l.groups + n ∧ p.groupIndices = List.range' (l.groups + 1) n

variable {l l₁ l₂ : Ledger} {q : Pattern} {items : List Pattern}

namespace Numbered

theorem plain (h : p.groupIndices = []) (hgroups : l₁.groups = l.groups) : Numbered l p l₁ :=
  ⟨0, by rw [hgroups, Nat.add_zero], by rw [h, List.range'_zero]⟩

theorem congr (h : Numbered l p l₁) (heq : q.groupIndices = p.groupIndices) : Numbered l q l₁ := by
  obtain ⟨n, hgroups, hindices⟩ := h
  exact ⟨n, hgroups, heq.trans hindices⟩

/-- Patterns that were read one after the other: the numbers of the second
continue those of the first. -/
theorem append (h : Numbered l p l₁) (h' : Numbered l₁ q l₂) {both : Pattern}
    (heq : both.groupIndices = p.groupIndices ++ q.groupIndices) : Numbered l both l₂ := by
  obtain ⟨n, hgroups, hindices⟩ := h
  obtain ⟨m, hgroups', hindices'⟩ := h'
  refine ⟨n + m, by omega, ?_⟩
  rw [heq, hindices, hindices', hgroups, Nat.add_right_comm, List.range'_append_1]

/-- A group that was opened before its body.  Its number is the next one, and
those of its body follow. -/
theorem opened (h : Numbered { l with groups := l.groups + 1 } p l₁) :
    Numbered l (.group (some (l.groups + 1)) p) l₁ := by
  obtain ⟨n, hgroups, hindices⟩ := h
  refine ⟨n + 1, hgroups.trans (Nat.add_right_comm _ _ _), ?_⟩
  rw [groupIndices, hindices, List.range'_succ]

end Numbered

/-- Whether a group may make a change of options: there are options that hold
for a whole pattern, and those it cannot name. -/
def Changes (add remove : Options) : Prop := IsLocal add ∧ IsLocal remove

/-- Whether a pattern that was read has the shape of its place, if it is not
empty, and the groups that were opened for it. -/
structure ReadAs (rank : Rank) (l : Ledger) (p : Pattern) (l' : Ledger) : Prop where
  written : p = .empty ∨ Written Changes rank p
  numbered : Numbered l p l'

namespace ReadAs

variable {rank : Rank}

/-- A construct without groups is read as itself if no group was opened for it. -/
theorem plain (h : Written Changes rank p) (hindices : p.groupIndices = [])
    (hgroups : l₁.groups = l.groups) : ReadAs rank l p l₁ := ⟨.inr h, .plain hindices hgroups⟩

theorem branch (h : ReadAs .branch l p l₁) : Written Changes .branch p := by
  rcases h.written with rfl | h
  · exact .empty
  · exact h

theorem contents (h : ReadAs .contents l p l₁) : Written Changes .contents p := by
  rcases h.written with rfl | h
  · exact .ofBranch .empty
  · exact h

theorem contents_of_atom (h : ReadAs .atom l p l₁) : ReadAs .contents l p l₁ :=
  ⟨h.written.imp_right Written.contents_of_atom, h.numbered⟩

/-- A construct with contents has the groups of its contents, and is an atom. -/
theorem wrap {wrap : Pattern → Pattern} (h : ReadAs .contents l p l₁)
    (hwritten : Written Changes .contents p → Written Changes .atom (wrap p))
    (hindices : (wrap p).groupIndices = p.groupIndices) : ReadAs .atom l (wrap p) l₁ :=
  ⟨.inr (hwritten h.contents), h.numbered.congr hindices⟩

end ReadAs

/-! ### Option letters -/

variable {opts : Options} {s : List Char}

theorem IsLocal.union {o o' : Options} (h : IsLocal o) (h' : IsLocal o') :
    IsLocal (o.union o') := by
  obtain ⟨h₁, h₂, h₃, h₄⟩ := h
  obtain ⟨h₁', h₂', h₃', h₄'⟩ := h'
  constructor <;> simp [Options.union, Options.zipWith, *]

theorem isLocal_ofLetter {c : Char} (hc : c ∈ groupFlags) :
    IsLocal ((Options.ofLetter? c).getD {}) := by
  simp only [groupFlags, List.mem_cons, List.not_mem_nil, or_false] at hc
  rcases hc with rfl | rfl | rfl | rfl | rfl | rfl <;> exact ⟨rfl, rfl, rfl, rfl⟩

/-- Option letters name options that a group may change, among those added as
well as among those removed. -/
theorem flags_changes (s : List Char) {acc : Flags} {negated : Bool}
    (hacc : Changes acc.add acc.remove) :
    Yields (fun r => Changes r.value.add r.value.remove) (flags s acc negated) := by
  fun_induction flags s acc negated with
  | case1 => exact .error
  | case2 => exact .ok hacc
  | case3 acc negated c rest continued hmark hhyphen ih => exact (ih hacc).map fun _ h => h
  | case4 acc negated c rest continued hmark hhyphen hletter o ih =>
    have ho : IsLocal o := isLocal_ofLetter (by simpa using hletter)
    refine (ih ?_).map fun _ h => h
    cases negated with
    | false => exact ⟨hacc.1.union ho, hacc.2⟩
    | true => exact ⟨hacc.1, hacc.2.union ho⟩
  | case5 => exact .error

theorem changes_none : Changes {} {} := ⟨⟨rfl, rfl, rfl, rfl⟩, ⟨rfl, rfl, rfl, rfl⟩⟩

/-- So do those at the start of a group. -/
theorem leadingFlags_changes (opts : Options) (s : List Char) :
    Yields (fun r => ∀ f ∈ r, Changes f.value.add f.value.remove) (leadingFlags opts s) := by
  rw [leadingFlags.eq_def]
  split
  · split
    · refine (flags_changes _ changes_none).map fun r hr f hf => ?_
      split at hf
      · cases hf
      · cases hf
        exact hr
    · exact .ok (by simp)
  · exact .ok (by simp)

/-! ### Quantifiers -/

/-- A construct that a quantifier can stand behind: either an atom, or the empty
pattern, which is printed in a group of its own. -/
theorem repeated_written (h : p = .empty ∨ Written Changes .atom p) :
    Written Changes (if p.isAtom then .atom else .contents) p := by
  rcases h with rfl | h
  · exact .ofBranch .empty
  · split
    · exact h
    · exact h.contents_of_atom

/-- **A construct with its quantifier** is a part of a sequence.  If there is no
quantifier it is the construct itself. -/
theorem quantified_readAs (h : ReadAs .atom l p l₁) (s : List Char) :
    Yields (fun r => ReadAs .item l r.value l₁) (quantified opts p s) := by
  refine (quantifier?_yields _).bind fun q hq => ?_
  cases q with
  | none => exact .ok ⟨h.written.imp_right .ofAtom, h.numbered⟩
  | some q =>
    obtain ⟨⟨min, max⟩, rest, hlt⟩ := q
    have hbounds : Bounds min max := hq _ rfl
    have hrepeats : ∀ greedy, ReadAs .item l (.repetition p min max greedy) l₁ := fun greedy =>
      ⟨.inr (.repetition greedy (repeated_written h.written) hbounds), h.numbered.congr rfl⟩
    simp only
    split
    · split
      · exact .error
      · split
        · exact .error
        · exact .ok (hrepeats _)
    · split
      · exact .error
      · exact .ok (hrepeats _)

/-! ### Escapes -/

/-- A sequence of items without groups, in a group without an index, is an atom.
Escapes for more than one character are read as these. -/
theorem readAs_group_seq (hps : ∀ p ∈ ps, Written Changes .item p)
    (hnone : groupIndicesAll ps = []) : ReadAs .atom l (.group none (.seq ps)) l := by
  obtain ⟨hwritten, hindices⟩ := seq_written fun p hp => .inr (hps p hp)
  exact .plain (.group none (.ofBranch hwritten)) (hindices.trans hnone) rfl

theorem readAs_combiningSequence : ReadAs .atom l combiningSequence l := by
  refine readAs_group_seq (List.forall_mem_cons.mpr ⟨.ofAtom (.charClass _ _), ?_⟩) rfl
  refine List.forall_mem_singleton.mpr ?_
  exact .repetition _ (.charClass _ _) ⟨nofun, Nat.zero_le _, nofun⟩

theorem readAs_grapheme : ReadAs .atom l grapheme l := by
  have hclass : ∀ set, Written Changes .branch (.charClass set false) := fun set =>
    .ofItem (.ofAtom (.charClass set _))
  have hjoined : let joined := seq [.charClass (.ofChars viramas) false,
        .charClass (GeneralCategory.union GeneralCategory.letterCategories) false]
      Written Changes .branch joined ∧ joined.groupIndices = [] := seq_written
    (List.forall_mem_cons.mpr ⟨.inr (.ofAtom (.charClass _ _)), List.forall_mem_singleton.mpr
      (.inr (.ofAtom (.charClass _ _)))⟩)
  refine readAs_group_seq (List.forall_mem_cons.mpr ⟨?_, List.forall_mem_singleton.mpr ?_⟩) ?_
  · exact .repetition _ (.charClass _ _) ⟨by simp, Nat.zero_le _, by simp; decide⟩
  · refine .repetition _ ?_ ⟨nofun, Nat.zero_le _, nofun⟩
    exact .union (Nat.le_refl 2) (List.forall_mem_cons.mpr
      ⟨hjoined.1, List.forall_mem_singleton.mpr (hclass _)⟩)
  · simp [groupIndicesAll, groupIndices, alt, hjoined.2]

/-- An escape is an atom without numbered groups.  One that stands for several
characters is a group without an index. -/
theorem escape_readAs (ledger : Ledger) (s : List Char) :
    Yields (fun r => ReadAs .atom ledger r.value.1 r.value.2) (escape opts ledger s) := by
  rw [escape.eq_def]
  split
  · exact .error
  · exact .error
  · refine Yields.trivial.bind fun k _ => ?_
    cases k with
    | some k => exact .ok (.plain (.charClass _ _) rfl rfl)
    | none =>
      simp only
      split
      · exact Yields.trivial.map fun _ _ => .plain (.char _) rfl rfl
      split
      · exact .ok (.plain (.anchor _) rfl rfl)
      split
      · rename_i n hdigit
        have hn : n < 10 := by simpa using (Option.filter_eq_some_iff.mp hdigit).2
        exact .ok (.plain (.backref hn) rfl rfl)
      split
      · exact .ok readAs_combiningSequence
      split
      · exact .ok readAs_grapheme
      · exact Yields.trivial.map fun _ _ => .plain (.char _) rfl rfl

/-! ### Sequences and alternatives -/

/-- Whether the patterns that a reader for groups reads are atoms.  The readers
of sequences take the reader for groups as a parameter, and this is what they
ask of it. -/
def GroupReadsAs (group : GroupReader) : Prop := ∀ opts ledger s,
  Yields (fun r => ReadAs .atom ledger r.value.1 r.value.2) (group opts ledger s)

variable {group : GroupReader} (hgroup : GroupReadsAs group)

include hgroup

theorem atom_readAs (ledger : Ledger) (s : List Char) :
    Yields (fun r => ReadAs .atom ledger r.value.1 r.value.2) (atom group opts ledger s) := by
  rw [atom.eq_def]
  split
  · exact .error
  · simp only
    split
    · exact hgroup _ _ _
    split
    · exact Yields.trivial.map fun _ _ => .plain (.charClass _ _) rfl rfl
    split
    · exact escape_readAs _ _
    split
    · exact .error
    split
    · exact .error
    split
    · split
      · exact .ok (.plain (.charClass _ _) rfl rfl)
      · exact .ok (.plain .dot rfl rfl)
    split
    · exact .ok (.plain (.anchor _) rfl rfl)
    split
    · exact .ok (.plain (.anchor _) rfl rfl)
    · exact .ok (.plain (.char _) rfl rfl)

theorem branchItems_readAs (ledger : Ledger) (s : List Char) (items : List Pattern)
    (hitems : ∀ p ∈ items, p = .empty ∨ Written Changes .item p)
    (hnumbered : Numbered l (.concat items.reverse) ledger) :
    Yields (fun r => ReadAs .branch l r.value.1 r.value.2)
      (branchItems group opts ledger s items) := by
  fun_induction branchItems group opts ledger s items with
  | case1 ledger s items t ht hcontinues ih =>
    refine (atom_readAs hgroup ledger t).bind ?_
    rintro ⟨⟨p, ledger'⟩, rest, hlt⟩ hp
    refine (quantified_readAs hp rest).bind ?_
    rintro ⟨p, rest', hle⟩ hp
    refine (ih ledger' rest hlt p rest' hle (List.forall_mem_cons.mpr ⟨hp.written, hitems⟩)
      (hnumbered.append hp.numbered ?_)).bind fun r hr => .ok hr
    rw [groupIndices, List.reverse_cons, groupIndicesAll_append, groupIndicesAll_singleton,
      groupIndices]
  | case2 ledger s items t ht hcontinues =>
    have hreverse : ∀ p ∈ items.reverse, p = .empty ∨ Written Changes .item p := by
      simpa using hitems
    obtain ⟨hwritten, hindices⟩ := seq_written hreverse
    exact .ok ⟨.inr hwritten, hnumbered.congr hindices⟩

/-- A sequence has its shape, from a reader for groups that reads atoms. -/
theorem branch_readAs (ledger : Ledger) (s : List Char) :
    Yields (fun r => ReadAs .branch ledger r.value.1 r.value.2) (branch group opts ledger s) :=
  branchItems_readAs hgroup ledger s [] nofun (.plain rfl rfl)

omit hgroup in
/-- A sequence after others.  Alternatives are collected in reverse, so the last
one stands at the front. -/
theorem Numbered.snoc {alternatives : List Pattern}
    (h : Numbered l (.concat alternatives.reverse) l₁) (hp : Numbered l₁ p l₂) :
    Numbered l (.concat (p :: alternatives).reverse) l₂ := by
  refine h.append hp ?_
  rw [groupIndices, List.reverse_cons, groupIndicesAll_append, groupIndicesAll_singleton,
    groupIndices]

/-- Whether sequences that were read have their shape, with the groups that were
opened for them. -/
structure BranchesReadAs (l : Ledger) (ps : List Pattern) (l' : Ledger) : Prop where
  nonempty : ps ≠ []
  written : ∀ p ∈ ps, Written Changes .branch p
  numbered : Numbered l (.concat ps) l'

omit hgroup in
/-- Alternatives are contents, numbered from the first alternative to the last. -/
theorem BranchesReadAs.alt (h : BranchesReadAs l ps l₁) : ReadAs .contents l (.alt ps) l₁ := by
  obtain ⟨hwritten, hindices⟩ := alt_written h.nonempty h.written
  exact ⟨.inr hwritten, h.numbered.congr hindices⟩

theorem moreBranches_readAs (ledger : Ledger) (s : List Char) (alternatives : List Pattern)
    (halternatives : BranchesReadAs l alternatives.reverse ledger) :
    Yields (fun r => BranchesReadAs l r.value.1 r.value.2)
      (moreBranches group opts ledger s alternatives) := by
  fun_induction moreBranches group opts ledger s alternatives with
  | case1 ledger alternatives rest ih =>
    refine (branch_readAs hgroup ledger rest).bind ?_
    rintro ⟨⟨p, ledger'⟩, rest', hle⟩ hp
    refine (ih p ledger' rest' hle ⟨by simp, ?_, halternatives.numbered.snoc hp.numbered⟩).bind
      fun r hr => .ok hr
    rw [List.reverse_cons]
    exact List.forall_mem_append.mpr
      ⟨halternatives.written, List.forall_mem_singleton.mpr hp.branch⟩
  | case2 ledger s alternatives => exact .ok halternatives

theorem branches_readAs (ledger : Ledger) (s : List Char) :
    Yields (fun r => BranchesReadAs ledger r.value.1 r.value.2) (branches group opts ledger s) := by
  refine (branch_readAs hgroup ledger s).bind fun ⟨⟨p, ledger'⟩, rest, hle⟩ hp => ?_
  refine (moreBranches_readAs hgroup ledger' rest [p] ⟨by simp, ?_, ?_⟩).bind fun r hr => .ok hr
  · exact List.forall_mem_singleton.mpr hp.branch
  · exact hp.numbered.congr groupIndicesAll_singleton

/-- **The contents of a group have their shape.** -/
theorem alternation_readAs (ledger : Ledger) (s : List Char) :
    Yields (fun r => ReadAs .contents ledger r.value.1 r.value.2)
      (alternation group opts ledger s) := by
  refine (leadingFlags_changes opts s).bind fun flags hflags => ?_
  cases flags with
  | none =>
    exact (branches_readAs hgroup ledger s).bind fun r hr => .ok hr.alt
  | some flags =>
    refine (branches_readAs hgroup ledger flags.rest).bind fun r hr => .ok ?_
    exact (hr.alt.wrap (.modifier (hflags flags rfl)) rfl).contents_of_atom

/-! ### Groups -/

theorem wrapped_readAs {wrap : Pattern → Pattern} (ledger : Ledger) (s : List Char)
    (hwritten : ∀ p, Written Changes .contents p → Written Changes .atom (wrap p))
    (hindices : ∀ p, (wrap p).groupIndices = p.groupIndices) :
    Yields (fun r => ReadAs .atom ledger r.value.1 r.value.2) (wrapped group opts ledger s wrap) :=
  (alternation_readAs hgroup ledger s).bind fun _ hr => .ok (hr.wrap (hwritten _) (hindices _))

/-- Whether a condition that was read has its shape, with the groups that were
opened for it. -/
def ConditionReadAs (l : Ledger) (c : Condition) (l' : Ledger) : Prop :=
  match c with
  | .group n => 0 < n ∧ n ≤ maxCount ∧ l'.groups = l.groups
  | .look test =>
    (∃ kind body, test = .look kind body ∧ Written Changes .contents body) ∧ Numbered l test l'

theorem condition_readAs (ledger : Ledger) (s : List Char) :
    Yields (fun r => ConditionReadAs ledger r.value.1 r.value.2)
      (condition group opts ledger s) := by
  rw [condition.eq_def]
  split
  · exact .error
  · simp only
    split
    · -- A lookaround is read as a group.
      refine (hgroup _ _ _).bind fun r hp => ?_
      obtain ⟨⟨p, ledger'⟩, rest, hlt⟩ := r
      split
      · rename_i kind body heq
        obtain rfl : p = .look kind body := heq
        refine .ok ⟨⟨kind, body, rfl, ?_⟩, hp.numbered⟩
        cases hp.written.resolve_left nofun with
        | look _ h => exact h
      · exact .error
    split
    · exact .error
    · rename_i hn
      simp only [Bool.or_eq_true, decide_eq_true_iff, not_or, gt_iff_lt, not_lt] at hn
      split
      · exact .ok ⟨Nat.pos_of_ne_zero hn.1, hn.2, rfl⟩
      · exact .error

omit hgroup in
/-- A conditional has the shape of its condition and its branches.  The
condition was read first, so its groups come before those of the branches. -/
theorem ConditionReadAs.choose {c : Condition} {yes : Pattern} (no : Option Pattern)
    (h : ConditionReadAs l c l₁) (hbranches : BranchesReadAs l₁ (yes :: no.toList) l₂) :
    ReadAs .atom l (c.choose yes no) l₂ := by
  obtain ⟨-, hwritten, hnumbered⟩ := hbranches
  obtain ⟨hyes, hno⟩ := List.forall_mem_cons.mp hwritten
  replace hno : ∀ q ∈ no, Written Changes .branch q := by simpa using hno
  cases c with
  | group n =>
    obtain ⟨hpos, hn, hgroups⟩ := h
    obtain ⟨m, hgroups', hindices⟩ := hnumbered
    rw [hgroups] at hgroups' hindices
    refine ⟨.inr (.ifGroup hpos hn hyes hno), m, hgroups', Eq.trans ?_ hindices⟩
    cases no with
    | none => exact groupIndicesAll_singleton.symm
    | some no => simp [Condition.choose, groupIndices, groupIndicesAll]
  | look test =>
    obtain ⟨⟨kind, body, rfl, hbody⟩, htest⟩ := h
    refine ⟨.inr (.ifLook kind hbody hyes hno), htest.append hnumbered ?_⟩
    cases no <;> simp [Condition.choose, groupIndices, groupIndicesAll]

theorem conditional_readAs (ledger : Ledger) (start s : List Char) :
    Yields (fun r => ReadAs .atom ledger r.value.1 r.value.2)
      (conditional group opts ledger start s) := by
  refine (condition_readAs hgroup ledger s).bind fun ⟨⟨c, ledger₁⟩, rest, hlt⟩ hc => ?_
  refine (branches_readAs hgroup ledger₁ rest).bind fun ⟨⟨ps, ledger₂⟩, rest', hle⟩ hps => ?_
  simp only
  split
  · exact .ok (hc.choose none hps)
  · exact .ok (hc.choose (some _) hps)
  · exact .error

theorem modifierGroup_readAs (ledger : Ledger) (start s : List Char) :
    Yields (fun r => ReadAs .atom ledger r.value.1 r.value.2)
      (modifierGroup group opts ledger start s) := by
  refine (flags_changes s changes_none).bind fun ⟨flags, rest, hlt⟩ hflags => ?_
  simp only
  split
  · exact (wrapped_readAs hgroup _ _ (fun _ => .modifier hflags) fun _ => rfl).bind
      fun _ hr => .ok hr
  · exact .error

theorem specialGroup_readAs (ledger : Ledger) (start s : List Char) :
    Yields (fun r => ReadAs .atom ledger r.value.1 r.value.2)
      (specialGroup group opts ledger start s) := by
  have hlook : ∀ kind ledger s, Yields (fun r => ReadAs .atom ledger r.value.1 r.value.2)
      (wrapped group opts ledger s (.look kind)) := fun kind ledger s =>
    wrapped_readAs hgroup ledger s (fun _ => .look kind) fun _ => rfl
  rw [specialGroup.eq_def]
  split
  · exact .error
  · simp only
    split
    · exact (wrapped_readAs hgroup _ _ (fun _ => .group none) fun _ => rfl).map fun _ hr => hr
    split
    · exact (hlook _ _ _).map fun _ hr => hr
    split
    · exact (hlook _ _ _).map fun _ hr => hr
    split
    · split
      · split
        · exact (hlook _ _ _).map fun _ hr => hr
        · split
          · exact (hlook _ _ _).map fun _ hr => hr
          · exact .error
      · exact .error
    split
    · exact (wrapped_readAs hgroup _ _ (fun _ => .independent) fun _ => rfl).map fun _ hr => hr
    split
    · exact .ok ⟨.inl rfl, .plain rfl rfl⟩
    split
    · exact Yields.trivial.map fun _ _ => .plain (.charClass _ _) rfl rfl
    split
    · exact conditional_readAs hgroup _ _ _
    · exact modifierGroup_readAs hgroup _ _ _

/-- The contents of a group with what stands before them make an atom, whichever
kind of group they announce. -/
theorem groupBody_readAs (ledger : Ledger) (start s : List Char) :
    Yields (fun r => ReadAs .atom ledger r.value.1 r.value.2)
      (groupBody group opts ledger start s) := by
  rw [groupBody.eq_def]
  split
  · split
    · exact .error
    · exact (specialGroup_readAs hgroup _ _ _).map fun _ hr => hr
  · exact (alternation_readAs hgroup _ _).bind fun r hr =>
      .ok ⟨.inr (.group _ hr.contents), hr.numbered.opened⟩

omit hgroup in
theorem group_readAs (hgroup : GroupReadsAs group) : GroupReadsAs (Parser.group group) := by
  intro opts ledger s
  rw [Parser.group.eq_def]
  split
  · exact .error
  · refine (groupBody_readAs hgroup _ _ _).bind fun ⟨piece, rest, hle⟩ hpiece => ?_
    simp only
    split
    · exact .ok hpiece
    · exact .error

omit hgroup in
theorem groupWithin_readAs (limit budget : ℕ) : GroupReadsAs (groupWithin limit budget) := by
  induction budget with
  | zero => exact fun _ _ _ => .error
  | succ budget ih => exact group_readAs ih

end Parser

/-- **A pattern that is read from text has the shape of contents**, and its
groups are numbered from one in the order in which they are opened. -/
theorem parse_written {opts : Options} {text : String} {limit : ℕ}
    (h : parse opts text limit = .ok p) :
    Written Parser.Changes .contents p ∧ ∃ n, p.groupIndices = List.range' 1 n := by
  obtain ⟨ledger, ⟨_, hread⟩, -⟩ := Parser.whole_eq_ok_iff.mp (parse_eq_ok_iff.mp h)
  have hreads := Parser.alternation_readAs (Parser.groupWithin_readAs limit limit) _ _ _ hread
  obtain ⟨n, -, hindices⟩ := hreads.numbered
  exact ⟨hreads.contents, n, hindices⟩

end Pattern

end Regexp
