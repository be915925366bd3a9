import Regexp.Proofs.Dialect
import Regexp.Proofs.Shortcuts

/-!
# References in patterns that are read

Whatever the options, a pattern that is read from text refers to no group that
it does not have.

The reader does not check a reference when it meets one, since the group may be
opened later.  It keeps a ledger with the number of groups opened so far and the
references met so far, and at the end it compares the two.  For this to be worth
anything the ledger must be right about the pattern: a group that it has counted
is one of the pattern's, and every reference of the pattern is in the ledger.
`Parser.Accounts` is this relation, between a pattern and the ledger before and
after it was read.

Accounts are put together as patterns are (`Parser.Accounts.trans`,
`Parser.Accounts.cons`), so there is one lemma for each reader, in the order in
which readers call each other, and the reader for groups is assumed to account
for what it reads.  What makes it less than obvious is that trees are changed on
the way.  Sequences are brought into normal form, which drops and joins parts,
and must lose neither a group nor a reference (`Pattern.seq_sameGroups`); the
condition of a conditional enters a reference that is not in the condition but
in the conditional (`Parser.condition_accounts`).

## Main definitions

* `Parser.Accounts` — whether a pattern accounts for what reading it has changed
  in the ledger.

## Main statements

* `Pattern.seq_sameGroups` — sequences in normal form have the same groups and
  references.
* `Parser.alternation_accounts` — the contents of a group account for the
  ledger.
* `Pattern.parse_refersToGroups` — a pattern that is read refers to groups that
  it has.
-/

namespace Regexp.Pattern

variable {p q : Pattern} {ps qs : List Pattern}

/-! ### Sequences and choices -/

mutual

theorem one_le_groupLen : (p : Pattern) → 1 ≤ p.groupLen
  | .concat items => one_le_groupLenAll items
  | .union alternatives => one_le_groupLenAll alternatives
  | .group (some i) _ => (Nat.le_add_left 1 i).trans (Nat.le_max_left _ _)
  | .repetition body _ _ _ | .group none body | .look _ body | .independent body
  | .modifier _ _ body | .ifGroup _ body none => one_le_groupLen body
  | .ifGroup _ yes (some _) => (one_le_groupLen yes).trans (Nat.le_max_left _ _)
  | .ifLook test _ none | .ifLook test _ (some _) =>
    (one_le_groupLen test).trans (Nat.le_max_left _ _)
  | .empty | .char _ | .string _ | .dot | .charClass _ _ | .anchor _ | .backref _ => le_rfl
  termination_by structural p => p

theorem one_le_groupLenAll : (ps : List Pattern) → 1 ≤ groupLenAll ps
  | [] => le_rfl
  | p :: _ => (one_le_groupLen p).trans (Nat.le_max_left _ _)
  termination_by structural ps => ps

end

theorem groupLenAll_append :
    groupLenAll (ps ++ qs) = max (groupLenAll ps) (groupLenAll qs) := by
  induction ps with
  | nil => exact (Nat.max_eq_right (one_le_groupLenAll qs)).symm
  | cons p ps ih => rw [List.cons_append, groupLenAll, ih, groupLenAll, Nat.max_assoc]

theorem featuresAll_append : featuresAll (ps ++ qs) = featuresAll ps ++ featuresAll qs := by
  induction ps with
  | nil => rfl
  | cons p ps ih => rw [List.cons_append, featuresAll, ih, featuresAll, List.append_assoc]

theorem groupLenAll_singleton : groupLenAll [p] = p.groupLen :=
  Nat.max_eq_left (one_le_groupLen p)

theorem featuresAll_singleton : featuresAll [p] = p.features := List.append_nil _

/-- Whether patterns have the groups and the references of others.  A sequence
in normal form has those of its parts. -/
def SameGroups (ps qs : List Pattern) : Prop :=
  featuresAll ps = featuresAll qs ∧ groupLenAll ps = groupLenAll qs

mutual

theorem parts_sameGroups : (p : Pattern) → SameGroups p.parts [p]
  | .empty => ⟨rfl, rfl⟩
  | .concat items => by
    obtain ⟨hfeatures, hlen⟩ := partsOfAll_sameGroups items
    refine ⟨hfeatures.trans ?_, hlen.trans ?_⟩
    · exact (featuresAll_singleton (p := concat items)).symm
    · exact (groupLenAll_singleton (p := concat items)).symm
  | .char _ | .string _ | .dot | .charClass _ _ | .anchor _ | .union _ | .repetition _ _ _ _
  | .group _ _ | .backref _ | .look _ _ | .independent _ | .modifier _ _ _ | .ifGroup _ _ _
  | .ifLook _ _ _ => ⟨rfl, rfl⟩
  termination_by structural p => p

theorem partsOfAll_sameGroups : (ps : List Pattern) → SameGroups (partsOfAll ps) ps
  | [] => ⟨rfl, rfl⟩
  | p :: ps => by
    obtain ⟨hp, hp'⟩ := parts_sameGroups p
    obtain ⟨hps, hps'⟩ := partsOfAll_sameGroups ps
    constructor
    · rw [partsOfAll, featuresAll_append, hp, hps, featuresAll_singleton, featuresAll]
    · rw [partsOfAll, groupLenAll_append, hp', hps', groupLenAll_singleton, groupLenAll]
  termination_by structural ps => ps

end

/-- A literal in front adds neither groups nor references. -/
theorem consLiteral_sameGroups (pending : List Char) (ps : List Pattern) :
    SameGroups (consLiteral pending ps) ps := by
  have hlen : max 1 (groupLenAll ps) = groupLenAll ps := Nat.max_eq_right (one_le_groupLenAll ps)
  rw [consLiteral.eq_def]
  split
  · exact ⟨rfl, rfl⟩
  · exact ⟨rfl, hlen⟩
  · exact ⟨rfl, hlen⟩

theorem joinLiterals_sameGroups (pending : List Char) (ps : List Pattern) :
    SameGroups (joinLiterals pending ps) ps := by
  fun_induction joinLiterals pending ps with
  | case1 => exact consLiteral_sameGroups _ _
  | case2 _ _ ps ih | case3 _ _ ps ih =>
    exact ⟨ih.1, ih.2.trans (Nat.max_eq_right (one_le_groupLenAll ps)).symm⟩
  | case4 _ p ps _ _ ih =>
    obtain ⟨hfeatures, hlen⟩ := consLiteral_sameGroups (by assumption) (p :: joinLiterals [] ps)
    constructor
    · rw [hfeatures, featuresAll, ih.1, featuresAll]
    · rw [hlen, groupLenAll, ih.2, groupLenAll]

/-- A sequence in normal form has the references of its parts, and their groups. -/
theorem seq_sameGroups (ps : List Pattern) :
    (seq ps).features = featuresAll ps ∧ (seq ps).groupLen = groupLenAll ps := by
  obtain ⟨hparts, hparts'⟩ := partsOfAll_sameGroups ps
  obtain ⟨hjoin, hjoin'⟩ := joinLiterals_sameGroups [] (partsOfAll ps)
  rw [← hparts, ← hparts', ← hjoin, ← hjoin', seq]
  generalize joinLiterals [] (partsOfAll ps) = items
  rw [ofParts.eq_def]
  split
  · exact ⟨rfl, rfl⟩
  · exact ⟨featuresAll_singleton.symm, groupLenAll_singleton.symm⟩
  · exact ⟨rfl, rfl⟩

/-- A choice has the references of its alternatives, and their groups. -/
theorem alt_sameGroups (ps : List Pattern) :
    (alt ps).features = featuresAll ps ∧ (alt ps).groupLen = groupLenAll ps := by
  rw [alt.eq_def]
  split
  · exact ⟨featuresAll_singleton.symm, groupLenAll_singleton.symm⟩
  · exact ⟨rfl, rfl⟩

namespace Parser

/-! ### Ledgers -/

/-- Whether a pattern accounts for what reading it has changed in the ledger: a
group that was opened is one of the pattern's, and what the pattern refers to is
in the ledger. -/
structure Accounts (l : Ledger) (p : Pattern) (l' : Ledger) : Prop where
  opened : l'.groups = l.groups ∨ l'.groups < p.groupLen
  kept : l.references ⊆ l'.references
  referred : ∀ f ∈ p.features, ∀ g, f.group? = some g → ∃ rest, (g, rest) ∈ l'.references

namespace Accounts

variable {l l₁ l₂ : Ledger} {items : List Pattern}

theorem plain (h : p.features = []) : Accounts l p l :=
  ⟨.inl rfl, List.Subset.refl _, fun f hf => by simp [h] at hf⟩

/-- A pattern with more groups and no more references accounts for the same. -/
theorem mono (h : Accounts l p l₁) (hlen : p.groupLen ≤ q.groupLen)
    (hfeatures : ∀ f ∈ q.features, f.group?.isSome = true → f ∈ p.features) : Accounts l q l₁ where
  opened := h.opened.imp_right fun hlt => hlt.trans_le hlen
  kept := h.kept
  referred f hf g hg := h.referred f (hfeatures f hf (by simp [hg])) g hg

/-- Two patterns that were read one after the other. -/
theorem trans (h : Accounts l p l₁) (h' : Accounts l₁ q l₂) : Accounts l (.concat [p, q]) l₂ where
  opened := by
    have := h.opened
    have := h'.opened
    simp only [groupLen, groupLenAll]
    omega
  kept := List.Subset.trans h.kept h'.kept
  referred f hf g hg := by
    rcases List.mem_append.mp hf with hf | hf
    · obtain ⟨rest, hmem⟩ := h.referred f hf g hg
      exact ⟨rest, h'.kept hmem⟩
    · rw [featuresAll_singleton] at hf
      exact h'.referred f hf g hg

/-- A pattern that was read after others, the last of which comes first. -/
theorem cons (h : Accounts l (.concat items) l₁) (h' : Accounts l₁ p l₂) :
    Accounts l (.concat (p :: items)) l₂ := by
  refine (h.trans h').mono ?_ fun f hf _ => ?_
  · have := one_le_groupLen p
    simp only [groupLen, groupLenAll]
    omega
  · simp only [features, featuresAll, List.mem_append, List.append_nil] at hf ⊢
    exact hf.symm

/-- The order of patterns does not matter. -/
theorem of_reverse (h : Accounts l (.concat items) l₁) : Accounts l (.concat items.reverse) l₁ := by
  have hreverse : groupLenAll items.reverse = groupLenAll items ∧
      ∀ f, f ∈ featuresAll items.reverse ↔ f ∈ featuresAll items := by
    clear h
    induction items with
    | nil => exact ⟨rfl, fun _ => Iff.rfl⟩
    | cons p items ih =>
      obtain ⟨hlen, hmem⟩ := ih
      constructor
      · rw [List.reverse_cons, groupLenAll_append, hlen, groupLenAll_singleton, groupLenAll,
          Nat.max_comm]
      · intro f
        rw [List.reverse_cons, featuresAll_append, List.mem_append, hmem, featuresAll_singleton,
          featuresAll, List.mem_append, or_comm]
  exact h.mono hreverse.1.ge fun f hf _ => (hreverse.2 f).mp hf

theorem seq (h : Accounts l (.concat items) l₁) : Accounts l (.seq items) l₁ :=
  h.mono (seq_sameGroups items).2.ge fun f hf _ => by rwa [(seq_sameGroups items).1] at hf

theorem alt (h : Accounts l (.concat items) l₁) : Accounts l (.alt items) l₁ :=
  h.mono (alt_sameGroups items).2.ge fun f hf _ => by rwa [(alt_sameGroups items).1] at hf

end Accounts

/-- Whether a way to put a pattern into another one adds no reference. -/
def Wraps (wrap : Pattern → Pattern) : Prop :=
  ∀ p, p.groupLen ≤ (wrap p).groupLen ∧
    ∀ f ∈ (wrap p).features, f.group?.isSome = true → f ∈ p.features

theorem wraps_group : Wraps (.group none) := fun _ => ⟨le_rfl, fun _ hf _ => hf⟩

/-- A construct that needs a feature of its own, which refers to no group. -/
theorem Wraps.of_features {wrap : Pattern → Pattern} {f : Feature}
    (hlen : ∀ p, (wrap p).groupLen = p.groupLen)
    (hfeatures : ∀ p, (wrap p).features = f :: p.features) (hf : f.group? = none) : Wraps wrap := by
  refine fun p => ⟨(hlen p).ge, fun f' hf' hg => ?_⟩
  rw [hfeatures] at hf'
  rcases List.mem_cons.mp hf' with rfl | hf'
  · rw [hf] at hg
    cases hg
  · exact hf'

theorem wraps_look (kind : LookKind) : Wraps (.look kind) :=
  .of_features (fun _ => rfl) (fun _ => rfl) rfl

theorem wraps_independent : Wraps .independent :=
  .of_features (fun _ => rfl) (fun _ => rfl) rfl

theorem wraps_modifier (add remove : Options) : Wraps (.modifier add remove) :=
  .of_features (fun _ => rfl) (fun _ => rfl) rfl

/-! ### Quantifiers and escapes -/

variable {opts : Options} {ledger : Ledger} {s : List Char}

/-- A quantifier changes neither the groups nor the references of what it
follows. -/
theorem quantified_accounts {l : Ledger} (h : Accounts l p ledger) (s : List Char) :
    Yields (fun r => Accounts l r.value ledger) (quantified opts p s) := by
  have hrepeats : ∀ min max greedy, Accounts l (.repetition p min max greedy) ledger :=
    fun _ _ _ => h.mono le_rfl fun _ hf _ => hf
  refine Yields.trivial.bind fun q _ => ?_
  cases q with
  | none => exact .ok h
  | some q =>
    simp only
    split
    · split
      · exact .error
      · split
        · exact .error
        · exact .ok (hrepeats _ _ _)
    · split
      · exact .error
      · exact .ok (hrepeats _ _ _)

theorem features_combiningSequence : combiningSequence.features = [] :=
  (seq_sameGroups _).1

theorem features_grapheme : grapheme.features = [] := by
  refine (seq_sameGroups _).1.trans ?_
  have hjoined := (seq_sameGroups [.charClass (.ofChars viramas) false, .charClass
    (GeneralCategory.union GeneralCategory.letterCategories) false]).1
  simp [features, featuresAll, alt, hjoined]

/-- An escape refers to the group that it enters in the ledger, if to any. -/
theorem escape_accounts (ledger : Ledger) (s : List Char) :
    Yields (fun r => Accounts ledger r.value.1 r.value.2) (escape opts ledger s) := by
  rw [escape.eq_def]
  split
  · exact .error
  · exact .error
  · refine Yields.trivial.bind fun k _ => ?_
    cases k with
    | some k => exact .ok (.plain rfl)
    | none =>
      simp only
      split
      · exact Yields.trivial.map fun _ _ => .plain rfl
      · split
        · exact .ok (.plain rfl)
        · split
          · rename_i n _
            refine .ok ⟨.inl rfl, List.subset_cons_self _ _, fun f hf g hg => ?_⟩
            obtain rfl := List.mem_singleton.mp hf
            cases hg
            exact ⟨_, List.mem_cons_self⟩
          · split
            · exact .ok (.plain features_combiningSequence)
            · split
              · exact .ok (.plain features_grapheme)
              · exact Yields.trivial.map fun _ _ => .plain rfl

/-! ### Sequences and alternatives -/

/-- Whether the patterns that a reader for groups reads account for the ledger. -/
def GroupAccounts (group : GroupReader) : Prop := ∀ opts ledger s,
  Yields (fun r => Accounts ledger r.value.1 r.value.2) (group opts ledger s)

variable {group : GroupReader} (hgroup : GroupAccounts group)

include hgroup

theorem atom_accounts (ledger : Ledger) (s : List Char) :
    Yields (fun r => Accounts ledger r.value.1 r.value.2) (atom group opts ledger s) := by
  rw [atom.eq_def]
  split
  · exact .error
  · simp only
    split
    · exact hgroup _ _ _
    split
    · exact Yields.trivial.map fun _ _ => .plain rfl
    split
    · exact escape_accounts _ _
    split
    · exact .error
    split
    · exact .error
    split
    · refine .ok (.plain ?_)
      split <;> rfl
    split
    · exact .ok (.plain rfl)
    split
    · exact .ok (.plain rfl)
    · exact .ok (.plain rfl)

theorem branchItems_accounts {l : Ledger} (ledger : Ledger) (s : List Char) (items : List Pattern)
    (hitems : Accounts l (.concat items) ledger) :
    Yields (fun r => Accounts l r.value.1 r.value.2) (branchItems group opts ledger s items) := by
  fun_induction branchItems group opts ledger s items with
  | case1 ledger s items t ht hcontinues ih =>
    refine (atom_accounts hgroup ledger t).bind fun r hp => ?_
    obtain ⟨⟨p, ledger'⟩, rest, hlt⟩ := r
    refine (quantified_accounts hp rest).bind fun r hp => ?_
    obtain ⟨p, rest', hle⟩ := r
    exact (ih ledger' rest hlt p rest' hle (hitems.cons hp)).bind fun r hr => .ok hr
  | case2 ledger s items t ht hcontinues => exact .ok hitems.of_reverse.seq

theorem branch_accounts (ledger : Ledger) (s : List Char) :
    Yields (fun r => Accounts ledger r.value.1 r.value.2) (branch group opts ledger s) :=
  branchItems_accounts hgroup ledger s [] (.plain rfl)

theorem moreBranches_accounts {l : Ledger} (ledger : Ledger) (s : List Char)
    (alternatives : List Pattern) (halternatives : Accounts l (.concat alternatives) ledger) :
    Yields (fun r => Accounts l (.concat r.value.1) r.value.2)
      (moreBranches group opts ledger s alternatives) := by
  fun_induction moreBranches group opts ledger s alternatives with
  | case1 ledger alternatives rest ih =>
    refine (branch_accounts hgroup ledger rest).bind fun r hp => ?_
    obtain ⟨⟨p, ledger'⟩, rest', hle⟩ := r
    exact (ih p ledger' rest' hle (halternatives.cons hp)).bind fun r hr => .ok hr
  | case2 ledger s alternatives => exact .ok halternatives.of_reverse

theorem branches_accounts (ledger : Ledger) (s : List Char) :
    Yields (fun r => Accounts ledger (.concat r.value.1) r.value.2)
      (branches group opts ledger s) := by
  refine (branch_accounts hgroup ledger s).bind fun r hp => ?_
  obtain ⟨⟨p, ledger'⟩, rest, hle⟩ := r
  have hnil : Accounts ledger (.concat []) ledger := .plain rfl
  exact (moreBranches_accounts hgroup ledger' rest [p] (hnil.cons hp)).bind fun r hr => .ok hr

/-- **The contents of a group account for the ledger.** -/
theorem alternation_accounts (ledger : Ledger) (s : List Char) :
    Yields (fun r => Accounts ledger r.value.1 r.value.2) (alternation group opts ledger s) := by
  refine Yields.trivial.bind fun flags _ => ?_
  cases flags with
  | none => exact (branches_accounts hgroup ledger s).bind fun r hr => .ok hr.alt
  | some flags =>
    refine (branches_accounts hgroup ledger flags.rest).bind fun r hr => ?_
    exact .ok (hr.alt.mono (wraps_modifier _ _ _).1 (wraps_modifier _ _ _).2)

/-! ### Groups -/

theorem wrapped_accounts {wrap : Pattern → Pattern} (hwrap : Wraps wrap) (ledger : Ledger)
    (s : List Char) :
    Yields (fun r => Accounts ledger r.value.1 r.value.2) (wrapped group opts ledger s wrap) :=
  (alternation_accounts hgroup ledger s).bind fun _ hr => .ok (hr.mono (hwrap _).1 (hwrap _).2)

/-- A condition accounts for the ledger as a conditional with it does. -/
theorem condition_accounts (ledger : Ledger) (s : List Char) :
    Yields (fun r => Accounts ledger (r.value.1.choose .empty none) r.value.2)
      (condition group opts ledger s) := by
  rw [condition.eq_def]
  split
  · exact .error
  · simp only
    split
    · -- A lookaround is read as a group.
      refine (hgroup _ _ _).bind fun r hp => ?_
      obtain ⟨⟨p, ledger'⟩, rest, hlt⟩ := r
      split
      · refine .ok (hp.mono (Nat.le_max_left _ _) fun f hf hg => ?_)
        rcases List.mem_cons.mp hf with rfl | hf
        · cases hg
        · simpa [features] using hf
      · exact .error
    split
    · exact .error
    · split
      · refine .ok ⟨.inl rfl, List.subset_cons_self _ _, fun f hf g hg => ?_⟩
        obtain rfl := List.mem_singleton.mp hf
        cases hg
        exact ⟨_, List.mem_cons_self⟩
      · exact .error

omit hgroup in
/-- A conditional accounts for what its condition and its branches do. -/
theorem Accounts.choose {l l₁ l₂ : Ledger} {c : Condition} {yes : Pattern}
    (h : Accounts l (c.choose .empty none) l₁) :
    (Accounts l₁ (.concat [yes]) l₂ → Accounts l (c.choose yes none) l₂) ∧
      ∀ no, Accounts l₁ (.concat [yes, no]) l₂ → Accounts l (c.choose yes (some no)) l₂ := by
  have hyes := one_le_groupLen yes
  constructor
  · intro h'
    refine (h.trans h').mono ?_ fun f hf _ => ?_
    · cases c <;> simp only [Condition.choose, groupLen, groupLenAll] <;> omega
    · cases c <;> simp_all [Condition.choose, features, featuresAll]
  · intro no h'
    have hno := one_le_groupLen no
    refine (h.trans h').mono ?_ fun f hf _ => ?_
    · cases c <;> simp only [Condition.choose, groupLen, groupLenAll] <;> omega
    · cases c <;> simp_all [Condition.choose, features, featuresAll]

theorem conditional_accounts (ledger : Ledger) (start s : List Char) :
    Yields (fun r => Accounts ledger r.value.1 r.value.2)
      (conditional group opts ledger start s) := by
  refine (condition_accounts hgroup ledger s).bind fun r hc => ?_
  obtain ⟨⟨c, ledger₁⟩, rest, hlt⟩ := r
  refine (branches_accounts hgroup ledger₁ rest).bind fun r hps => ?_
  obtain ⟨⟨ps, ledger₂⟩, rest', hle⟩ := r
  simp only
  split
  · exact .ok (hc.choose.1 hps)
  · exact .ok (hc.choose.2 _ hps)
  · exact .error

theorem modifierGroup_accounts (ledger : Ledger) (start s : List Char) :
    Yields (fun r => Accounts ledger r.value.1 r.value.2)
      (modifierGroup group opts ledger start s) := by
  refine Yields.trivial.bind fun r _ => ?_
  obtain ⟨flags, rest, hlt⟩ := r
  simp only
  split
  · exact (wrapped_accounts hgroup (wraps_modifier _ _) _ _).bind fun _ hr => .ok hr
  · exact .error

theorem specialGroup_accounts (ledger : Ledger) (start s : List Char) :
    Yields (fun r => Accounts ledger r.value.1 r.value.2)
      (specialGroup group opts ledger start s) := by
  rw [specialGroup.eq_def]
  split
  · exact .error
  · simp only
    split
    · exact (wrapped_accounts hgroup wraps_group _ _).map fun _ hr => hr
    split
    · exact (wrapped_accounts hgroup (wraps_look _) _ _).map fun _ hr => hr
    split
    · exact (wrapped_accounts hgroup (wraps_look _) _ _).map fun _ hr => hr
    split
    · split
      · split
        · exact (wrapped_accounts hgroup (wraps_look _) _ _).map fun _ hr => hr
        · split
          · exact (wrapped_accounts hgroup (wraps_look _) _ _).map fun _ hr => hr
          · exact .error
      · exact .error
    split
    · exact (wrapped_accounts hgroup wraps_independent _ _).map fun _ hr => hr
    split
    · exact .ok (.plain rfl)
    split
    · exact Yields.trivial.map fun _ _ => .plain rfl
    split
    · exact conditional_accounts hgroup _ _ _
    · exact modifierGroup_accounts hgroup _ _ _

/-- A group accounts for the ledger, where one that captures is counted before
its contents. -/
theorem groupBody_accounts (ledger : Ledger) (start s : List Char) :
    Yields (fun r => Accounts ledger r.value.1 r.value.2)
      (groupBody group opts ledger start s) := by
  rw [groupBody.eq_def]
  split
  · split
    · exact .error
    · exact (specialGroup_accounts hgroup _ _ _).map fun _ hr => hr
  · refine (alternation_accounts hgroup { ledger with groups := ledger.groups + 1 } _).bind ?_
    intro r hr
    refine .ok ⟨.inr ?_, hr.kept, hr.referred⟩
    have hopened : r.value.2.groups = ledger.groups + 1 ∨ r.value.2.groups < r.value.1.groupLen :=
      hr.opened
    show r.value.2.groups < max (ledger.groups + 1 + 1) r.value.1.groupLen
    omega

omit hgroup in
theorem group_accounts (hgroup : GroupAccounts group) : GroupAccounts (Parser.group group) := by
  intro opts ledger s
  rw [Parser.group.eq_def]
  split
  · exact .error
  · refine (groupBody_accounts hgroup _ _ _).bind fun r hpiece => ?_
    obtain ⟨piece, rest, hle⟩ := r
    simp only
    split
    · exact .ok hpiece
    · exact .error

omit hgroup in
theorem groupWithin_accounts (limit budget : ℕ) : GroupAccounts (groupWithin limit budget) := by
  induction budget with
  | zero => exact fun _ _ _ => .error
  | succ budget ih => exact group_accounts ih

end Parser

/-- **A pattern that is read from text refers to groups that it has.**  The
ledger is checked at the end of the text, when all groups are known, so a
reference may stand before its group. -/
theorem parse_refersToGroups {opts : Options} {text : String} {limit : ℕ}
    (h : parse opts text limit = .ok p) : p.RefersToGroups := by
  have hwhole : Yields RefersToGroups (Parser.whole opts limit text.toList) := by
    refine (Parser.alternation_accounts (Parser.groupWithin_accounts limit limit) _ _).bind ?_
    intro r hr
    split
    · split
      · exact .error
      · rename_i hdefined
        refine .ok fun f hf g hg => ?_
        obtain ⟨rest, hmem⟩ := hr.referred f hf g hg
        have hexists := List.find?_eq_none.mp hdefined (g, rest) (List.mem_reverse.mpr hmem)
        simp only [Bool.or_eq_true, decide_eq_true_iff, not_or] at hexists
        have hopened : r.value.2.groups = 0 ∨ r.value.2.groups < r.value.1.groupLen := hr.opened
        omega
    · exact .error
  rw [parse] at h
  split at h
  · rename_i hok
    cases h
    exact hwhole _ hok
  · cases h

end Regexp.Pattern
