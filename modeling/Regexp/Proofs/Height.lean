import Mathlib.Data.List.Permutation
import Regexp.Proofs.Dialect

/-!
# The height of patterns that are read

Anything that walks over a tree by recursion, to compile it, to print it or to
measure it, goes as deep as the tree is high.  So it matters that the text of a
pattern cannot make a tree of any height: the limit on nesting counts the groups
around each other, and between a group and the next one inside of it only so
many constructs fit.

From the inside out these are a repetition, a sequence, alternatives and a
change of options, and then the group.  `Parser.alternation_height` and
`Parser.group_height` count them for the contents of a group and for a group,
given a bound for the groups inside (`Parser.GroupHeight`), and each further
group that may be open is good for five levels (`Parser.groupWithin_height`).
Escapes without groups are low as well; the highest of them is the grapheme,
which stands for a whole pattern (`Parser.grapheme_height_le`).

Normal forms cost one level at most, however many parts are joined
(`Pattern.seq_height_le`): a sequence in a sequence is opened, and literals are
joined instead of nested.  `Pattern.height` is defined by recursion on the tree;
that no way down is longer, and that some way is as long, is
`Pattern.length_le_height` and `Pattern.exists_way`.

## Main definitions

* `Pattern.children` — the patterns right below a pattern.
* `Pattern.height` — the number of patterns on a longest way down.

## Main statements

* `Pattern.length_le_height` — each way down is at most as long as the tree is
  high.
* `Pattern.seq_height_le` — sequences in normal form are no higher than their
  parts ask for.
* `Parser.alternation_height`, `Parser.group_height` — what the readers add to
  the height of the groups inside.
* `Pattern.parse_height_le` — the limit on nesting bounds the height.
-/

namespace Regexp.Pattern

/-! ### Height -/

/-- The patterns right below a pattern. -/
def children : Pattern → List Pattern
  | .concat items => items
  | .union alternatives => alternatives
  | .repetition body _ _ _ | .group _ body | .look _ body | .independent body
  | .modifier _ _ body => [body]
  | .ifGroup _ yes no => yes :: no.toList
  | .ifLook test yes no => test :: yes :: no.toList
  | .empty | .char _ | .string _ | .dot | .charClass _ _ | .anchor _ | .backref _ => []

mutual

/-- The number of patterns on a longest way down from a pattern, itself
included.  It is what bounds the recursion of anything that walks over the tree. -/
def height : Pattern → ℕ
  | .concat items => heightAll items + 1
  | .union alternatives => heightAll alternatives + 1
  | .repetition body _ _ _ => body.height + 1
  | .group _ body => body.height + 1
  | .look _ body => body.height + 1
  | .independent body => body.height + 1
  | .modifier _ _ body => body.height + 1
  | .ifGroup _ yes none => yes.height + 1
  | .ifGroup _ yes (some no) => max yes.height no.height + 1
  | .ifLook test yes none => max test.height yes.height + 1
  | .ifLook test yes (some no) => max test.height (max yes.height no.height) + 1
  | _ => 1
  termination_by structural p => p

/-- The largest height of several patterns. -/
def heightAll : List Pattern → ℕ
  | [] => 0
  | p :: ps => max p.height (heightAll ps)
  termination_by structural ps => ps

end

variable {p q : Pattern} {ps : List Pattern} {n m : ℕ}

theorem heightAll_le_iff : heightAll ps ≤ n ↔ ∀ p ∈ ps, p.height ≤ n := by
  induction ps with
  | nil => simp [heightAll]
  | cons p ps ih => simp [heightAll, ih]

/-- The height is one more than that of the highest pattern right below. -/
theorem height_eq (p : Pattern) : p.height = heightAll p.children + 1 := by
  cases p with
  | ifGroup _ _ no | ifLook _ _ no => cases no <;> simp [height, children, heightAll]
  | _ => simp [height, children, heightAll]

theorem height_le_iff : p.height ≤ n + 1 ↔ ∀ q ∈ p.children, q.height ≤ n := by
  rw [height_eq, Nat.add_le_add_iff_right, heightAll_le_iff]

theorem one_le_height (p : Pattern) : 1 ≤ p.height := by
  rw [height_eq]
  exact Nat.le_add_left 1 _

/-- A pattern right below is lower. -/
theorem height_lt_of_mem_children (h : q ∈ p.children) : q.height < p.height := by
  rw [height_eq p, Nat.lt_add_one_iff]
  exact heightAll_le_iff.mp le_rfl q h

/-- **Each way down is at most as long as the tree is high.** -/
theorem length_le_height {way : List Pattern}
    (h : (p :: way).IsChain fun q r => r ∈ q.children) : (p :: way).length ≤ p.height := by
  induction way generalizing p with
  | nil => exact one_le_height p
  | cons q way ih =>
    obtain ⟨hchild, hway⟩ := List.isChain_cons_cons.mp h
    exact (Nat.succ_le_succ (ih hway)).trans (height_lt_of_mem_children hchild)

theorem exists_height_eq_heightAll (hne : ps ≠ []) : ∃ p ∈ ps, p.height = heightAll ps := by
  induction ps with
  | nil => contradiction
  | cons p ps ih =>
    rcases le_total (heightAll ps) p.height with hle | hle
    · exact ⟨p, List.mem_cons_self, (Nat.max_eq_left hle).symm⟩
    · have hne : ps ≠ [] := by
        rintro rfl
        exact absurd hle (Nat.not_le.mpr (one_le_height p))
      obtain ⟨q, hq, heq⟩ := ih hne
      exact ⟨q, List.mem_cons_of_mem _ hq, heq.trans (Nat.max_eq_right hle).symm⟩

/-- Some way down is as long as the tree is high. -/
theorem exists_way (p : Pattern) : ∃ way, (p :: way).IsChain (fun q r => r ∈ q.children) ∧
    (p :: way).length = p.height := by
  induction hn : p.height using Nat.strong_induction_on generalizing p with
  | _ n ih =>
    subst hn
    by_cases hleaf : p.children = []
    · exact ⟨[], .singleton p, by rw [height_eq, hleaf]; rfl⟩
    · obtain ⟨q, hq, heq⟩ := exists_height_eq_heightAll hleaf
      obtain ⟨way, hway, hlen⟩ := ih _ (height_lt_of_mem_children hq) q rfl
      exact ⟨q :: way, List.isChain_cons_cons.mpr ⟨hq, hway⟩, by
        rw [List.length_cons, hlen, height_eq p, heq]⟩

/-! ### Sequences and choices -/

mutual

/-- The parts of a sequence are no higher than the sequence. -/
theorem parts_height_le : (p : Pattern) → ∀ q ∈ p.parts, q.height ≤ p.height
  | .empty => List.forall_mem_nil _
  | .concat items => fun _ hq => (partsOfAll_height_le items _ hq).trans (Nat.le_succ _)
  | .char _ | .string _ | .dot | .charClass _ _ | .anchor _ | .union _ | .repetition _ _ _ _
  | .group _ _ | .backref _ | .look _ _ | .independent _ | .modifier _ _ _ | .ifGroup _ _ _
  | .ifLook _ _ _ => List.forall_mem_singleton.mpr le_rfl
  termination_by structural p => p

theorem partsOfAll_height_le : (ps : List Pattern) → ∀ q ∈ partsOfAll ps, q.height ≤ heightAll ps
  | [] => List.forall_mem_nil _
  | p :: ps => fun q hq => by
    rcases List.mem_append.mp hq with hq | hq
    · exact (parts_height_le p _ hq).trans (Nat.le_max_left _ _)
    · exact (partsOfAll_height_le ps q hq).trans (Nat.le_max_right _ _)
  termination_by structural ps => ps

end

/-- **A sequence in normal form is at most one higher than what it is made of.** -/
theorem seq_height_le (hn : 1 ≤ n) (h : ∀ p ∈ ps, p.height ≤ n) : (seq ps).height ≤ n + 1 := by
  have hparts : ∀ p ∈ partsOfAll ps, p.height ≤ n := fun p hp =>
    (partsOfAll_height_le ps p hp).trans (heightAll_le_iff.mpr h)
  -- A literal is no higher than anything.
  have hjoined : ∀ p ∈ joinLiterals [] (partsOfAll ps), p.height ≤ n :=
    forall_mem_joinLiterals (fun _ => hn) (fun _ _ => hn) [] hparts
  rw [seq, ofParts.eq_def]
  split
  · exact Nat.le_add_left 1 n
  · rename_i p heq
    rw [heq] at hjoined
    exact (List.forall_mem_singleton.mp hjoined).trans (Nat.le_succ n)
  · exact height_le_iff.mpr hjoined

theorem alt_height_le (h : ∀ p ∈ ps, p.height ≤ n) : (alt ps).height ≤ n + 1 := by
  rw [alt.eq_def]
  split
  · exact (List.forall_mem_singleton.mp h).trans (Nat.le_succ n)
  · exact height_le_iff.mpr h

namespace Parser

/-! ### Quantifiers and escapes -/

variable {opts : Options} {atom : Pattern}

/-- A quantifier adds one level. -/
theorem quantified_height (h : atom.height ≤ n) (s : List Char) :
    Yields (fun r => r.value.height ≤ n + 1) (quantified opts atom s) := by
  refine Yields.trivial.bind fun q _ => ?_
  have hrepeated : ∀ min max greedy, (Pattern.repetition atom min max greedy).height ≤ n + 1 :=
    fun _ _ _ => Nat.succ_le_succ h
  cases q with
  | none => exact .ok (h.trans (Nat.le_succ n))
  | some q =>
    simp only
    split
    · split
      · exact .error
      · split
        · exact .error
        · exact .ok (hrepeated _ _ _)
    · split
      · exact .error
      · exact .ok (hrepeated _ _ _)

theorem combiningSequence_height_le : combiningSequence.height ≤ 4 := by
  have hclass : ∀ set, (Pattern.charClass set false).height ≤ 1 := fun _ => le_rfl
  have hmarks : ∀ set, (Pattern.repetition (.charClass set false) 0 none true).height ≤ 2 :=
    fun _ => le_rfl
  refine Nat.succ_le_succ (seq_height_le (by decide) ?_)
  exact List.forall_mem_cons.mpr
    ⟨(hclass _).trans (by decide), List.forall_mem_singleton.mpr (hmarks _)⟩

/-- What the grapheme is put together from is higher than any other atom without
groups. -/
theorem grapheme_height_le : grapheme.height ≤ 6 := by
  have hclass : ∀ set, (Pattern.charClass set false).height ≤ 1 := fun _ => le_rfl
  have hbase : ∀ set, (Pattern.repetition (.charClass set false) 0 (some 1) true).height ≤ 4 :=
    fun _ => Nat.le_add_right 2 2
  refine Nat.succ_le_succ (seq_height_le (by decide) ?_)
  refine List.forall_mem_cons.mpr ⟨hbase _, List.forall_mem_singleton.mpr ?_⟩
  refine Nat.succ_le_succ (alt_height_le (List.forall_mem_cons.mpr ⟨seq_height_le le_rfl ?_, ?_⟩))
  · exact List.forall_mem_cons.mpr ⟨hclass _, List.forall_mem_singleton.mpr (hclass _)⟩
  · exact List.forall_mem_singleton.mpr ((hclass _).trans (by decide))

/-- No escape is higher than the grapheme. -/
theorem escape_height (ledger : Ledger) (s : List Char) :
    Yields (fun r => r.value.1.height ≤ 6) (escape opts ledger s) := by
  have hleaf : 1 ≤ 6 := by decide
  rw [escape.eq_def]
  split
  · exact .error
  · exact .error
  · refine Yields.trivial.bind fun k _ => ?_
    cases k with
    | some k => exact .ok hleaf
    | none =>
      simp only
      split
      · exact Yields.trivial.map fun _ _ => hleaf
      split
      · exact .ok hleaf
      split
      · exact .ok hleaf
      split
      · exact .ok (combiningSequence_height_le.trans (by decide))
      split
      · exact .ok grapheme_height_le
      · exact Yields.trivial.map fun _ _ => hleaf

/-! ### Sequences and alternatives -/

/-- Whether the patterns that a reader for groups reads are at most so high.
The reader is a parameter of the routines that meet groups, and so of what is
said of them. -/
def GroupHeight (group : GroupReader) (n : ℕ) : Prop := ∀ opts ledger s,
  Yields (fun r => r.value.1.height ≤ n) (group opts ledger s)

variable {group : GroupReader} (hgroup : GroupHeight group n) (hn : 6 ≤ n)

include hgroup

/-- A lookaround that is a condition is read as a group inside of the
conditional. -/
theorem condition_height (ledger : Ledger) (s : List Char) :
    Yields (fun r => ∀ test, r.value.1 = .look test → test.height ≤ n)
      (condition group opts ledger s) := by
  rw [condition.eq_def]
  split
  · exact .error
  · simp only
    split
    · refine (hgroup _ _ _).bind fun r hp => ?_
      obtain ⟨⟨p, ledger'⟩, rest, hlt⟩ := r
      split
      · refine .ok fun test htest => ?_
        cases htest
        exact hp
      · exact .error
    split
    · exact .error
    · split
      · exact .ok nofun
      · exact .error

include hn

theorem atom_height (ledger : Ledger) (s : List Char) :
    Yields (fun r => r.value.1.height ≤ n) (Parser.atom group opts ledger s) := by
  have hleaf : 1 ≤ n := (by decide : 1 ≤ 6).trans hn
  rw [Parser.atom.eq_def]
  split
  · exact .error
  · simp only
    split
    · exact hgroup _ _ _
    split
    · exact Yields.trivial.map fun _ _ => hleaf
    split
    · exact fun r hr => (escape_height _ _ r hr).trans hn
    split
    · exact .error
    split
    · exact .error
    split
    · split <;> exact .ok hleaf
    split
    · exact .ok hleaf
    split
    · exact .ok hleaf
    · exact .ok hleaf

theorem branchItems_height (ledger : Ledger) (s : List Char) (items : List Pattern)
    (hitems : ∀ p ∈ items, p.height ≤ n + 1) :
    Yields (fun r => r.value.1.height ≤ n + 2) (branchItems group opts ledger s items) := by
  fun_induction branchItems group opts ledger s items with
  | case1 ledger s items t ht hcontinues ih =>
    refine (atom_height hgroup hn ledger t).bind ?_
    rintro ⟨⟨p, ledger'⟩, rest, hlt⟩ hp
    refine (quantified_height hp rest).bind ?_
    rintro ⟨p, rest', hle⟩ hp
    exact (ih ledger' rest hlt p rest' hle (List.forall_mem_cons.mpr ⟨hp, hitems⟩)).bind
      fun r hr => .ok hr
  | case2 ledger s items t ht hcontinues =>
    exact .ok (seq_height_le (Nat.le_add_left 1 n) (by simpa using hitems))

theorem branch_height (ledger : Ledger) (s : List Char) :
    Yields (fun r => r.value.1.height ≤ n + 2) (branch group opts ledger s) :=
  branchItems_height hgroup hn ledger s [] nofun

theorem moreBranches_height (ledger : Ledger) (s : List Char) (alternatives : List Pattern)
    (halternatives : ∀ p ∈ alternatives, p.height ≤ n + 2) :
    Yields (fun r => ∀ p ∈ r.value.1, p.height ≤ n + 2)
      (moreBranches group opts ledger s alternatives) := by
  fun_induction moreBranches group opts ledger s alternatives with
  | case1 ledger alternatives rest ih =>
    refine (branch_height hgroup hn ledger rest).bind ?_
    rintro ⟨⟨p, ledger'⟩, rest', hle⟩ hp
    exact (ih p ledger' rest' hle (List.forall_mem_cons.mpr ⟨hp, halternatives⟩)).bind
      fun r hr => .ok hr
  | case2 ledger s alternatives => exact .ok (by simpa [Scanned.none] using halternatives)

theorem branches_height (ledger : Ledger) (s : List Char) :
    Yields (fun r => ∀ p ∈ r.value.1, p.height ≤ n + 2) (branches group opts ledger s) := by
  refine (branch_height hgroup hn ledger s).bind ?_
  rintro ⟨⟨p, ledger'⟩, rest, hle⟩ hp
  exact (moreBranches_height hgroup hn ledger' rest [p] (List.forall_mem_singleton.mpr hp)).bind
    fun r hr => .ok hr

/-- **The contents of a group are at most four higher than the groups inside**:
by a repetition, a sequence, alternatives and a change of options, in this
order. -/
theorem alternation_height (ledger : Ledger) (s : List Char) :
    Yields (fun r => r.value.1.height ≤ n + 4) (alternation group opts ledger s) := by
  refine Yields.trivial.bind fun flags _ => ?_
  cases flags with
  | none =>
    exact (branches_height hgroup hn ledger s).bind fun r hr =>
      .ok ((alt_height_le hr).trans (Nat.le_succ _))
  | some flags =>
    exact (branches_height hgroup hn ledger flags.rest).bind fun r hr =>
      .ok (Nat.succ_le_succ (alt_height_le hr))

/-! ### Groups -/

/-- A construct with contents in it adds one level to them. -/
theorem wrapped_height {wrap : Pattern → Pattern} (hwrap : ∀ p, (wrap p).height = p.height + 1)
    (ledger : Ledger) (s : List Char) :
    Yields (fun r => r.value.1.height ≤ n + 5) (wrapped group opts ledger s wrap) :=
  (alternation_height hgroup hn ledger s).bind fun _ hr =>
    .ok ((hwrap _).trans_le (Nat.succ_le_succ hr))

omit hgroup hn in
/-- A conditional is one higher than the highest of its lookaround and its
branches. -/
theorem Condition.choose_height_le {c : Condition} {yes : Pattern} {no : Option Pattern}
    (hc : ∀ test, c = .look test → test.height ≤ m)
    (hbranches : ∀ p ∈ yes :: no.toList, p.height ≤ m) :
    (c.choose yes no).height ≤ m + 1 := by
  cases c with
  | group n => exact height_le_iff.mpr hbranches
  | look test => exact height_le_iff.mpr (List.forall_mem_cons.mpr ⟨hc test rfl, hbranches⟩)

theorem conditional_height (ledger : Ledger) (start s : List Char) :
    Yields (fun r => r.value.1.height ≤ n + 5) (conditional group opts ledger start s) := by
  refine (condition_height hgroup ledger s).bind fun r hc => ?_
  obtain ⟨⟨c, ledger₁⟩, rest, hlt⟩ := r
  refine (branches_height hgroup hn ledger₁ rest).bind fun r hps => ?_
  obtain ⟨⟨ps, ledger₂⟩, rest', hle⟩ := r
  have htest : ∀ test, c = .look test → test.height ≤ n + 2 := fun test heq =>
    (hc test heq).trans (Nat.le_add_right n 2)
  simp only
  split
  · exact .ok ((Condition.choose_height_le htest hps).trans (Nat.le_add_right _ 2))
  · exact .ok ((Condition.choose_height_le htest hps).trans (Nat.le_add_right _ 2))
  · exact .error

theorem modifierGroup_height (ledger : Ledger) (start s : List Char) :
    Yields (fun r => r.value.1.height ≤ n + 5) (modifierGroup group opts ledger start s) := by
  refine Yields.trivial.bind fun r _ => ?_
  obtain ⟨flags, rest, hlt⟩ := r
  simp only
  split
  · exact (wrapped_height hgroup hn (fun _ => rfl) _ _).bind fun _ hr => .ok hr
  · exact .error

theorem specialGroup_height (ledger : Ledger) (start s : List Char) :
    Yields (fun r => r.value.1.height ≤ n + 5) (specialGroup group opts ledger start s) := by
  have hleaf : 1 ≤ n + 5 := Nat.le_add_left 1 _
  have hlook : ∀ kind ledger s, Yields (fun r => r.value.1.height ≤ n + 5)
      (wrapped group opts ledger s (.look kind)) := fun kind ledger s =>
    wrapped_height hgroup hn (fun _ => rfl) ledger s
  rw [specialGroup.eq_def]
  split
  · exact .error
  · simp only
    split
    · exact (wrapped_height hgroup hn (fun _ => rfl) _ _).map fun _ hr => hr
    split
    · exact (hlook _ _ _).map fun _ hr => hr
    split
    · exact (hlook _ _ _).map fun _ hr => hr
    split
    · split
      · split
        · exact (hlook _ _ _).map fun _ hr => hr
        · split
          · exact (hlook _ _ _).map fun _ hr => hr
          · exact .error
      · exact .error
    split
    · exact (wrapped_height hgroup hn (fun _ => rfl) _ _).map fun _ hr => hr
    split
    · exact .ok hleaf
    split
    · exact Yields.trivial.map fun _ _ => hleaf
    split
    · exact conditional_height hgroup hn _ _ _
    · exact modifierGroup_height hgroup hn _ _ _

/-- **A group is at most five higher than the groups inside of it.** -/
theorem group_height : GroupHeight (Parser.group group) (n + 5) := by
  intro opts ledger s
  have hbody : ∀ start body,
      Yields (fun r => r.value.1.height ≤ n + 5) (groupBody group opts ledger start body) := by
    intro start body
    rw [groupBody.eq_def]
    split
    · split
      · exact .error
      · exact (specialGroup_height hgroup hn _ _ _).map fun _ hr => hr
    · exact wrapped_height hgroup hn (fun _ => rfl) _ _
  rw [Parser.group.eq_def]
  split
  · exact .error
  · refine (hbody _ _).bind fun r hpiece => ?_
    obtain ⟨piece, rest, hle⟩ := r
    simp only
    split
    · exact .ok hpiece
    · exact .error

omit hgroup hn in
/-- Each group that may still be opened around others is good for five levels. -/
theorem groupWithin_height (limit budget : ℕ) :
    GroupHeight (groupWithin limit budget) (5 * budget + 6) := by
  induction budget with
  | zero => exact fun _ _ _ => .error
  | succ budget ih => exact group_height ih (Nat.le_add_left 6 _)

end Parser

/-- **The limit on nesting bounds the height of a pattern that is read**,
whatever the options and however long the text: each group is good for five
levels and the outermost contents for ten.  So is every way down from the
pattern, along which anything that walks over the tree goes. -/
theorem parse_height_le {opts : Options} {text : String} {limit : ℕ}
    (h : parse opts text limit = .ok p) :
    p.height ≤ 5 * limit + 10 ∧
      (∀ way, (p :: way).IsChain (fun q r => r ∈ q.children) →
        (p :: way).length ≤ 5 * limit + 10) ∧
      ∃ way, (p :: way).IsChain (fun q r => r ∈ q.children) ∧ (p :: way).length = p.height := by
  have hwhole : Yields (fun p => p.height ≤ 5 * limit + 10)
      (Parser.whole opts limit text.toList) := by
    have hgroup := Parser.groupWithin_height limit limit
    refine (Parser.alternation_height hgroup (Nat.le_add_left 6 _) _ _).bind fun r hr => ?_
    split
    · split
      · exact .error
      · exact .ok hr
    · exact .error
  have hheight : p.height ≤ 5 * limit + 10 := by
    rw [parse] at h
    split at h
    · rename_i hok
      cases h
      exact hwhole _ hok
    · cases h
  exact ⟨hheight, fun way hway => (length_le_height hway).trans hheight, exists_way p⟩

/-- A group in a group, each with all that fits around the next one. -/
theorem parse_height_le_nested :
    let inner : Pattern := .modifier { caseInsensitive := true } {}
      (.union [.concat [.repetition (.char 'a') 1 none true, .char 'b'], .char 'c'])
    let p : Pattern := .modifier { caseInsensitive := true } {}
      (.union [.concat [.repetition (.group (some 1) inner) 1 none true, .char 'd'], .char 'e'])
    parse .empty "(?i)((?i)a+b|c)+d|e" 1 = .ok p ∧ p.height = 10 ∧ p.height ≤ 15 := by
  intro inner p
  have hp : parse .empty "(?i)((?i)a+b|c)+d|e" 1 = .ok p := by cbv
  exact ⟨hp, rfl, (parse_height_le hp).1⟩

end Regexp.Pattern
