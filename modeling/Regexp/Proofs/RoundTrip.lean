import Regexp.Proofs.References
import Regexp.Proofs.Rereading

/-!
# Patterns that are printed and read back

The text of a pattern that was read is read again, as almost the same pattern,
if the dialect has what is written in it.

## Constructs in their places

The text of a construct is read rightly only if what stands behind it does not
continue it: a quantifier behind a character belongs to it, a digit behind a
reference is part of its number, a blank may be skipped.  What may stand behind
depends on where the construct stands, as an atom, as a part of a sequence, as a
sequence or as the contents of a group.  These are the ranks of
`Regexp.Proofs.Written`, and `Parser.Rereads` states for each rank what is read
and under which conditions on the rest.  The induction over a pattern of its
shape (`Pattern.Written`) has a case for each way to get from one rank to the
next one, and the conditions of one rank provide those of the ranks inside of
it.

`Parser.ComesTo` says that reading one text comes to reading the rest of it with
the construct in hand.  In this form parts of a sequence are put one after the
other without a word on lengths.

## The ledger

The number of a group is the one that is next when it is opened, so the text of
a pattern that begins with group three is read as such only behind two other
groups.  `Parser.Fits` collects what a text needs: the dialect, room for groups
around each other and the next numbers; `Parser.Enters` says what reading it has
added to the ledger.  That references are checked at the end of the whole text
is the reason why the ledger has to be followed through all constructs.

## What is read

The pattern that is read has the class that is written for each class and a
group around each repeated construct that is no atom (`Pattern.reread`), and no
other difference.

## Main definitions

* `Pattern.isWritable` — whether a dialect has all that is written for a
  pattern.
* `Parser.Fits` — what reading a text needs: options, room for groups, and the
  next numbers.
* `Parser.Enters` — what reading a pattern does to the ledger.
* `Parser.ComesTo` — whether reading one text comes to reading the rest of it.
* `Parser.Rereads` — whether the text of a pattern is read as it should be, in
  its place.

## Main statements

* `Parser.rereads_of_written` — the text of a pattern is read as it should be.
* `Pattern.parse_print_of_writable`, `Pattern.parse_print_eq` — so is the text
  of a whole pattern.
-/

namespace Regexp.Pattern

variable {p q : Pattern} {ps : List Pattern}

/-! ### Patterns of a dialect -/

mutual

/-- Whether the dialect of some options has all that is written for a pattern
under them.  The dialect of XML Schema has only some of the escapes for
characters, and no constructs but classes, greedy repetitions of atoms and
groups that capture. -/
def isWritable (opts : Options) : Pattern → Bool
  | .empty => true
  | .char c => Parser.knowsEscape opts.xmlSchema (printChar opts c)
  | .string cs => cs.all fun c => Parser.knowsEscape opts.xmlSchema (printChar opts c)
  | .charClass set negated => Parser.knowsClass opts.xmlSchema set negated
  | .concat items => areWritable opts items
  | .union alternatives => areWritable opts alternatives
  | .repetition body _ _ greedy =>
    (!opts.xmlSchema || (greedy && body.isAtom)) && body.isWritable opts
  | .group (some _) body => body.isWritable opts
  | _ => !opts.xmlSchema
  termination_by structural p => p

/-- Whether a dialect has all that is written for several patterns. -/
def areWritable (opts : Options) : List Pattern → Bool
  | [] => true
  | p :: ps => p.isWritable opts && areWritable opts ps
  termination_by structural ps => ps

end

theorem areWritable_iff {opts : Options} :
    areWritable opts ps = true ↔ ∀ p ∈ ps, p.isWritable opts = true := by
  induction ps with
  | nil => simp [areWritable]
  | cons p ps ih => simp [areWritable, ih]

mutual

/-- The dialect with all constructs has whatever is written.  The only dialect
without some of them is that of XML Schema. -/
theorem isWritable_of_plain {opts : Options} (hX : opts.xmlSchema = false) :
    (p : Pattern) → p.isWritable opts = true
  | .concat items => areWritable_of_plain hX items
  | .union alternatives => areWritable_of_plain hX alternatives
  | .repetition body _ _ _ => by
    rw [isWritable, isWritable_of_plain hX body, hX]
    rfl
  | .group (some _) body => isWritable_of_plain hX body
  | .char _ => by rw [isWritable, hX, Parser.knowsEscape_false]
  | .string _ => by simp [isWritable, hX, Parser.knowsEscape_false]
  | .charClass _ _ => by
    simp [isWritable, hX, Parser.knowsClass, Parser.knowsEnds, Parser.knowsEscape_false]
  | .empty => rfl
  | .dot | .anchor _ | .group none _ | .backref _ | .look _ _ | .independent _ | .modifier _ _ _
  | .ifGroup _ _ _ | .ifLook _ _ _ => by simp [isWritable, hX]
  termination_by structural p => p

theorem areWritable_of_plain {opts : Options} (hX : opts.xmlSchema = false) :
    (ps : List Pattern) → areWritable opts ps = true
  | [] => rfl
  | p :: ps =>
    Bool.and_eq_true_iff.mpr ⟨isWritable_of_plain hX p, areWritable_of_plain hX ps⟩
  termination_by structural ps => ps

end

namespace Parser

variable {opts o : Options} {ledger l l₁ l₂ : Ledger} {limit budget m : ℕ} {indices : List ℕ}
  {s t rest : List Char} {items : List Pattern}

/-! ### Room for a text -/

/-- Whether the numbers of groups are those after a given number, in order.  A
reader that has opened that many groups would give them the same numbers. -/
def Follow (m : ℕ) (indices : List ℕ) : Prop := ∃ n, indices = List.range' (m + 1) n

theorem Follow.of_append {indices' : List ℕ} (h : Follow m (indices ++ indices')) :
    Follow m indices ∧ Follow (m + indices.length) indices' := by
  obtain ⟨n, h⟩ := h
  obtain ⟨k, -, rfl, rfl⟩ := List.range'_eq_append_iff.mp h.symm
  exact ⟨⟨k, rfl⟩, n - k, by rw [List.length_range', Nat.mul_one, Nat.add_right_comm]⟩

theorem Follow.of_cons {i : ℕ} (h : Follow m (i :: indices)) :
    i = m + 1 ∧ Follow (m + 1) indices := by
  obtain ⟨n, h⟩ := h
  cases n with
  | zero => cases h
  | succ n =>
    rw [List.range'_succ] at h
    obtain ⟨rfl, rfl⟩ := List.cons.inj h
    exact ⟨rfl, n, rfl⟩

/-- What it takes to read a text that was printed under other options: the
dialect, blanks that were escaped if they are skipped, room for groups around
each other, and the next numbers for groups. -/
structure Fits (opts o : Options) (ledger : Ledger) (budget : ℕ) (s : List Char)
    (indices : List ℕ) : Prop where
  xmlSchema : o.xmlSchema = opts.xmlSchema
  extended : o.extended = true → opts.extended = true
  length_le : s.length ≤ budget
  follow : Follow ledger.groups indices

namespace Fits

/-- The first part of a text fits where the whole does, with the numbers of its
own groups. -/
theorem left {indices' : List ℕ} (h : Fits opts o ledger budget (s ++ t) (indices ++ indices')) :
    Fits opts o ledger budget s indices where
  xmlSchema := h.xmlSchema
  extended := h.extended
  length_le := by
    have := h.length_le
    rw [List.length_append] at this
    omega
  follow := h.follow.of_append.1

/-- The rest of a text, after the groups of the first part were opened, so that
its numbers follow these. -/
theorem right {indices' : List ℕ} (h : Fits opts o ledger budget (s ++ t) (indices ++ indices'))
    (hgroups : l.groups = ledger.groups + indices.length) : Fits opts o l budget t indices' where
  xmlSchema := h.xmlSchema
  extended := h.extended
  length_le := by
    have := h.length_le
    rw [List.length_append] at this
    omega
  follow := hgroups ▸ h.follow.of_append.2

/-- A reference takes no number, so noting it changes nothing for what follows. -/
theorem refer (h : Fits opts o ledger budget s indices) (n : ℕ) (t : List Char) :
    Fits opts o (ledger.refer n t) budget s indices :=
  ⟨h.xmlSchema, h.extended, h.length_le, h.follow⟩

/-- A part of a text that has all its groups, as what is inside of marks that
open none. -/
theorem of_length_le (h : Fits opts o ledger budget s indices) (hle : t.length ≤ s.length) :
    Fits opts o ledger budget t indices :=
  ⟨h.xmlSchema, h.extended, hle.trans h.length_le, h.follow⟩

/-- A text in a group, around which one more group is open.  The budget bounds
the length of the text, so there is one level left. -/
theorem inner (h : Fits opts o ledger budget s indices) (hlt : t.length < s.length) :
    ∃ b, budget = b + 1 ∧ Fits opts o ledger b t indices := by
  have hle := h.length_le
  exact ⟨budget - 1, by omega, h.xmlSchema, h.extended, by omega, h.follow⟩

end Fits

/-! ### What is entered -/

/-- Whether a ledger has the groups and the references of a pattern in addition
to those of another one, and no other ones. -/
structure Enters (l : Ledger) (p : Pattern) (l' : Ledger) : Prop where
  groups : l'.groups = l.groups + p.groupIndices.length
  references : ∀ r ∈ l'.references, r ∈ l.references ∨ ∃ f ∈ p.features, f.group? = some r.1

namespace Enters

theorem plain (h : p.groupIndices = []) : Enters l p l := ⟨by simp [h], fun _ hr => .inl hr⟩

/-- A pattern around another one with no groups of its own enters what the inner
one does. -/
theorem mono (h : Enters l p l₁) (hindices : q.groupIndices = p.groupIndices)
    (hfeatures : p.features ⊆ q.features) : Enters l q l₁ where
  groups := hindices ▸ h.groups
  references r hr := (h.references r hr).imp_right fun ⟨f, hf, hg⟩ => ⟨f, hfeatures hf, hg⟩

/-- Two patterns one after the other enter the groups and the references of
both. -/
theorem append {both : Pattern} (h : Enters l p l₁) (h' : Enters l₁ q l₂)
    (hindices : both.groupIndices = p.groupIndices ++ q.groupIndices)
    (hp : p.features ⊆ both.features) (hq : q.features ⊆ both.features) : Enters l both l₂ where
  groups := by rw [h'.groups, h.groups, hindices, List.length_append, Nat.add_assoc]
  references r hr := by
    rcases h'.references r hr with hr | ⟨f, hf, hg⟩
    · exact (h.mono rfl (List.Subset.refl _)).references r hr |>.imp_right
        fun ⟨f, hf, hg⟩ => ⟨f, hp hf, hg⟩
    · exact .inr ⟨f, hq hf, hg⟩

theorem cons (h : Enters l p l₁) (h' : Enters l₁ (.concat ps) l₂) :
    Enters l (.concat (p :: ps)) l₂ :=
  h.append h' rfl (List.subset_append_left _ _) (List.subset_append_right _ _)

end Enters

/-! ### Ranks -/

/-- Whether reading one text comes to reading another one, which is not longer.
It serves for what is skipped before a construct. -/
def ComesTo {α : Type} {s t : List Char} (x : Scans α s) (y : Scans α t) : Prop :=
  ∃ h : t.length ≤ s.length, x = y.map fun r => r.after h

namespace ComesTo

variable {α : Type} {u : List Char} {x : Scans α s} {y : Scans α t} {z : Scans α u}

theorem refl (x : Scans α s) : ComesTo x x := ⟨Nat.le_refl _, by cases x <;> rfl⟩

theorem trans (h : ComesTo x y) (h' : ComesTo y z) : ComesTo x z := by
  obtain ⟨hle, rfl⟩ := h
  obtain ⟨hle', rfl⟩ := h'
  exact ⟨hle'.trans hle, by cases z <;> rfl⟩

theorem scansTo {v : α} (h : ComesTo x y) (hy : ScansTo y v rest) : ScansTo x v rest := by
  obtain ⟨_, rfl⟩ := h
  obtain ⟨_, rfl⟩ := hy
  exact ⟨_, rfl⟩

end ComesTo

/-- Whether the text of a pattern is read as it should be where a pattern of a
rank is expected.  Behind a part of a sequence nothing stands that would be
skipped or is a quantifier, behind a sequence a bar or the end of the group, and
behind contents the end of the group. -/
def Rereads (opts : Options) (p : Pattern) : Rank → Prop
  | .atom => ∀ o ledger limit budget rest,
    Fits opts o ledger budget (printChars opts p) p.groupIndices →
    ∃ ledger', Enters ledger p ledger' ∧
      Consumes (atom (groupWithin limit budget) o ledger (printChars opts p ++ rest))
        (p.reread, ledger') rest
  | .item => ∀ o ledger limit budget rest,
    Fits opts o ledger budget (printChars opts p) p.groupIndices → Settled o rest →
    ∃ ledger', Enters ledger p ledger' ∧ ∀ items,
      ComesTo (branchItems (groupWithin limit budget) o ledger (printChars opts p ++ rest) items)
        (branchItems (groupWithin limit budget) o ledger' rest (p.pieces.reverse ++ items))
  | .branch => ∀ o ledger limit budget rest,
    Fits opts o ledger budget (printChars opts p) p.groupIndices →
    (∀ c ∈ rest.head?, c = '|' ∨ c = ')') →
    ∃ ledger', Enters ledger p ledger' ∧
      ScansTo (branch (groupWithin limit budget) o ledger (printChars opts p ++ rest))
        (p.reread, ledger') rest
  | .contents => ∀ o ledger limit budget rest,
    Fits opts o ledger budget (printChars opts p) p.groupIndices → (∀ c ∈ rest.head?, c = ')') →
    ∃ ledger', Enters ledger p ledger' ∧
      ScansTo (alternation (groupWithin limit budget) o ledger (printChars opts p ++ rest))
        (p.reread, ledger') rest

/-! ### Parts of sequences -/

section

variable {group : GroupReader} {ledger' : Ledger} {c : Char}

/-- A construct with its quantifier, in front of the rest of a sequence.  The
reader comes to that rest with the construct collected. -/
theorem comesTo_branchItems_cons (hc : Opens o c)
    (hatom : Consumes (atom group o ledger (c :: s)) (p, ledger') t)
    (hquantified : ScansTo (quantified o p t) q rest) (items : List Pattern) :
    ComesTo (branchItems group o ledger (c :: s) items)
      (branchItems group o ledger' rest (q :: items)) := by
  have hskip := (hc.settled s).1
  have hcontinues : continuesBranch (skip o.extended (c :: s)) = true := by
    rw [hskip]
    exact hc.continuesBranch s
  rw [← hskip] at hatom
  obtain ⟨hlt, hatom⟩ := hatom
  obtain ⟨hle, hquantified⟩ := hquantified
  refine ⟨hle.trans (hlt.le.trans (length_skip_le _ _)), ?_⟩
  rw [branchItems.eq_def]
  simp only [hcontinues, if_true, hatom, bind, Except.bind, hquantified]
  cases branchItems group o ledger' rest (q :: items) <;> rfl

/-- The end of a sequence, where a bar or a parenthesis stands or the text ends.
What was collected is put in order. -/
theorem scansTo_branchItems_end (hrest : ∀ c ∈ rest.head?, c = '|' ∨ c = ')') :
    ScansTo (branchItems group o ledger rest items) (.seq items.reverse, ledger) rest := by
  have hskip := (settled_of_ends (o := o) hrest).1
  have hcontinues : continuesBranch (skip o.extended rest) = false := by
    rw [hskip]
    cases rest with
    | nil => rfl
    | cons c rest => rcases hrest c rfl with rfl | rfl <;> rfl
  rw [branchItems.eq_def]
  simp only [hcontinues, Bool.false_eq_true, if_false]
  exact ⟨Nat.le_refl _, by simp only [hskip]⟩

/-- Behind the text of a construct another one may stand, whose text is neither
skipped nor read as a quantifier. -/
theorem Leads.settled (h : Leads opts s) (hX : o.extended = true → opts.extended = true)
    (rest : List Char) : Settled o (s ++ rest) := by
  obtain ⟨c, t, rfl, hc, -⟩ := h
  exact (hc.settled _).mono hX

/-- So may characters. -/
theorem settled_chars (hX : o.extended = true → opts.extended = true) (cs : List Char)
    (hrest : cs = [] → Settled o rest) : Settled o (cs.flatMap (printChar opts) ++ rest) := by
  cases cs with
  | nil => exact hrest rfl
  | cons c cs =>
    rw [List.flatMap_cons, List.append_assoc]
    exact (Leads.of_printChar opts c).settled hX _

/-- The characters of a string are read one by one, and are collected as
characters.  The reader joins them only at the end of the sequence. -/
theorem comesTo_chars (hextended : o.extended = true → opts.extended = true) {cs : List Char}
    (hknown : ∀ c ∈ cs, knowsEscape o.xmlSchema (printChar opts c) = true) (hrest : Settled o rest)
    (items : List Pattern) :
    ComesTo (branchItems group o ledger (cs.flatMap (printChar opts) ++ rest) items)
      (branchItems group o ledger rest ((cs.map .char).reverse ++ items)) := by
  induction cs generalizing items with
  | nil => exact .refl _
  | cons c cs ih =>
    obtain ⟨hc, hknown⟩ := List.forall_mem_cons.mp hknown
    have hnext := settled_chars hextended cs fun _ => hrest
    have hread : Consumes (atom group o ledger
        (printChar opts c ++ (cs.flatMap (printChar opts) ++ rest))) (.char c, ledger)
        (cs.flatMap (printChar opts) ++ rest) := consumes_atom_printChar hc _
    have hmore := ih hknown (.char c :: items)
    obtain ⟨d, t, htext, hd⟩ := printChar_head opts c
    rw [List.flatMap_cons, List.append_assoc]
    rw [htext] at hread ⊢
    rw [List.map_cons, List.reverse_cons, List.append_assoc]
    exact .trans
      (comesTo_branchItems_cons (hd.mono hextended) hread (scansTo_unquantified hnext) items) hmore

end

/-- An atom is a part of a sequence, as one without a quantifier. -/
theorem rereads_ofAtom (hp : Written PlainChange .atom p) (h : Rereads opts p .atom) :
    Rereads opts p .item := by
  intro o ledger limit budget rest hfits hrest
  obtain ⟨ledger', henters, hread⟩ := h o ledger limit budget rest hfits
  refine ⟨ledger', henters, fun items => ?_⟩
  obtain ⟨c, t, htext, hc, -⟩ : Leads opts (printChars opts p) := begins_of_written opts hp
  have hpieces : p.pieces = [p.reread] := by cases hp <;> rfl
  rw [hpieces]
  rw [htext] at hread ⊢
  exact comesTo_branchItems_cons (hc.mono hfits.extended) hread (scansTo_unquantified hrest) items

theorem rereads_string {cs : List Char} (hw : (string cs).isWritable opts = true) :
    Rereads opts (.string cs) .item := by
  intro o ledger limit budget rest hfits hrest
  have hknown : ∀ c ∈ cs, knowsEscape o.xmlSchema (printChar opts c) = true := by
    rw [hfits.xmlSchema]
    exact List.all_eq_true.mp hw
  exact ⟨ledger, .plain rfl, comesTo_chars hfits.extended hknown hrest⟩

/-- What a quantifier is written behind: the pattern if it is an atom, or else a
group with it. -/
def repeated (p : Pattern) : Pattern := if p.isAtom then p else .group none p

/-- A quantifier is read behind what it was written for.  XML Schema has no
reluctant ones, so there it has to be greedy. -/
theorem rereads_repetition {min : ℕ} {max : Option ℕ} {greedy : Bool}
    (hX : opts.xmlSchema = true → greedy = true)
    (hlead : Leads opts (printChars opts (repeated p))) (h : Rereads opts (repeated p) .atom)
    (hbounds : Bounds min max) : Rereads opts (.repetition p min max greedy) .item := by
  intro o ledger limit budget rest hfits hrest
  have htext : printChars opts (.repetition p min max greedy) =
      printChars opts (repeated p) ++ printQuantifier min max greedy := by
    unfold repeated
    cases hatom : p.isAtom <;> simp [printChars, hatom]
  have hindices : (repeated p).groupIndices = p.groupIndices := by
    unfold repeated
    split <;> rfl
  have hfeatures : (repeated p).features ⊆ p.features := by
    unfold repeated
    split <;> exact List.Subset.refl _
  have hpieces : (Pattern.repetition p min max greedy).pieces =
      [.repetition (repeated p).reread min max greedy] := by
    unfold repeated
    cases hatom : p.isAtom <;> simp [pieces, reread, hatom]
  rw [htext] at hfits ⊢
  have hfits' : Fits opts o ledger budget (printChars opts (repeated p))
      (repeated p).groupIndices := by
    rw [hindices]
    exact hfits.of_length_le (by simp)
  obtain ⟨ledger', henters, hread⟩ := h o ledger limit budget
    (printQuantifier min max greedy ++ rest) hfits'
  refine ⟨ledger', henters.mono hindices.symm hfeatures, fun items => ?_⟩
  obtain ⟨c, t, hhead, hc, -⟩ := hlead
  rw [hpieces, List.append_assoc]
  rw [hhead] at hread ⊢
  exact comesTo_branchItems_cons (hc.mono hfits.extended) hread
    (scansTo_quantified (fun h => hX (hfits.xmlSchema ▸ h)) hbounds hrest) items

/-- Behind the text of a part of a sequence other parts may stand, since each
begins with a character that opens a construct. -/
theorem settled_items (hX : o.extended = true → opts.extended = true)
    (hps : ∀ p ∈ ps, Written PlainChange .item p) (hrest : ps = [] → Settled o rest) :
    Settled o (printItems opts ps ++ rest) := by
  cases ps with
  | nil => exact hrest rfl
  | cons p ps =>
    have hp := hps p List.mem_cons_self
    rw [printItems, guardUnion_of_branch (.ofItem hp), List.append_assoc]
    exact Leads.settled (begins_of_written opts hp) hX _

/-- The parts of a sequence are read one after the other, and are collected in
front of those that were read before. -/
theorem rereads_items (limit : ℕ) (hps : ∀ p ∈ ps, Written PlainChange .item p)
    (h : ∀ p ∈ ps, Rereads opts p .item)
    (hfits : Fits opts o ledger budget (printItems opts ps) (groupIndicesAll ps))
    (hrest : Settled o rest) :
    ∃ ledger', Enters ledger (.concat ps) ledger' ∧ ∀ items,
      ComesTo (branchItems (groupWithin limit budget) o ledger (printItems opts ps ++ rest) items)
        (branchItems (groupWithin limit budget) o ledger' rest
          ((ps.flatMap pieces).reverse ++ items)) := by
  induction ps generalizing ledger with
  | nil => exact ⟨ledger, .plain rfl, fun items => .refl _⟩
  | cons p ps ih =>
    obtain ⟨hp, hps⟩ := List.forall_mem_cons.mp hps
    obtain ⟨hread, h⟩ := List.forall_mem_cons.mp h
    have htext : printItems opts (p :: ps) = printChars opts p ++ printItems opts ps := by
      rw [printItems, guardUnion_of_branch (.ofItem hp)]
    rw [htext] at hfits ⊢
    have hnext := settled_items hfits.extended hps fun _ => hrest
    obtain ⟨ledger₁, henters, hread⟩ := hread o ledger limit budget _ hfits.left hnext
    obtain ⟨ledger₂, henters', hmore⟩ := ih hps h (hfits.right henters.groups)
    refine ⟨ledger₂, henters.cons henters', fun items => ?_⟩
    rw [List.append_assoc, List.flatMap_cons, List.reverse_append, List.append_assoc]
    exact (hread items).trans (hmore _)

/-! ### Sequences and alternatives -/

/-- A part of a sequence is a sequence, where it is followed by a bar, a
parenthesis or the end. -/
theorem rereads_ofItem (hp : Written PlainChange .item p) (h : Rereads opts p .item) :
    Rereads opts p .branch := by
  intro o ledger limit budget rest hfits hrest
  obtain ⟨ledger', henters, hread⟩ := h o ledger limit budget rest hfits (settled_of_ends hrest)
  have hend := (hread []).scansTo (scansTo_branchItems_end hrest)
  rw [List.append_nil, List.reverse_reverse, seq_pieces_of_item hp] at hend
  exact ⟨ledger', henters, hend⟩

theorem rereads_empty : Rereads opts .empty .branch := fun _ ledger _ _ _ _ hrest =>
  ⟨ledger, .plain rfl, scansTo_branchItems_end hrest⟩

theorem rereads_concat (hlen : 2 ≤ ps.length) (hps : Joined PlainChange ps)
    (h : ∀ p ∈ ps, Rereads opts p .item) : Rereads opts (.concat ps) .branch := by
  intro o ledger limit budget rest hfits hrest
  obtain ⟨ledger', henters, hread⟩ :=
    rereads_items limit hps.1 h hfits (settled_of_ends hrest)
  have hend := (hread []).scansTo (scansTo_branchItems_end hrest)
  rw [List.append_nil, List.reverse_reverse, seq_pieces hlen hps] at hend
  exact ⟨ledger', henters, hend⟩

/-- Alternatives have a bar in front of each but the first. -/
theorem printAlternatives_cons (opts : Options) (p : Pattern) (ps : List Pattern) :
    printAlternatives opts (p :: ps) =
      printChars opts p ++ ps.flatMap fun q => '|' :: printChars opts q := by
  induction ps generalizing p with
  | nil => simp [printAlternatives]
  | cons q ps ih => rw [printAlternatives, ih, List.append_assoc, List.flatMap_cons]; simp; nofun

/-- An alternative behind a bar is read, and then the others. -/
theorem scansTo_moreBranches_cons {group : GroupReader} {v : List Pattern × Ledger}
    (hbranch : ScansTo (branch group o ledger s) (p, l) t)
    (hmore : ScansTo (moreBranches group o l t (p :: items)) v rest) :
    ScansTo (moreBranches group o ledger ('|' :: s) items) v rest := by
  obtain ⟨_, hbranch⟩ := hbranch
  obtain ⟨_, hmore⟩ := hmore
  rw [moreBranches, hbranch]
  simp only [bind, Except.bind, hmore]
  exact ⟨_, rfl⟩

/-- Without a bar there is no other alternative. -/
theorem scansTo_moreBranches_end {group : GroupReader} (hrest : ∀ c ∈ rest.head?, c = ')') :
    ScansTo (moreBranches group o ledger rest items) (items.reverse, ledger) rest := by
  rw [moreBranches]
  · exact ⟨_, rfl⟩
  · rintro s rfl
    cases hrest '|' rfl

/-- The alternatives after the first are read. -/
theorem rereads_moreBranches (limit : ℕ) (h : ∀ p ∈ ps, Rereads opts p .branch)
    (hfits : Fits opts o ledger budget (ps.flatMap fun q => '|' :: printChars opts q)
      (groupIndicesAll ps)) (hrest : ∀ c ∈ rest.head?, c = ')') (items : List Pattern) :
    ∃ ledger', Enters ledger (.concat ps) ledger' ∧
      ScansTo (moreBranches (groupWithin limit budget) o ledger
        ((ps.flatMap fun q => '|' :: printChars opts q) ++ rest) items)
        (items.reverse ++ rereadAll ps, ledger') rest := by
  induction ps generalizing ledger items with
  | nil =>
    rw [rereadAll, List.append_nil]
    exact ⟨ledger, .plain rfl, scansTo_moreBranches_end hrest⟩
  | cons p ps ih =>
    obtain ⟨hread, h⟩ := List.forall_mem_cons.mp h
    rw [List.flatMap_cons] at hfits ⊢
    obtain ⟨ledger₁, henters, hbranch⟩ := hread o ledger limit budget
      ((ps.flatMap fun q => '|' :: printChars opts q) ++ rest)
      (hfits.left.of_length_le (by simp)) (by
        cases ps with
        | nil => exact fun c hc => .inr (hrest c hc)
        | cons q ps => simp)
    obtain ⟨ledger₂, henters', hmore⟩ := ih h (hfits.right henters.groups) (p.reread :: items)
    refine ⟨ledger₂, henters.cons henters', ?_⟩
    rw [List.append_assoc]
    rw [List.reverse_cons, List.append_assoc] at hmore
    exact scansTo_moreBranches_cons hbranch hmore

/-- **Alternatives are read one after the other.**  They are followed by a
closing parenthesis, or by nothing. -/
theorem rereads_branches (limit : ℕ) (h : ∀ q ∈ p :: ps, Rereads opts q .branch)
    (hfits : Fits opts o ledger budget (printAlternatives opts (p :: ps))
      (groupIndicesAll (p :: ps))) (hrest : ∀ c ∈ rest.head?, c = ')') :
    ∃ ledger', Enters ledger (.concat (p :: ps)) ledger' ∧
      ScansTo (branches (groupWithin limit budget) o ledger
        (printAlternatives opts (p :: ps) ++ rest)) (rereadAll (p :: ps), ledger') rest := by
  obtain ⟨hread, h⟩ := List.forall_mem_cons.mp h
  rw [printAlternatives_cons] at hfits ⊢
  obtain ⟨ledger₁, henters, hbranch⟩ := hread o ledger limit budget
    ((ps.flatMap fun q => '|' :: printChars opts q) ++ rest) hfits.left (by
      cases ps with
      | nil => exact fun c hc => .inr (hrest c hc)
      | cons q ps => simp)
  obtain ⟨ledger₂, henters', hmore⟩ :=
    rereads_moreBranches limit h (hfits.right henters.groups) hrest [p.reread]
  refine ⟨ledger₂, henters.cons henters', ?_⟩
  obtain ⟨_, hbranch⟩ := hbranch
  obtain ⟨_, hmore⟩ := hmore
  rw [List.append_assoc, branches, hbranch]
  simp only [bind, Except.bind, hmore]
  exact ⟨_, rfl⟩

/-- Contents are read from alternatives, since no change of options stands
before them. -/
theorem rereads_contents (hp : Begins opts (printChars opts p) .contents) (q : Pattern)
    (ps : List Pattern) (h : ∀ q' ∈ q :: ps, Rereads opts q' .branch)
    (htext : printChars opts p = printAlternatives opts (q :: ps))
    (hindices : p.groupIndices = groupIndicesAll (q :: ps))
    (hfeatures : featuresAll (q :: ps) ⊆ p.features)
    (hreread : p.reread = .alt (rereadAll (q :: ps))) : Rereads opts p .contents := by
  intro o ledger limit budget rest hfits hrest
  have hflags := hp.leadingFlags_eq o hrest
  rw [htext, hindices] at hfits
  obtain ⟨ledger', henters, hread⟩ := rereads_branches limit h hfits hrest
  refine ⟨ledger', henters.mono hindices hfeatures, ?_⟩
  rw [scansTo_alternation_of_none hflags]
  exact ⟨_, htext ▸ hread, hreread⟩

theorem rereads_ofBranch (hp : Written PlainChange .branch p) (h : Rereads opts p .branch) :
    Rereads opts p .contents :=
  rereads_contents (begins_of_written opts (.ofBranch hp)) p []
    (List.forall_mem_singleton.mpr h) rfl
    groupIndicesAll_singleton.symm (by simp [featuresAll]) rfl

theorem rereads_union (hlen : 2 ≤ ps.length) (hps : ∀ p ∈ ps, Written PlainChange .branch p)
    (h : ∀ p ∈ ps, Rereads opts p .branch) : Rereads opts (.union ps) .contents := by
  match ps, hlen with
  | p :: q :: ps, hlen =>
    exact rereads_contents (begins_of_written opts (.union hlen hps)) p (q :: ps) h rfl rfl
      (List.Subset.refl _) rfl

/-! ### Groups -/

section

variable {group : GroupReader} {ledger' : Ledger} {start : List Char} {v : Piece}
  {wrap : Pattern → Pattern}

theorem scansTo_wrapped (wrap : Pattern → Pattern)
    (h : ScansTo (alternation group o ledger s) (p, ledger') rest) :
    ScansTo (wrapped group o ledger s wrap) (wrap p, ledger') rest := by
  obtain ⟨_, h⟩ := h
  rw [wrapped, h]
  exact ⟨_, rfl⟩

/-- A group is read from what is in it.  It takes one level of those that are
left. -/
theorem consumes_atom_group
    (h : ScansTo (groupBody (groupWithin limit budget) o ledger ('(' :: s) s) v (')' :: rest)) :
    Consumes (atom (groupWithin limit (budget + 1)) o ledger ('(' :: s)) v rest := by
  obtain ⟨_, h⟩ := h
  show Consumes (Parser.group (groupWithin limit budget) o ledger ('(' :: s)) v rest
  rw [Parser.group, h]
  exact ⟨_, rfl⟩

/-- So is a group of another kind, behind a question mark. -/
theorem consumes_atom_special (hX : o.xmlSchema = false)
    (h : ScansTo (specialGroup (groupWithin limit budget) o ledger ('(' :: '?' :: s) s) v
      (')' :: rest)) :
    Consumes (atom (groupWithin limit (budget + 1)) o ledger ('(' :: '?' :: s)) v rest := by
  refine consumes_atom_group ?_
  obtain ⟨_, h⟩ := h
  simp only [groupBody, hX, h]
  exact ⟨_, rfl⟩

/-- A group without a mark captures, and has the next number.  The groups of its
contents come after it. -/
theorem consumes_atom_capture (hs : ∀ c ∈ s.head?, c ≠ '?')
    (h : ScansTo (alternation (groupWithin limit budget) o
      { ledger with groups := ledger.groups + 1 } s) (p, ledger') (')' :: rest)) :
    Consumes (atom (groupWithin limit (budget + 1)) o ledger ('(' :: s))
      (.group (some (ledger.groups + 1)) p, ledger') rest := by
  refine consumes_atom_group ?_
  rw [groupBody]
  · exact scansTo_wrapped _ h
  · rintro t rfl
    exact hs '?' rfl rfl

theorem rereads_capture {i : ℕ} (hp : Written PlainChange .contents p)
    (h : Rereads opts p .contents) : Rereads opts (.group (some i) p) .atom := by
  intro o ledger limit budget rest hfits
  obtain ⟨rfl, hfollow⟩ : i = ledger.groups + 1 ∧ Follow (ledger.groups + 1) p.groupIndices :=
    hfits.follow.of_cons
  obtain ⟨budget, rfl, hinner⟩ := hfits.inner (t := printChars opts p) (by
    simp only [printChars, List.length_append, List.length_cons, List.length_nil]
    omega)
  obtain ⟨ledger', henters, hread⟩ := h o { ledger with groups := ledger.groups + 1 } limit budget
    (')' :: rest) { hinner with follow := hfollow } (by simp)
  have htext : printChars opts (.group (some (ledger.groups + 1)) p) ++ rest =
      '(' :: (printChars opts p ++ ')' :: rest) := by simp [printChars]
  refine ⟨ledger', ⟨?_, henters.references⟩, ?_⟩
  · have hgroups : ledger'.groups = ledger.groups + 1 + p.groupIndices.length := henters.groups
    rw [hgroups, groupIndices, List.length_cons, Nat.add_assoc, Nat.add_comm 1]
  · rw [htext]
    exact consumes_atom_capture ((begins_of_written opts hp).ne_mark (by simp)) hread

/-- The marks that stand before contents for the construct around them.  All
these constructs are printed and read in one way. -/
inductive Marks : List Char → (Pattern → Pattern) → Prop
  | group : Marks [':'] (.group none)
  | look (kind : LookKind) : Marks kind.sign.toList (.look kind)
  | independent : Marks ['>'] .independent

theorem Marks.scansTo {mark : List Char} (hmark : Marks mark wrap)
    (h : ScansTo (alternation group o ledger s) (p, ledger') rest) :
    ScansTo (specialGroup group o ledger start (mark ++ s)) (wrap p, ledger') rest := by
  obtain ⟨_, h⟩ := scansTo_wrapped wrap h
  cases hmark with
  | group | independent =>
    simp only [List.cons_append, List.nil_append, specialGroup, h]
    exact ⟨_, rfl⟩
  | look kind =>
    cases kind <;>
    · simp only [LookKind.sign, String.reduceToList, List.cons_append, List.nil_append,
        specialGroup, h]
      exact ⟨_, rfl⟩

/-- The text of a construct with a mark, and what is read from it.  The mark
stands behind the question mark, and the construct has the groups of its
contents. -/
theorem Marks.spec {mark : List Char} (hmark : Marks mark wrap) (opts : Options) (p : Pattern) :
    (∀ rest, printChars opts (wrap p) ++ rest =
      '(' :: '?' :: (mark ++ (printChars opts p ++ ')' :: rest))) ∧
      (wrap p).reread = wrap p.reread ∧ (wrap p).groupIndices = p.groupIndices ∧
      p.features ⊆ (wrap p).features := by
  cases hmark with
  | group => exact ⟨by simp [printChars, inGroup], rfl, rfl, List.Subset.refl _⟩
  | look kind => exact ⟨by simp [printChars], rfl, rfl, List.subset_cons_self _ _⟩
  | independent => exact ⟨by simp [printChars], rfl, rfl, List.subset_cons_self _ _⟩

/-- **A construct with a mark before its contents** is read as it was printed. -/
theorem Marks.rereads {mark : List Char} (hmark : Marks mark wrap)
    (hX : opts.xmlSchema = false) (h : Rereads opts p .contents) :
    Rereads opts (wrap p) .atom := by
  intro o ledger limit budget rest hfits
  obtain ⟨htext, hreread, hindices, hfeatures⟩ := hmark.spec opts p
  rw [hindices] at hfits
  obtain ⟨budget, rfl, hinner⟩ := hfits.inner (t := printChars opts p) (by
    have := congrArg List.length (htext [])
    simp only [List.length_append, List.length_cons, List.length_nil] at this
    omega)
  obtain ⟨ledger', henters, hread⟩ := h o ledger limit budget (')' :: rest) hinner (by simp)
  refine ⟨ledger', henters.mono hindices hfeatures, ?_⟩
  rw [htext, hreread]
  exact consumes_atom_special (hfits.xmlSchema.trans hX) (hmark.scansTo hread)

/-! ### Changes of options -/

variable {add remove : Options}

/-- What a group may change leaves the dialect alone, so that a text is read in
one dialect throughout. -/
theorem IsLocal.xmlSchema_modify (hadd : IsLocal add) (hremove : IsLocal remove) (o : Options) :
    (o.modify add remove).xmlSchema = o.xmlSchema := by
  simp [Options.modify, Options.union, Options.diff, Options.zipWith, hadd.xmlSchema,
    hremove.xmlSchema]

theorem PlainChange.extended_modify (h : PlainChange add remove)
    (hX : (o.modify add remove).extended = true) : o.extended = true := by
  revert hX
  simp +contextual [Options.modify, Options.union, Options.diff, Options.zipWith, h.not_extended]

theorem scansTo_specialGroup_of_flags {c : Char} (hc : c = '-' ∨ c ∈ groupFlags)
    (hflags : Consumes (flags (c :: s) {} false) ⟨add, remove, true⟩ t)
    (h : ScansTo (alternation group (o.modify add remove) ledger t) (p, ledger') rest) :
    ScansTo (specialGroup group o ledger start (c :: s)) (.modifier add remove p, ledger')
      rest := by
  obtain ⟨_, hflags⟩ := hflags
  obtain ⟨_, h⟩ := scansTo_wrapped (.modifier add remove) h
  rw [specialGroup_of_flags hc, modifierGroup, hflags]
  simp only [bind, Except.bind, h]
  exact ⟨_, rfl⟩

/-- What stands behind a printed change of options is read under it.  Some
option has to be changed, as otherwise nothing is printed. -/
theorem scansTo_specialGroup_printFlags (hadd : IsLocal add) (hremove : IsLocal remove)
    (hne : add ≠ .empty ∨ remove ≠ .empty)
    (h : ScansTo (alternation group (o.modify add remove) ledger s) (p, ledger') rest) :
    ScansTo (specialGroup group o ledger start (printFlags add remove ++ ':' :: s))
      (.modifier add remove p, ledger') rest := by
  obtain ⟨c, t, hflags, hc⟩ := printFlags_head hadd hne
  have hchanges := flags_printFlags hadd hremove s
  rw [hflags, List.cons_append] at hchanges ⊢
  exact scansTo_specialGroup_of_flags hc hchanges h

/-- **A group that changes options** is read as it was printed. -/
theorem rereads_modifier (hX : opts.xmlSchema = false) (hchange : PlainChange add remove)
    (h : Rereads opts p .contents) : Rereads opts (.modifier add remove p) .atom := by
  intro o ledger limit budget rest hfits
  have hschema := hchange.add_local.xmlSchema_modify hchange.remove_local o
  obtain ⟨budget, rfl, hinner⟩ := hfits.inner (t := printChars opts p) (by
    simp only [printChars, List.length_append, List.length_cons, List.length_nil]
    omega)
  obtain ⟨ledger', henters, hread⟩ := h (o.modify add remove) ledger limit budget (')' :: rest)
    { hinner with
      xmlSchema := hschema.trans hinner.xmlSchema
      extended := fun hX => hinner.extended (hchange.extended_modify hX) } (by simp)
  refine ⟨ledger', henters.mono rfl (List.subset_cons_self _ _), ?_⟩
  have htext : printChars opts (.modifier add remove p) ++ rest = '(' :: '?' ::
      (printFlags add remove ++ ':' :: (printChars opts p ++ ')' :: rest)) := by simp [printChars]
  rw [htext]
  exact consumes_atom_special (hfits.xmlSchema.trans hX)
    (scansTo_specialGroup_printFlags hchange.add_local hchange.remove_local hchange.named hread)

/-! ### Conditionals -/

/-- A condition is the number of a group.  The number is noted as a reference. -/
theorem consumes_condition_group (group : GroupReader) (o : Options) (ledger : Ledger) {n : ℕ}
    (hpos : 0 < n) (hn : n ≤ maxCount) (rest : List Char) :
    ∃ s, Consumes (condition group o ledger ('(' :: (Numeral.decimal n ++ ')' :: rest)))
      (.group n, ledger.refer n s) rest := by
  have htake : (Numeral.decimal n ++ ')' :: rest).takeWhile Char.isDigit = Numeral.decimal n :=
    takeWhile_append (fun c hc => Numeral.decimal_isDigit hc) (by simp)
  have hhead : (Numeral.decimal n ++ ')' :: rest).head? ≠ some '?' := by
    cases hdecimal : Numeral.decimal n with
    | nil => exact absurd hdecimal (Numeral.decimal_ne_nil n)
    | cons c t =>
      rintro hc
      cases hc
      have := Numeral.decimal_isDigit (n := n) (c := '?') (by simp [hdecimal])
      cases this
  refine ⟨'(' :: (Numeral.decimal n ++ ')' :: rest), ?_⟩
  rw [condition]
  have hrange : ¬ (decide (n = 0) || decide (n > maxCount)) = true := by
    simp only [Bool.or_eq_true, decide_eq_true_iff]
    omega
  simp only [htake, Numeral.numberOf_decimal, if_neg hhead, if_neg hrange]
  split
  · rename_i t ht
    rw [htake, List.drop_left] at ht
    cases ht
    exact ⟨_, rfl⟩
  · rename_i hne
    rw [htake, List.drop_left] at hne
    exact absurd rfl (hne rest)

/-- Or it is a lookaround, which is read as a group is. -/
theorem consumes_condition_look {kind : LookKind}
    (h : Consumes (group o ledger ('(' :: '?' :: s)) (.look kind p, ledger') rest) :
    Consumes (condition group o ledger ('(' :: '?' :: s)) (.look (.look kind p), ledger') rest := by
  obtain ⟨_, h⟩ := h
  rw [condition]
  simp only [List.head?_cons, if_true, h, bind, Except.bind]
  exact ⟨_, rfl⟩

/-- A conditional is read from its condition and its branches.  The second
branch may be left out. -/
theorem consumes_atom_conditional {c : Condition} {yes : Pattern} (no : Option Pattern)
    (hX : o.xmlSchema = false)
    (hcondition : Consumes (condition (groupWithin limit budget) o ledger ('(' :: s)) (c, l) t)
    (hbranches : ScansTo (branches (groupWithin limit budget) o l t) (yes :: no.toList, ledger')
      (')' :: rest)) :
    Consumes (atom (groupWithin limit (budget + 1)) o ledger ('(' :: '?' :: '(' :: s))
      (c.choose yes no, ledger') rest := by
  refine consumes_atom_special hX ?_
  obtain ⟨_, hcondition⟩ := hcondition
  obtain ⟨_, hbranches⟩ := hbranches
  show ScansTo (conditional (groupWithin limit budget) o ledger _ ('(' :: s)) _ _
  rw [conditional, hcondition]
  simp only [bind, Except.bind, hbranches]
  cases no <;> exact ⟨_, rfl⟩

/-- A reference is entered as a feature of the pattern that makes it. -/
theorem Enters.refer {f : Feature} {n : ℕ} (hf : f ∈ p.features) (hn : f.group? = some n)
    (hindices : p.groupIndices = []) (s : List Char) : Enters l p (l.refer n s) where
  groups := by simp [hindices, Ledger.refer]
  references r hr := by
    rcases List.mem_cons.mp hr with rfl | hr
    · exact .inr ⟨f, hf, hn⟩
    · exact .inl hr

variable {yes : Pattern} {no : Option Pattern} {n : ℕ} {kind : LookKind} {test : Pattern}

/-- The branches of a conditional are written as alternatives behind its
condition. -/
theorem print_ifGroup (opts : Options) (n : ℕ) (hyes : Written PlainChange .branch yes)
    (hno : ∀ q ∈ no, Written PlainChange .branch q) (rest : List Char) :
    printChars opts (.ifGroup n yes no) ++ rest = '(' :: '?' :: '(' :: (Numeral.decimal n ++
      ')' :: (printAlternatives opts (yes :: no.toList) ++ ')' :: rest)) := by
  cases no with
  | none => simp [printChars, printAlternatives, guardUnion_of_branch hyes]
  | some q =>
    simp [printChars, printAlternatives, guardUnion_of_branch hyes,
      guardUnion_of_branch (hno q rfl)]

theorem print_ifLook (opts : Options) (test : Pattern) (hyes : Written PlainChange .branch yes)
    (hno : ∀ q ∈ no, Written PlainChange .branch q) (rest : List Char) :
    printChars opts (.ifLook test yes no) ++ rest = '(' :: '?' :: (printChars opts test ++
      (printAlternatives opts (yes :: no.toList) ++ ')' :: rest)) := by
  cases no with
  | none => simp [printChars, printAlternatives, guardUnion_of_branch hyes]
  | some q =>
    simp [printChars, printAlternatives, guardUnion_of_branch hyes,
      guardUnion_of_branch (hno q rfl)]

/-- A conditional has the groups and the references of its branches, in addition
to its own. -/
theorem spec_ifGroup (n : ℕ) (yes : Pattern) (no : Option Pattern) :
    (Pattern.ifGroup n yes no).groupIndices = groupIndicesAll (yes :: no.toList) ∧
      (Pattern.ifGroup n yes no).features = .groupTest n :: featuresAll (yes :: no.toList) := by
  cases no <;> simp [groupIndices, groupIndicesAll, features, featuresAll]

theorem spec_ifLook (test yes : Pattern) (no : Option Pattern) :
    (Pattern.ifLook test yes no).groupIndices =
        test.groupIndices ++ groupIndicesAll (yes :: no.toList) ∧
      (Pattern.ifLook test yes no).features =
        .conditional :: (test.features ++ featuresAll (yes :: no.toList)) := by
  cases no <;> simp [groupIndices, groupIndicesAll, features, featuresAll]

/-- **A conditional on a group** is read as it was printed. -/
theorem rereads_ifGroup (hX : opts.xmlSchema = false) (hpos : 0 < n) (hn : n ≤ maxCount)
    (hyes : Written PlainChange .branch yes) (hno : ∀ q ∈ no, Written PlainChange .branch q)
    (h : ∀ q ∈ yes :: no.toList, Rereads opts q .branch) :
    Rereads opts (.ifGroup n yes no) .atom := by
  intro o ledger limit budget rest hfits
  have hplain := hfits.xmlSchema.trans hX
  have htext := print_ifGroup opts n hyes hno
  obtain ⟨budget, rfl, hinner⟩ := hfits.inner (t := printAlternatives opts (yes :: no.toList)) (by
    have := congrArg List.length (htext [])
    simp only [List.length_append, List.length_cons, List.length_nil] at this
    omega)
  obtain ⟨hindices, hfeatures⟩ := spec_ifGroup n yes no
  rw [hindices] at hinner
  obtain ⟨s, hcondition⟩ := consumes_condition_group (groupWithin limit budget) o ledger hpos hn
    (printAlternatives opts (yes :: no.toList) ++ ')' :: rest)
  have hend : ∀ c ∈ (')' :: rest).head?, c = ')' := by simp
  obtain ⟨ledger', henters, hread⟩ := rereads_branches limit h (hinner.refer n s) hend
  refine ⟨ledger', ?_, ?_⟩
  · have hrefer : Enters ledger (.ifGroup n .empty none) (ledger.refer n s) :=
      .refer (f := .groupTest n) List.mem_cons_self rfl rfl s
    refine hrefer.append henters hindices ?_ ?_ <;> rw [hfeatures]
    · exact List.cons_subset_cons _ (List.nil_subset _)
    · exact List.subset_cons_self _ _
  · rw [htext]
    cases no with
    | none => exact consumes_atom_conditional none hplain hcondition hread
    | some no => exact consumes_atom_conditional (some _) hplain hcondition hread

/-- **A conditional on a lookaround** is read as it was printed. -/
theorem rereads_ifLook (hX : opts.xmlSchema = false) (htest : Rereads opts (.look kind test) .atom)
    (hyes : Written PlainChange .branch yes) (hno : ∀ q ∈ no, Written PlainChange .branch q)
    (h : ∀ q ∈ yes :: no.toList, Rereads opts q .branch) :
    Rereads opts (.ifLook (.look kind test) yes no) .atom := by
  intro o ledger limit budget rest hfits
  have hplain := hfits.xmlSchema.trans hX
  have htext := print_ifLook opts (.look kind test) hyes hno
  obtain ⟨budget, rfl, hinner⟩ := hfits.inner
    (t := printChars opts (.look kind test) ++ printAlternatives opts (yes :: no.toList)) (by
      have := congrArg List.length (htext [])
      simp only [List.length_append, List.length_cons, List.length_nil] at this ⊢
      omega)
  obtain ⟨hindices, hfeatures⟩ := spec_ifLook (.look kind test) yes no
  rw [hindices] at hinner
  obtain ⟨ledger₁, henters, hread⟩ := htest o ledger limit budget
    (printAlternatives opts (yes :: no.toList) ++ ')' :: rest) hinner.left
  have hend : ∀ c ∈ (')' :: rest).head?, c = ')' := by simp
  obtain ⟨ledger₂, henters', hread'⟩ :=
    rereads_branches limit h (hinner.right henters.groups) hend
  refine ⟨ledger₂, ?_, ?_⟩
  · refine henters.append henters' hindices ?_ ?_ <;> rw [hfeatures]
    · exact List.subset_cons_of_subset _ (List.subset_append_left _ _)
    · exact List.subset_cons_of_subset _ (List.subset_append_right _ _)
  · have hcondition : Consumes (condition (groupWithin limit budget) o ledger
        (printChars opts (.look kind test) ++
          (printAlternatives opts (yes :: no.toList) ++ ')' :: rest)))
        (.look (Pattern.look kind test).reread, ledger₁)
        (printAlternatives opts (yes :: no.toList) ++ ')' :: rest) :=
      consumes_condition_look hread
    rw [htext]
    cases no with
    | none => exact consumes_atom_conditional none hplain hcondition hread'
    | some no => exact consumes_atom_conditional (some _) hplain hcondition hread'

end

/-! ### Whole patterns -/

/-- **The text of a pattern of the dialect is read as it should be**, where a
pattern of its rank is expected. -/
theorem rereads_of_written {rank : Rank} (h : Written PlainChange rank p)
    (hw : p.isWritable opts = true) : Rereads opts p rank := by
  have hplain : (!opts.xmlSchema) = true → opts.xmlSchema = false := by simp
  induction h with
  | char c =>
    exact fun o ledger limit budget rest hfits =>
      ⟨ledger, .plain rfl, consumes_atom_printChar (by rwa [hfits.xmlSchema]) rest⟩
  | dot =>
    exact fun o ledger limit budget rest hfits =>
      ⟨ledger, .plain rfl, consumes_atom_dot (hfits.xmlSchema.trans (hplain hw)) rest⟩
  | charClass set negated =>
    exact fun o ledger limit budget rest hfits =>
      ⟨ledger, .plain rfl, consumes_atom_printClass (by rwa [hfits.xmlSchema]) rest⟩
  | anchor a =>
    exact fun o ledger limit budget rest hfits =>
      ⟨ledger, .plain rfl, consumes_atom_printAnchor (hfits.xmlSchema.trans (hplain hw)) a rest⟩
  | @backref n hn =>
    intro o ledger limit budget rest hfits
    obtain ⟨s, hread⟩ := consumes_atom_backref (groupWithin limit budget) ledger
      (hfits.xmlSchema.trans (hplain hw)) hn rest
    exact ⟨_, .refer (f := .reference n) (List.mem_singleton.mpr rfl) rfl rfl s, hread⟩
  | group index hbody ih =>
    cases index with
    | none => exact Marks.group.rereads (hplain hw) (ih (isWritable_of_plain (hplain hw) _))
    | some i => exact rereads_capture hbody (ih hw)
  | look kind _ ih =>
    exact (Marks.look kind).rereads (hplain hw) (ih (isWritable_of_plain (hplain hw) _))
  | independent _ ih =>
    exact Marks.independent.rereads (hplain hw) (ih (isWritable_of_plain (hplain hw) _))
  | modifier hchange _ ih =>
    exact rereads_modifier (hplain hw) hchange (ih (isWritable_of_plain (hplain hw) _))
  | ifGroup hpos hn hyes hno ihyes ihno =>
    have hall := isWritable_of_plain (hplain hw)
    refine rereads_ifGroup (hplain hw) hpos hn hyes hno (List.forall_mem_cons.mpr ⟨?_, ?_⟩)
    · exact ihyes (hall _)
    · exact fun q hq => ihno q (by simpa using hq) (hall q)
  | ifLook kind htest hyes hno ihtest ihyes ihno =>
    have hall := isWritable_of_plain (hplain hw)
    refine rereads_ifLook (hplain hw) ((Marks.look kind).rereads (hplain hw) (ihtest (hall _))) hyes
      hno (List.forall_mem_cons.mpr ⟨?_, ?_⟩)
    · exact ihyes (hall _)
    · exact fun q hq => ihno q (by simpa using hq) (hall q)
  | ofAtom hp ih => exact rereads_ofAtom hp (ih hw)
  | string => exact rereads_string hw
  | @repetition body min max greedy hbody hbounds ih =>
    obtain ⟨hdialect, hw⟩ := Bool.and_eq_true_iff.mp hw
    have hbegins := begins_of_written opts hbody
    have hrepeated : Leads opts (printChars opts (repeated body)) ∧
        Rereads opts (repeated body) .atom := by
      unfold repeated
      cases hatom : body.isAtom with
      | true =>
        rw [hatom] at ih hbegins
        exact ⟨hbegins, ih hw⟩
      | false =>
        rw [hatom] at ih
        exact ⟨.of_inGroup _, Marks.group.rereads (by simpa [hatom] using hdialect) (ih hw)⟩
    refine rereads_repetition (fun hX => ?_) hrepeated.1 hrepeated.2 hbounds
    simp only [hX, Bool.not_true, Bool.false_or, Bool.and_eq_true] at hdialect
    exact hdialect.1
  | empty => exact rereads_empty
  | ofItem hp ih => exact rereads_ofItem hp (ih hw)
  | concat hlen hjoined hitems ih =>
    exact rereads_concat hlen ⟨hitems, hjoined⟩ fun p hp => ih p hp (areWritable_iff.mp hw p hp)
  | ofBranch hp ih => exact rereads_ofBranch hp (ih hw)
  | union hlen hps ih =>
    exact rereads_union hlen hps fun p hp => ih p hp (areWritable_iff.mp hw p hp)

end Parser

/-! ### Whole patterns -/

/-- A shape depends on the modifiers of a pattern only.  It stays if the changes
that they make are allowed otherwise too. -/
theorem Written.restrict {allowed allowed' : Options → Options → Prop} {rank : Rank}
    (h : Written allowed rank p)
    (hmodifier : ∀ add remove body, .modifier add remove body ∈ p.subpatterns →
      allowed add remove → allowed' add remove) : Written allowed' rank p := by
  induction h with
  | char c => exact .char c
  | dot => exact .dot
  | charClass set negated => exact .charClass set negated
  | anchor a => exact .anchor a
  | backref hn => exact .backref hn
  | group index _ ih =>
    exact .group index (ih fun _ _ _ hm => hmodifier _ _ _ (List.mem_cons_of_mem _ hm))
  | look kind _ ih =>
    exact .look kind (ih fun _ _ _ hm => hmodifier _ _ _ (List.mem_cons_of_mem _ hm))
  | independent _ ih =>
    exact .independent (ih fun _ _ _ hm => hmodifier _ _ _ (List.mem_cons_of_mem _ hm))
  | modifier ha _ ih =>
    exact .modifier (hmodifier _ _ _ List.mem_cons_self ha)
      (ih fun _ _ _ hm => hmodifier _ _ _ (List.mem_cons_of_mem _ hm))
  | @ifGroup n yes no hpos hn _ _ ihyes ihno =>
    refine .ifGroup hpos hn (ihyes fun a r b hm => hmodifier a r b ?_)
      fun q hq => ihno q hq fun a r b hm => hmodifier a r b ?_
    · cases no <;> simp [subpatterns, hm]
    · cases hq
      simp [subpatterns, hm]
  | @ifLook kind test yes no _ _ _ ihtest ihyes ihno =>
    refine .ifLook kind (ihtest fun a r b hm => hmodifier a r b ?_)
      (ihyes fun a r b hm => hmodifier a r b ?_)
      fun q hq => ihno q hq fun a r b hm => hmodifier a r b ?_
    · cases no <;> simp [subpatterns, hm]
    · cases no <;> simp [subpatterns, hm]
    · cases hq
      simp [subpatterns, hm]
  | ofAtom _ ih => exact .ofAtom (ih hmodifier)
  | string hlen => exact .string hlen
  | repetition greedy _ hbounds ih =>
    exact .repetition greedy (ih fun _ _ _ hm => hmodifier _ _ _ (List.mem_cons_of_mem _ hm))
      hbounds
  | empty => exact .empty
  | ofItem _ ih => exact .ofItem (ih hmodifier)
  | concat hlen hjoined _ ih =>
    exact .concat hlen hjoined fun q hq => ih q hq fun _ _ _ hm =>
      hmodifier _ _ _ (List.mem_cons_of_mem _ (subpatterns_subset_all hq hm))
  | ofBranch _ ih => exact .ofBranch (ih hmodifier)
  | union hlen _ ih =>
    exact .union hlen fun q hq => ih q hq fun _ _ _ hm =>
      hmodifier _ _ _ (List.mem_cons_of_mem _ (subpatterns_subset_all hq hm))

mutual

/-- The numbers of the groups bound the number of groups, which counts the match
as well. -/
theorem groupLen_le {n : ℕ} : (p : Pattern) → (∀ i ∈ p.groupIndices, i ≤ n) → p.groupLen ≤ n + 1
  | .concat items, h => groupLenAll_le items h
  | .union alternatives, h => groupLenAll_le alternatives h
  | .repetition body _ _ _, h | .group none body, h | .look _ body, h | .independent body, h
  | .modifier _ _ body, h | .ifGroup _ body none, h => groupLen_le body h
  | .group (some i) body, h => by
    obtain ⟨hi, hbody⟩ := List.forall_mem_cons.mp h
    exact Nat.max_le.mpr ⟨Nat.succ_le_succ hi, groupLen_le body hbody⟩
  | .ifGroup _ yes (some no), h => by
    obtain ⟨hyes, hno⟩ := List.forall_mem_append.mp h
    exact Nat.max_le.mpr ⟨groupLen_le yes hyes, groupLen_le no hno⟩
  | .ifLook test yes none, h => by
    obtain ⟨htest, hyes⟩ := List.forall_mem_append.mp h
    exact Nat.max_le.mpr ⟨groupLen_le test htest, groupLen_le yes hyes⟩
  | .ifLook test yes (some no), h => by
    obtain ⟨hboth, hno⟩ := List.forall_mem_append.mp h
    obtain ⟨htest, hyes⟩ := List.forall_mem_append.mp hboth
    exact Nat.max_le.mpr ⟨groupLen_le test htest,
      Nat.max_le.mpr ⟨groupLen_le yes hyes, groupLen_le no hno⟩⟩
  | .empty, _ | .char _, _ | .string _, _ | .dot, _ | .charClass _ _, _ | .anchor _, _
  | .backref _, _ => Nat.le_add_left 1 n
  termination_by structural p => p

theorem groupLenAll_le {n : ℕ} : (ps : List Pattern) → (∀ i ∈ groupIndicesAll ps, i ≤ n) →
    groupLenAll ps ≤ n + 1
  | [], _ => Nat.le_add_left 1 n
  | p :: ps, h => by
    obtain ⟨hp, hps⟩ := List.forall_mem_append.mp h
    exact Nat.max_le.mpr ⟨groupLen_le p hp, groupLenAll_le ps hps⟩
  termination_by structural ps => ps

end

/-- **The text of a pattern that was read is read again**, if it is of the
dialect, with the classes that are written for its classes and with groups
around what is repeated and is no atom. -/
theorem parse_print_of_writable {opts : Options} {text : String} {limit limit' : ℕ}
    (hw : p.isWritable opts = true) (h : parse opts text limit = .ok p)
    (hmodifier : ∀ add remove body, .modifier add remove body ∈ p.subpatterns →
      (add ≠ .empty ∨ remove ≠ .empty) ∧ add.extended = false)
    (hlimit : (p.printChars opts).length ≤ limit') :
    parse opts (p.print opts) limit' = .ok p.reread := by
  obtain ⟨hwritten, n, hindices⟩ := parse_written h
  have hplain : Written Parser.PlainChange .contents p :=
    hwritten.restrict fun add remove body hm hlocal =>
      have ⟨hnamed, hextended⟩ := hmodifier add remove body hm
      ⟨hlocal.1, hlocal.2, hnamed, hextended⟩
  obtain ⟨ledger, henters, hread⟩ := Parser.rereads_of_written hplain hw opts {} limit' limit' []
    ⟨rfl, id, hlimit, n, hindices⟩ nofun
  refine parse_eq_ok_iff.mpr (Parser.whole_eq_ok_iff.mpr ⟨ledger, ?_, ?_⟩)
  · rw [print, String.toList_ofList]
    rwa [List.append_nil] at hread
  · -- The groups that are referred to were opened, since the pattern has them.
    refine List.find?_eq_none.mpr fun r hr => ?_
    have hgroups : ledger.groups = n := by simpa [hindices] using henters.groups
    have hlen : p.groupLen ≤ n + 1 := groupLen_le p fun i hi => by
      rw [hindices, List.mem_range'_1] at hi
      omega
    rcases henters.references r (List.mem_reverse.mp hr) with hr | ⟨f, hf, hg⟩
    · cases hr
    · have := parse_refersToGroups h f hf r.1 hg
      simp only [Bool.or_eq_true, decide_eq_true_iff, not_or]
      omega

/-- So is the text of any pattern that was read in the dialect with all
constructs. -/
theorem parse_print_eq {opts : Options} {text : String} {limit limit' : ℕ}
    (hX : opts.xmlSchema = false) (h : parse opts text limit = .ok p)
    (hmodifier : ∀ add remove body, .modifier add remove body ∈ p.subpatterns →
      (add ≠ .empty ∨ remove ≠ .empty) ∧ add.extended = false)
    (hlimit : (p.printChars opts).length ≤ limit') :
    parse opts (p.print opts) limit' = .ok p.reread :=
  parse_print_of_writable (isWritable_of_plain hX p) h hmodifier hlimit

end Regexp.Pattern
