import Regexp.Proofs.Written

/-!
# What printed text is read as

A pattern of its shape is printed as a text that can be told apart from what
stands before it, and reading the text gives almost the same pattern.

The module prepares the round trip from both sides.  `Pattern.reread` says which
pattern is read: the class that is written for each class, and a group around
each construct that is repeated and is no atom.  A string is read as its
characters, which are joined to the string again; so what is read from the parts
of a sequence one by one (`Pattern.pieces`) has to be the same, once it is
joined, as what should be read from the sequence.  This is
`Pattern.joinLiterals_pieces`, and it needs that no two literals stood side by
side in the first place.

The other side is about the beginnings of texts.  At the start of a group a
change of options would be read as one, and a question mark would make another
kind of group; so one has to know what the text of a pattern does not begin
with.  `Parser.Begins` says this for each rank, and `Pattern.Written.begins`
that it is so.

## Main definitions

* `Pattern.reread` — the pattern that the text of a pattern is read as.
* `Pattern.pieces` — the constructs that the text of a part of a sequence is
  read as.
* `Parser.PlainChange` — changes of options that keep their text readable.
* `Parser.Leads` — texts that begin a construct, and no change of options.

## Main statements

* `Pattern.seq_pieces` — the constructs of a sequence in normal form are joined
  as they were.
* `Pattern.Written.begins` — what printed texts begin with.
-/

namespace Regexp.Pattern

mutual

/-- The pattern that the text of a pattern is read as: with the class that is
written for each class, and with a group around each construct that is repeated
and is no atom.  It is not the same tree, but it emits operations that are
alike. -/
def reread : Pattern → Pattern
  | .charClass set negated => .charClass (writtenClass set negated).1 (writtenClass set negated).2
  | .concat items => .concat (rereadAll items)
  | .union alternatives => .union (rereadAll alternatives)
  | .repetition body min max greedy =>
    .repetition (if body.isAtom then reread body else .group none (reread body)) min max greedy
  | .group index body => .group index (reread body)
  | .look kind body => .look kind (reread body)
  | .independent body => .independent (reread body)
  | .modifier add remove body => .modifier add remove (reread body)
  | .ifGroup n yes none => .ifGroup n (reread yes) none
  | .ifGroup n yes (some no) => .ifGroup n (reread yes) (some (reread no))
  | .ifLook test yes none => .ifLook (reread test) (reread yes) none
  | .ifLook test yes (some no) => .ifLook (reread test) (reread yes) (some (reread no))
  | p => p
  termination_by structural p => p

/-- The patterns that the texts of several patterns are read as. -/
def rereadAll : List Pattern → List Pattern
  | [] => []
  | p :: ps => reread p :: rereadAll ps
  termination_by structural ps => ps

end

/-- The constructs that the text of a part of a sequence is read as: the
characters of a string one by one.  They are joined again when the sequence is
brought into normal form. -/
def pieces : Pattern → List Pattern
  | .string cs => cs.map .char
  | p => [p.reread]

variable {allowed : Options → Options → Prop} {p : Pattern} {ps items : List Pattern}

/-! ### Sequences -/

/-- The characters of a literal are joined behind those that are pending. -/
theorem joinLiterals_chars (cs pending : List Char) :
    joinLiterals pending (cs.map .char ++ items) = joinLiterals (cs.reverse ++ pending) items := by
  induction cs generalizing pending with
  | nil => rfl
  | cons c cs ih =>
    rw [List.map_cons, List.cons_append, joinLiterals, ih, List.reverse_cons, List.append_assoc]
    rfl

/-- Pending characters are joined in front of what is no literal. -/
theorem joinLiterals_cons (pending : List Char) (hp : p.isLiteral = false) :
    joinLiterals pending (p :: ps) = consLiteral pending (p :: joinLiterals [] ps) := by
  cases p with
  | char | string => cases hp
  | _ => rfl

theorem joinLiterals_of_head (pending : List Char) (h : ∀ p ∈ ps.head?, p.isLiteral = false) :
    joinLiterals pending ps = consLiteral pending (joinLiterals [] ps) := by
  cases ps with
  | nil => rfl
  | cons p ps =>
    rw [joinLiterals_cons pending (h p rfl), joinLiterals_cons [] (h p rfl)]
    rfl

theorem isLiteral_reread (p : Pattern) : p.reread.isLiteral = p.isLiteral := by
  cases p with
  | ifGroup _ _ no | ifLook _ _ no => cases no <;> rfl
  | _ => rfl

/-- Two or more pending characters are a string. -/
theorem consLiteral_string {cs : List Char} (hlen : 2 ≤ cs.length) (items : List Pattern) :
    consLiteral cs.reverse items = .string cs :: items := by
  rw [consLiteral.eq_def]
  split
  · simp_all
  · rename_i hone
    have := congrArg List.length hone
    simp at this
    omega
  · rw [List.reverse_reverse]

/-- A literal is read as its characters, which are joined to the literal again. -/
theorem pieces_of_literal (h : Written allowed .item p) (hp : p.isLiteral = true) :
    p.reread = p ∧ ∃ cs : List Char, p.pieces = cs.map .char ∧
      ∀ items, consLiteral cs.reverse items = p :: items := by
  cases h with
  | string hlen =>
    rename_i cs
    exact ⟨rfl, cs, rfl, consLiteral_string hlen⟩
  | repetition => cases hp
  | ofAtom h =>
    cases h with
    | char c => exact ⟨rfl, [c], rfl, fun _ => rfl⟩
    | _ => cases hp

/-- Anything else is read as one construct. -/
theorem pieces_of_not_literal (hp : p.isLiteral = false) : p.pieces = [p.reread] := by
  cases p with
  | string => cases hp
  | _ => rfl

theorem partsOfAll_chars (cs : List Char) : partsOfAll (cs.map .char) = cs.map .char := by
  induction cs with
  | nil => rfl
  | cons c cs ih => exact congrArg (Pattern.char c :: ·) ih

/-- The constructs of an item are neither empty nor sequences. -/
theorem partsOfAll_pieces (h : Written allowed .item p) : partsOfAll p.pieces = p.pieces := by
  cases h with
  | string => exact partsOfAll_chars _
  | repetition => rfl
  | ofAtom h =>
    cases h with
    | ifGroup | ifLook => cases ‹Option Pattern› <;> rfl
    | _ => rfl

theorem partsOfAll_append : partsOfAll (ps ++ items) = partsOfAll ps ++ partsOfAll items := by
  induction ps with
  | nil => rfl
  | cons p ps ih => rw [List.cons_append, partsOfAll, ih, partsOfAll, List.append_assoc]

theorem partsOfAll_flatMap_pieces (h : ∀ p ∈ ps, Written allowed .item p) :
    partsOfAll (ps.flatMap pieces) = ps.flatMap pieces := by
  induction ps with
  | nil => rfl
  | cons p ps ih =>
    obtain ⟨hp, hps⟩ := List.forall_mem_cons.mp h
    rw [List.flatMap_cons, partsOfAll_append, partsOfAll_pieces hp, ih hps]

/-- **The constructs of a sequence in normal form are joined as they were.** -/
theorem joinLiterals_pieces (h : Joined allowed ps) :
    joinLiterals [] (ps.flatMap pieces) = rereadAll ps := by
  induction ps with
  | nil => rfl
  | cons p ps ih =>
    obtain ⟨hitems, hchain⟩ := h
    obtain ⟨hp, hitems⟩ := List.forall_mem_cons.mp hitems
    obtain ⟨hhead, hchain⟩ := List.isChain_cons.mp hchain
    replace ih := ih ⟨hitems, hchain⟩
    rw [List.flatMap_cons]
    cases hliteral : p.isLiteral with
    | true =>
      obtain ⟨hreread, cs, hcs, hcons⟩ := pieces_of_literal hp hliteral
      have hnext : ∀ q ∈ (ps.flatMap pieces).head?, q.isLiteral = false := by
        cases ps with
        | nil => nofun
        | cons q ps =>
          have hq : q.isLiteral = false := by simpa [hliteral] using hhead q rfl
          rw [List.flatMap_cons, pieces_of_not_literal hq]
          simpa [isLiteral_reread] using hq
      rw [hcs, joinLiterals_chars, List.append_nil, joinLiterals_of_head _ hnext, ih, hcons,
        rereadAll, hreread]
    | false =>
      have hreread : p.reread.isLiteral = false := by rw [isLiteral_reread, hliteral]
      rw [pieces_of_not_literal hliteral, List.singleton_append, joinLiterals_cons _ hreread, ih]
      rfl

/-- **The constructs of a sequence are read as the sequence** of what its parts
are read as. -/
theorem seq_pieces (hlen : 2 ≤ ps.length) (h : Joined allowed ps) :
    seq (ps.flatMap pieces) = .concat (rereadAll ps) := by
  rw [seq, partsOfAll_flatMap_pieces h.1, joinLiterals_pieces h]
  obtain _ | ⟨p, _ | ⟨q, ps⟩⟩ := ps
  · cases hlen
  · simp at hlen
  · rfl

/-- The constructs of one item are read as it. -/
theorem seq_pieces_of_item (h : Written allowed .item p) : seq p.pieces = p.reread := by
  have hjoined : Joined allowed [p] := ⟨List.forall_mem_singleton.mpr h, .singleton p⟩
  have hjoin := joinLiterals_pieces hjoined
  rw [List.flatMap_cons, List.flatMap_nil, List.append_nil] at hjoin
  rw [seq, partsOfAll_pieces h, hjoin]
  rfl

/-! ### What texts begin with -/

/-- Only alternatives are put into a group where they would be taken for
something else. -/
theorem guardUnion_of_branch (h : Written allowed .branch p) (s : List Char) :
    guardUnion p s = s := by
  cases h with
  | ofItem h =>
    cases h with
    | ofAtom h => cases h <;> rfl
    | _ => rfl
  | _ => rfl

namespace Parser

/-- Whether a change of options has a text, which does not make blanks disappear
from the text behind it. -/
structure PlainChange (add remove : Options) : Prop where
  add_local : IsLocal add
  remove_local : IsLocal remove
  named : add ≠ .empty ∨ remove ≠ .empty
  not_extended : add.extended = false

variable {c d : Char} {s t : List Char} {o opts : Options} {add remove : Options}

/-- Whether a text begins with a mark that can begin a construct, and with no
change of options.  A text of options alone in front of a sequence would be read
as a modifier around all that follows. -/
def Leads (opts : Options) (s : List Char) : Prop :=
  ∃ c t, s = c :: t ∧ Opens opts c ∧ ∀ o rest, leadingFlags o (s ++ rest) = .ok none

theorem Leads.append (h : Leads opts s) (t : List Char) : Leads opts (s ++ t) := by
  obtain ⟨c, u, rfl, hc, hflags⟩ := h
  exact ⟨c, u ++ t, rfl, hc, fun o rest => by rw [List.append_assoc]; exact hflags o _⟩

/-- Only at a parenthesis options can be changed. -/
theorem leadingFlags_of_head (o : Options) (h : ∀ c ∈ s.head?, c ≠ '(') :
    leadingFlags o s = .ok none := by
  rw [leadingFlags]
  rintro c rest rfl
  exact h '(' rfl rfl

theorem Leads.of_opens (hc : Opens opts c) (hparen : c ≠ '(') (s : List Char) :
    Leads opts (c :: s) :=
  ⟨c, s, rfl, hc, fun o _ => leadingFlags_of_head o (by simpa using hparen)⟩

/-- A group that captures changes no options. -/
theorem Leads.of_group (hs : ∀ d ∈ s.head?, d ≠ '?') (hne : s ≠ []) : Leads opts ('(' :: s) := by
  refine ⟨'(', s, rfl, opens_of_mem (by decide), fun o rest => ?_⟩
  cases s with
  | nil => exact absurd rfl hne
  | cons d s =>
    rw [List.cons_append, List.cons_append, leadingFlags]
    exact fun _ _ hs' => hs d rfl (List.cons.inj (List.cons.inj hs').2).1

/-- A group with another mark changes no options. -/
theorem Leads.of_mark (hc : c ≠ '-' ∧ c ∉ groupFlags) (s : List Char) :
    Leads opts ('(' :: '?' :: c :: s) := by
  refine ⟨'(', _, rfl, opens_of_mem (by decide), fun o rest => ?_⟩
  rw [List.cons_append, List.cons_append, List.cons_append, leadingFlags, if_neg (by simp [hc])]

/-- Options with a colon behind them are not changed for the text behind the
group. -/
theorem Leads.of_flags (hadd : IsLocal add) (hremove : IsLocal remove)
    (hne : add ≠ .empty ∨ remove ≠ .empty) (s : List Char) :
    Leads opts ('(' :: '?' :: (printFlags add remove ++ ':' :: s)) := by
  refine ⟨'(', _, rfl, opens_of_mem (by decide), fun o rest => ?_⟩
  obtain ⟨c, t, hflags, hc⟩ := printFlags_head hadd hne
  have hread := flags_printFlags hadd hremove (s ++ rest)
  have htext : '(' :: '?' :: (c :: t ++ ':' :: s) ++ rest =
      '(' :: '?' :: c :: (t ++ ':' :: (s ++ rest)) := by simp
  rw [hflags, List.cons_append] at hread
  obtain ⟨_, hread⟩ := hread
  rw [hflags, htext, leadingFlags, hread]
  split <;> rfl

theorem Leads.of_printChar (opts : Options) (c : Char) : Leads opts (printChar opts c) := by
  obtain ⟨d, t, htext, hd⟩ := printChar_head opts c
  rcases printChar_cases opts c with ⟨hself, hspecial, -⟩ | ⟨d', e, hescape, -⟩
  · obtain ⟨rfl, rfl⟩ := List.cons.inj (hself.symm.trans htext)
    rw [hself]
    exact .of_opens hd (fun hparen => hspecial (by simp [hparen, specialChars])) []
  · rw [hescape]
    exact .of_opens (opens_of_mem (by decide)) (by decide) _

theorem Leads.of_printAnchor (a : Anchor) : Leads opts (printAnchor a) := by
  cases a <;> exact .of_opens (opens_of_mem (by decide)) (by decide) _

theorem Leads.of_inGroup (s : List Char) : Leads opts (inGroup s) :=
  .of_mark (c := ':') (by decide) (s ++ [')'])

/-- Whether a text begins as the text of a pattern of a rank does: the text of a
sequence may be empty, and alternatives may begin with an empty one. -/
def Begins (opts : Options) (s : List Char) : Rank → Prop
  | .atom | .item => Leads opts s
  | .branch => s = [] ∨ Leads opts s
  | .contents => (∀ c ∈ s.head?, c = '|') ∨ Leads opts s

/-- No change of options stands before contents. -/
theorem Begins.leadingFlags_eq (h : Begins opts s .contents) (o : Options)
    (hrest : ∀ c ∈ t.head?, c = ')') : leadingFlags o (s ++ t) = .ok none := by
  rcases h with hbar | ⟨_, _, -, -, hflags⟩
  · refine leadingFlags_of_head o fun c hc => ?_
    cases s with
    | nil =>
      rw [hrest c hc]
      decide
    | cons d s =>
      rw [hbar c hc]
      decide
  · exact hflags o t

/-- Contents in a group do not begin with the mark that groups of other kinds
begin with. -/
theorem Begins.ne_mark (h : Begins opts s .contents) (ht : ∀ c ∈ t.head?, c = ')') :
    ∀ c ∈ (s ++ t).head?, c ≠ '?' := by
  intro c hc
  rcases h with hbar | ⟨d, u, rfl, hd, -⟩
  · cases s with
    | nil =>
      rw [ht c hc]
      decide
    | cons d s =>
      rw [hbar c hc]
      decide
  · cases hc
    intro hmark
    exact hd.1 (by simp [hmark])

/-- **What printed texts begin with.** -/
theorem begins_of_written (opts : Options) {rank : Rank} (h : Written PlainChange rank p) :
    Begins opts (printChars opts p) rank := by
  induction h with
  | char c => exact .of_printChar opts c
  | dot => exact .of_opens (opens_of_mem (by decide)) (by decide) _
  | charClass => exact .of_opens (c := '[') (opens_of_mem (by decide)) (by decide) _
  | anchor a => exact .of_printAnchor a
  | backref => exact .of_opens (opens_of_mem (by decide)) (by decide) _
  | @group index body _ ih =>
    cases index with
    | none => exact .of_inGroup _
    | some i =>
      exact .of_group (ih.ne_mark (t := [')']) (by simp)) (by simp)
  | look kind => cases kind <;> exact .of_mark (by decide) _
  | independent => exact .of_mark (by decide) _
  | modifier hchange =>
    show Leads opts _
    have hlead (s : List Char) : Leads opts _ :=
      .of_flags hchange.add_local hchange.remove_local hchange.named s
    simpa [printChars] using hlead _
  | @ifGroup n yes no => cases no <;> exact .of_mark (c := '(') (by decide) _
  | @ifLook kind test yes no => cases no <;> exact .of_mark (c := '(') (by decide) _
  | ofAtom _ ih => exact ih
  | @string cs hlen =>
    match cs, hlen with
    | c :: cs, _ => exact (Leads.of_printChar opts c).append _
  | @repetition body min max greedy _ _ ih =>
    show Leads opts ((if body.isAtom then printChars opts body
      else inGroup (printChars opts body)) ++ printQuantifier min max greedy)
    refine Leads.append ?_ _
    cases hatom : body.isAtom with
    | true =>
      rw [hatom] at ih
      exact ih
    | false => exact .of_inGroup _
  | empty => exact .inl rfl
  | ofItem _ ih => exact .inr ih
  | @concat items hlen _ h ih =>
    match items, hlen with
    | p :: ps, _ =>
      have hguard := guardUnion_of_branch (.ofItem (h p List.mem_cons_self)) (printChars opts p)
      refine .inr ?_
      show Leads opts (guardUnion p (printChars opts p) ++ printItems opts ps)
      rw [hguard]
      exact Leads.append (ih p List.mem_cons_self) _
  | ofBranch _ ih =>
    rcases ih with hnil | hlead
    · exact .inl (by simp [hnil])
    · exact .inr hlead
  | @union ps hlen h ih =>
    match ps, hlen with
    | p :: q :: ps, _ =>
      show Begins opts (printChars opts p ++ ['|'] ++ printAlternatives opts (q :: ps)) .contents
      rw [List.append_assoc]
      rcases ih p List.mem_cons_self with hnil | hlead
      · exact .inl (by simp [hnil])
      · exact .inr (hlead.append _)

end Parser

end Regexp.Pattern
