import Regexp.Proofs.Cursor.Classes

/-!
# Reading groups by bytes

Groups nest by way of a circle of routines, each of which is given the walk for
the groups inside of it.  A routine may be entered only where it does not run
already, so each theorem is about a state in which that is so, and shows it of
the routines that are called.

`Cursor.Poised` is this condition on a state, together with the room for groups
that is left.  It is passed on by `Cursor.Poised.calls`: a routine that is
entered may enter another one that has a smaller number, or one that starts
further on.  Within the circle the numbers go down from a group to its contents,
to alternatives, to a sequence and to an atom; from an atom back to a group the
offset has moved, past the parenthesis at least.  The one place where it has not
is the condition of a conditional, for which the offset goes back to the
parenthesis of the condition; but that is further on than the parenthesis of the
conditional, where the routine was entered (`Cursor.condition_agrees`).

`Cursor.groupOf_agrees` is the step from one level to the next, and
`Cursor.groupWithin_agrees` the induction on levels.  The limit on nesting is
part of both, since a group that is opened too deep fails on both sides at the
same place.

## Main definitions

* `Cursor.Poised` — whether a routine may be entered in a state.
* `Cursor.ReadsGroups` — whether a walk reads the groups of texts up to a
  length.

## Main statements

* `Cursor.Poised.calls` — a routine calls those with smaller numbers, or others
  further on.
* `Cursor.branch_agrees`, `Cursor.branches_agrees`, `Cursor.alternation_agrees`
  — sequences and alternatives.
* `Cursor.condition_agrees` — the condition of a conditional.
* `Cursor.groupOf_agrees`, `Cursor.groupWithin_agrees` — one more level of
  groups, and all levels.
-/

namespace Regexp.Pattern

namespace Cursor

/-- Whether a routine may be entered in a state with a rest of the text before
it, with at most so many groups around each other in what follows, and with so
many around it. -/
structure Poised (src : Source) (levels depth : Nat) (r : Routine) (σ : State) (s : List Char) :
    Prop where
  suffix : s <:+ src.pattern
  short : s.length ≤ levels
  depth_eq : σ.depth = depth
  clear : Clear σ.calls r (place src.pattern s)

namespace Poised

variable {src : Source} {levels depth : Nat} {r r' : Routine} {σ : State} {s t : List Char}

/-- A routine that is entered may enter another one that has a smaller number or
that starts further on. -/
theorem calls (h : Poised src levels depth r σ s) (ht : t <:+ s)
    (hlt : t.length < s.length ∨ r'.rank < r.rank) :
    Poised src levels depth r' (σ.entered r (place src.pattern s)) t where
  suffix := ht.trans h.suffix
  short := Nat.le_trans ht.length_le h.short
  depth_eq := h.depth_eq
  clear := h.clear.entered (place_le ht h.suffix)
    (hlt.imp_left fun hlt => place_lt ht hlt h.suffix)

theorem under (h : Poised src levels depth r σ s) (f : Parser.Flags) :
    Poised src levels depth r (σ.under f) s := ⟨h.suffix, h.short, h.depth_eq, h.clear⟩

end Poised

/-- Whether a walk reads groups as a reader does, in texts of at most so many
characters. -/
def ReadsGroups (src : Source) (levels depth : Nat) (read : Parser.GroupReader)
    (w : Walk Pattern) : Prop :=
  ∀ (σ : State) (l : Parser.Ledger) [Within src.pattern l] (c : Char) (s : List Char),
    Poised src levels depth .group σ (c :: s) →
    Agrees src σ (c :: s) (·.value.1) (·.value.2) (·.rest) (read σ.opts l (c :: s))
      (w src (σ.facing src l (c :: s)))

variable {src : Source} {levels depth : Nat} {read : Parser.GroupReader} {w : Walk Pattern}
  {σ : State} {l : Parser.Ledger} [hl : Within src.pattern l] {s t : List Char}

section

variable (hw : ReadsGroups src levels depth read w)

include hw

/-! ### Sequences and alternatives -/

omit hl hw in
theorem continuesBranch_head? :
    Parser.continuesBranch s.head?.toList = Parser.continuesBranch s := by
  cases s <;> rfl

theorem atom_agrees (h : Poised src levels depth .atom σ s) :
    Agrees src σ s (·.value.1) (·.value.2) (·.rest) (Parser.atom read σ.opts l s)
      (atom w src (σ.facing src l s)) := by
  refine .enter h.clear ?_
  have hs := h.suffix
  rw [char_bind hs, Parser.atom.eq_def]
  cases s with
  | nil => exact .failHere hs
  | cons c s =>
    have hc : s <:+ c :: s := List.suffix_cons c s
    simp only [List.head?_cons]
    rw [options_bind, facing_opts, entered_opts]
    refine .test (fun hgroup => ?_) fun _ => ?_
    · exact hw _ l c s (h.calls (List.suffix_refl _) (.inr (by decide)))
    refine .test (fun hclass => ?_) fun _ => ?_
    · have hk : Poised src levels depth .bracketClass _ (c :: s) :=
        h.calls (List.suffix_refl _) (.inr (by decide))
      exact (bracketClass_agrees hs hk.clear).bind_map fun r hr => .found _ hr hl
    refine .test (fun hescape => ?_) fun _ => ?_
    · exact escape_agrees hs (List.cons_ne_nil c s)
    have hquantifier : Parser.startsQuantifier (c :: s) = Parser.startsQuantifier [c] := rfl
    rw [hquantifier]
    refine .test (fun hmissing => ?_) fun _ => ?_
    · exact .failHere hs
    refine .test (fun hschema => ?_) fun _ => ?_
    · exact .failHere hs
    rw [bump_bind hs]
    change Agrees _ _ _ _ _ _ _ (.ok (if c = '.' then if σ.opts.xmlSchema then _ else _ else
      if (c = '^' && !σ.opts.xmlSchema) = true then _ else
      if (c = '$' && !σ.opts.xmlSchema) = true then _ else _, _))
    split_ifs
    all_goals exact .found _ hc hl

/-- Constructs are read up to the end of a sequence. -/
theorem loop_branchRound (hs : s <:+ src.pattern)
    (hatom : ∀ t, t <:+ s → Poised src levels depth .atom σ t) (items : List Pattern) :
    Agrees src σ s (·.value.1) (·.value.2) (·.rest) (Parser.branchItems read σ.opts l s items)
      (loop (branchRound w) items src (σ.facing src l s)) := by
  induction hlen : s.length using Nat.strongRecOn generalizing s l items with
  | ind n ih =>
    have hskip : Parser.skip σ.opts.extended s <:+ s := skip_suffix _
    rw [loop_eq_bind, branchRound, bind_assoc, skipSpace_bind hs, bind_assoc,
      char_bind (hskip.trans hs), Parser.branchItems.eq_def]
    simp only [continuesBranch_head?]
    refine .test_bind (fun hmore => ?_) fun _ => ?_
    · rw [bind_assoc]
      refine (atom_agrees hw (hatom _ hskip)).bind_within fun ⟨⟨p, l⟩, t, hlt⟩ ht hl => ?_
      replace ht : t <:+ s := ht.trans hskip
      rw [bind_assoc]
      refine (quantified_agrees (ht.trans hs) p).bind fun ⟨p, t', hle⟩ ht' => ?_
      replace ht' : t' <:+ s := ht'.trans ht
      have hlt' : t'.length < s.length :=
        Nat.lt_of_le_of_lt hle (Nat.lt_of_lt_of_le hlt hskip.length_le)
      rw [pure_bind, facing_pos, proceed_inl hs ht' hlt']
      exact .bind_return (.mono (ih t'.length (hlen ▸ hlt') (ht'.trans hs)
        (fun u hu => hatom u (hu.trans ht')) _ rfl) ht')
    · exact .found _ hskip hl

theorem branch_agrees (h : Poised src levels depth .branch σ s) :
    Agrees src σ s (·.value.1) (·.value.2) (·.rest) (Parser.branch read σ.opts l s)
      (branch w src (σ.facing src l s)) :=
  .enter h.clear (loop_branchRound hw h.suffix (fun _ ht => h.calls ht (.inr (by decide))) [])

theorem loop_branchesRound (hs : s <:+ src.pattern)
    (hbranch : ∀ t, t <:+ s → Poised src levels depth .branch σ t) (ps : List Pattern) :
    Agrees src σ s (·.value.1) (·.value.2) (·.rest) (Parser.moreBranches read σ.opts l s ps)
      (loop (branchesRound w) ps src (σ.facing src l s)) := by
  induction hlen : s.length using Nat.strongRecOn generalizing s l ps with
  | ind n ih =>
    rw [loop_eq_bind, branchesRound, bind_assoc, char_bind hs, Parser.moreBranches.eq_def]
    split
    · rename_i s
      have hbar : s <:+ '|' :: s := List.suffix_cons _ _
      rw [if_pos List.head?_cons, bind_assoc, bump_bind hs, bind_assoc]
      refine (branch_agrees hw (hbranch _ hbar)).bind_within fun r ht hl => ?_
      obtain ⟨⟨p, l⟩, t, hle⟩ := r
      replace ht : t <:+ '|' :: s := ht.trans hbar
      have hlt : t.length < ('|' :: s).length := Nat.lt_succ_of_le hle
      rw [pure_bind, facing_pos, proceed_inl hs ht hlt]
      exact .bind_return (.mono (ih t.length (hlen ▸ hlt) (ht.trans hs)
        (fun u hu => hbranch u (hu.trans ht)) _ rfl) ht)
    · rename_i hne
      rw [if_neg (head?_ne hne)]
      exact .found _ (List.suffix_refl s) hl

theorem branches_agrees (h : Poised src levels depth .branches σ s) :
    Agrees src σ s (·.value.1) (·.value.2) (·.rest) (Parser.branches read σ.opts l s)
      (branches w src (σ.facing src l s)) := by
  have hbranch (t : List Char) (ht : t <:+ s) : Poised src levels depth .branch _ t :=
    h.calls ht (.inr (by decide))
  refine .enter h.clear ?_
  refine (branch_agrees hw (hbranch s (List.suffix_refl s))).bind_within
    fun ⟨⟨p, l⟩, t, hle⟩ ht hl => ?_
  exact .bind_return (.mono (loop_branchesRound hw (ht.trans h.suffix)
    (fun t' ht' => hbranch t' (ht'.trans ht)) [p]) ht)

theorem alternation_agrees (h : Poised src levels depth .alternation σ s) :
    Agrees src σ s (·.value.1) (·.value.2) (·.rest) (Parser.alternation read σ.opts l s)
      (alternation w src (σ.facing src l s)) := by
  have hbranches (t : List Char) (ht : t <:+ s) : Poised src levels depth .branches _ t :=
    h.calls ht (.inr (by decide))
  refine .enter h.clear ?_
  rw [Parser.alternation.eq_def]
  refine (leadingFlags_agrees (σ := σ.entered .alternation _) (l := l) h.suffix).bind
    fun f hf => ?_
  cases f with
  | none =>
    exact (branches_agrees hw (hbranches s (List.suffix_refl s))).bind_within
      fun r hr hl => .found _ hr hl
  | some f =>
    obtain ⟨f, t, hlt⟩ := f
    exact (Agrees.under (branches_agrees (l := l) hw ((hbranches t hf).under f))).bind_within
      fun r hr hl => .found _ (hr.trans hf) hl

/-! ### Groups -/

omit hw hl in
/-- Contents under a construct that has them as its body. -/
theorem wrapped_agrees {opts : Options} {σ₀ : State} {body : Walk Pattern}
    {wrap : Pattern → Pattern}
    (h : Agrees src σ s (·.value.1) (·.value.2) (·.rest) (Parser.alternation read opts l s)
      (body src σ₀)) :
    Agrees src σ s (·.value.1) (·.value.2) (·.rest) (Parser.wrapped read opts l s wrap)
      ((body >>= fun p => pure (wrap p)) src σ₀) :=
  h.bind_within fun _ hr hl => .found _ hr hl

theorem look_agrees (h : Poised src levels depth .look σ s) (kind : LookKind) :
    Agrees src σ s (·.value.1) (·.value.2) (·.rest)
      (Parser.wrapped read σ.opts l s (.look kind)) (look w kind src (σ.facing src l s)) :=
  .enter h.clear <| wrapped_agrees <| alternation_agrees hw <|
    h.calls (List.suffix_refl s) (.inr (by decide))

theorem modifierGroup_agrees {start : List Char} (hstart : start <:+ src.pattern)
    (h : Poised src levels depth .modifierGroup σ s) :
    Agrees src σ s (·.value.1) (·.value.2) (·.rest)
      (Parser.modifierGroup read σ.opts l start s)
      (modifierGroup w (place src.pattern start) src (σ.facing src l s)) := by
  refine .enter h.clear ?_
  rw [Parser.modifierGroup.eq_def]
  refine (flags_agrees h.suffix).bind fun ⟨f, t, hlt⟩ ht => ?_
  have hbody : Poised src levels depth .alternation _ t := (h.calls ht (.inl hlt)).under f
  simp only
  refine .test (fun hcolon => ?_) fun _ => ?_
  · exact .bind_return (.mono (wrapped_agrees (.under (alternation_agrees hw hbody))) ht)
  · exact .failAt hstart

/-! ### Conditionals -/

omit hw hl in
theorem orFailAt_bind {α β : Type} {n : Nat} {cause : ParseError.Cause} {r : Walk α} {a : α}
    {σ' : State} {k : α → Walk β} (hr : r src σ = .ok (a, σ')) :
    (orFailAt n cause r >>= k) src σ = k a src σ' :=
  bind_ok (by rw [orFailAt, hr])

omit hw in
/-- The number of a group is read up to the parenthesis behind it. -/
theorem groupCondition_agrees {c d : Char} (hs : c :: d :: s <:+ src.pattern)
    (hd : d.isDigit = true) :
    Agrees src σ (c :: d :: s) (·.value.1) (·.value.2) (·.rest)
      (Parser.condition read σ.opts l (c :: d :: s))
      (condition w (place src.pattern (c :: d :: s)) src (σ.facing src l (d :: s))) := by
  have hbody : d :: s <:+ c :: d :: s := List.suffix_cons c _
  have hhead : (d :: s).head? ≠ some '?' := by
    rintro ⟨⟩
    cases hd
  have hdecimal := decimal_apply (σ := σ) (l := l) (hbody.trans hs)
  rw [condition, char_bind (hbody.trans hs), List.head?_cons, Parser.condition.eq_def]
  simp only [if_pos hd]
  rw [if_neg hhead]
  by_cases hlarge : Parser.numberOf 10 ((d :: s).takeWhile Char.isDigit) > Parser.maxCount
  · rw [if_pos hlarge] at hdecimal
    rw [if_pos (by simp [hlarge])]
    rw [bind_error (h := .failure ⟨.conditionInvalid, place src.pattern (c :: d :: s)⟩)
      (by rw [orFailAt, hdecimal])]
    exact .error _ hs
  rw [if_neg hlarge] at hdecimal
  rw [orFailAt_bind hdecimal, numeral?_getD]
  by_cases hzero : Parser.numberOf 10 ((d :: s).takeWhile Char.isDigit) = 0
  · rw [if_pos hzero, if_pos (by simp [hzero])]
    exact .failAt hs
  rw [if_neg hzero, if_neg (by simp [hzero, hlarge])]
  have hrest : (d :: s).dropWhile Char.isDigit <:+ c :: d :: s :=
    (List.dropWhile_suffix _).trans hbody
  rw [char_bind (hrest.trans hs)]
  split
  · rename_i t heq
    rw [drop_length_takeWhile] at heq
    rw [heq] at hrest ⊢
    rw [if_pos List.head?_cons, bump_bind (hrest.trans hs), refer_bind]
    exact .found _ (tail_suffix hrest) (hl.refer hs)
  · rename_i hne
    have hclose : ((d :: s).dropWhile Char.isDigit).head? ≠ some ')' :=
      head?_ne fun t ht => hne t ((drop_length_takeWhile _ _).trans ht)
    rw [if_neg hclose]
    exact .failAt hs

/-- A group that is a condition starts at its parenthesis, which is further on
than the group of the whole conditional. -/
theorem condition_agrees {c : Char} (h : Poised src levels depth .group σ (c :: s)) :
    Agrees src σ (c :: s) (·.value.1) (·.value.2) (·.rest) (Parser.condition read σ.opts l (c :: s))
      (condition w (place src.pattern (c :: s)) src (σ.facing src l s)) := by
  have hs := h.suffix
  cases s with
  | nil =>
    rw [condition, char_bind (tail_suffix hs)]
    exact .failAt hs
  | cons d s =>
    by_cases hd : d.isDigit = true
    · exact groupCondition_agrees hs hd
    have hnone : (d :: s).takeWhile Char.isDigit = [] := List.takeWhile_cons_of_neg hd
    rw [condition, char_bind (tail_suffix hs), Parser.condition.eq_def]
    simp only [List.head?_cons, if_neg hd, Option.some.injEq]
    refine .test (fun hlook => ?_) fun _ => ?_
    · rw [moveTo_bind hs]
      refine (hw σ l c (d :: s) h).bind_within fun ⟨⟨p, l⟩, t, hlt⟩ ht hl => ?_
      cases p
      case look kind body => exact .found _ ht hl
      all_goals exact .failAt hs
    · rw [if_pos (by simp [hnone, Parser.numberOf])]
      exact .failAt hs

theorem conditional_agrees {start : List Char} {c : Char} (hstart : start <:+ src.pattern)
    (h : Poised src levels depth .conditional σ (c :: s)) :
    Agrees src σ (c :: s) (·.value.1) (·.value.2) (·.rest)
      (Parser.conditional read σ.opts l start (c :: s))
      (conditional w (place src.pattern start) src (σ.facing src l (c :: s))) := by
  refine .enter h.clear ?_
  have hgroup : Poised src levels depth .group _ (c :: s) :=
    h.calls (List.suffix_refl _) (.inr (by decide))
  rw [here_bind, facing_pos, bump_bind h.suffix, Parser.conditional.eq_def]
  refine (condition_agrees (σ := σ.entered .conditional _) hw hgroup).bind_within
    fun ⟨⟨c, l⟩, t, hlt⟩ ht hl => ?_
  have hbranches : Poised src levels depth .branches _ t := h.calls ht (.inl hlt)
  refine (branches_agrees hw hbranches).bind_within fun ⟨⟨ps, l⟩, t', hle⟩ ht' hl => ?_
  rcases ps with _ | ⟨yes, _ | ⟨no, _ | ⟨p, ps⟩⟩⟩
  · exact .failAt hstart
  · exact .found _ (ht'.trans ht) hl
  · exact .found _ (ht'.trans ht) hl
  · exact .failAt hstart

/-! ### Contents of groups -/

omit hw hl in
/-- A comment is passed over up to the parenthesis behind it. -/
theorem loop_commentEndRound (hs : s <:+ src.pattern) :
    loop commentEndRound () src (σ.facing src l s) =
      .ok ((), σ.facing src l (s.dropWhile (· ≠ ')'))) := by
  induction s with
  | nil =>
    refine loop_done ?_
    rw [commentEndRound, char_bind hs]
    rfl
  | cons c s ih =>
    by_cases hclose : c = ')'
    · rw [List.dropWhile_cons_of_neg (by simpa using hclose)]
      refine loop_done ?_
      rw [commentEndRound, char_bind hs]
      simp only [List.head?_cons, if_pos hclose]
      rfl
    · have hround : commentEndRound () src (σ.facing src l (c :: s)) =
          .ok (.inl (), σ.facing src l s) := by
        rw [commentEndRound, char_bind hs]
        simp only [List.head?_cons, if_neg hclose]
        exact bump_bind hs
      rw [loop_next hs (List.suffix_cons c s) (Nat.lt_succ_self _) hround, ih (tail_suffix hs),
        List.dropWhile_cons_of_pos (by simpa using hclose)]

theorem specialGroup_agrees {start : List Char} (hstart : start <:+ src.pattern)
    (h : Poised src levels depth .specialGroup σ s) :
    Agrees src σ s (·.value.1) (·.value.2) (·.rest)
      (Parser.specialGroup read σ.opts l start s)
      (specialGroup w (place src.pattern start) src (σ.facing src l s)) := by
  refine .enter h.clear ?_
  have hs := h.suffix
  rw [char_bind hs, Parser.specialGroup.eq_def]
  cases s with
  | nil => exact .failAt hstart
  | cons c s =>
    have hc : s <:+ c :: s := List.suffix_cons c s
    have hbody : Poised src levels depth .alternation _ s :=
      h.calls hc (.inl (Nat.lt_succ_self _))
    have hlook : Poised src levels depth .look _ s :=
      h.calls hc (.inl (Nat.lt_succ_self _))
    simp only [List.head?_cons]
    refine .test (fun hplain => ?_) fun _ => ?_
    · rw [bump_bind hs]
      exact .map (.mono (wrapped_agrees (alternation_agrees hw hbody)) hc)
    refine .test (fun hahead => ?_) fun _ => ?_
    · rw [bump_bind hs]
      exact .map (.mono (look_agrees hw hlook .ahead) hc)
    refine .test (fun hnotAhead => ?_) fun _ => ?_
    · rw [bump_bind hs]
      exact .map (.mono (look_agrees hw hlook .notAhead) hc)
    refine .test (fun hbehind => ?_) fun _ => ?_
    · rw [bump_bind hs, char_bind (hc.trans hs)]
      cases s with
      | nil => exact .failHere (hc.trans hs)
      | cons d t =>
        have ht : t <:+ c :: d :: t := tail_suffix hc
        have hlook : Poised src levels depth .look _ t :=
          h.calls ht (.inl (Nat.lt_succ_of_lt (Nat.lt_succ_self _)))
        have hhead (e : Char) : (d :: t).head? = some e ↔ d = e := by simp
        simp only
        by_cases hpositive : d = '='
        · rw [if_pos hpositive, if_pos ((hhead _).mpr hpositive), bump_bind (hc.trans hs)]
          exact .map (.mono (look_agrees hw hlook .behind) ht)
        rw [if_neg hpositive, if_neg (mt (hhead _).mp hpositive)]
        by_cases hnegative : d = '!'
        · rw [if_pos hnegative, if_pos ((hhead _).mpr hnegative), bump_bind (hc.trans hs)]
          exact .map (.mono (look_agrees hw hlook .notBehind) ht)
        · rw [if_neg hnegative, if_neg (mt (hhead _).mp hnegative)]
          exact .failHere (hc.trans hs)
    refine .test (fun hindependent => ?_) fun _ => ?_
    · rw [bump_bind hs]
      exact .map (.mono (wrapped_agrees (alternation_agrees hw hbody)) hc)
    refine .test (fun hcomment => ?_) fun _ => ?_
    · rw [bind_ok (loop_commentEndRound hs)]
      exact .found _ (List.dropWhile_suffix _) hl
    refine .test (fun hclass => ?_) fun _ => ?_
    · have hclear (t : List Char) (ht : t <:+ c :: s) :
          Poised src levels depth .bracketClass _ t := h.calls ht (.inr (by decide))
      exact (classOperation_agrees hs fun t ht => (hclear t ht).clear).bind_map
        fun r hr => .found _ hr hl
    refine .test (fun hconditional => ?_) fun _ => ?_
    · exact conditional_agrees hw hstart (h.calls (List.suffix_refl _) (.inr (by decide)))
    · exact modifierGroup_agrees hw hstart (h.calls (List.suffix_refl _) (.inr (by decide)))

theorem groupBody_agrees {start : List Char} (hstart : start <:+ src.pattern)
    (hs : s <:+ src.pattern) (h : ∀ r t, t <:+ s → Poised src levels depth r σ t) :
    Agrees src σ s (·.value.1) (·.value.2) (·.rest) (Parser.groupBody read σ.opts l start s)
      (groupBody w (place src.pattern start) src (σ.facing src l s)) := by
  rw [groupBody, char_bind hs, Parser.groupBody.eq_def]
  split
  · rename_i s
    have hs' : s <:+ '?' :: s := List.suffix_cons _ _
    rw [if_pos List.head?_cons, options_bind, facing_opts]
    refine .test (fun hxml => ?_) fun _ => ?_
    · exact .failHere hs
    · rw [bump_bind hs]
      exact .map (.mono (specialGroup_agrees hw hstart (h _ _ hs')) hs')
  · rename_i hne
    have : Within src.pattern { l with groups := l.groups + 1 } := ⟨hl.suffix⟩
    rw [if_neg (head?_ne hne), openGroup_bind]
    exact wrapped_agrees (alternation_agrees hw (h _ _ (List.suffix_refl s)))

end

/-- A group is read if the groups inside of it are, where there may be one more
around them. -/
theorem groupOf_agrees (hw : ReadsGroups src levels (depth + 1) read w)
    (hdepth : depth < src.nestLimit) :
    ReadsGroups src (levels + 1) depth (Parser.group read) (groupOf w) := by
  intro σ l hl c s h
  obtain ⟨hs, hshort, rfl, hclear⟩ := h
  refine .enter hclear ?_
  rw [here_bind, facing_pos, deepen_bind, source_bind, entered_depth,
    if_neg (Nat.not_lt_of_le hdepth), bump_bind hs, Parser.group.eq_def]
  have hc : s <:+ c :: s := List.suffix_cons c s
  -- Inside of the group every routine starts further on than the group did.
  have hinside (r : Routine) (t : List Char) (ht : t <:+ s) :
      Poised src levels (σ.depth + 1) r
        (σ.entered .group (place src.pattern (c :: s))).deeper t := by
    have hlt := place_lt (ht.trans hc) (Nat.lt_succ_of_le ht.length_le) hs
    exact
      { suffix := ht.trans (hc.trans hs)
        short := Nat.le_trans ht.length_le (Nat.le_of_succ_le_succ hshort)
        depth_eq := rfl
        clear := hclear.entered (Nat.le_of_lt hlt) (.inl hlt) }
  refine (groupBody_agrees hw hs (hc.trans hs) hinside).bind_within
    fun ⟨⟨p, l⟩, t, hle⟩ ht hl => ?_
  have ht' : t <:+ src.pattern := ht.trans (hc.trans hs)
  simp only
  rw [char_bind ht']
  split
  · rw [if_pos List.head?_cons, bump_bind ht']
    exact .found _ ((tail_suffix ht).trans hc) hl
  · rename_i hne
    have hhead : t.head? ≠ some ')' := head?_ne fun rest h => by
      subst h
      exact hne rest hle rfl HEq.rfl
    rw [if_neg hhead]
    exact .failAt hs

/-- **Groups are read** up to the limit on their nesting.  The number of levels
does not run out, since each level starts with a character of its own. -/
theorem groupWithin_agrees {budget : Nat} (hbudget : depth + budget = src.nestLimit) :
    ReadsGroups src levels depth (Parser.groupWithin src.nestLimit budget)
      (groupWithin levels) := by
  induction levels generalizing depth budget with
  | zero => exact fun _ _ _ _ _ h => absurd h.short (Nat.not_succ_le_zero _)
  | succ levels ih =>
    cases budget with
    | zero =>
      intro σ l hl c s h
      obtain ⟨hs, -, rfl, hclear⟩ := h
      refine .enter hclear ?_
      rw [here_bind, deepen_bind, source_bind, entered_depth, if_pos (by omega)]
      exact .failHere hs
    | succ budget =>
      exact groupOf_agrees (ih (by omega)) (by omega)

end Cursor

end Regexp.Pattern
