import Regexp.Pattern.Parser
import Regexp.Proofs.Language

/-!
# The dialect of XML Schema

A text that is read in the dialect of XML Schema denotes a regular pattern: the
dialect has no anchors, no references, no lazy repetitions and no groups that do
anything but capture.

The readers are gone through in the order in which they call each other, and
each is told what the reader for groups yields.  `Yields` is the form of these
statements.  It speaks of the value of a result if there is one, and it is
stable under the ways in which results are passed on, so that a reader that
calls another one needs the lemma about that one and nothing of its definition.

A dot is a class in this dialect, and a class is regular; escapes stand for
characters or classes only; a quantifier has bounds in order, because others are
refused (`Pattern.Parser.Bounds`).  What the dialect does not have is refused by
readers that ask for the options, and these are the places where the proof does.

## Main definitions

* `Yields` — what holds of a value that is read, if there is one.
* `Pattern.Parser.Bounds` — the bounds that a repetition can have.

## Main statements

* `Pattern.parse_isRegular` — the patterns of the dialect are regular.
-/

namespace Regexp

/-- Whether the value of a result satisfies a predicate, if there is one.
Readers are told about by what they yield; that they do not fail is another
matter. -/
def Yields {ε α : Type} (P : α → Prop) (x : Except ε α) : Prop := ∀ a, x = .ok a → P a

namespace Yields

variable {ε α β : Type} {P : β → Prop} {Q : α → Prop} {x : Except ε α}

theorem ok {b : β} (h : P b) : Yields P (.ok b : Except ε β) := by
  intro a ha
  cases ha
  exact h

theorem error {e : ε} : Yields P (.error e : Except ε β) := nofun

theorem bind {f : α → Except ε β} (hx : Yields Q x) (hf : ∀ a, Q a → Yields P (f a)) :
    Yields P (x >>= f) := by
  cases x with
  | error e => exact error
  | ok a => exact hf a (hx a rfl)

theorem map {f : α → β} (hx : Yields Q x) (hf : ∀ a, Q a → P (f a)) : Yields P (x.map f) := by
  cases x with
  | error e => exact error
  | ok a => exact ok (hf a (hx a rfl))

theorem trivial : Yields (fun _ => True) x := fun _ _ => True.intro

end Yields

namespace Pattern

variable {p : Pattern} {ps qs : List Pattern}

/-! ### Sequences and choices -/

theorem areRegular_iff : areRegular ps = true ↔ ∀ p ∈ ps, p.isRegular = true := by
  induction ps with
  | nil => simp [areRegular]
  | cons p ps ih => simp [areRegular, ih]

theorem areRegular_append :
    areRegular (ps ++ qs) = true ↔ areRegular ps = true ∧ areRegular qs = true := by
  simp only [areRegular_iff, List.forall_mem_append]

mutual

theorem parts_areRegular : (p : Pattern) → p.isRegular = true → areRegular p.parts = true
  | .empty => fun _ => rfl
  | .concat items => fun h => partsOfAll_areRegular items h
  | .char _ | .string _ | .dot | .charClass _ _ | .anchor _ | .union _ | .repetition _ _ _ _
  | .group _ _ | .backref _ | .look _ _ | .independent _ | .modifier _ _ _ | .ifGroup _ _ _
  | .ifLook _ _ _ => fun h => areRegular_iff.mpr (List.forall_mem_singleton.mpr h)
  termination_by structural p => p

theorem partsOfAll_areRegular : (ps : List Pattern) → areRegular ps = true →
    areRegular (partsOfAll ps) = true
  | [] => fun _ => rfl
  | p :: ps => fun h => by
    obtain ⟨hp, hps⟩ := Bool.and_eq_true_iff.mp h
    exact areRegular_append.mpr ⟨parts_areRegular p hp, partsOfAll_areRegular ps hps⟩
  termination_by structural ps => ps

end

theorem joinLiterals_areRegular (pending : List Char) (h : areRegular ps = true) :
    areRegular (joinLiterals pending ps) = true :=
  areRegular_iff.mpr <|
    forall_mem_joinLiterals (fun _ => rfl) (fun _ _ => rfl) pending (areRegular_iff.mp h)

theorem seq_isRegular (h : areRegular ps = true) : (seq ps).isRegular = true := by
  have h' := joinLiterals_areRegular [] (partsOfAll_areRegular ps h)
  rw [seq, ofParts.eq_def]
  split
  · rfl
  · rename_i heq
    rw [heq] at h'
    exact (Bool.and_eq_true_iff.mp h').1
  · exact h'

theorem alt_isRegular (h : areRegular ps = true) : (alt ps).isRegular = true := by
  rw [alt.eq_def]
  split
  · exact (Bool.and_eq_true_iff.mp h).1
  · exact h

namespace Parser

/-! ### Quantifiers -/

/-- Whether a repetition that is read can have these bounds: in order, and small
enough to be counted. -/
structure Bounds (min : ℕ) (max : Option ℕ) : Prop where
  ordered : ∀ m ∈ max, min ≤ m
  min_le : min ≤ maxCount
  max_le : ∀ m ∈ max, m ≤ maxCount

theorem count?_yields (s : List Char) :
    Yields (fun r => ∀ n ∈ r.value, n ≤ maxCount) (count? s) := by
  rw [count?.eq_def]
  simp only
  split
  · exact .error
  · refine .ok fun n hn => ?_
    split at hn
    · cases hn
    · cases hn
      omega

/-- Bounds that are read are in order, and no larger than counts can be. -/
theorem bounds_yields (start s : List Char) :
    Yields (fun r => Bounds r.value.1 r.value.2) (bounds start s) := by
  have horder : ∀ {min : ℕ} {max : Option ℕ}, ¬ max.any (min > ·) = true → ∀ m ∈ max, min ≤ m := by
    intro min max h m hm
    cases hm
    simpa using h
  refine (count?_yields s).bind fun ⟨min?, rest, hle⟩ hmin => ?_
  cases min? with
  | none => exact .error
  | some min =>
    replace hmin : min ≤ maxCount := hmin min rfl
    simp only
    split
    · refine (count?_yields _).bind fun ⟨max?, rest, hle⟩ hmax => ?_
      split
      · split
        · exact .error
        · exact .ok ⟨horder ‹_›, hmin, hmax⟩
      · exact .error
    · split
      · split
        · exact .error
        · refine .ok ⟨horder ‹_›, hmin, fun m hm => ?_⟩
          cases hm
          exact hmin
      · exact .error

theorem quantifier?_yields (s : List Char) :
    Yields (fun r => ∀ q ∈ r, Bounds q.value.1 q.value.2) (quantifier? s) := by
  have hsmall : ∀ {min : ℕ} {max : Option ℕ}, min ≤ 1 → (∀ m ∈ max, min ≤ m ∧ m ≤ 1) →
      Bounds min max := by
    intro min max hmin hmax
    have hone : 1 ≤ maxCount := by decide
    exact ⟨fun m hm => (hmax m hm).1, hmin.trans hone, fun m hm => (hmax m hm).2.trans hone⟩
  rw [quantifier?.eq_def]
  split
  · exact .ok (by simpa [Consumed.one] using @hsmall 0 none (by decide) (by simp))
  · exact .ok (by simpa [Consumed.one] using @hsmall 1 none (by decide) (by simp))
  · exact .ok (by simpa [Consumed.one] using @hsmall 0 (some 1) (by decide) (by simp))
  · exact (bounds_yields _ _).map fun r hr => by simpa [Consumed.behind, Consumed.after] using hr
  · exact .ok (by simp)

variable {opts : Options} (hX : opts.xmlSchema = true)

include hX

theorem quantified_yields {atom : Pattern} (hatom : atom.isRegular = true) (s : List Char) :
    Yields (fun r => r.value.isRegular = true) (quantified opts atom s) := by
  refine (quantifier?_yields _).bind fun q hq => ?_
  cases q with
  | none => exact .ok hatom
  | some q =>
    obtain ⟨⟨min, max⟩, rest, hlt⟩ := q
    have hbounds : Bounds min max := hq _ rfl
    have hordered : max.all (min ≤ ·) = true := by
      cases max with
      | none => rfl
      | some m => exact decide_eq_true (hbounds.ordered m rfl)
    simp only [hX, if_true]
    split
    · exact .error
    · split
      · exact .error
      · exact .ok (by simp [isRegular, hordered, hatom])

/-! ### Atoms -/

theorem escape_yields (ledger : Ledger) (s : List Char) :
    Yields (fun r => r.value.1.isRegular = true) (escape opts ledger s) := by
  rw [escape.eq_def]
  split
  · exact .error
  · exact .error
  · refine Yields.bind .trivial fun k _ => ?_
    cases k with
    | some k => exact .ok rfl
    | none =>
      simp only [hX, if_true]
      exact Yields.trivial.map fun r _ => rfl

/-- What a reader for groups has to yield.  The reader for groups within groups
has the assumption for a smaller limit on nesting. -/
def GroupYields (opts : Options) (group : GroupReader) : Prop :=
  ∀ ledger s, Yields (fun r => r.value.1.isRegular = true) (group opts ledger s)

variable {group : GroupReader} (hgroup : GroupYields opts group)

include hgroup

theorem atom_yields (ledger : Ledger) (s : List Char) :
    Yields (fun r => r.value.1.isRegular = true) (atom group opts ledger s) := by
  rw [atom.eq_def]
  split
  · exact .error
  · simp only [hX, if_true, Bool.not_true, Bool.and_false, Bool.false_eq_true, if_false,
      Bool.and_true]
    split
    · exact hgroup _ _
    split
    · exact Yields.trivial.map fun r _ => rfl
    split
    · exact escape_yields hX _ _
    split
    · exact .error
    split
    · exact .error
    split
    · exact .ok rfl
    · exact .ok rfl

/-! ### Sequences and alternatives -/

theorem branchItems_yields (ledger : Ledger) (s : List Char) (items : List Pattern)
    (hitems : areRegular items = true) :
    Yields (fun r => r.value.1.isRegular = true) (branchItems group opts ledger s items) := by
  fun_induction branchItems group opts ledger s items with
  | case1 ledger s items t ht hcontinues ih =>
    refine (atom_yields hX hgroup ledger t).bind fun ⟨⟨p, ledger⟩, rest, hlt⟩ hp => ?_
    refine (quantified_yields hX hp rest).bind fun ⟨p, rest', hle⟩ hp => ?_
    refine (ih ledger rest hlt p rest' hle (Bool.and_eq_true_iff.mpr ⟨hp, hitems⟩)).bind ?_
    exact fun r hr => .ok hr
  | case2 ledger s items t ht hcontinues =>
    refine .ok (seq_isRegular (areRegular_iff.mpr ?_))
    simpa only [List.mem_reverse] using areRegular_iff.mp hitems

theorem moreBranches_yields (ledger : Ledger) (s : List Char) (alternatives : List Pattern)
    (halternatives : areRegular alternatives = true) :
    Yields (fun r => areRegular r.value.1 = true)
      (moreBranches group opts ledger s alternatives) := by
  fun_induction moreBranches group opts ledger s alternatives with
  | case1 ledger alternatives rest ih =>
    refine (branchItems_yields hX hgroup ledger rest [] rfl).bind ?_
    intro ⟨⟨p, ledger⟩, rest', hle⟩ hp
    refine (ih p ledger rest' hle (Bool.and_eq_true_iff.mpr ⟨hp, halternatives⟩)).bind ?_
    exact fun r hr => .ok hr
  | case2 ledger s alternatives =>
    refine .ok (areRegular_iff.mpr ?_)
    simpa only [Scanned.none, List.mem_reverse] using areRegular_iff.mp halternatives

theorem branches_yields (ledger : Ledger) (s : List Char) :
    Yields (fun r => areRegular r.value.1 = true) (branches group opts ledger s) := by
  refine (branchItems_yields hX hgroup ledger s [] rfl).bind ?_
  intro ⟨⟨p, ledger⟩, rest, hle⟩ hp
  have hps : areRegular [p] = true := Bool.and_eq_true_iff.mpr ⟨hp, rfl⟩
  exact (moreBranches_yields hX hgroup ledger rest [p] hps).bind fun r hr => .ok hr

omit hgroup in
/-- No change of options stands before contents. -/
theorem leadingFlags_eq_none (s : List Char) : leadingFlags opts s = .ok none := by
  rw [leadingFlags.eq_def]
  split
  · simp [hX]
  · rfl

theorem alternation_yields (ledger : Ledger) (s : List Char) :
    Yields (fun r => r.value.1.isRegular = true) (alternation group opts ledger s) := by
  rw [alternation, leadingFlags_eq_none hX]
  exact (branches_yields hX hgroup ledger s).bind fun r hr => .ok (alt_isRegular hr)

omit hgroup in
/-- A group only captures. -/
theorem group_yields (hgroup : GroupYields opts group) : GroupYields opts (Parser.group group) := by
  intro ledger s
  rw [Parser.group.eq_def]
  split
  · exact .error
  · have hbody : ∀ start body,
        Yields (fun r => r.value.1.isRegular = true) (groupBody group opts ledger start body) := by
      intro start body
      rw [groupBody.eq_def]
      split
      · rw [if_pos hX]
        exact .error
      · exact (alternation_yields hX hgroup _ _).bind fun r hr =>
          .ok (Bool.and_eq_true_iff.mpr ⟨rfl, hr⟩)
    refine (hbody _ _).bind fun r hpiece => ?_
    obtain ⟨piece, rest, hle⟩ := r
    simp only
    split
    · exact .ok hpiece
    · exact .error

omit hgroup in
theorem groupWithin_yields (limit budget : ℕ) : GroupYields opts (groupWithin limit budget) := by
  induction budget with
  | zero => exact fun _ _ => .error
  | succ budget ih => exact group_yields hX ih

end Parser

/-- **The patterns of the dialect are regular.** -/
theorem parse_isRegular {opts : Options} (hX : opts.xmlSchema = true) {text : String} {limit : ℕ}
    (h : parse opts text limit = .ok p) : p.isRegular = true := by
  have hwhole : Yields (fun p => p.isRegular = true) (Parser.whole opts limit text.toList) := by
    refine (Parser.alternation_yields hX (Parser.groupWithin_yields hX limit limit) _ _).bind ?_
    intro r hr
    split
    · split
      · exact .error
      · exact .ok hr
    · exact .error
  rw [parse] at h
  split at h
  · rename_i hok
    cases h
    exact hwhole _ hok
  · cases h

end Pattern

end Regexp
