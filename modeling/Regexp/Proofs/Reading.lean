import Regexp.Program.Compile
import Regexp.Proofs.CaseFold
import Regexp.Proofs.Derivation
import Regexp.Machine

/-!
# Reading

An atom of a program reads, in the direction of the walk, just what the pattern
derives that it was made for.  These are the leaves of every comparison between
a run and a derivation: on the one side there are loops over a text with a bound
that they must not cross, and on the other side there are characters that stand
between two offsets.

`Attempt.OnText` is the condition under which the two are the same: the text was
made from characters, and the span cuts none of them.  Each atom has a lemma
that says to which offsets it reads, as a walk over what the pattern derives
(`Walk`), so that the direction is dealt with here and not in the proofs that
use it.

A copy of what a group has captured is no leaf of a derivation, which knows
nothing of captures.  All that is said of it here is that it reads some text
(`Attempt.hasText_of_read_backref`).

## Main definitions

* `Attempt.OnText` — attempts on genuine texts and on spans that cut no
  character.

## Main statements

* `Target.matchAfter_iff`, `Target.matchBefore_iff` — literals in a text.
* `Attempt.read_char_iff`, `Attempt.read_string_iff`, `Attempt.read_dot_iff`,
  `Attempt.read_range_iff`, `Attempt.read_anchor_iff` — the atoms.
* `Attempt.hasText_of_read_backref` — a copy of what a group captured is some
  text.
-/

namespace Regexp

/-! ### Texts -/

namespace Target

variable {t : Target} {s : Span} {fold : Bool} {i j : ℕ} {c : Char} {cs : List Char}
  (ht : t.IsGenuine)

include ht

/-- Reading forward in a span. -/
theorem charAfter_hasChar (hstop : t.isBoundary s.stop = true) (hi : s.start ≤ i) :
    t.charAfter i s.stop = some (c, j) ↔ t.HasChar s i c j := by
  rw [charAfter_iff ht hstop]
  constructor
  · rintro ⟨k, hk, rfl, rfl, hle⟩
    exact ⟨k, hk, rfl, rfl, hi, hle⟩
  · rintro ⟨k, hk, rfl, rfl, -, hle⟩
    exact ⟨k, hk, rfl, rfl, hle⟩

/-- Reading backward in a span. -/
theorem charBefore_hasChar (hstart : t.isBoundary s.start = true) (hj : j ≤ s.stop) :
    t.charBefore j s.start = some (c, i) ↔ t.HasChar s i c j := by
  rw [charBefore_iff ht hstart]
  constructor
  · rintro ⟨k, hk, rfl, rfl, hle⟩
    exact ⟨k, hk, rfl, rfl, hle, hj⟩
  · rintro ⟨k, hk, rfl, rfl, hle, -⟩
    exact ⟨k, hk, rfl, rfl, hle⟩

theorem matchAfter_iff (hstop : t.isBoundary s.stop = true) (hi : s.start ≤ i) :
    t.matchAfter fold s.stop i cs = some j ↔ t.Spells s fold i cs j := by
  induction cs generalizing i with
  | nil => simp [matchAfter, Spells]
  | cons c cs ih =>
    rw [matchAfter, Spells]
    constructor
    · intro h
      split at h
      · rename_i d k hd
        rw [charAfter_hasChar ht hstop hi] at hd
        have hbounds := hd.bounds
        split at h
        · exact ⟨d, k, hd, by assumption, (ih (by omega)).mp h⟩
        · cases h
      · cases h
    · rintro ⟨d, k, hd, hmatch, h⟩
      have hbounds := hd.bounds
      rw [(charAfter_hasChar ht hstop hi).mpr hd]
      simp only [hmatch, if_true]
      exact (ih (by omega)).mpr h

theorem matchBefore_iff (hstart : t.isBoundary s.start = true) (hi : i ≤ s.stop) :
    t.matchBefore fold s.start i cs = some j ↔ t.Spells s fold j cs.reverse i := by
  induction cs generalizing i with
  | nil => simp [matchBefore, Spells, eq_comm]
  | cons c cs ih =>
    rw [matchBefore, List.reverse_cons, spells_append]
    simp only [spells_singleton]
    constructor
    · intro h
      split at h
      · rename_i d k hd
        rw [charBefore_hasChar ht hstart hi] at hd
        have hbounds := hd.bounds
        split at h
        · exact ⟨k, (ih (by omega)).mp h, d, hd, by assumption⟩
        · cases h
      · cases h
    · rintro ⟨k, h, d, hd, hmatch⟩
      have hbounds := hd.bounds
      rw [(charBefore_hasChar ht hstart hi).mpr hd]
      simp only [hmatch, if_true]
      exact (ih (by omega)).mpr h

/-- Characters that stand in a span of a text have room there. -/
theorem hasRoom_of_spells (hstop : t.isBoundary s.stop = true) (hi : i ≤ s.stop)
    (h : t.Spells s fold i cs j) : t.hasRoom i s.stop cs = true := by
  have hle := h.length_le
  have hj : j ≤ s.stop := by
    cases cs with
    | nil => exact h ▸ hi
    | cons c cs =>
      obtain ⟨d, k, hd, -, h⟩ := h
      have hbounds := hd.bounds
      exact (h.bounds (by omega) hbounds.2.2).2
  cases t with
  | utf8 | cursor => rfl
  | buffer chars =>
    simp only [isBoundary, decide_eq_true_iff] at hstop
    simp only [hasRoom, Bool.and_eq_true, decide_eq_true_iff]
    omega

/-- A look at the room does not change what a literal is compared to. -/
theorem regionMatches_eq {limit : ℕ} (hlimit : t.isBoundary limit = true) (hi : i ≤ limit) :
    t.regionMatches fold i limit cs = t.matchAfter fold limit i cs := by
  rw [regionMatches]
  split
  · rfl
  · rename_i hroom
    symm
    rw [Option.eq_none_iff_forall_ne_some]
    intro j hj
    have hspells : t.Spells ⟨i, limit⟩ fold i cs j :=
      (matchAfter_iff (s := ⟨i, limit⟩) ht hlimit le_rfl).mp hj
    exact hroom (hasRoom_of_spells (s := ⟨i, limit⟩) ht hlimit hi hspells)

end Target

namespace Attempt

/-- Whether an attempt is made on a text that was made from characters, and on a
span that cuts none of them.  The attempts of a search on a valid span are like
this, `Search.onText_of_valid`. -/
structure OnText (a : Attempt) : Prop where
  genuine : a.target.IsGenuine
  start_boundary : a.target.isBoundary a.span.start = true
  stop_boundary : a.target.isBoundary a.span.stop = true

variable {a : Attempt} {reverse : Bool} {fold : Bool} {i j : ℕ} {c : Char} {cs : List Char}
  {opts : Options} {sl : Option Slots}

section

variable (ht : a.OnText) (hi : a.InSpan i)

/-! ### Atoms -/

include ht hi

theorem charAfter_hasChar :
    a.target.charAfter i a.span.stop = some (c, j) ↔ a.target.HasChar a.span i c j :=
  Target.charAfter_hasChar ht.genuine ht.stop_boundary hi.1

theorem charBefore_hasChar :
    a.target.charBefore i a.span.start = some (c, j) ↔ a.target.HasChar a.span j c i :=
  Target.charBefore_hasChar ht.genuine ht.start_boundary hi.2

/-- The next character in the direction of the walk. -/
theorem nextChar_iff : a.nextChar reverse i = some (c, j) ↔
    Walk reverse (fun i j => a.target.HasChar a.span i c j) i j := by
  cases reverse with
  | false => exact charAfter_hasChar ht hi
  | true => exact charBefore_hasChar ht hi

theorem readChar_iff {test : Char → Bool} : a.readChar reverse i test = some j ↔
    Walk reverse (fun i j => ∃ c, a.target.HasChar a.span i c j ∧ test c = true) i j := by
  rw [readChar_eq_some_iff]
  simp only [nextChar_iff ht hi]
  cases reverse <;> rfl

/-- A literal in the direction of the walk. -/
theorem read_string_iff : a.read (.string cs) opts reverse i sl = .ok (some j) ↔
    Walk reverse (fun i j => a.target.Spells a.span opts.caseInsensitive i cs j) i j := by
  rw [read]
  cases reverse with
  | false =>
    simp only [Bool.false_eq_true, if_false, Except.ok.injEq, walk_false]
    rw [Target.regionMatches_eq ht.genuine ht.stop_boundary hi.2,
      Target.matchAfter_iff ht.genuine ht.stop_boundary hi.1]
  | true =>
    simp only [if_true, Except.ok.injEq, walk_true]
    rw [Target.regionMatchesBack, Target.matchBefore_iff ht.genuine ht.start_boundary hi.2,
      List.reverse_reverse]

theorem read_char_iff : a.read (.char c) opts reverse i sl = .ok (some j) ↔
    Walk reverse (fun i j => a.target.Spells a.span opts.caseInsensitive i [c] j) i j := by
  simp only [read, Except.ok.injEq, readChar_iff ht hi, Target.spells_singleton]

theorem read_dot_iff : a.read .dot opts reverse i sl = .ok (some j) ↔
    Walk reverse (fun i j => ∃ c, a.target.HasChar a.span i c j ∧
      (opts.singleLine = true ∨ Scalar.isLineTerminator c = false)) i j := by
  simp only [read, Except.ok.injEq, readChar_iff ht hi, Bool.or_eq_true, Bool.not_eq_true']

omit ht hi in
/-- The set of a class operation has the characters that match a member. -/
theorem contains_classSet (set : CharSet) (fold : Bool) (c : Char) :
    (if fold then (Pattern.foldedSet set).getD set else set).contains c = true ↔
      ∃ d, set.contains d = true ∧ Case.charsMatch fold c d = true := by
  cases fold with
  | false => simp
  | true =>
    have hset : (Pattern.foldedSet set).getD set = set.caseFold := by
      rw [Pattern.foldedSet]
      split
      · rename_i h
        rw [h]
        rfl
      · rfl
    simp only [if_true, hset, CharSet.contains_caseFold, Case.charsMatch_true]

theorem read_range_iff {set : CharSet} {negated : Bool} :
    a.read (.range set (Pattern.foldedSet set) negated) opts reverse i sl = .ok (some j) ↔
      Walk reverse (fun i j => ∃ c, a.target.HasChar a.span i c j ∧
        ((∃ d, set.contains d = true ∧ Case.charsMatch opts.caseInsensitive c d = true) ↔
          negated = false)) i j := by
  simp only [read, Except.ok.injEq, readChar_iff ht hi, ← contains_classSet]
  cases negated <;> simp

omit ht hi in
theorem read_anchor_iff {anchor : Anchor} :
    a.read (.anchor anchor) opts reverse i sl = .ok (some j) ↔
      Walk reverse (fun i j => i = j ∧ anchor.holds a.target a.span i opts = true) i j := by
  simp only [read, Except.ok.injEq, Option.ite_none_right_eq_some, Option.some.injEq]
  cases reverse <;> grind [walk_false, walk_true]

/-- A copy of what a group captured is some text. -/
theorem hasText_of_repeatsFrom {limit pos : ℕ}
    (h : a.target.repeatsFrom fold a.span.stop limit i pos = some j) :
    Pattern.HasText a.target a.span 0 i j := by
  fun_induction Target.repeatsFrom a.target fold a.span.stop limit i pos with
  | case1 i pos hlt expected pos' hp c next hc hm ih =>
    rw [charAfter_hasChar ht hi] at hc
    have hbounds := hc.bounds
    exact ((Pattern.HasText.of_char hc).trans (ih ⟨by omega, hbounds.2.2⟩ h)).mono (Nat.zero_le _)
  | case2 | case3 | case4 => cases h
  | case5 => exact Option.some.inj h ▸ .refl

theorem hasText_of_repeatsUpTo {first pos : ℕ}
    (h : a.target.repeatsUpTo fold a.span.start first i pos = some j) :
    Pattern.HasText a.target a.span 0 j i := by
  fun_induction Target.repeatsUpTo a.target fold a.span.start first i pos with
  | case1 i pos hlt expected pos' hp c prev hc hm ih =>
    rw [charBefore_hasChar ht hi] at hc
    have hbounds := hc.bounds
    exact ((ih ⟨hbounds.1, by omega⟩ h).trans (Pattern.HasText.of_char hc)).mono (Nat.zero_le _)
  | case2 | case3 | case4 => cases h
  | case5 => exact Option.some.inj h ▸ .refl

theorem hasText_of_read_backref {group : ℕ}
    (h : a.read (.backref group) opts reverse i sl = .ok (some j)) :
    Walk reverse (fun i j => ∃ cs, a.target.Spells a.span false i cs j) i j := by
  simp only [read] at h
  split at h
  · cases h
  · cases h
  · cases reverse with
    | false =>
      obtain ⟨w, hw, -⟩ := hasText_of_repeatsFrom ht hi (by simpa [Target.repeats] using h)
      exact ⟨w, hw⟩
    | true =>
      obtain ⟨w, hw, -⟩ := hasText_of_repeatsUpTo ht hi (by simpa [Target.repeatsBack] using h)
      exact ⟨w, hw⟩

end

end Attempt

end Regexp
