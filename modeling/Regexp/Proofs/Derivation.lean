import Regexp.Pattern.Measure
import Regexp.Proofs.TargetText

/-!
# Derivations

What a pattern matches, said of the pattern and the text alone: without a
program, without an order in which ways are tried, and without a direction in
which the text is walked over.  This is the side of a correctness statement that
a reader has to believe, so it is meant to be read on its own.

## What is derived

`Pattern.Derives` relates the two offsets between which a part of the text
stands that the pattern matches, by recursion on the pattern.  Reading is said
with `Target.HasChar` and `Target.Spells`, which look at the text between two
offsets and do not mention how a text is stored; repetition is `Times`, one
relation several times in a row.

A derivation goes from the smaller offset to the larger one, also where a
machine walks backward.  In the body of a lookbehind a machine comes to the
parts of a sequence in the opposite order, and the offsets are those of the same
derivation read from its end (`Walk`).  The only thing that depends on the
direction is the offset at which a condition inside of a lookbehind is decided.

## What is left open

References and conditions on groups are not followed: any text may have been
captured, and any group may have captured.  So for patterns with references a
derivation says what may be matched, and for the others what is.

A lookaround holds or does not, by whether there is a derivation of its body
(`Verdict`).  But a machine can miss a derivation of a body, and a statement
that is to hold of all patterns has to allow for it.  A derivation that is not
`strict` may take every lookaround to have failed.

## Main definitions

* `Target.HasChar`, `Target.Spells` — what stands between two offsets of a text.
* `Times`, `Walk` — one relation several times in a row, and a relation in a
  direction.
* `Verdict` — whether a lookaround holds.
* `Pattern.Derives` — what a pattern derives between two offsets.

## Main statements

* `Target.HasChar.unique`, `Target.Spells.unique` — a text has one reading.
* `Pattern.Derives.hasText` — what is derived is a text in the span, and not too
  short a one.
-/

namespace Regexp

/-! ### Parts of a text -/

namespace Target

variable (t : Target) (s : Span)

/-- Whether a character stands between two offsets of a span.  The offsets are
those of the target, so they are as far apart as the character is long there,
and both of them lie within the span. -/
def HasChar (i : ℕ) (c : Char) (j : ℕ) : Prop :=
  ∃ k, t.chars[k]? = some c ∧ i = t.place k ∧ j = t.place (k + 1) ∧ s.start ≤ i ∧ j ≤ s.stop

/-- Whether characters stand between two offsets of a span, one after the other.
If case is ignored, the text may have other characters of the same fold key in
their places (`Case.charsMatch`). -/
def Spells (fold : Bool) : ℕ → List Char → ℕ → Prop
  | i, [], j => i = j
  | i, c :: cs, j => ∃ d i', t.HasChar s i d i' ∧ Case.charsMatch fold d c = true ∧
      Spells fold i' cs j

variable {t s} {fold : Bool} {i j : ℕ} {c : Char} {cs ds : List Char}

theorem HasChar.bounds (h : t.HasChar s i c j) : s.start ≤ i ∧ i < j ∧ j ≤ s.stop := by
  obtain ⟨k, hk, rfl, rfl, hstart, hstop⟩ := h
  exact ⟨hstart, place_lt_succ (List.getElem?_eq_some_iff.mp hk).1, hstop⟩

/-- Only one character stands behind an offset, and it ends at one place. -/
theorem HasChar.unique {d : Char} {k : ℕ} (h : t.HasChar s i c j) (h' : t.HasChar s i d k) :
    c = d ∧ j = k := by
  obtain ⟨n, hn, rfl, rfl, -⟩ := h
  obtain ⟨m, hm, hplace, rfl, -⟩ := h'
  obtain rfl := place_inj (List.getElem?_eq_some_iff.mp hn).1.le
    (List.getElem?_eq_some_iff.mp hm).1.le hplace
  exact ⟨Option.some.inj (hn.symm.trans hm), rfl⟩

theorem Spells.le (h : t.Spells s fold i cs j) : i ≤ j := by
  induction cs generalizing i with
  | nil => exact h.le
  | cons c cs ih =>
    obtain ⟨d, i', hchar, -, h⟩ := h
    have := hchar.bounds
    have := ih h
    omega

/-- Each character takes up at least one offset.  In a string it may take up
more. -/
theorem Spells.length_le (h : t.Spells s fold i cs j) : i + cs.length ≤ j := by
  induction cs generalizing i with
  | nil => exact h.le
  | cons c cs ih =>
    obtain ⟨d, i', hchar, -, h⟩ := h
    have := hchar.bounds
    have := ih h
    rw [List.length_cons]
    omega

theorem Spells.bounds (h : t.Spells s fold i cs j) (hi : s.start ≤ i) (hj : i ≤ s.stop) :
    s.start ≤ j ∧ j ≤ s.stop := by
  induction cs generalizing i with
  | nil => exact h ▸ ⟨hi, hj⟩
  | cons c cs ih =>
    obtain ⟨d, i', hchar, -, h⟩ := h
    have := hchar.bounds
    exact ih h (by omega) (by omega)

theorem Spells.start_le (h : t.Spells s fold i cs j) (hi : s.start ≤ j) (hj : j ≤ s.stop) :
    s.start ≤ i ∧ i ≤ s.stop := by
  have := h.le
  cases cs with
  | nil => exact h ▸ ⟨hi, hj⟩
  | cons c cs =>
    obtain ⟨d, i', hchar, -, -⟩ := h
    have := hchar.bounds
    omega

theorem spells_singleton : t.Spells s fold i [c] j ↔
    ∃ d, t.HasChar s i d j ∧ Case.charsMatch fold d c = true := by
  simp [Spells]

theorem spells_append : t.Spells s fold i (cs ++ ds) j ↔
    ∃ k, t.Spells s fold i cs k ∧ t.Spells s fold k ds j := by
  induction cs generalizing i with
  | nil => simp [Spells]
  | cons c cs ih =>
    simp only [List.cons_append, Spells, ih]
    grind

/-- Between two places stand the characters with the indices between them. -/
theorem spells_place {k n : ℕ} (hk : k + n ≤ t.chars.length) (hstart : s.start ≤ t.place k)
    (hstop : t.place (k + n) ≤ s.stop) :
    t.Spells s false (t.place k) ((t.chars.drop k).take n) (t.place (k + n)) := by
  induction n generalizing k with
  | zero => rfl
  | succ n ih =>
    have hlt : k < t.chars.length := by omega
    have heq : k + (n + 1) = k + 1 + n := by omega
    rw [heq] at hk hstop ⊢
    rw [List.drop_eq_getElem_cons hlt, List.take_succ_cons]
    have hnext : t.place k < t.place (k + 1) := place_lt_succ hlt
    exact ⟨_, t.place (k + 1), ⟨k, List.getElem?_eq_getElem hlt, rfl, rfl, hstart,
      (place_le (by omega) hk).trans hstop⟩, by simp [Case.charsMatch],
      ih hk (hstart.trans hnext.le) hstop⟩

/-- Only one text stands between two offsets.  With regard to case, that is:
without it there may be others. -/
theorem Spells.unique (h : t.Spells s false i cs j) (h' : t.Spells s false i ds j) : cs = ds := by
  induction cs generalizing i ds with
  | nil =>
    cases ds with
    | nil => rfl
    | cons d ds =>
      obtain ⟨e, i', he, -, h'⟩ := h'
      have := he.bounds
      have := h'.le
      have : i = j := h
      omega
  | cons c cs ih =>
    obtain ⟨e, i', he, hmatch, h⟩ := h
    cases ds with
    | nil =>
      have := he.bounds
      have := h.le
      have : i = j := h'
      omega
    | cons d ds =>
      obtain ⟨e', i'', he', hmatch', h'⟩ := h'
      obtain ⟨rfl, rfl⟩ := he.unique he'
      rw [ih h h', ← show e = c by simpa [Case.charsMatch] using hmatch,
        ← show e = d by simpa [Case.charsMatch] using hmatch']

end Target

/-! ### Relations between offsets -/

/-- One relation several times in a row.  Its use is for the copies of a loop,
so nothing is said of whether the steps get anywhere. -/
def Times (R : ℕ → ℕ → Prop) : ℕ → ℕ → ℕ → Prop
  | 0, i, j => i = j
  | n + 1, i, j => ∃ k, R i k ∧ Times R n k j

/-- A relation in the direction of a walk.  A derivation always goes from a
lower offset to a higher one, and a machine that walks backward comes to the
higher one first. -/
def Walk (reverse : Bool) (R : ℕ → ℕ → Prop) (i j : ℕ) : Prop := if reverse then R j i else R i j

section

variable {R R' : ℕ → ℕ → Prop} {n n' i j : ℕ} {reverse : Bool}

theorem times_add : Times R (n + n') i j ↔ ∃ k, Times R n i k ∧ Times R n' k j := by
  induction n generalizing i with
  | zero => simp [Times]
  | succ n ih =>
    rw [Nat.succ_add, Times]
    simp only [Times, ih]
    grind

theorem times_one : Times R 1 i j ↔ R i j := by
  simp [Times]

/-- The last one of several. -/
theorem times_succ_right : Times R (n + 1) i j ↔ ∃ k, Times R n i k ∧ R k j := by
  simp only [times_add, times_one]

theorem times_congr (h : ∀ i j, R i j ↔ R' i j) : Times R n i j ↔ Times R' n i j := by
  obtain rfl : R = R' := funext fun i => funext fun j => propext (h i j)
  rfl

@[simp] theorem walk_false : Walk false R i j ↔ R i j := Iff.rfl

@[simp] theorem walk_true : Walk true R i j ↔ R j i := Iff.rfl

/-- Walking over several is walking over them one by one, also backward, where
the last one comes first. -/
theorem walk_times : Walk reverse (Times R n) i j ↔ Times (Walk reverse R) n i j := by
  cases reverse with
  | false => exact Iff.rfl
  | true =>
    induction n generalizing i with
    | zero => exact eq_comm
    | succ n ih =>
      rw [walk_true, times_succ_right, Times]
      simp only [walk_true] at ih
      simp only [walk_true, ih, and_comm]

end

namespace Pattern

/-! ### Patterns -/

/-- Whether a lookaround holds, where there is a way through its body or not.
Unless this is `strict`, the body may be taken to have failed, so that the
verdict of a negative lookaround is never an obstacle. -/
def Verdict (strict negated : Bool) (body : Prop) : Prop :=
  if negated then strict = true → ¬body else body

section

variable (t : Target) (s : Span) (strict : Bool)

mutual

/-- Whether a pattern derives the part of a span between two offsets, by
recursion on the pattern and without any order of trying.  References and
conditions on groups are not followed: any text may have been captured, and any
group may have captured.  The direction only matters for the tests of
conditionals, which are made where a walk in that direction comes to them. -/
def Derives (reverse : Bool) (opts : Options) : Pattern → ℕ → ℕ → Prop
  | .empty, i, j => i = j
  | .char c, i, j => t.Spells s opts.caseInsensitive i [c] j
  | .string cs, i, j => t.Spells s opts.caseInsensitive i cs j
  | .dot, i, j => ∃ c, t.HasChar s i c j ∧
      (opts.singleLine = true ∨ Scalar.isLineTerminator c = false)
  | .charClass set negated, i, j => ∃ c, t.HasChar s i c j ∧
      ((∃ d, set.contains d = true ∧ Case.charsMatch opts.caseInsensitive c d = true) ↔
        negated = false)
  | .anchor a, i, j => i = j ∧ a.holds t s i opts = true
  | .concat items, i, j => DerivesSeq reverse opts items i j
  | .union alternatives, i, j => DerivesOne reverse opts alternatives i j
  | .repetition body min max _, i, j => ∃ n, min ≤ n ∧ (∀ b, max = some b → n ≤ min ∨ n ≤ b) ∧
      Times (Derives reverse opts body) n i j
  | .group _ body, i, j => Derives reverse opts body i j
  | .backref _, i, j => ∃ cs, t.Spells s false i cs j
  | .look kind body, i, j => i = j ∧ Verdict strict kind.isNegated
      (∃ e, Walk kind.isBehind (Derives kind.isBehind opts body) i e)
  | .independent body, i, j => Derives reverse opts body i j
  | .modifier add remove body, i, j => Derives reverse (opts.modify add remove) body i j
  | .ifGroup _ yes none, i, j => Derives reverse opts yes i j ∨ i = j
  | .ifGroup _ yes (some no), i, j => Derives reverse opts yes i j ∨ Derives reverse opts no i j
  | .ifLook test yes none, i, j =>
    let holds := ∃ e, Walk reverse (Derives reverse opts test) (if reverse then j else i) e
    holds ∧ Derives reverse opts yes i j ∨ Verdict strict true holds ∧ i = j
  | .ifLook test yes (some no), i, j =>
    let holds := ∃ e, Walk reverse (Derives reverse opts test) (if reverse then j else i) e
    holds ∧ Derives reverse opts yes i j ∨ Verdict strict true holds ∧ Derives reverse opts no i j
  termination_by structural p => p

/-- Whether patterns in sequence derive the part between two offsets, one part
for each of them.  The parts are in the order of the text even if a machine
walks backward over them. -/
def DerivesSeq (reverse : Bool) (opts : Options) : List Pattern → ℕ → ℕ → Prop
  | [], i, j => i = j
  | p :: ps, i, j => ∃ k, Derives reverse opts p i k ∧ DerivesSeq reverse opts ps k j
  termination_by structural ps => ps

/-- Whether one of several patterns derives the part between two offsets. -/
def DerivesOne (reverse : Bool) (opts : Options) : List Pattern → ℕ → ℕ → Prop
  | [], _, _ => False
  | p :: ps, i, j => Derives reverse opts p i j ∨ DerivesOne reverse opts ps i j
  termination_by structural ps => ps

end

end

/-! ### The text of a derivation -/

variable {t : Target} {s : Span} {strict reverse fold : Bool} {opts : Options} {i j k m n : ℕ}

/-- Whether a text of at least so many characters stands between two offsets.
This is what a derivation comes to if no more is asked than the least length of
its pattern. -/
def HasText (t : Target) (s : Span) (n i j : ℕ) : Prop :=
  ∃ w, t.Spells s false i w j ∧ n ≤ w.length

theorem HasText.mono (hmn : m ≤ n) (h : HasText t s n i j) : HasText t s m i j := by
  obtain ⟨w, h, hn⟩ := h
  exact ⟨w, h, hmn.trans hn⟩

theorem HasText.refl : HasText t s 0 i i := ⟨[], rfl, Nat.zero_le _⟩

theorem HasText.trans (h : HasText t s m i j) (h' : HasText t s n j k) :
    HasText t s (m + n) i k := by
  obtain ⟨w, h, hm⟩ := h
  obtain ⟨w', h', hn⟩ := h'
  refine ⟨w ++ w', Target.spells_append.mpr ⟨j, h, h'⟩, ?_⟩
  rw [List.length_append]
  omega

theorem HasText.of_char {c : Char} (h : t.HasChar s i c j) : HasText t s 1 i j :=
  ⟨[c], ⟨c, j, h, by simp [Case.charsMatch], rfl⟩, le_rfl⟩

theorem HasText.of_spells {cs : List Char} (h : t.Spells s fold i cs j) :
    HasText t s cs.length i j := by
  induction cs generalizing i with
  | nil => exact h ▸ .refl
  | cons c cs ih =>
    obtain ⟨d, k, hchar, -, h⟩ := h
    exact ((HasText.of_char hchar).trans (ih h)).mono (Nat.add_comm _ _).le

theorem HasText.of_times {R : ℕ → ℕ → Prop} (hR : ∀ i j, R i j → HasText t s m i j)
    (h : Times R n i j) : HasText t s (n * m) i j := by
  induction n generalizing i with
  | zero =>
    rw [Nat.zero_mul]
    exact h ▸ .refl
  | succ n ih =>
    obtain ⟨k, hk, h⟩ := h
    refine ((hR i k hk).trans (ih h)).mono ?_
    rw [Nat.succ_mul, Nat.add_comm]

/-- A text keeps an offset in the span, in either direction of the walk. -/
theorem HasText.walk_bounds (h : Walk reverse (HasText t s n) i j)
    (hi : s.start ≤ i ∧ i ≤ s.stop) : s.start ≤ j ∧ j ≤ s.stop := by
  cases reverse with
  | false =>
    obtain ⟨w, h, -⟩ := h
    exact h.bounds hi.1 hi.2
  | true =>
    obtain ⟨w, h, -⟩ := h
    exact h.start_le hi.1 hi.2

theorem foldl_saturatingAdd_le (ns : List ℕ) (n : ℕ) :
    ns.foldl saturatingAdd n ≤ n + ns.sum := by
  induction ns generalizing n with
  | nil => simp
  | cons m ns ih =>
    have h := ih (saturatingAdd n m)
    have : saturatingAdd n m ≤ n + m := Nat.min_le_left _ _
    simp only [List.foldl_cons, List.sum_cons]
    omega

theorem min?_getD_le {ns : List ℕ} (h : n ∈ ns) : ns.min?.getD 0 ≤ n := by
  cases hmin : ns.min? with
  | none =>
    rw [List.min?_eq_none_iff.mp hmin] at h
    cases h
  | some m => exact (List.min?_eq_some_iff.mp hmin).2 n h

mutual

/-- A derivation has a text, which is not shorter than the pattern's lower
bound. -/
theorem Derives.hasText : (p : Pattern) → (reverse : Bool) → (opts : Options) → (i j : ℕ) →
    Derives t s strict reverse opts p i j → HasText t s p.minLen i j
  | .empty, _, _, _, _, h => h ▸ .refl
  | .char _, _, _, _, _, h => .of_spells h
  | .string _, _, _, _, _, h => .of_spells h
  | .dot, _, _, _, _, ⟨_, h, _⟩ => .of_char h
  | .charClass _ _, _, _, _, _, ⟨_, h, _⟩ => .of_char h
  | .anchor _, _, _, _, _, ⟨h, _⟩ => h ▸ .refl
  | .concat items, reverse, opts, i, j, h =>
    (DerivesSeq.hasText items reverse opts i j h).mono <| by
      simpa [minLen] using foldl_saturatingAdd_le (minLens items) 0
  | .union ps, reverse, opts, i, j, h => by
    obtain ⟨n, hn, h⟩ := DerivesOne.hasText ps reverse opts i j h
    exact h.mono (min?_getD_le hn)
  | .repetition body min _ _, reverse, opts, _, _, ⟨_, hmin, _, h⟩ =>
    (HasText.of_times (Derives.hasText body reverse opts) h).mono <|
      (Nat.min_le_left _ _).trans (Nat.mul_le_mul_right _ hmin)
  | .group _ body, reverse, opts, i, j, h => Derives.hasText body reverse opts i j h
  | .backref _, _, _, _, _, ⟨_, h⟩ => (HasText.of_spells h).mono (Nat.zero_le _)
  | .look _ _, _, _, _, _, ⟨h, _⟩ => h ▸ .refl
  | .independent body, reverse, opts, i, j, h => Derives.hasText body reverse opts i j h
  | .modifier add remove body, reverse, opts, i, j, h =>
    Derives.hasText body reverse (opts.modify add remove) i j h
  | .ifGroup _ yes none, reverse, opts, i, j, h =>
    h.elim (fun h => (Derives.hasText yes reverse opts i j h).mono (Nat.zero_le _))
      fun h => h ▸ .refl
  | .ifGroup _ yes (some no), reverse, opts, i, j, h =>
    h.elim (fun h => (Derives.hasText yes reverse opts i j h).mono (Nat.min_le_left _ _))
      fun h => (Derives.hasText no reverse opts i j h).mono (Nat.min_le_right _ _)
  | .ifLook _ yes none, reverse, opts, i, j, h =>
    h.elim (fun h => (Derives.hasText yes reverse opts i j h.2).mono (Nat.zero_le _))
      fun h => h.2 ▸ .refl
  | .ifLook _ yes (some no), reverse, opts, i, j, h =>
    h.elim (fun h => (Derives.hasText yes reverse opts i j h.2).mono (Nat.min_le_left _ _))
      fun h => (Derives.hasText no reverse opts i j h.2).mono (Nat.min_le_right _ _)
  termination_by structural p => p

theorem DerivesSeq.hasText : (ps : List Pattern) → (reverse : Bool) → (opts : Options) →
    (i j : ℕ) → DerivesSeq t s strict reverse opts ps i j → HasText t s (minLens ps).sum i j
  | [], _, _, _, _, h => h ▸ .refl
  | p :: ps, reverse, opts, i, j, ⟨k, h, h'⟩ =>
    ((Derives.hasText p reverse opts i k h).trans (DerivesSeq.hasText ps reverse opts k j h')).mono
      (by simp [minLens])
  termination_by structural ps => ps

theorem DerivesOne.hasText : (ps : List Pattern) → (reverse : Bool) → (opts : Options) →
    (i j : ℕ) → DerivesOne t s strict reverse opts ps i j → ∃ n ∈ minLens ps, HasText t s n i j
  | [], _, _, _, _, h => h.elim
  | p :: ps, reverse, opts, i, j, h => by
    rcases h with h | h
    · exact ⟨p.minLen, List.mem_cons_self, Derives.hasText p reverse opts i j h⟩
    · obtain ⟨n, hn, h⟩ := DerivesOne.hasText ps reverse opts i j h
      exact ⟨n, List.mem_cons_of_mem _ hn, h⟩
  termination_by structural ps => ps

end

end Pattern

end Regexp
