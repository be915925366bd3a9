import Regexp.Machine.Progress
import Regexp.Proofs.Growth
import Regexp.Proofs.RangeAlgebra

/-!
# Closure under simple case folding

A folded set has just the characters that are the same up to case as some
member.  Being the same up to case is an equivalence, since it is having the
same representative (`Case.eqFold_iff`), and from this alone folding is a
closure: it only adds members, it adds none the second time, and larger sets
have larger closures.

## From the table to the program

`RangeSet.caseFold` reads the table of case folding, pushes ranges and compacts.
What it gives is known from `RangeSet.Represents.caseFold`, so that nothing here
opens the table again:  `RangeSet.IsCanonical.contains_caseFold` is the equation
for single characters, and the laws of a closure are those of the equivalence.
Two sets in canonical form are equal if they have the same members, so that
folding twice gives the same ranges and not only the same members
(`RangeSet.IsCanonical.caseFold_caseFold`).

Programs hold boundary lists.  Folding them gives the ranges that folding their
ranges gives (`CharSet.toRangeSet_caseFold`), so that a set goes without a set
for folded characters if its ranges are those of its closure
(`Pattern.foldedSet_eq_none_iff`).  A class operation without such a set reads
with the plain one in any case, and this is right because the plain one is
closed:  whether it has a character is then a question about the representative.
The last part of `RangeSet.caseFold_isClosure` says this of every class
operation of every program.
-/

namespace Regexp

namespace RangeSet

variable {s t : RangeSet} {c : Char}

/-- A character is in the closure if it is the same up to case as some member. -/
theorem IsCanonical.contains_caseFold (h : s.IsCanonical) :
    s.caseFold.contains c = true ↔ ∃ m, s.contains m = true ∧ Case.eqFold c m = true := by
  rw [h.represents.caseFold.contains_iff]
  simp only [h.represents.contains_iff]
  rfl

/-- A set is within its closure. -/
theorem IsCanonical.contains_caseFold_of_contains (h : s.IsCanonical)
    (hc : s.contains c = true) : s.caseFold.contains c = true :=
  h.contains_caseFold.mpr ⟨c, hc, Case.eqFold_iff.mpr rfl⟩

/-- Larger sets have larger closures. -/
theorem IsCanonical.caseFold_mono (hs : s.IsCanonical) (ht : t.IsCanonical)
    (h : ∀ c, s.contains c = true → t.contains c = true) (hc : s.caseFold.contains c = true) :
    t.caseFold.contains c = true := by
  obtain ⟨m, hm, heq⟩ := hs.contains_caseFold.mp hc
  exact ht.contains_caseFold.mpr ⟨m, h m hm, heq⟩

/-- The closure of a closure has the same ranges. -/
theorem IsCanonical.caseFold_caseFold (h : s.IsCanonical) :
    s.caseFold.caseFold = s.caseFold := by
  have hfold := h.represents.caseFold
  refine (hfold.caseFold.eq_iff hfold).mpr (Set.ext fun c => ?_)
  constructor
  · rintro ⟨d, ⟨m, hm, hd⟩, hc⟩
    rw [Case.eqFold_iff] at hd hc
    exact ⟨m, hm, Case.eqFold_iff.mpr (hc.trans hd)⟩
  · intro hc
    exact ⟨c, hc, Case.eqFold_iff.mpr rfl⟩

end RangeSet

namespace CharSet

variable {s t : CharSet}

theorem toRangeSet_injective (h : s.toRangeSet = t.toRangeSet) : s = t := by
  rw [eq_iff_members]
  exact (s.toRangeSet_represents.eq_iff t.toRangeSet_represents).mp h

/-- **Folding a boundary list gives the ranges that folding its ranges gives.** -/
theorem toRangeSet_caseFold (s : CharSet) : s.caseFold.toRangeSet = s.toRangeSet.caseFold := by
  have hfold := s.caseFold.toRangeSet_represents
  rw [members_caseFold] at hfold
  exact hfold.unique s.toRangeSet_represents.caseFold

end CharSet

/-- Only closed sets go without a set of folded characters. -/
theorem Pattern.foldedSet_eq_none_iff {set : CharSet} :
    foldedSet set = none ↔ set.toRangeSet.caseFold = set.toRangeSet := by
  rw [← CharSet.toRangeSet_caseFold, foldedSet]
  split
  · rename_i heq
    exact iff_of_true rfl (congrArg CharSet.toRangeSet heq)
  · rename_i hne
    exact iff_of_false nofun fun heq => hne (CharSet.toRangeSet_injective heq)

/-- **Folding is the closure of a set under simple case folding**: the closure
holds the characters that are the same up to case as some member, so that it
contains the set, is its own closure, and grows with the set.  The sets of
programs are folded alike, and go without a set for folded characters if they
are closed.  A class operation that does so is right to use the plain set, whose
members already decide about all characters up to case. -/
theorem RangeSet.caseFold_isClosure (s : RangeSet) (h : s.IsCanonical) :
    (∀ c, s.caseFold.contains c = true ↔
      ∃ m, s.contains m = true ∧ Case.eqFold c m = true) ∧
    (∀ c, s.contains c = true → s.caseFold.contains c = true) ∧
    s.caseFold.caseFold = s.caseFold ∧
    (∀ t : RangeSet, t.IsCanonical → (∀ c, s.contains c = true → t.contains c = true) →
      ∀ c, s.caseFold.contains c = true → t.caseFold.contains c = true) ∧
    ∀ set : CharSet, set.toRangeSet = s →
      set.caseFold.toRangeSet = s.caseFold ∧
      (Pattern.foldedSet set = none ↔ s.caseFold = s) ∧
      ∀ (p : Pattern) (i : ℕ) (negated : Bool) (next : Link),
        (Program.ofPattern p).ops[i]? = some (.atom (.range set none negated) next) →
        (∀ c, s.contains c = true ↔ ∃ m, s.contains m = true ∧ Case.eqFold c m = true) ∧
        ∀ (a : Attempt) (opts : Options) (reverse : Bool) (o j : ℕ) (slots : Option Slots),
          opts.caseInsensitive = true →
          (a.read (.range set none negated) opts reverse o slots = .ok (some j) ↔
            ∃ c, a.nextChar reverse o = some (c, j) ∧
              ((∃ m, s.contains m = true ∧ Case.eqFold c m = true) ↔ negated = false)) := by
  refine ⟨fun c => h.contains_caseFold, fun c => h.contains_caseFold_of_contains,
    h.caseFold_caseFold, fun t ht hst c => h.caseFold_mono ht hst, ?_⟩
  rintro set rfl
  refine ⟨set.toRangeSet_caseFold, Pattern.foldedSet_eq_none_iff, ?_⟩
  intro p i negated next hop
  have hclosed : ∀ c, set.toRangeSet.contains c = true ↔
      ∃ m, set.toRangeSet.contains m = true ∧ Case.eqFold c m = true := by
    intro c
    rw [← h.contains_caseFold, Pattern.foldedSet_eq_none_iff.mp (Program.folded_eq p hop).symm]
  refine ⟨hclosed, fun a opts reverse o j slots hopts => ?_⟩
  have hread : a.read (.range set none negated) opts reverse o slots =
      .ok (a.readChar reverse o fun c => set.contains c != negated) := by
    rw [Attempt.read, hopts]
    rfl
  have hplain : ∀ c, set.contains c = true ↔ set.toRangeSet.contains c = true := fun c =>
    set.toRangeSet_represents.contains_iff.symm
  rw [hread, Except.ok.injEq, Attempt.readChar_eq_some_iff]
  simp only [← hclosed]
  simp only [← hplain]
  cases negated <;> simp

/-- The closure of the letter k is closed, so an operation that has it needs no
other set to read the Kelvin sign. -/
theorem RangeSet.caseFold_isClosure_kelvin :
    let k := single 'k'
    let set := (CharSet.single 'k').caseFold
    let p := Pattern.charClass set false
    let a : Attempt := ⟨Program.ofPattern p, .buffer #['\u212A'], ⟨0, 1⟩, false⟩
    k.IsCanonical ∧ k.caseFold.IsCanonical ∧ k.contains 'k' = true ∧
      k.caseFold.contains 'k' = true ∧ k.caseFold.caseFold.contains 'k' = true ∧
      set.toRangeSet = k.caseFold ∧
      (Program.ofPattern p).ops[0]? = some (.atom (.range set none false) none) ∧
      a.read (.range set none false) { caseInsensitive := true } false 0 none = .ok (some 1) := by
  intro k set p a
  have hk : k.IsCanonical := (represents_single 'k').isCanonical
  have hfold : k.caseFold.IsCanonical := (represents_single 'k').caseFold.isCanonical
  have hset : set.toRangeSet = k.caseFold := by
    have hsingle : (CharSet.single 'k').toRangeSet = k := by decide +kernel
    rw [CharSet.toRangeSet_caseFold, hsingle]
  have hcontains : k.contains 'k' = true := by decide +kernel
  obtain ⟨-, hsubset, hfixed, hmono, -⟩ := caseFold_isClosure k hk
  obtain ⟨-, -, -, -, hclass⟩ := caseFold_isClosure k.caseFold hfold
  obtain ⟨-, hnone, hread⟩ := hclass set hset
  have hop : (Program.ofPattern p).ops[0]? = some (.atom (.range set none false) none) := by
    have hfirst : (Program.ofPattern p).ops[0]? =
        some (.atom (.range set (Pattern.foldedSet set) false) none) := rfl
    rw [hfirst, hnone.mpr hfixed]
  have hmember := hsubset 'k' hcontains
  have hkelvin := (hread p 0 false none hop).2 a { caseInsensitive := true } false 0 1 none rfl
  exact ⟨hk, hfold, hcontains, hmember, hmono k.caseFold hfold hsubset 'k' hmember, hset, hop,
    hkelvin.mpr ⟨'\u212A', rfl, iff_of_true ⟨'k', hmember, by decide +kernel⟩ rfl⟩⟩

end Regexp
