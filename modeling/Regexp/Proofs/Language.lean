import Mathlib.Computability.Language
import Regexp.Proofs.CaseFold
import Regexp.Proofs.Derivation

/-!
# Languages

A pattern without conditions stands for a set of words, whatever text it is
matched with.  Languages are those of Mathlib, with their product, sum and
Kleene star.

`Pattern.Derives` is about two offsets of a text, and it allows for lookarounds,
references and anchors, which look at the text around.  In a pattern with none
of these the text between the two offsets is all that counts, and
`Pattern.derives_iff_language` says so: the part of the text between two offsets
is derived if and only if it is a word of `Pattern.language`.
`Pattern.isRegular` are the patterns that are left, which are those that the
dialect of XML Schema can write: characters, classes, sequences, choices, groups
that capture, and greedy repetitions whose bounds are in order.

Regard to case is a parameter of the language (`Case.Same`), so that a word of a
pattern is compared with the text exactly as the text is read.

## Main definitions

* `Pattern.isRegular` — patterns that only read characters, repeat greedily and
  capture.
* `Pattern.language` — the words of a pattern.
* `Target.HasWord` — a word of a language stands between two offsets.

## Main statements

* `Pattern.derives_iff_language` — a regular pattern derives the texts that are
  its words.
-/

namespace Regexp

namespace Case

/-- Whether two characters are the same, or have the same representative if case
is ignored. -/
def Same (fold : Bool) (c d : Char) : Prop := if fold then foldKey c = foldKey d else c = d

instance (fold : Bool) (c d : Char) : Decidable (Same fold c d) :=
  inferInstanceAs (Decidable (if fold then foldKey c = foldKey d else c = d))

theorem charsMatch_iff {fold : Bool} {c d : Char} : charsMatch fold c d = true ↔ Same fold c d := by
  cases fold with
  | false => exact charsMatch_false
  | true => exact charsMatch_true

end Case

namespace Pattern

mutual

/-- Whether a pattern has only characters, classes, sequences, choices, groups
that capture, and greedy repetitions whose bounds are in order.  These are the
patterns of the dialect of XML Schema. -/
def isRegular : Pattern → Bool
  | .empty | .char _ | .string _ | .charClass _ _ => true
  | .concat items => areRegular items
  | .union alternatives => areRegular alternatives
  | .repetition body min max greedy => greedy && max.all (min ≤ ·) && body.isRegular
  | .group index body => index.isSome && body.isRegular
  | _ => false
  termination_by structural p => p

/-- Whether several patterns are regular. -/
def areRegular : List Pattern → Bool
  | [] => true
  | p :: ps => p.isRegular && areRegular ps
  termination_by structural ps => ps

end

section

variable (fold : Bool)

mutual

/-- The words of a regular pattern, where characters are compared with or
without regard to case.  A repetition has the words of as many copies of its
body as its bounds allow, and constructs that no regular pattern has are left
without words. -/
def language : Pattern → Language Char
  | .empty => 1
  | .char c => {w | ∃ d, w = [d] ∧ Case.Same fold d c}
  | .string cs => {w | List.Forall₂ (Case.Same fold) w cs}
  | .charClass set negated =>
    {w | ∃ c, w = [c] ∧ ((∃ d, set.contains d = true ∧ Case.Same fold c d) ↔ negated = false)}
  | .concat items => languageSeq items
  | .union alternatives => languageSum alternatives
  | .repetition body min max _ =>
    {w | ∃ n, min ≤ n ∧ (∀ b, max = some b → n ≤ b) ∧ w ∈ body.language ^ n}
  | .group _ body => body.language
  | .dot | .anchor _ | .backref _ | .look _ _ | .independent _ | .modifier _ _ _ | .ifGroup _ _ _
  | .ifLook _ _ _ => 0
  termination_by structural p => p

/-- The words of patterns in sequence. -/
def languageSeq : List Pattern → Language Char
  | [] => 1
  | p :: ps => p.language * languageSeq ps
  termination_by structural ps => ps

/-- The words of one of several patterns. -/
def languageSum : List Pattern → Language Char
  | [] => 0
  | p :: ps => p.language + languageSum ps
  termination_by structural ps => ps

end

end

variable {t : Target} {s : Span} {strict reverse fold : Bool} {opts : Options} {i j n : ℕ}
  {L L' : Language Char} {cs : List Char}

/-- Whether a word of a language stands between two offsets. -/
def HasWord (t : Target) (s : Span) (L : Language Char) (i j : ℕ) : Prop :=
  ∃ w ∈ L, t.Spells s false i w j

theorem hasWord_one : HasWord t s 1 i j ↔ i = j := by
  simp [HasWord, Language.mem_one, Target.Spells]

theorem hasWord_add : HasWord t s (L + L') i j ↔ HasWord t s L i j ∨ HasWord t s L' i j := by
  simp only [HasWord, Language.mem_add]
  grind

theorem hasWord_mul : HasWord t s (L * L') i j ↔ ∃ k, HasWord t s L i k ∧ HasWord t s L' k j := by
  simp only [HasWord, Language.mem_mul]
  constructor
  · rintro ⟨w, ⟨u, hu, v, hv, rfl⟩, h⟩
    obtain ⟨k, h, h'⟩ := Target.spells_append.mp h
    exact ⟨k, ⟨u, hu, h⟩, v, hv, h'⟩
  · rintro ⟨k, ⟨u, hu, h⟩, v, hv, h'⟩
    exact ⟨u ++ v, ⟨u, hu, v, hv, rfl⟩, Target.spells_append.mpr ⟨k, h, h'⟩⟩

theorem hasWord_pow : HasWord t s (L ^ n) i j ↔ Times (HasWord t s L) n i j := by
  induction n generalizing i with
  | zero => rw [pow_zero, hasWord_one, Times]
  | succ n ih => simp only [pow_succ', hasWord_mul, ih, Times]

theorem hasWord_singletons {P : Char → Prop} :
    HasWord t s {w | ∃ c, w = [c] ∧ P c} i j ↔ ∃ c, t.HasChar s i c j ∧ P c := by
  constructor
  · rintro ⟨w, ⟨c, rfl, hc⟩, h⟩
    obtain ⟨d, hd, hmatch⟩ := Target.spells_singleton.mp h
    exact ⟨d, hd, Case.charsMatch_false.mp hmatch ▸ hc⟩
  · rintro ⟨c, h, hc⟩
    exact ⟨[c], ⟨c, rfl, hc⟩, Target.spells_singleton.mpr ⟨c, h, Case.charsMatch_false.mpr rfl⟩⟩

/-- A text up to case is a text with characters that are the same up to case. -/
theorem spells_iff_hasWord : t.Spells s fold i cs j ↔
    HasWord t s {w | List.Forall₂ (Case.Same fold) w cs} i j := by
  induction cs generalizing i with
  | nil =>
    constructor
    · exact fun h => ⟨[], .nil, h⟩
    · rintro ⟨w, hw, h⟩
      cases hw
      exact h
  | cons c cs ih =>
    constructor
    · rintro ⟨d, k, hd, hmatch, h⟩
      obtain ⟨w, hw, h⟩ := ih.mp h
      exact ⟨d :: w, .cons (Case.charsMatch_iff.mp hmatch) hw, d, k, hd,
        Case.charsMatch_false.mpr rfl, h⟩
    · rintro ⟨w, hw, h⟩
      cases hw with
      | cons hsame hw =>
        obtain ⟨d, k, hd, hmatch, h⟩ := h
        obtain rfl := Case.charsMatch_false.mp hmatch
        exact ⟨d, k, hd, Case.charsMatch_iff.mpr hsame, ih.mpr ⟨_, hw, h⟩⟩

mutual

/-- A regular pattern derives the texts that are its words. -/
theorem derives_iff_language : (p : Pattern) → p.isRegular = true → ∀ (reverse : Bool)
    (opts : Options) (i j : ℕ), Derives t s strict reverse opts p i j ↔
      HasWord t s (p.language opts.caseInsensitive) i j
  | .empty => by
    intro _ reverse opts i j
    rw [Derives, language, hasWord_one]
  | .char c => by
    intro _ reverse opts i j
    rw [Derives, language, hasWord_singletons, Target.spells_singleton]
    simp only [Case.charsMatch_iff]
  | .string cs => by
    intro _ reverse opts i j
    rw [Derives, language, spells_iff_hasWord]
  | .charClass set negated => by
    intro _ reverse opts i j
    rw [Derives, language, hasWord_singletons]
    simp only [Case.charsMatch_iff]
  | .concat items => by
    intro hp reverse opts i j
    rw [Derives, language]
    exact derivesSeq_iff_language items hp reverse opts i j
  | .union alternatives => by
    intro hp reverse opts i j
    rw [Derives, language]
    exact derivesOne_iff_language alternatives hp reverse opts i j
  | .repetition body min max greedy => by
    intro hp reverse opts i j
    simp only [isRegular, Bool.and_eq_true, Option.all_eq_true, decide_eq_true_iff] at hp
    obtain ⟨⟨-, hbounds⟩, hbody⟩ := hp
    have hiff := derives_iff_language body hbody reverse opts
    have hword : HasWord t s (Pattern.language opts.caseInsensitive
        (.repetition body min max greedy)) i j ↔
        ∃ n, min ≤ n ∧ (∀ b, max = some b → n ≤ b) ∧
          HasWord t s (body.language opts.caseInsensitive ^ n) i j := by
      rw [language]
      exact ⟨fun ⟨w, ⟨n, hmin, hmax, hw⟩, h⟩ => ⟨n, hmin, hmax, w, hw, h⟩,
        fun ⟨n, hmin, hmax, w, hw, h⟩ => ⟨w, ⟨n, hmin, hmax, hw⟩, h⟩⟩
    rw [hword, Derives]
    simp only [hasWord_pow]
    refine exists_congr fun n => and_congr_right fun hmin => ?_
    rw [times_congr hiff]
    refine and_congr_left fun _ => forall_congr' fun b => forall_congr' fun hb => ?_
    have := hbounds b hb
    omega
  | .group index body => by
    intro hp reverse opts i j
    rw [Derives, language]
    rw [isRegular, Bool.and_eq_true] at hp
    exact derives_iff_language body hp.2 reverse opts i j
  | .dot | .anchor _ | .backref _ | .look _ _ | .independent _ | .modifier _ _ _ | .ifGroup _ _ _
  | .ifLook _ _ _ => nofun
  termination_by structural p => p

theorem derivesSeq_iff_language : (ps : List Pattern) → areRegular ps = true → ∀ (reverse : Bool)
    (opts : Options) (i j : ℕ), DerivesSeq t s strict reverse opts ps i j ↔
      HasWord t s (languageSeq opts.caseInsensitive ps) i j
  | [] => by
    intro _ reverse opts i j
    rw [DerivesSeq, languageSeq, hasWord_one]
  | p :: ps => by
    intro hp reverse opts i j
    obtain ⟨h, h'⟩ := Bool.and_eq_true_iff.mp hp
    rw [DerivesSeq, languageSeq, hasWord_mul]
    exact exists_congr fun k => and_congr (derives_iff_language p h reverse opts i k)
      (derivesSeq_iff_language ps h' reverse opts k j)
  termination_by structural ps => ps

theorem derivesOne_iff_language : (ps : List Pattern) → areRegular ps = true → ∀ (reverse : Bool)
    (opts : Options) (i j : ℕ), DerivesOne t s strict reverse opts ps i j ↔
      HasWord t s (languageSum opts.caseInsensitive ps) i j
  | [] => by
    intro _ reverse opts i j
    simp [DerivesOne, languageSum, HasWord]
  | p :: ps => by
    intro hp reverse opts i j
    obtain ⟨h, h'⟩ := Bool.and_eq_true_iff.mp hp
    rw [DerivesOne, languageSum, hasWord_add]
    exact or_congr (derives_iff_language p h reverse opts i j)
      (derivesOne_iff_language ps h' reverse opts i j)
  termination_by structural ps => ps

end

end Pattern

end Regexp
