import Mathlib.Data.Nat.Init
import Regexp.Proofs.Cursor.Steps

/-!
# Reading by bytes what does not nest

Each of these walks agrees with the reader of the same name.  They are the
leaves of the circle of routines:  blanks and comments, numbers, option letters,
quantifiers and escapes.

A loop of a walk looks at one character after the other, where a reader takes
from the text at once the longest part that has digits only, or the text up to a
mark.  So each loop has a lemma of its own, an induction on the characters in
front of the offset, which says what the loop comes to from the middle of such a
part (`Cursor.loop_decimalRound`, `Cursor.loop_hexRound`,
`Cursor.loop_nameRound`).  A number may become too large before its last digit,
and then the walk fails at once while the reader sees it at the end; more digits
make no smaller number, so that they fail alike.

Some walks look ahead and come back.  `Cursor.leadingFlags_agrees` is about
letters that are read, found to have a colon behind them, and read once more
from the parenthesis on, as the letters of another construct.

## Main statements

* `Cursor.skipSpace_bind` — blanks and comments.
* `Cursor.decimal_agrees`, `Cursor.flags_agrees` — numbers and option letters.
* `Cursor.leadingFlags_agrees` — the change of options at the start of a group,
  after which the offset may have to be put back.
* `Cursor.quantified_agrees` — quantifiers.
* `Cursor.classEscape_agrees`, `Cursor.charEscape_agrees`,
  `Cursor.escape_agrees` — escapes.
-/

namespace Regexp.Pattern

namespace Cursor

variable {src : Source} {σ : State} {l : Parser.Ledger} {s t : List Char}

/-! ### Blanks -/

theorem skipFrom_suffix (inComment : Bool) : Parser.skipFrom inComment s <:+ s := by
  induction s generalizing inComment with
  | nil => exact List.suffix_refl _
  | cons c s ih =>
    rw [Parser.skipFrom]
    split_ifs
    · exact (ih _).trans (List.suffix_cons c s)
    · exact (ih _).trans (List.suffix_cons c s)
    · exact (ih _).trans (List.suffix_cons c s)
    · exact List.suffix_refl _

theorem skip_suffix (extended : Bool) : Parser.skip extended s <:+ s := by
  rw [Parser.skip]
  split
  · exact skipFrom_suffix _
  · exact List.suffix_refl _

/-- A comment is left at its end. -/
theorem loop_commentRound (hs : s <:+ src.pattern) :
    ∃ t, t <:+ s ∧ Parser.skipFrom true s = Parser.skipFrom false t ∧
      loop commentRound () src (σ.facing src l s) = .ok ((), σ.facing src l t) := by
  induction s with
  | nil =>
    refine ⟨[], List.suffix_refl _, rfl, loop_done ?_⟩
    rw [commentRound, char_bind hs]
    rfl
  | cons c s ih =>
    have hs' : s <:+ src.pattern := (List.suffix_cons c s).trans hs
    have hround : commentRound () src (σ.facing src l (c :: s)) =
        .ok (if Scalar.isLineTerminator c then .inr () else .inl (), σ.facing src l s) := by
      rw [commentRound, char_bind hs, List.head?_cons]
      exact bump_bind hs
    cases hc : Scalar.isLineTerminator c with
    | true =>
      rw [hc, if_pos rfl] at hround
      exact ⟨s, List.suffix_cons c s, by simp [Parser.skipFrom, hc], loop_done hround⟩
    | false =>
      rw [hc, if_neg (by simp)] at hround
      obtain ⟨t, ht, hskip, hloop⟩ := ih hs'
      refine ⟨t, ht.trans (List.suffix_cons c s), by simpa [Parser.skipFrom, hc] using hskip, ?_⟩
      rw [loop_next hs (List.suffix_cons c s) (Nat.lt_succ_self _) hround, hloop]

/-- Blanks and comments are left at their end. -/
theorem loop_blankRound (hs : s <:+ src.pattern) :
    loop blankRound () src (σ.facing src l s) =
      .ok ((), σ.facing src l (Parser.skipFrom false s)) := by
  induction hlen : s.length using Nat.strongRecOn generalizing s with
  | ind n ih =>
    cases s with
    | nil =>
      refine loop_done ?_
      rw [blankRound, char_bind hs]
      rfl
    | cons c s =>
      have hc : s <:+ c :: s := List.suffix_cons c s
      by_cases hblank : Scalar.isBlank c = true
      · have hround : blankRound () src (σ.facing src l (c :: s)) =
            .ok (.inl (), σ.facing src l s) := by
          rw [blankRound, char_bind hs]
          simp only [List.head?_cons, if_pos hblank]
          exact bump_bind hs
        rw [loop_next hs hc (Nat.lt_succ_self _) hround,
          ih s.length (by simp [← hlen]) (hc.trans hs) rfl]
        simp [Parser.skipFrom, hblank]
      obtain rfl | hcomment := eq_or_ne c '#'
      · obtain ⟨t, ht, hskip, hloop⟩ := loop_commentRound (σ := σ) (l := l) (hc.trans hs)
        have hfirst : commentRound () src (σ.facing src l ('#' :: s)) =
            .ok (.inl (), σ.facing src l s) := by
          rw [commentRound, char_bind hs]
          exact bump_bind hs
        have hround : blankRound () src (σ.facing src l ('#' :: s)) =
            .ok (.inl (), σ.facing src l t) := by
          rw [blankRound, char_bind hs]
          simp only [List.head?_cons, if_neg hblank, if_pos]
          exact bind_ok ((loop_next hs hc (Nat.lt_succ_self _) hfirst).trans hloop)
        have hlt : t.length < ('#' :: s).length := Nat.lt_succ_of_le ht.length_le
        rw [loop_next hs (ht.trans hc) hlt hround, ih t.length (hlen ▸ hlt)
          (ht.trans (hc.trans hs)) rfl, ← hskip]
        simp [Parser.skipFrom, hblank]
      · refine loop_done ?_
        rw [blankRound, char_bind hs]
        simp only [List.head?_cons, if_neg hblank, if_neg hcomment]
        simp only [Parser.skipFrom, if_neg hblank, if_neg hcomment]
        rfl

theorem skipSpace_bind {β : Type} {k : Unit → Walk β} (hs : s <:+ src.pattern) :
    (skipSpace >>= k) src (σ.facing src l s) =
      k () src (σ.facing src l (Parser.skip σ.opts.extended s)) := by
  refine bind_ok ?_
  rw [skipSpace, options_bind, facing_opts, ite_run, Parser.skip]
  split
  · exact loop_blankRound hs
  · rfl

/-! ### Numbers -/

theorem drop_length_takeWhile {α : Type} (p : α → Bool) (s : List α) :
    s.drop (s.takeWhile p).length = s.dropWhile p := by
  have h : (s.takeWhile p ++ s.dropWhile p).drop (s.takeWhile p).length = s.dropWhile p :=
    List.drop_left
  rwa [List.takeWhile_append_dropWhile] at h

theorem digit?_isSome {c : Char} : (Scalar.digit? 10 c).isSome = c.isDigit := by
  have hdigit : c.isDigit = true ↔ 0x30 ≤ c.toNat ∧ c.toNat ≤ 0x39 := by
    rw [Char.isDigit, Bool.and_eq_true, decide_eq_true_eq, decide_eq_true_eq]
    rfl
  rw [Bool.eq_iff_iff, hdigit, Option.isSome_iff_exists, Scalar.digit?]
  simp only [Scalar.isBetween, Bool.and_eq_true, decide_eq_true_eq, Option.filter_eq_some_iff]
  constructor
  · rintro ⟨d, hd, hlt⟩
    split_ifs at hd with hdecimal hupper hlower
    · exact hdecimal
    · cases hd
      omega
    · cases hd
      omega
  · intro h
    exact ⟨c.toNat - 0x30, if_pos h, by omega⟩

theorem numberOf_append_singleton {base d : Nat} (digits : List Char) {c : Char}
    (hd : Scalar.digit? base c = some d) :
    Parser.numberOf base (digits ++ [c]) = Parser.numberOf base digits * base + d := by
  simp [Parser.numberOf, hd]

/-- More digits make no smaller number. -/
theorem numberOf_le_append {base : Nat} (hbase : 0 < base) (digits more : List Char) :
    Parser.numberOf base digits ≤ Parser.numberOf base (digits ++ more) := by
  induction more generalizing digits with
  | nil => simp
  | cons c more ih =>
    rw [List.append_cons]
    refine Nat.le_trans ?_ (ih (digits ++ [c]))
    rw [Parser.numberOf, Parser.numberOf, List.foldl_append]
    exact Nat.le_trans (Nat.le_mul_of_pos_right _ hbase) (Nat.le_add_right _ _)

/-- What digits write, if there are digits. -/
def numeral? (digits : List Char) : Option Nat :=
  if digits.isEmpty then none else some (Parser.numberOf 10 digits)

theorem numeral?_getD {digits : List Char} :
    (numeral? digits).getD 0 = Parser.numberOf 10 digits := by
  cases digits <;> rfl

/-- Digits after others are read to their end, unless the number is too large. -/
theorem loop_decimalRound {start : Nat} (hs : s <:+ src.pattern) (digits : List Char)
    (hle : Parser.numberOf 10 digits ≤ Parser.maxCount) :
    loop (decimalRound start) (numeral? digits) src (σ.facing src l s) =
      if Parser.numberOf 10 (digits ++ s.takeWhile Char.isDigit) > Parser.maxCount then
        .error (.failure ⟨.countTooLarge, start⟩)
      else .ok (numeral? (digits ++ s.takeWhile Char.isDigit),
        σ.facing src l (s.dropWhile Char.isDigit)) := by
  induction s generalizing digits with
  | nil =>
    rw [List.takeWhile_nil, List.append_nil, if_neg (by omega)]
    refine loop_done ?_
    rw [decimalRound, char_bind hs]
    rfl
  | cons c s ih =>
    have hc : s <:+ c :: s := List.suffix_cons c s
    have hdigit := digit?_isSome (c := c)
    cases hd : Scalar.digit? 10 c with
    | none =>
      rw [hd] at hdigit
      rw [List.takeWhile_cons_of_neg (by simp [← hdigit]), List.append_nil, if_neg (by omega),
        List.dropWhile_cons_of_neg (by simp [← hdigit])]
      refine loop_done ?_
      rw [decimalRound, char_bind hs]
      simp only [List.head?_cons, Option.bind_some, hd]
      rfl
    | some d =>
      rw [hd] at hdigit
      have hnumber := numberOf_append_singleton digits hd
      rw [List.takeWhile_cons_of_pos hdigit.symm, List.append_cons,
        List.dropWhile_cons_of_pos hdigit.symm]
      by_cases hlarge : Parser.numberOf 10 (digits ++ [c]) > Parser.maxCount
      · rw [if_pos (Nat.lt_of_lt_of_le hlarge (numberOf_le_append (by decide) _ _))]
        refine loop_error ?_
        rw [decimalRound, char_bind hs]
        simp only [List.head?_cons, Option.bind_some, hd, numeral?_getD, ← hnumber, if_pos hlarge]
        rfl
      · have hround : decimalRound start (numeral? digits) src (σ.facing src l (c :: s)) =
            .ok (.inl (numeral? (digits ++ [c])), σ.facing src l s) := by
          rw [decimalRound, char_bind hs]
          simp only [List.head?_cons, Option.bind_some, hd, numeral?_getD, ← hnumber,
            if_neg hlarge]
          rw [numeral?, if_neg (by simp)]
          exact bump_bind hs
        rw [loop_next hs hc (Nat.lt_succ_self _) hround,
          ih (hc.trans hs) (digits ++ [c]) (by omega)]

theorem decimal_apply (hs : s <:+ src.pattern) :
    decimal src (σ.facing src l s) =
      if Parser.numberOf 10 (s.takeWhile Char.isDigit) > Parser.maxCount then
        .error (.failure ⟨.countTooLarge, place src.pattern s⟩)
      else .ok (numeral? (s.takeWhile Char.isDigit), σ.facing src l (s.dropWhile Char.isDigit)) :=
  loop_decimalRound hs [] (by decide)

variable [hl : Within src.pattern l]

theorem decimal_agrees (hs : s <:+ src.pattern) :
    Agrees src σ s (·.value) (fun _ => l) (·.rest) (Parser.count? s)
      (decimal src (σ.facing src l s)) := by
  rw [decimal_apply hs, Parser.count?.eq_def]
  simp only [drop_length_takeWhile]
  split
  · exact .error _ hs
  · exact .ok _ (List.dropWhile_suffix _)

/-! ### Option letters -/

theorem exists_ofLetter? {c : Char} (hc : Parser.groupFlags.contains c = true) :
    ∃ o, Options.ofLetter? c = some o := by
  simp only [Parser.groupFlags, List.contains_cons, List.contains_nil, Bool.or_false,
    Bool.or_eq_true, beq_iff_eq] at hc
  rcases hc with rfl | rfl | rfl | rfl | rfl | rfl <;> exact ⟨_, rfl⟩

theorem loop_flagsRound (hs : s <:+ src.pattern) (acc : Parser.Flags) (negated : Bool) :
    Agrees src σ s (·.value) (fun _ => l) (·.rest) (Parser.flags s acc negated)
      (loop flagsRound (acc, negated) src (σ.facing src l s)) := by
  induction s generalizing acc negated with
  | nil =>
    rw [loop_eq_bind, flagsRound, bind_assoc, char_bind hs]
    exact .failHere hs
  | cons c s ih =>
    have hc : s <:+ c :: s := List.suffix_cons c s
    rw [loop_eq_bind, flagsRound, bind_assoc, char_bind hs, Parser.flags.eq_def, facing_pos]
    simp only [List.head?_cons]
    refine .test_bind (fun _ => ?_) fun _ => ?_
    · rw [bind_assoc, bump_bind hs]
      exact .ok _ hc
    refine .test_bind (fun _ => ?_) fun _ => ?_
    · rw [bind_assoc, bump_bind hs, pure_bind, proceed_inl hs hc (Nat.lt_succ_self _)]
      exact .map (.mono (ih (hc.trans hs) acc true) hc)
    refine .test_bind (fun hletter => ?_) fun _ => ?_
    · obtain ⟨o, ho⟩ := exists_ofLetter? hletter
      simp only [ho]
      rw [bind_assoc, bump_bind hs, pure_bind, proceed_inl hs hc (Nat.lt_succ_self _)]
      exact .map (.mono (ih (hc.trans hs) _ negated) hc)
    · exact .failHere hs

theorem flags_agrees (hs : s <:+ src.pattern) :
    Agrees src σ s (·.value) (fun _ => l) (·.rest) (Parser.flags s {} false)
      (flags src (σ.facing src l s)) := loop_flagsRound hs {} false

theorem isPrefixOf_two {a b : Char} :
    [a, b].isPrefixOf s = true ↔ ∃ t, s = a :: b :: t := by
  rw [List.isPrefixOf_iff_prefix]
  exact ⟨fun ⟨t, ht⟩ => ⟨t, ht.symm⟩, fun ⟨t, ht⟩ => ⟨t, ht.symm⟩⟩

/-- Two characters of one byte each are passed by an offset that is larger by
two. -/
theorem place_two {a b : Char} (hs : a :: b :: s <:+ src.pattern) (ha : a.utf8Size = 1)
    (hb : b.utf8Size = 1) : place src.pattern (a :: b :: s) + 2 = place src.pattern s := by
  rw [← place_add [a, b] hs, utf8Length_cons, utf8Length_cons, ha, hb]
  rfl

/-- Letters with a colon after them are read once more, from the parenthesis on. -/
theorem leadingFlags_agrees (hs : s <:+ src.pattern) :
    Agrees src σ s (·.map (·.value)) (fun _ => l) (fun r => (r.map (·.rest)).getD s)
      (Parser.leadingFlags σ.opts s) (leadingFlags src (σ.facing src l s)) := by
  have hnone : Agrees src σ s (·.map (·.value)) (fun _ => l) (fun r => (r.map (·.rest)).getD s)
      (.ok (none : Option (Parser.Consumed Parser.Flags s))) (.ok (none, σ.facing src l s)) :=
    .ok _ (List.suffix_refl _)
  have hback (t : List Char) : Agrees src σ s (·.map (·.value)) (fun _ => l)
      (fun r => (r.map (·.rest)).getD s) (.ok (none : Option (Parser.Consumed Parser.Flags s)))
      ((moveTo (place src.pattern s) >>= fun _ => pure none) src (σ.facing src l t)) := by
    rw [moveTo_bind hs]
    exact hnone
  rw [leadingFlags, options_bind, peekIs_bind hs, facing_opts, ite_run]
  by_cases hplain : (σ.opts.xmlSchema || !(['(', '?'].isPrefixOf s)) = true
  · rw [if_pos hplain, Parser.leadingFlags.eq_def]
    split
    · rw [if_neg (by simp_all)]
      exact hnone
    · exact hnone
  · obtain ⟨hxml, hopens⟩ : σ.opts.xmlSchema = false ∧ ['(', '?'].isPrefixOf s = true := by
      simpa using hplain
    obtain ⟨t, rfl⟩ := isPrefixOf_two.mp hopens
    have ht : t <:+ '(' :: '?' :: t := List.suffix_append ['(', '?'] t
    rw [if_neg hplain, here_bind, facing_pos, place_two hs rfl rfl, moveTo_bind (ht.trans hs),
      char_bind (ht.trans hs)]
    cases t with
    | nil => exact hback _
    | cons c t =>
      have hletter : startsFlags (c :: t).head? =
          (c = '-' || Parser.groupFlags.contains c : Bool) := rfl
      simp only [Parser.leadingFlags, hxml, ← hletter, Bool.not_false, Bool.true_and]
      refine .test (fun _ => ?_) fun _ => hback _
      refine (flags_agrees (ht.trans hs)).bind_map fun r hr => ?_
      rw [ite_run]
      split
      · exact hback _
      · exact .ok (some _) (hr.trans ht)

/-! ### Quantifiers -/

section

variable {start : List Char} {min : Nat} {max : Option Nat}

theorem boundsEnd_close (hstart : start <:+ src.pattern) (ht : '\x7d' :: t <:+ src.pattern)
    (hlt : ('\x7d' :: t).length ≤ s.length) (hsuffix : t <:+ s) :
    Agrees src σ s (·.value) (fun _ => l) (·.rest)
      (if max.any (min > ·) then Parser.fail .countReversed start
        else .ok (⟨(min, max), t, hlt⟩ : Parser.Consumed _ s))
      (boundsEnd (place src.pattern start) min max src (σ.facing src l ('\x7d' :: t))) := by
  rw [boundsEnd, char_bind ht, if_pos List.head?_cons, bump_bind ht]
  exact .test (fun _ => .failAt hstart) fun _ => .ok _ hsuffix

omit hl in
theorem boundsEnd_open {α : Type} {value : α → Nat × Option Nat} {ledger : α → Parser.Ledger}
    {rest : α → List Char} {n : Nat} (ht : t <:+ src.pattern) (hhead : t.head? ≠ some '\x7d') :
    Agrees src σ s value ledger rest (Parser.fail .countMalformed t)
      (boundsEnd n min max src (σ.facing src l t)) := by
  rw [boundsEnd, char_bind ht, if_neg hhead]
  exact .failHere ht

end

theorem bounds_agrees (hs : '\x7b' :: s <:+ src.pattern) :
    Agrees src σ s (·.value) (fun _ => l) (·.rest) (Parser.bounds ('\x7b' :: s) s)
      (bounds src (σ.facing src l ('\x7b' :: s))) := by
  have hs' : s <:+ src.pattern := tail_suffix hs
  have hhead {c : Char} {t : List Char} {n : Nat} {ht : t.length ≤ n}
      (hne : ∀ (rest : List Char) (h : (c :: rest).length ≤ n), t = c :: rest → ht ≍ h → False) :
      t.head? ≠ some c := head?_ne fun rest h => by
    subst h
    exact hne rest ht rfl HEq.rfl
  rw [bounds, here_bind, bump_bind hs, facing_pos, Parser.bounds.eq_def]
  refine (decimal_agrees hs').bind fun ⟨min?, t, hle⟩ ht => ?_
  cases min? with
  | none => exact .failHere (ht.trans hs')
  | some min =>
    simp only
    rw [char_bind (ht.trans hs')]
    split
    · rw [if_pos List.head?_cons, bump_bind (ht.trans hs')]
      refine (decimal_agrees (tail_suffix (ht.trans hs'))).bind fun ⟨max?, t, hle⟩ ht' => ?_
      replace ht := ht'.trans (tail_suffix ht)
      simp only
      split
      · exact boundsEnd_close hs (ht.trans hs') _ (tail_suffix ht)
      · rename_i hne
        exact boundsEnd_open (ht.trans hs') (hhead hne)
    · rename_i hne
      rw [if_neg (hhead hne)]
      split
      · exact boundsEnd_close hs (ht.trans hs') _ (tail_suffix ht)
      · rename_i hne
        exact boundsEnd_open (ht.trans hs') (hhead hne)

theorem quantifier?_agrees (hs : s <:+ src.pattern) :
    Agrees src σ s (·.map (·.value)) (fun _ => l) (fun r => (r.map (·.rest)).getD s)
      (Parser.quantifier? s) (quantifier? src (σ.facing src l s)) := by
  rw [quantifier?, char_bind hs, Parser.quantifier?.eq_def]
  split
  · rw [if_pos List.head?_cons, bump_bind hs]
    exact .ok (some _) (List.suffix_cons _ _)
  · rw [if_neg (by simp), if_pos List.head?_cons, bump_bind hs]
    exact .ok (some _) (List.suffix_cons _ _)
  · rw [if_neg (by simp), if_neg (by simp), if_pos List.head?_cons, bump_bind hs]
    exact .ok (some _) (List.suffix_cons _ _)
  · rw [if_neg (by simp), if_neg (by simp), if_neg (by simp), if_pos List.head?_cons]
    exact .map (.mono (.map_walk (bounds_agrees hs)) (List.suffix_cons _ _))
  · rename_i hstar hplus hoption hcounted
    rw [if_neg (head?_ne hstar), if_neg (head?_ne hplus), if_neg (head?_ne hoption),
      if_neg (head?_ne hcounted)]
    exact .ok none (List.suffix_refl s)

theorem startsQuantifier_head? :
    Parser.startsQuantifier s.head?.toList = Parser.startsQuantifier s := by
  cases s <;> rfl

theorem repeated_agrees {p : Pattern} {min : Nat} {max : Option Nat} {greedy : Bool}
    (ht : t <:+ s) (hs : s <:+ src.pattern)
    (hle : (Parser.skip σ.opts.extended t).length ≤ s.length) :
    Agrees src σ s (·.value) (fun _ => l) (·.rest)
      (if Parser.startsQuantifier (Parser.skip σ.opts.extended t) then
          Parser.fail .repetitionMissing (Parser.skip σ.opts.extended t)
        else .ok (⟨.repetition p min max greedy, Parser.skip σ.opts.extended t, hle⟩ :
          Parser.Scanned Pattern s))
      (repeated p min max greedy src (σ.facing src l t)) := by
  have hskip : Parser.skip σ.opts.extended t <:+ s := (skip_suffix _).trans ht
  rw [repeated, skipSpace_bind (ht.trans hs), char_bind (hskip.trans hs),
    startsQuantifier_head?]
  exact .test (fun _ => .failHere (hskip.trans hs)) fun _ => .ok _ hskip

theorem quantified_agrees (hs : s <:+ src.pattern) (p : Pattern) :
    Agrees src σ s (·.value) (fun _ => l) (·.rest) (Parser.quantified σ.opts p s)
      (quantified p src (σ.facing src l s)) := by
  have hskip : Parser.skip σ.opts.extended s <:+ s := skip_suffix _
  rw [quantified, skipSpace_bind hs, Parser.quantified.eq_def]
  refine (quantifier?_agrees (hskip.trans hs)).bind fun q hq => ?_
  cases q with
  | none => exact .ok _ hskip
  | some q =>
    obtain ⟨⟨min, max⟩, t, hlt⟩ := q
    replace hq : t <:+ s := hq.trans hskip
    simp only [Option.map_some, Option.getD_some]
    rw [greediness, bind_assoc, char_bind (hq.trans hs)]
    split
    · rw [if_pos List.head?_cons, bind_assoc, options_bind, facing_opts]
      refine .test_bind (fun _ => ?_) fun _ => ?_
      · exact .failHere (hq.trans hs)
      · rw [bind_assoc, bump_bind (hq.trans hs), pure_bind]
        exact repeated_agrees (tail_suffix hq) hs _
    · rename_i hne
      have hhead : t.head? ≠ some '?' := head?_ne fun rest h => by
        subst h
        exact hne rest hlt rfl HEq.rfl
      rw [if_neg hhead, pure_bind]
      exact repeated_agrees hq hs _

/-! ### Escapes -/

variable {start : List Char}

/-- The hexadecimal digits at the start of a text, no more than so many. -/
def hexDigits (most : Nat) (s : List Char) : List Char :=
  (s.take most).takeWhile fun c => (Scalar.digit? 16 c).isSome

theorem hexDigits_cons {c : Char} {n : Nat} (hc : (Scalar.digit? 16 c).isSome) :
    hexDigits (n + 1) (c :: s) = c :: hexDigits n s := by
  rw [hexDigits, List.take_succ_cons, List.takeWhile_cons, if_pos hc]
  rfl

omit hl in
/-- Digits after others are read as far as they may go. -/
theorem loop_hexRound {most : Nat} (hs : s <:+ src.pattern) (digits : List Char) (room : Nat)
    (hroom : digits.length + room = most) :
    loop (hexRound most) (Parser.numberOf 16 digits, digits.length) src (σ.facing src l s) =
      .ok ((Parser.numberOf 16 (digits ++ hexDigits room s), (digits ++ hexDigits room s).length),
        σ.facing src l (s.drop (hexDigits room s).length)) := by
  induction s generalizing digits room with
  | nil =>
    rw [hexDigits, List.take_nil, List.takeWhile_nil, List.append_nil]
    refine loop_done ?_
    rw [hexRound, ite_run, char_bind hs]
    split <;> rfl
  | cons c s ih =>
    cases room with
    | zero =>
      rw [hexDigits, List.take_zero, List.takeWhile_nil, List.append_nil]
      refine loop_done ?_
      rw [hexRound, if_neg (by omega)]
      rfl
    | succ room =>
      cases hd : Scalar.digit? 16 c with
      | none =>
        rw [hexDigits, List.take_succ_cons, List.takeWhile_cons_of_neg (by simp [hd]),
          List.append_nil]
        refine loop_done ?_
        rw [hexRound, if_pos (by omega), char_bind hs]
        simp only [List.head?_cons, Option.bind_some, hd]
        rfl
      | some d =>
        have hround : hexRound most (Parser.numberOf 16 digits, digits.length) src
            (σ.facing src l (c :: s)) = .ok (.inl (Parser.numberOf 16 (digits ++ [c]),
              (digits ++ [c]).length), σ.facing src l s) := by
          rw [hexRound, if_pos (by omega), char_bind hs]
          simp only [List.head?_cons, Option.bind_some, hd]
          rw [bump_bind hs, numberOf_append_singleton digits hd, List.length_append]
          rfl
        rw [loop_next hs (List.suffix_cons c s) (Nat.lt_succ_self _) hround,
          ih (tail_suffix hs) (digits ++ [c]) room (by simp; omega),
          hexDigits_cons (by simp [hd]), List.append_cons digits c (hexDigits room s)]
        rfl

theorem hexChar_agrees {least most : Nat} (hstart : start <:+ src.pattern)
    (hs : s <:+ src.pattern) :
    Agrees src σ s (·.value) (fun _ => l) (·.rest) (Parser.hexChar least most start s)
      (hexChar least most (place src.pattern start) src (σ.facing src l s)) := by
  have hloop : loop (hexRound most) (0, 0) src (σ.facing src l s) =
      .ok ((Parser.numberOf 16 (hexDigits most s), (hexDigits most s).length),
        σ.facing src l (s.drop (hexDigits most s).length)) :=
    loop_hexRound hs [] most (Nat.zero_add _)
  rw [hexChar, bind_ok hloop, Parser.hexChar.eq_def]
  change Agrees _ _ _ _ _ _ (if (hexDigits most s).length < least then _ else
    if (Parser.numberOf 16 (hexDigits most s)).isValidChar then _ else _) _
  refine .test (fun _ => .failAt hstart) fun _ => ?_
  exact .test (fun _ => .ok _ (List.drop_suffix _ _)) fun _ => .failAt hstart

theorem codePointChar_agrees (hstart : start <:+ src.pattern) (hs : s <:+ src.pattern) :
    Agrees src σ s (·.value) (fun _ => l) (·.rest) (Parser.codePointChar start s)
      (codePointChar (place src.pattern start) src (σ.facing src l s)) := by
  rw [codePointChar, char_bind hs, Parser.codePointChar.eq_def]
  split
  · rw [if_pos List.head?_cons, bump_bind hs]
    refine (hexChar_agrees hstart (tail_suffix hs)).bind fun ⟨c, t, hle⟩ ht => ?_
    simp only
    rw [char_bind (ht.trans (tail_suffix hs))]
    split
    · rw [if_pos List.head?_cons, bump_bind (ht.trans (tail_suffix hs))]
      exact .ok _ ((tail_suffix ht).trans (List.suffix_cons _ _))
    · rename_i hne
      have hhead : t.head? ≠ some '\x7d' := head?_ne fun rest h => by
        subst h
        exact hne rest hle rfl HEq.rfl
      rw [if_neg hhead]
      exact .failAt hstart
  · rename_i hne
    rw [if_neg (head?_ne hne)]
    exact hexChar_agrees hstart hs

theorem controlChar_agrees (hstart : start <:+ src.pattern) (hs : s <:+ src.pattern) :
    Agrees src σ s (·.value) (fun _ => l) (·.rest) (Parser.controlChar start s)
      (controlChar (place src.pattern start) src (σ.facing src l s)) := by
  rw [controlChar, char_bind hs, Parser.controlChar.eq_def]
  cases s with
  | nil => exact .failAt hstart
  | cons c s =>
    simp only [List.head?_cons]
    refine .test (fun _ => ?_) fun _ => .failAt hstart
    rw [bump_bind hs]
    exact .ok _ (List.suffix_cons _ _)

theorem charEscape_agrees (hstart : start <:+ src.pattern) (hs : s <:+ src.pattern) :
    Agrees src σ s (·.value) (fun _ => l) (·.rest) (Parser.charEscape σ.opts start s)
      (charEscape (place src.pattern start) src (σ.facing src l s)) := by
  rw [charEscape, char_bind hs, Parser.charEscape.eq_def]
  cases s with
  | nil => exact .failAt hstart
  | cons c s =>
    have hc : s <:+ c :: s := List.suffix_cons c s
    have further {r : Parser.Scans Char s} {w : Walk Char}
        (h : Agrees src σ s (·.value) (fun _ => l) (·.rest) r (w src (σ.facing src l s))) :
        Agrees src σ (c :: s) (·.value) (fun _ => l) (·.rest)
          (r.map Parser.Scanned.behind : Parser.Reads Char (c :: s)) (w src (σ.facing src l s)) :=
      .map (.mono h hc)
    simp only [List.head?_cons]
    rw [bump_bind hs]
    refine .test (fun hn => ?_) fun _ => ?_
    · exact .ok _ hc
    refine .test (fun hr => ?_) fun _ => ?_
    · exact .ok _ hc
    refine .test (fun ht => ?_) fun _ => ?_
    · exact .ok _ hc
    refine .test (fun hescapable => ?_) fun _ => ?_
    · exact .ok _ hc
    rw [options_bind, facing_opts]
    refine .test (fun hxml => ?_) fun _ => ?_
    · exact .failAt hstart
    refine .test (fun hf => ?_) fun _ => ?_
    · exact .ok _ hc
    refine .test (fun he => ?_) fun _ => ?_
    · exact .ok _ hc
    refine .test (fun hx => ?_) fun _ => ?_
    · exact further (codePointChar_agrees hstart (tail_suffix hs))
    refine .test (fun hu => ?_) fun _ => ?_
    · exact further (hexChar_agrees hstart (tail_suffix hs))
    refine .test (fun hv => ?_) fun _ => ?_
    · exact further (hexChar_agrees hstart (tail_suffix hs))
    refine .test (fun hcontrol => ?_) fun _ => ?_
    · exact further (controlChar_agrees hstart (tail_suffix hs))
    exact .test (fun _ => .ok _ hc) fun _ => .failAt hstart

omit hl in
/-- A name is read up to the brace behind it. -/
theorem loop_nameRound {n : Nat} (hs : s <:+ src.pattern) (name : List Char) :
    loop (nameRound n) name src (σ.facing src l s) =
      if (s.dropWhile (· ≠ '\x7d')).isEmpty then .error (.failure ⟨.propertyMalformed, n⟩)
      else .ok (name ++ s.takeWhile (· ≠ '\x7d'), σ.facing src l (s.dropWhile (· ≠ '\x7d'))) := by
  induction s generalizing name with
  | nil =>
    refine loop_error ?_
    rw [nameRound, char_bind hs]
    rfl
  | cons c s ih =>
    by_cases hclose : c = '\x7d'
    · rw [List.dropWhile_cons_of_neg (by simpa using hclose),
        List.takeWhile_cons_of_neg (by simpa using hclose), List.append_nil]
      refine loop_done ?_
      rw [nameRound, char_bind hs]
      simp only [List.head?_cons, if_pos hclose]
      rfl
    · have hround : nameRound n name src (σ.facing src l (c :: s)) =
          .ok (.inl (name ++ [c]), σ.facing src l s) := by
        rw [nameRound, char_bind hs]
        simp only [List.head?_cons, if_neg hclose]
        exact bump_bind hs
      rw [loop_next hs (List.suffix_cons c s) (Nat.lt_succ_self _) hround,
        ih (tail_suffix hs) (name ++ [c]), List.dropWhile_cons_of_pos (by simpa using hclose),
        List.takeWhile_cons_of_pos (by simpa using hclose),
        List.append_cons name c (s.takeWhile _)]

theorem property_agrees (hs : s <:+ src.pattern) :
    Agrees src σ s (·.value) (fun _ => l) (·.rest) (Parser.property s)
      (property src (σ.facing src l s)) := by
  rw [property, here_bind, facing_pos, char_bind hs, Parser.property.eq_def]
  split
  · rename_i body
    have hbody : body <:+ src.pattern := tail_suffix hs
    rw [if_pos List.head?_cons, bump_bind hs]
    have hloop := loop_nameRound (σ := σ) (l := l)
      (n := place src.pattern ('\x7b' :: body)) hbody []
    rw [← drop_length_takeWhile, List.nil_append] at hloop
    simp only
    split
    · rename_i heq
      rw [heq] at hloop
      rw [bind_error hloop]
      exact .error _ hs
    · rename_i close t heq
      rw [heq] at hloop
      have ht : close :: t <:+ body := heq ▸ List.drop_suffix _ _
      rw [bind_ok hloop, bump_bind (ht.trans hbody)]
      refine .test (fun _ => .failAt hs) fun _ => ?_
      split
      · rename_i hfind
        rw [hfind]
        exact .ok _ ((tail_suffix ht).trans (List.suffix_cons _ _))
      · rename_i hfind
        rw [hfind]
        exact .failAt hs
  · rename_i hne
    rw [if_neg (head?_ne hne)]
    exact .failHere hs

omit hl in
/-- Whether an escape is one for a control character is seen without reading it. -/
theorem isControlEscape_bind {β : Type} {c : Char} {k : Bool → Walk β}
    (hs : c :: s <:+ src.pattern) :
    (isControlEscape c >>= k) src (σ.facing src l (c :: s)) =
      k (c = 'c' && !σ.opts.xmlSchema && (s.head?.map Parser.isControlLetter).getD false) src
        (σ.facing src l (c :: s)) := by
  refine bind_ok ?_
  rw [isControlEscape, options_bind, facing_opts, ite_run]
  split
  · rename_i hcontrol
    obtain rfl : c = 'c' := by simp_all
    have hplace : place src.pattern ('c' :: s) + 1 = place src.pattern s := place_cons hs
    rw [here_bind, facing_pos, hplace, slice_bind (tail_suffix hs), hcontrol]
    rfl
  · rename_i hcontrol
    rw [eq_false_of_ne_true hcontrol]
    rfl

theorem classEscape_agrees {c : Char} (hs : c :: s <:+ src.pattern) :
    Agrees src σ (c :: s) (·.map (·.value)) (fun _ => l) (fun r => (r.map (·.rest)).getD (c :: s))
      (Parser.classEscape σ.opts (c :: s)) (classEscape c src (σ.facing src l (c :: s))) := by
  have hnone : Agrees src σ (c :: s) (·.map (·.value)) (fun _ => l)
      (fun r => (r.map (·.rest)).getD (c :: s))
      (.ok (none : Option (Parser.Consumed CharSet (c :: s))))
      (.ok (none, σ.facing src l (c :: s))) :=
    .ok _ (List.suffix_refl _)
  rw [classEscape, isControlEscape_bind hs, Parser.classEscape.eq_def]
  simp only
  refine .test (fun hcontrol => ?_) fun _ => ?_
  · exact hnone
  refine .test (fun hletter => ?_) fun _ => ?_
  · rw [bump_bind hs, options_bind]
    exact .ok (some _) (List.suffix_cons _ _)
  refine .test (fun hproperty => ?_) fun _ => ?_
  · rw [bump_bind hs]
    exact (property_agrees (tail_suffix hs)).bind_map fun r hr =>
      .ok (some _) (hr.trans (List.suffix_cons _ _))
  · exact hnone

theorem escape_agrees (hs : s <:+ src.pattern) (hne : s ≠ []) :
    Agrees src σ s (·.value.1) (·.value.2) (·.rest) (Parser.escape σ.opts l s)
      (escape src (σ.facing src l s)) := by
  rw [escape, here_bind, facing_pos, Parser.escape.eq_def]
  split
  · exact absurd rfl hne
  · rw [bump_bind hs, char_bind (tail_suffix hs)]
    exact .failAt hs
  · rename_i backslash c t
    have hc : c :: t <:+ backslash :: c :: t := List.suffix_cons _ _
    have ht : t <:+ backslash :: c :: t := tail_suffix hc
    have hcharacter := (charEscape_agrees (σ := σ) (l := l) hs (hc.trans hs)).mono hc
    rw [bump_bind hs, char_bind (hc.trans hs)]
    refine (classEscape_agrees (hc.trans hs)).bind fun set hset => ?_
    cases set with
    | some set => exact .found _ (hset.trans hc) hl
    | none =>
      simp only [Option.map_none, Option.getD_none]
      rw [options_bind, facing_opts]
      refine .test (fun hxml => ?_) fun _ => ?_
      · exact .map (.map_walk hcharacter)
      cases Parser.escapedAnchor? c with
      | some a =>
        simp only
        rw [bump_bind (hc.trans hs)]
        exact .found _ ht hl
      | none =>
        cases Scalar.digit? 10 c with
        | some n =>
          simp only
          rw [bump_bind (hc.trans hs), refer_bind]
          exact .found _ ht (hl.refer hs)
        | none =>
          simp only
          refine .test (fun hX => ?_) fun _ => ?_
          · rw [bump_bind (hc.trans hs)]
            exact .found _ ht hl
          refine .test (fun hg => ?_) fun _ => ?_
          · rw [bump_bind (hc.trans hs)]
            exact .found _ ht hl
          · exact .map (.map_walk hcharacter)

end Cursor

end Regexp.Pattern
