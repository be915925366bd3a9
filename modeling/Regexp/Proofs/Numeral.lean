import Mathlib.Algebra.Order.Ring.Nat
import Regexp.Pattern.Parser
import Regexp.Proofs.Acceptance
import Regexp.Text.Numeral

/-!
# Numerals that are read back

A number that is written in digits is what these digits are read as.  Numbers
are written in two bases, by the same function, and read in three places: as the
count of a repetition, as a code point in braces, and as the number of a group.

`Numeral.numberOf_digits` is the statement for any base up to sixteen, by
induction on the number.  The places that read numbers stop at the first
character that is no digit, or after so many digits; so what has to be known
besides is which characters digits are, and that a code point has at most six
(`Numeral.length_hex_le`).

## Main statements

* `Numeral.numberOf_digits` — digits denote the number they were made of.
* `Numeral.decimal_isDigit`, `Numeral.hex_isSome` — which characters digits are.
* `Pattern.Parser.count_decimal` — a decimal number is read as a count.
* `Pattern.Parser.codePointChar_hex` — a code point in braces is read as its
  character.
-/

namespace Regexp

namespace Numeral

variable {base d n k : Nat} {hbase : 1 < base}

/-- The digits of a number are below the base. -/
theorem lt_of_mem_digitsRev (h : d ∈ digitsRev base n hbase) : d < base := by
  fun_induction digitsRev base n hbase with
  | case1 n hn => exact List.mem_singleton.mp h ▸ hn
  | case2 n hn ih =>
    rcases List.mem_cons.mp h with rfl | h
    · exact Nat.mod_lt _ (by omega)
    · exact ih h

theorem digitsRev_ne_nil : digitsRev base n hbase ≠ [] := by
  rw [digitsRev]
  split <;> exact List.cons_ne_nil _ _

/-- A number below a power of the base has no more digits than that. -/
theorem length_digitsRev_le (hk : 0 < k) (h : n < base ^ k) :
    (digitsRev base n hbase).length ≤ k := by
  induction k generalizing n with
  | zero => omega
  | succ k ih =>
    rw [digitsRev]
    split
    · simp
    · rename_i hn
      have hk : 0 < k := by
        rcases Nat.eq_zero_or_pos k with rfl | hk
        · simp at h
          omega
        · exact hk
      have hdiv : n / base < base ^ k := by
        rw [Nat.div_lt_iff_lt_mul (by omega)]
        exact h
      have := ih hk hdiv
      simp only [List.length_cons]
      omega

/-- The value of a digit below a base up to sixteen. -/
theorem digit?_upperDigit (hd : d < base) (hle : base ≤ 16) :
    Scalar.digit? base (upperDigit d) = some d := by
  have hvalue : ∀ d < 16, Scalar.digit? 16 (upperDigit d) = some d := by decide
  have h := hvalue d (Nat.lt_of_lt_of_le hd hle)
  rw [Scalar.digit?, Option.filter_eq_some_iff] at h ⊢
  exact ⟨h.1, decide_eq_true hd⟩

/-- **Digits denote the number that they were made of.** -/
theorem numberOf_digits (hle : base ≤ 16) : Pattern.Parser.numberOf base
    ((digitsRev base n hbase).map upperDigit).reverse = n := by
  rw [Pattern.Parser.numberOf, List.foldl_reverse, List.foldr_map]
  fun_induction digitsRev base n hbase with
  | case1 n hn => simp [digit?_upperDigit hn hle]
  | case2 n hn ih =>
    rw [List.foldr_cons, ih, digit?_upperDigit (Nat.mod_lt _ (by omega)) hle, Option.getD_some]
    exact Nat.div_add_mod' n base

theorem numberOf_decimal (n : Nat) : Pattern.Parser.numberOf 10 (decimal n) = n :=
  numberOf_digits (by decide)

theorem numberOf_hex (n : Nat) : Pattern.Parser.numberOf 16 (hex n) = n :=
  numberOf_digits (by decide)

theorem decimal_ne_nil (n : Nat) : decimal n ≠ [] := by
  simp [decimal, digitsRev_ne_nil]

theorem hex_ne_nil (n : Nat) : hex n ≠ [] := by
  simp [hex, digitsRev_ne_nil]

theorem decimal_of_lt (h : n < 10) : decimal n = [upperDigit n] := by
  rw [decimal, digitsRev, if_pos h]
  rfl

/-- Decimal numbers consist of digits. -/
theorem decimal_isDigit {c : Char} (h : c ∈ decimal n) : c.isDigit = true := by
  simp only [decimal, List.mem_reverse, List.mem_map] at h
  obtain ⟨d, hd, rfl⟩ := h
  have hlt := lt_of_mem_digitsRev hd
  revert hlt
  clear hd
  revert d
  decide

/-- Hexadecimal numbers consist of hexadecimal digits. -/
theorem hex_isSome {c : Char} (h : c ∈ hex n) : (Scalar.digit? 16 c).isSome = true := by
  simp only [hex, List.mem_reverse, List.mem_map] at h
  obtain ⟨d, hd, rfl⟩ := h
  rw [digit?_upperDigit (lt_of_mem_digitsRev hd) (Nat.le_refl _)]
  rfl

/-- A code point has at most six digits. -/
theorem length_hex_le (c : Char) : (hex c.toNat).length ≤ 6 := by
  have hlt : c.toNat < 16 ^ 6 := by
    have hvalid := c.valid
    simp only [UInt32.isValidChar, Nat.isValidChar] at hvalid
    show c.val.toNat < 16 ^ 6
    omega
  have hlength : (digitsRev 16 c.toNat (by decide)).length ≤ 6 :=
    length_digitsRev_le (by decide) hlt
  simpa [hex] using hlength

end Numeral

namespace Pattern.Parser

variable {n : Nat} {rest : List Char}

/-- What is in front of something else is what passes a test, if that does not
pass it. -/
theorem takeWhile_append {test : Char → Bool} {cs : List Char} (h : ∀ c ∈ cs, test c = true)
    (hrest : ∀ c ∈ rest.head?, test c = false) : (cs ++ rest).takeWhile test = cs := by
  rw [List.takeWhile_append_of_pos h]
  cases rest with
  | nil => simp
  | cons c rest => simp [hrest c rfl]

/-- **A decimal number is read as a count.** -/
theorem count_decimal (rest : List Char) (hn : n ≤ maxCount)
    (hrest : ∀ c ∈ rest.head?, c.isDigit = false) :
    ScansTo (count? (Numeral.decimal n ++ rest)) (some n) rest := by
  have htake : (Numeral.decimal n ++ rest).takeWhile Char.isDigit = Numeral.decimal n :=
    takeWhile_append (fun c hc => Numeral.decimal_isDigit hc) hrest
  have hne : (Numeral.decimal n).isEmpty = false := by simp [Numeral.decimal_ne_nil]
  rw [count?]
  simp only [htake, Numeral.numberOf_decimal, Nat.not_lt.mpr hn, hne, List.drop_left]
  exact ⟨_, rfl⟩

/-- **A code point in braces is read as its character.** -/
theorem codePointChar_hex (c : Char) (start rest : List Char) :
    ScansTo (codePointChar start ('\x7b' :: (Numeral.hex c.toNat ++ '\x7d' :: rest))) c rest := by
  have hhex : ∀ d ∈ Numeral.hex c.toNat, (Scalar.digit? 16 d).isSome = true :=
    fun d hd => Numeral.hex_isSome hd
  -- There is room for all digits, and the brace is none.
  have htake : ((Numeral.hex c.toNat ++ '\x7d' :: rest).take 6).takeWhile
      (fun d => (Scalar.digit? 16 d).isSome) = Numeral.hex c.toNat := by
    rw [List.take_append, List.take_of_length_le (Numeral.length_hex_le c)]
    refine takeWhile_append hhex fun d hd => ?_
    cases hroom : 6 - (Numeral.hex c.toNat).length with
    | zero => simp [hroom] at hd
    | succ k =>
      simp only [hroom, List.take_succ_cons, List.head?_cons, Option.mem_some_iff] at hd
      rw [← hd]
      decide
  have hpos : ¬ (Numeral.hex c.toNat).length < 1 := by
    have := List.length_pos_iff.mpr (Numeral.hex_ne_nil c.toNat)
    omega
  have hread : ScansTo (hexChar 1 6 start (Numeral.hex c.toNat ++ '\x7d' :: rest)) c
      ('\x7d' :: rest) := by
    rw [hexChar]
    simp only [htake, Numeral.numberOf_hex, if_neg hpos, List.drop_left]
    rw [if_pos (show c.toNat.isValidChar from c.valid), Char.ofNat_toNat]
    exact ⟨_, rfl⟩
  obtain ⟨hle, hread⟩ := hread
  rw [codePointChar]
  simp only [hread]
  exact ⟨_, rfl⟩

end Pattern.Parser

end Regexp
