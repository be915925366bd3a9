import Regexp.Proofs.Numeral
import Regexp.Text.Escape

/-!
# Escaped text that is read back

The reader of escapes goes over a text character by character and keeps what it
has seen of an escape (`Escape.State`).  What it adds to the decoded text at a
character may be nothing, one character, or all that it has kept back, when that
turns out to be no escape.  So decoding does not commute with concatenation, and
the statement has to be about the state.

`Escape.State.run` is what several characters do to it, and
`Escape.decodeFrom_append` cuts the decoding of a text at any place.  The
written form of a character brings the reader from no escape to no escape again
and makes it add just that character (`Escape.run_encodeChar`); with both,
`Escape.decode_encode_append` is an induction on the text.  It holds whatever
text stands behind, since no escape is open there.

The one form that needs an argument is a code point in braces.  Its digits are
collected as long as there are no more than six, and a code point has no more,
so that the closing brace always finds them complete (`Escape.run_braceDigits`,
`Escape.run_codePoint`).

## Main definitions

* `Escape.State.run` — what several characters do to a reader of escapes.

## Main statements

* `Escape.decodeFrom_append` — a text is decoded up to any place first, and then
  from there on.
* `Escape.run_braceDigits` — digits in braces are collected.
* `Escape.run_encodeChar` — the written form of a character is read as the
  character.
* `Escape.decode_encode_append` — decoding undoes encoding, whatever follows.
-/

namespace Regexp.Escape

open Escape.State

variable {s : State} {c : Char} {cs ds : List Char}

/-! ### Several characters -/

/-- What several characters add to the decoded text, and what has been read of
an escape after them. -/
def State.run (s : State) : List Char → List Char × State
  | [] => ([], s)
  | c :: cs =>
    let (text, s) := s.next c
    let (rest, s) := s.run cs
    (text ++ rest, s)

@[simp] theorem run_nil (s : State) : s.run [] = ([], s) := rfl

theorem run_cons (s : State) (c : Char) (cs : List Char) :
    s.run (c :: cs) = ((s.next c).1 ++ ((s.next c).2.run cs).1, ((s.next c).2.run cs).2) := rfl

theorem run_append (s : State) (cs ds : List Char) :
    s.run (cs ++ ds) = ((s.run cs).1 ++ ((s.run cs).2.run ds).1, ((s.run cs).2.run ds).2) := by
  induction cs generalizing s with
  | nil => rfl
  | cons c cs ih => simp only [List.cons_append, run_cons, ih, List.append_assoc]

/-- A text is decoded up to any place first, and then from there on. -/
theorem decodeFrom_append (s : State) (cs ds : List Char) :
    decodeFrom s (cs ++ ds) = (s.run cs).1 ++ decodeFrom (s.run cs).2 ds := by
  induction cs generalizing s with
  | nil => rfl
  | cons c cs ih => simp only [List.cons_append, decodeFrom, run_cons, ih, List.append_assoc]

/-! ### Code points in braces -/

/-- Both readers of digits find the same number in them. -/
theorem hexValue_eq_numberOf (digits : List Char) :
    hexValue digits = Pattern.Parser.numberOf 16 digits := by
  simp only [hexValue, Pattern.Parser.numberOf, Nat.mul_comm 16]

/-- Digits in braces are collected, as long as there are no more than six. -/
theorem run_braceDigits (hdigits : ∀ c ∈ cs, isHexDigit c = true)
    (hlength : (ds ++ cs).length ≤ 6) :
    (braceDigits ds).run cs = ([], braceDigits (ds ++ cs)) := by
  induction cs generalizing ds with
  | nil => simp
  | cons c cs ih =>
    have hroom : ds.length < 6 := by
      simp only [List.length_append, List.length_cons] at hlength
      omega
    have hnext : (braceDigits ds).next c = ([], braceDigits (ds ++ [c])) := by
      simp [State.next, hdigits c List.mem_cons_self, hroom]
    have hrest : (braceDigits (ds ++ [c])).run cs = ([], braceDigits (ds ++ [c] ++ cs)) :=
      ih (fun d hd => hdigits d (List.mem_cons_of_mem c hd)) (by simpa using hlength)
    rw [run_cons, hnext, hrest]
    simp

/-- The digits of a code point stand for its character. -/
theorem next_braceDigits_hex (c : Char) :
    (braceDigits (Numeral.hex c.toNat)).next '\x7d' = ([c], plain) := by
  have hdigit : isHexDigit '\x7d' = false := by decide
  have hvalue : hexValue (Numeral.hex c.toNat) = c.toNat := by
    rw [hexValue_eq_numberOf, Numeral.numberOf_hex]
  have hvalid : c.toNat.isValidChar := c.valid
  simp [State.next, hdigit, hvalue, hvalid, Numeral.hex_ne_nil]

/-- A code point in braces is read as its character. -/
theorem run_codePoint (c : Char) :
    plain.run (['\\', 'u', '\x7b'] ++ Numeral.hex c.toNat ++ ['\x7d']) = ([c], plain) := by
  have hopen : plain.run ['\\', 'u', '\x7b'] = ([], braceDigits []) := rfl
  have hdigits : (braceDigits []).run (Numeral.hex c.toNat) =
      ([], braceDigits (Numeral.hex c.toNat)) :=
    run_braceDigits (fun _ hd => Numeral.hex_isSome hd) (Numeral.length_hex_le c)
  rw [run_append, run_append, hopen]
  simp only [hdigits, run_cons, next_braceDigits_hex]
  rfl

/-! ### Written forms -/

/-- **The written form of a character is read as the character**, and no escape
is open behind it.  The forms are a backslash with a letter, a code point in
braces, and the character as it is. -/
theorem run_encodeChar (c : Char) : plain.run (encodeChar c) = ([c], plain) := by
  unfold encodeChar
  split_ifs with _ _ _ hbackslash
  -- Four characters have a letter of their own.
  iterate 4
    subst c
    rfl
  · exact run_codePoint c
  · simp [run_cons, State.next, State.pending, hbackslash]

theorem run_encode (a : List Char) : plain.run (encode a) = (a, plain) := by
  induction a with
  | nil => rfl
  | cons c a ih =>
    have hcons : encode (c :: a) = encodeChar c ++ encode a := rfl
    rw [hcons, run_append, run_encodeChar, ih]
    rfl

/-- **Decoding undoes encoding, whatever follows.**  An escaped text in front of
any other text is read as the text that was escaped, and the other text as it is
read alone; in particular an escaped text alone is read as what was escaped. -/
theorem decode_encode_append (a b : List Char) :
    decode (encode a ++ b) = a ++ decode b ∧ decode (encode a) = a := by
  have happend : ∀ b, decode (encode a ++ b) = a ++ decode b := by
    intro b
    rw [decode, decodeFrom_append, run_encode]
    rfl
  refine ⟨happend b, ?_⟩
  have halone := happend []
  rwa [List.append_nil, show decode [] = [] from rfl, List.append_nil] at halone

/-- Behind an escaped text digits and a brace belong to what follows. -/
example : decode (encode ['\x1b', '\\', 'u'] ++ ['\x7b', '4', '1', '\x7d', '\\', 'n']) =
    ['\x1b', '\\', 'u', '\x7b', '4', '1', '\x7d', '\n'] := by decide +kernel

end Regexp.Escape
