import Regexp.Scalar
import Regexp.Text.Numeral

/-!
# Escaped text

Control characters and backslashes are written as escapes, so that a text fits
on one line (`Escape.encode`).  Reading takes these escapes and two hexadecimal
forms, and leaves everything else as it is (`Escape.decode`): a backslash that
begins no escape stands for itself, with all that was read behind it.

The reader is a machine with the part of an escape that has been read as its
state (`Escape.State`).  At each character it either goes on with the escape,
ends it, or finds that it is none and gives back its text
(`Escape.State.pending`).  It never looks ahead, and there is no text that it
refuses.

## Main definitions

* `Escape.encode` — a text with escapes for what cannot be seen.
* `Escape.State`, `Escape.State.next` — the reader, and what it does at a
  character.
* `Escape.decode` — the text that a text with escapes stands for.
-/

namespace Regexp.Escape

/-- The written form of a character. -/
def encodeChar (c : Char) : List Char :=
  if c = '\n' then ['\\', 'n']
  else if c = '\r' then ['\\', 'r']
  else if c = '\t' then ['\\', 't']
  else if c = '\\' then ['\\', '\\']
  else if Scalar.isControl c then ['\\', 'u', '\x7b'] ++ Numeral.hex c.toNat ++ ['\x7d']
  else [c]

/-- A text with escapes for what cannot be seen. -/
def encode (s : List Char) : List Char := s.flatMap encodeChar

/-- The part of an escape that has been read. -/
inductive State where
  /-- No escape. -/
  | plain
  /-- A backslash. -/
  | backslash
  /-- A backslash and `x`. -/
  | hex
  /-- A backslash, `x` and a digit. -/
  | hexDigit (a : Char)
  /-- A backslash and `u`. -/
  | brace
  /-- A backslash, `u`, a brace and digits. -/
  | braceDigits (digits : List Char)

/-- The text of the part of an escape that has been read. -/
def State.pending : State → List Char
  | plain => []
  | backslash => ['\\']
  | hex => ['\\', 'x']
  | hexDigit a => ['\\', 'x', a]
  | brace => ['\\', 'u']
  | braceDigits digits => ['\\', 'u', '\x7b'] ++ digits

/-- Whether a character is a hexadecimal digit. -/
def isHexDigit (c : Char) : Bool := (Scalar.digit? 16 c).isSome

/-- The number that hexadecimal digits write. -/
def hexValue (digits : List Char) : Nat :=
  digits.foldl (fun n c => 16 * n + (Scalar.digit? 16 c).getD 0) 0

/-- What a character adds to the decoded text, and what has been read of an
escape after it.  A character that an escape cannot go on with makes plain text
of the escape and of itself. -/
def State.next (s : State) (c : Char) : List Char × State :=
  let literally := (s.pending ++ [c], State.plain)
  match s with
  | plain => if c = '\\' then ([], .backslash) else literally
  | backslash =>
    match c with
    | '\\' => (['\\'], .plain)
    | 'n' => (['\n'], .plain)
    | 'r' => (['\r'], .plain)
    | 't' => (['\t'], .plain)
    | 'x' => ([], .hex)
    | 'u' => ([], .brace)
    | _ => literally
  | hex => if isHexDigit c then ([], .hexDigit c) else literally
  | hexDigit a => if isHexDigit c then ([Char.ofNat (hexValue [a, c])], .plain) else literally
  | brace => if c = '\x7b' then ([], .braceDigits []) else literally
  | braceDigits digits =>
    if isHexDigit c && digits.length < 6 then ([], .braceDigits (digits ++ [c]))
    else if c = '\x7d' && !digits.isEmpty && (hexValue digits).isValidChar then
      ([Char.ofNat (hexValue digits)], .plain)
    else literally

/-- The rest of the decoded text, after a part of an escape. -/
def decodeFrom : State → List Char → List Char
  | s, [] => s.pending
  | s, c :: cs => (s.next c).1 ++ decodeFrom (s.next c).2 cs

/-- The text that a text with escapes stands for. -/
def decode (s : List Char) : List Char := decodeFrom .plain s

end Regexp.Escape
