import Regexp.Text.Numeral
import Regexp.Unicode.Printable

/-!
# Quoted text

## Main definitions

* `Quoted.encode` — a text in double quotes, with escapes for quotes,
  backslashes and what cannot be shown on its own.
-/

namespace Regexp.Quoted

/-- The written form of a character between double quotes. -/
def encodeChar (c : Char) : List Char :=
  if c = '\x00' then ['\\', '0']
  else if c = '\t' then ['\\', 't']
  else if c = '\r' then ['\\', 'r']
  else if c = '\n' then ['\\', 'n']
  else if c = '\\' || c = '"' then ['\\', c]
  else if Printable.extenders.contains c || Printable.hidden.contains c then
    ['\\', 'u', '\x7b'] ++ Numeral.lowerHex c.toNat ++ ['\x7d']
  else [c]

/-- A text in double quotes. -/
def encode (s : String) : String :=
  String.ofList (['"'] ++ s.toList.flatMap encodeChar ++ ['"'])

end Regexp.Quoted
