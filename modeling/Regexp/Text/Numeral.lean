/-!
# Numerals

## Main definitions

* `Numeral.decimal` — a number in decimal digits.
* `Numeral.hex` — a number in hexadecimal digits, as few as possible.
-/

namespace Regexp.Numeral

/-- The digit of a value below sixteen, with letters in upper case. -/
def upperDigit (d : Nat) : Char :=
  if d < 10 then Char.ofNat ('0'.toNat + d) else Char.ofNat ('A'.toNat + (d - 10))

/-- The digits of a number in a base, the last digit first.  Zero has one digit. -/
def digitsRev (base n : Nat) (hbase : 1 < base) : List Nat :=
  if n < base then [n] else n % base :: digitsRev base (n / base) hbase
  termination_by n
  decreasing_by exact Nat.div_lt_self (by omega) hbase

/-- A number in decimal digits. -/
def decimal (n : Nat) : List Char := ((digitsRev 10 n (by decide)).map upperDigit).reverse

/-- A number in hexadecimal digits with upper case letters. -/
def hex (n : Nat) : List Char := ((digitsRev 16 n (by decide)).map upperDigit).reverse

/-- A number in hexadecimal digits with lower case letters. -/
def lowerHex (n : Nat) : List Char := (hex n).map Char.toLower

end Regexp.Numeral
