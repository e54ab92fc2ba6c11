/-!
# Decimal numerals

Sizes, widths, weights and margins are written as plain decimal numerals: at
least one ASCII digit, an optional sign, nothing else.  Each kind of numeral
has a greatest value, and one above it does not read.
-/

namespace DocTemplate
namespace Text

/-- The greatest value of a count of units: widths, percentages, weights. -/
def maxCount : Nat := Nat.pow 2 32 - 1

/-- The greatest length of a run of blanks that can be written. -/
def maxLength : Nat := Nat.pow 2 64 - 1

/-- The value of a list of decimal digits. -/
def digitsValue (digits : List Char) : Nat :=
  digits.foldl (fun value digit => 10 * value + (digit.toNat - '0'.toNat)) 0

/-- The value of a hexadecimal digit. -/
def hexDigit? (c : Char) : Option Nat :=
  if c.isDigit then some (c.toNat - '0'.toNat)
  else if 'a' ≤ c ∧ c ≤ 'f' then some (c.toNat - 'a'.toNat + 10)
  else if 'A' ≤ c ∧ c ≤ 'F' then some (c.toNat - 'A'.toNat + 10)
  else none

/-- The value of a digit in a base up to sixteen. -/
def digitOf? (base : Nat) (c : Char) : Option Nat :=
  (hexDigit? c).filter (· < base)

/-- Reads one or more decimal digits. -/
def digits? (text : List Char) : Option Nat :=
  if !text.isEmpty && text.all Char.isDigit then
    some (digitsValue text)
  else
    none

/-- Reads a numeral without a sign or with a plus sign, up to `bound`. -/
def natural? (bound : Nat) (text : String) : Option Nat :=
  let body :=
    match text.toList with
    | '+' :: digits => digits
    | digits => digits
  (digits? body).filter (· ≤ bound)

/-- Reads a numeral with an optional sign in the range of 32-bit integers. -/
def integer? (text : String) : Option Int :=
  match text.toList with
  | '-' :: digits =>
      ((digits? digits).filter (· ≤ Nat.pow 2 31)).map fun value =>
        -(value : Int)
  | _ => (natural? (Nat.pow 2 31 - 1) text).map Int.ofNat

end Text
end DocTemplate
