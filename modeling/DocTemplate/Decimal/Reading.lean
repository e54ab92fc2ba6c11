import DocTemplate.Decimal.Binary
import DocTemplate.Text.Blank
import DocTemplate.Text.Numeral

/-!
# Reading floating-point numbers

The text of a number is an optional sign and then either digits with an
optional point and an optional power of ten, or one of the names `inf`,
`infinity` and `nan` in any case.  The point may stand first or last as long
as there is a digit.  Every such text reads: one too large is infinite.
-/

namespace DocTemplate
namespace Decimal

/-- A decimal number `digits · 10 ^ exponent`. -/
structure DecimalNumber where
  digits : Nat
  exponent : Int
deriving DecidableEq, Repr

/-- How many decimal digits a natural has. -/
def digitCount (value : Nat) : Nat := (Nat.toDigits 10 value).length

/-- The power of ten behind a letter `e`, or none for the empty text. -/
def exponent? : List Char → Option Int
  | [] => some 0
  | letter :: text =>
      if letter = 'e' || letter = 'E' then
        match text with
        | '-' :: digits => (Text.digits? digits).map fun value => -(value : Int)
        | '+' :: digits => (Text.digits? digits).map Int.ofNat
        | digits => (Text.digits? digits).map Int.ofNat
      else
        none

/-- Reads an unsigned decimal number. -/
def decimal? (text : List Char) : Option DecimalNumber :=
  let whole := text.takeWhile Char.isDigit
  let behind := text.dropWhile Char.isDigit
  let (fraction, tail) :=
    match behind with
    | '.' :: rest => (rest.takeWhile Char.isDigit, rest.dropWhile Char.isDigit)
    | rest => ([], rest)
  if whole.isEmpty && fraction.isEmpty then
    none
  else
    (exponent? tail).map fun exponent =>
      ⟨Text.digitsValue (whole ++ fraction), exponent - fraction.length⟩

/-- A power of ten beyond which every number overflows or vanishes in all
formats used here. -/
def reach : Int := 400

/-- The number of a format nearest to a decimal number. -/
def DecimalNumber.toBinary (format : BinaryFormat) (negative : Bool)
    (number : DecimalNumber) : BinaryNumber :=
  let magnitude := number.exponent + digitCount number.digits
  if number.digits = 0 || magnitude < -reach then
    .finite negative 0 format.leastUnit
  else if reach < magnitude then
    .infinite negative
  else if 0 ≤ number.exponent then
    format.nearest negative
      (number.digits * Nat.pow 10 number.exponent.toNat) 1
  else
    format.nearest negative number.digits (Nat.pow 10 (-number.exponent).toNat)

/-- Reads a floating-point number. -/
def number? (format : BinaryFormat) (text : String) : Option BinaryNumber :=
  let (negative, body) :=
    match text.toList with
    | '-' :: rest => (true, rest)
    | '+' :: rest => (false, rest)
    | rest => (false, rest)
  match decimal? body with
  | some number => some (number.toBinary format negative)
  | none =>
      match Text.lower (String.ofList body) with
      | "inf" | "infinity" => some (.infinite negative)
      | "nan" => some .notANumber
      | _ => none

end Decimal
end DocTemplate
