import DocTemplate.Decimal.Reading
import DocTemplate.Toml.Value

/-!
# Numbers of TOML

Whole numbers are decimal with an optional sign, or hexadecimal, octal or
binary behind `0x`, `0o` or `0b`; they have 64 bits.  A number with a fraction
or a power of ten is a floating-point number.  An underscore may stand between
two digits.  No decimal number starts with a needless zero.
-/

namespace DocTemplate
namespace Toml

/-! ## Digits -/

/-- Whether a character is a digit of a base. -/
def isDigitOf (base : Nat) (c : Char) : Bool := (Text.digitOf? base c).isSome

/-- The digits behind a digit, each with or without an underscore before it.
An underscore that no digit follows ends no number. -/
def moreDigits? (base : Nat) : Reader (List Char)
  | '_' :: c :: rest =>
      if isDigitOf base c then do
        let (behind, rest) ← moreDigits? base rest
        return (c :: behind, rest)
      else
        none
  | ['_'] => none
  | c :: rest =>
      if isDigitOf base c then do
        let (behind, rest) ← moreDigits? base rest
        return (c :: behind, rest)
      else
        some ([], c :: rest)
  | [] => some ([], [])

/-- One or more digits of a base, without the underscores between them. -/
def digits? (base : Nat) : Reader (List Char)
  | c :: rest =>
      if isDigitOf base c then do
        let (behind, rest) ← moreDigits? base rest
        return (c :: behind, rest)
      else
        none
  | [] => none

/-- The value of digits of a base. -/
def valueOf (base : Nat) (digits : List Char) : Nat :=
  digits.foldl (fun value c => base * value + (Text.hexDigit? c).getD 0) 0

/-- An optional sign; whether it is a minus. -/
def sign (text : List Char) : Bool × List Char :=
  match text with
  | '-' :: rest => (true, rest)
  | '+' :: rest => (false, rest)
  | _ => (false, text)

/-- The digits of a whole decimal number: a single zero or digits that do not
start with one. -/
def wholeDigits? : Reader (List Char)
  | '0' :: rest => some (['0'], rest)
  | text => digits? 10 text

/-! ## Whole numbers -/

/-- A whole number if it has 64 bits. -/
def integerOf? (negative : Bool) (magnitude : Nat) : Option Value :=
  if negative then
    if magnitude ≤ Nat.pow 2 63 then some (.integer (-magnitude)) else none
  else
    if magnitude < Nat.pow 2 63 then some (.integer magnitude) else none

/-- The base that a prefix names. -/
def basePrefix? : List Char → Option (Nat × List Char)
  | '0' :: 'x' :: rest => some (16, rest)
  | '0' :: 'o' :: rest => some (8, rest)
  | '0' :: 'b' :: rest => some (2, rest)
  | _ => none

def integer? : Reader Value := fun text =>
  match basePrefix? text with
  | some (base, rest) => do
      let (digits, rest) ← digits? base rest
      return (← integerOf? false (valueOf base digits), rest)
  | none => do
      let (negative, rest) := sign text
      let (digits, rest) ← wholeDigits? rest
      return (← integerOf? negative (valueOf 10 digits), rest)

/-! ## Floating-point numbers -/

/-- The digits behind a decimal point, if there is one. -/
def fraction? : Reader (Option (List Char))
  | '.' :: rest => do
      let (digits, rest) ← digits? 10 rest
      return (some digits, rest)
  | text => some (none, text)

/-- The power of ten behind a letter `e`, if there is one. -/
def power? : Reader (Option Int)
  | letter :: rest =>
      if letter = 'e' || letter = 'E' then do
        let (negative, rest) := sign rest
        let (digits, rest) ← digits? 10 rest
        let size : Int := valueOf 10 digits
        return (some (if negative then -size else size), rest)
      else
        some (none, letter :: rest)
  | [] => some (none, [])

/-- The floating-point number of digits around a point.  One that is too large
is refused if it is positive. -/
def floatOf? (negative : Bool) (whole fraction : List Char) (power : Int) :
    Option Value :=
  let number : Decimal.DecimalNumber :=
    ⟨valueOf 10 (whole ++ fraction), power - fraction.length⟩
  match number.toBinary Decimal.double negative with
  | .infinite false => none
  | found => some (.float found)

/-- Infinity or the value that is not a number. -/
def specialFloat? : Reader Value := fun text =>
  let (negative, rest) := sign text
  match rest with
  | 'i' :: 'n' :: 'f' :: rest => some (.float (.infinite negative), rest)
  | 'n' :: 'a' :: 'n' :: rest => some (.float .notANumber, rest)
  | _ => none

/-- A decimal number: a floating-point number if it has a fraction or a power
of ten, and else a whole one. -/
def decimalNumber? : Reader Value := fun text => do
  let (negative, rest) := sign text
  let (whole, rest) ← wholeDigits? rest
  let (fraction, rest) ← fraction? rest
  let (power, rest) ← power? rest
  match fraction, power with
  | none, none => integer? text
  | _, _ =>
      let value ← floatOf? negative whole (fraction.getD []) (power.getD 0)
      return (value, rest)

/-- A number of any kind. -/
def number? : Reader Value := fun text =>
  match specialFloat? text with
  | some found => some found
  | none =>
      match basePrefix? text with
      | some _ => integer? text
      | none => decimalNumber? text

end Toml
end DocTemplate
