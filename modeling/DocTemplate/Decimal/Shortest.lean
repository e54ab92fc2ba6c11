import DocTemplate.Decimal.Reading

/-!
# The shortest text of a floating-point number

A number is written with the fewest digits that read back as the same number;
of two such texts the nearer one counts, and of two equally near ones the
larger.  The digits are written positionally whatever the magnitude, without a
point when the number is whole.
-/

namespace DocTemplate
namespace Decimal

/-- The decimal numbers that read as one floating-point number lie between two
bounds.  Value and bounds are given over one denominator; the bounds belong to
the range when `closed`. -/
structure RoundingRange where
  value : Nat
  low : Nat
  high : Nat
  denominator : Nat
  closed : Bool

/-- The range of a positive number.  Below the least significand of a unit
the neighbours are half as far. -/
def BinaryFormat.roundingRange (format : BinaryFormat)
    (significand : Nat) (unit : Int) : RoundingRange :=
  let below :=
    if significand = Nat.pow 2 (format.precision - 1) &&
        format.leastUnit < unit then
      1
    else
      2
  let (scale, denominator) := inUnits 1 1 (2 - unit)
  ⟨4 * significand * scale, (4 * significand - below) * scale,
    (4 * significand + 2) * scale, denominator, significand % 2 == 0⟩

namespace RoundingRange

/-- Whether `digits · 10 ^ exponent` lies in the range. -/
def holds (range : RoundingRange) (digits : Nat) (exponent : Int) : Bool :=
  let point :=
    if 0 ≤ exponent then
      digits * Nat.pow 10 exponent.toNat * range.denominator
    else
      digits * range.denominator
  let scale := if 0 ≤ exponent then 1 else Nat.pow 10 (-exponent).toNat
  let low := range.low * scale
  let high := range.high * scale
  if range.closed then
    low ≤ point && point ≤ high
  else
    low < point && point < high

/-- The exponent of the leading digit. -/
def leading (range : RoundingRange) : Int :=
  if range.denominator ≤ range.value then
    (digitCount (range.value / range.denominator) : Int) - 1
  else
    -(digitCount ((range.denominator - 1) / range.value) : Int)

/-- The neighbours of the value among the multiples of a power of ten: the
lower one, and whether the upper one is at least as near. -/
def neighbours (range : RoundingRange) (exponent : Int) : Nat × Bool :=
  let (top, bottom) :=
    if 0 ≤ exponent then
      (range.value, range.denominator * Nat.pow 10 exponent.toNat)
    else
      (range.value * Nat.pow 10 (-exponent).toNat, range.denominator)
  (top / bottom, bottom ≤ 2 * (top % bottom))

/-- The multiple of a power of ten that stands for the value: a neighbour in
the range, of two the nearer. -/
def onGrid? (range : RoundingRange) (exponent : Int) : Option Nat :=
  let (lower, upperNearer) := range.neighbours exponent
  match range.holds lower exponent, range.holds (lower + 1) exponent with
  | true, true => some (if upperNearer then lower + 1 else lower)
  | true, false => some lower
  | false, true => some (lower + 1)
  | false, false => none

/-- Tries ever finer powers of ten. -/
def search (range : RoundingRange) (exponent : Int) : Nat → DecimalNumber
  | 0 => ⟨(range.neighbours exponent).1, exponent⟩
  | tries + 1 =>
      match range.onGrid? exponent with
      | some digits => ⟨digits, exponent⟩
      | none => range.search (exponent - 1) tries

end RoundingRange

/-- The shortest decimal number that reads as a positive finite number. -/
def BinaryFormat.shortest (format : BinaryFormat)
    (significand : Nat) (unit : Int) : DecimalNumber :=
  let range := format.roundingRange significand unit
  range.search range.leading format.precision

/-- The digits of a decimal number written around its point. -/
def DecimalNumber.positional (number : DecimalNumber) : String :=
  let digits := (Nat.toDigits 10 number.digits)
  let digits :=
    if 0 ≤ number.exponent then
      digits ++ List.replicate number.exponent.toNat '0'
    else
      digits
  let places := if 0 ≤ number.exponent then 0 else (-number.exponent).toNat
  let padded := List.replicate (places + 1 - digits.length) '0' ++ digits
  let whole := padded.take (padded.length - places)
  let fraction :=
    ((padded.drop (padded.length - places)).reverse.dropWhile (· == '0')).reverse
  if fraction.isEmpty then
    String.ofList whole
  else
    String.ofList (whole ++ '.' :: fraction)

/-- The text of a floating-point number. -/
def BinaryNumber.text (format : BinaryFormat) : BinaryNumber → String
  | .notANumber => "NaN"
  | .infinite negative => if negative then "-inf" else "inf"
  | .finite negative significand unit =>
      let digits :=
        if significand = 0 then
          "0"
        else
          (format.shortest significand unit).positional
      if negative then "-" ++ digits else digits

end Decimal
end DocTemplate
