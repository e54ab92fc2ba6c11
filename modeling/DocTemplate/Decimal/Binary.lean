/-!
# Binary floating-point numbers

A width such as `33.3%` is read into a binary floating-point number and
written back from it, so its text is that of the nearest representable number.
A number is kept here as a significand and the exponent of its unit; rounding
a quotient of two naturals is exact arithmetic, nearest first and ties to the
even significand.
-/

namespace DocTemplate
namespace Decimal

/-- A binary format: how many bits a significand has, and the exponents of the
least and the greatest unit a significand can count. -/
structure BinaryFormat where
  precision : Nat
  leastUnit : Int
  greatestUnit : Int
deriving DecidableEq, Repr

/-- The format with 32 bits. -/
def single : BinaryFormat := ⟨24, -149, 104⟩

/-- The format with 64 bits. -/
def double : BinaryFormat := ⟨53, -1074, 971⟩

/-- A floating-point number; a finite one is `significand · 2 ^ unit`. -/
inductive BinaryNumber
  | notANumber
  | infinite (negative : Bool)
  | finite (negative : Bool) (significand : Nat) (unit : Int)
deriving DecidableEq, Repr

/-- The quotient of two naturals rounded to the nearest natural, a tie to the
even one. -/
def divideToEven (numerator denominator : Nat) : Nat :=
  let quotient := numerator / denominator
  let twice := 2 * (numerator % denominator)
  if twice < denominator then quotient
  else if denominator < twice then quotient + 1
  else quotient + quotient % 2

/-- The quotient `numerator / (denominator · 2 ^ unit)` as a pair of
naturals. -/
def inUnits (numerator denominator : Nat) (unit : Int) : Nat × Nat :=
  if 0 ≤ unit then
    (numerator, denominator * Nat.pow 2 unit.toNat)
  else
    (numerator * Nat.pow 2 (-unit).toNat, denominator)

namespace BinaryFormat

/-- The exponent of the unit in which a positive quotient has `precision`
significant bits, or the least one. -/
def unitOf (format : BinaryFormat) (numerator denominator : Nat) : Int :=
  let estimate : Int :=
    (numerator.log2 : Int) - denominator.log2 - format.precision
  let (top, bottom) := inUnits numerator denominator estimate
  let unit :=
    if top / bottom < Nat.pow 2 format.precision then
      estimate
    else
      estimate + 1
  max unit format.leastUnit

/-- The number nearest to a quotient. -/
def nearest (format : BinaryFormat) (negative : Bool)
    (numerator denominator : Nat) : BinaryNumber :=
  if numerator = 0 then
    .finite negative 0 format.leastUnit
  else
    let unit := format.unitOf numerator denominator
    let (top, bottom) := inUnits numerator denominator unit
    let rounded := divideToEven top bottom
    let (significand, unit) :=
      if rounded = Nat.pow 2 format.precision then
        (Nat.pow 2 (format.precision - 1), unit + 1)
      else
        (rounded, unit)
    if format.greatestUnit < unit then
      .infinite negative
    else
      .finite negative significand unit

end BinaryFormat
end Decimal
end DocTemplate
