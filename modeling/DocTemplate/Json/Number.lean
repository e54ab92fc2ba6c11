import DocTemplate.Json.Error
import DocTemplate.Decimal.Reading

/-!
# JSON numbers

A number is read for its extent and for one question only, whether it is too
large for a floating-point number of 64 bits.  The question is answered on the
leading digits that fit into a 64-bit natural and a power of ten.
-/

namespace DocTemplate
namespace Json

/-- The digits of a number as far as they fit, and the power of ten of the
last of them. -/
structure Magnitude where
  significand : Nat
  exponent : Int
deriving DecidableEq, Repr

namespace Magnitude

def push (value : Nat) (digit : Char) : Nat :=
  10 * value + (digit.toNat - '0'.toNat)

/-- The magnitude of a whole number. -/
def ofWhole (value : Nat) : List Char → Magnitude
  | [] => ⟨value, 0⟩
  | digit :: rest =>
      if Text.maxLength < push value digit then
        ⟨value, (digit :: rest).length⟩
      else
        ofWhole (push value digit) rest

/-- Adds the digits behind the point as long as they fit. -/
def withFraction (magnitude : Magnitude) : List Char → Magnitude
  | [] => magnitude
  | digit :: rest =>
      if Text.maxLength < push magnitude.significand digit then
        magnitude
      else
        withFraction
          ⟨push magnitude.significand digit, magnitude.exponent - 1⟩ rest

def scaled (magnitude : Magnitude) (power : Int) : Magnitude :=
  { magnitude with exponent := magnitude.exponent + power }

/-- Whether the product of the nearest floating-point numbers of the digits
and of the power of ten is infinite. -/
def isTooLarge (magnitude : Magnitude) : Bool :=
  if magnitude.significand = 0 || magnitude.exponent < 0 then
    false
  else if 308 < magnitude.exponent then
    true
  else
    let power :=
      Decimal.double.nearest false (Nat.pow 10 magnitude.exponent.toNat) 1
    let digits := Decimal.double.nearest false magnitude.significand 1
    match digits, power with
    | .finite _ first firstUnit, .finite _ second secondUnit =>
        let (top, bottom) :=
          Decimal.inUnits (first * second) 1 (-(firstUnit + secondUnit))
        match Decimal.double.nearest false top bottom with
        | .infinite _ => true
        | _ => false
    | _, _ => true

end Magnitude

/-- The greatest power of ten that is added up digit by digit. -/
def maxPower : Nat := Nat.pow 2 31 - 1

/-- How many digits of a power of ten have been taken in when it exceeds
`maxPower`. -/
def powerOverflow? (value : Nat) : List Char → Option Nat
  | [] => none
  | digit :: rest =>
      if maxPower < Magnitude.push value digit then
        some 1
      else
        (powerOverflow? (Magnitude.push value digit) rest).map (· + 1)

/-- The text behind a number that is complete. -/
def endNumber (offset : Nat) (magnitude : Magnitude) (rest : List Char) :
    Except Fault (List Char) :=
  if magnitude.isTooLarge then
    .error ⟨.numberTooLarge, offset, true⟩
  else
    .ok rest

/-- The text behind the power of ten of a number, from behind its sign. -/
def scanPowerDigits (negative : Bool) (offset : Nat) (magnitude : Magnitude)
    (text : List Char) : Except Fault (List Char) :=
  let digits := text.takeWhile Char.isDigit
  let rest := text.dropWhile Char.isDigit
  if text.isEmpty then
    .error ⟨.valueEnds, offset, false⟩
  else if digits.isEmpty then
    .error ⟨.malformedNumber, offset + 1, false⟩
  else
    match powerOverflow? 0 digits with
    | some count =>
        if magnitude.significand = 0 || negative then
          .ok rest
        else
          .error ⟨.numberTooLarge, offset + count, false⟩
    | none =>
        let power : Int := Text.digitsValue digits
        endNumber (offset + digits.length)
          (magnitude.scaled (if negative then -power else power)) rest

/-- The text behind the power of ten of a number, from behind its letter. -/
def scanPower (offset : Nat) (magnitude : Magnitude) :
    List Char → Except Fault (List Char)
  | '+' :: text => scanPowerDigits false (offset + 1) magnitude text
  | '-' :: text => scanPowerDigits true (offset + 1) magnitude text
  | text => scanPowerDigits false offset magnitude text

/-- The text behind a number, from behind its point and the digits after
it. -/
def scanTail (offset : Nat) (magnitude : Magnitude) :
    List Char → Except Fault (List Char)
  | letter :: rest =>
      if letter = 'e' || letter = 'E' then
        scanPower (offset + 1) magnitude rest
      else
        endNumber offset magnitude (letter :: rest)
  | [] => endNumber offset magnitude []

/-- The text behind a number, from behind its whole part. -/
def scanFraction (offset : Nat) (magnitude : Magnitude) :
    List Char → Except Fault (List Char)
  | '.' :: text =>
      let digits := text.takeWhile Char.isDigit
      if digits.isEmpty then
        if text.isEmpty then
          .error ⟨.valueEnds, offset + 1, false⟩
        else
          .error ⟨.malformedNumber, offset + 2, false⟩
      else
        scanTail (offset + 1 + digits.length)
          (magnitude.withFraction digits) (text.dropWhile Char.isDigit)
  | text => scanTail offset magnitude text

/-- The text behind a number without its sign. -/
def scanUnsigned (offset : Nat) (text : List Char) :
    Except Fault (List Char) :=
  match text with
  | [] => .error ⟨.valueEnds, offset, false⟩
  | '0' :: rest =>
      if (rest.head?.map Char.isDigit).getD false then
        .error ⟨.malformedNumber, offset + 2, false⟩
      else
        scanFraction (offset + 1) ⟨0, 0⟩ rest
  | first :: _ =>
      if first.isDigit then
        let digits := text.takeWhile Char.isDigit
        scanFraction (offset + digits.length)
          (.ofWhole 0 digits) (text.dropWhile Char.isDigit)
      else
        .error ⟨.malformedNumber, offset + 1, false⟩

/-- The text behind a number that starts at `offset`. -/
def scanNumber (offset : Nat) : List Char → Except Fault (List Char)
  | '-' :: rest => scanUnsigned (offset + 1) rest
  | text => scanUnsigned offset text

theorem length_dropWhile_le (p : Char → Bool) (text : List Char) :
    (text.dropWhile p).length ≤ text.length :=
  (List.dropWhile_sublist p).length_le

theorem endNumber_length {offset : Nat} {magnitude : Magnitude}
    {text rest : List Char} (h : endNumber offset magnitude text = .ok rest) :
    rest.length ≤ text.length := by
  unfold endNumber at h
  split at h <;> simp_all

theorem scanPowerDigits_length {negative : Bool} {offset : Nat}
    {magnitude : Magnitude} {text rest : List Char}
    (h : scanPowerDigits negative offset magnitude text = .ok rest) :
    rest.length ≤ text.length := by
  have hdrop := length_dropWhile_le Char.isDigit text
  simp only [scanPowerDigits] at h
  split at h
  · simp at h
  split at h
  · simp at h
  split at h
  · split at h
    · cases h
      exact hdrop
    · simp at h
  · exact Nat.le_trans (endNumber_length h) hdrop

theorem scanPower_length {offset : Nat} {magnitude : Magnitude}
    {text rest : List Char} (h : scanPower offset magnitude text = .ok rest) :
    rest.length ≤ text.length := by
  unfold scanPower at h
  split at h
  · exact Nat.le_succ_of_le (scanPowerDigits_length h)
  · exact Nat.le_succ_of_le (scanPowerDigits_length h)
  · exact scanPowerDigits_length h

theorem scanTail_length {offset : Nat} {magnitude : Magnitude}
    {text rest : List Char} (h : scanTail offset magnitude text = .ok rest) :
    rest.length ≤ text.length := by
  unfold scanTail at h
  split at h
  · split at h
    · have := scanPower_length h
      simp only [List.length_cons]
      omega
    · exact endNumber_length h
  · exact endNumber_length h

theorem scanFraction_length {offset : Nat} {magnitude : Magnitude}
    {text rest : List Char}
    (h : scanFraction offset magnitude text = .ok rest) :
    rest.length ≤ text.length := by
  unfold scanFraction at h
  split at h
  · rename_i body
    have := length_dropWhile_le Char.isDigit body
    dsimp only at h
    split at h
    · split at h <;> simp at h
    · have := scanTail_length h
      simp only [List.length_cons]
      omega
  · exact scanTail_length h

theorem scanUnsigned_length {offset : Nat} {text rest : List Char}
    (h : scanUnsigned offset text = .ok rest) :
    rest.length < text.length := by
  unfold scanUnsigned at h
  split at h
  · simp at h
  · split at h
    · simp at h
    · have := scanFraction_length h
      simp only [List.length_cons]
      omega
  · split at h
    · rename_i first body _ hdigit
      have := scanFraction_length h
      have := length_dropWhile_le Char.isDigit body
      simp only [List.dropWhile_cons, hdigit, if_true] at *
      simp only [List.length_cons]
      omega
    · simp at h

theorem scanNumber_length {offset : Nat} {text rest : List Char}
    (h : scanNumber offset text = .ok rest) :
    rest.length < text.length := by
  unfold scanNumber at h
  split at h
  · have := scanUnsigned_length h
    simp only [List.length_cons]
    omega
  · exact scanUnsigned_length h

end Json
end DocTemplate
