import DocTemplate.Text.Blank
import DocTemplate.Text.Numeral
import DocTemplate.Toml.Value

/-!
# Dates and times of TOML

A date, a time of day, or both, which may then have an offset from universal
time.  A time of day has seconds and may have a fraction of them, of which
nine digits count.  The normal text has the letter `T` between date and time,
and no zeros at the end of a fraction.
-/

namespace DocTemplate
namespace Toml

structure Date where
  year : Nat
  month : Nat
  day : Nat
deriving DecidableEq, Repr

/-- A time of day.  A minute may have a leap second. -/
structure TimeOfDay where
  hour : Nat
  minute : Nat
  second : Nat
  nanosecond : Nat
deriving DecidableEq, Repr

/-- How far a clock is ahead of universal time. -/
inductive Offset
  | universal
  | ahead (minutes : Int)
deriving DecidableEq, Repr

/-! ## Text -/

/-- A number in so many decimal places, with zeros in front. -/
def padded (places value : Nat) : String :=
  let digits := Nat.toDigits 10 value
  String.ofList (List.replicate (places - digits.length) '0' ++ digits)

def Date.text (date : Date) : String :=
  padded 4 date.year ++ "-" ++ padded 2 date.month ++ "-"
    ++ padded 2 date.day

/-- A fraction of a second without the zeros at its end. -/
def fractionText (nanosecond : Nat) : String :=
  if nanosecond = 0 then ""
  else
    String.ofList <|
      '.' :: Text.dropTrailing (· = '0') (padded 9 nanosecond).toList

def TimeOfDay.text (time : TimeOfDay) : String :=
  padded 2 time.hour ++ ":" ++ padded 2 time.minute ++ ":"
    ++ padded 2 time.second ++ fractionText time.nanosecond

def Offset.text : Offset → String
  | .universal => "Z"
  | .ahead minutes =>
      let size := minutes.natAbs
      (if minutes < 0 then "-" else "+") ++ padded 2 (size / 60) ++ ":"
        ++ padded 2 (size % 60)

/-! ## Reading -/

/-- A number of exactly so many digits within bounds. -/
def places? (count least greatest : Nat) : Reader Nat := fun text => do
  let digits := text.take count
  if digits.length = count then
    let value ← Text.digits? digits
    if least ≤ value ∧ value ≤ greatest then
      some (value, text.drop count)
    else
      none
  else
    none

def isLeapYear (year : Nat) : Bool :=
  year % 4 = 0 && (year % 100 ≠ 0 || year % 400 = 0)

def daysOfMonth (year month : Nat) : Nat :=
  if month = 2 then
    if isLeapYear year then 29 else 28
  else if month = 4 ∨ month = 6 ∨ month = 9 ∨ month = 11 then 30
  else 31

def date? : Reader Date := fun text => do
  let (year, text) ← places? 4 0 9999 text
  let text ← behindMark? ['-'] text
  let (month, text) ← places? 2 1 12 text
  let text ← behindMark? ['-'] text
  let (day, text) ← places? 2 1 (daysOfMonth year month) text
  return (⟨year, month, day⟩, text)

/-- The fraction behind a second, in nanoseconds. -/
def nanoseconds? : Reader Nat
  | '.' :: text =>
      let digits := text.takeWhile Char.isDigit
      if digits.isEmpty then
        none
      else
        let counted := (digits ++ List.replicate 9 '0').take 9
        some (Text.digitsValue counted, text.drop digits.length)
  | text => some (0, text)

def timeOfDay? : Reader TimeOfDay := fun text => do
  let (hour, text) ← places? 2 0 23 text
  let text ← behindMark? [':'] text
  let (minute, text) ← places? 2 0 59 text
  let text ← behindMark? [':'] text
  let (second, text) ← places? 2 0 60 text
  let (nanosecond, text) ← nanoseconds? text
  return (⟨hour, minute, second, nanosecond⟩, text)

def offset? : Reader Offset
  | 'Z' :: text => some (.universal, text)
  | 'z' :: text => some (.universal, text)
  | sign :: text =>
      if sign = '+' || sign = '-' then do
        let (hours, text) ← places? 2 0 23 text
        let text ← behindMark? [':'] text
        let (minutes, text) ← places? 2 0 59 text
        let size : Int := 60 * hours + minutes
        return (.ahead (if sign = '-' then -size else size), text)
      else
        none
  | [] => none

/-- Whether a character stands between a date and a time of day. -/
def isDelimiter (c : Char) : Bool := c = 'T' || c = 't' || c = ' '

/-- The time of day behind a date, and its offset. -/
def timeBehindDate? : Reader String
  | delimiter :: text =>
      if isDelimiter delimiter then do
        let (time, text) ← timeOfDay? text
        let timeText := "T" ++ time.text
        match offset? text with
        | some (offset, text) => some (timeText ++ offset.text, text)
        | none => some (timeText, text)
      else
        none
  | [] => none

/-- A date or a time as its normal text. -/
def moment? : Reader String := fun text =>
  match date? text with
  | some (date, text) =>
      match timeBehindDate? text with
      | some (time, text) => some (date.text ++ time, text)
      | none => some (date.text, text)
  | none => (timeOfDay? text).map fun (time, text) => (time.text, text)

/-- The normal text of the date or time that a text is as a whole. -/
def momentOfText? (text : String) : Option String :=
  match moment? text.toList with
  | some (normal, []) => some normal
  | _ => none

end Toml
end DocTemplate
