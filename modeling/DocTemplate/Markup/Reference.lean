import DocTemplate.Markup.Error
import DocTemplate.Text.Numeral
import DocTemplate.Text.Utf8

/-!
# Character references

In character data and in attribute values the characters of markup are written
as references: five names, and the numbers of characters in decimal or
hexadecimal digits.
-/

namespace DocTemplate
namespace Markup

/-- The greatest number that a reference can write. -/
def maxNumber : Nat := Nat.pow 2 32 - 1

/-- Reads digits from the left.  The first digit that is none or that makes
the number too large decides. -/
def readNumber (base value : Nat) : List Char → Except ReferenceProblem Nat
  | [] => .ok value
  | c :: rest =>
      match Text.digitOf? base c with
      | none => .error .badDigit
      | some digit =>
          if maxNumber < base * value + digit then
            .error .tooLarge
          else
            readNumber base (base * value + digit) rest

/-- Reads a number in a base. -/
def number (base : Nat) : List Char → Except ReferenceProblem Nat
  | [] => .error .noDigits
  | '+' :: _ => .error .signed
  | '-' :: _ => .error .signed
  | digits => readNumber base 0 digits

/-- The character of a number. -/
def character (value : Nat) : Except ReferenceProblem Char :=
  if value = 0 then
    .error .nullCharacter
  else if h : value.isValidChar then
    .ok (Char.ofNatAux value h)
  else
    .error (.noCodepoint value)

/-- The characters that have a name. -/
def named? (name : List Char) : Option Char :=
  if name = ['l', 't'] then some '<'
  else if name = ['g', 't'] then some '>'
  else if name = ['a', 'm', 'p'] then some '&'
  else if name = ['a', 'p', 'o', 's'] then some '\''
  else if name = ['q', 'u', 'o', 't'] then some '"'
  else none

/-- The character that stands between an ampersand and its semicolon.
`offset` counts the bytes up to the ampersand. -/
def dereference (offset : Nat) (body : List Char) :
    Except ReferenceProblem Char :=
  match body with
  | '#' :: 'x' :: digits => number 16 digits >>= character
  | '#' :: digits => number 10 digits >>= character
  | name =>
      match named? name with
      | some c => .ok c
      | none =>
          .error <| .unknown (offset + 1) (offset + 1 + Text.byteCount name)
            (String.ofList name)

/-- Whether a character ends the body of a reference. -/
def endsReference (c : Char) : Bool := c = '&' || c = ';'

/-- Replaces the references of a text that starts behind `offset` bytes. -/
def unescapeFrom (offset : Nat) (text : List Char) :
    Except ReferenceProblem (List Char) :=
  match text with
  | [] => .ok []
  | '&' :: rest =>
      let body := rest.takeWhile (!endsReference ·)
      match _htail : rest.dropWhile (!endsReference ·) with
      | ';' :: tail => do
          let c ← dereference offset body
          let behind ←
            unescapeFrom (offset + Text.byteCount body + 2) tail
          return c :: behind
      | _ => .error (.unterminated offset (offset + Text.byteCount text))
  | c :: rest => do
      let behind ← unescapeFrom (offset + c.utf8Size) rest
      return c :: behind
  termination_by text.length
  decreasing_by
    · have := (List.dropWhile_sublist (!endsReference ·) (l := rest)).length_le
      rw [_htail] at this
      simp only [List.length_cons] at *
      omega
    · simp

/-- A text with its references replaced. -/
def unescape (text : List Char) : Except ReferenceProblem String :=
  (unescapeFrom 0 text).map String.ofList

end Markup
end DocTemplate
