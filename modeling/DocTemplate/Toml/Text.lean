import DocTemplate.Text.Numeral
import DocTemplate.Toml.Value

/-!
# Strings of TOML

A string stands between single or double quotes, on one line between one quote
and over several lines between three.  Only between double quotes does the
backslash escape something.  A line end right behind the opening quotes does
not count, and every line end inside is a single line feed.
-/

namespace DocTemplate
namespace Toml

/-- The value of hexadecimal digits. -/
def hexValue? (digits : List Char) : Option Nat :=
  digits.foldlM (fun value c => (Text.hexDigit? c).map (16 * value + ·)) 0

/-- The character of so many hexadecimal digits. -/
def numbered? (count : Nat) : Reader Char := fun text =>
  let digits := text.take count
  if digits.length = count then
    match hexValue? digits with
    | some value =>
        if h : value.isValidChar then
          some (Char.ofNatAux value h, text.drop count)
        else
          none
    | none => none
  else
    none

/-- The character of an escape, from behind its backslash. -/
def escaped? : Reader Char
  | 'b' :: rest => some ('\x08', rest)
  | 't' :: rest => some ('\t', rest)
  | 'n' :: rest => some ('\n', rest)
  | 'f' :: rest => some ('\x0c', rest)
  | 'r' :: rest => some ('\r', rest)
  | '"' :: rest => some ('"', rest)
  | '\\' :: rest => some ('\\', rest)
  | 'u' :: rest => numbered? 4 rest
  | 'U' :: rest => numbered? 8 rest
  | _ => none

/-- The text behind a backslash that ends its line: blanks and line ends up to
the next character do not count. -/
def behindLineEnd? (text : List Char) : Option (List Char) :=
  match behindNewline? (skipBlanks text) with
  | none => none
  | some rest => some (skipLines rest.length rest)
where
  /-- Skips blanks and line ends. -/
  skipLines : Nat → List Char → List Char
    | 0, text => text
    | fuel + 1, text =>
        match behindNewline? (skipBlanks text) with
        | some rest => skipLines fuel rest
        | none => skipBlanks text

/-- The inside of a string between double quotes, from behind the first. -/
def basic? : Nat → Reader (List Char)
  | 0, _ => none
  | fuel + 1, text =>
      match text with
      | '"' :: rest => some ([], rest)
      | '\\' :: rest => do
          let (c, rest) ← escaped? rest
          let (behind, rest) ← basic? fuel rest
          return (c :: behind, rest)
      | c :: rest =>
          if isPlain c then do
            let (behind, rest) ← basic? fuel rest
            return (c :: behind, rest)
          else
            none
      | [] => none

/-- The inside of a string between single quotes, from behind the first. -/
def literal? (text : List Char) : Option (List Char × List Char) :=
  let inside := text.takeWhile fun c => c != '\'' && isPlain c
  match text.drop inside.length with
  | '\'' :: rest => some (inside, rest)
  | _ => none

/-- The end of a string between three quotes.  Up to two more quotes before
them belong to the string. -/
def closing? (quote : Char) (text : List Char) :
    Option (List Char × List Char) :=
  let quotes := text.takeWhile (· = quote)
  if 3 ≤ quotes.length ∧ quotes.length ≤ 5 then
    some (List.replicate (quotes.length - 3) quote, text.drop quotes.length)
  else
    none

/-- The inside of a string between three quotes, from behind the first of
them. -/
def long? (quote : Char) : Nat → Reader (List Char)
  | 0, _ => none
  | fuel + 1, text =>
      match closing? quote text with
      | some found => some found
      | none =>
          let goOn (c : Char) (rest : List Char) := do
            let (behind, rest) ← long? quote fuel rest
            return (c :: behind, rest)
          match behindNewline? text with
          | some rest => goOn '\n' rest
          | none =>
              match text with
              | '\\' :: rest =>
                  if quote = '"' then
                    match behindLineEnd? rest with
                    | some rest => long? quote fuel rest
                    | none => do
                        let (c, rest) ← escaped? rest
                        goOn c rest
                  else
                    goOn '\\' rest
              | c :: rest =>
                  if c = quote then
                    if (text.takeWhile (· = quote)).length < 3 then
                      goOn c rest
                    else
                      none
                  else if isPlain c then
                    goOn c rest
                  else
                    none
              | [] => none

/-- A string on one line. -/
def shortString? : Reader String := fun text =>
  let found :=
    match text with
    | '"' :: rest => basic? (rest.length + 1) rest
    | '\'' :: rest => literal? rest
    | _ => none
  found.map fun (inside, rest) => (String.ofList inside, rest)

/-- A string over several lines. -/
def longString? (quote : Char) : Reader String := fun text => do
  let rest ← behindMark? [quote, quote, quote] text
  let rest := (behindNewline? rest).getD rest
  let (inside, rest) ← long? quote (rest.length + 1) rest
  return (String.ofList inside, rest)

/-- A string of any kind. -/
def string? : Reader String := fun text =>
  if (behindMark? ['"', '"', '"'] text).isSome then
    longString? '"' text
  else if (behindMark? ['\'', '\'', '\''] text).isSome then
    longString? '\'' text
  else
    shortString? text

end Toml
end DocTemplate
