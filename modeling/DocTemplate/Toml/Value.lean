import DocTemplate.Decimal.Shortest

/-!
# TOML values

What a configuration file holds.  A table lists its entries in the order in
which they come to be.  A date or a time is kept as its normal text.
-/

namespace DocTemplate
namespace Toml

inductive Value
  | string (text : String)
  | integer (value : Int)
  | float (value : Decimal.BinaryNumber)
  | boolean (value : Bool)
  | moment (text : String)
  | array (items : List Value)
  | table (entries : List (String × Value))
deriving Repr, Inhabited

/-- The entries with one entry set, at the place of its key or at the end. -/
def setEntry {α : Type} (key : String) (value : α) :
    List (String × α) → List (String × α)
  | [] => [(key, value)]
  | entry :: rest =>
      if entry.1 = key then (key, value) :: rest
      else entry :: setEntry key value rest

/-- A reader takes something off the front of a text and gives what is
left, or it does not apply. -/
abbrev Reader (α : Type) := List Char → Option (α × List Char)

/-- The blanks inside a line. -/
def isBlank (c : Char) : Bool := c = ' ' || c = '\t'

def skipBlanks (text : List Char) : List Char := text.dropWhile isBlank

/-- The text behind a line end. -/
def behindNewline? : List Char → Option (List Char)
  | '\n' :: rest => some rest
  | '\r' :: '\n' :: rest => some rest
  | _ => none

/-- Whether a character may stand in a comment or in a literal string: any
but the control characters other than the tab. -/
def isPlain (c : Char) : Bool :=
  c = '\t' || (0x20 ≤ c.toNat && c.toNat ≠ 0x7F)

/-- The text behind a comment, if there is one. -/
def skipComment : List Char → List Char
  | '#' :: rest => rest.dropWhile isPlain
  | text => text

/-- The text behind a mark. -/
def behindMark? (mark : List Char) (text : List Char) : Option (List Char) :=
  if mark.isPrefixOf text then some (text.drop mark.length) else none

end Toml
end DocTemplate
