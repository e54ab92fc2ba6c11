import DocTemplate.Json.Value

/-!
# Writing JSON

The compact form has no blanks at all.  The indented form has one item or
member a line, two blanks of indentation for each level and one blank behind
the colon; an empty array or object takes no line of its own.  Inside strings
the quote, the backslash and the control characters below the space are
escaped, and everything else is written as it is.
-/

namespace DocTemplate
namespace Json

/-- A hexadecimal digit, in small letters. -/
def hexDigit (value : Nat) : Char := Nat.digitChar (value % 16)

/-- A character inside a string. -/
def escape (c : Char) : List Char :=
  if c = '"' then ['\\', '"']
  else if c = '\\' then ['\\', '\\']
  else if c = '\x08' then ['\\', 'b']
  else if c = '\t' then ['\\', 't']
  else if c = '\n' then ['\\', 'n']
  else if c = '\x0c' then ['\\', 'f']
  else if c = '\r' then ['\\', 'r']
  else if c.toNat < 0x20 then
    ['\\', 'u', '0', '0', hexDigit (c.toNat / 16), hexDigit c.toNat]
  else [c]

/-- A string with its quotes. -/
def quote (text : String) : List Char :=
  '"' :: (text.toList.flatMap escape ++ ['"'])

/-- How values are set out. -/
inductive Layout
  | compact
  | indented (level : Nat)

namespace Layout

/-- The layout of the items of a value. -/
def inner : Layout → Layout
  | .compact => .compact
  | .indented level => .indented (level + 1)

/-- What stands before an item, and before the end of its list. -/
def lineBreak : Layout → List Char
  | .compact => []
  | .indented level => '\n' :: List.replicate (2 * level) ' '

/-- What stands between a name and its value. -/
def colon : Layout → List Char
  | .compact => [':']
  | .indented _ => [':', ' ']

end Layout

mutual

/-- The text of a value. -/
def write (layout : Layout) : Json → List Char
  | .null => "null".toList
  | .bool value => if value then "true".toList else "false".toList
  | .number literal => literal.toList
  | .string value => quote value
  | .array [] => ['[', ']']
  | .array (item :: rest) =>
      '[' :: (layout.inner.lineBreak ++ write layout.inner item
        ++ writeItems layout.inner rest ++ layout.lineBreak ++ [']'])
  | .object [] => ['\x7b', '\x7d']
  | .object ((name, value) :: rest) =>
      '\x7b' :: (layout.inner.lineBreak ++ quote name ++ layout.colon
        ++ write layout.inner value
        ++ writeMembers layout.inner rest ++ layout.lineBreak ++ ['\x7d'])

/-- Further items, each behind its comma. -/
def writeItems (layout : Layout) : List Json → List Char
  | [] => []
  | item :: rest =>
      ',' :: (layout.lineBreak ++ write layout item ++ writeItems layout rest)

/-- Further members, each behind its comma. -/
def writeMembers (layout : Layout) : List (String × Json) → List Char
  | [] => []
  | (name, value) :: rest =>
      ',' :: (layout.lineBreak ++ quote name ++ layout.colon
        ++ write layout value ++ writeMembers layout rest)

end

/-- The compact or the indented text of a value. -/
def text (value : Json) (pretty : Bool) : String :=
  String.ofList (write (if pretty then .indented 0 else .compact) value)

end Json
end DocTemplate
