import DocTemplate.Toml.Moment
import DocTemplate.Toml.Number
import DocTemplate.Toml.Text
import DocTemplate.Toml.Tree

/-!
# Reading TOML

A file is a list of lines: a header in brackets, a key with its value, a
comment, or nothing.  Keys may be dotted, and each part is a plain word or a
string on one line.  Arrays may go over several lines and end in a comma;
tables in braces stand on one line.  Values are nested less than eighty deep,
and so are keys.  A table whose first key is a certain mark stands for the
date or the time under it.
-/

namespace DocTemplate
namespace Toml

/-- How deep values and keys may be nested, and one more. -/
def depthLimit : Nat := 80

/-! ## Keys -/

/-- The characters of a key without quotes. -/
def isBare (c : Char) : Bool := c.isAlphanum || c = '-' || c = '_'

/-- One part of a key. -/
def keyPart? : Reader String := fun text =>
  match text with
  | '"' :: _ => shortString? text
  | '\'' :: _ => shortString? text
  | _ =>
      let bare := text.takeWhile isBare
      if bare.isEmpty then none
      else some (String.ofList bare, text.drop bare.length)

/-- The parts of a key, with the blanks around each. -/
def keyParts? : Nat → Reader (List String)
  | 0, _ => none
  | fuel + 1, text => do
      let (part, text) ← keyPart? (skipBlanks text)
      match skipBlanks text with
      | '.' :: text => do
          let (parts, text) ← keyParts? fuel text
          return (part :: parts, text)
      | text => some ([part], text)

/-- A dotted key. -/
def key? : Reader (List String) := keyParts? (depthLimit - 1)

/-! ## Values -/

/-- The text behind blanks, line ends and comments. -/
def skipLayout : Nat → List Char → List Char
  | 0, text => text
  | fuel + 1, text =>
      let text := skipBlanks text
      match behindNewline? (skipComment text) with
      | some rest => skipLayout fuel rest
      | none => text

/-- The items of an array, from behind its opening bracket. -/
def arrayItems? (item : Reader Value) : Nat → Reader (List Value)
  | 0, _ => none
  | fuel + 1, text =>
      match skipLayout text.length text with
      | ']' :: text => some ([], text)
      | text => do
          let (first, text) ← item text
          match skipLayout text.length text with
          | ']' :: text => some ([first], text)
          | ',' :: text => do
              let (items, text) ← arrayItems? item fuel text
              return (first :: items, text)
          | _ => none

/-- A key with its value. -/
def pair? (item : Reader Value) : Reader (List String × Value) :=
  fun text => do
    let (path, text) ← key? text
    let text ← behindMark? ['='] text
    let (value, text) ← item (skipBlanks text)
    return ((path, value), text)

/-- The entries of a table in braces, from before a key. -/
def inlineEntries? (item : Reader Value) : Nat → Entries → Reader Entries
  | 0, _, _ => none
  | fuel + 1, known, text => do
      let ((path, value), text) ← pair? item text
      let known ← assign path value .named known
      match skipBlanks text with
      | '}' :: text => some (known, text)
      | ',' :: text => inlineEntries? item fuel known text
      | _ => none

/-- A table in braces, from behind the opening one. -/
def inlineTable? (item : Reader Value) : Reader Value := fun text =>
  match skipBlanks text with
  | '}' :: text => some (.table [], text)
  | _ =>
      (inlineEntries? item text.length [] text).map fun (entries, text) =>
        (.table (values entries), text)

/-- A value that holds no other values. -/
def scalar? : Reader Value := fun text =>
  match text with
  | '"' :: _ | '\'' :: _ =>
      (string? text).map fun (contents, text) => (.string contents, text)
  | 't' :: 'r' :: 'u' :: 'e' :: text => some (.boolean true, text)
  | 'f' :: 'a' :: 'l' :: 's' :: 'e' :: text => some (.boolean false, text)
  | _ =>
      match moment? text with
      | some (moment, text) => some (.moment moment, text)
      | none => number? text

/-- A value that holds others nested less than `depth` deep. -/
def value? : Nat → Reader Value
  | 0, text => scalar? text
  | depth + 1, text =>
      match text with
      | '[' :: text =>
          (arrayItems? (value? depth) (text.length + 1) text).map
            fun (items, text) => (.array items, text)
      | '{' :: text => inlineTable? (value? depth) text
      | _ => scalar? text

/-! ## Lines -/

/-- The text behind the end of a line, before which blanks and a comment may
stand. -/
def behindLine? (text : List Char) : Option (List Char) :=
  match skipComment (skipBlanks text) with
  | [] => some []
  | text => behindNewline? text

/-- A line that is not empty, from its first character that is not blank. -/
def line? (document : Document) (text : List Char) :
    Option (Document × List Char) :=
  match text with
  | '[' :: '[' :: text => do
      let (path, text) ← key? text
      let text ← behindMark? [']', ']'] text
      return (← document.listHeader path, ← behindLine? text)
  | '[' :: text => do
      let (path, text) ← key? text
      let text ← behindMark? [']'] text
      return (← document.header path, ← behindLine? text)
  | _ => do
      let ((path, value), text) ← pair? (value? (depthLimit - 1)) text
      return (← document.entry path value, ← behindLine? text)

/-- Reads the lines of a file. -/
def lines? : Nat → Document → List Char → Option Document
  | 0, _, _ => none
  | fuel + 1, document, text =>
      match skipLayout text.length text with
      | [] => some document
      | '#' :: text => if text.all isPlain then some document else none
      | text => do
          let (document, text) ← line? document text
          lines? fuel document text

/-! ## Dates and times as tables -/

/-- The first key of a table that stands for a date or a time.  Its value is
the text of that, and further keys of the table do not count. -/
def momentKey : String := "$__toml_private_datetime"

/-- The date or the time under the mark. -/
def markedMoment? : Value → Option Value
  | .string text => (momentOfText? text).map .moment
  | _ => none

mutual

/-- A value with the dates and times for the tables that stand for them. -/
def withMoments? : Value → Option Value
  | .array items => (itemsWithMoments? items).map .array
  | .table entries =>
      match entries with
      | [] => some (.table [])
      | (key, value) :: rest =>
          if key = momentKey then markedMoment? value
          else do
            let value ← withMoments? value
            let rest ← entriesWithMoments? rest
            return .table ((key, value) :: rest)
  | value => some value

def itemsWithMoments? : List Value → Option (List Value)
  | [] => some []
  | item :: rest => do
      let item ← withMoments? item
      let rest ← itemsWithMoments? rest
      return item :: rest

def entriesWithMoments? :
    List (String × Value) → Option (List (String × Value))
  | [] => some []
  | (key, value) :: rest => do
      let value ← withMoments? value
      let rest ← entriesWithMoments? rest
      return (key, value) :: rest

end

/-- The entries of the table of a whole file, which is no date or time. -/
def fileEntries? (document : Document) : Option (List (String × Value)) :=
  match withMoments? (.table document.entries) with
  | some (.table entries) => some entries
  | _ => none

/-- The entries of a TOML text, if it is well formed.  A byte order mark at
its start does not count. -/
def read? (text : String) : Option (List (String × Value)) :=
  let text :=
    match text.toList with
    | '\ufeff' :: text => text
    | text => text
  (lines? (text.length + 1) {} text).bind fileEntries?

end Toml
end DocTemplate
