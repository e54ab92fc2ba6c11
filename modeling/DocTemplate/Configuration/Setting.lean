import DocTemplate.Text.Blank
import DocTemplate.Text.Numeral
import DocTemplate.Toml.Value

/-!
# Putting settings into place

Settings form a tree of tables and lists.  A new setting goes to a path such as
`html.css` or `html.css[0]`: what stands in the way of a path is replaced, a
table is put into a table entry by entry, and any other value replaces what
was there.  The case of keys does not count.
-/

namespace DocTemplate
namespace Configuration

open Toml (Value setEntry)

/-- The entries of a table of settings. -/
abbrev Settings := List (String × Value)

/-! ## Keys -/

/-- The small form of a letter, where that is an ASCII letter: all known keys
consist of those.  The Kelvin sign is a capital `k`. -/
def smallLetter (c : Char) : Char :=
  if c = '\u212A' then 'k' else c.toLower

/-- A key as it is compared. -/
def foldKey (key : String) : String :=
  String.ofList (key.toList.map smallLetter)

/-! ## Paths -/

inductive Step
  | child (key : String)
  /-- An item of a list; a negative index counts from its end. -/
  | item (index : Int)
deriving DecidableEq, Repr

/-- A path, with all of its keys as they are compared. -/
structure Path where
  key : String
  steps : List Step
deriving DecidableEq, Repr

namespace Path

/-- The characters of a key in a path. -/
def isKeyCharacter (c : Char) : Bool :=
  c.isAlphanum || c = ' ' || c = '_' || c = '-'

/-- An index with the blanks around it. -/
def index? (text : List Char) : Option Int :=
  let isBlank (c : Char) : Bool := c = ' ' || c = '\t'
  match Text.dropAround isBlank text with
  | '-' :: digits =>
      ((Text.digits? digits).filter (· ≤ Nat.pow 2 63)).map fun value =>
        -(value : Int)
  | digits =>
      ((Text.digits? digits).filter (· < Nat.pow 2 63)).map Int.ofNat

/-- The steps behind the first key of a path. -/
def steps? : Nat → List Char → Option (List Step)
  | _, [] => some []
  | 0, _ => none
  | fuel + 1, '.' :: text =>
      let key := text.takeWhile isKeyCharacter
      if key.isEmpty then
        none
      else
        (steps? fuel (text.drop key.length)).map
          (.child (foldKey (String.ofList key)) :: ·)
  | fuel + 1, '[' :: text => do
      let inside := text.takeWhile (· != ']')
      let index ← index? inside
      match text.drop inside.length with
      | ']' :: rest => (steps? fuel rest).map (.item index :: ·)
      | _ => none
  | _, _ => none

def read? (text : String) : Option Path :=
  let text := text.toList
  let key := text.takeWhile isKeyCharacter
  if key.isEmpty then
    none
  else
    (steps? text.length (text.drop key.length)).map
      (⟨foldKey (String.ofList key), ·⟩)

end Path

/-! ## Entries -/

/-- The entries of a table; any other value has none. -/
def entriesOf : Value → Settings
  | .table entries => entries
  | _ => []

/-- The items of a list; any other value has none. -/
def itemsOf : Value → List Value
  | .array items => items
  | _ => []

mutual

/-- Puts a value under a key: the entries of a table each into the table that
is there, and any other value over what is there. -/
def merge (key : String) : Value → Settings → Settings
  | .table incoming, settings =>
      let known := (settings.lookup (foldKey key)).getD (.table [])
      setEntry (foldKey key) (mergeAll incoming known) settings
  | value, settings => setEntry (foldKey key) value settings

/-- Puts entries into a table.  Only if there are any does the table take the
place of what was there. -/
def mergeAll : List (String × Value) → Value → Value
  | [], known => known
  | (key, value) :: rest, known =>
      mergeAll rest (.table (merge key value (entriesOf known)))

end

/-! ## Places -/

/-- The place of an item in a list of a length. -/
def place (length : Nat) (index : Int) : Nat :=
  if 0 ≤ index then index.toNat else length - index.natAbs

/-- What stands where nothing has been put: it reads as no value at all. -/
def nothing : Value := .table []

/-- The items with the one at a place changed.  A list that is too short is
filled up with nothing. -/
def changeItem (place : Nat) (change : Value → Value) (items : List Value) :
    List Value :=
  let filled :=
    items ++ List.replicate (place + 1 - items.length) nothing
  filled.modify place change

/-- The value with a setting put behind steps. -/
def put (value : Value) : List Step → Value → Value
  | [], _ => value
  | [.child key], current => .table (merge key value (entriesOf current))
  | .child key :: rest, current =>
      let entries := entriesOf current
      let below := (entries.lookup key).getD nothing
      .table (setEntry key (put value rest below) entries)
  | .item index :: rest, current =>
      let items := itemsOf current
      .array (changeItem (place items.length index) (put value rest) items)

/-- The settings with a value put at a path. -/
def putAt (path : Path) (value : Value) (settings : Settings) : Settings :=
  match path.steps with
  | [] => merge path.key value settings
  | steps =>
      let below := (settings.lookup path.key).getD nothing
      setEntry path.key (put value steps below) settings

end Configuration
end DocTemplate
