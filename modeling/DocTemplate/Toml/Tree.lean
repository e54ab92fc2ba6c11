import DocTemplate.Toml.Value

/-!
# Growing the tables of TOML

The tables of a file grow line by line.  A table comes to be because a longer
header implies it, because a dotted key leads through it, or because a header
names it; a header may name a table that was implied, which then counts as the
last one, but none that exists otherwise, and a dotted key may not lead into a
table that a header named.
The header of a list of tables adds a table to the list, and later keys that
lead through the list lead into its last table.  No key is given twice.
-/

namespace DocTemplate
namespace Toml

/-- How a table came to be. -/
inductive Origin
  | implied
  | dotted
  | named
deriving DecidableEq, Repr

inductive Node
  | leaf (value : Value)
  | table (origin : Origin) (entries : List (String × Node))
  | tables (elements : List (List (String × Node)))
deriving Inhabited

abbrev Entries := List (String × Node)

/-! ## The value of a tree -/

mutual

def Node.value : Node → Value
  | .leaf value => value
  | .table _ entries => .table (values entries)
  | .tables elements => .array (tableValues elements)

/-- The entries of a table with their values. -/
def values : List (String × Node) → List (String × Value)
  | [] => []
  | (key, node) :: rest => (key, node.value) :: values rest

/-- The values of a list of tables. -/
def tableValues : List (List (String × Node)) → List Value
  | [] => []
  | entries :: rest => .table (values entries) :: tableValues rest

end

/-! ## Changes at the end of a path -/

/-- Changes the table at the end of a path.  Tables that are missing come to
be as `fresh`.  A path of dotted keys may not lead into a named table. -/
def change (fresh : Origin) (apply : Origin → Entries → Option Entries) :
    List String → Origin → Entries → Option Entries
  | [], origin, entries => apply origin entries
  | key :: path, _, entries =>
      match entries.lookup key with
      | none => do
          let inner ← change fresh apply path fresh []
          return setEntry key (.table fresh inner) entries
      | some (.leaf _) => none
      | some (.table origin inner) =>
          if fresh = .dotted ∧ origin = .named then
            none
          else do
            let inner ← change fresh apply path origin inner
            return setEntry key (.table origin inner) entries
      | some (.tables elements) => do
          let inner ← change fresh apply path .named (elements.getLastD [])
          return setEntry key (.tables (elements.dropLast ++ [inner]))
            entries

/-- Names a table in a header. -/
def nameTable (key : String) (entries : Entries) : Option Entries :=
  match entries.lookup key with
  | none => some (setEntry key (.table .named []) entries)
  | some (.table .implied inner) =>
      let others := entries.filter fun entry => entry.1 ≠ key
      some (others ++ [(key, .table .named inner)])
  | some _ => none

/-- Adds a table to a list of tables. -/
def addTable (key : String) (entries : Entries) : Option Entries :=
  match entries.lookup key with
  | none => some (setEntry key (.tables [[]]) entries)
  | some (.tables elements) =>
      some (setEntry key (.tables (elements ++ [[]])) entries)
  | some _ => none

/-- Gives a key a value.  A dotted key ends in a table of dotted keys. -/
def assign (path : List String) (value : Value) (origin : Origin)
    (entries : Entries) : Option Entries :=
  match path.getLast? with
  | none => none
  | some key =>
      let give (origin : Origin) (entries : Entries) :=
        if path.dropLast ≠ [] ∧ origin ≠ .dotted then none
        else
          match entries.lookup key with
          | none => some (setEntry key (.leaf value) entries)
          | some _ => none
      change .dotted give path.dropLast origin entries

/-! ## Documents -/

/-- What the lines of a file have built so far, and the path of the table
that keys go to. -/
structure Document where
  root : Entries := []
  current : List String := []

namespace Document

/-- A header that names a table. -/
def header (document : Document) (path : List String) : Option Document := do
  let key ← path.getLast?
  let root ←
    change .implied (fun _ entries => nameTable key entries) path.dropLast
      .named document.root
  return ⟨root, path⟩

/-- A header that adds a table to a list. -/
def listHeader (document : Document) (path : List String) :
    Option Document := do
  let key ← path.getLast?
  let root ←
    change .implied (fun _ entries => addTable key entries) path.dropLast
      .named document.root
  return ⟨root, path⟩

/-- A key with its value. -/
def entry (document : Document) (path : List String) (value : Value) :
    Option Document := do
  let root ←
    change .implied (assign path value) document.current .named document.root
  return { document with root }

/-- The entries of the whole document. -/
def entries (document : Document) : List (String × Value) :=
  values document.root

end Document
end Toml
end DocTemplate
