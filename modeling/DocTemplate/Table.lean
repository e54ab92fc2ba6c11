import DocTemplate.Chunk
import DocTemplate.Decimal.Shortest

/-!
# Tables

A table is a flat list of cells.  Rows follow from the number of columns, and
that follows from the `columns` attribute, a comma separated list of weights
such as `1,2,1`.  A table without usable weights has one column.

Weights are counts, and so are their total and the widths that come of them.
What grows above the greatest count starts over at zero.
-/

namespace DocTemplate

/-- Why a text does not give column weights. -/
inductive ColumnsError
  | malformed (weight columns : String)
  | zeroTotal (columns : String)
deriving DecidableEq, Repr

def ColumnsError.message : ColumnsError → String
  | .malformed weight columns =>
      s!"Invalid column weight '{weight}' in '{columns}'"
  | .zeroTotal columns => s!"Column weights '{columns}' add up to zero"

/-- A sum or a product of counts as a count. -/
def wrapCount (value : Nat) : Nat := value % (Text.maxCount + 1)

/-- The sum of column weights, a count after each of them. -/
def totalWeight (weights : List Nat) : Nat :=
  weights.foldl (fun total weight => wrapCount (total + weight)) 0

/-- A column weight in whole percent of the total weight. -/
def percentOf (total weight : Nat) : Nat := wrapCount (weight * 100) / total

/-- Reads the weights of a `columns` attribute. -/
def readColumns (columns : String) : Except ColumnsError (List Nat) := do
  let weights ← (Text.fields ',' columns).mapM fun weight =>
    match Text.natural? Text.maxCount weight with
    | some value => .ok value
    | none => .error (.malformed weight columns)
  if totalWeight weights = 0 then
    .error (.zeroTotal columns)
  else
    .ok weights

/-- Reads a width in percent, with or without percent signs behind it. -/
def readWidth? (width : String) : Option Decimal.BinaryNumber :=
  let bare := Text.dropTrailing (· == '%') (Text.trim width).toList
  Decimal.number? Decimal.single (String.ofList bare)

/-- A table and its cells in document order. -/
structure Table where
  attributes : Attributes := .empty
  cells : List Chunk := []
deriving DecidableEq, Repr

/-- Groups of `size` neighbours; the last group may be shorter. -/
def groups {α : Type} (size : Nat) : List α → List (List α)
  | [] => []
  | first :: rest =>
      (first :: rest.take (size - 1)) :: groups size (rest.drop (size - 1))
  termination_by list => list.length
  decreasing_by
    simp only [List.length_drop, List.length_cons]
    omega

namespace Table

def attribute? (table : Table) (key : String) : Option String :=
  table.attributes.get? key

/-- The column weights, if there are well-formed ones. -/
def weights? (table : Table) : Option (List Nat) :=
  (table.attribute? "columns").bind fun columns => (readColumns columns).toOption

/-- The column widths in whole percent of the total weight. -/
def percentages? (table : Table) : Option (List Nat) :=
  table.weights?.map fun weights =>
    weights.map (percentOf (totalWeight weights))

def columnCount (table : Table) : Nat :=
  (table.weights?.map List.length).getD 1

/-- The width of a table that does not say another one. -/
def fullWidth : Decimal.BinaryNumber := Decimal.single.nearest false 100 1

/-- The width in percent of the available width. -/
def width (table : Table) : Decimal.BinaryNumber :=
  ((table.attribute? "width").bind readWidth?).getD fullWidth

def rows (table : Table) : List (List Chunk) :=
  groups table.columnCount table.cells

/-- Adds an empty cell, which takes its own attributes only. -/
def openCell (table : Table) (own : OwnAttributes) : Table :=
  { table with cells := table.cells ++ [{ attributes := .ofList own }] }

/-- Puts text into the last cell of a list. -/
def fillLast (contents : String) : List Chunk → List Chunk
  | [] => []
  | [cell] => [{ cell with contents }]
  | cell :: next :: rest => cell :: fillLast contents (next :: rest)

/-- Puts text into the cell opened last. -/
def closeCell (table : Table) (contents : String) : Table :=
  { table with cells := fillLast contents table.cells }

/-- A table counts once it has a cell. -/
def finished? (table : Table) : Option Table :=
  if table.cells.isEmpty then none else some table

end Table
end DocTemplate
