import DocTemplate.Dictionary
import DocTemplate.Text.Blank
import DocTemplate.Text.Numeral

/-!
# Chunks

A chunk is a piece of text with one set of attributes, the smallest unit that
a renderer sees.  Blocks and tables are lists of chunks, and every decision on
style is taken from the attributes of a chunk.
-/

namespace DocTemplate

/-- The attributes of an element as they are written in its tag. -/
abbrev OwnAttributes := List (String × String)

/-- The attributes in force for a piece of text. -/
abbrev Attributes := Dictionary String

structure Chunk where
  contents : String := ""
  attributes : Attributes := .empty
  /-- Whether the chunk stands for a value of the data source. -/
  isPlaceholder : Bool := false
deriving DecidableEq, Repr, Inhabited

/-- The font styles that a chunk can ask for. -/
structure FontStyles where
  bold : Bool := false
  italic : Bool := false
  underline : Bool := false
deriving DecidableEq, Repr

namespace FontStyles

/-- The styles named in a comma separated list; other names have no effect. -/
def ofList (list : String) : FontStyles :=
  let names := (Text.fields ',' list).map Text.lower
  ⟨names.contains "bold", names.contains "italic", names.contains "underline"⟩

def isPlain (styles : FontStyles) : Bool :=
  !(styles.bold || styles.italic || styles.underline)

end FontStyles

namespace Chunk

def attribute? (chunk : Chunk) (key : String) : Option String :=
  chunk.attributes.get? key

def setAttribute (chunk : Chunk) (key value : String) : Chunk :=
  { chunk with attributes := chunk.attributes.insert key value }

def fontStyles (chunk : Chunk) : FontStyles :=
  .ofList ((chunk.attribute? "font-style").getD "")

/-- The font size in points, if there is a well-formed one. -/
def fontSize? (chunk : Chunk) : Option Nat :=
  (chunk.attribute? "font-size").bind fun size =>
    Text.natural? Text.maxCount (Text.trim size)

end Chunk
end DocTemplate
