import DocTemplate.Chunk

/-!
# Blocks

A block is a heading or a paragraph: its kind and its chunks in document
order.  A page break is a block element of templates as well, although no
block of that kind is ever filled with text.
-/

namespace DocTemplate

inductive BlockKind
  | title
  | chapter
  | sectionHeading
  | paragraph
  | pageBreak
deriving DecidableEq, Repr

namespace BlockKind

/-- The name of the element that makes a block of this kind. -/
def name : BlockKind → String
  | .title => "title"
  | .chapter => "chapter"
  | .sectionHeading => "section"
  | .paragraph => "para"
  | .pageBreak => "pagebreak"

def all : List BlockKind :=
  [.title, .chapter, .sectionHeading, .paragraph, .pageBreak]

/-- The kind of a name, whatever the case of its ASCII letters. -/
def ofName? (name : String) : Option BlockKind :=
  all.find? fun kind => kind.name == Text.lower name

theorem ofName?_name (kind : BlockKind) : ofName? kind.name = some kind := by
  cases kind <;> rfl

end BlockKind

structure Block where
  kind : BlockKind
  chunks : List Chunk
deriving DecidableEq, Repr

/-- The contents of some chunks, one after the other. -/
def Chunk.texts (chunks : List Chunk) : String :=
  String.join (chunks.map Chunk.contents)

/-- The text of a block. -/
def Block.text (block : Block) : String := Chunk.texts block.chunks

end DocTemplate
