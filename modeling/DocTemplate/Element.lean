import DocTemplate.Block

/-!
# The elements of templates

Besides the root, which opens and closes the document, the elements are

    title chapter section para   blocks
    pagebreak                    a new page
    page size margin             page setup, and a new page
    hrule width percent          a horizontal rule
    img src                      an image
    table columns width          a table, which contains cells only
    value id                     a placeholder
    hspace size                  some blanks
    break                        a line break inside a block

Any other element stands in the text and carries attributes.  The case of
ASCII letters does not matter in names.
-/

namespace DocTemplate

inductive Element
  | block (kind : BlockKind)
  | page
  | rule
  | image
  | table
  | cell
  | value
  | space
  | lineBreak
  | generic
deriving DecidableEq, Repr

namespace Element

/-- The element of a name in small letters. -/
def ofLowerName (name : String) : Element :=
  match name with
  | "page" => .page
  | "hrule" => .rule
  | "img" => .image
  | "table" => .table
  | "cell" => .cell
  | "value" => .value
  | "hspace" => .space
  | "break" => .lineBreak
  | _ =>
      match BlockKind.ofName? name with
      | some kind => .block kind
      | none => .generic

def ofName (name : String) : Element := ofLowerName (Text.lower name)

/-- Whether whatever text came before is cut off from what the element will
hold. -/
def startsAfresh : Element → Bool
  | .block _ | .table => true
  | _ => false

/-- Whether the element leaves a chunk even if no text waits at its end. -/
def leavesChunk : Element → Bool
  | .value | .space => true
  | _ => false

end Element
end DocTemplate
