import DocTemplate.Block
import DocTemplate.Page
import DocTemplate.Table

/-!
# What a renderer is asked to do

A document reaches its renderer as a sequence of calls: it is opened, page
sizes and margins are set before the new page that they take effect on, blocks
and tables arrive in document order, and it is closed.
-/

namespace DocTemplate

inductive RenderCall
  | openDocument
  | closeDocument
  | setPageSize (size : PageSize)
  | setPageMargins (margins : PageMargins)
  | newPage
  | horizontalRule (rule : HorizontalRule)
  | image (image : Image)
  | block (block : Block)
  | table (table : Table)
deriving DecidableEq, Repr

/-- Why a renderer refuses a call. -/
inductive RenderError
  /-- What the document is written to has failed. -/
  | io (cause : String)
  | notOpen
  | unsupportedBlock (kind : BlockKind)
  | failed (message : String)
deriving DecidableEq, Repr

namespace RenderError

def message : RenderError → String
  | .io cause => "I/O error: " ++ cause
  | .notOpen => "Document is not open"
  | .unsupportedBlock kind =>
      s!"Block kind '{kind.name}' is not supported by this renderer"
  | .failed message => message

/-- The refusal to open a document twice. -/
def alreadyOpen : RenderError := .failed "Document is already open"

/-- A renderer may have no form for a kind of block, and the document goes on
without it.  Every other refusal ends the document. -/
def isFatal : RenderError → Bool
  | .unsupportedBlock _ => false
  | _ => true

end RenderError
end DocTemplate
