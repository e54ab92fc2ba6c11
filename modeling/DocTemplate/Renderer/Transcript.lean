import DocTemplate.Json.Printer
import DocTemplate.Renderer.Call

/-!
# Calls as JSON

The calls of a document are written as a list of objects.  Fields come in a
fixed order, attributes in key order, and a chunk says that it is a
placeholder only if it is one.
-/

namespace DocTemplate

def Dictionary.toJson (attributes : Attributes) : Json :=
  .object (attributes.entries.map fun (key, value) => (key, .string value))

def Chunk.toJson (chunk : Chunk) : Json :=
  let mark :=
    if chunk.isPlaceholder then [("is_placeholder", Json.bool true)] else []
  .object
    ([("contents", .string chunk.contents),
      ("attributes", chunk.attributes.toJson)] ++ mark)

def Block.toJson (block : Block) : Json :=
  .object
    [("kind", .string block.kind.name),
      ("chunks", .array (block.chunks.map Chunk.toJson))]

def Table.toJson (table : Table) : Json :=
  .object
    [("attributes", table.attributes.toJson),
      ("cells", .array (table.cells.map Chunk.toJson))]

def PageSize.toJson (size : PageSize) : Json :=
  .object
    [("name", .string size.name), ("width", .natural size.width),
      ("height", .natural size.height)]

def PageMargins.toJson (margins : PageMargins) : Json :=
  .object
    [("left", .integer margins.left), ("right", .integer margins.right),
      ("top", .integer margins.top), ("bottom", .integer margins.bottom)]

def HorizontalRule.toJson (rule : HorizontalRule) : Json :=
  .object [("width", .natural rule.width), ("percent", .natural rule.percent)]

def Image.toJson (image : Image) : Json :=
  .object [("source", .string image.source)]

namespace RenderCall

/-- The name under which a call is written. -/
def name : RenderCall → String
  | .openDocument => "open"
  | .closeDocument => "close"
  | .setPageSize _ => "set_page_size"
  | .setPageMargins _ => "set_page_margins"
  | .newPage => "new_page"
  | .horizontalRule _ => "horizontal_rule"
  | .image _ => "image"
  | .block _ => "block"
  | .table _ => "table"

/-- What a call carries, under the name of its field. -/
def fields : RenderCall → List (String × Json)
  | .setPageSize size => [("size", size.toJson)]
  | .setPageMargins margins => [("margins", margins.toJson)]
  | .horizontalRule drawn => [("rule", drawn.toJson)]
  | .image shown => [("image", shown.toJson)]
  | .block written => [("block", written.toJson)]
  | .table written => [("table", written.toJson)]
  | .openDocument | .closeDocument | .newPage => []

def toJson (call : RenderCall) : Json :=
  .object (("call", .string call.name) :: call.fields)

/-- The text of a list of calls. -/
def transcript (calls : List RenderCall) (pretty : Bool) : String :=
  (Json.array (calls.map toJson)).text pretty

end RenderCall
end DocTemplate
