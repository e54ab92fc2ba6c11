import DocTemplate.Html.Node
import DocTemplate.Html.Options
import DocTemplate.Renderer.Call

/-!
# The text of an HTML page

Blocks become headings and paragraphs whose class is the name of their
element, tables become tables, and rules and page breaks become rules.  The
first chunk of a block gives the style of the block itself, and every later
chunk that of a span.  HTML has no pages, so page sizes and margins leave no
trace.  Each call adds one fragment on a line of its own.
-/

namespace DocTemplate
namespace Html

/-! ## Styles -/

/-- The style that the first chunk gives its block. -/
def blockStyle (chunk : Chunk) : String :=
  let align :=
    match chunk.attribute? "align" with
    | some align => s!"text-align: {align}; "
    | none => ""
  let indent :=
    match (chunk.attribute? "indent").bind fun indent =>
        Text.integer? (Text.trim indent) with
    | some indent => s!"text-indent: {indent}px; "
    | none => ""
  align ++ indent

/-- The style of a font. -/
def fontStyle (chunk : Chunk) : String :=
  let styles := chunk.fontStyles
  let size :=
    match chunk.fontSize? with
    | some size => s!"font-size: {size}pt; "
    | none => ""
  (if styles.bold then "font-weight: bold; " else "")
    ++ (if styles.italic then "font-style: italic; " else "")
    ++ (if styles.underline then "text-decoration: underline; " else "")
    ++ size

/-- The style attribute, if there is a style. -/
def styleAttribute (style : String) : List (String × String) :=
  if style.isEmpty then [] else [("style", style)]

/-! ## Fragments -/

/-- A line of a text. -/
def lineNodes (line : String) : List Node :=
  if line.isEmpty then [] else [.text line]

/-- A text in which line feeds are line breaks. -/
def textNodes (text : String) : List Node :=
  match Text.lines text with
  | [] => []
  | first :: others =>
      lineNodes first ++
        others.flatMap fun line => .element .br [] [] :: lineNodes line

/-- The field of a placeholder. -/
def fieldNode (readOnly : Bool) (chunk : Chunk) : Node :=
  let id := (chunk.attribute? "id").getD ""
  let size := (chunk.attribute? "minlen").getD "10"
  let fixed := if readOnly then [("readonly", "readonly")] else []
  .element .input
    ([("type", "text"), ("id", id), ("name", id), ("size", size),
      ("value", chunk.contents)] ++ fixed) []

/-- The choice of whether the value of a placeholder is required. -/
def choiceNode (chunk : Chunk) : Node :=
  let name := (chunk.attribute? "id").getD "" ++ "_need"
  let choice (text : String) : Node :=
    .element .option [("value", text)] [.text text]
  .element .select [("id", name), ("name", name)]
    [choice "required", choice "optional"]

/-- The chunk at a place of a block. -/
def chunkNodes (mode : PlaceholderMode) (first : Bool) (chunk : Chunk) :
    List Node :=
  match chunk.isPlaceholder, mode with
  | true, .input => [fieldNode false chunk]
  | true, .combo => [fieldNode true chunk, choiceNode chunk]
  | _, _ =>
      if first then
        textNodes chunk.contents
      else
        [.element .span (styleAttribute (fontStyle chunk))
          (textNodes chunk.contents)]

/-- The element for a kind of block. -/
def blockTag? : BlockKind → Option Tag
  | .title => some .h1
  | .chapter => some .h2
  | .sectionHeading => some .h3
  | .paragraph => some .p
  | .pageBreak => none

/-- The style of a block. -/
def headStyle : List Chunk → String
  | [] => ""
  | first :: _ => blockStyle first ++ fontStyle first

/-- What stands inside a block. -/
def bodyNodes (mode : PlaceholderMode) : List Chunk → List Node
  | [] => []
  | first :: others =>
      chunkNodes mode true first ++ others.flatMap (chunkNodes mode false)

def blockNode (mode : PlaceholderMode) (block : Block) :
    Except RenderError Node :=
  match blockTag? block.kind with
  | none => .error (.unsupportedBlock block.kind)
  | some tag =>
      .ok <| .element tag
        (("class", block.kind.name) :: styleAttribute (headStyle block.chunks))
        (bodyNodes mode block.chunks)

/-- A cell of a column with a width. -/
def cellNode (cell : Chunk) (percent : Nat) : Node :=
  let colspan :=
    match cell.attribute? "colspan" with
    | some colspan => [("colspan", colspan)]
    | none => []
  let align :=
    match cell.attribute? "align" with
    | some align => [("style", s!"text-align: {align};")]
    | none => []
  .element .td ([("width", s!"{percent}%")] ++ colspan ++ align)
    (textNodes cell.contents)

/-- A row; cells of columns without width are left out. -/
def rowNode (percentages : List Nat) (row : List Chunk) : Node :=
  let shown := (row.zip percentages).filter fun pair => pair.2 != 0
  .element .tr [] (shown.map fun (cell, percent) => cellNode cell percent)

def tableNode (table : Table) : Node :=
  let percentages := table.percentages?.getD [100]
  let width := table.width.text Decimal.single ++ "%"
  .element .table [("border", "2"), ("width", width)]
    (table.rows.map (rowNode percentages))

def ruleNode (rule : HorizontalRule) : Node :=
  .element .hr
    [("style", s!"width: {rule.percent}%; border-top-width: {rule.width}px;")]
    []

/-! ## Head and tail -/

/-- A character in the head of a page. -/
def escapeHead (c : Char) : List Char :=
  if c = '&' then "&amp;".toList
  else if c = '<' then "&lt;".toList
  else if c = '>' then "&gt;".toList
  else if c = '"' then "&quot;".toList
  else if c = '\'' then "&#39;".toList
  else [c]

def headText (text : String) : String :=
  String.ofList (text.toList.flatMap escapeHead)

/-- Everything up to the body. -/
def pageHead (options : PageOptions) : String :=
  let title := headText (options.title.getD "")
  let styleSheets := options.styleSheets.map fun sheet =>
    "  <link rel=\"stylesheet\" type=\"text/css\" href=\""
      ++ headText sheet ++ "\">\n"
  let scripts := options.scripts.map fun script =>
    "  <script type=\"text/javascript\" src=\""
      ++ headText script ++ "\"></script>\n"
  options.declaration ++ "\n<html>\n<head>\n  <meta charset=\""
    ++ headText options.encoding ++ "\">\n  <title>" ++ title ++ "</title>\n"
    ++ String.join styleSheets ++ String.join scripts
    ++ "</head>\n<body>\n"

/-- Everything behind the body. -/
def pageTail (options : PageOptions) : String :=
  let extra :=
    match options.extra with
    | some extra => extra ++ "\n"
    | none => ""
  extra ++ "</body>\n</html>\n"

/-! ## Calls -/

/-- A fragment on its line. -/
def lineOf (node : Node) : String :=
  String.ofList (' ' :: ' ' :: (node.write ++ ['\n']))

/-- What a call adds to an open page. -/
def bodyText (options : PageOptions) :
    RenderCall → Except RenderError String
  | .openDocument => .error .alreadyOpen
  | .closeDocument => .ok (pageTail options)
  | .setPageSize _ => .ok ""
  | .setPageMargins _ => .ok ""
  | .newPage => .ok (lineOf (.element .hr [("class", "pagebreak")] []))
  | .horizontalRule rule => .ok (lineOf (ruleNode rule))
  | .image image =>
      if image.source.isEmpty then
        .error (.failed "Image source is empty")
      else
        .ok (lineOf (.element .img [("src", image.source)] []))
  | .block block => (blockNode options.placeholders block).map lineOf
  | .table table => .ok (lineOf (tableNode table))

/-- What a call adds to a page that is open or not. -/
def callText (options : PageOptions) (isOpen : Bool) (call : RenderCall) :
    Except RenderError String :=
  if isOpen then
    bodyText options call
  else
    match call with
    | .openDocument => .ok (pageHead options)
    | _ => .error .notOpen

end Html
end DocTemplate
