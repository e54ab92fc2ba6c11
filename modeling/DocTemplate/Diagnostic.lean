import DocTemplate.Data.Store
import DocTemplate.Renderer.Call

/-!
# Diagnostics

A problem that leaves a document usable is reported and the document goes on.
There are three kinds: a value that the data source does not give, an
attribute that does not read, and a call that the renderer does not honour.
-/

namespace DocTemplate

inductive DiagnosticKind
  | dataBinding
  | attributeFormat
  | renderer
deriving DecidableEq, Repr

def DiagnosticKind.name : DiagnosticKind → String
  | .dataBinding => "data-binding"
  | .attributeFormat => "attribute-format"
  | .renderer => "renderer"

structure Diagnostic where
  kind : DiagnosticKind
  message : String
deriving DecidableEq, Repr

def Diagnostic.text (diagnostic : Diagnostic) : String :=
  s!"{diagnostic.kind.name}: {diagnostic.message}"

/-- The diagnostics of one kind, in their order. -/
def Diagnostic.ofKind (kind : DiagnosticKind) (list : List Diagnostic) :
    List Diagnostic :=
  list.filter fun diagnostic => diagnostic.kind == kind

/-- What can be reported while a template is compiled. -/
inductive Problem
  | loading (warning : DataWarning)
  | valueWithoutId
  | unknownId (id : String)
  | idNotText (id : String)
  | noData (id : String)
  | spaceWithoutSize
  | spaceTooLarge (size : String)
  | malformedSpace (size : String)
  | unknownPageSize (name : String)
  | margins (error : MarginError)
  | malformedRule (field value : String)
  | columns (error : ColumnsError)
  | malformedWidth (width : String)
  | imageWithoutSource
  | rejected (error : RenderError)
deriving DecidableEq, Repr

/-- The greatest number of blanks that one element makes. -/
def maxSpace : Nat := 1000

namespace Problem

def kind : Problem → DiagnosticKind
  | .loading _ | .valueWithoutId | .unknownId _ | .idNotText _ | .noData _ =>
      .dataBinding
  | .spaceWithoutSize | .spaceTooLarge _ | .malformedSpace _
  | .unknownPageSize _ | .margins _ | .malformedRule _ _ | .columns _
  | .malformedWidth _ =>
      .attributeFormat
  | .imageWithoutSource | .rejected _ => .renderer

def message : Problem → String
  | .loading warning => warning.message
  | .valueWithoutId => "Placeholder has no 'id' attribute"
  | .unknownId id => s!"Data key '{id}' not found"
  | .idNotText id => s!"Data key '{id}' is not a string"
  | .noData id => s!"No data section to resolve '{id}'"
  | .spaceWithoutSize => "Spacer has no 'size' attribute"
  | .spaceTooLarge size => s!"Spacer size '{size}' exceeds {maxSpace}"
  | .malformedSpace size => s!"Invalid spacer size '{size}'"
  | .unknownPageSize name => s!"Unknown page size '{name}'"
  | .margins error => error.message
  | .malformedRule field value =>
      s!"Invalid horizontal rule {field} '{value}'"
  | .columns error => error.message
  | .malformedWidth width => s!"Invalid table width '{width}'"
  | .imageWithoutSource => "Image has no 'src' attribute"
  | .rejected error => error.message

def diagnostic (problem : Problem) : Diagnostic :=
  ⟨problem.kind, problem.message⟩

end Problem
end DocTemplate
