import DocTemplate.Backend.Basic
import DocTemplate.Html.Renderer

/-!
# The HTML backend

The output is a single page.  Its options start from those that the backend
was made with; a page without a title takes that of the data source.
-/

namespace DocTemplate
namespace HtmlBackend

def name : String := "html"

/-- The options in force for one page. -/
def pageOptions (base : Html.PageOptions) (store : DataStore)
    (options : BackendOptions) : Except OptionError Html.PageOptions := do
  let merged ← base.override options
  return { merged with title := merged.title.or store.title }

def render (base : Html.PageOptions) (template : String) (store : DataStore)
    (options : BackendOptions) : Except CompileError Rendered := do
  (BackendOptions.checkKeys options name Html.PageOptions.keys).mapError
    .invalidOption
  let effective ←
    (pageOptions base store options).mapError .invalidOption
  let renderer : HtmlRenderer Buffer := { options := effective, sink := {} }
  let compiled :=
    compile template store renderer (BackendOptions.root options)
  let diagnostics ← compiled.result
  return ⟨compiled.renderer.sink.text, diagnostics⟩

end HtmlBackend

def htmlBackend (base : Html.PageOptions := {}) : Backend where
  name := HtmlBackend.name
  description := "HTML page, optionally with form fields for placeholders"
  extensions := ["html", "htm"]
  render := HtmlBackend.render base

end DocTemplate
