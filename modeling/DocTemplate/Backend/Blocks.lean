import DocTemplate.Backend.Basic
import DocTemplate.Renderer.Recorder
import DocTemplate.Renderer.Transcript

/-!
# The block stream backend

The output is the list of all renderer calls as JSON, for a look at what a
template compiles to.
-/

namespace DocTemplate
namespace BlocksBackend

def name : String := "blocks"

/-- The option that asks for the indented form. -/
def prettyKey : String := "pretty"

def render (pretty : Bool) (template : String) (store : DataStore)
    (options : BackendOptions) : Except CompileError Rendered := do
  (BackendOptions.checkKeys options name [prettyKey]).mapError .invalidOption
  let asked ←
    (BackendOptions.bool? options prettyKey).mapError .invalidOption
  let compiled :=
    compile template store ({} : Recorder) (BackendOptions.root options)
  let diagnostics ← compiled.result
  return ⟨RenderCall.transcript compiled.renderer.calls (asked.getD pretty),
    diagnostics⟩

end BlocksBackend

def blocksBackend (pretty : Bool := false) : Backend where
  name := BlocksBackend.name
  description :=
    "JSON list of renderer calls, for inspecting compiled templates"
  extensions := ["json"]
  render := BlocksBackend.render pretty

end DocTemplate
