import DocTemplate.Compile.Session
import DocTemplate.Markup.Reader

/-!
# Compiling a template

A compilation reads a template, feeds its events to a session and finishes
the session.  An error of the markup counts only if no event before it fails.
-/

namespace DocTemplate

/-- The name of the root element, unless another one is asked for. -/
def defaultRoot : String := "textpdf"

/-- How a compilation ends: what the renderer has become, and the diagnostics
or the error. -/
structure Compiled (σ : Type) where
  renderer : σ
  result : Except CompileError (List Diagnostic)

/-- Ends the session of a template whose markup may have an error behind the
events that were fed. -/
def Compiled.ofOutcome {σ : Type}
    (outcome : Outcome CompileError (Session σ))
    (markupError : Option Markup.MarkupError) : Compiled σ where
  renderer := outcome.state.renderer
  result :=
    match outcome.failure?, markupError with
    | some error, _ => .error error
    | none, some error => .error (.markup error)
    | none, none => outcome.state.finish

def compile {σ : Type} [Renderer σ] (template : String) (store : DataStore)
    (renderer : σ) (root : String := defaultRoot) : Compiled σ :=
  let (events, markupError) := Markup.read template
  let session := Session.begin root store renderer
  .ofOutcome (session.feedAll events) markupError

end DocTemplate
