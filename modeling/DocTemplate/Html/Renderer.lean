import DocTemplate.Html.Page
import DocTemplate.Html.Sink
import DocTemplate.Renderer.Basic

/-!
# Writing HTML pages

An HTML renderer writes the text of each call to its sink at once and keeps
nothing but whether the page is open.  A call that fails leaves that as it
was.
-/

namespace DocTemplate

structure HtmlRenderer (ω : Type) where
  options : Html.PageOptions := {}
  isOpen : Bool := false
  sink : ω

namespace HtmlRenderer

variable {ω : Type} [Sink ω]

/-- Whether the page is open after a call that succeeds. -/
def opensAfter (isOpen : Bool) : RenderCall → Bool
  | .openDocument => true
  | .closeDocument => false
  | _ => isOpen

def perform (renderer : HtmlRenderer ω) (call : RenderCall) :
    Outcome RenderError (HtmlRenderer ω) :=
  match Html.callText renderer.options renderer.isOpen call with
  | .error error => .fail renderer error
  | .ok text =>
      let written := Sink.write renderer.sink text
      match written.failure? with
      | some cause =>
          .fail { renderer with sink := written.state } (.io cause)
      | none =>
          ⟨{ renderer with
              sink := written.state
              isOpen := opensAfter renderer.isOpen call }, none⟩

instance : Renderer (HtmlRenderer ω) := ⟨HtmlRenderer.isOpen, perform⟩

end HtmlRenderer
end DocTemplate
