import DocTemplate.Outcome
import DocTemplate.Renderer.Call

/-!
# Renderers

A renderer in a state `σ` performs one call after the other.  It knows nothing
of templates or data; all that it needs is in the call.  Whether its document
is open can be asked at any time.
-/

namespace DocTemplate

class Renderer (σ : Type) where
  isOpen : σ → Bool
  perform : σ → RenderCall → Outcome RenderError σ

end DocTemplate
