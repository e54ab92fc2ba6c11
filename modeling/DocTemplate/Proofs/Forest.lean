import DocTemplate.Element
import DocTemplate.Markup.Event

/-!
# Forests

What stands between the start and the end of an element is a forest of texts
and elements.  Sessions never see it as one, they only get its events.  This
file has the forests that may stand inside a block: their elements are inline,
which means that each of them adds to the text of the block and nothing else.
-/

namespace DocTemplate

/-- Whether an element adds to the text around it. -/
def Element.isInline : Element → Bool
  | .value | .space | .lineBreak | .generic => true
  | _ => false

namespace Markup

/-- Texts and elements one after the other. -/
inductive Forest
  | nil
  | text (contents : String) (rest : Forest)
  | element (name : String) (own : OwnAttributes) (content rest : Forest)

namespace Forest

/-- The events of a forest in document order. -/
def events : Forest → List Event
  | nil => []
  | text contents rest => .text contents :: rest.events
  | element name own content rest =>
      .start name own :: (content.events ++ .stop name :: rest.events)

/-- Whether all elements are inline, in a document with this root. -/
def Inline (root : String) : Forest → Prop
  | nil => True
  | text _ rest => rest.Inline root
  | element name _ content rest =>
      (Text.lower name ≠ root ∧ (Element.ofName name).isInline = true) ∧
        content.Inline root ∧ rest.Inline root

end Forest
end Markup
end DocTemplate
