import DocTemplate.Data.Store
import DocTemplate.Element
import DocTemplate.Markup.Reader

/-!
# The placeholders of a template

The ids that a template asks its data source for, in the order in which they
first occur.
-/

namespace DocTemplate

/-- The id that an event asks for. -/
def Markup.Event.placeholderId? : Markup.Event → Option String
  | .start name own =>
      if Element.ofName name = .value then own.lookup "id" else none
  | _ => none

/-- Keeps the first of equal texts. -/
def firstOccurrences (list : List String) : List String :=
  list.foldl
    (fun known text => if known.contains text then known else known ++ [text])
    []

/-- The ids of the placeholders of a template. -/
def placeholderIds (template : String) :
    Except Markup.MarkupError (List String) :=
  match Markup.read template with
  | (_, some error) => .error error
  | (events, none) =>
      .ok (firstOccurrences (events.filterMap (·.placeholderId?)))

end DocTemplate
