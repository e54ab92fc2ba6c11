import DocTemplate.Markup.Attribute
import DocTemplate.Markup.Event
import DocTemplate.Markup.Piece

/-!
# Reading markup

The events of a template come from its pieces in order.  An end tag has to
name the element that is innermost at that place, letter for letter.  Reading
stops at the first error, and the events before it stand.  Elements that are
still open at the end of a template are no error of the markup.
-/

namespace DocTemplate
namespace Markup

/-- The name in an end tag, without the blanks behind it. -/
def endName (content : List Char) : List Char :=
  if content.all Text.isSpace then
    content
  else
    Text.dropTrailing Text.isSpace content

/-- The start of an element, from the content of its tag. -/
def startEvent (content : List Char) : Except MarkupProblem Event := do
  let own ← attributes content
  return .start (String.ofList (tagName content)) own

/-- Where reading stands: the bytes before it, and the names of the elements
that are open, the innermost first. -/
structure Place where
  offset : Nat := 0
  openNames : List String := []
deriving DecidableEq, Repr

/-- The place behind a piece that opens and closes nothing. -/
def Place.behind (place : Place) (piece : Piece) : Place :=
  { place with offset := place.offset + Text.byteCount piece.source }

/-- The events of a piece, and the place behind it. -/
def Place.take (place : Place) (piece : Piece) :
    Except MarkupError (List Event × Place) :=
  let next := place.behind piece
  match piece with
  | .text contents =>
      match unescape contents with
      | .ok text => .ok ([.text text], next)
      | .error problem => .error ⟨.text problem, next.offset⟩
  | .literal contents => .ok ([.text (String.ofList contents)], next)
  | .skipped _ => .ok ([], next)
  | .startTag content =>
      match startEvent content with
      | .ok event =>
          let name := String.ofList (tagName content)
          .ok ([event], { next with openNames := name :: next.openNames })
      | .error problem => .error ⟨problem, next.offset⟩
  | .emptyTag content =>
      match startEvent content with
      | .ok event =>
          let name := String.ofList (tagName content)
          .ok ([event, .stop name], next)
      | .error problem => .error ⟨problem, next.offset⟩
  | .endTag content =>
      let found := String.ofList (endName content)
      match place.openNames with
      | [] => .error ⟨.strayEnd found, place.offset⟩
      | expected :: outer =>
          if found = expected then
            .ok ([.stop found], { next with openNames := outer })
          else
            .error ⟨.wrongEnd expected found, place.offset⟩

/-- The events of a list of pieces, behind which the template may stop being
markup. -/
def eventsFrom (place : Place) (fault : Option PieceFault) :
    List Piece → List Event × Option MarkupError
  | [] =>
      ([], fault.map fun fault =>
        ⟨fault.problem, place.offset + fault.offset⟩)
  | piece :: rest =>
      match place.take piece with
      | .error error => ([], some error)
      | .ok (events, next) =>
          let (others, error) := eventsFrom next fault rest
          (events ++ others, error)

/-- The text of a template without the mark that tells its encoding. -/
def withoutByteOrderMark (source : List Char) : List Char :=
  match source with
  | '\ufeff' :: rest => rest
  | text => text

/-- The events of a template up to its first error. -/
def read (source : String) : List Event × Option MarkupError :=
  let (list, fault) := pieces (withoutByteOrderMark source.toList)
  eventsFrom {} fault list

end Markup
end DocTemplate
