import DocTemplate.Markup.Reader

/-!
# Reading event by event

A cursor gives the events of a template one at a time, each when it is asked
for, and cuts no more of the template than that takes.  An element without
content is one piece but two events, so its end may have to wait.  Once a
cursor has come to an error or to the end of the template it stays there.
-/

namespace DocTemplate
namespace Markup

structure Cursor where
  /-- What has not been cut yet. -/
  rest : List Char
  place : Place := {}
  /-- The end of an element without content whose start has been given. -/
  pendingEnd? : Option String := none
  done : Bool := false

/-- What a cursor gives: nothing at the end of the template. -/
abbrev Answer := Option (Except MarkupError Event)

/-- The end that belongs to the start of the same piece. -/
def Piece.ownEnd? : Piece → Option String
  | .emptyTag content => some (String.ofList (tagName content))
  | _ => none

namespace Cursor

/-- A cursor before the first event of a template. -/
def of (source : String) : Cursor :=
  { rest := withoutByteOrderMark source.toList }

/-- A cursor that gives nothing any more. -/
def stopped (place : Place) (rest : List Char) : Cursor :=
  { rest, place, done := true }

/-- Goes on to the next piece that has an event. -/
def advance (place : Place) (text : List Char) : Answer × Cursor :=
  match text with
  | [] => (none, stopped place [])
  | first :: rest =>
      match _hcut : cutPiece first rest with
      | .error fault =>
          (some (.error ⟨fault.problem, place.offset + fault.offset⟩),
            stopped place rest)
      | .ok (piece, behind) =>
          match place.take piece with
          | .error error => (some (.error error), stopped place behind)
          | .ok ([], next) => advance next behind
          | .ok (event :: _, next) =>
              (some (.ok event),
                { rest := behind, place := next, pendingEnd? := piece.ownEnd? })
  termination_by text.length
  decreasing_by
    have := cutPiece_length _hcut
    simp only [List.length_cons]
    omega

/-- Gives the next event, and the cursor behind it. -/
def next (cursor : Cursor) : Answer × Cursor :=
  if cursor.done then
    (none, cursor)
  else
    match cursor.pendingEnd? with
    | some name => (some (.ok (.stop name)), { cursor with pendingEnd? := none })
    | none => advance cursor.place cursor.rest

/-- What a cursor gives when it is asked once more than so many times. -/
def answer (cursor : Cursor) : Nat → Answer
  | 0 => cursor.next.1
  | asked + 1 => cursor.next.2.answer asked

end Cursor
end Markup
end DocTemplate
