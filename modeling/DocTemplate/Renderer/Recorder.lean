import DocTemplate.Renderer.Basic

/-!
# Recording the calls of a document

A recorder keeps every call that it performs.  What stands in the record is
all there is to know of a document, so the record serves for looking at what
a template compiles to.  A recorder can also be told to reject some calls; a
rejected call leaves it as it was.
-/

namespace DocTemplate

structure Recorder where
  calls : List RenderCall := []
  isOpen : Bool := false
deriving DecidableEq, Repr

namespace Recorder

def record (recorder : Recorder) (call : RenderCall) (opened : Bool) :
    Recorder :=
  ⟨recorder.calls ++ [call], opened⟩

def perform (recorder : Recorder) (call : RenderCall) :
    Outcome RenderError Recorder :=
  match call, recorder.isOpen with
  | .openDocument, true => .fail recorder .alreadyOpen
  | .openDocument, false => ⟨recorder.record call true, none⟩
  | _, false => .fail recorder .notOpen
  | .closeDocument, true => ⟨recorder.record call false, none⟩
  | _, true => ⟨recorder.record call true, none⟩

instance : Renderer Recorder := ⟨isOpen, perform⟩

/-- The blocks among the calls. -/
def blocks (recorder : Recorder) : List Block :=
  recorder.calls.filterMap fun
    | .block block => some block
    | _ => none

/-- The tables among the calls. -/
def tables (recorder : Recorder) : List Table :=
  recorder.calls.filterMap fun
    | .table table => some table
    | _ => none

end Recorder

/-- Which calls are rejected, and with which error. -/
abbrev Rejection := RenderCall → Option RenderError

/-- A recorder that rejects some calls. -/
structure SelectiveRecorder where
  rejection : Rejection
  recorder : Recorder := {}

namespace SelectiveRecorder

def perform (selective : SelectiveRecorder) (call : RenderCall) :
    Outcome RenderError SelectiveRecorder :=
  match selective.rejection call with
  | some error => .fail selective error
  | none =>
      let outcome := selective.recorder.perform call
      ⟨{ selective with recorder := outcome.state }, outcome.failure?⟩

instance : Renderer SelectiveRecorder :=
  ⟨fun selective => selective.recorder.isOpen, perform⟩

end SelectiveRecorder
end DocTemplate
