import DocTemplate.Assembly
import DocTemplate.Compile.Error
import DocTemplate.Markup.Event
import DocTemplate.Renderer.Basic

/-!
# Sessions

A session takes the markup events of a template one at a time and drives a
renderer.  It keeps no tree: besides the assembly there is only whether the
document is open and what has been reported.  After an event that fails the
session can go on; whatever the event had done until then remains.
-/

namespace DocTemplate

/-- How far the document has come. -/
inductive DocumentState
  | unopened
  | opened
  | closed
deriving DecidableEq, Repr

structure Session (σ : Type) where
  /-- The name of the root element, in small letters. -/
  root : String
  store : DataStore
  state : DocumentState := .unopened
  assembly : Assembly := {}
  diagnostics : List Diagnostic := []
  renderer : σ

namespace Session

variable {σ : Type}

/-- The reports of a store on its source. -/
def loadReports (store : DataStore) : List Diagnostic :=
  store.warnings.map fun warning => (Problem.loading warning).diagnostic

/-- A session before its first event. -/
def begin (root : String) (store : DataStore) (renderer : σ) : Session σ where
  root := Text.lower root
  store := store
  diagnostics := loadReports store
  renderer := renderer

def report (session : Session σ) (problem : Problem) : Session σ :=
  { session with diagnostics := session.diagnostics ++ [problem.diagnostic] }

variable [Renderer σ]

/-- Meets a request.  A rejection that is not fatal is reported. -/
def issue (session : Session σ) : Request → Outcome CompileError (Session σ)
  | .report problem => ⟨session.report problem, none⟩
  | .call call =>
      let outcome := Renderer.perform session.renderer call
      let performed := { session with renderer := outcome.state }
      match outcome.failure? with
      | none => ⟨performed, none⟩
      | some error =>
          if error.isFatal then
            .fail performed (.render error)
          else
            ⟨performed.report (.rejected error), none⟩

def issueAll (session : Session σ) (requests : List Request) :
    Outcome CompileError (Session σ) :=
  Outcome.fold issue session requests

def openDocument (session : Session σ) : Outcome CompileError (Session σ) :=
  if session.state ≠ .unopened ∨ Renderer.isOpen session.renderer then
    .fail session (.duplicateRoot session.root)
  else
    let outcome := Renderer.perform session.renderer .openDocument
    let performed := { session with renderer := outcome.state }
    match outcome.failure? with
    | some error => .fail performed (.openFailed error)
    | none => ⟨{ performed with state := .opened }, none⟩

def closeDocument (session : Session σ) : Outcome CompileError (Session σ) :=
  let outcome := Renderer.perform session.renderer .closeDocument
  let performed := { session with renderer := outcome.state }
  match outcome.failure? with
  | some error => .fail performed (.render error)
  | none => ⟨{ performed with state := .closed }, none⟩

/-- The error for an element that cannot stand where it does. -/
def misplaced (name : String) : Misplacement → CompileError
  | .notTableChild => .notTableChild name
  | .cellOutsideTable => .cellOutsideTable

/-- Starts an element other than the root in an open document. -/
def startInside (session : Session σ) (name : String)
    (own : OwnAttributes) : Outcome CompileError (Session σ) :=
  match session.assembly.start session.store (.ofName name) own with
  | (assembly, .ok requests) => { session with assembly }.issueAll requests
  | (assembly, .error misplacement) =>
      .fail { session with assembly } (misplaced name misplacement)

def start (session : Session σ) (name : String) (own : OwnAttributes) :
    Outcome CompileError (Session σ) :=
  if Text.lower name = session.root then
    session.openDocument
  else
    match session.state with
    | .unopened => .fail session (.notOpened name session.root)
    | .closed => .fail session (.afterClose name)
    | .opened =>
        if Renderer.isOpen session.renderer then
          session.startInside name own
        else
          .fail session (.render .notOpen)

def stop (session : Session σ) (name : String) :
    Outcome CompileError (Session σ) :=
  match session.state with
  | .opened =>
      if Text.lower name = session.root then
        session.closeDocument
      else
        let (assembly, requests) := session.assembly.stop (.ofName name)
        { session with assembly }.issueAll requests
  | _ => ⟨session, none⟩

/-- Adds character data, which counts only while the document is open. -/
def addText (session : Session σ) (text : String) : Session σ :=
  match session.state with
  | .opened => { session with assembly := session.assembly.addText text }
  | _ => session

/-- Takes one event. -/
def feed (session : Session σ) : Markup.Event →
    Outcome CompileError (Session σ)
  | .start name own => session.start name own
  | .stop name => session.stop name
  | .text text => ⟨session.addText text, none⟩

/-- Takes events up to the first that fails. -/
def feedAll (session : Session σ) (events : List Markup.Event) :
    Outcome CompileError (Session σ) :=
  Outcome.fold feed session events

omit [Renderer σ] in
/-- Everything that has been reported, if the document is complete. -/
def finish (session : Session σ) : Except CompileError (List Diagnostic) :=
  match session.state with
  | .closed => .ok session.diagnostics
  | .unopened => .error (.missingRoot session.root)
  | .opened => .error (.unexpectedEnd session.root)

end Session
end DocTemplate
