import DocTemplate.Proofs.Run

/-!
# What a session asks of its renderer

An event has two sides.  What it does to the assembly and to the document, and
what it asks of the renderer, the session decides alone; the renderer decides
only how far it comes with what it is asked for.  This file takes the sides
apart.  A reaction is the first, a delivery the second, and feeding an event is
nothing but delivering its reaction.  So two sessions that differ in their
renderers ask for the same things, as long as neither has to stop.
-/

namespace DocTemplate

open Markup Renderer RenderCall

/-! ## Deliveries -/

/-- The error in which a rejected call ends, if the document cannot go on
without it. -/
def RenderCall.ending? : RenderCall → RenderError → Option CompileError
  | openDocument, error => some (.openFailed error)
  | closeDocument, error => some (.render error)
  | _, error => if error.isFatal then some (.render error) else none

theorem RenderCall.ending?_of_isInner {call : RenderCall}
    (hinner : call.isInner = true) (error : RenderError) :
    call.ending? error =
      if error.isFatal then some (.render error) else none := by
  cases call <;> first | rfl | exact absurd hinner (by decide)

/-- A renderer, and what has been reported up to now. -/
structure Delivery (σ : Type) where
  renderer : σ
  diagnostics : List Diagnostic

namespace Delivery

variable {σ : Type}

def report (delivery : Delivery σ) (problem : Problem) : Delivery σ :=
  { delivery with
    diagnostics := delivery.diagnostics ++ [problem.diagnostic] }

variable [Renderer σ]

/-- Meets a request.  A rejection that the document can go on without is
reported. -/
def take (delivery : Delivery σ) :
    Request → Outcome CompileError (Delivery σ)
  | .report problem => ⟨delivery.report problem, none⟩
  | .call call =>
      let outcome := perform delivery.renderer call
      let performed := { delivery with renderer := outcome.state }
      match outcome.failure? with
      | none => ⟨performed, none⟩
      | some error =>
          match call.ending? error with
          | some failure => .fail performed failure
          | none => ⟨performed.report (.rejected error), none⟩

/-- Meets requests up to the first that ends everything. -/
def takeAll (delivery : Delivery σ) (requests : List Request) :
    Outcome CompileError (Delivery σ) :=
  Outcome.fold take delivery requests

@[simp] theorem takeAll_nil (delivery : Delivery σ) :
    delivery.takeAll [] = ⟨delivery, none⟩ := rfl

theorem takeAll_cons (delivery : Delivery σ) (request : Request)
    (rest : List Request) :
    delivery.takeAll (request :: rest) =
      (delivery.take request).andThen fun next => next.takeAll rest := rfl

theorem takeAll_append (delivery : Delivery σ)
    (first second : List Request) :
    delivery.takeAll (first ++ second) =
      (delivery.takeAll first).andThen fun next => next.takeAll second :=
  Outcome.fold_append take delivery first second

end Delivery

/-! ## Reactions -/

/-- What an event comes to, apart from what the renderer makes of it: the
assembly behind it, its requests, the state of the document once all of them
are met, and the error if the event is refused. -/
structure Reaction where
  assembly : Assembly
  requests : List Request := []
  state : DocumentState
  refusal : Option CompileError := none

namespace Session

variable {σ : Type}

def delivery (session : Session σ) : Delivery σ :=
  ⟨session.renderer, session.diagnostics⟩

/-- The reaction that changes nothing. -/
def still (session : Session σ) : Reaction where
  assembly := session.assembly
  state := session.state

def refuses (session : Session σ) (error : CompileError) : Reaction :=
  { session.still with refusal := some error }

/-- What remains of a reaction after its requests have been delivered, be it
only in part. -/
def settle (session : Session σ) (reaction : Reaction)
    (delivered : Outcome CompileError (Delivery σ)) :
    Outcome CompileError (Session σ) where
  state :=
    { session with
      assembly := reaction.assembly
      state := if delivered.succeeded then reaction.state else session.state
      diagnostics := delivered.state.diagnostics
      renderer := delivered.state.renderer }
  failure? := delivered.failure?.or reaction.refusal

variable [Renderer σ]

/-- The reaction to the start of an element other than the root in an open
document. -/
def reactionInside (session : Session σ) (name : String)
    (own : OwnAttributes) : Reaction :=
  match session.assembly.start session.store (.ofName name) own with
  | (assembly, .ok requests) => ⟨assembly, requests, session.state, none⟩
  | (assembly, .error misplacement) =>
      ⟨assembly, [], session.state, some (misplaced name misplacement)⟩

def reaction (session : Session σ) : Event → Reaction
  | .start name own =>
      if Text.lower name = session.root then
        if session.state ≠ .unopened ∨ isOpen session.renderer then
          session.refuses (.duplicateRoot session.root)
        else
          ⟨session.assembly, [.call .openDocument], .opened, none⟩
      else
        match session.state with
        | .unopened => session.refuses (.notOpened name session.root)
        | .closed => session.refuses (.afterClose name)
        | .opened =>
            if isOpen session.renderer then
              session.reactionInside name own
            else
              session.refuses (.render .notOpen)
  | .stop name =>
      match session.state with
      | .opened =>
          if Text.lower name = session.root then
            ⟨session.assembly, [.call .closeDocument], .closed, none⟩
          else
            let (assembly, requests) := session.assembly.stop (.ofName name)
            ⟨assembly, requests, session.state, none⟩
      | _ => session.still
  | .text text =>
      { session.still with assembly := (session.addText text).assembly }

/-- What an event can come to, under the conditions for it. -/
inductive Reacts (session : Session σ) : Event → Reaction → Prop
  | refuses {name : String} {own : OwnAttributes} (error : CompileError)
      (hout : ¬(Text.lower name ≠ session.root ∧ session.state = .opened ∧
        isOpen session.renderer = true)) :
      Reacts session (.start name own) (session.refuses error)
  | opens {name : String} {own : OwnAttributes}
      (hroot : Text.lower name = session.root)
      (hclosed : isOpen session.renderer = false) :
      Reacts session (.start name own)
        ⟨session.assembly, [.call .openDocument], .opened, none⟩
  | misplaces {name : String} {own : OwnAttributes} {assembly : Assembly}
      {misplacement : Misplacement}
      (hin : Text.lower name ≠ session.root ∧ session.state = .opened ∧
        isOpen session.renderer = true)
      (hstart : session.assembly.start session.store (.ofName name) own =
        (assembly, .error misplacement)) :
      Reacts session (.start name own)
        ⟨assembly, [], .opened, some (misplaced name misplacement)⟩
  | starts {name : String} {own : OwnAttributes} {assembly : Assembly}
      {requests : List Request}
      (hin : Text.lower name ≠ session.root ∧ session.state = .opened ∧
        isOpen session.renderer = true)
      (hstart : session.assembly.start session.store (.ofName name) own =
        (assembly, .ok requests)) :
      Reacts session (.start name own) ⟨assembly, requests, .opened, none⟩
  | passes {name : String} (hstate : session.state ≠ .opened) :
      Reacts session (.stop name) session.still
  | closes {name : String} (hroot : Text.lower name = session.root)
      (hstate : session.state = .opened) :
      Reacts session (.stop name)
        ⟨session.assembly, [.call .closeDocument], .closed, none⟩
  | stops {name : String} (hroot : Text.lower name ≠ session.root)
      (hstate : session.state = .opened) :
      Reacts session (.stop name)
        ⟨(session.assembly.stop (.ofName name)).1,
          (session.assembly.stop (.ofName name)).2, .opened, none⟩
  | writes (text : String) :
      Reacts session (.text text)
        { session.still with assembly := (session.addText text).assembly }

theorem reacts_start (session : Session σ) (name : String)
    (own : OwnAttributes) :
    session.Reacts (.start name own) (session.reaction (.start name own)) := by
  simp only [reaction]
  by_cases hroot : Text.lower name = session.root
  · rw [if_pos hroot]
    split
    · exact .refuses _ fun hin => hin.1 hroot
    · rename_i hfresh
      simp only [not_or, Bool.not_eq_true] at hfresh
      exact .opens hroot hfresh.2
  · rw [if_neg hroot]
    cases hstate : session.state with
    | unopened | closed => exact .refuses _ (by simp [hstate])
    | opened =>
        dsimp only
        split
        · rename_i hopen
          have hin := And.intro hroot (And.intro hstate hopen)
          unfold reactionInside
          split
          · rename_i hstart
            rw [hstate]
            exact .starts hin hstart
          · rename_i hstart
            rw [hstate]
            exact .misplaces hin hstart
        · rename_i hopen
          exact .refuses _ fun hin => hopen hin.2.2

theorem reacts_stop (session : Session σ) (name : String) :
    session.Reacts (.stop name) (session.reaction (.stop name)) := by
  simp only [reaction]
  cases hstate : session.state with
  | unopened | closed => exact .passes (by simp [hstate])
  | opened =>
      dsimp only
      split
      · rename_i hroot
        exact .closes hroot hstate
      · rename_i hroot
        exact .stops hroot hstate

theorem reacts (session : Session σ) (event : Event) :
    session.Reacts event (session.reaction event) := by
  cases event with
  | start name own => exact session.reacts_start name own
  | stop name => exact session.reacts_stop name
  | text text => exact .writes text

/-! ## Feeding is delivering -/

omit [Renderer σ] in
theorem settle_nil (session : Session σ) (assembly : Assembly)
    (refusal : Option CompileError) :
    session.settle ⟨assembly, [], session.state, refusal⟩
        ⟨session.delivery, none⟩ =
      ⟨{ session with assembly }, refusal⟩ := by
  simp [settle, delivery, Outcome.succeeded]

theorem issueAll_eq_settle {requests : List Request} {session : Session σ}
    (hinner : ∀ call ∈ Request.calls requests, call.isInner = true) :
    session.issueAll requests =
      session.settle { session.still with requests }
        (session.delivery.takeAll requests) := by
  induction requests generalizing session with
  | nil => exact (settle_nil session _ _).symm
  | cons request rest ih =>
      simp only [issueAll, Outcome.fold] at ih ⊢
      rw [Delivery.takeAll_cons]
      cases request with
      | report problem => exact @ih (session.report problem) hinner
      | call call =>
          simp only [Request.calls_call_cons, List.mem_cons,
            forall_eq_or_imp] at hinner
          simp only [issue, Delivery.take, delivery,
            ending?_of_isInner hinner.1]
          cases (perform session.renderer call).failure? with
          | none =>
              exact @ih { session with
                renderer := (perform session.renderer call).state } hinner.2
          | some error =>
              dsimp only
              split
              · simp [settle, still, Outcome.fail, Outcome.andThen,
                  Outcome.succeeded]
              · exact @ih (Session.report { session with
                  renderer := (perform session.renderer call).state }
                    (.rejected error)) hinner.2

theorem startInside_eq_settle (session : Session σ) (name : String)
    (own : OwnAttributes) :
    session.startInside name own =
      session.settle (session.reactionInside name own)
        (session.delivery.takeAll
          (session.reactionInside name own).requests) := by
  unfold startInside reactionInside
  cases hstart : session.assembly.start session.store (.ofName name) own with
  | mk assembly started =>
      cases started with
      | error misplacement => exact (settle_nil session _ _).symm
      | ok requests =>
          have hitems := Assembly.areItems_start hstart
          dsimp only
          rw [issueAll_eq_settle fun call hcall => hitems.isInner hcall]
          rfl

/-- Feeding an event is delivering what it asks for. -/
theorem feed_eq_settle (session : Session σ) (event : Event) :
    session.feed event =
      session.settle (session.reaction event)
        (session.delivery.takeAll (session.reaction event).requests) := by
  cases event with
  | start name own =>
      simp only [feed, start, reaction]
      split
      · unfold openDocument
        split
        · exact (settle_nil session _ _).symm
        · simp only [Delivery.takeAll_cons, Delivery.take, delivery]
          cases (perform session.renderer .openDocument).failure? <;> rfl
      · cases hstate : session.state with
        | unopened | closed => exact (settle_nil session _ _).symm
        | opened =>
            dsimp only
            split
            · exact session.startInside_eq_settle name own
            · exact (settle_nil session _ _).symm
  | stop name =>
      simp only [feed, stop, reaction]
      cases hstate : session.state with
      | unopened | closed => exact (settle_nil session _ _).symm
      | opened =>
          dsimp only
          split
          · unfold closeDocument
            simp only [Delivery.takeAll_cons, Delivery.take, delivery]
            cases (perform session.renderer .closeDocument).failure? <;> rfl
          · have hitems :=
              Assembly.areItems_stop session.assembly (.ofName name)
            rw [issueAll_eq_settle fun call hcall => hitems.isInner hcall]
            simp only [settle, hstate]
            rfl
  | text text =>
      have hadd : session.addText text =
          { session with assembly := (session.addText text).assembly } := by
        unfold addText
        split <;> rfl
      rw [feed, hadd]
      exact (settle_nil session _ _).symm

variable (session : Session σ) (event : Event)

theorem assembly_feed :
    (session.feed event).state.assembly =
      (session.reaction event).assembly := by
  rw [feed_eq_settle]
  rfl

theorem root_feed : (session.feed event).state.root = session.root := by
  rw [feed_eq_settle]
  rfl

theorem store_feed : (session.feed event).state.store = session.store := by
  rw [feed_eq_settle]
  rfl

theorem store_run (events : List Event) :
    (session.run events).store = session.store := by
  induction events generalizing session with
  | nil => rfl
  | cons event rest ih =>
      rw [run_cons, ih, store_feed]

/-- What every event leaves as it is, some events leave as it is. -/
theorem eq_of_feedAll {α : Type} {field : Session σ → α}
    (hfeed : ∀ (session : Session σ) event,
      field (session.feed event).state = field session)
    (events : List Event) :
    field (session.feedAll events).state = field session := by
  induction events generalizing session with
  | nil => rfl
  | cons event rest ih =>
      rw [feedAll_cons]
      cases hevent : (session.feed event).failure? with
      | none => rw [Outcome.andThen_of_ok hevent, ih, hfeed]
      | some error => rw [Outcome.andThen_of_fail hevent, hfeed]

theorem root_feedAll (events : List Event) :
    (session.feedAll events).state.root = session.root :=
  session.eq_of_feedAll root_feed events

theorem store_feedAll (events : List Event) :
    (session.feedAll events).state.store = session.store :=
  session.eq_of_feedAll store_feed events

theorem delivery_feed :
    (session.feed event).state.delivery =
      (session.delivery.takeAll (session.reaction event).requests).state := by
  rw [feed_eq_settle]
  rfl

theorem failure?_feed :
    (session.feed event).failure? =
      (session.delivery.takeAll (session.reaction event).requests).failure?.or
        (session.reaction event).refusal := by
  rw [feed_eq_settle]
  rfl

end Session
end DocTemplate
