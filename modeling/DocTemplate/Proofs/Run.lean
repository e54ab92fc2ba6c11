import DocTemplate.Proofs.Accepting
import DocTemplate.Proofs.Placement

/-!
# Steps and runs of a session

On a renderer that accepts everything an event can do only a few things to a
session, and which of them it does is decided by the session alone.  `Step`
lists them with what they presuppose.  A run takes one event after the other
and goes on behind those that fail; what holds after every event of a run is
proved by cases on `Step`.
-/

namespace DocTemplate

open Renderer

namespace Session

variable {σ : Type} [Renderer σ]

/-- The session and its renderer agree on whether the document is open. -/
def InStep (session : Session σ) : Prop :=
  session.state = .opened ↔ isOpen session.renderer = true

theorem InStep.isOpen_eq_false {session : Session σ}
    (hagree : session.InStep) (hstate : session.state ≠ .opened) :
    isOpen session.renderer = false := by
  rw [← Bool.not_eq_true]
  exact fun hopen => hstate (hagree.mpr hopen)

/-! ## What an event can do -/

/-- What an event does to a session on a renderer that accepts everything,
under the conditions for it. -/
inductive Step (session : Session σ) :
    Markup.Event → Outcome CompileError (Session σ) → Prop
  | opens {name : String} {own : OwnAttributes}
      (hroot : Text.lower name = session.root)
      (hstate : session.state = .unopened) :
      Step session (.start name own)
        ⟨{ session with
            state := .opened
            renderer := (perform session.renderer .openDocument).state }, none⟩
  | repeats {name : String} {own : OwnAttributes}
      (hroot : Text.lower name = session.root)
      (hstate : session.state ≠ .unopened) :
      Step session (.start name own)
        (.fail session (.duplicateRoot session.root))
  | early {name : String} {own : OwnAttributes}
      (hroot : Text.lower name ≠ session.root)
      (hstate : session.state = .unopened) :
      Step session (.start name own)
        (.fail session (.notOpened name session.root))
  | late {name : String} {own : OwnAttributes}
      (hroot : Text.lower name ≠ session.root)
      (hstate : session.state = .closed) :
      Step session (.start name own) (.fail session (.afterClose name))
  | misplaces {name : String} {own : OwnAttributes} {assembly : Assembly}
      {misplacement : Misplacement}
      (hroot : Text.lower name ≠ session.root)
      (hstate : session.state = .opened)
      (hstart : session.assembly.start session.store (.ofName name) own =
        (assembly, .error misplacement)) :
      Step session (.start name own)
        (.fail { session with assembly } (misplaced name misplacement))
  | starts {name : String} {own : OwnAttributes} {assembly : Assembly}
      {requests : List Request}
      (hroot : Text.lower name ≠ session.root)
      (hstate : session.state = .opened)
      (hstart : session.assembly.start session.store (.ofName name) own =
        (assembly, .ok requests)) :
      Step session (.start name own)
        ⟨{ session with assembly }.meet requests, none⟩
  | passes {name : String} (hstate : session.state ≠ .opened) :
      Step session (.stop name) ⟨session, none⟩
  | closes {name : String}
      (hroot : Text.lower name = session.root)
      (hstate : session.state = .opened) :
      Step session (.stop name)
        ⟨{ session with
            state := .closed
            renderer := (perform session.renderer .closeDocument).state },
          none⟩
  | stops {name : String} {assembly : Assembly} {requests : List Request}
      (hroot : Text.lower name ≠ session.root)
      (hstate : session.state = .opened)
      (hstop : session.assembly.stop (.ofName name) = (assembly, requests)) :
      Step session (.stop name)
        ⟨{ session with assembly }.meet requests, none⟩
  | writes {text : String} (hstate : session.state = .opened) :
      Step session (.text text)
        ⟨{ session with assembly := session.assembly.addText text }, none⟩
  | ignores {text : String} (hstate : session.state ≠ .opened) :
      Step session (.text text) ⟨session, none⟩

section Accepting

variable [AcceptingRenderer σ]

theorem openDocument_unopened {session : Session σ}
    (hstate : session.state = .unopened)
    (hclosed : isOpen session.renderer = false) :
    session.openDocument =
      ⟨{ session with
          state := .opened
          renderer := (perform session.renderer .openDocument).state },
        none⟩ := by
  have hperform := AcceptingRenderer.failure?_perform session.renderer
    .openDocument (by simp [RenderCall.inTurn, hclosed])
  simp [openDocument, hstate, hclosed, hperform]

theorem closeDocument_opened {session : Session σ}
    (hopen : isOpen session.renderer = true) :
    session.closeDocument =
      ⟨{ session with
          state := .closed
          renderer := (perform session.renderer .closeDocument).state },
        none⟩ := by
  have hperform := AcceptingRenderer.failure?_perform session.renderer
    .closeDocument hopen
  simp [closeDocument, hperform]

omit [AcceptingRenderer σ] in
theorem start_eq_startInside {session : Session σ}
    (hstate : session.state = .opened)
    (hopen : isOpen session.renderer = true) {name : String}
    (hroot : Text.lower name ≠ session.root) (own : OwnAttributes) :
    session.start name own = session.startInside name own := by
  simp [start, hroot, hstate, hopen]

theorem start_opened {session : Session σ} (hstate : session.state = .opened)
    (hopen : isOpen session.renderer = true) {name : String}
    (hroot : Text.lower name ≠ session.root) {own : OwnAttributes}
    {assembly : Assembly} {requests : List Request}
    (hstart : session.assembly.start session.store (.ofName name) own =
      (assembly, .ok requests)) :
    session.start name own =
      ⟨{ session with assembly }.meet requests, none⟩ := by
  rw [start_eq_startInside hstate hopen hroot, startInside, hstart]
  exact issueAll_eq_meet hopen
    fun call hcall => (Assembly.areItems_start hstart).isInner hcall

theorem stop_opened {session : Session σ} (hstate : session.state = .opened)
    (hopen : isOpen session.renderer = true) {name : String}
    (hroot : Text.lower name ≠ session.root) {assembly : Assembly}
    {requests : List Request}
    (hstop : session.assembly.stop (.ofName name) = (assembly, requests)) :
    session.stop name =
      ⟨{ session with assembly }.meet requests, none⟩ := by
  have hitems := Assembly.areItems_stop session.assembly (.ofName name)
  rw [hstop] at hitems
  simp only [stop, hstate, hroot, if_false, hstop]
  exact issueAll_eq_meet hopen fun call hcall => hitems.isInner hcall

theorem feed_stop_opened {session : Session σ}
    (hstate : session.state = .opened)
    (hopen : isOpen session.renderer = true) {name : String}
    (hroot : Text.lower name ≠ session.root) :
    let stopped := session.assembly.stop (.ofName name)
    session.feed (.stop name) =
      ⟨{ session with assembly := stopped.1 }.meet stopped.2, none⟩ :=
  stop_opened hstate hopen hroot rfl

theorem step_start {session : Session σ} (hagree : session.InStep)
    (name : String) (own : OwnAttributes) :
    session.Step (.start name own) (session.start name own) := by
  by_cases hroot : Text.lower name = session.root
  · have hopenDocument :
        session.start name own = session.openDocument := by
      simp [start, hroot]
    rw [hopenDocument]
    by_cases hstate : session.state = .unopened
    · have hclosed := hagree.isOpen_eq_false (by simp [hstate])
      rw [openDocument_unopened hstate hclosed]
      exact .opens hroot hstate
    · rw [openDocument, if_pos (.inl hstate)]
      exact .repeats hroot hstate
  · cases hstate : session.state with
    | unopened =>
        simp only [start, hroot, if_false, hstate]
        exact .early hroot hstate
    | closed =>
        simp only [start, hroot, if_false, hstate]
        exact .late hroot hstate
    | opened =>
        have hopen := hagree.mp hstate
        cases hstart :
            session.assembly.start session.store (.ofName name) own with
        | mk assembly started =>
            cases started with
            | error misplacement =>
                rw [start_eq_startInside hstate hopen hroot, startInside,
                  hstart]
                exact .misplaces hroot hstate hstart
            | ok requests =>
                rw [start_opened hstate hopen hroot hstart]
                exact .starts hroot hstate hstart

theorem step_stop {session : Session σ} (hagree : session.InStep)
    (name : String) : session.Step (.stop name) (session.stop name) := by
  by_cases hstate : session.state = .opened
  · have hopen := hagree.mp hstate
    by_cases hroot : Text.lower name = session.root
    · have hcloseDocument :
          session.stop name = session.closeDocument := by
        simp [stop, hstate, hroot]
      rw [hcloseDocument, closeDocument_opened hopen]
      exact .closes hroot hstate
    · rw [stop_opened hstate hopen hroot rfl]
      exact .stops hroot hstate rfl
  · have hpasses : session.stop name = ⟨session, none⟩ := by
      cases hcase : session.state <;> simp_all [stop]
    rw [hpasses]
    exact .passes hstate

omit [AcceptingRenderer σ] in
theorem step_text (session : Session σ) (text : String) :
    session.Step (.text text) ⟨session.addText text, none⟩ := by
  by_cases hstate : session.state = .opened
  · have hwrites : session.addText text =
        { session with assembly := session.assembly.addText text } := by
      simp [addText, hstate]
    rw [hwrites]
    exact .writes hstate
  · have hignores : session.addText text = session := by
      cases hcase : session.state <;> simp_all [addText]
    rw [hignores]
    exact .ignores hstate

theorem step_feed {session : Session σ} (hagree : session.InStep)
    (event : Markup.Event) : session.Step event (session.feed event) := by
  cases event with
  | start name own => exact step_start hagree name own
  | stop name => exact step_stop hagree name
  | text text => exact step_text session text

/-! ## The session and its renderer stay in step -/

theorem isOpen_meet {session : Session σ} {requests : List Request}
    (hopen : isOpen session.renderer = true)
    (hitems : RenderCall.AreItems (Request.calls requests)) :
    isOpen (session.meet requests).renderer = true :=
  isOpen_performAll hopen fun _ hcall => hitems.isInner hcall

theorem InStep.feed {session : Session σ} (hagree : session.InStep)
    (event : Markup.Event) : (session.feed event).state.InStep := by
  have hstep := step_feed hagree event
  generalize session.feed event = outcome at hstep
  cases hstep with
  | opens hroot hstate =>
      have hclosed := hagree.isOpen_eq_false (by simp [hstate])
      have hopen := AcceptingRenderer.isOpen_perform session.renderer
        .openDocument (by simp [RenderCall.inTurn, hclosed])
      exact iff_of_true rfl hopen
  | closes hroot hstate =>
      have hclosed := AcceptingRenderer.isOpen_perform session.renderer
        .closeDocument (hagree.mp hstate)
      exact iff_of_false (by simp) (by simp [hclosed, RenderCall.leavesOpen])
  | starts hroot hstate hstart =>
      exact iff_of_true hstate
        (isOpen_meet (hagree.mp hstate) (Assembly.areItems_start hstart))
  | @stops name assembly requests hroot hstate hstop =>
      have hitems := Assembly.areItems_stop session.assembly (.ofName name)
      rw [hstop] at hitems
      exact iff_of_true hstate (isOpen_meet (hagree.mp hstate) hitems)
  | repeats | early | late | misplaces | passes | writes | ignores =>
      exact hagree

end Accepting

/-! ## Runs -/

@[simp] theorem feedAll_nil (session : Session σ) :
    session.feedAll [] = ⟨session, none⟩ := rfl

theorem feedAll_cons (session : Session σ) (event : Markup.Event)
    (rest : List Markup.Event) :
    session.feedAll (event :: rest) =
      (session.feed event).andThen fun next => next.feedAll rest := rfl

theorem feedAll_cons_of_ok {session : Session σ} {event : Markup.Event}
    (h : (session.feed event).failure? = none) (rest : List Markup.Event) :
    session.feedAll (event :: rest) =
      (session.feed event).state.feedAll rest := by
  rw [feedAll_cons, Outcome.andThen_of_ok h]

/-- Events are all taken only if the first is. -/
theorem feed_ok_of_feedAll {session : Session σ} {event : Markup.Event}
    {rest : List Markup.Event}
    (h : (session.feedAll (event :: rest)).failure? = none) :
    (session.feed event).failure? = none := by
  rw [feedAll_cons] at h
  cases hevent : (session.feed event).failure? with
  | none => rfl
  | some error =>
      rw [Outcome.andThen_of_fail hevent] at h
      exact hevent.symm.trans h

theorem feedAll_append (session : Session σ)
    (first second : List Markup.Event) :
    session.feedAll (first ++ second) =
      (session.feedAll first).andThen fun next => next.feedAll second :=
  Outcome.fold_append feed session first second

/-- Events are all taken exactly if those in front are, and then the rest. -/
theorem feedAll_append_ok_iff {session : Session σ}
    {first second : List Markup.Event} :
    (session.feedAll (first ++ second)).failure? = none ↔
      (session.feedAll first).failure? = none ∧
        ((session.feedAll first).state.feedAll second).failure? = none := by
  rw [feedAll_append]
  cases hfirst : (session.feedAll first).failure? with
  | none => simp [Outcome.andThen_of_ok hfirst]
  | some error => simp [Outcome.andThen_of_fail hfirst, hfirst]

theorem state_feedAll_append {session : Session σ}
    {first : List Markup.Event}
    (hfirst : (session.feedAll first).failure? = none)
    (second : List Markup.Event) :
    (session.feedAll (first ++ second)).state =
      ((session.feedAll first).state.feedAll second).state := by
  rw [feedAll_append, Outcome.andThen_of_ok hfirst]

theorem inStep_begin {renderer : σ} (hclosed : isOpen renderer = false)
    (root : String) (store : DataStore) :
    (begin root store renderer).InStep :=
  iff_of_false (by simp [begin]) (by simp [begin, hclosed])

/-- Takes events one after the other, also behind those that fail. -/
def run (session : Session σ) (events : List Markup.Event) : Session σ :=
  events.foldl (fun current event => (current.feed event).state) session

@[simp] theorem run_nil (session : Session σ) : session.run [] = session := rfl

@[simp] theorem run_cons (session : Session σ) (event : Markup.Event)
    (rest : List Markup.Event) :
    session.run (event :: rest) = (session.feed event).state.run rest := rfl

/-- What every event preserves holds after every run. -/
theorem run_preserves {holds : Session σ → Prop}
    (hfeed : ∀ session, holds session → ∀ event,
      holds (session.feed event).state)
    {session : Session σ} (h : holds session) (events : List Markup.Event) :
    holds (session.run events) := by
  induction events generalizing session with
  | nil => exact h
  | cons event rest ih => exact ih (hfeed session h event)

/-- A run that does not fail is the same as feeding all events. -/
theorem run_eq_of_feedAll {session after : Session σ}
    {events : List Markup.Event}
    (hfeed : session.feedAll events = ⟨after, none⟩) :
    session.run events = after := by
  induction events generalizing session with
  | nil => cases hfeed; rfl
  | cons event rest ih =>
      rw [feedAll_cons] at hfeed
      rw [run_cons]
      generalize session.feed event = outcome at hfeed
      obtain ⟨next, failure⟩ := outcome
      cases failure with
      | none => exact ih hfeed
      | some error => cases hfeed

theorem InStep.feedAll [AcceptingRenderer σ] {session : Session σ}
    (hagree : session.InStep) (events : List Markup.Event) :
    (session.feedAll events).state.InStep := by
  induction events generalizing session with
  | nil => exact hagree
  | cons event rest ih =>
      rw [feedAll_cons]
      cases hevent : (session.feed event).failure? with
      | none =>
          rw [Outcome.andThen_of_ok hevent]
          exact ih (hagree.feed event)
      | some error =>
          rw [Outcome.andThen_of_fail hevent]
          exact hagree.feed event

/-- An element that an open document takes has been started by the
assembly. -/
theorem start_of_ok [AcceptingRenderer σ] {session : Session σ}
    (hagree : session.InStep) (hstate : session.state = .opened)
    {name : String} {own : OwnAttributes}
    (hok : (session.feed (.start name own)).failure? = none) :
    Text.lower name ≠ session.root ∧
      ∃ assembly requests,
        session.assembly.start session.store (.ofName name) own =
            (assembly, .ok requests) ∧
          session.feed (.start name own) =
            ⟨{ session with assembly }.meet requests, none⟩ := by
  have hstep := step_feed hagree (.start name own)
  generalize session.feed (.start name own) = outcome at hstep hok
  cases hstep with
  | opens hroot hunopened => cases hstate.symm.trans hunopened
  | repeats | early | late | misplaces => cases hok
  | starts hroot hopened hstart => exact ⟨hroot, _, _, hstart, rfl⟩

/-- An element other than the root is taken only in an open document, and in a
table only if it is a cell. -/
theorem inside_of_ok [AcceptingRenderer σ] {session : Session σ}
    (hagree : session.InStep) {name : String} {own : OwnAttributes}
    (hname : Text.lower name ≠ session.root)
    (hok : (session.feed (.start name own)).failure? = none) :
    session.state = .opened ∧
      (session.assembly.table.isSome = true ↔
        Element.ofName name = .cell) := by
  have hstep := step_feed hagree (.start name own)
  generalize session.feed (.start name own) = outcome at hstep hok
  cases hstep with
  | opens hroot hunopened => exact absurd hroot hname
  | repeats | early | late | misplaces => cases hok
  | starts hroot hopened hstart =>
      exact ⟨hopened, (Assembly.start_ok hstart).1⟩

/-- A session that some events lead to, on a renderer that was not open. -/
def Reachable (session : Session σ) : Prop :=
  ∃ root store renderer events, isOpen renderer = false ∧
    session = (begin root store renderer).run events

theorem InStep.run [AcceptingRenderer σ] {session : Session σ}
    (hagree : session.InStep) (events : List Markup.Event) :
    (session.run events).InStep :=
  run_preserves (fun _ hcurrent event => hcurrent.feed event) hagree events

theorem Reachable.inStep [AcceptingRenderer σ] {session : Session σ}
    (h : session.Reachable) : session.InStep := by
  obtain ⟨root, store, renderer, events, hclosed, rfl⟩ := h
  exact (inStep_begin hclosed root store).run events

end Session
end DocTemplate
