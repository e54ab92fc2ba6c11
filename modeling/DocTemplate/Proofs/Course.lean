import DocTemplate.Compile.Template
import DocTemplate.Proofs.Reaction

/-!
# Sessions that take the same course

Two sessions that differ only in their renderers react alike to every event,
and so ask their renderers for the same things until one of them has to stop.
What they ask for over a whole run is therefore a list that no renderer has a
part in, and a run comes to no more than delivering this list.

A renderer has to keep one promise for this: it is open from an opening that
it performed to a closing that it performed, and a call that it rejects does
not change whether it is.
-/

namespace DocTemplate

open Markup Renderer RenderCall

/-! ## Calls in their turns -/

namespace RenderCall

/-- Whether each of some calls comes in its turn, given whether the document
is open before the first. -/
def InTurns : Bool → List RenderCall → Prop
  | _, [] => True
  | isOpen, call :: rest =>
      call.inTurn isOpen = true ∧ InTurns call.leavesOpen rest

/-- Whether a document is open behind some calls. -/
def openBehind (isOpen : Bool) (calls : List RenderCall) : Bool :=
  calls.foldl (fun _ call => call.leavesOpen) isOpen

theorem inTurns_append {isOpen : Bool} {first second : List RenderCall} :
    InTurns isOpen (first ++ second) ↔
      InTurns isOpen first ∧ InTurns (openBehind isOpen first) second := by
  induction first generalizing isOpen with
  | nil => simp [InTurns, openBehind]
  | cons call rest ih => simp [InTurns, ih, and_assoc, openBehind]

theorem inTurns_of_isInner {calls : List RenderCall}
    (hinner : ∀ call ∈ calls, call.isInner = true) :
    InTurns true calls ∧ openBehind true calls = true := by
  induction calls with
  | nil => exact ⟨trivial, rfl⟩
  | cons call rest ih =>
      have hcall := hinner call List.mem_cons_self
      have hrest := ih fun later hlater =>
        hinner later (List.mem_cons_of_mem _ hlater)
      simp only [InTurns, openBehind, List.foldl_cons,
        leavesOpen_of_isInner hcall]
      exact ⟨⟨inTurn_of_isInner hcall, hrest.1⟩, hrest.2⟩

end RenderCall

/-! ## Renderers -/

/-- A renderer that is open from a performed opening to a performed closing. -/
class SteadyRenderer (σ : Type) [Renderer σ] : Prop where
  isOpen_performed (renderer : σ) (call : RenderCall) :
    (perform renderer call).failure? = none →
      isOpen (perform renderer call).state = call.leavesOpen
  isOpen_rejected (renderer : σ) (call : RenderCall) (error : RenderError) :
    (perform renderer call).failure? = some error →
      isOpen (perform renderer call).state = isOpen renderer

instance : SteadyRenderer Recorder where
  isOpen_performed recorder call := by
    obtain ⟨calls, isOpen⟩ := recorder
    cases isOpen <;> cases call <;> first | exact fun _ => rfl | exact nofun
  isOpen_rejected recorder call error := by
    obtain ⟨calls, isOpen⟩ := recorder
    cases isOpen <;> cases call <;> first | exact fun _ => rfl | exact nofun

/-- A renderer that performs every call of some kind in its turn. -/
structure PerformsInTurn (σ : Type) [Renderer σ]
    (kind : RenderCall → Prop) : Prop where
  failure?_perform (renderer : σ) (call : RenderCall) : kind call →
    call.inTurn (isOpen renderer) = true →
      (perform renderer call).failure? = none
  isOpen_perform (renderer : σ) (call : RenderCall) : kind call →
    call.inTurn (isOpen renderer) = true →
      isOpen (perform renderer call).state = call.leavesOpen

variable {σ : Type} [Renderer σ]

theorem AcceptingRenderer.performsInTurn [AcceptingRenderer σ] :
    PerformsInTurn σ fun _ => True where
  failure?_perform renderer call _ :=
    AcceptingRenderer.failure?_perform renderer call
  isOpen_perform renderer call _ :=
    AcceptingRenderer.isOpen_perform renderer call

/-- Performs calls one after the other, up to the first that is rejected. -/
def Renderer.replay (renderer : σ) (calls : List RenderCall) :
    Outcome RenderError σ :=
  Outcome.fold perform renderer calls

namespace PerformsInTurn

variable {kind : RenderCall → Prop} (h : PerformsInTurn σ kind)
include h

/-- Calls of the kind in their turns can be replayed, and none of them is
rejected. -/
theorem replay_eq {calls : List RenderCall} {renderer : σ}
    (hkind : ∀ call ∈ calls, kind call)
    (hturns : InTurns (isOpen renderer) calls) :
    replay renderer calls = ⟨performAll renderer calls, none⟩ := by
  induction calls generalizing renderer with
  | nil => rfl
  | cons call rest ih =>
      obtain ⟨hturn, hrest⟩ := hturns
      have hcall := hkind call List.mem_cons_self
      have hperform := h.failure?_perform renderer call hcall hturn
      rw [← h.isOpen_perform renderer call hcall hturn] at hrest
      have hreplay := ih
        (fun later hlater => hkind later (List.mem_cons_of_mem _ hlater)) hrest
      simp only [replay, Outcome.fold, Outcome.andThen, hperform]
      exact hreplay

/-- Requests whose calls are of the kind and come in their turns are all met:
the calls are performed and the problems reported. -/
theorem takeAll_eq {requests : List Request} {delivery : Delivery σ}
    (hkind : ∀ call ∈ Request.calls requests, kind call)
    (hturns : InTurns (isOpen delivery.renderer) (Request.calls requests)) :
    delivery.takeAll requests =
      ⟨⟨performAll delivery.renderer (Request.calls requests),
        delivery.diagnostics ++
          (Request.problems requests).map Problem.diagnostic⟩, none⟩ := by
  induction requests generalizing delivery with
  | nil => simp
  | cons request rest ih =>
      rw [Delivery.takeAll_cons]
      cases request with
      | report problem =>
          have hrest := @ih (delivery.report problem) hkind hturns
          simp only [Delivery.take, Outcome.andThen_ok, hrest]
          simp [Delivery.report]
      | call call =>
          simp only [Request.calls_call_cons, List.mem_cons,
            forall_eq_or_imp] at hkind
          obtain ⟨hturn, hturns⟩ := hturns
          have hperform :=
            h.failure?_perform delivery.renderer call hkind.1 hturn
          rw [← h.isOpen_perform delivery.renderer call hkind.1 hturn]
            at hturns
          have hrest := @ih { delivery with
            renderer := (perform delivery.renderer call).state }
              hkind.2 hturns
          simp only [Delivery.take, hperform, Outcome.andThen_ok, hrest]
          rfl

end PerformsInTurn

/-- What a recorder has recorded behind some calls in their turns. -/
theorem Recorder.performAll_inTurns {calls : List RenderCall}
    {recorder : Recorder} (hturns : InTurns recorder.isOpen calls) :
    performAll recorder calls =
      ⟨recorder.calls ++ calls, openBehind recorder.isOpen calls⟩ := by
  induction calls generalizing recorder with
  | nil => simp [openBehind]
  | cons call rest ih =>
      have hperform : (Renderer.perform recorder call).state =
          recorder.record call call.leavesOpen := by
        change (recorder.perform call).state = _
        rw [perform_inTurn hturns.1]
      rw [performAll_cons, hperform, ih hturns.2]
      simp [record, openBehind]

section Steady

variable [SteadyRenderer σ]

/-- Behind a call that does not end everything a renderer is open as the call
leaves it, be the call performed or rejected. -/
theorem Delivery.isOpen_take_call {delivery : Delivery σ} {call : RenderCall}
    (hturn : call.inTurn (isOpen delivery.renderer) = true)
    (hmet : (delivery.take (.call call)).failure? = none) :
    isOpen (delivery.take (.call call)).state.renderer = call.leavesOpen := by
  simp only [take] at hmet ⊢
  cases hperform : (perform delivery.renderer call).failure? with
  | none =>
      exact SteadyRenderer.isOpen_performed delivery.renderer call hperform
  | some error =>
      simp only [hperform] at hmet ⊢
      have hrejected :=
        SteadyRenderer.isOpen_rejected delivery.renderer call error hperform
      -- An opening or a closing that is rejected ends everything.
      cases call with
      | openDocument | closeDocument => cases hmet
      | _ =>
          split at hmet
          · cases hmet
          · exact hrejected.trans hturn

theorem Delivery.isOpen_takeAll {requests : List Request}
    {delivery : Delivery σ}
    (hturns : InTurns (isOpen delivery.renderer) (Request.calls requests))
    (hmet : (delivery.takeAll requests).failure? = none) :
    isOpen (delivery.takeAll requests).state.renderer =
      openBehind (isOpen delivery.renderer) (Request.calls requests) := by
  induction requests generalizing delivery with
  | nil => rfl
  | cons request rest ih =>
      rw [takeAll_cons] at hmet ⊢
      cases request with
      | report problem =>
          exact @ih (delivery.report problem) hturns hmet
      | call call =>
          obtain ⟨hturn, hturns⟩ := hturns
          have htake := isOpen_take_call hturn
          generalize delivery.take (.call call) = taken at htake hmet ⊢
          obtain ⟨next, failure | failure⟩ := taken
          · rw [Outcome.andThen_ok] at hmet ⊢
            have hopen : isOpen next.renderer = call.leavesOpen := htake rfl
            rw [← hopen] at hturns
            rw [ih hturns hmet, hopen]
            rfl
          · cases hmet

end Steady

namespace Session

/-! ## The course of a session -/

/-- The calls of a reaction come in their turns, and leave the renderer open
exactly if the document is open behind them. -/
theorem inTurns_reaction {session : Session σ} (hagree : session.InStep)
    (event : Event) :
    let calls := Request.calls (session.reaction event).requests
    InTurns (isOpen session.renderer) calls ∧
      (openBehind (isOpen session.renderer) calls = true ↔
        (session.reaction event).state = .opened) := by
  dsimp only
  have hreacts := session.reacts event
  generalize session.reaction event = reaction at hreacts ⊢
  cases hreacts with
  | refuses | passes | writes => exact ⟨trivial, hagree.symm⟩
  | opens hroot hclosed =>
      simp [InTurns, openBehind, RenderCall.inTurn, leavesOpen, hclosed]
  | misplaces hin hstart => exact ⟨trivial, iff_of_true hin.2.2 rfl⟩
  | starts hin hstart =>
      have hitems := Assembly.areItems_start hstart
      obtain ⟨hturns, hleaves⟩ :=
        inTurns_of_isInner fun call hcall => hitems.isInner hcall
      rw [hin.2.2]
      exact ⟨hturns, iff_of_true hleaves rfl⟩
  | closes hroot hstate =>
      have hopen := hagree.mp hstate
      simp [InTurns, openBehind, RenderCall.inTurn, leavesOpen, hopen]
  | @stops name hroot hstate =>
      have hopen := hagree.mp hstate
      have hitems := Assembly.areItems_stop session.assembly (.ofName name)
      obtain ⟨hturns, hleaves⟩ :=
        inTurns_of_isInner fun call hcall => hitems.isInner hcall
      rw [hopen]
      exact ⟨hturns, iff_of_true hleaves rfl⟩

/-- What a session asks for while it is fed events, up to the first that
fails. -/
def asked (session : Session σ) : List Event → List Request
  | [] => []
  | event :: rest =>
      (session.reaction event).requests ++
        if (session.feed event).succeeded then
          (session.feed event).state.asked rest
        else
          []

theorem asked_cons_of_ok {session : Session σ} {event : Event}
    (h : (session.feed event).failure? = none) (rest : List Event) :
    session.asked (event :: rest) =
      (session.reaction event).requests ++
        (session.feed event).state.asked rest := by
  simp [asked, Outcome.succeeded, h]

theorem asked_cons_of_fail {session : Session σ} {event : Event}
    {error : CompileError} (h : (session.feed event).failure? = some error)
    (rest : List Event) :
    session.asked (event :: rest) = (session.reaction event).requests := by
  simp [asked, Outcome.succeeded, h]

theorem asked_append {session : Session σ} {first : List Event}
    (hfirst : (session.feedAll first).failure? = none)
    (second : List Event) :
    session.asked (first ++ second) =
      session.asked first ++ (session.feedAll first).state.asked second := by
  induction first generalizing session with
  | nil => rfl
  | cons event rest ih =>
      have hevent := feed_ok_of_feedAll hfirst
      rw [feedAll_cons_of_ok hevent] at hfirst ⊢
      rw [List.cons_append, asked_cons_of_ok hevent, asked_cons_of_ok hevent,
        ih hfirst, List.append_assoc]

section Accepting

variable [AcceptingRenderer σ] {session : Session σ}

/-- A renderer that accepts everything meets every request of a reaction. -/
theorem takeAll_reaction (hagree : session.InStep) (event : Event) :
    session.delivery.takeAll (session.reaction event).requests =
      ⟨⟨performAll session.renderer
          (Request.calls (session.reaction event).requests),
        session.diagnostics ++
          (Request.problems (session.reaction event).requests).map
            Problem.diagnostic⟩, none⟩ :=
  AcceptingRenderer.performsInTurn.takeAll_eq (fun _ _ => trivial)
    (inTurns_reaction hagree event).1

theorem failure?_feed_accepting (hagree : session.InStep) (event : Event) :
    (session.feed event).failure? = (session.reaction event).refusal := by
  rw [failure?_feed, takeAll_reaction hagree]
  rfl

theorem state_feed_accepting (hagree : session.InStep) (event : Event) :
    (session.feed event).state.state = (session.reaction event).state := by
  rw [feed_eq_settle, takeAll_reaction hagree]
  rfl

/-- What a session asks for, it asks for in turn. -/
theorem inTurns_asked (hagree : session.InStep) (events : List Event) :
    InTurns (isOpen session.renderer)
      (Request.calls (session.asked events)) := by
  induction events generalizing session with
  | nil => trivial
  | cons event rest ih =>
      obtain ⟨hturns, hopen⟩ := inTurns_reaction hagree event
      have hnext := hagree.feed event
      have hbehind : openBehind (isOpen session.renderer)
            (Request.calls (session.reaction event).requests) =
          isOpen (session.feed event).state.renderer := by
        rw [Bool.eq_iff_iff, hopen, ← state_feed_accepting hagree event]
        exact hnext
      simp only [asked, Request.calls_append, inTurns_append, hbehind]
      refine ⟨hturns, ?_⟩
      split
      · exact ih hnext
      · trivial

/-- What a session asks for from the start of an element on. -/
theorem asked_start (hagree : session.InStep)
    (hstate : session.state = .opened) {name : String}
    (hname : Text.lower name ≠ session.root) {own : OwnAttributes}
    {assembly : Assembly} {requests : List Request}
    (hstart : session.assembly.start session.store (.ofName name) own =
      (assembly, .ok requests)) :
    let next := { session with assembly }.meet requests
    next.InStep ∧ ∀ rest, session.asked (.start name own :: rest) =
      requests ++ next.asked rest := by
  have hopen := hagree.mp hstate
  have hfeed : session.feed (.start name own) = _ :=
    start_opened hstate hopen hname hstart
  have hreaction :
      (session.reaction (.start name own)).requests = requests := by
    simp [reaction, reactionInside, hname, hstate, hopen, hstart]
  constructor
  · have hnext := hagree.feed (.start name own)
    rwa [hfeed] at hnext
  · intro rest
    rw [asked_cons_of_ok (by rw [hfeed]), hreaction, hfeed]

/-- What a session asks for from the end of an element on. -/
theorem asked_stop (hagree : session.InStep)
    (hstate : session.state = .opened) {name : String}
    (hname : Text.lower name ≠ session.root) {assembly : Assembly}
    {requests : List Request}
    (hstop : session.assembly.stop (.ofName name) = (assembly, requests)) :
    let next := { session with assembly }.meet requests
    next.InStep ∧ ∀ rest, session.asked (.stop name :: rest) =
      requests ++ next.asked rest := by
  have hfeed : session.feed (.stop name) = _ :=
    stop_opened hstate (hagree.mp hstate) hname hstop
  have hreaction : (session.reaction (.stop name)).requests = requests := by
    simp [reaction, hname, hstate, hstop]
  constructor
  · have hnext := hagree.feed (.stop name)
    rwa [hfeed] at hnext
  · intro rest
    rw [asked_cons_of_ok (by rw [hfeed]), hreaction, hfeed]

end Accepting

/-! ## Two sessions -/

/-- Sessions that differ only in their renderers and in what they have
reported. -/
structure SameCourse {τ : Type} (first : Session σ) (second : Session τ) :
    Prop where
  root_eq : first.root = second.root
  store_eq : first.store = second.store
  state_eq : first.state = second.state
  assembly_eq : first.assembly = second.assembly

variable {τ : Type} [Renderer τ] {first : Session σ} {second : Session τ}

omit [Renderer σ] in
theorem SameCourse.refl (session : Session σ) : session.SameCourse session :=
  ⟨rfl, rfl, rfl, rfl⟩

omit [Renderer σ] [Renderer τ] in
theorem SameCourse.begin (root : String) (store : DataStore) (renderer : σ)
    (other : τ) :
    (begin root store renderer).SameCourse (begin root store other) :=
  ⟨rfl, rfl, rfl, rfl⟩

theorem SameCourse.isOpen_eq (h : first.SameCourse second)
    (hfirst : first.InStep) (hsecond : second.InStep) :
    isOpen first.renderer = isOpen second.renderer := by
  unfold InStep at hfirst hsecond
  rw [Bool.eq_iff_iff, ← hfirst, ← hsecond, h.state_eq]

theorem SameCourse.reaction_eq (h : first.SameCourse second)
    (hfirst : first.InStep) (hsecond : second.InStep) (event : Event) :
    first.reaction event = second.reaction event := by
  have hopen := h.isOpen_eq hfirst hsecond
  obtain ⟨hroot, hstore, hstate, hassembly⟩ := h
  cases event with
  | start name own =>
      simp only [reaction, reactionInside, refuses, still, hroot, hstore,
        hstate, hassembly, hopen]
  | stop name => simp only [reaction, still, hroot, hstate, hassembly]
  | text text =>
      simp only [reaction, still, addText, hstate, hassembly]
      split <;> simp only [hassembly]

/-- A session goes on in step with its renderer as long as nothing fails,
even if calls are rejected. -/
theorem InStep.feed_steady [SteadyRenderer σ] {session : Session σ}
    (hagree : session.InStep) (event : Event)
    (hfeed : (session.feed event).failure? = none) :
    (session.feed event).state.InStep := by
  rw [failure?_feed, Option.or_eq_none_iff] at hfeed
  obtain ⟨hturns, hopen⟩ := inTurns_reaction hagree event
  have hbehind := @Delivery.isOpen_takeAll _ _ _ _ session.delivery hturns
    hfeed.1
  rw [feed_eq_settle]
  simp only [InStep, settle, Outcome.succeeded, hfeed.1, Option.isNone_none,
    if_true, hbehind]
  exact hopen.symm

theorem SameCourse.feed [AcceptingRenderer σ] (h : first.SameCourse second)
    (hfirst : first.InStep) (hsecond : second.InStep) (event : Event)
    (hmet : (second.delivery.takeAll
      (first.reaction event).requests).failure? = none) :
    (first.feed event).state.SameCourse (second.feed event).state := by
  have hplain := takeAll_reaction hfirst event
  simp only [feed_eq_settle, ← h.reaction_eq hfirst hsecond event, hplain]
  exact
    { root_eq := h.root_eq
      store_eq := h.store_eq
      state_eq := by simp [settle, Outcome.succeeded, hmet]
      assembly_eq := rfl }

/-- What a run comes to on any renderer, told by the run of a session on a
renderer that accepts everything: it delivers what that session asks for, and
fails where the delivery fails or else where that session fails. -/
theorem SameCourse.feedAll [AcceptingRenderer σ] [SteadyRenderer τ]
    (h : first.SameCourse second) (hfirst : first.InStep)
    (hsecond : second.InStep) (events : List Event) :
    let delivered := second.delivery.takeAll (first.asked events)
    (second.feedAll events).state.delivery = delivered.state ∧
      (second.feedAll events).failure? =
        delivered.failure?.or (first.feedAll events).failure? ∧
      (delivered.failure? = none →
        (first.feedAll events).state.SameCourse
          (second.feedAll events).state) := by
  induction events generalizing first second with
  | nil => exact ⟨rfl, rfl, fun _ => h⟩
  | cons event rest ih =>
      have hreaction := h.reaction_eq hfirst hsecond event
      have hdelivery := second.delivery_feed event
      have hfailure := second.failure?_feed event
      have hplain := failure?_feed_accepting hfirst event
      have hsteady := hsecond.feed_steady event
      rw [← hreaction] at hdelivery hfailure
      simp only [asked, Delivery.takeAll_append, feedAll_cons]
      cases hmet : (second.delivery.takeAll
        (first.reaction event).requests).failure? with
      | some failure =>
          rw [hmet, Option.some_or] at hfailure
          rw [Outcome.andThen_of_fail hmet, Outcome.andThen_of_fail hfailure,
            hmet]
          exact ⟨hdelivery, hfailure, nofun⟩
      | none =>
          have hnext := h.feed hfirst hsecond event hmet
          rw [hmet, Option.none_or] at hfailure
          rw [Outcome.andThen_of_ok hmet, ← hdelivery]
          cases hrefusal : (first.reaction event).refusal with
          | some error =>
              rw [hrefusal] at hfailure hplain
              rw [Outcome.andThen_of_fail hfailure,
                Outcome.andThen_of_fail hplain]
              have hrest : (first.feed event).succeeded = false := by
                rw [Outcome.succeeded, hplain]
                rfl
              simp only [hrest, Bool.false_eq_true, if_false,
                Delivery.takeAll_nil, Option.none_or]
              exact ⟨trivial, hfailure.trans hplain.symm, fun _ => hnext⟩
          | none =>
              rw [hrefusal] at hfailure hplain
              rw [Outcome.andThen_of_ok hfailure, Outcome.andThen_of_ok hplain]
              simp only [Outcome.succeeded, hplain, Option.isNone_none, if_true]
              exact ih hnext (hfirst.feed event)
                (hsteady hfailure)

/-- On a renderer that performs every call of some kind in its turn, a run
performs the calls that the plain session asks for, if they are of the kind,
and comes to the same end. -/
theorem SameCourse.feedAll_performing [AcceptingRenderer σ] [SteadyRenderer τ]
    {kind : RenderCall → Prop} (hperforms : PerformsInTurn τ kind)
    (h : first.SameCourse second) (hfirst : first.InStep)
    (hsecond : second.InStep) (events : List Event)
    (hkind : ∀ call ∈ Request.calls (first.asked events), kind call) :
    let asked := first.asked events
    (second.feedAll events).state.delivery =
        ⟨performAll second.renderer (Request.calls asked),
          second.diagnostics ++
            (Request.problems asked).map Problem.diagnostic⟩ ∧
      (second.feedAll events).failure? = (first.feedAll events).failure? ∧
      (first.feedAll events).state.SameCourse
        (second.feedAll events).state := by
  have hturns := inTurns_asked hfirst events
  rw [h.isOpen_eq hfirst hsecond] at hturns
  have hdelivered : second.delivery.takeAll (first.asked events) = _ :=
    hperforms.takeAll_eq hkind hturns
  obtain ⟨hdelivery, hfailure, hcourse⟩ := h.feedAll hfirst hsecond events
  simp only [hdelivered] at hdelivery hfailure hcourse
  exact ⟨hdelivery, hfailure, hcourse trivial⟩

/-- Sessions on the same course ask for the same things, and stay on it. -/
theorem SameCourse.asked_eq [AcceptingRenderer σ] [AcceptingRenderer τ]
    (h : first.SameCourse second) (hfirst : first.InStep)
    (hsecond : second.InStep) {events : List Event}
    (hok : (first.feedAll events).failure? = none) :
    second.asked events = first.asked events ∧
      (second.feedAll events).failure? = none ∧
      (first.feedAll events).state.SameCourse
        (second.feedAll events).state := by
  induction events generalizing first second with
  | nil => exact ⟨rfl, rfl, h⟩
  | cons event rest ih =>
      have hreaction := h.reaction_eq hfirst hsecond event
      have hevent := feed_ok_of_feedAll hok
      have hevent' : (second.feed event).failure? = none := by
        rw [failure?_feed_accepting hsecond, ← hreaction,
          ← failure?_feed_accepting hfirst]
        exact hevent
      have hmet : (second.delivery.takeAll
          (first.reaction event).requests).failure? = none := by
        rw [hreaction, takeAll_reaction hsecond]
      have hnext := h.feed hfirst hsecond event hmet
      rw [feedAll_cons_of_ok hevent] at hok ⊢
      rw [feedAll_cons_of_ok hevent', asked_cons_of_ok hevent,
        asked_cons_of_ok hevent', hreaction]
      obtain ⟨hasked, hrest⟩ :=
        ih hnext (hfirst.feed event) (hsecond.feed event) hok
      exact ⟨by rw [hasked], hrest⟩

/-- A recorder records what its session asks for. -/
theorem feedAll_recorder {session : Session Recorder}
    (hagree : session.InStep) (events : List Event) :
    (session.feedAll events).state.renderer.calls =
        session.renderer.calls ++ Request.calls (session.asked events) ∧
      (session.feedAll events).state.diagnostics =
        session.diagnostics ++
          (Request.problems (session.asked events)).map
            Problem.diagnostic := by
  obtain ⟨hdelivery, -⟩ := (SameCourse.refl session).feedAll_performing
    AcceptingRenderer.performsInTurn hagree hagree events fun _ _ => trivial
  rw [Recorder.performAll_inTurns (inTurns_asked hagree events)] at hdelivery
  constructor
  · exact congrArg (fun delivery => delivery.renderer.calls) hdelivery
  · exact congrArg Delivery.diagnostics hdelivery

omit [Renderer σ] [Renderer τ] in
/-- Sessions that have taken the same course to the same end finish alike, but
for what they have reported. -/
theorem SameCourse.result_eq {plain : Outcome CompileError (Session σ)}
    {other : Outcome CompileError (Session τ)}
    (h : plain.state.SameCourse other.state)
    (hfailure : other.failure? = plain.failure?)
    (markupError : Option MarkupError) :
    (Compiled.ofOutcome other markupError).result =
      (Compiled.ofOutcome plain markupError).result.map
        fun _ => other.state.diagnostics := by
  simp only [Compiled.ofOutcome, hfailure]
  cases plain.failure? with
  | some error => rfl
  | none =>
      cases markupError with
      | some error => rfl
      | none =>
          simp only [finish, ← h.state_eq, ← h.root_eq]
          cases plain.state.state <;> rfl

end Session
end DocTemplate
