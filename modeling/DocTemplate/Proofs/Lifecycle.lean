import DocTemplate.Proofs.Replay

/-!
# The life of a document

A renderer takes calls in any order, also those that are out of turn: a
document is opened while it is open, or asked for something while it is not.
What is out of turn is refused and changes nothing.  So which calls succeed,
and when the document is open, follows from the calls alone, and the recorder
and the page renderer go through the same life as long as there is a form for
every call.  What has been recorded is one document after the other, the last
one perhaps unfinished.
-/

namespace DocTemplate

open Renderer RenderCall

/-! ## Calls in turn and out of turn -/

/-- How a call is refused that is out of turn. -/
def RenderCall.refusal : RenderCall → RenderError
  | openDocument => .alreadyOpen
  | _ => .notOpen

/-- Whether a document that is open or not is open behind a call. -/
def RenderCall.openAfter (isOpen : Bool) (call : RenderCall) : Bool :=
  if call.inTurn isOpen then call.leavesOpen else isOpen

/-- A renderer that performs the calls of some kind in their turn, and that no
call changes that is out of turn. -/
structure KeepsTurns (σ : Type) [Renderer σ]
    (kind : RenderCall → Prop) : Prop extends PerformsInTurn σ kind where
  perform_outOfTurn (renderer : σ) (call : RenderCall) :
    call.inTurn (isOpen renderer) = false →
      perform renderer call = .fail renderer call.refusal

namespace KeepsTurns

variable {σ : Type} [Renderer σ] {kind : RenderCall → Prop}
  (hturns : KeepsTurns σ kind)
include hturns

theorem failure?_eq (renderer : σ) {call : RenderCall} (hkind : kind call) :
    (perform renderer call).failure? =
      if call.inTurn (isOpen renderer) then none else some call.refusal := by
  cases hturn : call.inTurn (isOpen renderer) with
  | true =>
      rw [if_pos rfl]
      exact hturns.failure?_perform renderer call hkind hturn
  | false =>
      rw [hturns.perform_outOfTurn renderer call hturn]
      rfl

theorem isOpen_eq (renderer : σ) {call : RenderCall} (hkind : kind call) :
    isOpen (perform renderer call).state =
      call.openAfter (isOpen renderer) := by
  rw [openAfter]
  cases hturn : call.inTurn (isOpen renderer) with
  | true =>
      rw [if_pos rfl]
      exact hturns.isOpen_perform renderer call hkind hturn
  | false =>
      rw [hturns.perform_outOfTurn renderer call hturn]
      rfl

/-- Whether a document is open depends on nothing but the calls. -/
theorem isOpen_performAll (renderer : σ) {calls : List RenderCall}
    (hkind : ∀ call ∈ calls, kind call) :
    isOpen (performAll renderer calls) =
      calls.foldl openAfter (isOpen renderer) := by
  induction calls generalizing renderer with
  | nil => rfl
  | cons call rest ih =>
      rw [List.forall_mem_cons] at hkind
      rw [performAll_cons, ih (perform renderer call).state hkind.2,
        hturns.isOpen_eq renderer hkind.1]
      rfl

theorem state_of_failure {renderer : σ} {call : RenderCall}
    (hkind : kind call) {error : RenderError}
    (hfailure : (perform renderer call).failure? = some error) :
    (perform renderer call).state = renderer ∧ error = call.refusal := by
  have hfailed := hturns.failure?_eq renderer hkind
  rw [hfailure] at hfailed
  cases hturn : call.inTurn (isOpen renderer) with
  | true =>
      rw [hturn] at hfailed
      cases hfailed
  | false =>
      rw [hturn] at hfailed
      rw [hturns.perform_outOfTurn renderer call hturn]
      exact ⟨rfl, Option.some.inj hfailed⟩

end KeepsTurns

theorem Recorder.keepsTurns : KeepsTurns Recorder fun _ => True where
  toPerformsInTurn := AcceptingRenderer.performsInTurn
  perform_outOfTurn recorder call hturn := by
    obtain ⟨calls, isOpen⟩ := recorder
    cases isOpen <;> cases call <;> first | rfl | cases hturn

theorem Html.callText_outOfTurn (options : PageOptions) {isOpen : Bool}
    {call : RenderCall} (hturn : call.inTurn isOpen = false) :
    callText options isOpen call = .error call.refusal := by
  cases isOpen <;> cases call <;> first | rfl | cases hturn

theorem HtmlRenderer.keepsTurns :
    KeepsTurns (HtmlRenderer Buffer) Presentable where
  toPerformsInTurn := performsInTurn
  perform_outOfTurn renderer call hturn := by
    have htext : Html.callText renderer.options renderer.isOpen call =
        .error call.refusal := Html.callText_outOfTurn renderer.options hturn
    simp only [Renderer.perform, HtmlRenderer.perform, htext]

/-! ## Recorded documents -/

/-- The calls of a whole document. -/
def RenderCall.wholeDocument (inner : List RenderCall) : List RenderCall :=
  openDocument :: inner ++ [closeDocument]

/-- Calls of whole documents one after the other, and if a document is open,
of that document behind them. -/
inductive AreDocuments : Bool → List RenderCall → Prop
  | complete {documents : List (List RenderCall)}
      (hinner : ∀ inner ∈ documents, ∀ call ∈ inner, call.isInner = true) :
      AreDocuments false (documents.flatMap wholeDocument)
  | unfinished {documents : List (List RenderCall)}
      {last : List RenderCall}
      (hinner : ∀ inner ∈ documents, ∀ call ∈ inner, call.isInner = true)
      (hlast : ∀ call ∈ last, call.isInner = true) :
      AreDocuments true
        (documents.flatMap wholeDocument ++ openDocument :: last)

namespace AreDocuments

variable {calls : List RenderCall}

theorem append_openDocument (h : AreDocuments false calls) :
    AreDocuments true (calls ++ [openDocument]) := by
  cases h with
  | complete hinner => exact .unfinished hinner (by simp)

theorem append_inner (h : AreDocuments true calls) {call : RenderCall}
    (hcall : call.isInner = true) : AreDocuments true (calls ++ [call]) := by
  cases h with
  | @unfinished documents last hinner hlast =>
      rw [List.append_assoc, List.cons_append]
      refine .unfinished hinner fun other hother => ?_
      rcases List.mem_append.mp hother with hearlier | hnew
      · exact hlast other hearlier
      · exact List.mem_singleton.mp hnew ▸ hcall

theorem append_closeDocument (h : AreDocuments true calls) :
    AreDocuments false (calls ++ [closeDocument]) := by
  cases h with
  | @unfinished documents last hinner hlast =>
      have hcalls : documents.flatMap wholeDocument ++ openDocument :: last ++
          [closeDocument] = (documents ++ [last]).flatMap wholeDocument := by
        simp [wholeDocument]
      rw [hcalls]
      refine .complete fun inner hdocument => ?_
      rcases List.mem_append.mp hdocument with hearlier | hnew
      · exact hinner inner hearlier
      · exact List.mem_singleton.mp hnew ▸ hlast

theorem append_inTurn {isOpen : Bool} (h : AreDocuments isOpen calls)
    {call : RenderCall} (hturn : call.inTurn isOpen = true) :
    AreDocuments call.leavesOpen (calls ++ [call]) := by
  cases isOpen with
  | false =>
      cases call with
      | openDocument => exact h.append_openDocument
      | _ => cases hturn
  | true =>
      cases call with
      | openDocument => cases hturn
      | closeDocument => exact h.append_closeDocument
      | _ => exact h.append_inner rfl

end AreDocuments

namespace Recorder

theorem areDocuments_perform {recorder : Recorder}
    (h : AreDocuments recorder.isOpen recorder.calls) (call : RenderCall) :
    let after := (Renderer.perform recorder call).state
    AreDocuments after.isOpen after.calls := by
  intro after
  cases hturn : call.inTurn recorder.isOpen with
  | true =>
      have hafter : after = recorder.record call call.leavesOpen :=
        congrArg Outcome.state (perform_inTurn hturn)
      rw [hafter]
      exact h.append_inTurn hturn
  | false =>
      have hafter : after = recorder :=
        congrArg Outcome.state (keepsTurns.perform_outOfTurn recorder call hturn)
      rw [hafter]
      exact h

theorem areDocuments_performAll {recorder : Recorder}
    (h : AreDocuments recorder.isOpen recorder.calls)
    (calls : List RenderCall) :
    let after := performAll recorder calls
    AreDocuments after.isOpen after.calls := by
  induction calls generalizing recorder with
  | nil => exact h
  | cons call rest ih => exact ih (areDocuments_perform h call)

end Recorder

/-! ## Two renderers -/

/-- Behind any calls that there is a form for, in whatever order, the recorder
and a page on a sink that takes everything agree on whether the document is
open and on how the next call ends.  A call that fails leaves no trace on
either side, and what has been recorded is one document after the other. -/
theorem lifecycles_agree (options : Html.PageOptions)
    (calls : List RenderCall) (call : RenderCall)
    (hcalls : ∀ earlier ∈ calls, earlier.Presentable)
    (hcall : call.Presentable) :
    let recorder := performAll ({} : Recorder) calls
    let page :=
      performAll ({ options, sink := {} } : HtmlRenderer Buffer) calls
    let recorded := perform recorder call
    let written := perform page call
    isOpen recorder = isOpen page ∧
      isOpen recorded.state = isOpen written.state ∧
      recorded.failure? = written.failure? ∧
      (recorded.failure? = none ↔ call.inTurn (isOpen recorder) = true) ∧
      (recorded.failure? = none →
        recorded.state.calls = recorder.calls ++ [call]) ∧
      (∀ error, recorded.failure? = some error →
        recorded.state = recorder ∧ written.state = page ∧
          error = call.refusal) ∧
      AreDocuments (isOpen recorder) recorder.calls := by
  intro recorder page recorded written
  have hopen : isOpen recorder = isOpen page := by
    have hrecorder : isOpen recorder = _ :=
      Recorder.keepsTurns.isOpen_performAll {} fun _ _ => trivial
    have hpage := HtmlRenderer.keepsTurns.isOpen_performAll
      { options, sink := {} } hcalls
    exact hrecorder.trans hpage.symm
  have hrecorded : recorded.failure? = _ :=
    Recorder.keepsTurns.failure?_eq recorder trivial
  have hwritten : written.failure? = _ :=
    HtmlRenderer.keepsTurns.failure?_eq page hcall
  have hfailures : recorded.failure? = written.failure? := by
    rw [hrecorded, hwritten, hopen]
  have hsucceeds : recorded.failure? = none ↔
      call.inTurn (isOpen recorder) = true := by
    rw [hrecorded]
    cases call.inTurn (isOpen recorder) <;> simp
  refine ⟨hopen, ?_, hfailures, hsucceeds, ?_, ?_, ?_⟩
  · have hrecordedOpen : isOpen recorded.state = _ :=
      Recorder.keepsTurns.isOpen_eq recorder trivial
    have hwrittenOpen : isOpen written.state = _ :=
      HtmlRenderer.keepsTurns.isOpen_eq page hcall
    rw [hrecordedOpen, hwrittenOpen, hopen]
  · intro hsucceeded
    have hturn : call.inTurn recorder.isOpen = true :=
      hsucceeds.mp hsucceeded
    have hrecord : recorded = _ := Recorder.perform_inTurn hturn
    rw [hrecord]
    rfl
  · intro error hfailed
    obtain ⟨hstate, herror⟩ :=
      Recorder.keepsTurns.state_of_failure trivial hfailed
    obtain ⟨hkept, -⟩ :=
      HtmlRenderer.keepsTurns.state_of_failure hcall (hfailures ▸ hfailed)
    exact ⟨hstate, hkept, herror⟩
  · have hfresh : AreDocuments false ([].flatMap wholeDocument) :=
      .complete (List.forall_mem_nil _)
    exact Recorder.areDocuments_performAll hfresh calls

/-- Two documents, with a call before the first, an opening inside it, and one
more closing between them than there should be. -/
theorem lifecycles_agree_misplaced :
    let calls : List RenderCall :=
      [newPage, openDocument, openDocument,
        block ⟨.title, [{ contents := "A" }]⟩, closeDocument, closeDocument,
        openDocument, image ⟨"b.png"⟩]
    let recorder := performAll ({} : Recorder) calls
    let page := performAll ({ sink := {} } : HtmlRenderer Buffer) calls
    (∀ earlier ∈ calls, earlier.Presentable) ∧
      RenderCall.Presentable openDocument ∧
      recorder.calls.length = 5 ∧
      isOpen recorder = isOpen page ∧
      (perform recorder openDocument).failure? = some .alreadyOpen ∧
      (perform page openDocument).failure? = some .alreadyOpen ∧
      (perform page openDocument).state = page ∧
      AreDocuments true recorder.calls := by
  intro calls recorder page
  have hcalls : ∀ earlier ∈ calls, earlier.Presentable := by
    simp [calls, Presentable]
  have hfailed : (perform recorder openDocument).failure? =
      some .alreadyOpen := by decide +kernel
  obtain ⟨hopen, -, hfailures, -, -, hkept, hdocuments⟩ :=
    lifecycles_agree {} calls openDocument hcalls trivial
  exact ⟨hcalls, trivial, by decide +kernel, hopen, hfailed,
    hfailures ▸ hfailed, (hkept _ hfailed).2.1, hdocuments⟩

end DocTemplate
