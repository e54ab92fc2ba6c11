import DocTemplate.Compile.Session
import DocTemplate.Proofs.Items
import DocTemplate.Renderer.Recorder

/-!
# Sessions on a renderer that accepts everything

A renderer accepts everything if it refuses no call that comes in its turn.
On such a renderer every request of an element is met: its calls are performed
in order and its problems are reported, and nothing else happens.
-/

namespace DocTemplate

open RenderCall

/-! ## Renderers that accept everything -/

/-- Whether a document that is open or not admits a call. -/
def RenderCall.inTurn (isOpen : Bool) : RenderCall → Bool
  | openDocument => !isOpen
  | _ => isOpen

def RenderCall.leavesOpen : RenderCall → Bool
  | closeDocument => false
  | _ => true

/-- A renderer that performs every call in its turn, and that says whether
its document is open. -/
class AcceptingRenderer (σ : Type) [Renderer σ] : Prop where
  failure?_perform (renderer : σ) (call : RenderCall) :
    call.inTurn (Renderer.isOpen renderer) = true →
      (Renderer.perform renderer call).failure? = none
  isOpen_perform (renderer : σ) (call : RenderCall) :
    call.inTurn (Renderer.isOpen renderer) = true →
      Renderer.isOpen (Renderer.perform renderer call).state =
        call.leavesOpen

theorem Recorder.perform_inTurn {recorder : Recorder} {call : RenderCall}
    (hturn : call.inTurn recorder.isOpen = true) :
    recorder.perform call = ⟨recorder.record call call.leavesOpen, none⟩ := by
  obtain ⟨calls, isOpen⟩ := recorder
  cases isOpen <;> cases call <;>
    first | rfl | exact absurd hturn Bool.false_ne_true

instance : AcceptingRenderer Recorder where
  failure?_perform recorder call hturn := by
    change (recorder.perform call).failure? = none
    rw [Recorder.perform_inTurn hturn]
  isOpen_perform recorder call hturn := by
    change (recorder.perform call).state.isOpen = call.leavesOpen
    rw [Recorder.perform_inTurn hturn]
    rfl

variable {σ : Type} [Renderer σ]

/-- What a renderer becomes by a list of calls. -/
def Renderer.performAll (renderer : σ) (calls : List RenderCall) : σ :=
  calls.foldl (fun current call => (Renderer.perform current call).state)
    renderer

open Renderer

@[simp] theorem Renderer.performAll_nil (renderer : σ) :
    performAll renderer [] = renderer := rfl

@[simp] theorem Renderer.performAll_cons (renderer : σ) (call : RenderCall)
    (rest : List RenderCall) :
    performAll renderer (call :: rest) =
      performAll (perform renderer call).state rest := rfl

theorem RenderCall.inTurn_of_isInner {call : RenderCall}
    (hinner : call.isInner = true) : call.inTurn true = true := by
  cases call <;> first | rfl | exact absurd hinner (by decide)

theorem RenderCall.leavesOpen_of_isInner {call : RenderCall}
    (hinner : call.isInner = true) : call.leavesOpen = true := by
  cases call <;> first | rfl | exact absurd hinner (by decide)

theorem Renderer.isOpen_perform_inner [AcceptingRenderer σ] {renderer : σ}
    (hopen : isOpen renderer = true) {call : RenderCall}
    (hinner : call.isInner = true) :
    isOpen (perform renderer call).state = true := by
  rw [AcceptingRenderer.isOpen_perform renderer call
    (hopen ▸ inTurn_of_isInner hinner)]
  exact leavesOpen_of_isInner hinner

theorem Renderer.isOpen_performAll [AcceptingRenderer σ]
    {calls : List RenderCall} {renderer : σ}
    (hopen : isOpen renderer = true)
    (hinner : ∀ call ∈ calls, call.isInner = true) :
    isOpen (performAll renderer calls) = true := by
  induction calls generalizing renderer with
  | nil => exact hopen
  | cons call rest ih =>
      rw [performAll_cons]
      exact ih (isOpen_perform_inner hopen (hinner call List.mem_cons_self))
        fun later hlater => hinner later (List.mem_cons_of_mem _ hlater)

theorem Recorder.performAll_inner {calls : List RenderCall}
    {recorder : Recorder} (hopen : recorder.isOpen = true)
    (hinner : ∀ call ∈ calls, call.isInner = true) :
    performAll recorder calls = ⟨recorder.calls ++ calls, true⟩ := by
  induction calls generalizing recorder with
  | nil =>
      obtain ⟨calls, isOpen⟩ := recorder
      subst hopen
      simp
  | cons call rest ih =>
      have hcall := hinner call List.mem_cons_self
      have hperform : (Renderer.perform recorder call).state =
          recorder.record call true := by
        change (recorder.perform call).state = _
        rw [perform_inTurn (hopen ▸ inTurn_of_isInner hcall),
          leavesOpen_of_isInner hcall]
      rw [performAll_cons, hperform,
        ih rfl fun later hlater => hinner later (List.mem_cons_of_mem _ hlater)]
      simp [record]

namespace Session

/-! ## Meeting requests -/

/-- The session after some requests, each of which has been met. -/
def meet (session : Session σ) (requests : List Request) : Session σ :=
  { session with
    renderer := performAll session.renderer (Request.calls requests)
    diagnostics := session.diagnostics ++
      (Request.problems requests).map Problem.diagnostic }

@[simp] theorem meet_nil (session : Session σ) : session.meet [] = session := by
  simp [meet]

theorem issue_report (session : Session σ) (problem : Problem) :
    session.issue (.report problem) = ⟨session.report problem, none⟩ := rfl

theorem issue_call [AcceptingRenderer σ] {session : Session σ}
    (hopen : isOpen session.renderer = true) {call : RenderCall}
    (hinner : call.isInner = true) :
    session.issue (.call call) =
      ⟨{ session with renderer := (perform session.renderer call).state },
        none⟩ := by
  have hperform := AcceptingRenderer.failure?_perform session.renderer call
    (hopen ▸ inTurn_of_isInner hinner)
  simp only [issue, hperform]

theorem issueAll_eq_meet [AcceptingRenderer σ] {requests : List Request}
    {session : Session σ} (hopen : isOpen session.renderer = true)
    (hinner : ∀ call ∈ Request.calls requests, call.isInner = true) :
    session.issueAll requests = ⟨session.meet requests, none⟩ := by
  induction requests generalizing session with
  | nil => simp [issueAll, Outcome.fold]
  | cons request rest ih =>
      simp only [issueAll, Outcome.fold] at ih ⊢
      cases request with
      | call call =>
          simp only [Request.calls_call_cons, List.mem_cons,
            forall_eq_or_imp] at hinner
          rw [issue_call hopen hinner.1, Outcome.andThen_ok,
            ih (isOpen_perform_inner hopen hinner.1) hinner.2]
          rfl
      | report problem =>
          have hreported : isOpen (session.report problem).renderer = true :=
            hopen
          rw [issue_report, Outcome.andThen_ok, ih hreported hinner]
          simp [meet, report]

end Session
end DocTemplate
