import DocTemplate.Proofs.Run

/-!
# The protocol of renderer calls

Whatever events a session is fed, well nested or not, the calls it has made
form the beginning of one document: nothing, or an opening with whole items
behind it, or all of this with a closing at the end.  Which of the three it
is, the state of the session says.  The invariant ties three things together:
the state, the calls, and whether the renderer is open.
-/

namespace DocTemplate

open RenderCall Renderer

/-- The calls of a document that has come as far as a state says. -/
inductive DocumentCalls : DocumentState → List RenderCall → Prop
  | unopened : DocumentCalls .unopened []
  | opened {items : List RenderCall} (hitems : AreItems items) :
      DocumentCalls .opened (openDocument :: items)
  | closed {items : List RenderCall} (hitems : AreItems items) :
      DocumentCalls .closed (openDocument :: items ++ [closeDocument])

theorem RenderCall.AreItems.no_closing {items before : List RenderCall}
    (hitems : AreItems items) : items ≠ before ++ [closeDocument] := by
  rintro rfl
  have hinner := hitems.isInner
    (List.mem_append_right before (List.mem_singleton_self closeDocument))
  exact absurd hinner (by decide)

namespace DocumentCalls

/-- Calls end with a closing only if the document is closed. -/
theorem closed_iff {state : DocumentState} {calls : List RenderCall}
    (h : DocumentCalls state calls) :
    state = .closed ↔ ∃ before, calls = before ++ [closeDocument] := by
  cases h with
  | unopened => simp
  | @opened items hitems =>
      refine iff_of_false (by simp) ?_
      rintro ⟨before, hbefore⟩
      cases before with
      | nil => simp at hbefore
      | cons first rest =>
          rw [List.cons_append, List.cons.injEq] at hbefore
          exact hitems.no_closing hbefore.2
  | closed hitems => exact iff_of_true rfl ⟨_, rfl⟩

theorem unopened_iff {state : DocumentState} {calls : List RenderCall}
    (h : DocumentCalls state calls) : state = .unopened ↔ calls = [] := by
  cases h <;> simp

/-- The three shapes exclude each other. -/
theorem state_unique {first second : DocumentState} {calls : List RenderCall}
    (hfirst : DocumentCalls first calls)
    (hsecond : DocumentCalls second calls) : first = second := by
  have hunopened := hfirst.unopened_iff.trans hsecond.unopened_iff.symm
  have hclosed := hfirst.closed_iff.trans hsecond.closed_iff.symm
  cases first <;> cases second <;> simp_all

theorem append_items {calls items : List RenderCall}
    (h : DocumentCalls .opened calls) (hitems : AreItems items) :
    DocumentCalls .opened (calls ++ items) := by
  cases h with
  | opened hbefore => exact .opened (hbefore.append hitems)

theorem append_closing {calls : List RenderCall}
    (h : DocumentCalls .opened calls) :
    DocumentCalls .closed (calls ++ [closeDocument]) := by
  cases h with
  | opened hbefore => exact .closed hbefore

end DocumentCalls

/-- How far a document has come, as a number. -/
def DocumentState.rank : DocumentState → Nat
  | .unopened => 0
  | .opened => 1
  | .closed => 2

namespace Session

theorem rank_le_rank_feed {σ : Type} [Renderer σ] [AcceptingRenderer σ]
    {session : Session σ} (hagree : session.InStep) (event : Markup.Event) :
    session.state.rank ≤ (session.feed event).state.state.rank := by
  have hstep := step_feed hagree event
  generalize session.feed event = outcome at hstep
  cases hstep with
  | opens hroot hstate =>
      rw [hstate]
      exact Nat.zero_le 1
  | closes hroot hstate =>
      rw [hstate]
      exact Nat.le_succ 1
  | repeats | early | late | misplaces | starts | passes | stops | writes
  | ignores => exact Nat.le_refl _

theorem rank_le_rank_run {σ : Type} [Renderer σ] [AcceptingRenderer σ]
    {session : Session σ} (hagree : session.InStep)
    (events : List Markup.Event) :
    session.state.rank ≤ (session.run events).state.rank := by
  induction events generalizing session with
  | nil => exact Nat.le_refl _
  | cons event rest ih =>
      exact Nat.le_trans (rank_le_rank_feed hagree event)
        (ih (hagree.feed event))

/-- A session on a recorder whose calls are those of a document that has come
as far as the session says. -/
structure KeepsProtocol (session : Session Recorder) : Prop where
  inStep : session.InStep
  calls : DocumentCalls session.state session.renderer.calls

theorem KeepsProtocol.begin (root : String) (store : DataStore) :
    (begin root store ({} : Recorder)).KeepsProtocol where
  inStep := inStep_begin rfl root store
  calls := .unopened

/-- Items added to an open document leave it an open document. -/
theorem KeepsProtocol.calls_meet {session : Session Recorder}
    (h : session.KeepsProtocol) (hstate : session.state = .opened)
    {assembly : Assembly} {requests : List Request}
    (hitems : AreItems (Request.calls requests)) :
    DocumentCalls session.state
      ({ session with assembly }.meet requests).renderer.calls := by
  have hopen : session.renderer.isOpen = true := h.inStep.mp hstate
  have hcalls := h.calls
  rw [hstate] at hcalls ⊢
  simp only [meet]
  rw [Recorder.performAll_inner hopen fun _ hcall => hitems.isInner hcall]
  exact hcalls.append_items hitems

theorem KeepsProtocol.feed {session : Session Recorder}
    (h : session.KeepsProtocol) (event : Markup.Event) :
    (session.feed event).state.KeepsProtocol := by
  refine ⟨h.inStep.feed event, ?_⟩
  have hcalls := h.calls
  have hstep := step_feed h.inStep event
  generalize session.feed event = outcome at hstep
  cases hstep with
  | opens hroot hstate =>
      have hclosed : session.renderer.isOpen = false :=
        h.inStep.isOpen_eq_false (by simp [hstate])
      have hturn : RenderCall.openDocument.inTurn session.renderer.isOpen =
          true := by
        simp [inTurn, hclosed]
      have hperform := Recorder.perform_inTurn hturn
      have hnone := hcalls.unopened_iff.mp hstate
      change DocumentCalls .opened
        (session.renderer.perform .openDocument).state.calls
      rw [hperform]
      simp only [Recorder.record, hnone, List.nil_append]
      exact .opened .nil
  | closes hroot hstate =>
      have hopen : session.renderer.isOpen = true := h.inStep.mp hstate
      have hturn : RenderCall.closeDocument.inTurn session.renderer.isOpen =
          true := hopen
      have hperform := Recorder.perform_inTurn hturn
      rw [hstate] at hcalls
      change DocumentCalls .closed
        (session.renderer.perform .closeDocument).state.calls
      rw [hperform]
      exact hcalls.append_closing
  | starts hroot hstate hstart =>
      exact h.calls_meet hstate (Assembly.areItems_start hstart)
  | @stops name assembly requests hroot hstate hstop =>
      have hitems := Assembly.areItems_stop session.assembly (.ofName name)
      rw [hstop] at hitems
      exact h.calls_meet hstate hitems
  | repeats | early | late | misplaces | passes | writes | ignores =>
      exact hcalls

theorem KeepsProtocol.run {session : Session Recorder}
    (h : session.KeepsProtocol) (events : List Markup.Event) :
    (session.run events).KeepsProtocol :=
  run_preserves (fun _ hcurrent event => hcurrent.feed event) h events

theorem finish_ok_iff {σ : Type} (session : Session σ) :
    (∃ diagnostics, session.finish = .ok diagnostics) ↔
      session.state = .closed := by
  cases hstate : session.state <;> simp [finish, hstate]

/-- The calls of a run, whatever its events, are those of one document, and
the state of the session says how far it has come.  The state never moves
backwards, and a run can be finished once its calls end with a closing. -/
theorem run_keeps_call_protocol (root : String) (store : DataStore)
    (events : List Markup.Event) :
    let session : Session Recorder := (begin root store {}).run events
    (∀ state, session.state = state ↔
        DocumentCalls state session.renderer.calls) ∧
      (session.state = .opened ↔ isOpen session.renderer = true) ∧
      (∀ later, session.state.rank ≤ (session.run later).state.rank) ∧
      ((∃ diagnostics, session.finish = .ok diagnostics) ↔
        ∃ before, session.renderer.calls =
          before ++ [RenderCall.closeDocument]) := by
  intro session
  have hrun := (KeepsProtocol.begin root store).run events
  refine ⟨fun state => ⟨?_, hrun.calls.state_unique⟩, hrun.inStep,
    fun later => rank_le_rank_run hrun.inStep later, ?_⟩
  · intro hstate
    exact hstate ▸ hrun.calls
  · rw [finish_ok_iff]
    exact hrun.calls.closed_iff

end Session
end DocTemplate
