import DocTemplate.Backend.Blocks
import DocTemplate.Backend.Html

/-!
# The errors of backends

That a backend is missing is for those to say who look for one.  A compilation
never says it, whatever the template and the renderer, and neither do the
options of a backend, so the standard backends never come to that error once
they render.
-/

namespace DocTemplate

/-- Whether an error is one that a backend can come to, which is every one
but that it is missing. -/
def CompileError.HasBackend : CompileError → Prop
  | .backendNotFound _ => False
  | _ => True

theorem Outcome.of_fold_failure {ε : Type} {σ α : Type}
    {act : σ → α → Outcome ε σ} {holds : ε → Prop}
    (hact : ∀ state input error,
      (act state input).failure? = some error → holds error)
    {state : σ} {inputs : List α} {error : ε}
    (h : (fold act state inputs).failure? = some error) : holds error := by
  induction inputs generalizing state with
  | nil => cases h
  | cons input rest ih =>
      rw [fold] at h
      cases hfirst : (act state input).failure? with
      | none =>
          rw [andThen_of_ok hfirst] at h
          exact ih h
      | some failure =>
          rw [andThen_of_fail hfirst] at h
          exact hact state input error h

/-! ## Compilations -/

namespace Session

variable {σ : Type} [Renderer σ]

theorem issueAll_failure {session : Session σ} {requests : List Request}
    {error : CompileError}
    (h : (session.issueAll requests).failure? = some error) :
    error.HasBackend := by
  refine Outcome.of_fold_failure (fun current request failure hissue => ?_) h
  cases request with
  | report problem => cases hissue
  | call call =>
      simp only [issue] at hissue
      split at hissue
      · cases hissue
      · split at hissue
        · cases hissue
          trivial
        · cases hissue

theorem startInside_failure {session : Session σ} {name : String}
    {own : OwnAttributes} {error : CompileError}
    (h : (session.startInside name own).failure? = some error) :
    error.HasBackend := by
  unfold startInside at h
  split at h
  · exact issueAll_failure h
  · rename_i misplacement _
    cases h
    cases misplacement <;> trivial

theorem openDocument_failure {session : Session σ} {error : CompileError}
    (h : session.openDocument.failure? = some error) :
    error.HasBackend := by
  unfold openDocument at h
  split at h
  · cases h
    trivial
  · dsimp only at h
    split at h <;> cases h
    trivial

theorem closeDocument_failure {session : Session σ} {error : CompileError}
    (h : session.closeDocument.failure? = some error) :
    error.HasBackend := by
  unfold closeDocument at h
  dsimp only at h
  split at h <;> cases h
  trivial

theorem feed_failure {session : Session σ} {event : Markup.Event}
    {error : CompileError}
    (h : (session.feed event).failure? = some error) :
    error.HasBackend := by
  cases event with
  | start name own =>
      simp only [feed, start] at h
      split at h
      · exact openDocument_failure h
      · split at h
        · cases h
          trivial
        · cases h
          trivial
        · split at h
          · exact startInside_failure h
          · cases h
            trivial
  | stop name =>
      simp only [feed, stop] at h
      split at h
      · split at h
        · exact closeDocument_failure h
        · exact issueAll_failure h
      · cases h
  | text text => cases h

end Session

/-- A compilation says nothing of backends. -/
theorem compile_error {σ : Type} [Renderer σ] {template : String}
    {store : DataStore} {renderer : σ} {root : String} {error : CompileError}
    (h : (compile template store renderer root).result = .error error) :
    error.HasBackend := by
  simp only [compile, Compiled.ofOutcome] at h
  split at h
  · rename_i failure _ hfailure
    cases h
    exact Outcome.of_fold_failure (fun _ _ _ => Session.feed_failure) hfailure
  · cases h
    trivial
  · unfold Session.finish at h
    split at h <;> cases h <;> trivial

/-! ## Backends -/

/-- A backend that never says that a backend is missing. -/
def Backend.NeverMissing (backend : Backend) : Prop :=
  ∀ template store options error,
    backend.render template store options = .error error →
      error.HasBackend

theorem hasBackend_of_bind {α β : Type}
    {first : Except CompileError α} {next : α → Except CompileError β}
    (hfirst : ∀ error, first = .error error → error.HasBackend)
    (hnext : ∀ value error, next value = .error error →
      error.HasBackend)
    {error : CompileError} (h : first >>= next = .error error) :
    error.HasBackend := by
  cases first with
  | error failure =>
      cases h
      exact hfirst error rfl
  | ok value => exact hnext value error h

theorem hasBackend_of_option {α : Type}
    {read : Except OptionError α} {error : CompileError}
    (h : read.mapError .invalidOption = .error error) :
    error.HasBackend := by
  cases read with
  | error failure =>
      cases h
      trivial
  | ok value => cases h

/-- A backend checks its options, reads them and compiles.  None of this can
say that a backend is missing. -/
theorem hasBackend_of_stages {α σ : Type} [Renderer σ]
    (renderer : α → σ) (finish : α → σ → List Diagnostic → Rendered)
    {checked : Except OptionError Unit} {read : Except OptionError α}
    {template : String} {store : DataStore} {root : String}
    {error : CompileError}
    (h : (do
      checked.mapError .invalidOption
      let options ← read.mapError .invalidOption
      let compiled := compile template store (renderer options) root
      let diagnostics ← compiled.result
      return finish options compiled.renderer diagnostics :
        Except CompileError Rendered) = .error error) :
    error.HasBackend := by
  refine hasBackend_of_bind (fun _ => hasBackend_of_option)
    (fun _ _ hchecked => ?_) h
  refine hasBackend_of_bind (fun _ => hasBackend_of_option)
    (fun _ _ hread => ?_) hchecked
  refine hasBackend_of_bind (fun _ => compile_error)
    (fun _ _ hcompiled => ?_) hread
  cases hcompiled

theorem htmlBackend_neverMissing (page : Html.PageOptions) :
    (htmlBackend page).NeverMissing := by
  intro template store options error h
  exact hasBackend_of_stages
    (fun effective : Html.PageOptions =>
      ({ options := effective, sink := {} } : HtmlRenderer Buffer))
    (fun _ written diagnostics => ⟨written.sink.text, diagnostics⟩) h

theorem blocksBackend_neverMissing (pretty : Bool) :
    (blocksBackend pretty).NeverMissing := by
  intro template store options error h
  exact hasBackend_of_stages (fun _ : Option Bool => ({} : Recorder))
    (fun asked recorded diagnostics =>
      ⟨RenderCall.transcript recorded.calls (asked.getD pretty), diagnostics⟩)
    h

end DocTemplate
