import DocTemplate.Proofs.Course

/-!
# Rejected calls

A renderer may reject calls by a rule that looks at the call alone.  For the
compilation this is a filter.  Calls that the document can go on without are
missing from the record and reported, each where it was asked for, and
everything else is as if they had been performed.  The first call that the
document cannot go on without cuts the record off and ends the compilation.
-/

namespace DocTemplate

open Markup Renderer RenderCall

/-! ## Rules -/

namespace Rejection

variable (rule : Rejection)

def accepts (call : RenderCall) : Bool := (rule call).isNone

/-- A rejection ends the document if it is that of the opening or the closing,
or if it is not for want of a form for a kind of block. -/
def IsFatal (call : RenderCall) (error : RenderError) : Prop :=
  rule call = some error ∧
    (call = .openDocument ∨ call = .closeDocument ∨
      ∀ kind, error ≠ .unsupportedBlock kind)

/-- The rule of a renderer that has no form for a kind of block. -/
def withoutKind (kind : BlockKind) : Rejection
  | .block written =>
      if written.kind = kind then some (.unsupportedBlock kind) else none
  | _ => none

theorem not_isFatal_withoutKind (kind : BlockKind) (call : RenderCall)
    (error : RenderError) : ¬(withoutKind kind).IsFatal call error := by
  rintro ⟨hrejected, hfatal⟩
  cases call with
  | block written =>
      simp only [withoutKind] at hrejected
      split at hrejected
      · obtain rfl := Option.some.inj hrejected
        rcases hfatal with hopen | hclose | hother
        · cases hopen
        · cases hclose
        · exact hother kind rfl
      · cases hrejected
  | _ => cases hrejected

/-- The problem with a request: the one that it reports, or the rejection of
the call that it asks for. -/
def problem? : Request → Option Problem
  | .report problem => some problem
  | .call call => (rule call).map .rejected

end Rejection

/-- The error that a compilation ends in when it cannot go on without a call
that was rejected. -/
def RenderCall.endError : RenderCall → RenderError → CompileError
  | .openDocument, error => .openFailed error
  | _, error => .render error

/-- A rejection either ends the document or is reported. -/
theorem RenderCall.ending?_eq (call : RenderCall) (error : RenderError) :
    (call.ending? error = some (call.endError error) ∧
      (call = .openDocument ∨ call = .closeDocument ∨
        ∀ kind, error ≠ .unsupportedBlock kind)) ∨
    (call.ending? error = none ∧ call.isInner = true ∧
      ∃ kind, error = .unsupportedBlock kind) := by
  cases call with
  | openDocument => exact .inl ⟨rfl, .inl rfl⟩
  | closeDocument => exact .inl ⟨rfl, .inr (.inl rfl)⟩
  | _ =>
      cases error with
      | unsupportedBlock kind => exact .inr ⟨rfl, rfl, kind, rfl⟩
      | _ => exact .inl ⟨rfl, .inr (.inr nofun)⟩

theorem Rejection.IsFatal.ending?_eq {rule : Rejection} {call : RenderCall}
    {error : RenderError} (h : rule.IsFatal call error) :
    call.ending? error = some (call.endError error) := by
  obtain hends | ⟨-, hinner, kind, rfl⟩ := call.ending?_eq error
  · exact hends.1
  · obtain ⟨-, rfl | rfl | hother⟩ := h
    · cases hinner
    · cases hinner
    · exact absurd rfl (hother kind)

theorem Request.exists_of_calls_eq {requests : List Request}
    {before after : List RenderCall} {call : RenderCall}
    (h : calls requests = before ++ call :: after) :
    ∃ front back, requests = front ++ .call call :: back ∧
      calls front = before := by
  obtain ⟨front, tail, rfl, hfront, htail⟩ := List.filterMap_eq_append_iff.mp h
  obtain ⟨reports, request, back, rfl, hreports, hrequest, -⟩ :=
    List.filterMap_eq_cons_iff.mp htail
  have hcall : request = .call call := by
    cases request with
    | call asked => exact congrArg _ (Option.some.inj hrequest)
    | report problem => cases hrequest
  have hnone : calls reports = [] := List.filterMap_eq_nil_iff.mpr hreports
  refine ⟨front ++ reports, back, ?_, ?_⟩
  · rw [hcall, List.append_assoc]
  · rw [calls_append, hnone, List.append_nil]
    exact hfront

/-! ## Delivering under a rule -/

instance : SteadyRenderer SelectiveRecorder where
  isOpen_performed selective call := by
    obtain ⟨rule, recorder⟩ := selective
    intro hperform
    simp only [perform, SelectiveRecorder.perform] at hperform ⊢
    cases hrule : rule call with
    | some error => simp [hrule, Outcome.fail] at hperform
    | none =>
        simp only [hrule] at hperform ⊢
        exact SteadyRenderer.isOpen_performed recorder call hperform
  isOpen_rejected selective call error := by
    obtain ⟨rule, recorder⟩ := selective
    intro hperform
    simp only [perform, SelectiveRecorder.perform] at hperform ⊢
    cases hrule : rule call with
    | some error => rfl
    | none =>
        simp only [hrule] at hperform ⊢
        exact SteadyRenderer.isOpen_rejected recorder call error hperform

namespace Delivery

variable {rule : Rejection} {recorder : Recorder} {call : RenderCall}
  {diagnostics : List Diagnostic}

theorem take_accepted (hturn : call.inTurn recorder.isOpen = true)
    (haccepted : rule call = none) :
    take ⟨(⟨rule, recorder⟩ : SelectiveRecorder), diagnostics⟩ (.call call) =
      ⟨⟨⟨rule, recorder.record call call.leavesOpen⟩, diagnostics⟩, none⟩ := by
  have hperform :
      perform (⟨rule, recorder⟩ : SelectiveRecorder) call =
        ⟨⟨rule, recorder.record call call.leavesOpen⟩, none⟩ := by
    simp only [perform, SelectiveRecorder.perform, haccepted,
      Recorder.perform_inTurn hturn]
  simp only [take, hperform]

theorem take_rejected {error : RenderError}
    (hrejected : rule call = some error) :
    let delivery : Delivery SelectiveRecorder :=
      ⟨⟨rule, recorder⟩, diagnostics⟩
    delivery.take (.call call) =
      match call.ending? error with
      | some failure => .fail delivery failure
      | none => ⟨delivery.report (.rejected error), none⟩ := by
  have hperform :
      perform (⟨rule, recorder⟩ : SelectiveRecorder) call =
        .fail ⟨rule, recorder⟩ error := by
    simp only [perform, SelectiveRecorder.perform, hrejected]
  cases hending : call.ending? error with
  | none => simp only [take, hperform, Outcome.fail, hending]
  | some failure => simp only [take, hperform, Outcome.fail, hending]

/-- Requests without a fatal rejection are all met: what the rule accepts is
recorded, and what it rejects is reported among the other problems. -/
theorem takeAll_accepted {requests : List Request}
    (hturns : InTurns recorder.isOpen (Request.calls requests))
    (hgoes : ∀ call ∈ Request.calls requests, ∀ error,
      ¬ rule.IsFatal call error) :
    takeAll ⟨(⟨rule, recorder⟩ : SelectiveRecorder), diagnostics⟩ requests =
      ⟨⟨⟨rule,
            recorder.calls ++ (Request.calls requests).filter rule.accepts,
            openBehind recorder.isOpen (Request.calls requests)⟩,
          diagnostics ++
            (requests.filterMap rule.problem?).map Problem.diagnostic⟩,
        none⟩ := by
  induction requests generalizing recorder diagnostics with
  | nil => simp [openBehind]
  | cons request rest ih =>
      rw [takeAll_cons]
      cases request with
      | report problem =>
          simp only [take, report, Outcome.andThen_ok]
          rw [ih hturns hgoes]
          simp [Rejection.problem?]
      | call call =>
          simp only [Request.calls_call_cons, List.mem_cons,
            forall_eq_or_imp] at hgoes
          obtain ⟨hturn, hturns⟩ := hturns
          cases hrule : rule call with
          | none =>
              rw [take_accepted hturn hrule, Outcome.andThen_ok,
                ih hturns hgoes.2]
              simp [Recorder.record, openBehind, Rejection.problem?,
                Rejection.accepts, hrule]
          | some error =>
              rw [take_rejected hrule]
              obtain ⟨-, hfatal⟩ | ⟨hgoesOn, hinner, -⟩ :=
                call.ending?_eq error
              · exact absurd ⟨hrule, hfatal⟩ (hgoes.1 error)
              · have hopen : recorder.isOpen = call.leavesOpen := by
                  rw [leavesOpen_of_isInner hinner]
                  cases call <;> first | exact hturn | cases hinner
                simp only [hgoesOn, report, Outcome.andThen_ok]
                rw [← hopen] at hturns
                rw [ih hturns hgoes.2]
                simp [openBehind, hopen, Rejection.problem?,
                  Rejection.accepts, hrule]

/-- The first fatal rejection cuts the record off. -/
theorem takeAll_cut {requests : List Request} {before after : List RenderCall}
    {error : RenderError}
    (hcalls : Request.calls requests = before ++ call :: after)
    (hturns : InTurns recorder.isOpen before)
    (hgoes : ∀ earlier ∈ before, ∀ error, ¬ rule.IsFatal earlier error)
    (hfatal : rule.IsFatal call error) :
    let delivered :=
      takeAll ⟨(⟨rule, recorder⟩ : SelectiveRecorder), diagnostics⟩ requests
    delivered.failure? = some (call.endError error) ∧
      delivered.state.renderer.recorder.calls =
        recorder.calls ++ before.filter rule.accepts := by
  obtain ⟨front, back, rfl, rfl⟩ := Request.exists_of_calls_eq hcalls
  simp only [takeAll_append, takeAll_accepted hturns hgoes,
    Outcome.andThen_ok, takeAll_cons, take_rejected hfatal.1,
    hfatal.ending?_eq, Outcome.fail, Outcome.andThen_fail, and_self]

end Delivery

namespace Session

section UnderRule

variable (rule : Rejection) (root : String) (store : DataStore)
  (events : List Event)

/-- The run of a session whose renderer rejects calls by the rule is that of
the plain session, as far as what it asks for can be delivered. -/
theorem sameCourse_under_rule :
    let plainly := begin root store ({} : Recorder)
    let selective := begin root store (⟨rule, {}⟩ : SelectiveRecorder)
    let delivered := selective.delivery.takeAll (plainly.asked events)
    InTurns false (Request.calls (plainly.asked events)) ∧
      (selective.feedAll events).state.delivery = delivered.state ∧
      (selective.feedAll events).failure? =
        delivered.failure?.or (plainly.feedAll events).failure? ∧
      (delivered.failure? = none →
        (plainly.feedAll events).state.SameCourse
          (selective.feedAll events).state) := by
  intro plainly selective delivered
  have hplainly : plainly.InStep := inStep_begin rfl root store
  have hselective : selective.InStep := inStep_begin rfl root store
  have hsame : plainly.SameCourse selective := .begin root store _ _
  exact ⟨inTurns_asked hplainly events,
    hsame.feedAll hplainly hselective events⟩

theorem feedAll_accepted (markupError : Option MarkupError) :
    let plainly := begin root store ({} : Recorder)
    let chosen :=
      (begin root store (⟨rule, {}⟩ : SelectiveRecorder)).feedAll events
    let requests := plainly.asked events
    (∀ call ∈ Request.calls requests, ∀ error, ¬rule.IsFatal call error) →
      chosen.state.renderer.recorder.calls =
          (Request.calls requests).filter rule.accepts ∧
        chosen.state.diagnostics = loadReports store ++
          (requests.filterMap rule.problem?).map Problem.diagnostic ∧
        (Compiled.ofOutcome chosen markupError).result =
          (Compiled.ofOutcome (plainly.feedAll events) markupError).result.map
            fun _ => chosen.state.diagnostics := by
  intro plainly chosen requests hgoes
  obtain ⟨hturns, hdelivery, hfailure, hcourse⟩ :=
    sameCourse_under_rule rule root store events
  have hmet : (begin root store
      (⟨rule, {}⟩ : SelectiveRecorder)).delivery.takeAll requests = _ :=
    Delivery.takeAll_accepted hturns hgoes
  simp only [requests, plainly] at hmet
  rw [hmet] at hdelivery hfailure hcourse
  refine ⟨?_, ?_, ?_⟩
  · exact congrArg (fun delivery => delivery.renderer.recorder.calls)
      hdelivery
  · exact congrArg Delivery.diagnostics hdelivery
  · exact (hcourse rfl).result_eq hfailure markupError

theorem feedAll_cut {before after : List RenderCall} {call : RenderCall}
    {error : RenderError} (markupError : Option MarkupError) :
    let plainly := begin root store ({} : Recorder)
    let chosen :=
      (begin root store (⟨rule, {}⟩ : SelectiveRecorder)).feedAll events
    Request.calls (plainly.asked events) = before ++ call :: after →
      (∀ earlier ∈ before, ∀ error, ¬rule.IsFatal earlier error) →
      rule.IsFatal call error →
      chosen.state.renderer.recorder.calls = before.filter rule.accepts ∧
        (Compiled.ofOutcome chosen markupError).result =
          .error (call.endError error) := by
  intro plainly chosen hsplit hgoes hfatal
  obtain ⟨hturns, hdelivery, hfailure, -⟩ :=
    sameCourse_under_rule rule root store events
  have hbefore : InTurns false before :=
    (inTurns_append.mp (hsplit ▸ hturns)).1
  let delivered := (begin root store
    (⟨rule, {}⟩ : SelectiveRecorder)).delivery.takeAll (plainly.asked events)
  obtain ⟨hends, hrecorded⟩ :
      delivered.failure? = some (call.endError error) ∧
        delivered.state.renderer.recorder.calls =
          [] ++ before.filter rule.accepts :=
    Delivery.takeAll_cut hsplit hbefore hgoes hfatal
  constructor
  · rw [List.nil_append] at hrecorded
    rw [← hrecorded]
    exact congrArg (fun delivery => delivery.renderer.recorder.calls)
      hdelivery
  · have hfailed : chosen.failure? = some (call.endError error) := by
      simp only [delivered, plainly] at hends
      rw [hends] at hfailure
      exact hfailure
    simp only [Compiled.ofOutcome, hfailed]

end UnderRule

/-- Compiling under a rule, compared with compiling without one.  The requests
of the plain compilation say in which order its calls and its reports came
about.  Without a fatal rejection the record is filtered by the rule, each
rejection is reported where its call was asked for, and the compilation ends
as it would have otherwise; the first fatal rejection ends it. -/
theorem feedAll_under_rule (rule : Rejection) (root : String)
    (store : DataStore) (events : List Event)
    (markupError : Option MarkupError) :
    let plainly := begin root store ({} : Recorder)
    let plain := plainly.feedAll events
    let chosen :=
      (begin root store (⟨rule, {}⟩ : SelectiveRecorder)).feedAll events
    let requests := plainly.asked events
    let calls := plain.state.renderer.calls
    (Request.calls requests = calls ∧
      plain.state.diagnostics = loadReports store ++
        (Request.problems requests).map Problem.diagnostic) ∧
    ((∀ call ∈ calls, ∀ error, ¬rule.IsFatal call error) →
      chosen.state.renderer.recorder.calls = calls.filter rule.accepts ∧
      chosen.state.diagnostics = loadReports store ++
        (requests.filterMap rule.problem?).map Problem.diagnostic ∧
      (Compiled.ofOutcome chosen markupError).result =
        (Compiled.ofOutcome plain markupError).result.map
          fun _ => chosen.state.diagnostics) ∧
    ∀ before call after error, calls = before ++ call :: after →
      (∀ earlier ∈ before, ∀ error, ¬rule.IsFatal earlier error) →
      rule.IsFatal call error →
      chosen.state.renderer.recorder.calls = before.filter rule.accepts ∧
      (Compiled.ofOutcome chosen markupError).result =
        .error (call.endError error) := by
  intro plainly plain chosen requests calls
  have hplainly : plainly.InStep := inStep_begin rfl root store
  obtain ⟨hrecorded, hproblems⟩ := feedAll_recorder hplainly events
  have hcalls : calls = Request.calls requests := hrecorded
  refine ⟨⟨hcalls.symm, hproblems⟩, ?_, ?_⟩
  · rw [hcalls]
    exact feedAll_accepted rule root store events markupError
  · intro before call after error hsplit
    rw [hcalls] at hsplit
    exact feedAll_cut rule root store events markupError hsplit

/-- Without a form for chapters the other calls remain; if new pages fail, only
the calls before the first do. -/
theorem feedAll_under_rule_chapter :
    let plainly := begin "textpdf" .empty ({} : Recorder)
    let events : List Event :=
      [.start "textpdf" [], .start "chapter" [], .text "a", .stop "chapter",
        .start "page" [], .stop "page", .stop "textpdf"]
    let calls := (plainly.feedAll events).state.renderer.calls
    let chapterless := Rejection.withoutKind .chapter
    let pageless : Rejection := fun call =>
      if call = .newPage then some (.io "full") else none
    let result (rule : Rejection) := (Compiled.ofOutcome
      ((begin "textpdf" .empty (⟨rule, {}⟩ : SelectiveRecorder)).feedAll
        events) none).result
    (∀ call ∈ calls, ∀ error, ¬chapterless.IsFatal call error) ∧
      (∃ diagnostics, result chapterless = .ok diagnostics) ∧
      calls = calls.take 2 ++ .newPage :: [.closeDocument] ∧
      pageless.IsFatal .newPage (.io "full") ∧
      result pageless = .error (.render (.io "full")) := by
  intro plainly events calls chapterless pageless result
  have hgoes : ∀ call ∈ calls, ∀ error, ¬chapterless.IsFatal call error :=
    fun call _ error => Rejection.not_isFatal_withoutKind .chapter call error
  have hsplit : calls = calls.take 2 ++ .newPage :: [.closeDocument] := by
    decide +kernel
  have hfatal : pageless.IsFatal .newPage (.io "full") :=
    ⟨rfl, .inr (.inr nofun)⟩
  have haccepted : ∀ earlier ∈ calls.take 2, pageless earlier = none := by
    decide +kernel
  have hbefore : ∀ earlier ∈ calls.take 2, ∀ error,
      ¬pageless.IsFatal earlier error := by
    rintro earlier hearlier error ⟨hrejected, -⟩
    rw [haccepted earlier hearlier] at hrejected
    cases hrejected
  have hplain : (Compiled.ofOutcome (plainly.feedAll events)
      none).result.toOption.isSome = true := by decide +kernel
  obtain ⟨-, hfiltered, -⟩ :=
    feedAll_under_rule chapterless "textpdf" .empty events none
  obtain ⟨-, -, hcut⟩ :=
    feedAll_under_rule pageless "textpdf" .empty events none
  refine ⟨hgoes, ?_, hsplit, hfatal, ?_⟩
  · have hsame := (hfiltered hgoes).2.2
    cases hresult : (Compiled.ofOutcome
        (plainly.feedAll events) none).result with
    | error error =>
        rw [hresult] at hplain
        cases hplain
    | ok diagnostics =>
        rw [hresult] at hsame
        exact ⟨_, hsame⟩
  · exact (hcut _ _ _ _ hsplit hbefore hfatal).2

end Session
end DocTemplate
