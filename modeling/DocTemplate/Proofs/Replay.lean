import DocTemplate.Backend.Blocks
import DocTemplate.Backend.Html
import DocTemplate.Proofs.Course
import DocTemplate.Proofs.Nesting

/-!
# The page of a block stream

Both backends compile the same template on renderers of their own.  The page
renderer has no form for a page break as a block and none for an image
without a source.  The first is never asked of it, and the second only by an
element that names the empty source.  For any other template the page is what
the calls of the block stream write, one after the other.
-/

namespace DocTemplate

open Markup Renderer RenderCall

/-! ## Calls that a page has a form for -/

/-- Whether there is a form for a call on an open page. -/
def RenderCall.Presentable : RenderCall → Prop
  | .image shown => shown.source ≠ ""
  | .block written => written.kind ≠ .pageBreak
  | _ => True

/-- Whether an event starts an image with an empty source. -/
def Markup.Event.HasEmptySource : Event → Prop
  | .start name own => Text.lower name = "img" ∧ own.lookup "src" = some ""
  | _ => False

instance (event : Event) : Decidable event.HasEmptySource :=
  match event with
  | .start _ _ => inferInstanceAs (Decidable (_ ∧ _))
  | .stop _ | .text _ => inferInstanceAs (Decidable False)

theorem Element.lower_eq_of_image {name : String}
    (h : ofName name = .image) : Text.lower name = "img" := by
  unfold ofName ofLowerName at h
  split at h
  case h_3 hname => exact hname
  case h_9 => split at h <;> cases h
  all_goals cases h

theorem RenderCall.presentable_of_isLayout {call : RenderCall}
    (h : call.isLayout = true) : call.Presentable := by
  cases call <;> trivial

theorem Assembly.presentable_start {store : DataStore}
    {assembly next : Assembly} {element : Element} {own : OwnAttributes}
    {requests : List Request}
    (hsource : ¬(element = .image ∧ own.lookup "src" = some ""))
    (h : assembly.start store element own = (next, .ok requests))
    {call : RenderCall} (hcall : call ∈ Request.calls requests) :
    call.Presentable := by
  rcases call_start h hcall with hlayout | ⟨himage, source, hlookup, rfl⟩
  · exact presentable_of_isLayout hlayout
  · rintro rfl
    exact hsource ⟨himage, hlookup⟩

/-- A page break is a new page, never a block. -/
theorem Assembly.presentable_stop {assembly : Assembly} {element : Element}
    {call : RenderCall}
    (hcall : call ∈ Request.calls (assembly.stop element).2) :
    call.Presentable := by
  rcases call_stop hcall with rfl | ⟨table, rfl⟩ | ⟨block, rfl, -, hkind⟩
  · trivial
  · trivial
  · exact hkind

namespace Session

variable {σ : Type} [Renderer σ]

theorem presentable_reaction {session : Session σ} {event : Event}
    (hsource : ¬event.HasEmptySource) :
    ∀ call ∈ Request.calls (session.reaction event).requests,
      call.Presentable := by
  intro call hcall
  have hreacts := session.reacts event
  generalize session.reaction event = reaction at hreacts hcall
  cases hreacts with
  | refuses | passes | writes | misplaces => cases hcall
  | opens | closes =>
      rw [List.mem_singleton.mp hcall]
      trivial
  | starts hin hstart =>
      refine Assembly.presentable_start (fun himage => hsource ?_) hstart hcall
      exact ⟨Element.lower_eq_of_image himage.1, himage.2⟩
  | stops hroot hstate => exact Assembly.presentable_stop hcall

theorem presentable_asked {session : Session σ} {events : List Event}
    (hsources : ∀ event ∈ events, ¬event.HasEmptySource) :
    ∀ call ∈ Request.calls (session.asked events), call.Presentable := by
  induction events generalizing session with
  | nil => exact nofun
  | cons event rest ih =>
      rw [List.forall_mem_cons] at hsources
      intro call hcall
      rw [asked, Request.calls_append, List.mem_append] at hcall
      rcases hcall with hhere | hlater
      · exact presentable_reaction hsources.1 call hhere
      · split at hlater
        · exact ih hsources.2 call hlater
        · cases hlater

end Session

/-! ## The page renderer -/

theorem Html.bodyText_presentable (options : PageOptions) {call : RenderCall}
    (hpresentable : call.Presentable) (hturn : call.inTurn true = true) :
    ∃ text, bodyText options call = .ok text := by
  cases call with
  | openDocument => cases hturn
  | image shown =>
      have hsource : ¬shown.source.isEmpty = true := by
        rw [String.isEmpty_iff]
        exact hpresentable
      exact ⟨_, if_neg hsource⟩
  | block written =>
      obtain ⟨kind, chunks⟩ := written
      cases kind with
      | pageBreak => exact absurd rfl hpresentable
      | title | chapter | sectionHeading | paragraph => exact ⟨_, rfl⟩
  | closeDocument | setPageSize | setPageMargins | newPage | horizontalRule
    | table => exact ⟨_, rfl⟩

theorem Html.callText_presentable (options : PageOptions) {isOpen : Bool}
    {call : RenderCall} (hpresentable : call.Presentable)
    (hturn : call.inTurn isOpen = true) :
    ∃ text, callText options isOpen call = .ok text := by
  cases isOpen with
  | true => exact bodyText_presentable options hpresentable hturn
  | false =>
      cases call with
      | openDocument => exact ⟨_, rfl⟩
      | _ => cases hturn

theorem Html.inTurn_of_callText {options : PageOptions} {isOpen : Bool}
    {call : RenderCall} {text : String}
    (h : callText options isOpen call = .ok text) :
    call.inTurn isOpen = true := by
  cases isOpen <;> cases call <;> first | rfl | cases h

namespace HtmlRenderer

theorem opensAfter_eq {isOpen : Bool} {call : RenderCall}
    (hturn : call.inTurn isOpen = true) :
    opensAfter isOpen call = call.leavesOpen := by
  cases call <;> first | rfl | exact hturn

instance {ω : Type} [Sink ω] : SteadyRenderer (HtmlRenderer ω) where
  isOpen_performed renderer call := by
    intro hperform
    simp only [Renderer.perform, perform] at hperform ⊢
    cases htext : Html.callText renderer.options renderer.isOpen call with
    | error error => simp [htext, Outcome.fail] at hperform
    | ok text =>
        simp only [htext] at hperform ⊢
        split at hperform
        · cases hperform
        · exact opensAfter_eq (Html.inTurn_of_callText htext)
  isOpen_rejected renderer call error := by
    intro hperform
    simp only [Renderer.perform, perform] at hperform ⊢
    split
    · rfl
    · split
      · rfl
      · simp_all

/-- On a sink that takes everything, a call that there is a text for
succeeds. -/
theorem perform_eq {renderer : HtmlRenderer Buffer} {call : RenderCall}
    {text : String}
    (htext : Html.callText renderer.options renderer.isOpen call = .ok text) :
    Renderer.perform renderer call =
      ⟨{ renderer with
          sink := ⟨renderer.sink.text ++ text⟩
          isOpen := opensAfter renderer.isOpen call }, none⟩ := by
  simp only [Renderer.perform, perform, htext]
  rfl

theorem performsInTurn :
    PerformsInTurn (HtmlRenderer Buffer) RenderCall.Presentable where
  failure?_perform renderer call hpresentable hturn := by
    obtain ⟨text, htext⟩ :=
      Html.callText_presentable renderer.options hpresentable hturn
    rw [perform_eq htext]
  isOpen_perform renderer call hpresentable hturn := by
    obtain ⟨text, htext⟩ :=
      Html.callText_presentable renderer.options hpresentable hturn
    rw [perform_eq htext]
    exact opensAfter_eq hturn

end HtmlRenderer

/-! ## Compiling a page -/

/-- Without an image whose source is empty, a page compiles to what the
recorded calls write, and ends as the record does. -/
theorem compile_page (options : Html.PageOptions) (template : String)
    (store : DataStore) (root : String)
    (hsources : ∀ event ∈ (Markup.read template).1, ¬event.HasEmptySource) :
    let blank : HtmlRenderer Buffer := { options, sink := {} }
    let plain := compile template store ({} : Recorder) root
    let paged := compile template store blank root
    paged.result = plain.result ∧
      replay blank plain.renderer.calls = ⟨paged.renderer, none⟩ := by
  intro blank plain paged
  let events := (Markup.read template).1
  let markupError := (Markup.read template).2
  let plainly := Session.begin root store ({} : Recorder)
  let visibly := Session.begin root store blank
  have hplainly : plainly.InStep := Session.inStep_begin rfl root store
  have hvisibly : visibly.InStep := Session.inStep_begin rfl root store
  have hpresentable : ∀ call ∈ Request.calls (plainly.asked events),
      call.Presentable := Session.presentable_asked hsources
  have hsame : plainly.SameCourse visibly := .begin root store _ _
  obtain ⟨hcalls, hproblems⟩ := Session.feedAll_recorder hplainly events
  obtain ⟨hdelivery, hfailure, hcourse⟩ := hsame.feedAll_performing
    HtmlRenderer.performsInTurn hplainly hvisibly events hpresentable
  have hdiagnostics : (visibly.feedAll events).state.diagnostics =
      (plainly.feedAll events).state.diagnostics :=
    (congrArg Delivery.diagnostics hdelivery).trans hproblems.symm
  constructor
  · have hpaged := hcourse.result_eq hfailure markupError
    have hplain := (Session.SameCourse.refl
      (plainly.feedAll events).state).result_eq rfl markupError
    rw [hdiagnostics, ← hplain] at hpaged
    exact hpaged
  · have hrecorded : plain.renderer.calls =
        Request.calls (plainly.asked events) := hcalls
    have hwritten : paged.renderer = performAll blank plain.renderer.calls := by
      rw [hrecorded]
      exact congrArg Delivery.renderer hdelivery
    rw [hwritten, hrecorded]
    exact HtmlRenderer.performsInTurn.replay_eq hpresentable
      (Session.inTurns_asked hplainly events)

/-! ## Options -/

namespace BackendOptions

variable {options : BackendOptions}

theorem checkKeys_root (hroot : ∀ key ∈ options.keys, key = rootKey)
    (backend : String) (accepted : List String) :
    checkKeys options backend accepted = .ok () := by
  have hknown : unknownKeys options accepted = [] := by
    rw [unknownKeys, List.filter_eq_nil_iff]
    intro key hkey
    simp [hroot key hkey]
  rw [checkKeys, hknown]

theorem get?_root (hroot : ∀ key ∈ options.keys, key = rootKey)
    {key : String} (hkey : key ≠ rootKey) : options.get? key = none :=
  Dictionary.get?_eq_none fun hmem => hkey (hroot key hmem)

end BackendOptions

/-- Options without any of its own leave a page its options, but for the title
that the data source has. -/
theorem HtmlBackend.pageOptions_root (base : Html.PageOptions)
    (store : DataStore) {options : BackendOptions}
    (hroot : ∀ key ∈ options.keys, key = rootKey) :
    pageOptions base store options =
      .ok { base with title := base.title.or store.title } := by
  have hnone {key : String} (hkey : key ≠ rootKey) :
      options.get? key = none := BackendOptions.get?_root hroot hkey
  simp only [pageOptions, Html.PageOptions.override,
    hnone (show "placeholders" ≠ rootKey by decide),
    hnone (show "declare" ≠ rootKey by decide),
    hnone (show "encoding" ≠ rootKey by decide),
    hnone (show "title" ≠ rootKey by decide),
    hnone (show "css" ≠ rootKey by decide),
    hnone (show "js" ≠ rootKey by decide),
    hnone (show "extra" ≠ rootKey by decide)]
  rfl

/-! ## Both backends -/

section Root

variable {options : BackendOptions}
  (hroot : ∀ key ∈ options.keys, key = rootKey) (template : String)
  (store : DataStore)
include hroot

theorem htmlBackend_render (base : Html.PageOptions) :
    let effective := { base with title := base.title.or store.title }
    let compiled := compile template store
      ({ options := effective, sink := {} } : HtmlRenderer Buffer)
      (BackendOptions.root options)
    (htmlBackend base).render template store options =
      compiled.result.map fun diagnostics =>
        ⟨compiled.renderer.sink.text, diagnostics⟩ := by
  simp only [htmlBackend, HtmlBackend.render,
    BackendOptions.checkKeys_root hroot,
    HtmlBackend.pageOptions_root base store hroot]
  rfl

theorem blocksBackend_render (pretty : Bool) :
    let compiled := compile template store ({} : Recorder)
      (BackendOptions.root options)
    (blocksBackend pretty).render template store options =
      compiled.result.map fun diagnostics =>
        ⟨transcript compiled.renderer.calls pretty, diagnostics⟩ := by
  have hpretty : BackendOptions.bool? options BlocksBackend.prettyKey =
      .ok none := by
    rw [BackendOptions.bool?, BackendOptions.get?_root hroot (by decide)]
  simp only [blocksBackend, BlocksBackend.render,
    BackendOptions.checkKeys_root hroot, hpretty]
  rfl

end Root

/-- Without an image whose source is empty both backends come to the same
end.  If it is not an error, the page is what the recorded calls write on a
page of its own, each of which succeeds. -/
theorem page_replays_blocks (base : Html.PageOptions) (pretty : Bool)
    (template : String) (store : DataStore) (options : BackendOptions)
    (hroot : ∀ key ∈ options.keys, key = rootKey)
    (hsources : ∀ event ∈ (Markup.read template).1, ¬event.HasEmptySource) :
    let page := (htmlBackend base).render template store options
    let stream := (blocksBackend pretty).render template store options
    let recorded := (compile template store ({} : Recorder)
      (BackendOptions.root options)).renderer.calls
    (∃ error, page = .error error ∧ stream = .error error) ∨
      ∃ effective written diagnostics,
        HtmlBackend.pageOptions base store options = .ok effective ∧
        replay ({ options := effective, sink := {} } : HtmlRenderer Buffer)
          recorded = ⟨written, none⟩ ∧
        page = .ok ⟨written.sink.text, diagnostics⟩ ∧
        stream = .ok ⟨transcript recorded pretty, diagnostics⟩ := by
  intro page stream recorded
  have heffective := HtmlBackend.pageOptions_root base store hroot
  have hpage : page = _ := htmlBackend_render hroot template store base
  have hstream : stream = _ := blocksBackend_render hroot template store pretty
  obtain ⟨hresult, hreplay⟩ := compile_page
    { base with title := base.title.or store.title } template store
    (BackendOptions.root options) hsources
  rw [hresult] at hpage
  cases hplain : (compile template store ({} : Recorder)
      (BackendOptions.root options)).result with
  | error error =>
      rw [hplain] at hpage hstream
      exact .inl ⟨error, hpage, hstream⟩
  | ok diagnostics =>
      rw [hplain] at hpage hstream
      exact .inr ⟨_, _, diagnostics, heffective, hreplay, hpage, hstream⟩

/-- A template with a heading and an image, whose root is named by an
option. -/
theorem page_replays_blocks_image :
    let template := "<doc><title>A</title><img src=\"b.png\"/></doc>"
    let options : BackendOptions := Dictionary.empty.insert rootKey "doc"
    (∀ key ∈ options.keys, key = rootKey) ∧
      (∀ event ∈ (Markup.read template).1, ¬event.HasEmptySource) ∧
      ∃ effective written diagnostics,
        HtmlBackend.pageOptions {} .empty options = .ok effective ∧
        replay ({ options := effective, sink := {} } : HtmlRenderer Buffer)
          (compile template .empty ({} : Recorder)
            (BackendOptions.root options)).renderer.calls = ⟨written, none⟩ ∧
        (htmlBackend).render template .empty options =
          .ok ⟨written.sink.text, diagnostics⟩ := by
  intro template options
  have hroot : ∀ key ∈ options.keys, key = rootKey := by decide +kernel
  have hsources : ∀ event ∈ (Markup.read template).1,
      ¬event.HasEmptySource := by decide +kernel
  refine ⟨hroot, hsources, ?_⟩
  obtain ⟨error, hfailed, -⟩ | ⟨effective, written, diagnostics, heffective,
      hreplay, hpage, -⟩ :=
    page_replays_blocks {} false template .empty options hroot hsources
  · have hrendered : ((htmlBackend).render template .empty
        options).toOption.isSome = true := by decide +kernel
    rw [hfailed] at hrendered
    cases hrendered
  · exact ⟨effective, written, diagnostics, heffective, hreplay, hpage⟩

end DocTemplate
