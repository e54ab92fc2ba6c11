import DocTemplate.Backend.Html
import DocTemplate.Proofs.Depth
import DocTemplate.Proofs.PageHead
import DocTemplate.Proofs.Replay
import Mathlib.Data.List.Sort

/-!
# Overriding the options of a page

The options of a page are laid over each other: those that a backend is made
with, those of any number of overrides, and for the title also what the data
source says.  A backend that is made with overridden options is the same as
the backend before with the overrides among the options of each page.  So it
is only the last override of a key that counts.

What the options come to is searched for backwards from the last override,
and the title is read off the finished page, which begins with its head.
-/

namespace DocTemplate
namespace Html
namespace PageOptions

variable {base merged last : PageOptions}

/-! ## Laying values over options -/

/-- Each field of the merged options has what the value of its key stands
for.  Without a value of its key it is as before. -/
structure Overridden (base : PageOptions) (value? : String → Option String)
    (merged : PageOptions) : Prop where
  declaration : merged.declaration =
    (value? "declare").getD base.declaration
  encoding : merged.encoding = (value? "encoding").getD base.encoding
  title : merged.title = (value? "title").or base.title
  styleSheets : merged.styleSheets =
    ((value? "css").map splitList).getD base.styleSheets
  scripts : merged.scripts = ((value? "js").map splitList).getD base.scripts
  extra : merged.extra = ((value? "extra").map nonEmpty).getD base.extra
  placeholders : .ok merged.placeholders =
    ((value? "placeholders").map PlaceholderMode.read).getD
      (.ok base.placeholders)

theorem override_eq (base : PageOptions) (options : BackendOptions) :
    base.override options =
      (((options.get? "placeholders").map PlaceholderMode.read).getD
        (.ok base.placeholders)).map fun placeholders =>
          { declaration := (options.get? "declare").getD base.declaration
            encoding := (options.get? "encoding").getD base.encoding
            title := (options.get? "title").or base.title
            styleSheets :=
              ((options.get? "css").map splitList).getD base.styleSheets
            scripts := ((options.get? "js").map splitList).getD base.scripts
            extra := ((options.get? "extra").map nonEmpty).getD base.extra
            placeholders } := by
  unfold override
  cases options.get? "placeholders" with
  | none => rfl
  | some mode =>
      dsimp only [Option.map_some, Option.getD_some]
      cases PlaceholderMode.read mode <;> rfl

theorem override_eq_ok_iff {options : BackendOptions} :
    base.override options = .ok merged ↔
      base.Overridden options.get? merged := by
  rw [override_eq]
  constructor
  · intro hmerged
    cases hread : ((options.get? "placeholders").map
        PlaceholderMode.read).getD (.ok base.placeholders) with
    | error error =>
        rw [hread] at hmerged
        cases hmerged
    | ok placeholders =>
        rw [hread] at hmerged
        cases hmerged
        exact ⟨rfl, rfl, rfl, rfl, rfl, rfl, hread.symm⟩
  · intro hfields
    rw [← hfields.placeholders, ← hfields.declaration, ← hfields.encoding,
      ← hfields.title, ← hfields.styleSheets, ← hfields.scripts,
      ← hfields.extra]
    rfl

theorem override_union {first : BackendOptions}
    (hmerged : base.override first = .ok merged) (second : BackendOptions) :
    base.override (first.union second) = merged.override second := by
  have hfields := override_eq_ok_iff.mp hmerged
  simp only [override_eq, Dictionary.get?_union, Option.getD_or,
    Option.map_or, Option.or_assoc, hfields.declaration, hfields.encoding,
    hfields.title, hfields.styleSheets, hfields.scripts, hfields.extra,
    hfields.placeholders]

theorem override_self {options : BackendOptions}
    (hmerged : base.override options = .ok merged) :
    merged.override options = .ok merged := by
  have hunion : options.union options = options := by
    apply Dictionary.ext
    intro key
    simp
  rw [← override_union hmerged, hunion, hmerged]

/-! ## Many overrides -/

/-- The value of a key in the last override that has one. -/
def lastValue? (overrides : List BackendOptions) (key : String) :
    Option String :=
  overrides.reverse.findSome? fun options => options.get? key

theorem lastValue?_cons (options : BackendOptions)
    (rest : List BackendOptions) (key : String) :
    lastValue? (options :: rest) key =
      (lastValue? rest key).or (options.get? key) := by
  simp [lastValue?, List.findSome?_append]

theorem overridden_foldlM {gathered : BackendOptions}
    {overrides : List BackendOptions}
    (hgathered : base.override gathered = .ok merged)
    (hlast : overrides.foldlM override merged = .ok last) :
    base.Overridden (lastValue? (gathered :: overrides)) last := by
  -- the overrides up to one are gathered in a single one
  induction overrides generalizing gathered merged with
  | nil =>
      cases hlast
      have hsingle : lastValue? [gathered] = gathered.get? := by
        funext key
        simp [lastValue?]
      rw [hsingle]
      exact override_eq_ok_iff.mp hgathered
  | cons options rest ih =>
      rw [List.foldlM_cons, bind_eq_ok_iff] at hlast
      obtain ⟨next, hnext, hlast⟩ := hlast
      have hunion : base.override (gathered.union options) = .ok next := by
        rw [override_union hgathered, hnext]
      have hsame : lastValue? (gathered.union options :: rest) =
          lastValue? (gathered :: options :: rest) := by
        funext key
        simp only [lastValue?_cons, Dictionary.get?_union, Option.or_assoc]
      rw [← hsame]
      exact ih hunion hlast

end PageOptions
end Html

/-! ## Keys that are refused -/

theorem BackendOptions.unknownKeys_union {first : BackendOptions}
    {accepted : List String} (hkeys : ∀ key ∈ first.keys, key ∈ accepted)
    (second : BackendOptions) :
    unknownKeys (first.union second) accepted =
      unknownKeys second accepted := by
  -- both lists are ascending, so only their keys have to be compared
  apply List.Pairwise.eq_of_mem_iff
    ((Dictionary.ascending_keys _).filter _)
    ((Dictionary.ascending_keys _).filter _)
  intro key
  rw [List.mem_filter, List.mem_filter, Dictionary.mem_keys_iff,
    Dictionary.mem_keys_iff, Dictionary.get?_union]
  cases hsecond : second.get? key with
  | some value => rw [Option.some_or]
  | none =>
      rw [Option.none_or]
      apply iff_of_false
      · rintro ⟨hfirst, hunknown⟩
        have haccepted := hkeys key (Dictionary.mem_keys_iff.mpr hfirst)
        simp [haccepted] at hunknown
      · rintro ⟨⟨value, hvalue⟩, -⟩
        cases hvalue

theorem BackendOptions.root_union {first : BackendOptions}
    (hroot : first.get? rootKey = none) (second : BackendOptions) :
    root (first.union second) = root second := by
  simp only [root, Dictionary.get?_union, hroot, Option.or_none]

theorem HtmlBackend.render_union {base merged : Html.PageOptions}
    {first : BackendOptions}
    (hkeys : ∀ key ∈ first.keys, key ∈ Html.PageOptions.keys)
    (hmerged : base.override first = .ok merged) (second : BackendOptions)
    (template : String) (store : DataStore) :
    render base template store (first.union second) =
      render merged template store second := by
  have hroot : first.get? rootKey = none :=
    Dictionary.get?_eq_none fun hmem =>
      absurd (hkeys rootKey hmem) (by decide +kernel)
  simp only [render, pageOptions, BackendOptions.checkKeys,
    BackendOptions.unknownKeys_union hkeys, BackendOptions.root_union hroot,
    Html.PageOptions.override_union hmerged]

/-! ## What is written stays -/

namespace HtmlRenderer

def Continues (before after : HtmlRenderer Buffer) : Prop :=
  after.options = before.options ∧
    ∃ added, after.sink.text = before.sink.text ++ added

theorem Continues.refl (renderer : HtmlRenderer Buffer) :
    Continues renderer renderer :=
  ⟨rfl, "", String.append_empty.symm⟩

theorem Continues.trans {first second third : HtmlRenderer Buffer}
    (hfirst : Continues first second) (hsecond : Continues second third) :
    Continues first third := by
  obtain ⟨hoptions, added, htext⟩ := hfirst
  obtain ⟨hlater, more, hmore⟩ := hsecond
  refine ⟨hlater.trans hoptions, added ++ more, ?_⟩
  rw [hmore, htext, String.append_assoc]

theorem continues_perform (renderer : HtmlRenderer Buffer)
    (call : RenderCall) :
    Continues renderer (Renderer.perform renderer call).state := by
  cases htext : Html.callText renderer.options renderer.isOpen call with
  | error error =>
      simp only [Renderer.perform, perform, htext]
      exact .refl renderer
  | ok text =>
      rw [perform_eq htext]
      exact ⟨rfl, text, rfl⟩

end HtmlRenderer

theorem Delivery.continues_take (delivery : Delivery (HtmlRenderer Buffer))
    (request : Request) :
    delivery.renderer.Continues (delivery.take request).state.renderer := by
  cases request with
  | report problem => exact .refl _
  | call call =>
      have hperformed := delivery.renderer.continues_perform call
      simp only [take]
      split
      · exact hperformed
      · split <;> exact hperformed

theorem Delivery.continues_takeAll {requests : List Request}
    {delivery : Delivery (HtmlRenderer Buffer)} :
    delivery.renderer.Continues
      (delivery.takeAll requests).state.renderer := by
  induction requests generalizing delivery with
  | nil => exact .refl _
  | cons request rest ih =>
      have hfirst := delivery.continues_take request
      rw [takeAll_cons]
      cases htaken : (delivery.take request).failure? with
      | none =>
          rw [Outcome.andThen_of_ok htaken]
          exact hfirst.trans ih
      | some error => rwa [Outcome.andThen_of_fail htaken]

/-! ## The head of a page -/

/-- Before its root element a page is empty, and from there on it begins with
the head of its options. -/
def Session.Headed (options : Html.PageOptions)
    (session : Session (HtmlRenderer Buffer)) : Prop :=
  session.renderer.options = options ∧
    if session.state = .unopened then
      session.renderer.isOpen = false ∧ session.renderer.sink.text = ""
    else
      ∃ rest, session.renderer.sink.text = Html.pageHead options ++ rest

namespace Session

variable {options : Html.PageOptions} {session : Session (HtmlRenderer Buffer)}

theorem headed_begin (options : Html.PageOptions) (root : String)
    (store : DataStore) :
    (begin root store ({ options, sink := {} } : HtmlRenderer Buffer)).Headed
      options :=
  ⟨rfl, rfl, rfl⟩

theorem continues_feed (session : Session (HtmlRenderer Buffer))
    (event : Markup.Event) :
    session.renderer.Continues (session.feed event).state.renderer := by
  rw [feed_eq_settle]
  exact Delivery.continues_takeAll

theorem Headed.feed_unopened (hheaded : session.Headed options)
    (hstate : session.state = .unopened) (event : Markup.Event) :
    (session.feed event).state.Headed options := by
  obtain ⟨hoptions, hblank⟩ := hheaded
  rw [if_pos hstate] at hblank
  have hstill (assembly : Assembly) (refusal : Option CompileError) :
      (session.settle ⟨assembly, [], session.state, refusal⟩
        ⟨session.delivery, none⟩).state.Headed options := by
    rw [settle_nil]
    exact ⟨hoptions, by rwa [if_pos hstate]⟩
  rw [feed_eq_settle]
  have hreacts := session.reacts event
  generalize session.reaction event = reaction at hreacts
  cases hreacts with
  | refuses | passes | writes => exact hstill _ _
  | opens hroot hclosed =>
      have htext : Html.callText session.renderer.options
          session.renderer.isOpen .openDocument =
            .ok (Html.pageHead options) := by
        rw [hblank.1, hoptions]
        rfl
      have htaken : session.delivery.takeAll [.call .openDocument] =
          ⟨{ session.delivery with
              renderer := (Renderer.perform session.renderer
                .openDocument).state }, none⟩ := by
        simp only [Delivery.takeAll_cons, Delivery.take, delivery,
          HtmlRenderer.perform_eq htext]
        rfl
      rw [htaken, HtmlRenderer.perform_eq htext]
      refine ⟨hoptions, "", ?_⟩
      change session.renderer.sink.text ++ Html.pageHead options =
        Html.pageHead options ++ ""
      rw [hblank.2, String.empty_append, String.append_empty]
  | misplaces hin | starts hin => cases hstate.symm.trans hin.2.1
  | closes hroot hopened | stops hroot hopened =>
      cases hstate.symm.trans hopened

theorem Headed.feed_begun (hheaded : session.Headed options)
    (hstate : session.state ≠ .unopened) (event : Markup.Event) :
    (session.feed event).state.Headed options := by
  obtain ⟨hoptions, hbegun⟩ := hheaded
  rw [if_neg hstate] at hbegun
  obtain ⟨rest, htext⟩ := hbegun
  obtain ⟨hlater, added, hadded⟩ := session.continues_feed event
  have hstill : (session.feed event).state.state ≠ .unopened := by
    rw [feed_eq_settle]
    have hreacts := session.reacts event
    generalize session.reaction event = reaction at hreacts
    simp only [settle]
    split
    · cases hreacts with
      | refuses | passes | writes => exact hstate
      | opens | misplaces | starts | closes | stops =>
          intro hunopened
          cases hunopened
    · exact hstate
  refine ⟨hlater.trans hoptions, ?_⟩
  rw [if_neg hstill, hadded, htext, String.append_assoc]
  exact ⟨rest ++ added, rfl⟩

theorem Headed.feedAll (hheaded : session.Headed options)
    (events : List Markup.Event) :
    (session.feedAll events).state.Headed options := by
  induction events generalizing session with
  | nil => exact hheaded
  | cons event rest ih =>
      have hnext : (session.feed event).state.Headed options := by
        by_cases hstate : session.state = .unopened
        · exact hheaded.feed_unopened hstate event
        · exact hheaded.feed_begun hstate event
      rw [feedAll_cons]
      cases hevent : (session.feed event).failure? with
      | none =>
          rw [Outcome.andThen_of_ok hevent]
          exact ih hnext
      | some error => rwa [Outcome.andThen_of_fail hevent]

end Session

/-- Behind the declaration the head of the page reads back with the options in
it. -/
def Html.PageOptions.Begins (options : PageOptions) (page : String) : Prop :=
  ∃ head rest, page = options.declaration ++ "\n" ++ head ++ rest ∧
    tokens? head = some (headTokens options)

theorem Html.PageOptions.begins_of_pageHead {options : PageOptions}
    {page rest : String} (hpage : page = pageHead options ++ rest) :
    options.Begins page := by
  have hreads := (reads_headMarkup options).tokens?_eq
  rw [String.ofList_toList] at hreads
  rw [pageHead_eq] at hpage
  exact ⟨headMarkup options, rest, hpage, hreads⟩

theorem compile_begins {options : Html.PageOptions} {template : String}
    {store : DataStore} {root : String} {diagnostics : List Diagnostic}
    (hcompiled : (compile template store
      ({ options, sink := {} } : HtmlRenderer Buffer) root).result =
        .ok diagnostics) :
    options.Begins (compile template store
      ({ options, sink := {} } : HtmlRenderer Buffer)
        root).renderer.sink.text := by
  let session := (Session.begin root store
    ({ options, sink := {} } : HtmlRenderer Buffer)).feedAll
      (Markup.read template).1
  have hclosed : session.state.state = .closed :=
    (Compiled.closed_of_ok hcompiled).2
  have hbegun : session.state.state ≠ .unopened := by
    rw [hclosed]
    exact nofun
  have hheaded := (Session.headed_begin options root store).feedAll
    (Markup.read template).1
  rw [Session.Headed, if_neg hbegun] at hheaded
  obtain ⟨-, rest, htext⟩ := hheaded
  exact Html.PageOptions.begins_of_pageHead htext

namespace HtmlBackend

open Html Html.PageOptions

variable {base merged : PageOptions} {template : String}
  {store : DataStore} {options : BackendOptions} {rendered : Rendered}

theorem begins_of_render
    (hrendered : render base template store options = .ok rendered) :
    ∃ merged, base.override options = .ok merged ∧
      ({ merged with title := merged.title.or store.title } :
        PageOptions).Begins rendered.output := by
  simp only [render, pageOptions, bind_eq_ok_iff, mapError_eq_ok_iff]
    at hrendered
  obtain ⟨-, -, effective, ⟨merged, hmerged, heffective⟩, diagnostics,
    hresult, hrendered⟩ := hrendered
  cases heffective
  cases hrendered
  exact ⟨merged, hmerged, compile_begins hresult⟩

/-- A backend made with overridden options renders like the one before with
the override among the options of the page, which have the last word.  An
override counts once, however often it is laid over; of many overrides the
last value of a key counts, and without one the field is as before.  The page
begins with the options that come of it, and its title is that of the last
override, or else the configured one, or else that of the data source, or
else empty. -/
theorem options_compose {first : BackendOptions}
    (hkeys : ∀ key ∈ first.keys, key ∈ PageOptions.keys)
    (hmerged : base.override first = .ok merged) :
    (∀ (second : BackendOptions) (template : String) (store : DataStore),
      (htmlBackend base).render template store (first.union second) =
        (htmlBackend merged).render template store second) ∧
    merged.override first = .ok merged ∧
    ∀ (overrides : List BackendOptions) (last : PageOptions),
      overrides.foldlM override merged = .ok last →
      base.Overridden (lastValue? (first :: overrides)) last ∧
      ∀ (second : BackendOptions) (template : String) (store : DataStore)
        (rendered : Rendered),
        (htmlBackend last).render template store second = .ok rendered →
        let value? := lastValue? (first :: overrides ++ [second])
        ∃ final effective : PageOptions,
          base.Overridden value? final ∧
          effective = { final with title := final.title.or store.title } ∧
          effective.Begins rendered.output ∧
          effective.title.getD "" =
            (((value? "title").or base.title).or store.title).getD "" := by
  refine ⟨fun second template store =>
    render_union hkeys hmerged second template store,
    override_self hmerged, fun overrides last hlast => ?_⟩
  refine ⟨overridden_foldlM hmerged hlast, ?_⟩
  intro second template store rendered hrendered value?
  obtain ⟨final, hfinal, hbegins⟩ := begins_of_render hrendered
  have hall : (overrides ++ [second]).foldlM override merged = .ok final := by
    rw [List.foldlM_append, hlast, ok_bind, List.foldlM_cons, hfinal, ok_bind]
    rfl
  have hoverridden := overridden_foldlM hmerged hall
  refine ⟨final, _, hoverridden, rfl, hbegins, ?_⟩
  rw [hoverridden.title]
  rfl

/-- A title and style sheets are configured, and the page asks for another
title. -/
theorem options_compose_titled :
    let first : BackendOptions :=
      .ofList [("title", "A"), ("css", "a.css, ,b.css")]
    let second : BackendOptions := .ofList [("root", "doc"), ("title", "B")]
    let merged : PageOptions :=
      { title := some "A", styleSheets := ["a.css", "b.css"] }
    let template := "<doc><para>x</para></doc>"
    (∀ key ∈ first.keys, key ∈ PageOptions.keys) ∧
      ({} : PageOptions).override first = .ok merged ∧
      htmlBackend.render template .empty (first.union second) =
        (htmlBackend merged).render template .empty second ∧
      ∃ (rendered : Rendered) (effective : PageOptions),
        (htmlBackend merged).render template .empty second = .ok rendered ∧
        effective.Begins rendered.output ∧
        effective.title.getD "" = "B" := by
  intro first second merged template
  have hkeys : ∀ key ∈ first.keys, key ∈ PageOptions.keys := by
    decide +kernel
  have hmerged : ({} : PageOptions).override first = .ok merged := by
    decide +kernel
  obtain ⟨hunion, -, hoverrides⟩ := options_compose hkeys hmerged
  refine ⟨hkeys, hmerged, hunion second template .empty, ?_⟩
  have hsucceeds : ((htmlBackend merged).render template .empty
      second).toOption.isSome = true := by decide +kernel
  cases hrendered : (htmlBackend merged).render template .empty second with
  | error error =>
      rw [hrendered] at hsucceeds
      cases hsucceeds
  | ok rendered =>
      obtain ⟨-, hpage⟩ := hoverrides [] merged rfl
      obtain ⟨final, effective, -, -, hbegins, htitle⟩ :=
        hpage second template .empty rendered hrendered
      exact ⟨rendered, effective, rfl, hbegins, htitle⟩

end HtmlBackend

end DocTemplate
