import DocTemplate.Proofs.Course
import DocTemplate.Proofs.Reports

/-!
# Inserting layout and images

A page setup, a rule and an image have nothing to do with the text around
them.  Their start neither opens an entry nor flushes the text that waits, and
their end does nothing at all.  So such an element, without content, can be
inserted into a document wherever no table is open, be it in the middle of a
paragraph: its own calls and its own problems come in at that place, and the
rest of the document asks for what it has asked for before.
-/

namespace DocTemplate

open Markup Renderer RenderCall

namespace Element

/-- Whether an element stands beside the text and not in it. -/
def isTransparent : Element → Bool
  | page | rule | image => true
  | _ => false

end Element

/-- The number in an attribute of a rule, which has a usual value. -/
def ruleNumber (own : OwnAttributes) (key : String) (usual : Nat) : Nat :=
  ((own.lookup key).bind fun text =>
    Text.natural? Text.maxCount (Text.trim text)).getD usual

/-- The calls of a transparent element: page sizes and margins that can be
read and then a new page, one rule, or the image if it has a source. -/
def Element.ownCalls (own : OwnAttributes) : Element → List RenderCall
  | .page =>
      (((own.lookup "size").bind PageSize.ofName?).map setPageSize).toList ++
        (((own.lookup "margin").bind fun text =>
          (PageMargins.read text).toOption).map setPageMargins).toList ++
        [newPage]
  | .rule =>
      [horizontalRule
        ⟨ruleNumber own "width" 1, ruleNumber own "percent" 100⟩]
  | .image => ((own.lookup "src").map fun source =>
      RenderCall.image ⟨source⟩).toList
  | _ => []

theorem fst_ruleField (own : OwnAttributes) (key : String) (usual : Nat) :
    (ruleField own key usual).1 = ruleNumber own key usual := by
  unfold ruleField ruleNumber
  cases own.lookup key with
  | none => rfl
  | some text =>
      cases hvalue : Text.natural? Text.maxCount (Text.trim text) <;>
        simp [hvalue]

theorem calls_ruleRequests (own : OwnAttributes) :
    Request.calls (ruleRequests own) = Element.rule.ownCalls own := by
  simp [ruleRequests, calls_ruleField, fst_ruleField, Element.ownCalls]

theorem calls_imageRequests (own : OwnAttributes) :
    Request.calls (imageRequests own) = Element.image.ownCalls own := by
  unfold imageRequests Element.ownCalls
  cases own.lookup "src" <;> rfl

theorem Element.layout_or_image_of_mem_ownCalls {element : Element}
    {own : OwnAttributes} {call : RenderCall}
    (hcall : call ∈ element.ownCalls own) :
    call.isLayout = true ∨ ∃ shown, call = .image shown := by
  cases element with
  | page =>
      left
      simp only [ownCalls, List.mem_append, Option.mem_toList,
        Option.map_eq_some_iff, List.mem_singleton] at hcall
      rcases hcall with (⟨size, -, rfl⟩ | ⟨margins, -, rfl⟩) | rfl <;> rfl
  | rule =>
      left
      rw [List.mem_singleton.mp hcall]
      rfl
  | image =>
      right
      simp only [ownCalls, Option.mem_toList, Option.map_eq_some_iff] at hcall
      obtain ⟨source, -, rfl⟩ := hcall
      exact ⟨_, rfl⟩
  | block | table | cell | value | space | lineBreak | generic => cases hcall

/-- What is picked from a record is the same with the calls of a transparent
element as without them, where neither layout nor images are picked. -/
theorem Element.filterMap_inserted {α : Type} {pick : RenderCall → Option α}
    (hlayout : ∀ call, call.isLayout = true → pick call = none)
    (himage : ∀ shown, pick (.image shown) = none) (element : Element)
    (own : OwnAttributes) (front later : List RenderCall) :
    (front ++ element.ownCalls own ++ later).filterMap pick =
      (front ++ later).filterMap pick := by
  have hnone : (element.ownCalls own).filterMap pick = [] := by
    rw [List.filterMap_eq_nil_iff]
    intro call hcall
    rcases layout_or_image_of_mem_ownCalls hcall with hplain | ⟨shown, rfl⟩
    · exact hlayout call hplain
    · exact himage shown
  simp only [List.filterMap_append, hnone, List.append_nil]

theorem Recorder.contents_inserted (element : Element) (own : OwnAttributes)
    (front later : List RenderCall) (isOpen wasOpen : Bool) :
    let inserted : Recorder := ⟨front ++ element.ownCalls own ++ later, isOpen⟩
    let plain : Recorder := ⟨front ++ later, wasOpen⟩
    inserted.blocks = plain.blocks ∧ inserted.tables = plain.tables := by
  constructor
  · apply Element.filterMap_inserted _ fun _ => rfl
    intro call hlayout
    cases call <;> first | rfl | cases hlayout
  · apply Element.filterMap_inserted _ fun _ => rfl
    intro call hlayout
    cases call <;> first | rfl | cases hlayout

namespace Assembly

/-- A transparent element leaves an assembly without a table as it is. -/
theorem start_transparent {assembly : Assembly} (store : DataStore)
    {element : Element} (own : OwnAttributes)
    (htable : assembly.table = none)
    (hplain : element.isTransparent = true) :
    ∃ requests,
      assembly.start store element own = (assembly, .ok requests) ∧
        Request.calls requests = element.ownCalls own := by
  obtain ⟨composer, table⟩ := assembly
  cases htable
  cases element with
  | page => exact ⟨_, rfl, calls_pageRequests own⟩
  | rule => exact ⟨_, rfl, calls_ruleRequests own⟩
  | image => exact ⟨_, rfl, calls_imageRequests own⟩
  | block | table | cell | value | space | lineBreak | generic => cases hplain

theorem stop_transparent (assembly : Assembly) {element : Element}
    (hplain : element.isTransparent = true) :
    assembly.stop element = (assembly, []) := by
  cases element with
  | page | rule | image => rfl
  | block | table | cell | value | space | lineBreak | generic => cases hplain

end Assembly

namespace Session

variable {σ : Type} [Renderer σ] [AcceptingRenderer σ] {session : Session σ}

/-- Where no table is open, a transparent element asks for its own calls,
reports its own problems, and leaves the course of the session as it is. -/
theorem asked_transparent (hagree : session.InStep)
    (hstate : session.state = .opened) (htable : session.assembly.table = none)
    {name : String} (hname : Text.lower name ≠ session.root)
    (hplain : (Element.ofName name).isTransparent = true)
    (own : OwnAttributes) :
    let events : List Event := [.start name own, .stop name]
    (session.feedAll events).failure? = none ∧
      Request.calls (session.asked events) =
        (Element.ofName name).ownCalls own ∧
      Request.problems (session.asked events) =
        (Element.ofName name).problems session.store own ∧
      session.SameCourse (session.feedAll events).state := by
  intro events
  obtain ⟨requests, hstart, hcalls⟩ :=
    Assembly.start_transparent session.store own htable hplain
  have hproblems := Assembly.problems_start hstart
  rw [if_pos htable] at hproblems
  let next := session.meet requests
  have hfeed : session.feed (.start name own) = ⟨next, none⟩ :=
    start_opened hstate (hagree.mp hstate) hname hstart
  obtain ⟨hnext, hasked⟩ := asked_start hagree hstate hname hstart
  have hstate' : next.state = .opened := hstate
  have hstop : next.feed (.stop name) = ⟨next, none⟩ := by
    have hstopped := Assembly.stop_transparent next.assembly hplain
    have hpasses : next.feed (.stop name) = _ :=
      stop_opened hstate' (hnext.mp hstate') hname hstopped
    rw [hpasses, meet_nil]
  obtain ⟨-, haskedNext⟩ := asked_stop hnext hstate' hname
    (Assembly.stop_transparent next.assembly hplain)
  have hlist : session.asked events = requests := by
    have hnothing : next.asked [.stop name] = [] := haskedNext []
    have hfirst := hasked [.stop name]
    change session.asked events = requests ++ next.asked _ at hfirst
    rw [hfirst, hnothing, List.append_nil]
  have hall : session.feedAll events = ⟨next, none⟩ := by
    simp only [events]
    rw [feedAll_cons_of_ok (by rw [hfeed]), hfeed,
      feedAll_cons_of_ok (by rw [hstop]), hstop, feedAll_nil]
  rw [hall, hlist]
  exact ⟨rfl, hcalls, hproblems, rfl, rfl, rfl, rfl⟩

/-- A page setup, a rule or an image that is inserted without content where a
document is open and no table is leaves all blocks and tables as they are.  Its
own calls come in behind those of the events before it, and so do the reports
on its own attributes. -/
theorem feedAll_inserted {root name : String} {store : DataStore}
    {before after : List Event}
    (hok : ((begin root store ({} : Recorder)).feedAll
      (before ++ after)).failure? = none)
    (hopened : ((begin root store ({} : Recorder)).feedAll
      before).state.state = .opened)
    (htable : ((begin root store ({} : Recorder)).feedAll
      before).state.assembly.table = none)
    (hname : Text.lower name ≠ Text.lower root)
    (hplain : (Element.ofName name).isTransparent = true)
    (own : OwnAttributes) :
    let session := begin root store ({} : Recorder)
    let front := (session.feedAll before).state
    let plain := session.feedAll (before ++ after)
    let inserted :=
      session.feedAll (before ++ .start name own :: .stop name :: after)
    let element := Element.ofName name
    inserted.failure? = none ∧
      plain.state.SameCourse inserted.state ∧
      inserted.state.renderer.blocks = plain.state.renderer.blocks ∧
      inserted.state.renderer.tables = plain.state.renderer.tables ∧
      (∃ later,
        plain.state.renderer.calls = front.renderer.calls ++ later ∧
          inserted.state.renderer.calls =
            front.renderer.calls ++ element.ownCalls own ++ later) ∧
      ∃ later,
        plain.state.diagnostics = front.diagnostics ++ later ∧
          inserted.state.diagnostics = front.diagnostics ++
            (element.problems store own).map Problem.diagnostic ++ later := by
  intro session front plain inserted element
  have hagree : session.InStep := inStep_begin rfl root store
  obtain ⟨hbefore, hafter⟩ := feedAll_append_ok_iff.mp hok
  have hfront : front.InStep := hagree.feedAll before
  have hroot : front.root = Text.lower root := session.root_feedAll before
  have hstore : front.store = store := session.store_feedAll before
  obtain ⟨hmiddle, hcalls, hproblems, hcourse⟩ :=
    asked_transparent hfront hopened htable (hroot ▸ hname) hplain own
  rw [hstore] at hproblems
  -- Behind the element the session is where it would have been without it.
  obtain ⟨hasked, hlater, hend⟩ :=
    hcourse.asked_eq hfront (hfront.feedAll _) hafter
  have hrest : (front.feedAll
      ([.start name own, .stop name] ++ after)).failure? = none :=
    feedAll_append_ok_iff.mpr ⟨hmiddle, hlater⟩
  have hplainState : plain.state = (front.feedAll after).state :=
    state_feedAll_append hbefore after
  have hinsertedState : inserted.state =
      (front.feedAll ([.start name own, .stop name] ++ after)).state :=
    state_feedAll_append hbefore _
  obtain ⟨hplainCalls, hplainReports⟩ := feedAll_recorder hfront after
  obtain ⟨hinsertedCalls, hinsertedReports⟩ := feedAll_recorder hfront
    ([.start name own, .stop name] ++ after)
  rw [asked_append hmiddle, hasked, Request.calls_append, hcalls,
    ← List.append_assoc, ← hinsertedState] at hinsertedCalls
  rw [asked_append hmiddle, hasked, Request.problems_append, hproblems,
    List.map_append, ← List.append_assoc, ← hinsertedState]
    at hinsertedReports
  rw [← hplainState] at hplainCalls hplainReports
  have hcontents := Recorder.contents_inserted element own
    front.renderer.calls (Request.calls (front.asked after))
    inserted.state.renderer.isOpen plain.state.renderer.isOpen
  rw [← hinsertedCalls, ← hplainCalls] at hcontents
  refine ⟨feedAll_append_ok_iff.mpr ⟨hbefore, hrest⟩, ?_, hcontents.1,
    hcontents.2, ⟨_, hplainCalls, hinsertedCalls⟩,
    ⟨_, hplainReports, hinsertedReports⟩⟩
  rw [hplainState, hinsertedState, state_feedAll_append hmiddle]
  exact hend

/-- A new page between two texts of a paragraph, inside an inline element. -/
theorem feedAll_inserted_page :
    let before : List Event :=
      [.start "doc" [], .start "para" [], .text "one", .start "b" [],
        .text "two"]
    let after : List Event :=
      [.text "three", .stop "b", .stop "para", .stop "doc"]
    let own : OwnAttributes := [("size", " B5 "), ("margin", "1,2,x,4")]
    let taken := (begin "doc" .empty ({} : Recorder)).feedAll
    let inserted := taken (before ++ .start "Page" own :: .stop "Page" :: after)
    (taken (before ++ after)).failure? = none ∧
      inserted.failure? = none ∧
      inserted.state.renderer.blocks =
        [⟨.paragraph, [{ contents := "one" }, { contents := "twothree" }]⟩] ∧
      (∃ later, inserted.state.renderer.calls =
        [.openDocument, .setPageSize ⟨"b5", 498, 708⟩, .newPage] ++ later) ∧
      ∃ later, inserted.state.diagnostics =
        [⟨.attributeFormat, "Invalid margin value 'x' in '1,2,x,4'"⟩] ++
          later := by
  intro before after own
  dsimp only
  let front := ((begin "doc" .empty ({} : Recorder)).feedAll before).state
  have hok : ((begin "doc" .empty ({} : Recorder)).feedAll
      (before ++ after)).failure? = none := by decide +kernel
  have hopened : front.state = .opened := by decide +kernel
  have htable : front.assembly.table = none := by decide +kernel
  have hplain : (Element.ofName "Page").isTransparent = true := by
    decide +kernel
  have hblocks : ((begin "doc" .empty ({} : Recorder)).feedAll
        (before ++ after)).state.renderer.blocks =
      [⟨.paragraph, [{ contents := "one" }, { contents := "twothree" }]⟩] := by
    decide +kernel
  have hcalls : front.renderer.calls ++ (Element.ofName "Page").ownCalls own =
      [.openDocument, .setPageSize ⟨"b5", 498, 708⟩, .newPage] := by
    decide +kernel
  have hreports : front.diagnostics ++
        ((Element.ofName "Page").problems .empty own).map Problem.diagnostic =
      [⟨.attributeFormat, "Invalid margin value 'x' in '1,2,x,4'"⟩] := by
    decide +kernel
  obtain ⟨hinserted, -, hsame, -, ⟨later, -, hall⟩, ⟨reports, -, hreported⟩⟩ :=
    feedAll_inserted hok hopened htable (by decide +kernel) hplain own
  refine ⟨hok, hinserted, hsame.trans hblocks, ⟨later, ?_⟩, ⟨reports, ?_⟩⟩
  · rw [← hcalls]
    exact hall
  · rw [← hreports]
    exact hreported

end Session
end DocTemplate
