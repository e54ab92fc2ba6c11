import DocTemplate.Proofs.Placement
import DocTemplate.Proofs.Reaction
import DocTemplate.Proofs.TableRows

/-!
# What a document reports

Everything that is reported on a template is the problem of one of its
elements, and what the problems of an element are can be told from its name,
its own attributes and the data alone.  Neither the elements around it nor
anything that came before it has a part in them.  Of the place of an element
only one thing matters, whether it counts at all: it does in an open document
and outside of tables.
-/

namespace DocTemplate

open Markup Renderer

/-! ## The problems of an element -/

/-- The problem with the value of an attribute, if the attribute is there. -/
def attributeProblems (own : OwnAttributes) (key : String)
    (problem? : String → Option Problem) : List Problem :=
  ((own.lookup key).bind problem?).toList

def sizeProblem? (name : String) : Option Problem :=
  if (PageSize.ofName? name).isSome then none else some (.unknownPageSize name)

/-- Margins have four parts; the first that does not read is named. -/
def marginProblem? (text : String) : Option Problem :=
  let parts := Text.fields ',' text
  if parts.length < 4 then
    some (.margins (.tooFew text))
  else
    ((parts.take 4).find? fun part => (Text.integer? part).isNone).map
      fun part => .margins (.malformed part text)

def ruleProblem? (field value : String) : Option Problem :=
  if (Text.natural? Text.maxCount (Text.trim value)).isSome then
    none
  else
    some (.malformedRule field value)

/-- Columns have a weight each; the first that does not read is named.  The
weights add up as words of 32 bits do. -/
def columnsProblem? (columns : String) : Option Problem :=
  let weights := Text.fields ',' columns
  match weights.find? fun weight =>
      (Text.natural? Text.maxCount weight).isNone with
  | some weight => some (.columns (.malformed weight columns))
  | none =>
      let words :=
        weightWords (weights.filterMap (Text.natural? Text.maxCount))
      if words.sum = 0 then some (.columns (.zeroTotal columns)) else none

def widthProblem? (width : String) : Option Problem :=
  if (readWidth? width).isSome then none else some (.malformedWidth width)

/-- A space needs a size. -/
def spaceProblem? : Option String → Option Problem
  | none => some .spaceWithoutSize
  | some size =>
      match Text.natural? Text.maxLength (Text.trim size) with
      | none => some (.malformedSpace size)
      | some count =>
          if count ≤ maxSpace then none else some (.spaceTooLarge size)

/-- A placeholder needs an id that has a text. -/
def valueProblem? (store : DataStore) : Option String → Option Problem
  | none => some .valueWithoutId
  | some id =>
      match store.resolve id with
      | .value _ => none
      | .missing => some (.unknownId id)
      | .notText => some (.idNotText id)
      | .noData => some (.noData id)

namespace Element

/-- The problems of an element, in the order in which they are reported. -/
def problems (store : DataStore) (own : OwnAttributes) :
    Element → List Problem
  | page =>
      attributeProblems own "size" sizeProblem? ++
        attributeProblems own "margin" marginProblem?
  | rule =>
      attributeProblems own "width" (ruleProblem? "width") ++
        attributeProblems own "percent" (ruleProblem? "percent")
  | image =>
      if (own.lookup "src").isNone then [.imageWithoutSource] else []
  | table =>
      attributeProblems own "columns" columnsProblem? ++
        attributeProblems own "width" widthProblem?
  | space => (spaceProblem? (own.lookup "size")).toList
  | value => (valueProblem? store (own.lookup "id")).toList
  | block _ | cell | lineBreak | generic => []

def problemKind : Element → DiagnosticKind
  | value => .dataBinding
  | image => .renderer
  | _ => .attributeFormat

end Element

/-! ## Where an element counts -/

/-- Where in a document an event is met. -/
inductive Spot
  | before
  | inside
  | inTable
  | behind
deriving DecidableEq, Repr

namespace Spot

def of : DocumentState → (isTableOpen : Bool) → Spot
  | .unopened, _ => before
  | .opened, false => inside
  | .opened, true => inTable
  | .closed, _ => behind

/-- Where the next event is met, if this one is taken. -/
def next (root : String) : Spot → Event → Spot
  | before, .start name _ =>
      if Text.lower name = root then inside else before
  | inside, .start name _ =>
      if Element.ofName name = .table then inTable else inside
  | inside, .stop name => if Text.lower name = root then behind else inside
  | inTable, .stop name =>
      if Text.lower name = root then behind
      else if Element.ofName name = .table then inside
      else inTable
  | spot, _ => spot

def problems (store : DataStore) : Spot → Event → List Problem
  | inside, .start name own => (Element.ofName name).problems store own
  | _, _ => []

/-- The problems of all elements that count, one element after the other. -/
def allProblems (root : String) (store : DataStore) :
    Spot → List Event → List Problem
  | _, [] => []
  | spot, event :: rest =>
      spot.problems store event ++
        (spot.next root event).allProblems root store rest

end Spot

/-! ## Reading attributes -/

/-- Whether a list reads is decided by its first item that does not. -/
theorem mapM_eq_find? {α β ε : Type} {step : α → Except ε β}
    (read : α → Option β) (error : α → ε)
    (hsome : ∀ item value, read item = some value → step item = .ok value)
    (hnone : ∀ item, read item = none → step item = .error (error item))
    (items : List α) :
    items.mapM step =
      match items.find? fun item => (read item).isNone with
      | some item => .error (error item)
      | none => .ok (items.filterMap read) := by
  induction items with
  | nil => rfl
  | cons item rest ih =>
      rw [List.mapM_cons, ih]
      cases hread : read item with
      | none => simp [hnone item hread, hread, bind, Except.bind]
      | some value =>
          simp only [hsome item value hread, List.find?_cons, hread,
            Option.isNone_some, List.filterMap_cons]
          cases rest.find? fun item => (read item).isNone <;> rfl

theorem columnsProblem?_eq (columns : String) :
    columnsProblem? columns =
      match readColumns columns with
      | .ok _ => none
      | .error error => some (.columns error) := by
  simp only [columnsProblem?, readColumns, sum_weightWords_eq_zero_iff]
  rw [mapM_eq_find? (Text.natural? Text.maxCount)
    (fun weight => .malformed weight columns)
    (fun weight value hread => by simp [hread])
    (fun weight hread => by simp [hread])]
  cases (Text.fields ',' columns).find? fun weight =>
      (Text.natural? Text.maxCount weight).isNone with
  | some weight => rfl
  | none =>
      simp only [bind, Except.bind]
      split <;> rfl

example : columnsProblem? "4294967295,1" =
    some (.columns (.zeroTotal "4294967295,1")) := by decide +kernel

theorem marginProblem?_eq (text : String) :
    marginProblem? text =
      match PageMargins.read text with
      | .ok _ => none
      | .error error => some (.margins error) := by
  unfold marginProblem? PageMargins.read
  dsimp only
  match hparts : Text.fields ',' text with
  | [] | [_] | [_, _] | [_, _, _] => simp
  | left :: right :: top :: bottom :: others =>
      cases hleft : Text.integer? left <;>
        cases hright : Text.integer? right <;>
        cases htop : Text.integer? top <;>
        cases hbottom : Text.integer? bottom <;>
        simp [hleft, hright, htop, hbottom, bind, Except.bind, pure,
          Except.pure]

/-! ## What elements report -/

theorem problems_pageRequests (store : DataStore) (own : OwnAttributes) :
    Request.problems (pageRequests own) = Element.page.problems store own := by
  simp only [pageRequests, Request.problems_append, Request.problems_call_cons,
    Request.problems_nil, List.append_nil, Element.problems, attributeProblems]
  congr 1
  · cases own.lookup "size" with
    | none => rfl
    | some name => cases hsize : PageSize.ofName? name <;>
        simp [sizeProblem?, hsize]
  · cases own.lookup "margin" with
    | none => rfl
    | some text =>
        cases hmargins : PageMargins.read text <;>
          simp [marginProblem?_eq, hmargins]

theorem problems_ruleField (own : OwnAttributes) (field : String)
    (default : Nat) :
    Request.problems (ruleField own field default).2 =
      attributeProblems own field (ruleProblem? field) := by
  unfold ruleField attributeProblems
  cases own.lookup field with
  | none => rfl
  | some value =>
      cases hvalue : Text.natural? Text.maxCount (Text.trim value) <;>
        simp [ruleProblem?, hvalue]

theorem problems_ruleRequests (store : DataStore) (own : OwnAttributes) :
    Request.problems (ruleRequests own) = Element.rule.problems store own := by
  simp [ruleRequests, problems_ruleField, Element.problems]

theorem problems_imageRequests (store : DataStore) (own : OwnAttributes) :
    Request.problems (imageRequests own) =
      Element.image.problems store own := by
  unfold imageRequests Element.problems
  cases own.lookup "src" <;> rfl

theorem problems_tableReports (store : DataStore) (own : OwnAttributes) :
    Request.problems (tableReports own) =
      Element.table.problems store own := by
  simp only [tableReports, Request.problems_append, Element.problems,
    attributeProblems]
  congr 1
  · cases own.lookup "columns" with
    | none => rfl
    | some columns =>
        cases hcolumns : readColumns columns <;>
          simp [columnsProblem?_eq, hcolumns]
  · cases own.lookup "width" with
    | none => rfl
    | some width =>
        cases hwidth : readWidth? width <;> simp [widthProblem?, hwidth]

namespace Assembly

theorem problems_openValue (store : DataStore) (composer : Composer)
    (own : OwnAttributes) :
    Request.problems (openValue store composer own).2 =
      Element.value.problems store own := by
  unfold openValue valueText Element.problems valueProblem?
  cases own.lookup "id" with
  | none => rfl
  | some id =>
      cases hresolve : store.resolve id with
      | value text =>
          simp only [hresolve]
          split <;> rfl
      | missing | notText | noData => simp [hresolve]

theorem problems_openSpace (store : DataStore) (composer : Composer)
    (own : OwnAttributes) :
    Request.problems (openSpace composer own).2 =
      Element.space.problems store own := by
  unfold openSpace spaceText Element.problems spaceProblem?
  cases own.lookup "size" with
  | none => rfl
  | some size =>
      cases hsize : Text.natural? Text.maxLength (Text.trim size) with
      | none => simp [hsize]
      | some count => by_cases hcount : count ≤ maxSpace <;>
          simp [hsize, hcount]

theorem problems_startOutside {store : DataStore} {composer : Composer}
    {element : Element} {own : OwnAttributes} {started : Assembly}
    {requests : List Request}
    (h : startOutside store composer element own = .ok (started, requests)) :
    Request.problems requests = element.problems store own := by
  cases element with
  | cell => cases h
  | block kind => cases kind <;> cases h <;> rfl
  | page => cases h; exact problems_pageRequests store own
  | rule => cases h; exact problems_ruleRequests store own
  | image => cases h; exact problems_imageRequests store own
  | table => cases h; exact problems_tableReports store own
  | value => cases h; exact problems_openValue store composer own
  | space => cases h; exact problems_openSpace store composer own
  | lineBreak | generic => cases h; rfl

/-- An element that starts outside of tables reports its problems; a cell in a
table has none. -/
theorem problems_start {store : DataStore} {assembly next : Assembly}
    {element : Element} {own : OwnAttributes} {requests : List Request}
    (h : assembly.start store element own = (next, .ok requests)) :
    Request.problems requests =
      if assembly.table = none then element.problems store own else [] := by
  unfold start at h
  dsimp only at h
  split at h
  · rename_i table htable
    rw [htable, if_neg (Option.some_ne_none table)]
    split at h <;> cases h
    rfl
  · rename_i htable
    rw [if_pos htable]
    split at h
    · rename_i started asked hstarted
      cases h
      exact problems_startOutside hstarted
    · cases h

theorem problems_stop (assembly : Assembly) (element : Element) :
    Request.problems (assembly.stop element).2 = [] := by
  cases element with
  | block kind =>
      cases kind with
      | pageBreak => rfl
      | title | chapter | sectionHeading | paragraph =>
          simp only [stop, stopEntry]
          split
          · exact Request.problems_toList_call _ _
          · rfl
  | cell => cases htable : assembly.table <;> simp [stop, htable]
  | table => exact Request.problems_toList_call _ _
  | page | rule | image | lineBreak => rfl
  | value | space | generic => simp [stop, stopEntry]

end Assembly

/-! ## The kinds of problems -/

section

variable {text : String} {problem : Problem}

theorem kind_sizeProblem? (h : sizeProblem? text = some problem) :
    problem.kind = .attributeFormat := by
  unfold sizeProblem? at h
  split at h <;> cases h
  rfl

theorem kind_marginProblem? (h : marginProblem? text = some problem) :
    problem.kind = .attributeFormat := by
  rw [marginProblem?_eq] at h
  split at h <;> cases h
  rfl

theorem kind_ruleProblem? {field : String}
    (h : ruleProblem? field text = some problem) :
    problem.kind = .attributeFormat := by
  unfold ruleProblem? at h
  split at h <;> cases h
  rfl

theorem kind_columnsProblem? (h : columnsProblem? text = some problem) :
    problem.kind = .attributeFormat := by
  rw [columnsProblem?_eq] at h
  split at h <;> cases h
  rfl

theorem kind_widthProblem? (h : widthProblem? text = some problem) :
    problem.kind = .attributeFormat := by
  unfold widthProblem? at h
  split at h <;> cases h
  rfl

theorem kind_spaceProblem? {size? : Option String}
    (h : spaceProblem? size? = some problem) :
    problem.kind = .attributeFormat := by
  revert h
  fun_cases spaceProblem? size? <;> intro h <;> cases h <;> rfl

theorem kind_valueProblem? {store : DataStore} {id? : Option String}
    (h : valueProblem? store id? = some problem) :
    problem.kind = .dataBinding := by
  revert h
  fun_cases valueProblem? store id? <;> intro h <;> cases h <;> rfl

theorem kind_of_mem_attributeProblems {own : OwnAttributes} {key : String}
    {problem? : String → Option Problem} {kind : DiagnosticKind}
    (hkind : ∀ {value problem}, problem? value = some problem →
      problem.kind = kind)
    (hproblem : problem ∈ attributeProblems own key problem?) :
    problem.kind = kind := by
  rw [attributeProblems, Option.mem_toList, Option.bind_eq_some_iff]
    at hproblem
  obtain ⟨value, -, hvalue⟩ := hproblem
  exact hkind hvalue

end

/-- The kind of a problem is told by the element that has it. -/
theorem Element.kind_of_mem_problems {element : Element} {store : DataStore}
    {own : OwnAttributes} {problem : Problem}
    (hproblem : problem ∈ element.problems store own) :
    problem.kind = element.problemKind := by
  cases element with
  | page =>
      rcases List.mem_append.mp hproblem with hsize | hmargin
      · exact kind_of_mem_attributeProblems kind_sizeProblem? hsize
      · exact kind_of_mem_attributeProblems kind_marginProblem? hmargin
  | rule =>
      rcases List.mem_append.mp hproblem with hwidth | hpercent
      · exact kind_of_mem_attributeProblems kind_ruleProblem? hwidth
      · exact kind_of_mem_attributeProblems kind_ruleProblem? hpercent
  | table =>
      rcases List.mem_append.mp hproblem with hcolumns | hwidth
      · exact kind_of_mem_attributeProblems kind_columnsProblem? hcolumns
      · exact kind_of_mem_attributeProblems kind_widthProblem? hwidth
  | image =>
      simp only [problems] at hproblem
      split at hproblem
      · cases List.mem_singleton.mp hproblem
        rfl
      · cases hproblem
  | space => exact kind_spaceProblem? (Option.mem_toList.mp hproblem)
  | value => exact kind_valueProblem? (Option.mem_toList.mp hproblem)
  | block | cell | lineBreak | generic => cases hproblem

/-! ## What an event reports -/

theorem Spot.of_start {store : DataStore} {assembly next : Assembly}
    {name : String} {own : OwnAttributes} {requests : List Request}
    (root : String)
    (h : assembly.start store (.ofName name) own = (next, .ok requests)) :
    Spot.of .opened next.table.isSome =
      (Spot.of .opened assembly.table.isSome).next root (.start name own) := by
  obtain ⟨hcell, hnext⟩ := Assembly.start_ok h
  cases htable : assembly.table.isSome with
  | true =>
      rw [hnext.mpr (.inl (hcell.mp htable))]
      rfl
  | false =>
      have hother : Element.ofName name ≠ .cell := fun hsame => by
        simp [hcell.mpr hsame] at htable
      by_cases helement : Element.ofName name = .table
      · rw [hnext.mpr (.inr helement)]
        simp [of, Spot.next, helement]
      · have hnone : next.table.isSome = false := by
          rw [← Bool.not_eq_true, hnext]
          exact fun hor => hor.elim hother helement
        simp [hnone, of, Spot.next, helement]

theorem Spot.of_stop (assembly : Assembly) {name root : String}
    (hroot : Text.lower name ≠ root) :
    Spot.of .opened (assembly.stop (.ofName name)).1.table.isSome =
      (Spot.of .opened assembly.table.isSome).next root (.stop name) := by
  have hstop := Assembly.stop_table assembly (.ofName name)
  cases htable : assembly.table.isSome with
  | false =>
      have hnone : (assembly.stop (.ofName name)).1.table.isSome = false := by
        rw [← Bool.not_eq_true, hstop, htable]
        simp
      simp [hnone, of, next, hroot]
  | true =>
      by_cases helement : Element.ofName name = .table
      · have hnone :
            (assembly.stop (.ofName name)).1.table.isSome = false := by
          rw [← Bool.not_eq_true, hstop]
          exact fun hand => hand.2 helement
        rw [hnone]
        simp [of, next, hroot, helement]
      · rw [hstop.mpr ⟨htable, helement⟩]
        simp [of, next, hroot, helement]

namespace Session

variable {σ : Type} {session : Session σ}

def spot (session : Session σ) : Spot :=
  .of session.state session.assembly.table.isSome

theorem spot_eq_inside_iff :
    session.spot = .inside ↔
      session.state = .opened ∧ session.assembly.table = none := by
  unfold spot
  cases session.state <;> cases session.assembly.table <;> simp [Spot.of]

variable [Renderer σ]

/-- A session that knows of no table before its document is opened. -/
def Fresh (session : Session σ) : Prop :=
  session.state = .unopened → session.assembly.table = none

/-- What comes of an event that does not fail: the next event is met where
the spot says, and the problems of the event are reported. -/
structure Reports (session : Session σ) (event : Event)
    (next : Session σ) : Prop where
  root_eq : next.root = session.root
  store_eq : next.store = session.store
  fresh : next.Fresh
  spot_eq : next.spot = session.spot.next session.root event
  diagnostics_eq : next.diagnostics = session.diagnostics ++
    (session.spot.problems session.store event).map Problem.diagnostic

variable [AcceptingRenderer σ]

theorem reports_feed (hagree : session.InStep) (hfresh : session.Fresh)
    {event : Event} (hfeed : (session.feed event).failure? = none) :
    session.Reports event (session.feed event).state := by
  have hstep := step_feed hagree event
  generalize session.feed event = outcome at hstep hfeed
  cases hstep with
  | repeats | early | late | misplaces => cases hfeed
  | opens hroot hstate =>
      have htable := hfresh hstate
      exact
        { root_eq := rfl
          store_eq := rfl
          fresh := fun hclosed => by cases hclosed
          spot_eq := by simp [spot, hstate, htable, Spot.of, Spot.next, hroot]
          diagnostics_eq := by simp [spot, hstate, Spot.of, Spot.problems] }
  | @starts name own assembly requests hroot hstate hstart =>
      have hspot := Spot.of_start session.root hstart
      have hproblems := Assembly.problems_start hstart
      refine ⟨rfl, rfl, fun hclosed => ?_, ?_, ?_⟩
      · cases hstate.symm.trans hclosed
      · simpa only [spot, meet, hstate] using hspot
      · simp only [meet, hproblems, spot, hstate]
        cases session.assembly.table <;> rfl
  | passes hstate | ignores hstate =>
      refine ⟨rfl, rfl, hfresh, ?_, ?_⟩
      · unfold spot
        cases hcase : session.state <;> first | rfl | exact absurd hcase hstate
      · simp [Spot.problems]
  | closes hroot hstate =>
      refine ⟨rfl, rfl, fun hclosed => ?_, ?_, by simp [Spot.problems]⟩
      · cases hclosed
      · cases htable : session.assembly.table <;>
          simp [spot, hstate, htable, Spot.of, Spot.next, hroot]
  | @stops name assembly requests hroot hstate hstop =>
      have hspot := Spot.of_stop session.assembly hroot
      have hproblems := Assembly.problems_stop session.assembly (.ofName name)
      rw [hstop] at hspot hproblems
      refine ⟨rfl, rfl, fun hclosed => ?_, ?_, ?_⟩
      · cases hstate.symm.trans hclosed
      · simpa only [spot, meet, hstate] using hspot
      · simp [meet, hproblems, Spot.problems]
  | writes hstate =>
      refine ⟨rfl, rfl, fun hclosed => ?_, ?_, by simp [Spot.problems]⟩
      · cases hstate.symm.trans hclosed
      · simp only [spot, hstate, Assembly.addText, Assembly.withComposer]
        cases session.assembly.table <;> rfl

/-! ## What a document reports -/

omit [AcceptingRenderer σ] in
/-- A document cannot be opened on a renderer that is open already, and before
it is opened no element starts. -/
theorem feedAll_alreadyOpen (hstate : session.state = .unopened)
    (hopen : isOpen session.renderer = true) {events : List Event}
    (hfeed : (session.feedAll events).failure? = none) :
    session.feedAll events = ⟨session, none⟩ ∧
      events.foldl (Spot.next session.root) .before = .before ∧
      Spot.before.allProblems session.root session.store events = [] := by
  induction events with
  | nil => exact ⟨rfl, rfl, rfl⟩
  | cons event rest ih =>
      rw [feedAll_cons] at hfeed ⊢
      cases event with
      | start name own =>
          have hfails : ∃ error,
              session.feed (.start name own) = .fail session error := by
            by_cases hroot : Text.lower name = session.root
            · exact ⟨.duplicateRoot session.root, by
                simp [feed, start, openDocument, hroot, hopen]⟩
            · exact ⟨.notOpened name session.root, by
                simp [feed, start, hroot, hstate]⟩
          obtain ⟨error, hfails⟩ := hfails
          rw [hfails] at hfeed
          cases hfeed
      | stop name =>
          have hstill : session.feed (.stop name) = ⟨session, none⟩ := by
            simp only [feed, stop, hstate]
          rw [hstill] at hfeed ⊢
          exact ih hfeed
      | text contents =>
          have hstill : session.feed (.text contents) = ⟨session, none⟩ := by
            simp only [feed, addText, hstate]
          rw [hstill] at hfeed ⊢
          exact ih hfeed

end Session
end DocTemplate
