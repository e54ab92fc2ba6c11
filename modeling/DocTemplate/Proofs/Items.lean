import DocTemplate.Assembly

/-!
# The items of a document

Between its opening and its closing a document is a sequence of items: a new
page with what is set for it, a rule, an image, a block or a table.  This file
shows that whatever an element asks for, at its start or at its end, is a list
of whole items.  Reports may stand among the calls; they are no part of the
document.
-/

namespace DocTemplate

namespace RenderCall

/-- The calls of one item.  Page size and margins belong to the new page that
they take effect on. -/
inductive IsItem : List RenderCall → Prop
  | page (size : Option PageSize) (margins : Option PageMargins) :
      IsItem ((size.map setPageSize).toList ++
        (margins.map setPageMargins).toList ++ [newPage])
  | horizontalRule (rule : HorizontalRule) : IsItem [horizontalRule rule]
  | image (image : Image) : IsItem [.image image]
  | block (block : Block) : IsItem [.block block]
  | table (table : Table) : IsItem [.table table]

/-- The calls of some items, one item after the other. -/
inductive AreItems : List RenderCall → Prop
  | nil : AreItems []
  | cons {item rest : List RenderCall} :
      IsItem item → AreItems rest → AreItems (item ++ rest)

/-- Whether a call belongs between the opening and the closing. -/
def isInner : RenderCall → Bool
  | openDocument | closeDocument => false
  | _ => true

theorem IsItem.areItems {calls : List RenderCall} (h : IsItem calls) :
    AreItems calls := by
  simpa using AreItems.cons h .nil

theorem AreItems.append {first second : List RenderCall}
    (hfirst : AreItems first) (hsecond : AreItems second) :
    AreItems (first ++ second) := by
  induction hfirst with
  | nil => exact hsecond
  | cons hitem _ ih =>
      rw [List.append_assoc]
      exact .cons hitem ih

theorem IsItem.isInner {calls : List RenderCall} (h : IsItem calls)
    {call : RenderCall} (hcall : call ∈ calls) : call.isInner = true := by
  cases h with
  | page size margins =>
      cases size <;> cases margins <;> simp at hcall <;>
        rcases hcall with rfl | rfl | rfl <;> rfl
  | horizontalRule | image | block | table =>
      simp only [List.mem_singleton] at hcall
      subst hcall
      rfl

/-- Whether a call sets up pages or draws a rule. -/
def isLayout : RenderCall → Bool
  | setPageSize _ | setPageMargins _ | newPage | horizontalRule _ => true
  | _ => false

theorem AreItems.isInner {calls : List RenderCall} (h : AreItems calls)
    {call : RenderCall} (hcall : call ∈ calls) : call.isInner = true := by
  induction h with
  | nil => simp at hcall
  | cons hitem _ ih =>
      rcases List.mem_append.mp hcall with hhere | hlater
      · exact hitem.isInner hhere
      · exact ih hlater

end RenderCall

open RenderCall

namespace Request

def call? : Request → Option RenderCall
  | .call asked => some asked
  | .report _ => none

def problem? : Request → Option Problem
  | .call _ => none
  | .report problem => some problem

/-- The calls among some requests. -/
def calls (requests : List Request) : List RenderCall :=
  requests.filterMap call?

/-- The problems reported among some requests. -/
def problems (requests : List Request) : List Problem :=
  requests.filterMap problem?

@[simp] theorem calls_nil : calls [] = [] := rfl

@[simp] theorem calls_call_cons (asked : RenderCall) (rest : List Request) :
    calls (.call asked :: rest) = asked :: calls rest := rfl

@[simp] theorem calls_report_cons (problem : Problem) (rest : List Request) :
    calls (.report problem :: rest) = calls rest := rfl

@[simp] theorem calls_append (first second : List Request) :
    calls (first ++ second) = calls first ++ calls second :=
  List.filterMap_append

theorem mem_calls {asked : RenderCall} {requests : List Request} :
    asked ∈ calls requests ↔ .call asked ∈ requests := by
  rw [calls, List.mem_filterMap]
  constructor
  · rintro ⟨request, hrequest, hcall⟩
    cases request with
    | call other => exact Option.some.inj hcall ▸ hrequest
    | report problem => cases hcall
  · intro hrequest
    exact ⟨_, hrequest, rfl⟩

@[simp] theorem problems_nil : problems [] = [] := rfl

@[simp] theorem problems_call_cons (asked : RenderCall)
    (rest : List Request) :
    problems (.call asked :: rest) = problems rest := rfl

@[simp] theorem problems_report_cons (problem : Problem)
    (rest : List Request) :
    problems (.report problem :: rest) = problem :: problems rest := rfl

@[simp] theorem problems_append (first second : List Request) :
    problems (first ++ second) = problems first ++ problems second :=
  List.filterMap_append

theorem problems_toList_call {α : Type} (made? : Option α)
    (call : α → RenderCall) :
    problems (made?.map fun made => .call (call made)).toList = [] := by
  cases made? <;> rfl

end Request

/-! ## What the attributes of an element ask for -/

theorem calls_pageRequests (own : OwnAttributes) :
    Request.calls (pageRequests own) =
      (((own.lookup "size").bind PageSize.ofName?).map setPageSize).toList ++
        (((own.lookup "margin").bind fun text =>
          (PageMargins.read text).toOption).map setPageMargins).toList ++
        [newPage] := by
  simp only [pageRequests, Request.calls_append, Request.calls_call_cons,
    Request.calls_nil]
  congr 2
  · cases own.lookup "size" with
    | none => rfl
    | some name => cases hsize : PageSize.ofName? name <;> simp [hsize]
  · cases own.lookup "margin" with
    | none => rfl
    | some text =>
        cases hmargins : PageMargins.read text <;>
          simp [hmargins, Except.toOption]

theorem isItem_pageRequests (own : OwnAttributes) :
    IsItem (Request.calls (pageRequests own)) := by
  rw [calls_pageRequests]
  exact .page _ _

theorem calls_ruleField (own : OwnAttributes) (field : String)
    (default : Nat) : Request.calls (ruleField own field default).2 = [] := by
  unfold ruleField
  split
  · rfl
  · split <;> rfl

theorem isItem_ruleRequests (own : OwnAttributes) :
    IsItem (Request.calls (ruleRequests own)) := by
  simp only [ruleRequests, Request.calls_append, calls_ruleField,
    List.nil_append]
  exact .horizontalRule _

theorem areItems_imageRequests (own : OwnAttributes) :
    AreItems (Request.calls (imageRequests own)) := by
  unfold imageRequests
  split
  · exact (IsItem.image _).areItems
  · exact .nil

theorem calls_tableReports (own : OwnAttributes) :
    Request.calls (tableReports own) = [] := by
  unfold tableReports
  dsimp only
  rw [Request.calls_append, List.append_eq_nil_iff]
  constructor
  · split
    · rfl
    · split <;> rfl
  · split
    · rfl
    · split <;> rfl

/-! ## What starting and ending an element asks for -/

namespace Assembly

theorem calls_openValue (store : DataStore) (composer : Composer)
    (own : OwnAttributes) :
    Request.calls (openValue store composer own).2 = [] := by
  unfold openValue
  dsimp only
  split
  · rfl
  · split <;> rfl

theorem calls_openSpace (composer : Composer) (own : OwnAttributes) :
    Request.calls (openSpace composer own).2 = [] := by
  unfold openSpace
  dsimp only
  split <;> rfl

theorem areItems_startOutside {store : DataStore} {composer : Composer}
    {element : Element} {own : OwnAttributes} {started : Assembly}
    {requests : List Request}
    (h : startOutside store composer element own = .ok (started, requests)) :
    AreItems (Request.calls requests) := by
  cases element with
  | block kind =>
      cases kind <;> cases h <;> exact .nil
  | page =>
      cases h
      exact (isItem_pageRequests own).areItems
  | rule =>
      cases h
      exact (isItem_ruleRequests own).areItems
  | image =>
      cases h
      exact areItems_imageRequests own
  | table =>
      cases h
      rw [calls_tableReports]
      exact .nil
  | cell => cases h
  | value =>
      simp only [startOutside, Except.ok.injEq, Prod.mk.injEq] at h
      rw [← h.2, calls_openValue]
      exact .nil
  | space =>
      simp only [startOutside, Except.ok.injEq, Prod.mk.injEq] at h
      rw [← h.2, calls_openSpace]
      exact .nil
  | lineBreak | generic =>
      cases h
      exact .nil

theorem areItems_start {store : DataStore} {assembly next : Assembly}
    {element : Element} {own : OwnAttributes} {requests : List Request}
    (h : assembly.start store element own = (next, .ok requests)) :
    AreItems (Request.calls requests) := by
  unfold start at h
  dsimp only at h
  split at h
  · split at h <;> cases h
    exact .nil
  · split at h
    · rename_i started asked hstarted
      cases h
      exact areItems_startOutside hstarted
    · cases h

theorem areItems_stopEntry (composer : Composer) (element : Element) :
    AreItems (Request.calls (stopEntry composer element).2) := by
  unfold stopEntry
  split
  · dsimp only
    cases Composer.finish _ _ _ |>.2 with
    | none => exact .nil
    | some block => exact (IsItem.block block).areItems
  · exact .nil

theorem areItems_stop (assembly : Assembly) (element : Element) :
    AreItems (Request.calls (assembly.stop element).2) := by
  unfold stop
  split
  · exact .cons (.page none none) .nil
  · exact .nil
  · exact .nil
  · exact .nil
  · exact .nil
  · split <;> exact .nil
  · dsimp only
    cases assembly.table.bind Table.finished? with
    | none => exact .nil
    | some table => exact (IsItem.table table).areItems
  · exact areItems_stopEntry assembly.composer element

/-! ## Single calls -/

/-- The start of an element asks for layout or for its image. -/
theorem call_startOutside {store : DataStore} {composer : Composer}
    {element : Element} {own : OwnAttributes} {started : Assembly}
    {requests : List Request}
    (h : startOutside store composer element own = .ok (started, requests))
    {call : RenderCall} (hcall : call ∈ Request.calls requests) :
    call.isLayout = true ∨
      element = .image ∧ ∃ source, own.lookup "src" = some source ∧
        call = .image ⟨source⟩ := by
  cases element with
  | block kind => cases kind <;> cases h <;> cases hcall
  | page =>
      cases h
      left
      simp only [calls_pageRequests, List.mem_append, Option.mem_toList,
        Option.map_eq_some_iff, List.mem_singleton] at hcall
      rcases hcall with (⟨size, -, rfl⟩ | ⟨margins, -, rfl⟩) | rfl <;> rfl
  | rule =>
      cases h
      left
      simp only [ruleRequests, Request.calls_append, calls_ruleField,
        List.nil_append, Request.calls_call_cons, Request.calls_nil,
        List.mem_singleton] at hcall
      rw [hcall]
      rfl
  | image =>
      cases h
      unfold imageRequests at hcall
      split at hcall
      · rename_i source hsource
        exact .inr ⟨rfl, source, hsource, List.mem_singleton.mp hcall⟩
      · cases hcall
  | table =>
      cases h
      rw [calls_tableReports] at hcall
      cases hcall
  | cell => cases h
  | value =>
      cases h
      replace hcall :
          call ∈ Request.calls (openValue store composer own).2 := hcall
      rw [calls_openValue] at hcall
      cases hcall
  | space =>
      cases h
      replace hcall : call ∈ Request.calls (openSpace composer own).2 := hcall
      rw [calls_openSpace] at hcall
      cases hcall
  | lineBreak | generic => cases h; cases hcall

theorem call_start {store : DataStore} {assembly next : Assembly}
    {element : Element} {own : OwnAttributes} {requests : List Request}
    (h : assembly.start store element own = (next, .ok requests))
    {call : RenderCall} (hcall : call ∈ Request.calls requests) :
    call.isLayout = true ∨
      element = .image ∧ ∃ source, own.lookup "src" = some source ∧
        call = .image ⟨source⟩ := by
  unfold start at h
  dsimp only at h
  split at h
  · split at h <;> cases h
    cases hcall
  · split at h
    · rename_i started asked hstarted
      cases h
      exact call_startOutside hstarted hcall
    · cases h

theorem call_stopEntry {composer : Composer} {element : Element}
    {call : RenderCall}
    (hcall : call ∈ Request.calls (stopEntry composer element).2) :
    ∃ block, call = .block block ∧ element = .block block.kind := by
  unfold stopEntry at hcall
  split at hcall
  · rename_i left carrier kind hleave
    unfold Composer.finish at hcall
    dsimp only at hcall
    split at hcall
    · cases hcall
    · exact ⟨_, List.mem_singleton.mp hcall, rfl⟩
  · cases hcall

/-- The end of an element asks for a new page or for what the element has made:
its table, or a block of its own kind. -/
theorem call_stop {assembly : Assembly} {element : Element}
    {call : RenderCall}
    (hcall : call ∈ Request.calls (assembly.stop element).2) :
    call = .newPage ∨ (∃ table, call = .table table) ∨
      ∃ block, call = .block block ∧ element = .block block.kind ∧
        block.kind ≠ .pageBreak := by
  cases element with
  | block kind =>
      cases kind with
      | pageBreak => exact .inl (List.mem_singleton.mp hcall)
      | title | chapter | sectionHeading | paragraph =>
          obtain ⟨block, rfl, hkind⟩ := call_stopEntry hcall
          have hsame := Element.block.inj hkind
          exact .inr (.inr ⟨block, rfl, hkind, by simp [← hsame]⟩)
  | page | rule | image | lineBreak => cases hcall
  | table =>
      replace hcall : call ∈ Request.calls
          ((assembly.table.bind Table.finished?).map fun table =>
            Request.call (.table table)).toList := hcall
      cases hfinished : assembly.table.bind Table.finished? with
      | none =>
          rw [hfinished] at hcall
          cases hcall
      | some table =>
          rw [hfinished] at hcall
          exact .inr (.inl ⟨table, List.mem_singleton.mp hcall⟩)
  | cell =>
      unfold stop at hcall
      cases htable : assembly.table <;> rw [htable] at hcall <;> cases hcall
  | value | space | generic =>
      obtain ⟨block, -, hkind⟩ := call_stopEntry hcall
      cases hkind

end Assembly
end DocTemplate
