import DocTemplate.Proofs.Lookups
import DocTemplate.Proofs.TableRows
import DocTemplate.Proofs.UniqueKeys

/-!
# What is reported on a table and how it is laid out

The attributes of a table are looked at twice, and by two sides that do not
know of each other.  When the table opens, the session looks them up among the
attributes of the tag and reports those that do not read.  When the table is
laid out, they are looked up in what has been written with it, and one that
does not read is passed over for what is usual.  In between come any number of
events, among them some that fail.  Still both sides see the same texts: an
open table keeps its attributes, and in a tag that gives no key twice it does
not matter from which end a key is looked up.  So the usual layout stands in
for a written attribute exactly where something has been reported.
-/

namespace DocTemplate

open Markup Renderer

/-! ## The attributes of an open table -/

theorem Table.attributes_closeCell (table : Table) (contents : String) :
    (table.closeCell contents).attributes = table.attributes := rfl

namespace Assembly

/-- The attributes of the table in the making, if there is one. -/
def tableAttributes? (assembly : Assembly) : Option Attributes :=
  assembly.table.map Table.attributes

variable {assembly : Assembly} {attributes : Attributes}

/-- Inside a table the start of an element leaves the attributes of the table
as they are and asks for nothing. -/
theorem tableAttributes?_start
    (h : assembly.tableAttributes? = some attributes) {store : DataStore}
    {element : Element} {own : OwnAttributes} {next : Assembly}
    {started : Except Misplacement (List Request)}
    (hstart : assembly.start store element own = (next, started)) :
    next.tableAttributes? = some attributes ∧
      ∀ requests, started = .ok requests → requests = [] := by
  obtain ⟨table, htable, rfl⟩ := Option.map_eq_some_iff.mp h
  unfold start at hstart
  simp only [htable] at hstart
  split at hstart
  · cases hstart
    refine ⟨rfl, ?_⟩
    rintro requests ⟨⟩
    rfl
  · cases hstart
    exact ⟨rfl, nofun⟩

theorem tableAttributes?_stop
    (h : assembly.tableAttributes? = some attributes) {element : Element}
    (helement : element ≠ .table) :
    (assembly.stop element).1.tableAttributes? = some attributes := by
  obtain ⟨table, htable, rfl⟩ := Option.map_eq_some_iff.mp h
  cases element with
  | table => exact absurd rfl helement
  | cell =>
      simp only [stop, htable, tableAttributes?, Option.map_some,
        Table.attributes_closeCell]
  | block kind =>
      cases kind <;> simp [stop, tableAttributes?, withComposer, htable]
  | page | rule | image | lineBreak | value | space | generic =>
      simp [stop, tableAttributes?, withComposer, htable]

theorem table_of_mem_stop {element : Element} {table : Table}
    (h : .call (.table table) ∈ (assembly.stop element).2) :
    assembly.table = some table := by
  rw [← Request.mem_calls] at h
  cases element with
  | table =>
      replace h : RenderCall.table table ∈ Request.calls
          ((assembly.table.bind Table.finished?).map fun finished =>
            Request.call (.table finished)).toList := h
      cases htable : assembly.table with
      | none =>
          rw [htable] at h
          cases h
      | some found =>
          rw [htable, Option.bind_some] at h
          unfold Table.finished? at h
          split at h
          · cases h
          · cases List.mem_singleton.mp h
            rfl
  | cell =>
      unfold stop at h
      cases htable : assembly.table <;> rw [htable] at h <;> cases h
  | block kind =>
      cases kind with
      | pageBreak => cases List.mem_singleton.mp h
      | title | chapter | sectionHeading | paragraph =>
          obtain ⟨block, hblock, -⟩ := call_stopEntry h
          cases hblock
  | page | rule | image | lineBreak => cases h
  | value | space | generic =>
      obtain ⟨block, hblock, -⟩ := call_stopEntry h
      cases hblock

end Assembly

/-! ## Reports on attributes -/

namespace Delivery

variable {σ : Type} [Renderer σ]

/-- Requests that report nothing leave the diagnostics as they were, but for
rejections by the renderer. -/
theorem ofKind_takeAll {kind : DiagnosticKind} (hkind : kind ≠ .renderer)
    {requests : List Request} (hproblems : Request.problems requests = [])
    (delivery : Delivery σ) :
    Diagnostic.ofKind kind (delivery.takeAll requests).state.diagnostics =
      Diagnostic.ofKind kind delivery.diagnostics := by
  induction requests generalizing delivery with
  | nil => rfl
  | cons request rest ih =>
      cases request with
      | report problem => cases hproblems
      | call call =>
          have htake : Diagnostic.ofKind kind
              (delivery.take (.call call)).state.diagnostics =
                Diagnostic.ofKind kind delivery.diagnostics := by
            simp only [take]
            split
            · rfl
            · split
              · rfl
              · have hother : ¬(DiagnosticKind.renderer == kind) = true := by
                  simpa using hkind.symm
                simp [report, Diagnostic.ofKind, Problem.diagnostic,
                  Problem.kind, hother]
          rw [takeAll_cons]
          cases hfirst : (delivery.take (.call call)).failure? with
          | none =>
              rw [Outcome.andThen_of_ok hfirst, ih hproblems, htake]
          | some error => rw [Outcome.andThen_of_fail hfirst, htake]

theorem takeAll_of_calls_nil {requests : List Request}
    (hcalls : Request.calls requests = []) (delivery : Delivery σ) :
    delivery.takeAll requests =
      ⟨{ delivery with
          diagnostics := delivery.diagnostics ++
            (Request.problems requests).map Problem.diagnostic }, none⟩ := by
  induction requests generalizing delivery with
  | nil => simp
  | cons request rest ih =>
      cases request with
      | call call => cases hcalls
      | report problem =>
          rw [takeAll_cons]
          change (delivery.report problem).takeAll rest = _
          rw [ih hcalls]
          simp [report]

end Delivery

namespace Session

variable {σ : Type} [Renderer σ] {session : Session σ}

/-! ## From the start of a table to its end -/

theorem feed_table_ok {name : String} {own : OwnAttributes}
    (hname : Element.ofName name = .table)
    (hroot : Text.lower name ≠ session.root)
    (hopened : (session.feed (.start name own)).failure? = none) :
    let opened := (session.feed (.start name own)).state
    opened.assembly.tableAttributes? = some (.ofList own) ∧
      opened.diagnostics = session.diagnostics ++
        (Element.table.problems session.store own).map Problem.diagnostic := by
  intro opened
  have hreacts := session.reacts (.start name own)
  have hassembly := session.assembly_feed (.start name own)
  have hdelivery := session.delivery_feed (.start name own)
  rw [failure?_feed] at hopened
  generalize session.reaction (.start name own) = reaction
    at hreacts hassembly hdelivery hopened
  cases hreacts with
  | refuses error hout => simp [refuses, still] at hopened
  | opens hsame hclosed => exact absurd hsame hroot
  | misplaces hin hstart => simp at hopened
  | @starts _ _ assembly requests hin hstart =>
      have htable : session.assembly.table = none := by
        have hcell := (Assembly.start_ok hstart).1
        simpa [hname] using hcell
      have hproblems := Assembly.problems_start hstart
      rw [if_pos htable, hname] at hproblems
      rw [hname] at hstart
      simp only [Assembly.start, htable, Assembly.startOutside, Prod.mk.injEq,
        Except.ok.injEq] at hstart
      obtain ⟨rfl, rfl⟩ := hstart
      rw [Delivery.takeAll_of_calls_nil (calls_tableReports own), hproblems]
        at hdelivery
      exact ⟨congrArg Assembly.tableAttributes? hassembly,
        congrArg Delivery.diagnostics hdelivery⟩

theorem ofKind_feed {kind : DiagnosticKind} (hkind : kind ≠ .renderer)
    {event : Event}
    (hproblems : Request.problems (session.reaction event).requests = []) :
    Diagnostic.ofKind kind (session.feed event).state.diagnostics =
      Diagnostic.ofKind kind session.diagnostics := by
  have hreports := Delivery.ofKind_takeAll hkind hproblems session.delivery
  rw [← delivery_feed] at hreports
  exact hreports

/-- The end of an element reports nothing, and asks for a table only if it is
the one in the making. -/
theorem reaction_stop (name : String) :
    Request.problems (session.reaction (.stop name)).requests = [] ∧
      ∀ table, .call (.table table) ∈
          (session.reaction (.stop name)).requests →
        session.assembly.table = some table := by
  have hreacts := session.reacts_stop name
  generalize session.reaction (.stop name) = reaction at hreacts
  cases hreacts with
  | passes => exact ⟨rfl, nofun⟩
  | closes =>
      refine ⟨rfl, fun table htable => ?_⟩
      cases List.mem_singleton.mp htable
  | stops hroot hstate =>
      exact ⟨Assembly.problems_stop _ _,
        fun table => Assembly.table_of_mem_stop⟩

/-- A session with an open table that has some attributes, and with what has
been reported on attributes. -/
structure KeepsTable (attributes : Attributes) (reports : List Diagnostic)
    (session : Session σ) : Prop where
  attributes_eq : session.assembly.tableAttributes? = some attributes
  reports_eq :
    Diagnostic.ofKind .attributeFormat session.diagnostics = reports

theorem KeepsTable.feed {attributes : Attributes} {reports : List Diagnostic}
    (h : session.KeepsTable attributes reports) {event : Event}
    (hevent : ∀ name, event = .stop name → Element.ofName name ≠ .table) :
    (session.feed event).state.KeepsTable attributes reports := by
  have hreacts := session.reacts event
  -- diagnostics of attributes come from the reaction alone
  suffices hkept :
      (session.reaction event).assembly.tableAttributes? = some attributes ∧
        Request.problems (session.reaction event).requests = [] by
    refine ⟨by rw [assembly_feed, hkept.1], ?_⟩
    rw [ofKind_feed (by decide) hkept.2]
    exact h.reports_eq
  generalize session.reaction event = reaction at hreacts
  cases hreacts with
  | refuses | passes => exact ⟨h.attributes_eq, rfl⟩
  | opens | closes => exact ⟨h.attributes_eq, rfl⟩
  | misplaces hin hstart =>
      exact ⟨(Assembly.tableAttributes?_start h.attributes_eq hstart).1, rfl⟩
  | starts hin hstart =>
      obtain ⟨hattributes, hrequests⟩ :=
        Assembly.tableAttributes?_start h.attributes_eq hstart
      rw [hrequests _ rfl]
      exact ⟨hattributes, rfl⟩
  | @stops name hroot hstate =>
      exact ⟨Assembly.tableAttributes?_stop h.attributes_eq (hevent name rfl),
        Assembly.problems_stop _ _⟩
  | writes text =>
      refine ⟨?_, rfl⟩
      rw [← h.attributes_eq]
      unfold addText
      cases session.state <;> rfl

theorem KeepsTable.run {attributes : Attributes} {reports : List Diagnostic}
    (h : session.KeepsTable attributes reports) {events : List Event}
    (hevents : ∀ name, .stop name ∈ events → Element.ofName name ≠ .table) :
    (session.run events).KeepsTable attributes reports := by
  induction events generalizing session with
  | nil => exact h
  | cons event rest ih =>
      rw [run_cons]
      refine ih (h.feed ?_) ?_
      · rintro name rfl
        exact hevents name List.mem_cons_self
      · intro name hname
        exact hevents name (List.mem_cons_of_mem _ hname)

end Session

/-! ## Attributes that read -/

theorem Markup.UniqueKeys.lookup_eq_some_iff {own : OwnAttributes}
    (hunique : UniqueKeys own) {key value : String} :
    own.lookup key = some value ↔ (key, value) ∈ own := by
  induction own with
  | nil => simp
  | cons first rest ih =>
      obtain ⟨hfirst, hrest⟩ := List.pairwise_cons.mp hunique
      rw [Dictionary.lookup_cons_eq_ite, List.mem_cons]
      by_cases hkey : key = first.1
      · rw [if_pos hkey, Option.some.injEq]
        refine ⟨fun hvalue => .inl (by rw [hkey, ← hvalue]), ?_⟩
        rintro (rfl | hlater)
        · rfl
        · exact absurd hkey.symm (hfirst _ hlater)
      · have hother : (key, value) ≠ first := fun heq => hkey (by rw [← heq])
        rw [if_neg hkey, ih hrest]
        simp [hother]

theorem Table.attribute?_of_unique {table : Table} {own : OwnAttributes}
    (hunique : UniqueKeys own) (hattributes : table.attributes = .ofList own)
    (key : String) : table.attribute? key = own.lookup key := by
  rw [attribute?, hattributes, Dictionary.get?_ofList,
    Dictionary.lookup_reverse hunique]

/-- Whether a text lists some weights, with a numeral for each of them. -/
def ListsWeights (columns : String) (weights : List Nat) : Prop :=
  (Text.fields ',' columns).map (Text.natural? Text.maxCount) =
    weights.map some

theorem map_eq_map_some_iff {α β : Type} {read : α → Option β}
    {items : List α} {values : List β} :
    items.map read = values.map some ↔
      (items.find? fun item => (read item).isNone) = none ∧
        items.filterMap read = values := by
  induction items generalizing values with
  | nil => cases values <;> simp
  | cons item rest ih =>
      cases hread : read item with
      | none => cases values <;> simp [hread]
      | some value => cases values <;> simp [hread, ih, and_left_comm]

theorem readColumns_eq_ok_iff {columns : String} {weights : List Nat} :
    readColumns columns = .ok weights ↔
      ListsWeights columns weights ∧ totalWeight weights ≠ 0 := by
  rw [ListsWeights, map_eq_map_some_iff, readColumns,
    mapM_eq_find? (Text.natural? Text.maxCount)
      (fun weight => .malformed weight columns)
      (fun weight value hread => by simp [hread])
      (fun weight hread => by simp [hread])]
  cases (Text.fields ',' columns).find? fun weight =>
      (Text.natural? Text.maxCount weight).isNone with
  | some weight => simp [bind, Except.bind]
  | none =>
      simp only [bind, Except.bind]
      split
      · rename_i hzero
        simp only [reduceCtorEq, true_and, false_iff, not_and, not_not]
        rintro rfl
        exact hzero
      · rename_i htotal
        simp only [Except.ok.injEq, true_and]
        exact ⟨fun heq => ⟨heq, heq ▸ htotal⟩, fun h => h.1⟩

/-! ## Reports on a table -/

/-- Whether a diagnostic says that the columns of a table do not read. -/
def Diagnostic.IsAboutColumns (diagnostic : Diagnostic) : Prop :=
  ∃ error : ColumnsError, diagnostic = ⟨.attributeFormat, error.message⟩

def Diagnostic.IsAboutWidth (diagnostic : Diagnostic) : Prop :=
  ∃ width : String, diagnostic =
    ⟨.attributeFormat, "Invalid table width '" ++ width ++ "'"⟩

theorem ColumnsError.message_ne_width (error : ColumnsError) (width : String) :
    error.message ≠ "Invalid table width '" ++ width ++ "'" := by
  intro heq
  -- the texts differ behind their first word
  have hplace := congrArg (fun message => message.toList[8]?) heq
  cases error with
  | malformed weight columns =>
      change ("Invalid column weight '" ++ weight ++ "' in '" ++ columns
        ++ "'").toList[8]? = _ at hplace
      simp only [String.toList_append, List.append_assoc] at hplace
      rw [List.getElem?_append_left (by decide),
        List.getElem?_append_left (by decide)] at hplace
      exact absurd hplace (by decide)
  | zeroTotal columns =>
      change ("Column weights '" ++ columns
        ++ "' add up to zero").toList[8]? = _ at hplace
      simp only [String.toList_append, List.append_assoc] at hplace
      rw [List.getElem?_append_left (by decide),
        List.getElem?_append_left (by decide)] at hplace
      exact absurd hplace (by decide)

theorem Diagnostic.IsAboutColumns.not_isAboutWidth {diagnostic : Diagnostic}
    (h : diagnostic.IsAboutColumns) : ¬diagnostic.IsAboutWidth := by
  obtain ⟨error, rfl⟩ := h
  rintro ⟨width, heq⟩
  exact error.message_ne_width width (congrArg Diagnostic.message heq)

section Reports

variable {store : DataStore} {own : OwnAttributes}

theorem mem_attributeProblems {key : String}
    {problem? : String → Option Problem} {problem : Problem} :
    problem ∈ attributeProblems own key problem? ↔
      ∃ value, own.lookup key = some value ∧ problem? value = some problem := by
  rw [attributeProblems, Option.mem_toList, Option.bind_eq_some_iff]

theorem mem_tableReports {report : Diagnostic} :
    report ∈ (Element.table.problems store own).map Problem.diagnostic ↔
      (∃ columns error, own.lookup "columns" = some columns ∧
        readColumns columns = .error error ∧
        report = ⟨.attributeFormat, error.message⟩) ∨
      ∃ width, own.lookup "width" = some width ∧ readWidth? width = none ∧
        report = ⟨.attributeFormat, "Invalid table width '" ++ width ++ "'"⟩ := by
  simp only [Element.problems, List.mem_map, List.mem_append,
    mem_attributeProblems, or_and_right, exists_or]
  refine or_congr ?_ ?_
  · constructor
    · rintro ⟨problem, ⟨columns, hlookup, hproblem⟩, rfl⟩
      rw [columnsProblem?_eq] at hproblem
      split at hproblem
      · cases hproblem
      · rename_i error herror
        cases hproblem
        exact ⟨columns, error, hlookup, herror, rfl⟩
    · rintro ⟨columns, error, hlookup, herror, rfl⟩
      exact ⟨.columns error, ⟨columns, hlookup, by
        rw [columnsProblem?_eq, herror]⟩, rfl⟩
  · constructor
    · rintro ⟨problem, ⟨width, hlookup, hproblem⟩, rfl⟩
      unfold widthProblem? at hproblem
      split at hproblem
      · cases hproblem
      · rename_i hwidth
        cases hproblem
        exact ⟨width, hlookup, Option.not_isSome_iff_eq_none.mp hwidth, rfl⟩
    · rintro ⟨width, hlookup, hwidth, rfl⟩
      exact ⟨.malformedWidth width, ⟨width, hlookup, by
        rw [widthProblem?, hwidth]; rfl⟩, rfl⟩

theorem ofKind_tableReports :
    Diagnostic.ofKind .attributeFormat
        ((Element.table.problems store own).map Problem.diagnostic) =
      (Element.table.problems store own).map Problem.diagnostic := by
  rw [Diagnostic.ofKind, List.filter_eq_self, List.forall_mem_map]
  intro problem hproblem
  exact beq_iff_eq.mpr (Element.kind_of_mem_problems hproblem)

theorem exists_report_columns :
    (∃ report ∈ (Element.table.problems store own).map Problem.diagnostic,
        report.IsAboutColumns) ↔
      ∃ columns error, own.lookup "columns" = some columns ∧
        readColumns columns = .error error := by
  constructor
  · rintro ⟨report, hreport, habout⟩
    rcases mem_tableReports.mp hreport with
      ⟨columns, error, hlookup, herror, -⟩ | ⟨width, -, -, hwidth⟩
    · exact ⟨columns, error, hlookup, herror⟩
    · exact absurd ⟨width, hwidth⟩ habout.not_isAboutWidth
  · rintro ⟨columns, error, hlookup, herror⟩
    exact ⟨_, mem_tableReports.mpr
      (.inl ⟨columns, error, hlookup, herror, rfl⟩), error, rfl⟩

theorem exists_report_width :
    (∃ report ∈ (Element.table.problems store own).map Problem.diagnostic,
        report.IsAboutWidth) ↔
      ∃ width, own.lookup "width" = some width ∧ readWidth? width = none := by
  constructor
  · rintro ⟨report, hreport, habout⟩
    rcases mem_tableReports.mp hreport with
      ⟨columns, error, -, -, hcolumns⟩ | ⟨width, hlookup, hwidth, -⟩
    · exact absurd habout
        (Diagnostic.IsAboutColumns.not_isAboutWidth ⟨error, hcolumns⟩)
    · exact ⟨width, hlookup, hwidth⟩
  · rintro ⟨width, hlookup, hwidth⟩
    exact ⟨_, mem_tableReports.mpr (.inr ⟨width, hlookup, hwidth, rfl⟩),
      width, rfl⟩

end Reports

/-! ## Layouts -/

namespace Table

variable {table : Table}

theorem weights?_eq_some_iff {weights : List Nat} :
    table.weights? = some weights ↔
      ∃ columns, table.attribute? "columns" = some columns ∧
        readColumns columns = .ok weights := by
  rw [weights?, Option.bind_eq_some_iff]
  refine exists_congr fun columns => and_congr_right fun _ => ?_
  cases readColumns columns <;> simp [Except.toOption]

theorem weights?_eq_none_iff :
    table.weights? = none ↔
      ∀ columns, table.attribute? "columns" = some columns →
        ∃ error, readColumns columns = .error error := by
  rw [weights?, Option.bind_eq_none_iff]
  refine forall_congr' fun columns => imp_congr_right fun _ => ?_
  cases readColumns columns <;> simp [Except.toOption]

theorem columnCount_of_weights?_eq_none (h : table.weights? = none) :
    table.columnCount = 1 := by
  rw [columnCount, h]
  rfl

theorem width_of_readWidth?_eq_none {width : String}
    (hwidth : table.attribute? "width" = some width)
    (h : readWidth? width = none) : table.width = fullWidth := by
  rw [Table.width, hwidth, Option.bind_some, h]
  rfl

end Table

namespace Session

variable {σ : Type} [Renderer σ] {session : Session σ}

/-- What is reported on a table as it opens says how it is laid out when it is
written.  Its columns are reported exactly if they are given and the written
table has no weights, so that it has a single column, and its width exactly if
it is given and does not read, so that the table has the full width.  What is
not reported is laid out as it is given.  Up to the end of the table nothing
else is reported on attributes. -/
theorem table_reports_fit_layout {name ending : String} {own : OwnAttributes}
    {during : List Event} {table : Table} (hunique : UniqueKeys own)
    (hname : Element.ofName name = .table)
    (hroot : Text.lower name ≠ session.root)
    (hopened : (session.feed (.start name own)).failure? = none)
    (hduring : ∀ other, .stop other ∈ during → Element.ofName other ≠ .table)
    (hwritten : .call (.table table) ∈
      (((session.feed (.start name own)).state.run during).reaction
        (.stop ending)).requests) :
    let opened := (session.feed (.start name own)).state
    let written := ((opened.run during).feed (.stop ending)).state
    ∃ reports,
      opened.diagnostics = session.diagnostics ++ reports ∧
      Diagnostic.ofKind .attributeFormat written.diagnostics =
        Diagnostic.ofKind .attributeFormat session.diagnostics ++ reports ∧
      ((∃ report ∈ reports, report.IsAboutColumns) ↔
        (∃ columns, ("columns", columns) ∈ own) ∧ table.weights? = none) ∧
      (table.weights? = none → table.columnCount = 1) ∧
      ((∃ report ∈ reports, report.IsAboutWidth) ↔
        ∃ width, ("width", width) ∈ own ∧ readWidth? width = none) ∧
      ((∃ report ∈ reports, report.IsAboutWidth) →
        table.width = Table.fullWidth) ∧
      ((¬∃ report ∈ reports, report.IsAboutColumns) →
        ∀ columns, ("columns", columns) ∈ own →
          ∃ weights, ListsWeights columns weights ∧
            table.weights? = some weights ∧
            table.columnCount = weights.length) ∧
      ((¬∃ report ∈ reports, report.IsAboutWidth) →
        ∀ width, ("width", width) ∈ own →
          readWidth? width = some table.width) := by
  intro opened written
  obtain ⟨hattributes, hdiagnostics⟩ := feed_table_ok hname hroot hopened
  have hkept : (opened.run during).KeepsTable (.ofList own) _ :=
    KeepsTable.run ⟨hattributes, rfl⟩ hduring
  obtain ⟨hsilent, htable⟩ := (opened.run during).reaction_stop ending
  have hown : table.attributes = .ofList own := by
    have hattributes := hkept.attributes_eq
    rw [Assembly.tableAttributes?, htable table hwritten] at hattributes
    exact Option.some.inj hattributes
  -- from here on the tag and the written table are looked up in the same way
  have hattribute := Table.attribute?_of_unique hunique hown
  simp only [← hunique.lookup_eq_some_iff, ← hattribute]
  refine ⟨_, hdiagnostics, ?_, ?_, Table.columnCount_of_weights?_eq_none,
    ?_, ?_, ?_, ?_⟩
  · have hreports := ofKind_feed
      (show DiagnosticKind.attributeFormat ≠ .renderer by decide) hsilent
    rw [hkept.reports_eq, hdiagnostics, Diagnostic.ofKind_append,
      ofKind_tableReports] at hreports
    exact hreports
  · rw [exists_report_columns, ← hattribute, Table.weights?_eq_none_iff]
    constructor
    · rintro ⟨columns, error, hcolumns, herror⟩
      refine ⟨⟨columns, hcolumns⟩, fun other hother => ?_⟩
      cases hcolumns.symm.trans hother
      exact ⟨error, herror⟩
    · rintro ⟨⟨columns, hcolumns⟩, hmalformed⟩
      obtain ⟨error, herror⟩ := hmalformed columns hcolumns
      exact ⟨columns, error, hcolumns, herror⟩
  · rw [exists_report_width, ← hattribute]
  · rw [exists_report_width, ← hattribute]
    rintro ⟨width, hwidth, hmalformed⟩
    exact Table.width_of_readWidth?_eq_none hwidth hmalformed
  · rw [exists_report_columns, ← hattribute]
    intro hsilent columns hcolumns
    cases hread : readColumns columns with
    | error error => exact absurd ⟨columns, error, hcolumns, hread⟩ hsilent
    | ok weights =>
        have hweights :=
          Table.weights?_eq_some_iff.mpr ⟨columns, hcolumns, hread⟩
        exact ⟨weights, (readColumns_eq_ok_iff.mp hread).1, hweights,
          Table.columnCount_eq hweights⟩
  · rw [exists_report_width, ← hattribute]
    intro hsilent width hwidth
    cases hread : readWidth? width with
    | none => exact absurd ⟨width, hwidth, hread⟩ hsilent
    | some value =>
        rw [Table.width, hwidth, Option.bind_some, hread]
        rfl

/-- A table in a paragraph that ends before the table does, with columns that
do not read and a width that does. -/
theorem table_reports_fit_layout_refused :
    let session := (begin "Doc" .empty ({} : Recorder)).run
      [.start "doc" [], .start "para" []]
    let own := [("columns", "2,x"), ("width", " 80% ")]
    let during : List Event :=
      [.start "cell" [("columns", "3")], .start "b" [], .text "a",
        .stop "cell", .start "table" [], .stop "para"]
    let table : Table :=
      ⟨.ofList own, [⟨"a", .ofList [("columns", "3")], false⟩]⟩
    let opened := (session.feed (.start "TABLE" own)).state
    UniqueKeys own ∧ Element.ofName "TABLE" = .table ∧
      Text.lower "TABLE" ≠ session.root ∧
      (session.feed (.start "TABLE" own)).failure? = none ∧
      (∀ other, .stop other ∈ during → Element.ofName other ≠ .table) ∧
      .call (.table table) ∈
        ((opened.run during).reaction (.stop "TABLE")).requests ∧
      ∃ reports,
        opened.diagnostics = session.diagnostics ++ reports ∧
        (∃ report ∈ reports, report.IsAboutColumns) ∧
        table.columnCount = 1 ∧
        (¬∃ report ∈ reports, report.IsAboutWidth) ∧
        readWidth? " 80% " = some table.width ∧
        table.width.text Decimal.single = "80" := by
  intro session own during table opened
  have hunique : UniqueKeys own := by
    unfold UniqueKeys
    decide
  have hname : Element.ofName "TABLE" = .table := by decide +kernel
  have hroot : Text.lower "TABLE" ≠ session.root := by decide +kernel
  have hopened : (session.feed (.start "TABLE" own)).failure? = none := by
    decide +kernel
  have hduring : ∀ other, .stop other ∈ during →
      Element.ofName other ≠ .table := by
    intro other hother
    have hnames : other = "cell" ∨ other = "para" := by
      simpa [during] using hother
    rcases hnames with rfl | rfl <;> decide +kernel
  have hwritten : .call (.table table) ∈
      ((opened.run during).reaction (.stop "TABLE")).requests := by
    decide +kernel
  obtain ⟨reports, hreports, -, hcolumns, hcount, hwidth, -, -, hgiven⟩ :=
    table_reports_fit_layout hunique hname hroot hopened hduring hwritten
  have hnone : table.weights? = none := by decide +kernel
  have hreads : ¬∃ report ∈ reports, report.IsAboutWidth := by
    rw [hwidth]
    rintro ⟨width, hmem, hmalformed⟩
    have hsame : width = " 80% " := by simpa [own] using hmem
    rw [hsame] at hmalformed
    revert hmalformed
    decide +kernel
  exact ⟨hunique, hname, hroot, hopened, hduring, hwritten, reports, hreports,
    hcolumns.mpr ⟨⟨"2,x", by decide⟩, hnone⟩, hcount hnone, hreads,
    hgiven hreads " 80% " (by decide), by decide +kernel⟩

end Session

end DocTemplate
