import DocTemplate.Proofs.Run

/-!
# The cells of a table

While a table is open all text waits in one place, be it inside a cell, between
two cells or left over from before the table.  What keeps the cells apart is
that the start of a cell drops whatever waits, the end of a cell takes all of
it, and the end of the table drops the rest.  So a table is written with its
cells in document order, each with its own text and its own attributes, and
nothing of the text around them gets in.
-/

namespace DocTemplate

open Markup Renderer

/-! ## The content of a table -/

/-- A cell that holds texts only. -/
structure CellElement where
  name : String
  lower_name : Text.lower name = "cell"
  own : OwnAttributes := []
  texts : List String := []

namespace CellElement

def events (element : CellElement) : List Event :=
  .start element.name element.own ::
    (element.texts.map .text ++ [.stop element.name])

/-- The cell as it is written. -/
def written (element : CellElement) : Chunk where
  contents := String.join (element.texts.map Text.collapse)
  attributes := .ofList element.own
  isPlaceholder := false

end CellElement

/-- What can stand in a table: texts, which are lost, and cells. -/
inductive TablePart
  | text (contents : String)
  | cell (element : CellElement)

namespace TablePart

def events : TablePart → List Event
  | text contents => [.text contents]
  | cell element => element.events

def written? : TablePart → Option Chunk
  | text _ => none
  | cell element => some element.written

end TablePart

/-- The calls that write a table, which is left out if it has no cells. -/
def Table.calls (table : Table) : List RenderCall :=
  if table.cells = [] then [] else [.table table]

theorem Element.ofName_table {name : String}
    (hname : Text.lower name = "table") : ofName name = .table := by
  rw [ofName, hname]
  rfl

theorem Element.ofName_cell {name : String}
    (hname : Text.lower name = "cell") : ofName name = .cell := by
  rw [ofName, hname]
  rfl

/-! ## Tables in the making -/

namespace Table

def withCell (table : Table) (cell : Chunk) : Table :=
  { table with cells := table.cells ++ [cell] }

theorem fillLast_append (contents : String) (cells : List Chunk)
    (cell : Chunk) :
    fillLast contents (cells ++ [cell]) =
      cells ++ [{ cell with contents }] := by
  induction cells with
  | nil => rfl
  | cons first rest ih =>
      cases rest with
      | nil => rfl
      | cons second others => exact congrArg (first :: ·) ih

/-- The text goes to the cell that was opened last. -/
theorem closeCell_openCell (table : Table) (own : OwnAttributes)
    (contents : String) :
    (table.openCell own).closeCell contents =
      table.withCell ⟨contents, .ofList own, false⟩ := by
  simp only [openCell, closeCell, fillLast_append, withCell]

theorem calls_finished? (table : Table) :
    Request.calls ((table.finished?.map fun finished =>
      Request.call (.table finished)).toList) = table.calls := by
  obtain ⟨attributes, cells⟩ := table
  cases cells <;> rfl

end Table

/-! ## Sessions with an open table -/

namespace Session

variable {σ : Type}

theorem lower_ne_root {session : Session σ} {name word : String}
    (hname : Text.lower name = word) (hroot : session.root ≠ word) :
    Text.lower name ≠ session.root :=
  fun hsame => hroot (hsame.symm.trans hname)

/-- The session with a table in the making and a text that waits. -/
def withTable (session : Session σ) (pending : String) (table : Table) :
    Session σ :=
  { session with
    assembly := ⟨{ session.assembly.composer with pending }, some table⟩ }

variable [Renderer σ] {session : Session σ}

theorem feedAll_texts_inTable (hstate : session.state = .opened)
    (pending : String) (table : Table) (texts : List String) :
    (session.withTable pending table).feedAll (texts.map .text) =
      ⟨session.withTable
        (pending ++ String.join (texts.map Text.collapse)) table, none⟩ := by
  induction texts generalizing pending with
  | nil => simp
  | cons text rest ih =>
      have hfeed : (session.withTable pending table).feed (.text text) =
          ⟨session.withTable (pending ++ Text.collapse text) table, none⟩ := by
        simp only [feed, addText, withTable, hstate]
        rfl
      rw [List.map_cons, feedAll_cons, hfeed, Outcome.andThen_ok, ih]
      simp [String.append_assoc]

variable [AcceptingRenderer σ]

theorem feed_start_cell (hstate : session.state = .opened)
    (hopen : isOpen session.renderer = true) {name : String}
    (hname : Text.lower name = "cell") (hroot : session.root ≠ "cell")
    (own : OwnAttributes) (pending : String) (table : Table) :
    (session.withTable pending table).feed (.start name own) =
      ⟨session.withTable "" (table.openCell own), none⟩ := by
  have hstart : (session.withTable pending table).assembly.start session.store
      (.ofName name) own =
        ((session.withTable "" (table.openCell own)).assembly, .ok []) := by
    rw [Element.ofName_cell hname]
    rfl
  have hstate' : (session.withTable pending table).state = .opened := hstate
  have hfeed := start_opened hstate' hopen (lower_ne_root hname hroot) hstart
  rwa [meet_nil] at hfeed

theorem feed_stop_cell (hstate : session.state = .opened)
    (hopen : isOpen session.renderer = true) {name : String}
    (hname : Text.lower name = "cell") (hroot : session.root ≠ "cell")
    (pending : String) (table : Table) :
    (session.withTable pending table).feed (.stop name) =
      ⟨session.withTable "" (table.closeCell pending), none⟩ := by
  have hstop : (session.withTable pending table).assembly.stop
      (.ofName name) =
        ((session.withTable "" (table.closeCell pending)).assembly, []) := by
    rw [Element.ofName_cell hname]
    rfl
  have hstate' : (session.withTable pending table).state = .opened := hstate
  have hfeed := stop_opened hstate' hopen (lower_ne_root hname hroot) hstop
  rwa [meet_nil] at hfeed

/-- A cell is added to the table with its own text, whatever waits before
it, and leaves nothing that waits. -/
theorem feedAll_cell (hstate : session.state = .opened)
    (hopen : isOpen session.renderer = true) (hroot : session.root ≠ "cell")
    (pending : String) (table : Table) (element : CellElement) :
    (session.withTable pending table).feedAll element.events =
      ⟨session.withTable "" (table.withCell element.written), none⟩ := by
  have hstart := feed_start_cell hstate hopen element.lower_name hroot
    element.own pending table
  have htexts := feedAll_texts_inTable hstate "" (table.openCell element.own)
    element.texts
  have hstop := feed_stop_cell hstate hopen element.lower_name hroot
    (String.join (element.texts.map Text.collapse))
    (table.openCell element.own)
  rw [String.empty_append] at htexts
  rw [Table.closeCell_openCell] at hstop
  rw [CellElement.events, feedAll_cons, hstart, Outcome.andThen_ok,
    feedAll_append, htexts, Outcome.andThen_ok, feedAll_cons, hstop]
  rfl

theorem feedAll_parts (hstate : session.state = .opened)
    (hopen : isOpen session.renderer = true) (hroot : session.root ≠ "cell")
    (pending : String) (table : Table) (parts : List TablePart) :
    ∃ waiting,
      (session.withTable pending table).feedAll
          (parts.flatMap TablePart.events) =
        ⟨session.withTable waiting
          { table with
            cells := table.cells ++ parts.filterMap TablePart.written? },
          none⟩ := by
  -- What waits is of no account: the next cell drops it.
  induction parts generalizing pending table with
  | nil => exact ⟨pending, by simp⟩
  | cons part rest ih =>
      rw [List.flatMap_cons, feedAll_append]
      cases part with
      | text contents =>
          have htext := feedAll_texts_inTable hstate pending table [contents]
          obtain ⟨waiting, hrest⟩ :=
            ih (pending ++ String.join [Text.collapse contents]) table
          refine ⟨waiting, ?_⟩
          rw [TablePart.events]
          exact (congrArg (Outcome.andThen · _) htext).trans hrest
      | cell element =>
          have hcell := feedAll_cell hstate hopen hroot pending table element
          obtain ⟨waiting, hrest⟩ := ih "" (table.withCell element.written)
          refine ⟨waiting, ?_⟩
          rw [TablePart.events, hcell, Outcome.andThen_ok, hrest]
          simp [Table.withCell, TablePart.written?]

/-! ## Whole tables -/

theorem feed_start_table (hstate : session.state = .opened)
    (hopen : isOpen session.renderer = true)
    (htable : session.assembly.table = none) {name : String}
    (hname : Text.lower name = "table") (hroot : session.root ≠ "table")
    (own : OwnAttributes) :
    session.feed (.start name own) =
      ⟨{ session with
          assembly :=
            ⟨session.assembly.composer.restart,
              some { attributes := .ofList own }⟩
          diagnostics := session.diagnostics ++
            (Request.problems (tableReports own)).map Problem.diagnostic },
        none⟩ := by
  have hstart : session.assembly.start session.store (.ofName name) own =
      (⟨session.assembly.composer.restart,
        some { attributes := .ofList own }⟩, .ok (tableReports own)) := by
    rw [Element.ofName_table hname, Assembly.start, htable]
    rfl
  have hfeed := start_opened hstate hopen (lower_ne_root hname hroot) hstart
  rw [feed, hfeed, meet, calls_tableReports, performAll_nil]

theorem feed_stop_table (hstate : session.state = .opened)
    (hopen : isOpen session.renderer = true) {name : String}
    (hname : Text.lower name = "table") (hroot : session.root ≠ "table")
    (pending : String) (table : Table) :
    (session.withTable pending table).feed (.stop name) =
      ⟨{ session with
          assembly := ⟨session.assembly.composer.clearPending, none⟩
          renderer := performAll session.renderer table.calls }, none⟩ := by
  have hstop : (session.withTable pending table).assembly.stop
      (.ofName name) =
        (⟨session.assembly.composer.clearPending, none⟩,
          (table.finished?.map fun finished =>
            Request.call (.table finished)).toList) := by
    rw [Element.ofName_table hname]
    rfl
  have hstate' : (session.withTable pending table).state = .opened := hstate
  have hfeed := stop_opened hstate' hopen (lower_ne_root hname hroot) hstop
  have hproblems := Request.problems_toList_call table.finished? .table
  rw [feed, hfeed, meet, Table.calls_finished?, hproblems, List.map_nil,
    List.append_nil]
  rfl

/-- A table of texts and cells is written with all its cells and nothing else.
What waits before it, what was collected for a block, and the texts beside its
cells are lost, and the entries of the open elements stay as they are. -/
theorem feedAll_table_cells (hreachable : session.Reachable)
    (hstate : session.state = .opened)
    (htable : session.assembly.table = none)
    (hroot : session.root ≠ "table") (hcell : session.root ≠ "cell")
    {name : String} (hname : Text.lower name = "table")
    (own : OwnAttributes) (parts : List TablePart) :
    let written : Table :=
      ⟨.ofList own, parts.filterMap TablePart.written?⟩
    session.feedAll
        (.start name own ::
          (parts.flatMap TablePart.events ++ [.stop name])) =
      ⟨{ session with
          assembly := ⟨{ entries := session.assembly.composer.entries }, none⟩
          diagnostics := session.diagnostics ++
            (Request.problems (tableReports own)).map Problem.diagnostic
          renderer := performAll session.renderer written.calls }, none⟩ := by
  intro written
  have hopen : isOpen session.renderer = true :=
    hreachable.inStep.mp hstate
  have hstart := feed_start_table hstate hopen htable hname hroot own
  let started : Session σ :=
    { session with
      assembly := ⟨session.assembly.composer.restart, none⟩
      diagnostics := session.diagnostics ++
        (Request.problems (tableReports own)).map Problem.diagnostic }
  have hstarted : started.state = .opened := hstate
  obtain ⟨waiting, hparts⟩ := feedAll_parts hstarted hopen
    hcell session.assembly.composer.pending { attributes := .ofList own } parts
  have hstop := feed_stop_table hstarted hopen hname hroot
    waiting written
  rw [feedAll_cons, hstart, Outcome.andThen_ok, feedAll_append]
  calc Outcome.andThen
        ((started.withTable session.assembly.composer.pending
          { attributes := .ofList own }).feedAll
            (parts.flatMap TablePart.events))
        (fun next => next.feedAll [.stop name])
      = (started.withTable waiting written).feedAll [.stop name] := by
        rw [hparts]
        rfl
    _ = _ := by
        rw [feedAll_cons, hstop]
        rfl

/-- A table inside a paragraph, with texts around and between its cells. -/
theorem feedAll_table_cells_between :
    let session := (begin "Doc" .empty ({} : Recorder)).run
      [.start "doc" [], .start "para" [("align", "left")], .text "before"]
    let own := [("columns", "1"), ("columns", "1,1")]
    let first : CellElement :=
      { name := "CELL", lower_name := by decide +kernel
        own := [("align", "right")], texts := ["a\n  ", "b"] }
    let second : CellElement :=
      { name := "cell", lower_name := by decide +kernel }
    let parts : List TablePart :=
      [.text "left", .cell first, .text "between", .cell second, .text "right"]
    let written : Table :=
      ⟨.ofList own, parts.filterMap TablePart.written?⟩
    session.Reachable ∧ session.state = .opened ∧
      session.assembly.table = none ∧ session.root ≠ "table" ∧
      session.root ≠ "cell" ∧ Text.lower "Table" = "table" ∧
      written =
        ⟨.ofList [("columns", "1,1")],
          [⟨"ab", .ofList [("align", "right")], false⟩,
            ⟨"", .empty, false⟩]⟩ ∧
      session.feedAll
          (.start "Table" own ::
            (parts.flatMap TablePart.events ++ [.stop "Table"])) =
        ⟨{ session with
            assembly :=
              ⟨{ entries := session.assembly.composer.entries }, none⟩
            diagnostics := session.diagnostics ++
              (Request.problems (tableReports own)).map Problem.diagnostic
            renderer := performAll session.renderer [.table written] },
          none⟩ := by
  intro session own first second parts written
  have hreachable : session.Reachable :=
    ⟨"Doc", .empty, {}, _, rfl, rfl⟩
  have hstate : session.state = .opened := by decide +kernel
  have htable : session.assembly.table = none := by decide +kernel
  have hroot : session.root ≠ "table" := by decide +kernel
  have hcell : session.root ≠ "cell" := by decide +kernel
  have hname : Text.lower "Table" = "table" := by decide +kernel
  exact ⟨hreachable, hstate, htable, hroot, hcell, hname, by decide +kernel,
    feedAll_table_cells hreachable hstate htable hroot hcell hname own parts⟩

end Session
end DocTemplate
