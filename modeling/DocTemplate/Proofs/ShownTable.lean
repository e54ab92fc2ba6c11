import DocTemplate.Proofs.Fragments
import DocTemplate.Proofs.TableRows

/-!
# What a page shows of a table

The reader of a page finds rows in the fragment of a table, cells in the rows,
and in each cell its width and its text.  There is a row for each group of as
many cells as there are columns, and in it a cell for each column that has at
least a hundredth of the total weight.  The width of a lighter column, in
whole percent, is nothing, and its cells are not shown, whether it has some
weight or none.
-/

namespace DocTemplate
namespace Html

/-! ## Elements among tokens -/

/-- An element as it is read: its attributes and what stands inside it. -/
structure Part where
  attributes : List (String × String)
  inner : List Token
deriving DecidableEq, Repr

/-- The elements of a name, none of which stands inside another. -/
def elements (name : String) : List Token → List Part
  | [] => []
  | .start other attributes :: rest =>
      if other = name then
        ⟨attributes, rest.takeWhile (· != .stop name)⟩ :: elements name rest
      else
        elements name rest
  | .stop _ :: rest | .character _ :: rest => elements name rest

/-- The name in a tag. -/
def Token.name? : Token → Option String
  | .start name _ | .stop name => some name
  | .character _ => none

/-- Whether no tag among some tokens has a name. -/
def Avoids (name : String) (tokens : List Token) : Prop :=
  ∀ token ∈ tokens, token.name? ≠ some name

section Elements

variable {name : String} {before inner rest : List Token}

theorem elements_append (hbefore : Avoids name before) :
    elements name (before ++ rest) = elements name rest := by
  induction before with
  | nil => rfl
  | cons token others ih =>
      obtain ⟨htoken, hothers⟩ := List.forall_mem_cons.mp hbefore
      rw [List.cons_append]
      cases token with
      | start other attributes =>
          have hother : ¬other = name := fun heq => htoken (congrArg some heq)
          rw [elements, if_neg hother, ih hothers]
      | stop other => exact ih hothers
      | character c => exact ih hothers

theorem takeWhile_inner (hinner : Avoids name inner) :
    (inner ++ .stop name :: rest).takeWhile (· != .stop name) = inner := by
  apply Text.takeWhile_run
  · intro token htoken
    rw [bne_iff_ne]
    rintro rfl
    exact hinner _ htoken rfl
  · rintro token ⟨⟩
    exact bne_self_eq_false _

/-- An element that has no other of its name inside. -/
theorem elements_cons (attributes : List (String × String))
    (hinner : Avoids name inner) :
    elements name (.start name attributes :: (inner ++ .stop name :: rest)) =
      ⟨attributes, inner⟩ :: elements name rest := by
  rw [elements, if_pos rfl, takeWhile_inner hinner, elements_append hinner]
  rfl

/-- The elements that are written for some items, one for each. -/
theorem elements_flatMap {α : Type} {items : List α} {written : α → List Token}
    {part : α → Part}
    (hwritten : ∀ item ∈ items, written item =
      .start name (part item).attributes ::
        ((part item).inner ++ [.stop name]))
    (hinner : ∀ item ∈ items, Avoids name (part item).inner)
    (rest : List Token) :
    elements name (items.flatMap written ++ rest) =
      items.map part ++ elements name rest := by
  induction items with
  | nil => rfl
  | cons item others ih =>
      rw [List.forall_mem_cons] at hwritten hinner
      rw [List.flatMap_cons, hwritten.1, List.append_assoc, List.cons_append,
        List.append_assoc, List.singleton_append, elements_cons _ hinner.1,
        ih hwritten.2 hinner.2]
      rfl

end Elements

theorem tokensAll_map {α : Type} (items : List α) (build : α → Node) :
    tokensAll (items.map build) =
      items.flatMap fun item => (build item).tokens := by
  rw [List.map_eq_flatMap, tokensAll_flatMap]
  simp only [tokensAll, List.append_nil]

theorem avoids_of_isPlain {name : String} {tokens : List Token}
    (hname : name ≠ "br") (h : ∀ token ∈ tokens, token.isPlain = true) :
    Avoids name tokens := by
  intro token htoken
  have hplain := h token htoken
  cases token with
  | start other attributes =>
      obtain rfl : other = "br" := of_decide_eq_true hplain
      exact fun heq => hname (Option.some.inj heq).symm
  | stop other => cases hplain
  | character c => exact nofun

/-! ## Rows and cells -/

/-- A cell as it is seen, with its width. -/
structure ShownCell where
  width? : Option String
  contents : String
deriving DecidableEq, Repr

def Part.cell (part : Part) : ShownCell :=
  ⟨part.attributes.lookup "width", visibleText part.inner⟩

/-- The rows of a table with their cells. -/
def shownRows (tokens : List Token) : List (List ShownCell) :=
  (elements "tr" tokens).map fun row =>
    (elements "td" row.inner).map Part.cell

def Node.attributes : Node → List (String × String)
  | .text _ => []
  | .element _ attributes _ => attributes

/-- What is read of a cell with a width. -/
def cellPart (pair : Chunk × Nat) : Part :=
  ⟨(cellNode pair.1 pair.2).attributes, tokensAll (textNodes pair.1.contents)⟩

theorem tokens_cellNode (pair : Chunk × Nat) :
    (cellNode pair.1 pair.2).tokens =
      .start "td" (cellPart pair).attributes ::
        ((cellPart pair).inner ++ [.stop "td"]) := rfl

theorem cell_cellPart (pair : Chunk × Nat) :
    (cellPart pair).cell = ⟨some s!"{pair.2}%", pair.1.contents⟩ := by
  have hvisible := (shows_textNodes pair.1.contents).visible
  have htext : visibleText (tokensAll (textNodes pair.1.contents)) =
      pair.1.contents := by
    rw [visibleText, hvisible, String.ofList_toList]
  simp only [Part.cell, cellPart, htext]
  rfl

/-- What stands inside a row. -/
def rowPart (percentages : List Nat) (row : List Chunk) : Part :=
  ⟨[], tokensAll (((row.zip percentages).filter fun pair => pair.2 != 0).map
    fun (cell, percent) => cellNode cell percent)⟩

theorem tokens_rowNode (percentages : List Nat) (row : List Chunk) :
    (rowNode percentages row).tokens =
      .start "tr" (rowPart percentages row).attributes ::
        ((rowPart percentages row).inner ++ [.stop "tr"]) := rfl

theorem avoids_rowPart (percentages : List Nat) (row : List Chunk) :
    Avoids "tr" (rowPart percentages row).inner := by
  intro token htoken
  rw [rowPart, tokensAll_map, List.mem_flatMap] at htoken
  obtain ⟨pair, -, hcell⟩ := htoken
  rw [tokens_cellNode, List.mem_cons, List.mem_append, List.mem_singleton]
    at hcell
  rcases hcell with rfl | htext | rfl
  · exact fun heq => absurd (Option.some.inj heq) (by decide)
  · exact avoids_of_isPlain (by decide) (isPlain_textNodes _) token htext
  · exact fun heq => absurd (Option.some.inj heq) (by decide)

theorem cells_rowPart (percentages : List Nat) (row : List Chunk) :
    (elements "td" (rowPart percentages row).inner).map Part.cell =
      ((row.zip percentages).filter fun pair => pair.2 != 0).map
        fun (cell, percent) => ⟨some s!"{percent}%", cell.contents⟩ := by
  have hcells := elements_flatMap
    (fun pair (_ : pair ∈ (row.zip percentages).filter
      fun pair => pair.2 != 0) => tokens_cellNode pair)
    (fun pair _ => avoids_of_isPlain (by decide)
      (isPlain_textNodes pair.1.contents)) []
  rw [List.append_nil] at hcells
  rw [rowPart, tokensAll_map, hcells, elements, List.append_nil, List.map_map]
  exact List.map_congr_left fun pair _ => cell_cellPart pair

/-- The rows that are seen are the rows of the table, without the cells whose
width is nothing. -/
theorem shownRows_tableNode (table : Table) :
    shownRows (tableNode table).tokens =
      table.rows.map fun row =>
        ((row.zip (table.percentages?.getD [100])).filter
          fun pair => pair.2 != 0).map
            fun (cell, percent) => ⟨some s!"{percent}%", cell.contents⟩ := by
  let percentages := table.percentages?.getD [100]
  have hrows := elements_flatMap
    (fun row (_ : row ∈ table.rows) => tokens_rowNode percentages row)
    (fun row _ => avoids_rowPart percentages row) [.stop "table"]
  have htokens : (tableNode table).tokens =
      .start "table" (tableNode table).attributes ::
        (tokensAll (table.rows.map (rowNode percentages)) ++
          [.stop "table"]) := rfl
  have htable : ¬("table" : String) = "tr" := by decide
  rw [shownRows, htokens, elements, if_neg htable, tokensAll_map, hrows,
    elements, elements, List.append_nil, List.map_map]
  exact List.map_congr_left fun row _ => cells_rowPart percentages row

end Html

/-! ## Cells by row and column -/

/-- Two lists side by side, without the pairs of a measure that is nothing. -/
theorem zip_filter_eq_filterMap {α β : Type} (percent : Nat → Nat)
    (shown : α × Nat → β) (cells : List α) (weights : List Nat) :
    (((cells.take weights.length).zip (weights.map percent)).filter
        fun pair => pair.2 != 0).map shown =
      (List.range weights.length).filterMap fun column =>
        (cells[column]?.bind fun cell => weights[column]?.bind fun weight =>
          if percent weight = 0 then none
          else some (shown (cell, percent weight))) := by
  induction weights generalizing cells with
  | nil => rw [List.map_nil, List.zip_nil_right]; rfl
  | cons weight others ih =>
      cases cells with
      | nil =>
          simp only [List.take_nil, List.zip_nil_left, List.filter_nil,
            List.map_nil, List.getElem?_nil, Option.bind_none]
          exact (List.filterMap_eq_nil_iff.mpr fun _ _ => rfl).symm
      | cons cell rest =>
          have hbehind := ih rest
          rw [List.length_cons, List.take_succ_cons, List.map_cons,
            List.zip_cons_cons, List.range_succ_eq_map, List.filterMap_cons,
            List.filterMap_map, List.filter_cons]
          by_cases hnothing : percent weight = 0
          · simp only [hnothing, bne_self_eq_false, Bool.false_eq_true,
              if_false, List.getElem?_cons_zero, Option.bind_some, if_true]
            exact hbehind
          · have hsome : (percent weight != 0) = true := bne_iff_ne.mpr hnothing
            simp only [hnothing, hsome, if_true, if_false, List.map_cons,
              List.getElem?_cons_zero, Option.bind_some]
            exact congrArg _ hbehind

namespace Table

/-- What is to be seen of the cell in a row and a column of a table with some
weights. -/
def shownCell? (table : Table) (weights : List Nat) (row column : Nat) :
    Option Html.ShownCell := do
  let cell ← table.cells[row * weights.length + column]?
  let weight ← weights[column]?
  let percent := percentOf (totalWeight weights) weight
  if percent = 0 then none else some ⟨some s!"{percent}%", cell.contents⟩

variable {table : Table}

theorem shownRows_weighted {weights : List Nat}
    (h : table.weights? = some weights) :
    Html.shownRows (Html.tableNode table).tokens =
      (List.range ((table.cells.length + weights.length - 1) /
        weights.length)).map fun row =>
          (List.range weights.length).filterMap
            (table.shownCell? weights row) := by
  rw [Html.shownRows_tableNode, rows, columnCount_eq h, percentages?_eq h,
    groups_eq_map_range (length_weights_pos h), List.map_map]
  refine List.map_congr_left fun row _ => ?_
  simp only [Function.comp_apply, Option.getD_some, zip_filter_eq_filterMap]
  congr 1
  funext column
  rw [List.getElem?_drop, shownCell?]
  cases table.cells[row * weights.length + column]? with
  | none => rfl
  | some cell =>
      cases weights[column]? with
      | none => rfl
      | some weight => rfl

/-- If everything fits, a column has its weight in whole percent of the sum of
all weights, and that is nothing for less than a hundredth. -/
theorem percentOf_of_fits {weights : List Nat}
    (h : table.weights? = some weights) (hfits : WeightsFit weights)
    {weight : Nat} (hweight : weight ∈ weights) :
    percentOf (totalWeight weights) weight = weight * 100 / weights.sum ∧
      (percentOf (totalWeight weights) weight = 0 ↔
        weight * 100 < weights.sum) := by
  have htotal := totalWeight_pos h
  rw [hfits.totalWeight_eq] at htotal
  rw [hfits.percentOf_eq hweight, Nat.div_eq_zero_iff]
  exact ⟨rfl, or_iff_right (Nat.ne_of_gt htotal)⟩

theorem shownRows_unweighted (h : table.weights? = none) :
    Html.shownRows (Html.tableNode table).tokens =
      table.cells.map fun cell => [⟨some "100%", cell.contents⟩] := by
  have hcount : table.columnCount = 1 := by rw [columnCount, h]; rfl
  have hpercent : table.percentages? = none := by rw [percentages?, h]; rfl
  rw [Html.shownRows_tableNode, rows, hcount, hpercent, groups_one,
    List.map_map]
  rfl

end Table

namespace HtmlRenderer

open Html

/-- A table on an open page shows its cells in rows of as many as there are
weights, and of each row the cells of those columns whose width in whole
percent is not zero.  If everything fits into words of 32 bits, these are the
columns that have at least a hundredth of the total weight.  Without usable
weights each cell has a row of its own. -/
theorem table_shows_columns (renderer : HtmlRenderer Buffer) (table : Table)
    (hopen : renderer.isOpen = true) :
    ∃ fragment tokens,
      Renderer.perform renderer (.table table) =
        ⟨{ renderer with
            sink := ⟨renderer.sink.text ++ ("  " ++ fragment ++ "\n")⟩ },
          none⟩ ∧
      tokens? fragment = some tokens ∧
      (∀ weights, table.weights? = some weights →
        shownRows tokens =
          (List.range ((table.cells.length + weights.length - 1) /
            weights.length)).map fun row =>
              (List.range weights.length).filterMap
                (table.shownCell? weights row)) ∧
      (∀ weights, table.weights? = some weights → WeightsFit weights →
        ∀ weight ∈ weights,
          percentOf (totalWeight weights) weight =
              weight * 100 / weights.sum ∧
            (percentOf (totalWeight weights) weight = 0 ↔
              weight * 100 < weights.sum)) ∧
      (table.weights? = none →
        shownRows tokens =
          table.cells.map fun cell => [⟨some "100%", cell.contents⟩]) := by
  have hcall : addsFragment (.table table) = true := rfl
  obtain ⟨fragment, htokens, hperform⟩ :=
    perform_fragment hopen hcall (shows_tableNode table).names.1 rfl
  exact ⟨fragment, (tableNode table).tokens, hperform, htokens,
    fun _ => Table.shownRows_weighted,
    fun _ hweights hfits _ => Table.percentOf_of_fits hweights hfits,
    Table.shownRows_unweighted⟩

/-- Three columns, of which the middle one has no weight, and a last row that
is short. -/
theorem table_shows_columns_short :
    let table : Table :=
      { attributes := .ofList [("columns", "1,0,3")]
        cells := ["a", "b", "c", "d"].map fun contents => { contents } }
    let renderer : HtmlRenderer Buffer := { isOpen := true, sink := {} }
    renderer.isOpen = true ∧ WeightsFit [1, 0, 3] ∧
      (∀ weight ∈ [1, 0, 3],
        percentOf (totalWeight [1, 0, 3]) weight = weight * 100 / 4) ∧
      ∃ fragment tokens,
        (Renderer.perform renderer (.table table)).state.sink.text =
          "  " ++ fragment ++ "\n" ∧
        tokens? fragment = some tokens ∧
        shownRows tokens =
          [[⟨some "25%", "a"⟩, ⟨some "75%", "c"⟩], [⟨some "25%", "d"⟩]] := by
  intro table renderer
  have hweights : table.weights? = some [1, 0, 3] := by decide +kernel
  have hfits : WeightsFit [1, 0, 3] := ⟨by decide, by decide⟩
  obtain ⟨fragment, tokens, hperform, htokens, hweighted, hpercent, -⟩ :=
    table_shows_columns renderer table rfl
  refine ⟨rfl, hfits,
    fun weight hweight => (hpercent _ hweights hfits weight hweight).1,
    fragment, tokens, ?_, htokens, ?_⟩
  · rw [hperform]
    exact String.empty_append
  · exact (hweighted _ hweights).trans (by decide +kernel)

/-- A column with some weight, but less than a hundredth of the total, is not
shown. -/
theorem not_table_shows_light_column :
    let table : Table :=
      { attributes := .ofList [("columns", "1,999")]
        cells := [{ contents := "a" }, { contents := "b" }] }
    let renderer : HtmlRenderer Buffer := { isOpen := true, sink := {} }
    table.weights? = some [1, 999] ∧ WeightsFit [1, 999] ∧
      ∃ fragment tokens,
        (Renderer.perform renderer (.table table)).state.sink.text =
          "  " ++ fragment ++ "\n" ∧
        tokens? fragment = some tokens ∧
        shownRows tokens = [[⟨some "99%", "b"⟩]] := by
  intro table renderer
  have hweights : table.weights? = some [1, 999] := by decide +kernel
  have hopen : renderer.isOpen = true := rfl
  have hcall : addsFragment (.table table) = true := rfl
  obtain ⟨fragment, htokens, hperform⟩ :=
    perform_fragment hopen hcall (shows_tableNode table).names.1 rfl
  refine ⟨hweights, ⟨by decide, by decide⟩, fragment,
    (tableNode table).tokens, ?_, htokens, ?_⟩
  · rw [hperform]
    exact String.empty_append
  · rw [Table.shownRows_weighted hweights]
    decide +kernel

end HtmlRenderer
end DocTemplate
