import DocTemplate.Html.Renderer
import DocTemplate.Proofs.PageHead

/-!
# What a page shows

Each call adds one fragment to an open page, on a line of its own.  Read back,
the fragment is the tree that the call builds: contents, ids and styles come
out as they went in, and nothing in them is taken for markup.  So what a reader
sees of a block is its text, with a field in the place of each placeholder
where fields are asked for.
-/

namespace DocTemplate
namespace Html

/-! ## What is seen of some tokens -/

/-- What a token shows.  A line break is a line feed. -/
def Token.visible : Token → List Char
  | .start name _ => if name = "br" then ['\n'] else []
  | .stop _ => []
  | .character c => [c]

def visibleText (tokens : List Token) : String :=
  String.ofList (tokens.flatMap Token.visible)

def Token.field? : Token → Option (List (String × String))
  | .start name attributes => if name = "input" then some attributes else none
  | .stop _ | .character _ => none

/-- The attributes of the fields, in their order. -/
def fields (tokens : List Token) : List (List (String × String)) :=
  tokens.filterMap Token.field?

/-- What is seen of a chunk, apart from fields. -/
def shownText (mode : PlaceholderMode) (chunk : Chunk) : String :=
  match chunk.isPlaceholder, mode with
  | true, .input => ""
  | true, .combo => "requiredoptional"
  | _, _ => chunk.contents

/-- The attributes of the field of a placeholder, which holds its contents. -/
def fieldAttributes (mode : PlaceholderMode) (chunk : Chunk) :
    List (String × String) :=
  let id := (chunk.attribute? "id").getD ""
  [("type", "text"), ("id", id), ("name", id),
    ("size", (chunk.attribute? "minlen").getD "10"),
    ("value", chunk.contents)] ++
    if mode = .combo then [("readonly", "readonly")] else []

def blockFields (mode : PlaceholderMode) (chunks : List Chunk) :
    List (List (String × String)) :=
  if mode = .text then
    []
  else
    (chunks.filter Chunk.isPlaceholder).map (fieldAttributes mode)

/-- The cells of a row that are shown. -/
def rowCells (percentages : List Nat) (row : List Chunk) : List Chunk :=
  ((row.zip percentages).filter fun pair => pair.2 != 0).map Prod.fst

def shownCells (table : Table) : List Chunk :=
  table.rows.flatMap (rowCells (table.percentages?.getD [100]))

/-- The tree that a call builds. -/
def shownNode? (mode : PlaceholderMode) : RenderCall → Option Node
  | .newPage => some (.element .hr [("class", "pagebreak")] [])
  | .horizontalRule drawn => some (ruleNode drawn)
  | .image shown => some (.element .img [("src", shown.source)] [])
  | .block written => (blockNode mode written).toOption
  | .table written => some (tableNode written)
  | .openDocument | .closeDocument | .setPageSize _ | .setPageMargins _ =>
      none

/-! ## What trees show -/

/-- Trees whose attributes have names, by what is seen of them and by their
fields. -/
structure Shows (nodes : List Node) (seen : List Char)
    (inputs : List (List (String × String))) : Prop where
  names : AllHaveNames nodes
  visible : (tokensAll nodes).flatMap Token.visible = seen
  fields_eq : fields (tokensAll nodes) = inputs

theorem tokensAll_append (first second : List Node) :
    tokensAll (first ++ second) = tokensAll first ++ tokensAll second := by
  induction first with
  | nil => rfl
  | cons node rest ih =>
      rw [List.cons_append, tokensAll, tokensAll, ih, List.append_assoc]

theorem tokensAll_flatMap {α : Type} (items : List α) (build : α → List Node) :
    tokensAll (items.flatMap build) =
      items.flatMap fun item => tokensAll (build item) := by
  induction items with
  | nil => rfl
  | cons item rest ih =>
      rw [List.flatMap_cons, tokensAll_append, ih, List.flatMap_cons]

theorem allHaveNames_append {first second : List Node}
    (hfirst : AllHaveNames first) (hsecond : AllHaveNames second) :
    AllHaveNames (first ++ second) := by
  induction first with
  | nil => exact hsecond
  | cons node rest ih => exact ⟨hfirst.1, ih hfirst.2⟩

namespace Shows

variable {nodes others : List Node} {seen more : List Char}
  {inputs further : List (List (String × String))}

theorem nil : Shows [] [] [] := ⟨trivial, rfl, rfl⟩

theorem append (hfirst : Shows nodes seen inputs)
    (hsecond : Shows others more further) :
    Shows (nodes ++ others) (seen ++ more) (inputs ++ further) where
  names := allHaveNames_append hfirst.names hsecond.names
  visible := by
    rw [tokensAll_append, List.flatMap_append, hfirst.visible,
      hsecond.visible]
  fields_eq := by
    rw [tokensAll_append, fields, List.filterMap_append, ← fields, ← fields,
      hfirst.fields_eq, hsecond.fields_eq]

theorem flatMap {α : Type} {items : List α} {build : α → List Node}
    {shown : α → List Char} {made : α → List (List (String × String))}
    (hitem : ∀ item ∈ items, Shows (build item) (shown item) (made item)) :
    Shows (items.flatMap build) (items.flatMap shown)
      (items.flatMap made) := by
  induction items with
  | nil => exact nil
  | cons item rest ih =>
      rw [List.forall_mem_cons] at hitem
      exact hitem.1.append (ih hitem.2)

theorem flatMap_noFields {α : Type} {items : List α} {build : α → List Node}
    {shown : α → List Char}
    (hitem : ∀ item ∈ items, Shows (build item) (shown item) []) :
    Shows (items.flatMap build) (items.flatMap shown) [] := by
  have hall := flatMap hitem
  rwa [List.flatMap_eq_nil_iff.mpr fun _ _ => rfl] at hall

theorem map {α : Type} {items : List α} {build : α → Node}
    {shown : α → List Char}
    (hitem : ∀ item ∈ items, Shows [build item] (shown item) []) :
    Shows (items.map build) (items.flatMap shown) [] := by
  rw [List.map_eq_flatMap]
  exact flatMap_noFields hitem

theorem text (contents : String) :
    Shows [.text contents] contents.toList [] := by
  refine ⟨⟨trivial, trivial⟩, ?_, ?_⟩
  · simp [tokensAll, Node.tokens, List.flatMap_map, Token.visible]
  · simp [tokensAll, Node.tokens, fields, Token.field?]

theorem lineBreak : Shows [.element .br [] []] ['\n'] [] :=
  ⟨⟨⟨nofun, trivial⟩, trivial⟩, rfl, rfl⟩

theorem element (h : Shows nodes seen inputs) {tag : Tag}
    (hvoid : tag.isVoid = false) {attributes : List (String × String)}
    (hnames : ∀ pair ∈ attributes, IsName pair.1.toList) :
    Shows [.element tag attributes nodes] seen inputs := by
  have hbreak : tag.name ≠ "br" := by
    cases tag <;> first | decide | cases hvoid
  have hinput : tag.name ≠ "input" := by
    cases tag <;> first | decide | cases hvoid
  have htokens : tokensAll [.element tag attributes nodes] =
      .start tag.name attributes ::
        (tokensAll nodes ++ [.stop tag.name]) := by
    simp [tokensAll, Node.tokens, hvoid]
  refine ⟨⟨⟨hnames, h.names⟩, trivial⟩, ?_, ?_⟩
  · simp [htokens, Token.visible, hbreak, h.visible]
  · rw [htokens, ← h.fields_eq]
    simp [fields, Token.field?, hinput]

end Shows

/-! ## Texts -/

/-- The pieces of a text with the separators between them are the text. -/
theorem pieces_joined {separator : Char} {source first : List Char}
    {others : List (List Char)}
    (h : Text.pieces separator source = first :: others) :
    first ++ others.flatMap (separator :: ·) = source := by
  induction source generalizing first others with
  | nil =>
      cases h
      rfl
  | cons c rest ih =>
      cases hrest : Text.pieces separator rest with
      | nil => exact absurd hrest (Text.pieces_ne_nil separator rest)
      | cons piece more =>
          have hjoined := ih hrest
          rw [Text.pieces, hrest] at h
          split at h <;> cases h
          · rename_i hseparator
            rw [List.flatMap_cons, List.nil_append, List.cons_append, hjoined,
              hseparator]
          · rw [List.cons_append, hjoined]

theorem shows_lineNodes (line : List Char) :
    Shows (lineNodes (String.ofList line)) line [] := by
  unfold lineNodes
  split
  · rename_i hempty
    simp only [String.isEmpty_iff, String.ofList_eq_empty_iff] at hempty
    subst hempty
    exact .nil
  · simpa using Shows.text (String.ofList line)

/-- A text is shown as it is, with its line feeds. -/
theorem shows_textNodes (text : String) :
    Shows (textNodes text) text.toList [] := by
  unfold textNodes Text.lines
  cases hpieces : Text.pieces '\n' text.toList with
  | nil => exact absurd hpieces (Text.pieces_ne_nil '\n' text.toList)
  | cons first others =>
      -- A line break stands in front of each line but the first.
      have hothers : Shows
          (others.flatMap fun line =>
            .element .br [] [] :: lineNodes (String.ofList line))
          (others.flatMap ('\n' :: ·)) [] :=
        .flatMap_noFields fun line _ =>
          Shows.lineBreak.append (shows_lineNodes line)
      have hall := (shows_lineNodes first).append hothers
      rw [pieces_joined hpieces] at hall
      simpa [List.flatMap_map] using hall

/-- Whether a token can stand in a text, where line breaks are the only tags. -/
def Token.isPlain : Token → Bool
  | .start name _ => name = "br"
  | .stop _ => false
  | .character _ => true

theorem isPlain_lineNodes (line : String) :
    ∀ token ∈ tokensAll (lineNodes line), token.isPlain = true := by
  unfold lineNodes
  split
  · exact nofun
  · intro token htoken
    rw [tokensAll, tokensAll, List.append_nil, Node.tokens] at htoken
    obtain ⟨c, -, rfl⟩ := List.mem_map.mp htoken
    rfl

theorem isPlain_textNodes (text : String) :
    ∀ token ∈ tokensAll (textNodes text), token.isPlain = true := by
  unfold textNodes
  cases Text.lines text with
  | nil => exact nofun
  | cons first others =>
      intro token htoken
      rw [tokensAll_append, tokensAll_flatMap, List.mem_append,
        List.mem_flatMap] at htoken
      rcases htoken with hfirst | ⟨line, -, hline⟩
      · exact isPlain_lineNodes first token hfirst
      · rcases List.mem_cons.mp hline with rfl | hinner
        · rfl
        · exact isPlain_lineNodes line token hinner

theorem isName_styleAttribute (style : String) :
    ∀ pair ∈ styleAttribute style, IsName pair.1.toList := by
  unfold styleAttribute
  split
  · exact nofun
  · rw [List.forall_mem_singleton]
    exact (by decide : IsName "style".toList)

/-! ## Blocks -/

theorem shows_fieldNode (readOnly : Bool) (chunk : Chunk) :
    Shows [fieldNode readOnly chunk] []
      [fieldAttributes (if readOnly then .combo else .input) chunk] := by
  have hnames : ∀ pair ∈ fieldAttributes
      (if readOnly then .combo else .input) chunk,
      IsName pair.1.toList := by
    cases readOnly <;> simp [fieldAttributes] <;> decide
  cases readOnly <;> exact ⟨⟨⟨hnames, trivial⟩, trivial⟩, rfl, rfl⟩

theorem shows_choiceNode (chunk : Chunk) :
    Shows [choiceNode chunk] "requiredoptional".toList [] := by
  have hchoice (choice : String) :
      Shows [.element .option [("value", choice)] [.text choice]]
        choice.toList [] := by
    refine (Shows.text choice).element rfl ?_
    rw [List.forall_mem_singleton]
    exact (by decide : IsName "value".toList)
  have hboth := (hchoice "required").append (hchoice "optional")
  refine hboth.element rfl ?_
  simp only [List.forall_mem_cons]
  exact ⟨by decide, by decide, nofun⟩

theorem shows_plain (first : Bool) (chunk : Chunk) :
    Shows
      (if first then
        textNodes chunk.contents
      else
        [.element .span (styleAttribute (fontStyle chunk))
          (textNodes chunk.contents)])
      chunk.contents.toList [] := by
  have htext := shows_textNodes chunk.contents
  split
  · exact htext
  · exact htext.element rfl (isName_styleAttribute _)

/-- A chunk shows its text, or a field if it is a placeholder. -/
theorem shows_chunkNodes (mode : PlaceholderMode) (first : Bool)
    (chunk : Chunk) :
    Shows (chunkNodes mode first chunk) (shownText mode chunk).toList
      (blockFields mode [chunk]) := by
  have hplain := shows_plain first chunk
  have hchoice := shows_choiceNode chunk
  have hfixed := shows_fieldNode true chunk
  have hfield := shows_fieldNode false chunk
  unfold chunkNodes shownText blockFields
  cases hplaceholder : chunk.isPlaceholder <;> cases mode
  case true.input => simpa [hplaceholder] using hfield
  case true.combo => simpa [hplaceholder] using hfixed.append hchoice
  all_goals simpa [hplaceholder] using hplain

theorem blockFields_cons (mode : PlaceholderMode) (first : Chunk)
    (others : List Chunk) :
    blockFields mode (first :: others) =
      blockFields mode [first] ++ blockFields mode others := by
  unfold blockFields
  split
  · rfl
  · cases hplaceholder : first.isPlaceholder <;> simp [hplaceholder]

theorem shows_bodyNodes (mode : PlaceholderMode) (chunks : List Chunk) :
    Shows (bodyNodes mode chunks)
      (chunks.flatMap fun chunk => (shownText mode chunk).toList)
      (blockFields mode chunks) := by
  have hfields (chunks : List Chunk) :
      blockFields mode chunks =
        chunks.flatMap fun chunk => blockFields mode [chunk] := by
    induction chunks with
    | nil => cases mode <;> rfl
    | cons first rest ih => rw [blockFields_cons, ih, List.flatMap_cons]
  rw [hfields]
  cases chunks with
  | nil => exact .nil
  | cons first others =>
      exact (shows_chunkNodes mode true first).append
        (.flatMap fun chunk _ => shows_chunkNodes mode false chunk)

theorem shows_blockNode {mode : PlaceholderMode} {block : Block} {node : Node}
    (h : blockNode mode block = .ok node) :
    Shows [node] (block.chunks.flatMap fun chunk =>
      (shownText mode chunk).toList) (blockFields mode block.chunks) := by
  have hbody := shows_bodyNodes mode block.chunks
  have hnames : ∀ pair ∈ ("class", block.kind.name) ::
      styleAttribute (headStyle block.chunks), IsName pair.1.toList := by
    rw [List.forall_mem_cons]
    exact ⟨(by decide : IsName "class".toList), isName_styleAttribute _⟩
  unfold blockNode at h
  cases hkind : block.kind with
  | pageBreak =>
      rw [hkind] at h
      cases h
  | title | chapter | sectionHeading | paragraph =>
      rw [hkind] at h hnames
      cases h
      exact hbody.element rfl hnames

/-! ## Tables -/

theorem shows_cellNode (cell : Chunk) (percent : Nat) :
    Shows [cellNode cell percent] cell.contents.toList [] := by
  refine (shows_textNodes cell.contents).element rfl ?_
  cases cell.attribute? "colspan" <;> cases cell.attribute? "align" <;>
    simp <;> decide

theorem shows_rowNode (percentages : List Nat) (row : List Chunk) :
    Shows [rowNode percentages row]
      ((rowCells percentages row).flatMap fun cell => cell.contents.toList)
      [] := by
  have hcells := Shows.map fun (pair : Chunk × Nat)
    (_ : pair ∈ (row.zip percentages).filter fun pair => pair.2 != 0) =>
      shows_cellNode pair.1 pair.2
  have hnames : ∀ pair ∈ ([] : List (String × String)),
      IsName pair.1.toList := by simp
  rw [rowCells, List.flatMap_map]
  exact hcells.element rfl hnames

theorem shows_tableNode (table : Table) :
    Shows [tableNode table]
      ((shownCells table).flatMap fun cell => cell.contents.toList) [] := by
  have hrows := Shows.map fun row (_ : row ∈ table.rows) =>
    shows_rowNode (table.percentages?.getD [100]) row
  rw [shownCells, List.flatMap_assoc]
  refine hrows.element rfl ?_
  simp only [List.forall_mem_cons]
  exact ⟨by decide, by decide, nofun⟩

/-! ## Calls -/

/-- Whether a call adds a fragment to the page. -/
def addsFragment : RenderCall → Bool
  | .newPage | .horizontalRule _ | .image _ | .block _ | .table _ => true
  | .openDocument | .closeDocument | .setPageSize _ | .setPageMargins _ =>
      false

theorem lineOf_eq (node : Node) :
    lineOf node = "  " ++ String.ofList node.write ++ "\n" := by
  apply String.toList_injective
  simp [lineOf]

/-- A call that adds a fragment writes its tree on a line. -/
theorem bodyText_fragment {options : PageOptions} {call : RenderCall}
    (hcall : addsFragment call = true) {text : String}
    (h : bodyText options call = .ok text) :
    ∃ node, shownNode? options.placeholders call = some node ∧
      text = lineOf node := by
  cases call with
  | openDocument | closeDocument | setPageSize | setPageMargins => cases hcall
  | newPage | horizontalRule | table =>
      simp only [bodyText, Except.ok.injEq] at h
      exact ⟨_, rfl, h.symm⟩
  | image shown =>
      simp only [bodyText] at h
      split at h
      · cases h
      · rw [Except.ok.injEq] at h
        exact ⟨_, rfl, h.symm⟩
  | block written =>
      simp only [bodyText] at h
      cases hnode : blockNode options.placeholders written with
      | error error =>
          rw [hnode] at h
          cases h
      | ok node =>
          simp only [hnode, Except.map, Except.ok.injEq] at h
          exact ⟨node, by simp [shownNode?, hnode, Except.toOption], h.symm⟩

theorem blockNode_of_shownNode {mode : PlaceholderMode} {block : Block}
    {node : Node} (h : shownNode? mode (.block block) = some node) :
    blockNode mode block = .ok node := by
  simp only [shownNode?] at h
  cases hnode : blockNode mode block <;> rw [hnode] at h <;> cases h
  rfl

theorem hasNames_single (tag : Tag) {key : String} (value : String)
    (hname : IsName key.toList) :
    (Node.element tag [(key, value)] []).HasNames :=
  ⟨List.forall_mem_singleton.mpr hname, trivial⟩

theorem hasNames_shownNode {mode : PlaceholderMode} {call : RenderCall}
    {node : Node} (h : shownNode? mode call = some node) :
    node.HasNames := by
  cases call with
  | openDocument | closeDocument | setPageSize | setPageMargins => cases h
  | newPage | horizontalRule | image =>
      cases h
      exact hasNames_single _ _ (by decide)
  | block written =>
      exact (shows_blockNode (blockNode_of_shownNode h)).names.1
  | table written =>
      cases h
      exact (shows_tableNode written).names.1

theorem visibleText_eq {node : Node} {texts : List String}
    {inputs : List (List (String × String))}
    (h : Shows [node] (texts.flatMap String.toList) inputs) :
    visibleText node.tokens = String.join texts ∧
      fields node.tokens = inputs := by
  have hvisible := h.visible
  have hfields := h.fields_eq
  simp only [tokensAll, List.append_nil] at hvisible hfields
  refine ⟨?_, hfields⟩
  apply String.toList_injective
  rw [visibleText, hvisible, String.toList_join, String.toList_ofList]

end Html

namespace HtmlRenderer

open Html

variable {ω : Type} [Sink ω] {renderer : HtmlRenderer ω} {call : RenderCall}

theorem perform_ok
    (hperformed : (Renderer.perform renderer call).failure? = none) :
    ∃ text, callText renderer.options renderer.isOpen call = .ok text ∧
      Renderer.perform renderer call =
        ⟨{ renderer with
            sink := (Sink.write renderer.sink text).state
            isOpen := opensAfter renderer.isOpen call }, none⟩ := by
  simp only [Renderer.perform, perform] at hperformed ⊢
  cases htext : callText renderer.options renderer.isOpen call with
  | error error =>
      rw [htext] at hperformed
      cases hperformed
  | ok text =>
      rw [htext] at hperformed
      refine ⟨text, rfl, ?_⟩
      dsimp only at hperformed ⊢
      split
      · rename_i cause hwritten
        rw [hwritten] at hperformed
        cases hperformed
      · rfl

theorem opensAfter_fragment (isOpen : Bool) (hcall : addsFragment call = true) :
    opensAfter isOpen call = isOpen := by
  cases call <;> first | rfl | cases hcall

/-- On a sink that takes everything, a call adds its tree on a line, and the
line reads back as the tree. -/
theorem perform_fragment {renderer : HtmlRenderer Buffer}
    (hopen : renderer.isOpen = true) (hcall : addsFragment call = true)
    {node : Node} (hnames : node.HasNames)
    (htext : bodyText renderer.options call = .ok (lineOf node)) :
    ∃ fragment, tokens? fragment = some node.tokens ∧
      Renderer.perform renderer call =
        ⟨{ renderer with
            sink := ⟨renderer.sink.text ++ ("  " ++ fragment ++ "\n")⟩ },
          none⟩ := by
  refine ⟨String.ofList node.write, (node.reads_write hnames).tokens?_eq, ?_⟩
  simp only [Renderer.perform, perform, callText, hopen, if_true, htext,
    lineOf_eq, opensAfter_fragment _ hcall]
  simp only [Sink.write]

/-- Whatever stands in a call, what it adds to an open page reads back as the
tree that it builds, and nothing of it is markup.  The same is true of the
options in the head. -/
theorem perform_reads_back (hopen : renderer.isOpen = true)
    (hcall : addsFragment call = true)
    (hperformed : (Renderer.perform renderer call).failure? = none) :
    let mode := renderer.options.placeholders
    (∃ node fragment,
      shownNode? mode call = some node ∧
      Renderer.perform renderer call =
        ⟨{ renderer with
            sink := (Sink.write renderer.sink
              ("  " ++ fragment ++ "\n")).state }, none⟩ ∧
      tokens? fragment = some node.tokens ∧
      (∀ block, call = .block block →
        visibleText node.tokens =
          String.join (block.chunks.map (shownText mode)) ∧
        fields node.tokens = blockFields mode block.chunks ∧
        (mode = .text → visibleText node.tokens = block.text)) ∧
      ∀ table, call = .table table →
        visibleText node.tokens = Chunk.texts (shownCells table) ∧
        fields node.tokens = []) ∧
    ∃ head,
      pageHead renderer.options =
        renderer.options.declaration ++ "\n" ++ head ∧
      tokens? head = some (headTokens renderer.options) := by
  intro mode
  have hhead := (reads_headMarkup renderer.options).tokens?_eq
  rw [String.ofList_toList] at hhead
  refine ⟨?_, headMarkup renderer.options, pageHead_eq _, hhead⟩
  obtain ⟨text, htext, hperform⟩ := perform_ok hperformed
  simp only [callText, hopen, if_true] at htext
  obtain ⟨node, hnode, rfl⟩ := bodyText_fragment hcall htext
  rw [lineOf_eq, opensAfter_fragment _ hcall] at hperform
  have hreads := node.reads_write (hasNames_shownNode hnode)
  refine ⟨node, String.ofList node.write, hnode, hperform, hreads.tokens?_eq,
    ?_, ?_⟩
  · rintro block rfl
    have hbuilt := shows_blockNode (blockNode_of_shownNode hnode)
    rw [← List.flatMap_map] at hbuilt
    obtain ⟨hvisible, hfields⟩ := visibleText_eq hbuilt
    refine ⟨hvisible, hfields, fun htext => ?_⟩
    have hcontents : shownText mode = Chunk.contents := by
      funext chunk
      rw [htext]
      unfold shownText
      cases chunk.isPlaceholder <;> rfl
    rw [hvisible, hcontents]
    rfl
  · rintro table rfl
    cases hnode
    have hbuilt := shows_tableNode table
    rw [← List.flatMap_map] at hbuilt
    exact visibleText_eq hbuilt

/-- A paragraph full of markup, with a field that is as well. -/
theorem perform_reads_back_markup :
    let plain : Chunk :=
      { contents := "1 < 2\n&lt;</p>"
        attributes := .ofList [("align", "\"><hr>")] }
    let value : Chunk :=
      { contents := "\"/><b>", attributes := .ofList [("id", "a&b")]
        isPlaceholder := true }
    let call : RenderCall := .block ⟨.paragraph, [plain, value]⟩
    let renderer : HtmlRenderer Buffer :=
      { options := { placeholders := .input }, isOpen := true, sink := {} }
    renderer.isOpen = true ∧ addsFragment call = true ∧
      (Renderer.perform renderer call).failure? = none ∧
      ∃ fragment tokens,
        (Renderer.perform renderer call).state.sink.text =
          "  " ++ fragment ++ "\n" ∧
        tokens? fragment = some tokens ∧
        visibleText tokens = "1 < 2\n&lt;</p>" ∧
        fields tokens =
          [[("type", "text"), ("id", "a&b"), ("name", "a&b"), ("size", "10"),
            ("value", "\"/><b>")]] := by
  intro plain value call renderer
  have hopen : renderer.isOpen = true := rfl
  have hcall : addsFragment call = true := rfl
  have hperformed : (Renderer.perform renderer call).failure? = none := rfl
  obtain ⟨⟨node, fragment, -, hperform, htokens, hblock, -⟩, -⟩ :=
    perform_reads_back hopen hcall hperformed
  obtain ⟨hvisible, hfields, -⟩ := hblock _ rfl
  refine ⟨hopen, hcall, hperformed, fragment, node.tokens, ?_, htokens,
    hvisible.trans (by decide +kernel), hfields.trans (by decide +kernel)⟩
  rw [hperform]
  exact String.empty_append

end HtmlRenderer
end DocTemplate
