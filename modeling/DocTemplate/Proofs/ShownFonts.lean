import DocTemplate.Proofs.Declarations
import DocTemplate.Proofs.Fragments

/-!
# The fonts in which a page shows its blocks

An element passes what is declared for it on to the elements inside it, which
may declare something else.  The text of a block stands in its own element or,
behind the first chunk, in a span for each chunk.  A span is shown as its chunk
asks, but a property of which the chunk says nothing is that of the block, and
the first chunk decides on that.  So a block shows each chunk in its own font
just if every chunk says something of all that the first one says.
-/

namespace DocTemplate
namespace Html

/-! ## Reading fonts -/

/-- The elements that are never left. -/
def voidNames : List String :=
  ["br", "hr", "img", "input"]

/-- The value of a property inside an element with some attributes. -/
def valueInside (property : FontProperty)
    (attributes : List (String × String)) (outside : Option String) :
    Option String :=
  ((attributes.lookup "style").bind (declared? property.name)).or outside

/-- The values of a property in the elements that are open behind a token, the
innermost one first. -/
def Token.enter (property : FontProperty) (values : List (Option String)) :
    Token → List (Option String)
  | .start name attributes =>
      if voidNames.contains name then
        values
      else
        valueInside property attributes (values.headD none) :: values
  | .stop _ => values.tail
  | .character _ => values

/-- What is seen of some tokens, each character with the value of a property. -/
def seenWith (property : FontProperty) (values : List (Option String)) :
    List Token → List (Char × Option String)
  | [] => []
  | token :: rest =>
      token.visible.map (·, values.headD none) ++
        seenWith property (token.enter property values) rest

section Trees

variable (property : FontProperty) (values : List (Option String))

theorem seenWith_append (first second : List Token) :
    seenWith property values (first ++ second) =
      seenWith property values first ++
        seenWith property (first.foldl (Token.enter property) values)
          second := by
  induction first generalizing values with
  | nil => rfl
  | cons token rest ih =>
      rw [List.cons_append, seenWith, seenWith, ih, List.append_assoc,
        List.foldl_cons]

theorem contains_voidNames (tag : Tag) :
    voidNames.contains tag.name = tag.isVoid := by
  cases tag <;> decide

mutual

/-- Behind a tree the same elements are open as before it. -/
theorem enter_node (values : List (Option String)) : (node : Node) →
    node.tokens.foldl (Token.enter property) values = values
  | .text contents => by
      rw [Node.tokens, List.foldl_map]
      induction contents.toList with
      | nil => rfl
      | cons c rest ih => exact ih
  | .element tag attributes children => by
      rw [Node.tokens]
      split
      · rename_i hvoid
        rw [List.foldl_cons, Token.enter, contains_voidNames, if_pos hvoid]
        rfl
      · rename_i hcontent
        rw [List.foldl_cons, Token.enter, contains_voidNames, if_neg hcontent,
          List.foldl_append, enter_nodes _ children]
        rfl

theorem enter_nodes (values : List (Option String)) : (nodes : List Node) →
    (tokensAll nodes).foldl (Token.enter property) values = values
  | [] => rfl
  | node :: rest => by
      rw [tokensAll, List.foldl_append, enter_node values node,
        enter_nodes values rest]

end

theorem seenWith_nodes_append (first second : List Node) :
    seenWith property values (tokensAll (first ++ second)) =
      seenWith property values (tokensAll first) ++
        seenWith property values (tokensAll second) := by
  rw [tokensAll_append, seenWith_append, enter_nodes]

theorem seenWith_flatMap {α : Type} (items : List α)
    (build : α → List Node) :
    seenWith property values (tokensAll (items.flatMap build)) =
      items.flatMap fun item =>
        seenWith property values (tokensAll (build item)) := by
  induction items with
  | nil => rfl
  | cons item rest ih =>
      rw [List.flatMap_cons, seenWith_nodes_append, ih, List.flatMap_cons]

theorem seenWith_element {tag : Tag} (hcontent : tag.isVoid = false)
    (attributes : List (String × String)) (children : List Node) :
    seenWith property values (Node.element tag attributes children).tokens =
      seenWith property
        (valueInside property attributes (values.headD none) :: values)
        (tokensAll children) := by
  have hbreak : ¬tag.name = "br" := by
    cases tag <;> first | decide | cases hcontent
  have hvoid := contains_voidNames tag
  rw [hcontent] at hvoid
  rw [Node.tokens, if_neg (by rw [hcontent]; exact Bool.false_ne_true),
    seenWith, Token.enter, hvoid, seenWith_append]
  simp [seenWith, Token.visible, hbreak]

theorem seenWith_plain {tokens : List Token}
    (h : ∀ token ∈ tokens, token.isPlain = true) :
    seenWith property values tokens =
      (tokens.flatMap Token.visible).map (·, values.headD none) := by
  induction tokens with
  | nil => rfl
  | cons token rest ih =>
      rw [List.forall_mem_cons] at h
      have henter : token.enter property values = values := by
        cases token with
        | start name attributes =>
            obtain rfl : name = "br" := of_decide_eq_true h.1
            rfl
        | stop name => cases h.1
        | character c => rfl
      rw [seenWith, henter, ih h.2, List.flatMap_cons, List.map_append]

/-- A text is seen as it is around it. -/
theorem seenWith_textNodes (text : String) :
    seenWith property values (tokensAll (textNodes text)) =
      text.toList.map (·, values.headD none) := by
  rw [seenWith_plain property values (isPlain_textNodes text),
    (shows_textNodes text).visible]

end Trees

/-! ## Blocks -/

section Blocks

variable (property : FontProperty) (values : List (Option String))

theorem valueInside_styleAttribute (style : String) (outside : Option String) :
    valueInside property (styleAttribute style) outside =
      (declared? property.name style).or outside := by
  unfold styleAttribute valueInside
  split
  · rename_i hempty
    rw [String.isEmpty_iff] at hempty
    subst hempty
    cases property <;> rfl
  · rfl

/-- The text of a chunk, each character with a value. -/
def textWith (chunk : Chunk) (value : Option String) :
    List (Char × Option String) :=
  chunk.contents.toList.map (·, value)

theorem seenWith_first (chunk : Chunk) :
    seenWith property values (tokensAll (chunkNodes .text true chunk)) =
      textWith chunk (values.headD none) := by
  have hnodes : chunkNodes .text true chunk = textNodes chunk.contents := by
    unfold chunkNodes
    cases chunk.isPlaceholder <;> rfl
  rw [hnodes, seenWith_textNodes]
  rfl

theorem seenWith_later (chunk : Chunk) :
    seenWith property values (tokensAll (chunkNodes .text false chunk)) =
      textWith chunk
        ((fontValue? chunk property).or (values.headD none)) := by
  have hnodes : chunkNodes .text false chunk =
      [.element .span (styleAttribute (fontStyle chunk))
        (textNodes chunk.contents)] := by
    unfold chunkNodes
    cases chunk.isPlaceholder <;> rfl
  rw [hnodes, tokensAll, tokensAll, List.append_nil,
    seenWith_element property values rfl, seenWith_textNodes,
    valueInside_styleAttribute, declared?_fontStyle]
  rfl

theorem exists_blockNode (mode : PlaceholderMode) {block : Block}
    (hkind : block.kind ≠ .pageBreak) :
    ∃ node, blockNode mode block = .ok node := by
  unfold blockNode
  cases hcase : block.kind with
  | pageBreak => exact absurd hcase hkind
  | title | chapter | sectionHeading | paragraph => exact ⟨_, rfl⟩

/-- In a block each chunk is seen with its own value or that of the block. -/
theorem seenWith_blockNode {block : Block} {node : Node}
    (h : blockNode .text block = .ok node) :
    seenWith property [] node.tokens =
      block.chunks.flatMap fun chunk =>
        textWith chunk ((fontValue? chunk property).or
          (headValue? block.chunks property)) := by
  obtain ⟨tag, hcontent, rfl⟩ : ∃ tag : Tag, tag.isVoid = false ∧
      node = .element tag
        (("class", block.kind.name) :: styleAttribute (headStyle block.chunks))
        (bodyNodes .text block.chunks) := by
    unfold blockNode at h
    cases hkind : block.kind <;> rw [hkind] at h <;> cases h <;>
      exact ⟨_, rfl, rfl⟩
  have hvalue : valueInside property
      (("class", block.kind.name) :: styleAttribute (headStyle block.chunks))
      none = headValue? block.chunks property := by
    have hinside := valueInside_styleAttribute property
      (headStyle block.chunks) none
    rw [declared?_headStyle, Option.or_none] at hinside
    exact hinside
  rw [seenWith_element property [] hcontent, List.headD_nil, hvalue]
  cases block.chunks with
  | nil => rfl
  | cons first others =>
      have hfirst : (fontValue? first property).or
          (headValue? (first :: others) property) =
            headValue? (first :: others) property := by
        rw [headValue?, ← Option.or_assoc, Option.or_self]
      rw [bodyNodes, seenWith_nodes_append, seenWith_first, seenWith_flatMap,
        List.flatMap_cons, hfirst]
      simp only [seenWith_later, List.headD_cons]

end Blocks

/-- Texts are seen with other values just if one of them has a character whose
value is another one. -/
theorem flatMap_textWith_eq_iff {chunks : List Chunk}
    {first second : Chunk → Option String} :
    (chunks.flatMap fun chunk => textWith chunk (first chunk)) =
        (chunks.flatMap fun chunk => textWith chunk (second chunk)) ↔
      ∀ chunk ∈ chunks, chunk.contents ≠ "" → first chunk = second chunk := by
  induction chunks with
  | nil => exact ⟨fun _ => nofun, fun _ => rfl⟩
  | cons chunk rest ih =>
      have hlength : (textWith chunk (first chunk)).length =
          (textWith chunk (second chunk)).length := by
        rw [textWith, textWith, List.length_map, List.length_map]
      have htext : textWith chunk (first chunk) =
          textWith chunk (second chunk) ↔
            (chunk.contents ≠ "" → first chunk = second chunk) := by
        have hcontents : chunk.contents ≠ "" ↔ chunk.contents.toList ≠ [] :=
          not_congr String.toList_eq_nil_iff.symm
        rw [textWith, textWith, hcontents]
        cases chunk.contents.toList with
        | nil => exact ⟨fun _ hne => absurd rfl hne, fun _ => rfl⟩
        | cons c others =>
            refine ⟨fun heq _ => ?_, fun heq => ?_⟩
            · exact (Prod.mk.inj (List.cons.inj heq).1).2
            · rw [heq (List.cons_ne_nil c others)]
      rw [List.flatMap_cons, List.flatMap_cons, List.forall_mem_cons, ← ih,
        ← htext]
      exact ⟨fun heq => List.append_inj heq hlength,
        fun heq => by rw [heq.1, heq.2]⟩

end Html

namespace HtmlRenderer

open Html

theorem exists_seen_block (renderer : HtmlRenderer Buffer) (block : Block)
    (hopen : renderer.isOpen = true)
    (hmode : renderer.options.placeholders = .text)
    (hkind : block.kind ≠ .pageBreak) :
    ∃ fragment tokens,
      Renderer.perform renderer (.block block) =
        ⟨{ renderer with
            sink := ⟨renderer.sink.text ++ ("  " ++ fragment ++ "\n")⟩ },
          none⟩ ∧
      tokens? fragment = some tokens ∧
      ∀ property, seenWith property [] tokens =
        block.chunks.flatMap fun chunk =>
          textWith chunk ((fontValue? chunk property).or
            (headValue? block.chunks property)) := by
  obtain ⟨node, hnode⟩ := exists_blockNode .text hkind
  have hcall : addsFragment (.block block) = true := rfl
  have htext : bodyText renderer.options (.block block) =
      .ok (lineOf node) := by
    rw [bodyText, hmode, hnode]
    rfl
  obtain ⟨fragment, htokens, hperform⟩ :=
    perform_fragment hopen hcall (shows_blockNode hnode).names.1 htext
  exact ⟨fragment, node.tokens, hperform, htokens,
    fun property => seenWith_blockNode property hnode⟩

/-- On an open page each chunk of a block is shown with its own font, and where
it says nothing of a property, with what the first chunk says of it.  So all
are shown in their own fonts just if no chunk leaves open what the first one
says, in its font or in an alignment that holds more than that. -/
theorem block_shows_fonts (renderer : HtmlRenderer Buffer) (block : Block)
    (hopen : renderer.isOpen = true)
    (hmode : renderer.options.placeholders = .text)
    (hkind : block.kind ≠ .pageBreak) :
    ∃ fragment tokens,
      Renderer.perform renderer (.block block) =
        ⟨{ renderer with
            sink := ⟨renderer.sink.text ++ ("  " ++ fragment ++ "\n")⟩ },
          none⟩ ∧
      tokens? fragment = some tokens ∧
      (∀ property, seenWith property [] tokens =
        block.chunks.flatMap fun chunk =>
          textWith chunk ((fontValue? chunk property).or
            (headValue? block.chunks property))) ∧
      ((∀ property, seenWith property [] tokens =
          block.chunks.flatMap fun chunk =>
            textWith chunk (fontValue? chunk property)) ↔
        ∀ chunk ∈ block.chunks, chunk.contents ≠ "" →
          ∀ property, fontValue? chunk property = none →
            headValue? block.chunks property = none) ∧
      ∀ first others, block.chunks = first :: others →
        (∀ align ∈ first.attribute? "align", ';' ∉ align.toList) →
        ∀ property,
          headValue? block.chunks property = fontValue? first property := by
  obtain ⟨fragment, tokens, hperform, htokens, hseen⟩ :=
    exists_seen_block renderer block hopen hmode hkind
  refine ⟨fragment, tokens, hperform, htokens, hseen, ?_, ?_⟩
  · have hown (own inherited : Option String) :
        own.or inherited = own ↔ (own = none → inherited = none) := by
      cases own with
      | none => exact ⟨fun heq _ => heq, fun h => h rfl⟩
      | some value => exact ⟨fun _ => nofun, fun _ => rfl⟩
    simp only [hseen, flatMap_textWith_eq_iff, hown]
    exact ⟨fun h chunk hmem hne property => h property chunk hmem hne,
      fun h property chunk hmem hne => h chunk hmem hne property⟩
  · intro first others hchunks halign property
    rw [hchunks]
    exact headValue?_eq halign others property

/-- A bold chunk and one with a size of its own, behind a first chunk that
says less. -/
theorem block_shows_fonts_plain_first :
    let plain : Chunk := { contents := "a" }
    let bold : Chunk :=
      { contents := "b", attributes := .ofList [("font-style", "Bold, x")] }
    let large : Chunk :=
      { contents := "c", attributes := .ofList [("font-size", "12")] }
    let block : Block := ⟨.paragraph, [plain, bold, large]⟩
    let renderer : HtmlRenderer Buffer := { isOpen := true, sink := {} }
    renderer.isOpen = true ∧ renderer.options.placeholders = .text ∧
      block.kind ≠ .pageBreak ∧
      ∃ fragment tokens,
        (Renderer.perform renderer (.block block)).state.sink.text =
          "  " ++ fragment ++ "\n" ∧
        tokens? fragment = some tokens ∧
        seenWith .weight [] tokens =
          [('a', none), ('b', some "bold"), ('c', none)] ∧
        seenWith .size [] tokens =
          [('a', none), ('b', none), ('c', some "12pt")] := by
  intro plain bold large block renderer
  have hopen : renderer.isOpen = true := rfl
  have hmode : renderer.options.placeholders = .text := rfl
  have hkind : block.kind ≠ .pageBreak := nofun
  obtain ⟨fragment, tokens, hperform, htokens, -, hown, -⟩ :=
    block_shows_fonts renderer block hopen hmode hkind
  have hall := hown.mpr fun chunk _ _ property _ => by
    cases property <;> decide +kernel
  refine ⟨hopen, hmode, hkind, fragment, tokens, ?_, htokens, ?_, ?_⟩
  · rw [hperform]
    exact String.empty_append
  · exact (hall .weight).trans (by decide +kernel)
  · exact (hall .size).trans (by decide +kernel)

/-- Behind a bold chunk a chunk without a font is bold as well. -/
theorem not_block_shows_plain_font :
    let bold : Chunk :=
      { contents := "a", attributes := .ofList [("font-style", "bold")] }
    let plain : Chunk := { contents := "b" }
    let block : Block := ⟨.paragraph, [bold, plain]⟩
    let renderer : HtmlRenderer Buffer := { isOpen := true, sink := {} }
    fontValue? plain .weight = none ∧
      ∃ fragment tokens,
        (Renderer.perform renderer (.block block)).state.sink.text =
          "  " ++ fragment ++ "\n" ∧
        tokens? fragment = some tokens ∧
        seenWith .weight [] tokens = [('a', some "bold"), ('b', some "bold")] := by
  intro bold plain block renderer
  obtain ⟨fragment, tokens, hperform, htokens, hseen⟩ :=
    exists_seen_block renderer block rfl rfl nofun
  refine ⟨by decide +kernel, fragment, tokens, ?_, htokens, ?_⟩
  · rw [hperform]
    exact String.empty_append
  · exact (hseen .weight).trans (by decide +kernel)

end HtmlRenderer
end DocTemplate
