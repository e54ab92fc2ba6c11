import DocTemplate.Proofs.Composing
import DocTemplate.Proofs.Forest
import DocTemplate.Proofs.Run

/-!
# The text of a block

The text of a block is the flattened content of its element: the texts with
their line breaks and indentation removed, the values, the spaces and the line
breaks, in document order and however deep they stand.  A session does not
flatten anything.  It keeps text waiting until an element opens or closes, so
the proof follows the text through the composer: each stretch of contents adds
its flattened text behind the text that is there already.
-/

namespace DocTemplate

open Markup Renderer

/-! ## Flattened content -/

/-- The text that an element has before its content. -/
def Element.leadingText (store : DataStore) (own : OwnAttributes) :
    Element → String
  | .value =>
      match (own.lookup "id").map store.resolve with
      | some (.value text) => text
      | _ => ""
  | .space =>
      match (own.lookup "size").bind fun size =>
          Text.natural? Text.maxLength (Text.trim size) with
      | some count =>
          if count ≤ maxSpace then
            String.ofList (List.replicate count ' ')
          else
            ""
      | none => ""
  | _ => ""

/-- The text that an element has behind its content. -/
def Element.trailingText : Element → String
  | .lineBreak => "\n"
  | _ => ""

/-- The flattened content of a forest. -/
def Markup.Forest.flat (store : DataStore) : Forest → String
  | nil => ""
  | text contents rest => Text.collapse contents ++ rest.flat store
  | element name own content rest =>
      (Element.ofName name).leadingText store own ++ content.flat store ++
        (Element.ofName name).trailingText ++ rest.flat store

/-- Whether a forest holds a value or a space, each of which leaves a chunk
even if it has no text. -/
def Markup.Forest.isMarked : Forest → Bool
  | nil => false
  | text _ rest => rest.isMarked
  | element name _ content rest =>
      content.isMarked ||
        decide (Element.ofName name = .value ∨ Element.ofName name = .space) ||
        rest.isMarked

theorem Element.leavesChunk_eq (element : Element) :
    element.leavesChunk = decide (element = .value ∨ element = .space) := by
  cases element <;> rfl

theorem valueText_leading (store : DataStore) (own : OwnAttributes) :
    (valueText store own).toOption.getD "" =
      Element.leadingText store own .value := by
  unfold valueText Element.leadingText
  cases own.lookup "id" with
  | none => rfl
  | some id =>
      dsimp only [Option.map_some]
      cases store.resolve id <;> rfl

theorem spaceText_leading (store : DataStore) (own : OwnAttributes) :
    (spaceText own).toOption.getD "" =
      Element.leadingText store own .space := by
  unfold spaceText Element.leadingText
  cases own.lookup "size" with
  | none => rfl
  | some size =>
      dsimp only [Option.bind_some]
      cases Text.natural? Text.maxLength (Text.trim size) with
      | none => rfl
      | some count =>
          dsimp only
          split <;> rfl

/-! ## Inline elements -/

namespace Assembly

open Composer

theorem eq_of_table_none {assembly : Assembly}
    (htable : assembly.table = none) :
    assembly = ⟨assembly.composer, none⟩ := by
  rw [← htable]

theorem adds_openValue (store : DataStore) (composer : Composer)
    (own : OwnAttributes) :
    Adds (Element.leadingText store own .value) false composer
      (openValue store composer own).1 := by
  have hopened : Adds "" false composer
      ((composer.enter own).modifyTop fun entry =>
        { entry with isPlaceholder := true }) :=
    (adds_enter composer own).trans (adds_modifyTop _ _)
  rw [← valueText_leading]
  unfold openValue
  cases valueText store own with
  | error problem => exact hopened
  | ok text =>
      have hfilled := hopened.trans (adds_addLiteral _ text)
      rw [String.empty_append] at hfilled
      change Adds text false composer _
      dsimp only
      split
      · have hemphasised := hfilled.trans (adds_modifyTop _
          (·.setAttribute "font-style" valueEmphasis))
        rwa [String.append_empty] at hemphasised
      · exact hfilled

theorem pending_openValue (store : DataStore) (composer : Composer)
    (own : OwnAttributes) :
    (openValue store composer own).1.pending =
      (composer.enter own).pending ++
        (valueText store own).toOption.getD "" := by
  unfold openValue
  cases valueText store own with
  | error problem => simp [modifyTop, Except.toOption]
  | ok text =>
      dsimp only
      split <;> rfl

theorem requests_openValue (store : DataStore) (composer : Composer)
    (own : OwnAttributes) :
    (openValue store composer own).2 =
      match valueText store own with
      | .error problem => [.report problem]
      | .ok _ => [] := by
  unfold openValue
  cases valueText store own with
  | error problem => rfl
  | ok text =>
      dsimp only
      split <;> rfl

theorem entries_openValue (store : DataStore) {composer : Composer}
    {parent : Chunk} {outer : List Chunk}
    (hentries : composer.entries = parent :: outer) (own : OwnAttributes) :
    ∃ entry filled,
      (openValue store composer own).1.entries = entry :: filled :: outer := by
  obtain ⟨filled, henter⟩ := entries_enter hentries own
  have hopened := entries_modifyTop henter
    fun entry => { entry with isPlaceholder := true }
  unfold openValue
  cases valueText store own with
  | error problem => exact ⟨_, filled, hopened⟩
  | ok text =>
      dsimp only
      split
      · exact ⟨_, filled, entries_modifyTop hopened _⟩
      · exact ⟨_, filled, hopened⟩

theorem adds_openSpace (store : DataStore) (composer : Composer)
    (own : OwnAttributes) :
    Adds (Element.leadingText store own .space) false composer
      (openSpace composer own).1 := by
  rw [← spaceText_leading]
  unfold openSpace
  cases spaceText own with
  | error problem => exact adds_enter composer own
  | ok text =>
      have hfilled := (adds_enter composer own).trans (adds_addLiteral _ text)
      rwa [String.empty_append] at hfilled

theorem entries_openSpace {composer : Composer} {parent : Chunk}
    {outer : List Chunk} (hentries : composer.entries = parent :: outer)
    (own : OwnAttributes) :
    ∃ entry filled,
      (openSpace composer own).1.entries = entry :: filled :: outer := by
  obtain ⟨filled, henter⟩ := entries_enter hentries own
  unfold openSpace
  cases spaceText own <;> exact ⟨_, filled, henter⟩

/-- An inline element opens on the entry of the element around it, and asks
for no call. -/
theorem start_inline (store : DataStore) {composer : Composer}
    {parent : Chunk} {outer : List Chunk}
    (hentries : composer.entries = parent :: outer) {element : Element}
    (hinline : element.isInline = true) (own : OwnAttributes) :
    ∃ opened requests entry filled,
      start store ⟨composer, none⟩ element own =
          (⟨opened, none⟩, .ok requests) ∧
        Request.calls requests = [] ∧
        opened.entries = entry :: filled :: outer ∧
        Adds (element.leadingText store own) false composer opened := by
  cases element with
  | value =>
      obtain ⟨entry, filled, hopened⟩ := entries_openValue store hentries own
      exact ⟨_, _, entry, filled, rfl, calls_openValue store composer own,
        hopened, adds_openValue store composer own⟩
  | space =>
      obtain ⟨entry, filled, hopened⟩ := entries_openSpace hentries own
      exact ⟨_, _, entry, filled, rfl, calls_openSpace composer own,
        hopened, adds_openSpace store composer own⟩
  | lineBreak | generic =>
      obtain ⟨filled, hopened⟩ := entries_enter hentries own
      exact ⟨_, [], _, filled, rfl, rfl, hopened, adds_enter composer own⟩
  | block | page | rule | image | table | cell => cases hinline

theorem stop_inline {composer : Composer} {entry : Chunk}
    {outer : List Chunk} (hentries : composer.entries = entry :: outer)
    {element : Element} (hinline : element.isInline = true) :
    ∃ closed, stop ⟨composer, none⟩ element = (⟨closed, none⟩, []) ∧
      closed.entries = outer ∧
      Adds element.trailingText element.leavesChunk composer closed := by
  cases element with
  | lineBreak =>
      refine ⟨_, rfl, entries_discard hentries, ?_⟩
      have hadds :=
        (adds_addLiteral composer "\n").trans (adds_discard _)
      rwa [String.append_empty] at hadds
  | value | space | generic =>
      refine ⟨_, ?_, entries_leave hentries _, adds_leave hentries _⟩
      simp [stop, stopEntry, withComposer, Element.leavesChunk]
  | block | page | rule | image | table | cell => cases hinline

end Assembly

/-! ## Blocks -/

/-- The calls that write one block of a kind with a text. -/
def WritesBlock (kind : BlockKind) (text : String)
    (calls : List RenderCall) : Prop :=
  ∃ block, calls = [.block block] ∧ block.kind = kind ∧ block.text = text

/-- What a block with some contents is written as: a block without text that
no chunk speaks for is left out, unless it is a paragraph, which takes up a
line. -/
structure WritesContents (kind : BlockKind) (text : String) (marked : Bool)
    (calls : List RenderCall) : Prop where
  filled : text ≠ "" ∨ marked = true → WritesBlock kind text calls
  blank : text = "" → marked = false → kind = .paragraph →
    WritesBlock kind " " calls
  left_out : text = "" → marked = false → kind ≠ .paragraph → calls = []

namespace Assembly

open Composer

/-- A block opens on an empty list of chunks, but not without what waits. -/
theorem start_block (store : DataStore) (composer : Composer)
    {kind : BlockKind} (hkind : kind ≠ .pageBreak) (own : OwnAttributes) :
    start store ⟨composer, none⟩ (.block kind) own =
      (⟨composer.restart.enter own, none⟩, .ok []) := by
  cases kind with
  | pageBreak => exact absurd rfl hkind
  | title | chapter | sectionHeading | paragraph => rfl

/-- What the end of a block asks for, given what its composer has come to. -/
def blockRequests (composer : Composer) (kind : BlockKind)
    (carrier : Option Chunk) : List Request :=
  ((composer.finish kind carrier).2.map
    fun block => Request.call (.block block)).toList

/-- The end of a block writes it, and leaves of it nothing but what was open
around it. -/
theorem stop_block {composer : Composer} {entry : Chunk}
    {outer : List Chunk} (hentries : composer.entries = entry :: outer)
    {kind : BlockKind} (hkind : kind ≠ .pageBreak) :
    stop ⟨composer, none⟩ (.block kind) =
      (⟨{ entries := outer }, none⟩,
        blockRequests (composer.leave false).1 kind
          (composer.leave false).2) := by
  obtain ⟨carrier, hcarrier⟩ := carrier_leave hentries false
  have hleave : composer.leave (Element.block kind).leavesChunk =
      ((composer.leave false).1, some carrier) := Prod.ext rfl hcarrier
  have hrestart : (composer.leave false).1.restart =
      { entries := outer } := by
    simp [restart, entries_leave hentries, pending_leave hentries]
  have hstop : stop ⟨composer, none⟩ (.block kind) =
      (⟨(stopEntry composer (.block kind)).1, none⟩,
        (stopEntry composer (.block kind)).2) := by
    cases kind with
    | pageBreak => exact absurd rfl hkind
    | title | chapter | sectionHeading | paragraph => rfl
  rw [hstop, hcarrier]
  simp only [stopEntry, hleave]
  rw [← hrestart]
  rfl

theorem writesContents_blockRequests {composer : Composer}
    (hpending : composer.pending = "") {text : String} {marked : Bool}
    (htext : composer.text = text)
    (hvacant : composer.IsVacant ↔ text = "" ∧ marked = false)
    (kind : BlockKind) (carrier : Option Chunk) :
    WritesContents kind text marked
      (Request.calls (blockRequests composer kind carrier)) := by
  have htexts : Chunk.texts composer.chunks = text := by
    rw [← htext, Composer.text, hpending, String.append_empty]
  have hchunks : composer.chunks = [] ↔ text = "" ∧ marked = false := by
    rw [← hvacant, IsVacant, and_iff_left hpending]
  unfold blockRequests finish finishedChunks
  constructor
  · intro hfilled
    have hsome : composer.chunks ≠ [] := by
      rw [ne_eq, hchunks]
      rcases hfilled with hnot | rfl
      · exact fun h => hnot h.1
      · simp
    refine ⟨⟨kind, composer.chunks⟩, by simp [hsome], rfl, htexts⟩
  · rintro hempty hunmarked rfl
    have hnone := hchunks.mpr ⟨hempty, hunmarked⟩
    exact ⟨⟨.paragraph, [filler carrier]⟩, by simp [hnone], rfl,
      Chunk.texts_singleton _⟩
  · intro hempty hunmarked hkind
    have hnone := hchunks.mpr ⟨hempty, hunmarked⟩
    simp [hnone, hkind]

end Assembly

/-! ## Sessions -/

namespace Session

open Composer

variable {σ : Type} [Renderer σ] [AcceptingRenderer σ]
  (session : Session σ)

omit [AcceptingRenderer σ] in
theorem meet_of_calls_nil {requests : List Request}
    (hcalls : Request.calls requests = []) :
    session.meet requests =
      { session with
        diagnostics := session.diagnostics ++
          (Request.problems requests).map Problem.diagnostic } := by
  simp [meet, hcalls]

/-- The session with another composer and outside all tables. -/
def withComposer (composer : Composer)
    (diagnostics : List Diagnostic) : Session σ :=
  { session with assembly := ⟨composer, none⟩, diagnostics }

omit [Renderer σ] [AcceptingRenderer σ] in
@[simp] theorem withComposer_withComposer (first second : Composer)
    (earlier later : List Diagnostic) :
    (session.withComposer first earlier).withComposer second later =
      session.withComposer second later := rfl

theorem feed_start_inline (hagree : session.InStep)
    (hstate : session.state = .opened)
    (htable : session.assembly.table = none) {parent : Chunk}
    {outer : List Chunk}
    (hentries : session.assembly.composer.entries = parent :: outer)
    {name : String} (hname : Text.lower name ≠ session.root)
    (hinline : (Element.ofName name).isInline = true)
    (own : OwnAttributes) :
    ∃ opened reported entry filled,
      session.feed (.start name own) =
          ⟨session.withComposer opened reported, none⟩ ∧
        opened.entries = entry :: filled :: outer ∧
        Adds ((Element.ofName name).leadingText session.store own) false
          session.assembly.composer opened := by
  obtain ⟨opened, requests, entry, filled, hstart, hcalls, hopened, hadds⟩ :=
    Assembly.start_inline session.store hentries hinline own
  have hassembly := Assembly.eq_of_table_none htable
  rw [← hassembly] at hstart
  have hfeed := start_opened hstate (hagree.mp hstate) hname hstart
  rw [meet_of_calls_nil _ hcalls] at hfeed
  exact ⟨opened, _, entry, filled, hfeed, hopened, hadds⟩

theorem feed_stop_inline (hagree : session.InStep)
    (hstate : session.state = .opened)
    (htable : session.assembly.table = none) {entry : Chunk}
    {outer : List Chunk}
    (hentries : session.assembly.composer.entries = entry :: outer)
    {name : String} (hname : Text.lower name ≠ session.root)
    (hinline : (Element.ofName name).isInline = true) :
    ∃ closed,
      session.feed (.stop name) =
          ⟨session.withComposer closed session.diagnostics, none⟩ ∧
        closed.entries = outer ∧
        Adds (Element.ofName name).trailingText
          (decide (Element.ofName name = .value ∨
            Element.ofName name = .space))
          session.assembly.composer closed := by
  rw [← Element.leavesChunk_eq]
  obtain ⟨closed, hstop, hclosed, hadds⟩ :=
    Assembly.stop_inline hentries hinline
  have hassembly := Assembly.eq_of_table_none htable
  rw [← hassembly] at hstop
  have hfeed := stop_opened hstate (hagree.mp hstate) hname hstop
  rw [meet_nil] at hfeed
  exact ⟨closed, hfeed, hclosed, hadds⟩

/-- Inline contents of an open element are taken, and add their flattened text
and nothing else. -/
theorem feedAll_inline {forest : Forest} (hagree : session.InStep)
    (hstate : session.state = .opened)
    (htable : session.assembly.table = none) {entry : Chunk}
    {outer : List Chunk}
    (hentries : session.assembly.composer.entries = entry :: outer)
    (hinline : forest.Inline session.root) :
    ∃ after reported filled,
      session.feedAll forest.events =
          ⟨session.withComposer after reported, none⟩ ∧
        after.entries = filled :: outer ∧
        Adds (forest.flat session.store) forest.isMarked
          session.assembly.composer after := by
  -- The content of an element lies one entry higher than the element itself,
  -- so the entries have to be general.
  induction forest generalizing session entry outer with
  | nil =>
      refine ⟨session.assembly.composer, session.diagnostics, entry, ?_,
        hentries, .refl _⟩
      rw [withComposer, ← htable]
      rfl
  | text contents rest ih =>
      have hadds := adds_addTemplateText session.assembly.composer contents
      have hfeed : session.feed (.text contents) =
          ⟨session.withComposer
            (session.assembly.composer.addTemplateText contents)
            session.diagnostics, none⟩ := by
        simp only [feed, addText, hstate, withComposer, ← htable]
        rfl
      obtain ⟨after, reported, filled, hrest, hafter, haddsRest⟩ :=
        ih (session.withComposer
            (session.assembly.composer.addTemplateText contents)
            session.diagnostics) hagree hstate rfl hentries hinline
      refine ⟨after, reported, filled, ?_, hafter, hadds.trans haddsRest⟩
      rw [Forest.events, feedAll_cons, hfeed, Outcome.andThen_ok, hrest]
      rfl
  | element name own content rest ihContent ihRest =>
      obtain ⟨⟨hname, helement⟩, hcontent, hrest⟩ := hinline
      obtain ⟨opened, reported, top, filled, hstart, hopened, haddsStart⟩ :=
        feed_start_inline session hagree hstate htable hentries hname
          helement own
      obtain ⟨inner, reported', top', hfeedContent, hinner, haddsContent⟩ :=
        ihContent (session.withComposer opened reported) hagree hstate rfl
          hopened hcontent
      obtain ⟨closed, hstop, hclosed, haddsStop⟩ :=
        feed_stop_inline (session.withComposer inner reported') hagree
          hstate rfl hinner hname helement
      obtain ⟨after, reported'', filled', hfeedRest, hafter, haddsRest⟩ :=
        ihRest (session.withComposer closed reported') hagree hstate rfl
          hclosed hrest
      refine ⟨after, reported'', filled', ?_, hafter,
        ((haddsStart.trans haddsContent).trans haddsStop).trans haddsRest⟩
      rw [withComposer_withComposer] at hfeedContent hstop hfeedRest
      rw [Forest.events, feedAll_cons, hstart, Outcome.andThen_ok,
        feedAll_append, hfeedContent, Outcome.andThen_ok, feedAll_cons,
        hstop, Outcome.andThen_ok]
      exact hfeedRest

theorem feed_start_block (hagree : session.InStep)
    (hstate : session.state = .opened)
    (htable : session.assembly.table = none) {name : String}
    {kind : BlockKind} (hname : Text.lower name ≠ session.root)
    (helement : Element.ofName name = .block kind)
    (hkind : kind ≠ .pageBreak) (own : OwnAttributes) :
    session.feed (.start name own) =
      ⟨session.withComposer (session.assembly.composer.restart.enter own)
        session.diagnostics, none⟩ := by
  have hstart :=
    Assembly.start_block session.store session.assembly.composer hkind own
  have hassembly := Assembly.eq_of_table_none htable
  rw [← helement, ← hassembly] at hstart
  have hfeed := start_opened hstate (hagree.mp hstate) hname hstart
  rwa [meet_nil] at hfeed

theorem feed_stop_block (hagree : session.InStep)
    (hstate : session.state = .opened)
    (htable : session.assembly.table = none) {entry : Chunk}
    {outer : List Chunk}
    (hentries : session.assembly.composer.entries = entry :: outer)
    {name : String} {kind : BlockKind}
    (hname : Text.lower name ≠ session.root)
    (helement : Element.ofName name = .block kind)
    (hkind : kind ≠ .pageBreak) {text : String} {marked : Bool}
    (htext : session.assembly.composer.text = text)
    (hvacant : session.assembly.composer.IsVacant ↔
      text = "" ∧ marked = false) :
    ∃ reported calls,
      session.feed (.stop name) =
          ⟨{ session with
              assembly := ⟨{ entries := outer }, none⟩
              diagnostics := reported
              renderer := performAll session.renderer calls }, none⟩ ∧
        WritesContents kind text marked calls := by
  have hstop := Assembly.stop_block hentries hkind
  have hassembly := Assembly.eq_of_table_none htable
  rw [← helement, ← hassembly] at hstop
  refine ⟨_, _, stop_opened hstate (hagree.mp hstate) hname hstop,
    Assembly.writesContents_blockRequests (pending_leave hentries false)
      ?_ ?_ kind _⟩
  · rw [text_leave, htext]
  · rw [isVacant_leave_false, hvacant]

/-- A block is written with what waits before it and the flattened content of
its element. -/
theorem feedAll_block (hagree : session.InStep)
    (hstate : session.state = .opened)
    (htable : session.assembly.table = none) {name : String}
    {kind : BlockKind} (hname : Text.lower name ≠ session.root)
    (helement : Element.ofName name = .block kind)
    (hkind : kind ≠ .pageBreak) (own : OwnAttributes) {forest : Forest}
    (hinline : forest.Inline session.root) :
    ∃ outer reported calls,
      session.feedAll (.start name own :: (forest.events ++ [.stop name])) =
          ⟨{ session with
              assembly := ⟨{ entries := outer }, none⟩
              diagnostics := reported
              renderer := performAll session.renderer calls }, none⟩ ∧
        (session.assembly.composer.pending = "" →
          outer = session.assembly.composer.entries) ∧
        WritesContents kind
          (session.assembly.composer.pending ++ forest.flat session.store)
          forest.isMarked calls := by
  have hstart := feed_start_block session hagree hstate htable hname helement
    hkind own
  obtain ⟨entry, outer, hopened, houter⟩ :=
    exists_entries_enter session.assembly.composer.restart own
  have hopens := adds_enter session.assembly.composer.restart own
  generalize session.assembly.composer.restart.enter own = opened
    at hstart hopened hopens
  obtain ⟨inner, reported, top, hcontent, hinner, hadds⟩ :=
    feedAll_inline (session.withComposer opened session.diagnostics) hagree
      hstate rfl hopened hinline
  rw [withComposer_withComposer] at hcontent
  have hall := hopens.trans hadds
  have htext : inner.text =
      session.assembly.composer.pending ++ forest.flat session.store := by
    rw [hall.text_eq, text_restart, String.empty_append]
    rfl
  have hvacant : inner.IsVacant ↔
      session.assembly.composer.pending ++ forest.flat session.store = "" ∧
        forest.isMarked = false := by
    rw [hall.isVacant_iff, isVacant_restart, String.empty_append,
      String.append_eq_empty_iff, and_assoc]
    rfl
  obtain ⟨reported', calls, hstop, hwrites⟩ :=
    feed_stop_block (session.withComposer inner reported) hagree hstate rfl
      hinner hname helement hkind htext hvacant
  refine ⟨outer, reported', calls, ?_, houter, hwrites⟩
  rw [feedAll_cons, hstart, Outcome.andThen_ok, feedAll_append, hcontent,
    Outcome.andThen_ok, feedAll_cons, hstop]
  rfl

/-- Where nothing waits, a block is written with the flattened content of its
element, and leaves nothing behind. -/
theorem feedAll_block_flat (hagree : session.InStep)
    (hstate : session.state = .opened)
    (htable : session.assembly.table = none)
    (hpending : session.assembly.composer.pending = "") {name : String}
    {kind : BlockKind} (hname : Text.lower name ≠ session.root)
    (helement : Element.ofName name = .block kind)
    (hkind : kind ≠ .pageBreak) (own : OwnAttributes) {forest : Forest}
    (hinline : forest.Inline session.root) :
    ∃ reported calls,
      session.feedAll (.start name own :: (forest.events ++ [.stop name])) =
          ⟨{ session with
              assembly :=
                ⟨{ entries := session.assembly.composer.entries }, none⟩
              diagnostics := reported
              renderer := performAll session.renderer calls }, none⟩ ∧
        WritesContents kind (forest.flat session.store) forest.isMarked
          calls := by
  obtain ⟨outer, reported, calls, hfeed, houter, hwrites⟩ :=
    feedAll_block session hagree hstate htable hname helement hkind own
      hinline
  rw [houter hpending] at hfeed
  rw [hpending, String.empty_append] at hwrites
  exact ⟨reported, calls, hfeed, hwrites⟩

theorem feedAll_block_flat_nested :
    let session : Session Recorder :=
      { root := "root", store := .ofPairs [("who", "Ann")], state := .opened
        renderer := ⟨[.openDocument], true⟩ }
    let forest : Forest :=
      .text "Dear\n  " (.element "i" []
        (.element "value" [("id", "who")] (.text "?" .nil)
          (.element "break" [] .nil .nil)) .nil)
    session.InStep ∧ session.state = .opened ∧
      session.assembly.table = none ∧
      session.assembly.composer.pending = "" ∧
      Text.lower "Para" ≠ session.root ∧
      Element.ofName "Para" = .block .paragraph ∧
      forest.Inline session.root ∧
      forest.flat session.store = "DearAnn?\n" ∧
      ∃ reported calls,
        session.feedAll
              (.start "Para" [] :: (forest.events ++ [.stop "Para"])) =
            ⟨{ session with
                assembly :=
                  ⟨{ entries := session.assembly.composer.entries }, none⟩
                diagnostics := reported
                renderer := performAll session.renderer calls }, none⟩ ∧
          WritesContents .paragraph (forest.flat session.store)
            forest.isMarked calls := by
  intro session forest
  have hagree : session.InStep := iff_of_true rfl rfl
  have hname : Text.lower "Para" ≠ session.root := by decide +kernel
  have helement : Element.ofName "Para" = .block .paragraph := by
    decide +kernel
  have hinline : forest.Inline session.root := by
    refine ⟨⟨?_, ?_⟩, ⟨⟨?_, ?_⟩, trivial, ⟨?_, ?_⟩, trivial, trivial⟩, trivial⟩
    all_goals decide +kernel
  exact ⟨hagree, rfl, rfl, rfl, hname, helement, hinline,
    by decide +kernel,
    feedAll_block_flat session hagree rfl rfl rfl hname helement (by decide)
      [] hinline⟩

end Session

end DocTemplate
