import DocTemplate.Proofs.Composing
import DocTemplate.Proofs.Structure

/-!
# Depth

A session keeps an entry for each open element that text can stand in.  Which
elements those are is decided twice, when one starts and when one ends, and
the two have to agree in every nesting.  This file shows that they do: the
entries are as many as the open elements of this kind, a table is in the
making exactly as long as its element is open, and it holds no chunks.
-/

namespace DocTemplate

open Markup Renderer

/-! ## Elements with an entry -/

/-- Whether an element has an entry while it is open. -/
def Element.hasEntry : Element → Bool
  | .block kind => kind != .pageBreak
  | .value | .space | .lineBreak | .generic => true
  | .page | .rule | .image | .table | .cell => false

/-- The names, in small letters, of the elements without an entry. -/
def namesWithoutEntry : List String :=
  ["page", "hrule", "img", "pagebreak", "table", "cell"]

theorem BlockKind.eq_of_ofName? {name : String} {kind : BlockKind}
    (h : ofName? name = some kind) : kind.name = Text.lower name := by
  simpa using List.find?_some h

theorem Element.hasEntry_ofName (name : String) :
    (ofName name).hasEntry = true ↔ Text.lower name ∉ namesWithoutEntry := by
  unfold ofName ofLowerName
  split
  case h_1 hname | h_2 hname | h_3 hname | h_4 hname | h_5 hname
      | h_6 hname | h_7 hname | h_8 hname =>
    rw [hname]
    decide
  case h_9 hpage hrule himage htable hcell _ _ _ =>
    have hother : Text.lower name ∉ namesWithoutEntry ↔
        Text.lower name ≠ "pagebreak" := by
      constructor
      · intro hnot hname
        apply hnot
        rw [hname]
        decide
      · intro hname hmem
        simp only [namesWithoutEntry, List.mem_cons, List.not_mem_nil,
          or_false] at hmem
        rcases hmem with h | h | h | h | h | h
        · exact hpage h
        · exact hrule h
        · exact himage h
        · exact hname h
        · exact htable h
        · exact hcell h
    rw [hother]
    cases hkind : BlockKind.ofName? (Text.lower name) with
    | some kind =>
        have hname := BlockKind.eq_of_ofName? hkind
        rw [Text.lower_lower] at hname
        rw [← hname]
        cases kind <;> decide
    | none =>
        refine iff_of_true rfl fun hname => ?_
        rw [hname] at hkind
        revert hkind
        decide +kernel

/-- Whether an open element other than the root has an entry. -/
def HasEntry (root name : String) : Prop :=
  Text.lower name ≠ root ∧ Text.lower name ∉ namesWithoutEntry

instance (root name : String) : Decidable (HasEntry root name) :=
  inferInstanceAs (Decidable (_ ∧ _))

/-! ## Entries -/

namespace Composer

variable (composer : Composer)

theorem depth_modifyTop (change : Chunk → Chunk) :
    (composer.modifyTop change).depth = composer.depth := by
  simp [depth, modifyTop]

theorem depth_enter (own : OwnAttributes) :
    (composer.enter own).depth = composer.depth + 1 := by
  unfold enter depth
  split
  · rename_i hentries
    simp [hentries]
  · rename_i hentries
    dsimp only
    split <;> simp [hentries]

theorem depth_leave (force : Bool) :
    (composer.leave force).1.depth = composer.depth - 1 := by
  unfold leave depth
  split
  · rename_i hentries
    simp [hentries]
  · rename_i hentries
    split <;> simp [hentries]

theorem depth_discard : composer.discard.1.depth = composer.depth - 1 := by
  unfold discard depth
  split
  · rename_i hentries
    simp [hentries]
  · rename_i hentries
    simp [hentries]

end Composer

namespace Assembly

theorem depth_openValue (store : DataStore) (composer : Composer)
    (own : OwnAttributes) :
    (openValue store composer own).1.depth = composer.depth + 1 := by
  unfold openValue
  dsimp only
  split
  · rw [Composer.depth_modifyTop, Composer.depth_enter]
  · rename_i text htext
    have hfilled : (((composer.enter own).modifyTop fun entry =>
        { entry with isPlaceholder := true }).addLiteral text).depth =
          composer.depth + 1 := by
      change ((composer.enter own).modifyTop _).depth = _
      rw [Composer.depth_modifyTop, Composer.depth_enter]
    split
    · rw [Composer.depth_modifyTop, hfilled]
    · exact hfilled

theorem depth_openSpace (composer : Composer) (own : OwnAttributes) :
    (openSpace composer own).1.depth = composer.depth + 1 := by
  unfold openSpace
  dsimp only
  split <;> exact composer.depth_enter own

theorem depth_stopEntry (composer : Composer) (element : Element) :
    (stopEntry composer element).1.depth = composer.depth - 1 := by
  have hleave := composer.depth_leave element.leavesChunk
  unfold stopEntry
  split
  · rename_i left carrier kind hleft
    rw [hleft] at hleave
    exact hleave
  · rename_i left carrier hleft
    rw [hleft] at hleave
    exact hleave

/-- An element that starts gets its entry on top, if it has one. -/
theorem depth_startOutside {store : DataStore} {composer : Composer}
    {element : Element} {own : OwnAttributes} {started : Assembly}
    {requests : List Request}
    (h : startOutside store composer element own = .ok (started, requests)) :
    started.composer.depth =
      composer.depth + if element.hasEntry then 1 else 0 := by
  cases element with
  | block kind =>
      cases kind with
      | pageBreak => cases h; rfl
      | title | chapter | sectionHeading | paragraph =>
          cases h
          exact composer.depth_enter own
  | page | rule | image | table => cases h; rfl
  | cell => cases h
  | value =>
      cases h
      exact depth_openValue store composer own
  | space =>
      cases h
      exact depth_openSpace composer own
  | lineBreak | generic =>
      cases h
      exact composer.depth_enter own

theorem depth_start {store : DataStore} {assembly next : Assembly}
    {element : Element} {own : OwnAttributes} {requests : List Request}
    (h : assembly.start store element own = (next, .ok requests)) :
    next.composer.depth =
      assembly.composer.depth + if element.hasEntry then 1 else 0 := by
  unfold start at h
  dsimp only at h
  split at h
  · split at h
    · rename_i hcell
      cases h
      subst hcell
      rfl
    · cases h
  · split at h
    · rename_i started asked hstarted
      cases h
      rw [depth_startOutside hstarted]
      split <;> rfl
    · cases h

/-- An element that ends takes an entry with it, if it has one. -/
theorem depth_stop (assembly : Assembly) (element : Element) :
    (assembly.stop element).1.composer.depth =
      assembly.composer.depth - if element.hasEntry then 1 else 0 := by
  cases element with
  | block kind =>
      cases kind with
      | pageBreak => rfl
      | title | chapter | sectionHeading | paragraph =>
          exact depth_stopEntry assembly.composer _
  | page | rule | image | table => rfl
  | cell =>
      cases htable : assembly.table with
      | none | some table =>
          simp only [stop, htable]
          rfl
  | lineBreak =>
      exact Composer.depth_discard (assembly.composer.addLiteral "\n")
  | value | space | generic => exact depth_stopEntry assembly.composer _

/-! ## Chunks beside a table -/

/-- A table starts without chunks, and its cells leave none. -/
theorem chunks_start {store : DataStore} {assembly next : Assembly}
    {element : Element} {own : OwnAttributes} {requests : List Request}
    (hclear : assembly.table.isSome = true → assembly.composer.chunks = [])
    (h : assembly.start store element own = (next, .ok requests))
    (hnext : next.table.isSome = true) : next.composer.chunks = [] := by
  unfold start at h
  dsimp only at h
  split at h
  · rename_i table htable
    split at h
    · rename_i hcell
      cases h
      subst hcell
      exact hclear (by rw [htable]; rfl)
    · cases h
  · split at h
    · rename_i started asked hstarted
      cases h
      obtain rfl := (startOutside_ok hstarted).2.mp hnext
      cases hstarted
      rfl
    · cases h

theorem chunks_stop (assembly : Assembly) {element : Element}
    (hentry : element.hasEntry = false) :
    (assembly.stop element).1.composer.chunks = assembly.composer.chunks := by
  cases element with
  | block kind =>
      cases kind with
      | pageBreak => rfl
      | title | chapter | sectionHeading | paragraph => cases hentry
  | page | rule | image | table => rfl
  | cell =>
      cases htable : assembly.table with
      | none => simp only [stop, htable]
      | some table =>
          simp only [stop, htable]
          rfl
  | lineBreak | value | space | generic => cases hentry

end Assembly

/-! ## The entries of a session -/

/-- Whether the innermost open elements are a table and cells inside it. -/
def TableOnTop (root : String) (names : List String) : Prop :=
  ∃ cells table rest, names = cells ++ table :: rest ∧
    (∀ name ∈ cells, IsCell root name) ∧ IsTable root table

theorem TableOnTop.innermost {root name : String} {outer : List String}
    (h : TableOnTop root (name :: outer)) :
    IsTable root name ∨ IsCell root name ∧ TableOnTop root outer := by
  obtain ⟨cells, table, rest, hnames, hcells, htable⟩ := h
  cases cells with
  | nil =>
      obtain ⟨rfl, rfl⟩ := List.cons.inj hnames
      exact .inl htable
  | cons first others =>
      obtain ⟨rfl, rfl⟩ := List.cons.inj hnames
      rw [List.forall_mem_cons] at hcells
      exact .inr ⟨hcells.1, others, table, rest, rfl, hcells.2, htable⟩

theorem TableOnTop.cons {root name : String} {names : List String}
    (hname : IsCell root name) (h : TableOnTop root names) :
    TableOnTop root (name :: names) := by
  obtain ⟨cells, table, rest, rfl, hcells, htable⟩ := h
  exact ⟨name :: cells, table, rest, rfl,
    List.forall_mem_cons.mpr ⟨hname, hcells⟩, htable⟩

theorem not_tableOnTop_nil (root : String) : ¬TableOnTop root [] := by
  rintro ⟨cells, table, rest, hnames, -⟩
  cases cells <;> cases hnames

theorem Markup.Event.Fits.eq_cons {name : String} {names : List String}
    (h : (Event.stop name).Fits names) : ∃ outer, names = name :: outer :=
  List.head?_eq_some_iff.mp h

/-- The entries and the table of a session tell what is open in it. -/
structure Stacks {σ : Type} [Renderer σ] (root : String)
    (before : List Event) (session : Session σ) : Prop where
  tracks : Tracks root before session
  depth_eq : session.assembly.composer.depth =
    (openNames before).countP fun name => HasEntry root name
  onTop : session.assembly.table.isSome = true →
    TableOnTop root (openNames before)
  chunks_eq : session.assembly.table.isSome = true →
    session.assembly.composer.chunks = []

theorem hasEntry_iff {root name : String} (hname : Text.lower name ≠ root) :
    HasEntry root name ↔ (Element.ofName name).hasEntry = true := by
  rw [Element.hasEntry_ofName]
  exact and_iff_right hname

theorem Stacks.begin {σ : Type} [Renderer σ] {renderer : σ}
    (hclosed : isOpen renderer = false) (root : String)
    (store : DataStore) :
    Stacks (Text.lower root) [] (Session.begin root store renderer) where
  tracks := .begin hclosed root store
  depth_eq := rfl
  onTop hopen := by cases hopen
  chunks_eq hopen := by cases hopen

section Accepting

variable {σ : Type} [Renderer σ] [AcceptingRenderer σ] {root : String}
  {before : List Event} {session : Session σ}

omit [AcceptingRenderer σ] in
/-- An element that starts in the document gets an entry if it is one that has
entries, and inside a table it is a cell. -/
theorem Stacks.starts (h : Stacks root before session) {name : String}
    {own : OwnAttributes} {assembly : Assembly} {requests : List Request}
    (hname : Text.lower name ≠ session.root)
    (hstart : session.assembly.start session.store (.ofName name) own =
      (assembly, .ok requests))
    (htracks : Tracks root (before ++ [.start name own])
      ({ session with assembly }.meet requests)) :
    Stacks root (before ++ [.start name own])
      ({ session with assembly }.meet requests) := by
  obtain ⟨hbefore, hdepth, honTop, hchunks⟩ := h
  obtain rfl := hbefore.root_eq
  refine ⟨htracks, ?_, fun hopen => ?_, Assembly.chunks_start hchunks hstart⟩
  · rw [openNames_append_singleton, Event.nest, List.countP_cons]
    change assembly.composer.depth = _
    simp only [Assembly.depth_start hstart, hdepth, hasEntry_iff hname,
      decide_eq_true_eq]
  · obtain ⟨hcell, hnext⟩ := Assembly.start_ok hstart
    rw [openNames_append_singleton, Event.nest]
    rcases hnext.mp hopen with hname' | hname'
    · exact .cons ⟨hname, hname'⟩ (honTop (hcell.mpr hname'))
    · exact ⟨[], name, _, rfl, List.forall_mem_nil _, hname, hname'⟩

omit [AcceptingRenderer σ] in
/-- An element that ends in the document takes its entry with it, and behind a
cell the table is the innermost again. -/
theorem Stacks.stops (h : Stacks root before session) {name : String}
    {assembly : Assembly} {requests : List Request}
    (hfits : (Event.stop name).Fits (openNames before))
    (hname : Text.lower name ≠ session.root)
    (hstop : session.assembly.stop (.ofName name) = (assembly, requests))
    (htracks : Tracks root (before ++ [.stop name])
      ({ session with assembly }.meet requests)) :
    Stacks root (before ++ [.stop name])
      ({ session with assembly }.meet requests) := by
  obtain ⟨hbefore, hdepth, honTop, hchunks⟩ := h
  obtain rfl := hbefore.root_eq
  obtain ⟨outer, hnames⟩ := hfits.eq_cons
  have hafter : openNames (before ++ [.stop name]) = outer := by
    rw [openNames_append_singleton, hnames]
    rfl
  have hdepth' := session.assembly.depth_stop (.ofName name)
  have htable' := session.assembly.stop_table (.ofName name)
  rw [hstop] at hdepth' htable'
  rw [hnames] at hdepth honTop
  refine ⟨htracks, ?_, fun hopen => ?_, fun hopen => ?_⟩
  · rw [hafter]
    change assembly.composer.depth = _
    rw [hdepth', hdepth, List.countP_cons]
    simp only [hasEntry_iff hname, decide_eq_true_eq]
    omega
  · obtain ⟨hsome, hother⟩ := htable'.mp hopen
    rw [hafter]
    rcases (honTop hsome).innermost with htable | ⟨-, houter⟩
    · exact absurd htable.2 hother
    · exact houter
  · obtain ⟨hsome, hother⟩ := htable'.mp hopen
    have hentry : (Element.ofName name).hasEntry = false := by
      rcases (honTop hsome).innermost with htable | ⟨hcell, -⟩
      · exact absurd htable.2 hother
      · rw [hcell.2]
        rfl
    have hsame := session.assembly.chunks_stop hentry
    rw [hstop] at hsame
    exact hsame.trans (hchunks hsome)

theorem Stacks.feed (h : Stacks root before session) {event : Event}
    (hfits : event.Fits (openNames before))
    (hok : (session.feed event).failure? = none) :
    Stacks root (before ++ [event]) (session.feed event).state := by
  have htracks := h.tracks.feed hfits hok
  have hstep := Session.step_feed h.tracks.inStep event
  generalize session.feed event = outcome at hstep htracks hok
  cases hstep with
  | @opens name own hname hstate =>
      obtain ⟨hbefore, hdepth, honTop, hchunks⟩ := h
      obtain rfl := hbefore.root_eq
      have hnames := hbefore.outside (by simp [hstate])
      refine ⟨htracks, ?_, fun hopen => ?_, hchunks⟩
      · rw [openNames_append_singleton, Event.nest, List.countP_cons]
        simpa [HasEntry, hname] using hdepth
      · exact absurd (hnames ▸ honTop hopen) (not_tableOnTop_nil _)
  | repeats | early | late | misplaces => simp [Outcome.fail] at hok
  | starts hname hstate hstart => exact h.starts hname hstart htracks
  | passes hstate =>
      -- Outside the document nothing is open that could end.
      rw [h.tracks.outside hstate] at hfits
      cases hfits
  | @closes name hname hstate =>
      obtain ⟨hbefore, hdepth, honTop, hchunks⟩ := h
      obtain rfl := hbefore.root_eq
      obtain ⟨outer, hnames⟩ := hfits.eq_cons
      have houter : outer = [] := by
        have houtside := htracks.outside (by simp)
        rwa [openNames_append_singleton, hnames] at houtside
      subst houter
      refine ⟨htracks, ?_, fun hopen => ?_, hchunks⟩
      · rw [openNames_append_singleton, hnames]
        rw [hnames] at hdepth
        simpa [HasEntry, hname, Event.nest] using hdepth
      · rcases (hnames ▸ honTop hopen).innermost with htable | ⟨hcell, -⟩
        · exact absurd hname htable.1
        · exact absurd hname hcell.1
  | stops hname hstate hstop => exact h.stops hfits hname hstop htracks
  | writes hstate | ignores hstate =>
      obtain ⟨-, hdepth, honTop, hchunks⟩ := h
      refine ⟨htracks, ?_, ?_, hchunks⟩
      · rwa [openNames_append_singleton]
      · rwa [openNames_append_singleton]

theorem Stacks.feedAll {rest : List Event}
    (h : Stacks root before session) (hnested : Nested (openNames before) rest)
    (hok : (session.feedAll rest).failure? = none) :
    Stacks root (before ++ rest) (session.feedAll rest).state := by
  induction rest generalizing before session with
  | nil => rwa [List.append_nil]
  | cons event rest ih =>
      rw [Session.feedAll_cons] at hok ⊢
      cases hfeed : (session.feed event).failure? with
      | some error =>
          rw [Outcome.andThen_of_fail hfeed, hfeed] at hok
          cases hok
      | none =>
          rw [Outcome.andThen_of_ok hfeed] at hok ⊢
          rw [List.append_cons]
          refine ih (h.feed hnested.1 hfeed) ?_ hok
          rw [openNames_append_singleton]
          exact hnested.2

end Accepting

/-- A compilation that succeeds takes all events and closes the document. -/
theorem Compiled.closed_of_ok {σ : Type}
    {outcome : Outcome CompileError (Session σ)}
    {markupError : Option MarkupError} {diagnostics : List Diagnostic}
    (h : (ofOutcome outcome markupError).result = .ok diagnostics) :
    outcome.failure? = none ∧ outcome.state.state = .closed := by
  simp only [ofOutcome] at h
  split at h
  · cases h
  · cases h
  · rename_i hok
    refine ⟨hok, ?_⟩
    simp only [Session.finish] at h
    split at h
    · assumption
    · cases h
    · cases h

theorem Compiled.result_ok_iff {σ : Type}
    {outcome : Outcome CompileError (Session σ)}
    {markupError : Option MarkupError} {diagnostics : List Diagnostic} :
    (ofOutcome outcome markupError).result = .ok diagnostics ↔
      outcome.failure? = none ∧ markupError = none ∧
        outcome.state.state = .closed ∧
        outcome.state.diagnostics = diagnostics := by
  simp only [ofOutcome, Session.finish]
  cases outcome.failure? with
  | some error => simp
  | none =>
      cases markupError with
      | some error => simp
      | none => cases outcome.state.state <;> simp

/-- Behind nested events that a session has taken on a renderer that accepts
everything, it has an entry for each open element that has one, a table in the
making exactly if a table is open, and then no chunks.  Behind a template that
compiles nothing of this is left. -/
theorem depth_eq_open_elements {σ : Type} [Renderer σ] [AcceptingRenderer σ]
    {renderer : σ} (hclosed : isOpen renderer = false) (root : String)
    (store : DataStore) :
    (∀ events, Nested [] events →
      let outcome := (Session.begin root store renderer).feedAll events
      let assembly := outcome.state.assembly
      outcome.failure? = none →
        assembly.composer.depth = (openNames events).countP
            (fun name => HasEntry (Text.lower root) name) ∧
          (assembly.table.isSome = true ↔
            InTable (Text.lower root) events) ∧
          (assembly.table.isSome = true → assembly.composer.chunks = [])) ∧
    ∀ template diagnostics,
      (compile template store renderer root).result = .ok diagnostics →
      let assembly := ((Session.begin root store renderer).feedAll
        (Markup.read template).1).state.assembly
      assembly.composer.depth = 0 ∧ assembly.table = none := by
  have hbegin := Stacks.begin hclosed root store
  constructor
  · intro events hnested outcome assembly hok
    have hstacks := hbegin.feedAll hnested hok
    exact ⟨hstacks.depth_eq, hstacks.tracks.inTable_iff.symm,
      hstacks.chunks_eq⟩
  · intro template diagnostics hcompiled assembly
    let events := (Markup.read template).1
    obtain ⟨hok, hstate⟩ :
        ((Session.begin root store renderer).feedAll events).failure? = none ∧
          ((Session.begin root store renderer).feedAll events).state.state =
            .closed := Compiled.closed_of_ok hcompiled
    have hstacks : Stacks (Text.lower root) events
        ((Session.begin root store renderer).feedAll events).state :=
      hbegin.feedAll (nested_read template) hok
    have hnames : openNames events = [] :=
      hstacks.tracks.outside (by simp [events, hstate])
    constructor
    · have hdepth := hstacks.depth_eq
      rwa [hnames] at hdepth
    · have hnone : ¬InTable (Text.lower root) events := by
        simp [InTable, hnames]
      rw [hstacks.tracks.inTable_iff] at hnone
      exact Option.not_isSome_iff_eq_none.mp hnone

theorem depth_eq_open_elements_break :
    let events : List Event :=
      [.start "TextPDF" [], .start "para" [], .start "break" [], .stop "break",
        .start "b" []]
    let outcome :=
      (Session.begin "textpdf" .empty ({} : Recorder)).feedAll events
    isOpen ({} : Recorder) = false ∧ Nested [] events ∧
      outcome.failure? = none ∧ outcome.state.assembly.composer.depth = 2 := by
  intro events outcome
  have hnested : Nested [] events :=
    ⟨trivial, trivial, trivial, rfl, trivial, trivial⟩
  have hok : outcome.failure? = none := by decide +kernel
  obtain ⟨hdepth, -⟩ :=
    (depth_eq_open_elements rfl "textpdf" .empty).1 events hnested hok
  refine ⟨rfl, hnested, hok, hdepth.trans ?_⟩
  decide +kernel

end DocTemplate
