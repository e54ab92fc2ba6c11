import DocTemplate.Proofs.Depth
import DocTemplate.Proofs.Reaction

/-!
# Inherited attributes

The attributes in force for a piece of text are those of the elements open
around it, the inner ones over the outer ones.  A session never computes them
so: an entry is copied from the one below it, a placeholder changes its entry
after the fact, and a text is given to whichever entry is on top when it is
flushed.  This file keeps the history of the open elements and of the flushed
texts beside the session and shows that it tells every entry and every chunk.
-/

namespace DocTemplate

open Markup Renderer

/-! ## Paths -/

/-- An element with an entry, as it was started. -/
structure Opening where
  element : Element
  own : OwnAttributes

namespace Opening

/-- Whether there is a text for a placeholder with these attributes. -/
def resolves (store : DataStore) (own : OwnAttributes) : Bool :=
  match own.lookup "id" with
  | none => false
  | some id =>
      match store.resolve id with
      | .value _ => true
      | _ => false

/-- What the element lays over the attributes around it.  A placeholder with a
text is emphasised, unless it has a font style of its own. -/
def contribution (store : DataStore) (opening : Opening) : OwnAttributes :=
  if opening.element = .value ∧ resolves store opening.own = true ∧
      opening.own.lookup "font-style" = none then
    opening.own ++ [("font-style", "bold,underline")]
  else
    opening.own

end Opening

/-- The attributes in force inside some open elements, the innermost first:
what they contribute is merged from the outermost to the innermost, and of
each key the last value counts. -/
def inherited (store : DataStore) (path : List Opening) : Attributes :=
  .ofList (path.reverse.flatMap (Opening.contribution store))

theorem inherited_cons (store : DataStore) (opening : Opening)
    (outer : List Opening) :
    inherited store (opening :: outer) =
      (inherited store outer).insertAll (opening.contribution store) := by
  simp [inherited, Dictionary.ofList, Dictionary.insertAll,
    List.flatMap_append, List.foldl_append]

/-- A key has the value that the innermost element with it gives, and of one
element the last. -/
theorem get?_inherited (store : DataStore) (path : List Opening)
    (key : String) :
    (inherited store path).get? key =
      path.findSome? fun opening =>
        (opening.contribution store).reverse.lookup key := by
  induction path with
  | nil => rfl
  | cons opening outer ih =>
      rw [inherited_cons, Dictionary.get?_insertAll, ih, List.findSome?_cons]
      cases (opening.contribution store).reverse.lookup key <;> rfl

/-- The chunk of a text that is flushed inside some open elements. -/
def chunkOn (store : DataStore) (path : List Opening) (text : String) :
    Chunk where
  contents := text
  attributes := inherited store path
  isPlaceholder := path.head?.any fun opening => opening.element == .value

/-- Entries that are those of some open elements. -/
def Carries (store : DataStore) : List Opening → List Chunk → Prop
  | [], [] => True
  | opening :: outer, entry :: below =>
      entry.attributes = inherited store (opening :: outer) ∧
        (entry.isPlaceholder = true ↔ opening.element = .value) ∧
        Carries store outer below
  | _, _ => False

theorem Carries.push {store : DataStore} {path : List Opening}
    {below : List Chunk} (h : Carries store path below) {opening : Opening}
    {entry : Chunk}
    (hattributes : entry.attributes =
      (inherited store path).insertAll (opening.contribution store))
    (hplaceholder : entry.isPlaceholder = true ↔ opening.element = .value) :
    Carries store (opening :: path) (entry :: below) :=
  ⟨hattributes.trans (inherited_cons store opening path).symm, hplaceholder, h⟩

theorem Carries.fill_eq {store : DataStore} {opening : Opening}
    {outer : List Opening} {entry : Chunk} {below : List Chunk}
    (h : Carries store (opening :: outer) (entry :: below)) (text : String) :
    { entry with contents := text } =
      chunkOn store (opening :: outer) text := by
  obtain ⟨hattributes, hplaceholder, -⟩ := h
  have hsame : entry.isPlaceholder = (opening.element == .value) := by
    rw [Bool.eq_iff_iff, hplaceholder, beq_iff_eq]
  simp only [chunkOn, hattributes, hsame, List.head?_cons, Option.any_some]

theorem Carries.eq_nil {store : DataStore} {path : List Opening}
    (h : Carries store path []) : path = [] := by
  cases path with
  | nil => rfl
  | cons opening outer => exact h.elim

theorem Carries.exists_cons {store : DataStore} {path : List Opening}
    {entry : Chunk} {below : List Chunk}
    (h : Carries store path (entry :: below)) :
    ∃ opening outer, path = opening :: outer := by
  cases path with
  | nil => exact h.elim
  | cons opening outer => exact ⟨opening, outer, rfl⟩

/-! ## Histories -/

/-- A text that was given to the entry of the innermost of some open elements
and became a chunk. -/
structure Flush where
  path : List Opening
  text : String

def Flush.chunk (store : DataStore) (flush : Flush) : Chunk :=
  chunkOn store flush.path flush.text

/-- The elements that are open and have an entry, the innermost first, and all
texts that have been flushed. -/
structure History where
  path : List Opening := []
  flushes : List Flush := []

namespace History

/-- Waiting text goes to the innermost element, if there is one.  With `force`
even the empty text does. -/
def flush (history : History) (force : Bool) (text : String) : History :=
  if !history.path.isEmpty && (force || !text.isEmpty) then
    { history with flushes := history.flushes ++ [⟨history.path, text⟩] }
  else
    history

def push (history : History) (opening : Opening) : History :=
  { history with path := opening :: history.path }

def pop (history : History) : History :=
  { history with path := history.path.tail }

/-- The history behind the start of an element. -/
def start (history : History) (assembly : Assembly) (element : Element)
    (own : OwnAttributes) : History :=
  if assembly.table = none ∧ element.hasEntry = true then
    (history.flush false assembly.composer.pending).push ⟨element, own⟩
  else
    history

/-- The history behind the end of an element.  The end of a line break flushes
nothing. -/
def stop (history : History) (assembly : Assembly) (element : Element) :
    History :=
  match element with
  | .lineBreak => history.pop
  | _ =>
      if element.hasEntry then
        (history.flush element.leavesChunk assembly.composer.pending).pop
      else
        history

end History

@[simp] theorem History.path_flush (history : History) (force : Bool)
    (text : String) : (history.flush force text).path = history.path := by
  unfold flush
  split <;> rfl

/-- Chunks that are the last flushed texts, each with the style of its path. -/
def Gathers (store : DataStore) (flushes : List Flush) (chunks : List Chunk) :
    Prop :=
  ∃ newest, newest <:+ flushes ∧ chunks = newest.map (Flush.chunk store)

theorem Gathers.nil (store : DataStore) (flushes : List Flush) :
    Gathers store flushes [] :=
  ⟨[], List.nil_suffix, rfl⟩

theorem Gathers.append {store : DataStore} {flushes : List Flush}
    {chunks : List Chunk} (h : Gathers store flushes chunks) (flush : Flush) :
    Gathers store (flushes ++ [flush]) (chunks ++ [flush.chunk store]) := by
  obtain ⟨newest, hsuffix, rfl⟩ := h
  refine ⟨newest ++ [flush], ?_, by simp⟩
  obtain ⟨older, rfl⟩ := hsuffix
  exact ⟨older, by simp⟩

/-- A composer that holds what its history tells. -/
structure Follows (store : DataStore) (history : History)
    (composer : Composer) : Prop where
  carries : Carries store history.path composer.entries
  gathers : Gathers store history.flushes composer.chunks

variable {store : DataStore} {history : History} {composer : Composer}

namespace Follows

theorem restart (h : Follows store history composer) :
    Follows store history composer.restart :=
  ⟨h.carries, .nil store history.flushes⟩

/-- What is flushed into the top entry is the chunk of its path. -/
theorem flushInto (h : Follows store history composer) {entry : Chunk}
    {below : List Chunk} (hentries : composer.entries = entry :: below) :
    Gathers store (history.flushes ++ [⟨history.path, composer.pending⟩])
      (composer.flushInto entry).1.chunks := by
  obtain ⟨hcarries, hgathers⟩ := h
  rw [hentries] at hcarries
  obtain ⟨opening, outer, hpath⟩ := hcarries.exists_cons
  rw [hpath] at hcarries ⊢
  have hfilled := hcarries.fill_eq composer.pending
  have hchunks : (composer.flushInto entry).1.chunks =
      composer.chunks ++ [{ entry with contents := composer.pending }] := rfl
  rw [hchunks, hfilled]
  exact hgathers.append ⟨opening :: outer, composer.pending⟩

theorem enter (h : Follows store history composer) (own : OwnAttributes) :
    ∃ below, (composer.enter own).entries =
        Composer.entryWithin (inherited store history.path) own :: below ∧
      Carries store history.path below ∧
      Gathers store (history.flush false composer.pending).flushes
        (composer.enter own).chunks := by
  have hcarries := h.carries
  unfold Composer.enter
  cases hentries : composer.entries with
  | nil =>
      rw [hentries] at hcarries
      have hpath := hcarries.eq_nil
      refine ⟨[], by simp [hpath]; rfl, by rw [hpath]; trivial, ?_⟩
      simpa [History.flush, hpath] using h.gathers
  | cons parent outer =>
      have hflushed := h.flushInto hentries
      rw [hentries] at hcarries
      obtain ⟨opening, path, hpath⟩ := hcarries.exists_cons
      rw [hpath] at hcarries hflushed ⊢
      have hparent : parent.attributes = inherited store (opening :: path) :=
        hcarries.1
      dsimp only
      rw [hparent]
      split
      · rename_i hpending
        refine ⟨parent :: outer, rfl, hcarries, ?_⟩
        simpa [History.flush, hpath, hpending] using h.gathers
      · rename_i hpending
        refine ⟨_, rfl, hcarries, ?_⟩
        simpa [History.flush, hpath, hpending] using hflushed

theorem leave (h : Follows store history composer) (force : Bool) :
    Follows store (history.flush force composer.pending).pop
        (composer.leave force).1 ∧
      ∀ carrier, (composer.leave force).2 = some carrier → ∀ text,
        { carrier with contents := text } =
          chunkOn store history.path text := by
  have hcarries := h.carries
  unfold Composer.leave
  cases hentries : composer.entries with
  | nil =>
      rw [hentries] at hcarries
      have hpath := hcarries.eq_nil
      have hsame : (history.flush force composer.pending).pop = history := by
        obtain ⟨path, flushes⟩ := history
        cases hpath
        rfl
      rw [hsame]
      exact ⟨h, nofun⟩
  | cons entry below =>
      have hflushed := h.flushInto hentries
      rw [hentries] at hcarries
      obtain ⟨opening, outer, hpath⟩ := hcarries.exists_cons
      rw [hpath] at hcarries hflushed ⊢
      have hbelow : Carries store outer below := hcarries.2.2
      dsimp only
      split
      · rename_i hpending
        have hflush : (history.flush force composer.pending).pop =
            ⟨outer, history.flushes ++
              [⟨opening :: outer, composer.pending⟩]⟩ := by
          simp [History.flush, History.pop, hpath, hpending]
        rw [hflush]
        refine ⟨⟨hbelow, hflushed⟩, ?_⟩
        intro carrier hcarrier text
        obtain rfl := Option.some.inj hcarrier
        exact hcarries.fill_eq text
      · rename_i hpending
        have hflush : (history.flush force composer.pending).pop =
            ⟨outer, history.flushes⟩ := by
          simp [History.flush, History.pop, hpath, hpending]
        rw [hflush]
        refine ⟨⟨hbelow, h.gathers⟩, ?_⟩
        intro carrier hcarrier text
        obtain rfl := Option.some.inj hcarrier
        exact hcarries.fill_eq text

theorem discard (h : Follows store history composer) :
    Follows store history.pop composer.discard.1 := by
  obtain ⟨hcarries, hgathers⟩ := h
  refine ⟨?_, ?_⟩
  · unfold Composer.discard History.pop
    cases hentries : composer.entries with
    | nil =>
        rw [hentries] at hcarries
        simp only [hcarries.eq_nil, hentries]
        trivial
    | cons entry below =>
        rw [hentries] at hcarries
        obtain ⟨opening, outer, hpath⟩ := hcarries.exists_cons
        rw [hpath] at hcarries ⊢
        exact hcarries.2.2
  · have hchunks : composer.discard.1.chunks = composer.chunks := by
      unfold Composer.discard
      split <;> rfl
    rw [hchunks]
    exact hgathers

end Follows

/-! ## Starting and ending elements -/

theorem Opening.contribution_of_ne_value {opening : Opening}
    (h : opening.element ≠ .value) :
    opening.contribution store = opening.own :=
  if_neg fun hvalue => h hvalue.1

theorem Opening.resolves_eq (own : OwnAttributes) :
    resolves store own = (valueText store own).isOk := by
  unfold resolves valueText
  cases own.lookup "id" with
  | none => rfl
  | some id =>
      dsimp only
      cases store.resolve id <;> rfl

namespace Follows

/-- An element other than a placeholder gets an entry with its own attributes
over those of its path. -/
theorem enter_plain (h : Follows store history composer)
    {element : Element} (helement : element ≠ .value) (own : OwnAttributes) :
    Follows store
      ((history.flush false composer.pending).push ⟨element, own⟩)
      (composer.enter own) := by
  obtain ⟨below, hentries, hbelow, hgathers⟩ := h.enter own
  refine ⟨?_, hgathers⟩
  rw [hentries]
  have hown : Opening.contribution store ⟨element, own⟩ = own :=
    Opening.contribution_of_ne_value helement
  have hplain : ∀ outer : Attributes,
      (Composer.entryWithin outer own).isPlaceholder = true ↔
        element = .value := fun outer => iff_of_false (by nofun) helement
  rw [History.push, History.path_flush]
  exact hbelow.push (by rw [hown]; rfl) (hplain _)

/-- The entry of a placeholder is emphasised once its text is known. -/
theorem openValue (h : Follows store history composer) (own : OwnAttributes) :
    Follows store
      ((history.flush false composer.pending).push ⟨.value, own⟩)
      (Assembly.openValue store composer own).1 := by
  obtain ⟨below, hentries, hbelow, hgathers⟩ := h.enter own
  unfold Assembly.openValue
  dsimp only
  cases htext : valueText store own with
  | error problem =>
      have hunresolved : Opening.resolves store own = false := by
        rw [Opening.resolves_eq, htext]
        rfl
      refine ⟨?_, hgathers⟩
      rw [Composer.entries_modifyTop hentries, History.push, History.path_flush]
      refine hbelow.push ?_ (iff_of_true rfl rfl)
      simp [Opening.contribution, hunresolved, Composer.entryWithin]
  | ok text =>
      have hresolved : Opening.resolves store own = true := by
        rw [Opening.resolves_eq, htext]
        rfl
      have hfilled : (((composer.enter own).modifyTop fun entry =>
          { entry with isPlaceholder := true }).addLiteral text).entries =
            { Composer.entryWithin (inherited store history.path) own with
              isPlaceholder := true } :: below :=
        Composer.entries_modifyTop hentries _
      dsimp only
      split
      · rename_i hstyle
        rw [Option.isNone_iff_eq_none] at hstyle
        refine ⟨?_, hgathers⟩
        rw [Composer.entries_modifyTop hfilled, History.push,
          History.path_flush]
        refine hbelow.push ?_ (iff_of_true rfl rfl)
        simp [Opening.contribution, hresolved, hstyle, Composer.entryWithin,
          Chunk.setAttribute, valueEmphasis, Dictionary.insertAll]
      · rename_i hstyle
        rw [Option.isNone_iff_eq_none] at hstyle
        refine ⟨?_, hgathers⟩
        rw [hfilled, History.push, History.path_flush]
        refine hbelow.push ?_ (iff_of_true rfl rfl)
        simp [Opening.contribution, hstyle, Composer.entryWithin]

theorem openSpace (h : Follows store history composer) (own : OwnAttributes) :
    Follows store
      ((history.flush false composer.pending).push ⟨.space, own⟩)
      (Assembly.openSpace composer own).1 := by
  have hentered : Follows store
      ((history.flush false composer.pending).push ⟨.space, own⟩)
      (composer.enter own) := h.enter_plain (by decide) own
  unfold Assembly.openSpace
  dsimp only
  split
  · exact hentered
  · exact ⟨hentered.carries, hentered.gathers⟩

theorem startOutside (h : Follows store history composer)
    {element : Element} {own : OwnAttributes} {started : Assembly}
    {requests : List Request}
    (hstarted : Assembly.startOutside store composer element own =
      .ok (started, requests)) :
    Follows store
      (if element.hasEntry then
        (history.flush false composer.pending).push ⟨element, own⟩
      else history)
      started.composer := by
  cases element with
  | block kind =>
      cases kind with
      | pageBreak => cases hstarted; exact h
      | title | chapter | sectionHeading | paragraph =>
          cases hstarted
          exact h.enter_plain (by decide) own
  | page | rule | image | table => cases hstarted; exact h
  | cell => cases hstarted
  | value => cases hstarted; exact h.openValue own
  | space => cases hstarted; exact h.openSpace own
  | lineBreak | generic =>
      cases hstarted
      exact h.enter_plain (by decide) own

/-- What the start of an element does to the composer is what it does to the
history, be the element refused or not. -/
theorem start {assembly : Assembly}
    (h : Follows store history assembly.composer) (element : Element)
    (own : OwnAttributes) :
    Follows store (history.start assembly element own)
      (assembly.start store element own).1.composer := by
  unfold Assembly.start History.start
  dsimp only
  generalize hafresh : (if element.startsAfresh = true then
    assembly.composer.restart else assembly.composer) = composer
  have hfollows : Follows store history composer := by
    rw [← hafresh]
    split
    · exact h.restart
    · exact h
  have hpending : assembly.composer.pending = composer.pending := by
    rw [← hafresh]
    split <;> rfl
  rw [hpending]
  cases assembly.table with
  | some table =>
      have hclosed : ¬(some table = none ∧ element.hasEntry = true) := nofun
      rw [if_neg hclosed]
      dsimp only
      split
      · exact ⟨hfollows.carries, hfollows.gathers⟩
      · exact hfollows
  | none =>
      simp only [true_and]
      cases hstarted : Assembly.startOutside store composer element own with
      | ok started => exact hfollows.startOutside hstarted
      | error misplacement =>
          obtain ⟨rfl, -⟩ := Assembly.startOutside_error hstarted
          exact hfollows

/-- The end of an element with an entry takes the entry away. -/
theorem stopEntry (h : Follows store history composer) (element : Element) :
    Follows store (history.flush element.leavesChunk composer.pending).pop
      (Assembly.stopEntry composer element).1 := by
  obtain ⟨hleft, -⟩ := h.leave element.leavesChunk
  unfold Assembly.stopEntry
  split
  · rename_i left carrier kind hleave
    rw [hleave] at hleft
    exact hleft.restart
  · rename_i left carrier hleave
    rw [hleave] at hleft
    exact hleft

/-- The same for the end of an element. -/
theorem stop {assembly : Assembly}
    (h : Follows store history assembly.composer) (element : Element) :
    Follows store (history.stop assembly element)
      (assembly.stop element).1.composer := by
  have hcleared : Follows store history assembly.composer.clearPending :=
    ⟨h.carries, h.gathers⟩
  cases element with
  | block kind =>
      cases kind with
      | pageBreak => exact h
      | title | chapter | sectionHeading | paragraph => exact h.stopEntry _
  | page | rule | image => exact h
  | table => exact hcleared
  | cell =>
      unfold Assembly.stop
      cases assembly.table with
      | none => exact h
      | some table => exact hcleared
  | lineBreak =>
      have hadded : Follows store history
          (assembly.composer.addLiteral "\n") := ⟨h.carries, h.gathers⟩
      exact hadded.discard
  | value | space | generic => exact h.stopEntry _

end Follows

/-! ## Written blocks -/

/-- A block whose chunks are the last flushed texts, each with the style of
its path.  A paragraph without any has a blank in its own style. -/
def IsToldBy (store : DataStore) (before after : History) (block : Block) :
    Prop :=
  Gathers store after.flushes block.chunks ∨
    block.kind = .paragraph ∧
      block.chunks = [chunkOn store before.path " "]

theorem Follows.block_stopEntry (h : Follows store history composer)
    (element : Element) {block : Block}
    (hblock : .call (.block block) ∈
      (Assembly.stopEntry composer element).2) :
    IsToldBy store history
      (history.flush element.leavesChunk composer.pending).pop block := by
  obtain ⟨hleft, hcarrier⟩ := h.leave element.leavesChunk
  unfold Assembly.stopEntry at hblock
  split at hblock
  · rename_i left carrier kind hleave
    rw [hleave] at hleft hcarrier
    have hfinish : (left.finish kind (some carrier)).2 = some block := by
      simpa [Option.mem_toList] using hblock
    obtain ⟨hkind, hchunks⟩ := Composer.eq_of_finish hfinish
    rw [IsToldBy, hkind, hchunks]
    unfold Composer.finishedChunks
    split
    · rename_i hempty
      simp only [Bool.and_eq_true, beq_iff_eq] at hempty
      refine .inr ⟨hempty.2, ?_⟩
      exact congrArg (fun chunk => [chunk]) (hcarrier carrier rfl " ")
    · exact .inl hleft.gathers
  · simp at hblock

theorem Follows.block_stop {assembly : Assembly}
    (h : Follows store history assembly.composer) {element : Element}
    {block : Block}
    (hblock : .call (.block block) ∈ (assembly.stop element).2) :
    IsToldBy store history (history.stop assembly element) block := by
  rcases Assembly.call_stop (Request.mem_calls.mpr hblock) with
    hcase | ⟨_, hcase⟩ | ⟨written, hcase, rfl, hkind⟩
  · cases hcase
  · cases hcase
  · obtain rfl := RenderCall.block.inj hcase
    obtain ⟨kind, chunks⟩ := block
    cases kind with
    | pageBreak => exact absurd rfl hkind
    | title | chapter | sectionHeading | paragraph =>
        exact h.block_stopEntry _ hblock

namespace Session

variable {σ : Type} [Renderer σ]

/-- The history behind an event.  Only what reaches the open document counts,
whether or not it is refused there. -/
def recount (session : Session σ) (history : History) : Event → History
  | .start name own =>
      if Text.lower name ≠ session.root ∧ session.state = .opened ∧
          isOpen session.renderer = true then
        history.start session.assembly (.ofName name) own
      else
        history
  | .stop name =>
      if Text.lower name ≠ session.root ∧ session.state = .opened then
        history.stop session.assembly (.ofName name)
      else
        history
  | .text _ => history

/-- The history behind some events, taken one after the other, also behind
those that fail. -/
def recountAll (session : Session σ) (history : History) :
    List Event → History
  | [] => history
  | event :: rest =>
      (session.feed event).state.recountAll (session.recount history event)
        rest

/-- What an event does to the session is what it does to the history, and the
history tells the blocks that the event asks for. -/
theorem follows_reaction {session : Session σ}
    (h : Follows session.store history session.assembly.composer)
    (event : Event) :
    Follows session.store (session.recount history event)
        (session.reaction event).assembly.composer ∧
      ∀ block, .call (.block block) ∈ (session.reaction event).requests →
        IsToldBy session.store history (session.recount history event)
          block := by
  have hreacts := session.reacts event
  generalize session.reaction event = reaction at hreacts
  cases hreacts with
  | refuses error hout =>
      rw [recount, if_neg hout]
      exact ⟨h, nofun⟩
  | opens hroot hclosed =>
      rw [recount, if_neg fun hin => hin.1 hroot]
      exact ⟨h, by simp⟩
  | @misplaces name own assembly misplacement hin hstart =>
      have hfollows := h.start (.ofName name) own
      rw [hstart] at hfollows
      rw [recount, if_pos hin]
      exact ⟨hfollows, nofun⟩
  | @starts name own assembly requests hin hstart =>
      have hfollows := h.start (.ofName name) own
      rw [hstart] at hfollows
      rw [recount, if_pos hin]
      refine ⟨hfollows, fun block hblock => ?_⟩
      -- Blocks are written at the end of their elements, never at a start.
      rcases Assembly.call_start hstart (Request.mem_calls.mpr hblock) with
        hcase | ⟨-, _, -, hcase⟩
      · cases hcase
      · cases hcase
  | passes hstate =>
      rw [recount, if_neg fun hin => hstate hin.2]
      exact ⟨h, nofun⟩
  | closes hroot hstate =>
      rw [recount, if_neg fun hin => hin.1 hroot]
      exact ⟨h, by simp⟩
  | stops hroot hstate =>
      rw [recount, if_pos ⟨hroot, hstate⟩]
      exact ⟨h.stop (.ofName _), fun _ hblock => h.block_stop hblock⟩
  | writes text =>
      refine ⟨?_, nofun⟩
      change Follows session.store history
        (session.addText text).assembly.composer
      unfold addText
      split
      · exact ⟨h.carries, h.gathers⟩
      · exact h

theorem follows_feed {session : Session σ}
    (h : Follows session.store history session.assembly.composer)
    (event : Event) :
    Follows (session.feed event).state.store (session.recount history event)
      (session.feed event).state.assembly.composer := by
  rw [store_feed, assembly_feed]
  exact (follows_reaction h event).1

theorem follows_run {session : Session σ}
    (h : Follows session.store history session.assembly.composer)
    (events : List Event) :
    Follows (session.run events).store (session.recountAll history events)
      (session.run events).assembly.composer := by
  induction events generalizing session history with
  | nil => exact h
  | cons event rest ih => exact ih (follows_feed h event)

/-- After any run, on any renderer, every entry has the attributes of its path
of open elements, of each key the value that the innermost element with it
gives last, and is a placeholder exactly if its element is one.  Whatever
event comes next, the blocks that are written for it consist of flushed texts,
each in the style of the entry that was on top when it was flushed. -/
theorem chunks_inherit_path (root : String) (store : DataStore)
    (renderer : σ) (events : List Event) :
    let session := (begin root store renderer).run events
    let history := (begin root store renderer).recountAll {} events
    Carries store history.path session.assembly.composer.entries ∧
      (∀ path key, (inherited store path).get? key =
        path.findSome? fun opening =>
          (opening.contribution store).reverse.lookup key) ∧
      ∀ event,
        let requests := (session.reaction event).requests
        session.feed event =
            session.settle (session.reaction event)
              (session.delivery.takeAll requests) ∧
          ∀ block, .call (.block block) ∈ requests →
            IsToldBy store history (session.recount history event) block := by
  intro session history
  let fresh := begin root store renderer
  have hbegin : Follows fresh.store {} fresh.assembly.composer :=
    ⟨trivial, .nil store []⟩
  have hstore : session.store = store := fresh.store_run events
  have hrun : Follows session.store history session.assembly.composer :=
    follows_run hbegin events
  refine ⟨?_, get?_inherited store, ?_⟩
  · rw [← hstore]
    exact hrun.carries
  · intro event requests
    refine ⟨session.feed_eq_settle event, ?_⟩
    rw [← hstore]
    exact (follows_reaction hrun event).2

/-- A paragraph with a bold word. -/
theorem chunks_inherit_path_bold :
    let plainly := begin "textpdf" .empty ({} : Recorder)
    let events : List Event :=
      [.start "textpdf" [], .start "para" [("align", "left")], .text "a",
        .start "b" [("font-style", "bold"), ("align", "right")], .text "b",
        .stop "b"]
    let session := plainly.run events
    let history := plainly.recountAll {} events
    let written : Block :=
      ⟨.paragraph,
        [⟨"a", .ofList [("align", "left")], false⟩,
          ⟨"b", .ofList [("align", "right"), ("font-style", "bold")], false⟩]⟩
    .call (.block written) ∈ (session.reaction (.stop "para")).requests ∧
      IsToldBy .empty history (session.recount history (.stop "para"))
        written := by
  intro plainly events session history written
  have hwritten :
      .call (.block written) ∈ (session.reaction (.stop "para")).requests := by
    decide +kernel
  obtain ⟨-, -, hblocks⟩ :=
    chunks_inherit_path "textpdf" .empty ({} : Recorder) events
  exact ⟨hwritten, (hblocks (.stop "para")).2 written hwritten⟩

end Session
end DocTemplate
