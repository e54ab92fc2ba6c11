import DocTemplate.Proofs.Composing
import DocTemplate.Proofs.Course
import DocTemplate.Proofs.Nesting

/-!
# The structure of a document and its data

The text of a placeholder goes the way of all text: it waits, and what waits
decides whether a chunk is flushed.  Still it has no influence on anything but
the chunk of its own placeholder.  A placeholder opens by flushing the text
before it, leaves a chunk whether or not its text is empty, and nothing waits
behind it.  So two runs over stores that know the same ids have the same
outline: they are equal but for what the chunks of placeholders hold, and,
while a placeholder is open, for the text that waits.
-/

namespace DocTemplate

open Markup Renderer

/-! ## What is masked -/

/-- What a lookup finds, with the text of a value masked. -/
def Resolution.masked : Resolution → Resolution
  | .value _ => .value ""
  | other => other

/-- Stores that differ at most in the texts of their values. -/
structure DataStore.SameShape (first second : DataStore) : Prop where
  warnings_eq : first.warnings = second.warnings
  resolve_masked (id : String) :
    (first.resolve id).masked = (second.resolve id).masked

/-- The chunk with its contents masked if it is the chunk of a placeholder. -/
def Chunk.masked (chunk : Chunk) : Chunk :=
  if chunk.isPlaceholder then { chunk with contents := "" } else chunk

def Block.masked (block : Block) : Block :=
  { block with chunks := block.chunks.map Chunk.masked }

def Table.masked (table : Table) : Table :=
  { table with cells := table.cells.map Chunk.masked }

def RenderCall.masked : RenderCall → RenderCall
  | .block written => .block written.masked
  | .table written => .table written.masked
  | other => other

def Request.masked : Request → Request
  | .call asked => .call asked.masked
  | .report problem => .report problem

theorem Request.calls_map_masked (requests : List Request) :
    calls (requests.map masked) =
      (calls requests).map RenderCall.masked := by
  simp only [calls, List.filterMap_map, List.map_filterMap]
  congr 1
  funext request
  cases request <;> rfl

theorem Request.problems_map_masked (requests : List Request) :
    problems (requests.map masked) = problems requests := by
  simp only [problems, List.filterMap_map]
  congr 1
  funext request
  cases request <;> rfl

theorem Request.map_masked_block (block? : Option Block) :
    (block?.map fun block => call (.block block)).toList.map masked =
      ((block?.map Block.masked).map fun block =>
        call (.block block)).toList := by
  cases block? <;> rfl

/-! ## Templates whose placeholders hold text only -/

namespace Markup

def isValue (root name : String) : Bool :=
  Text.lower name != root && Element.ofName name == .value

/-- Whether the innermost of some open elements is a placeholder. -/
def inValue (root : String) : List String → Bool
  | [] => false
  | name :: _ => isValue root name

/-- Whether an event leaves the innermost placeholder without an element. -/
def Event.keepsText (root : String) (names : List String) : Event → Bool
  | .start _ _ => !inValue root names
  | .stop _ | .text _ => true

/-- Whether no element starts inside a placeholder, given what is open. -/
def valuesHoldText (root : String) : List String → List Event → Bool
  | _, [] => true
  | names, event :: rest =>
      event.keepsText root names &&
        valuesHoldText root (event.nest names) rest

end Markup

/-! ## Composers -/

namespace Composer

/-- Composers that have the same outline.  The text that waits counts as well,
unless it waits in a placeholder. -/
structure SameOutline (inValue : Bool) (first second : Composer) : Prop where
  entries_eq : first.entries = second.entries
  chunks_masked :
    first.chunks.map Chunk.masked = second.chunks.map Chunk.masked
  pending_eq : inValue = false → first.pending = second.pending
  top_isPlaceholder : inValue = true →
    ∃ entry outer, first.entries = entry :: outer ∧
      entry.isPlaceholder = true

variable {inValue : Bool} {first second : Composer}

theorem SameOutline.refl (composer : Composer) :
    composer.SameOutline false composer :=
  ⟨rfl, rfl, fun _ => rfl, nofun⟩

/-- Outside of placeholders only the chunks can differ. -/
theorem SameOutline.eq_withChunks (h : first.SameOutline false second) :
    ∃ chunks, second = { first with chunks } ∧
      first.chunks.map Chunk.masked = chunks.map Chunk.masked := by
  refine ⟨second.chunks, ?_, h.chunks_masked⟩
  rw [h.entries_eq, h.pending_eq rfl]

theorem SameOutline.restart (h : first.SameOutline inValue second) :
    first.restart.SameOutline inValue second.restart :=
  ⟨h.entries_eq, rfl, h.pending_eq, h.top_isPlaceholder⟩

theorem SameOutline.clearPending (h : first.SameOutline inValue second) :
    first.clearPending.SameOutline inValue second.clearPending :=
  ⟨h.entries_eq, h.chunks_masked, fun _ => rfl, h.top_isPlaceholder⟩

theorem SameOutline.addLiteral (h : first.SameOutline inValue second)
    (text : String) :
    (first.addLiteral text).SameOutline inValue (second.addLiteral text) :=
  ⟨h.entries_eq, h.chunks_masked,
    fun hout => congrArg (· ++ text) (h.pending_eq hout),
    h.top_isPlaceholder⟩

/-- In a placeholder the texts may differ. -/
theorem SameOutline.addValue (h : first.SameOutline true second)
    (text other : String) :
    (first.addLiteral text).SameOutline true (second.addLiteral other) :=
  ⟨h.entries_eq, h.chunks_masked, nofun, h.top_isPlaceholder⟩

theorem SameOutline.modifyTop (h : first.SameOutline inValue second)
    {change : Chunk → Chunk}
    (hchange : ∀ chunk, (change chunk).isPlaceholder = chunk.isPlaceholder) :
    (first.modifyTop change).SameOutline inValue
      (second.modifyTop change) := by
  refine ⟨congrArg (List.modifyHead change) h.entries_eq, h.chunks_masked,
    h.pending_eq, fun hin => ?_⟩
  obtain ⟨entry, outer, hentries, htop⟩ := h.top_isPlaceholder hin
  exact ⟨change entry, outer, congrArg (List.modifyHead change) hentries,
    (hchange entry).trans htop⟩

theorem SameOutline.enter (h : first.SameOutline false second)
    (own : OwnAttributes) :
    (first.enter own).SameOutline false (second.enter own) := by
  obtain ⟨chunks, rfl, hchunks⟩ := h.eq_withChunks
  obtain ⟨entries, pending, collected⟩ := first
  cases entries with
  | nil => exact ⟨rfl, hchunks, fun _ => rfl, nofun⟩
  | cons parent outer =>
      simp only [Composer.enter]
      split
      · exact ⟨rfl, hchunks, fun _ => rfl, nofun⟩
      · refine ⟨rfl, ?_, fun _ => rfl, nofun⟩
        simpa [flushInto, push, Composer.clearPending] using hchunks

theorem SameOutline.enterValue (h : first.SameOutline false second)
    (own : OwnAttributes) :
    let mark (entry : Chunk) : Chunk := { entry with isPlaceholder := true }
    ((first.enter own).modifyTop mark).SameOutline true
      ((second.enter own).modifyTop mark) := by
  intro mark
  have hentered := h.enter own
  obtain ⟨entry, outer, hentries, -⟩ := first.exists_entries_enter own
  exact
    { entries_eq := congrArg (List.modifyHead mark) hentered.entries_eq
      chunks_masked := hentered.chunks_masked
      pending_eq := nofun
      top_isPlaceholder := fun _ =>
        ⟨mark entry, outer, congrArg (List.modifyHead mark) hentries, rfl⟩ }

theorem SameOutline.leave (h : first.SameOutline false second)
    (force : Bool) :
    (first.leave force).1.SameOutline false (second.leave force).1 ∧
      (first.leave force).2 = (second.leave force).2 := by
  obtain ⟨chunks, rfl, hchunks⟩ := h.eq_withChunks
  obtain ⟨entries, pending, collected⟩ := first
  cases entries with
  | nil => exact ⟨⟨rfl, hchunks, fun _ => rfl, nofun⟩, rfl⟩
  | cons entry outer =>
      simp only [Composer.leave]
      split
      · refine ⟨⟨rfl, ?_, fun _ => rfl, nofun⟩, rfl⟩
        simpa [flushInto, push, Composer.clearPending] using hchunks
      · exact ⟨⟨rfl, hchunks, fun _ => rfl, nofun⟩, rfl⟩

/-- Whatever waits at the end of a placeholder, it becomes one chunk, and this
chunk is masked. -/
theorem SameOutline.leaveValue (h : first.SameOutline true second) :
    (first.leave true).1.SameOutline false (second.leave true).1 := by
  obtain ⟨entries, pending, chunks⟩ := first
  obtain ⟨entries', pending', chunks'⟩ := second
  obtain ⟨rfl, hchunks, -, htop⟩ := h
  obtain ⟨entry, outer, rfl, hplaceholder⟩ := htop rfl
  refine ⟨rfl, ?_, fun _ => rfl, nofun⟩
  simpa [Composer.leave, flushInto, push, Composer.clearPending, Chunk.masked,
    hplaceholder] using hchunks

theorem SameOutline.discard (h : first.SameOutline false second) :
    first.discard.1.SameOutline false second.discard.1 := by
  obtain ⟨chunks, rfl, hchunks⟩ := h.eq_withChunks
  obtain ⟨entries, pending, collected⟩ := first
  cases entries <;> exact ⟨rfl, hchunks, fun _ => rfl, nofun⟩

theorem finishedChunks_masked (kind : BlockKind) (carrier : Option Chunk)
    {chunks others : List Chunk}
    (h : chunks.map Chunk.masked = others.map Chunk.masked) :
    (finishedChunks kind carrier chunks).map Chunk.masked =
      (finishedChunks kind carrier others).map Chunk.masked := by
  have hempty : chunks.isEmpty = others.isEmpty := by
    rw [← List.isEmpty_map (f := Chunk.masked), h, List.isEmpty_map]
  unfold finishedChunks
  rw [hempty]
  split
  · rfl
  · exact h

theorem SameOutline.finish (h : first.SameOutline inValue second)
    (kind : BlockKind) (carrier : Option Chunk) :
    (first.finish kind carrier).1.SameOutline inValue
        (second.finish kind carrier).1 ∧
      (first.finish kind carrier).2.map Block.masked =
        (second.finish kind carrier).2.map Block.masked := by
  have hfinished := finishedChunks_masked kind carrier h.chunks_masked
  refine ⟨h.restart, ?_⟩
  simp only [Composer.finish]
  generalize finishedChunks kind carrier first.chunks = chunks at hfinished
  generalize finishedChunks kind carrier second.chunks = others at hfinished
  cases chunks <;> cases others <;> simp_all [Block.masked]

end Composer

/-! ## Assemblies -/

theorem valueText_sameShape {first second : DataStore}
    (hshape : first.SameShape second) (own : OwnAttributes) :
    (∃ text other, valueText first own = .ok text ∧
      valueText second own = .ok other) ∨
    ∃ problem, valueText first own = .error problem ∧
      valueText second own = .error problem := by
  unfold valueText
  cases own.lookup "id" with
  | none => exact .inr ⟨_, rfl, rfl⟩
  | some id =>
      have hmasked := hshape.resolve_masked id
      dsimp only
      cases hfirst : first.resolve id <;> cases hsecond : second.resolve id <;>
        rw [hfirst, hsecond] at hmasked <;> cases hmasked
      · exact .inl ⟨_, _, rfl, rfl⟩
      all_goals exact .inr ⟨_, rfl, rfl⟩

namespace Assembly

structure SameOutline (inValue : Bool) (first second : Assembly) : Prop where
  composer_outline : first.composer.SameOutline inValue second.composer
  table_eq : first.table = second.table

section

variable {store other : DataStore} {first second : Composer}

theorem openValue_outline (hshape : store.SameShape other)
    (h : first.SameOutline false second) (own : OwnAttributes) :
    (openValue store first own).1.SameOutline true
        (openValue other second own).1 ∧
      (openValue store first own).2 = (openValue other second own).2 := by
  have hopened := h.enterValue own
  unfold openValue
  rcases valueText_sameShape hshape own with
    ⟨text, text', htext, htext'⟩ | ⟨problem, hproblem, hproblem'⟩
  · rw [htext, htext']
    have hfilled := hopened.addValue text text'
    dsimp only
    split
    · exact ⟨hfilled.modifyTop fun _ => rfl, rfl⟩
    · exact ⟨hfilled, rfl⟩
  · rw [hproblem, hproblem']
    exact ⟨hopened, rfl⟩

theorem openSpace_outline (h : first.SameOutline false second)
    (own : OwnAttributes) :
    (openSpace first own).1.SameOutline false (openSpace second own).1 ∧
      (openSpace first own).2 = (openSpace second own).2 := by
  unfold openSpace
  cases spaceText own with
  | error problem => exact ⟨h.enter own, rfl⟩
  | ok text => exact ⟨(h.enter own).addLiteral text, rfl⟩

inductive StartOutline (inValue : Bool) :
    Except Misplacement (Assembly × List Request) →
      Except Misplacement (Assembly × List Request) → Prop
  | error (misplacement : Misplacement) :
      StartOutline inValue (.error misplacement) (.error misplacement)
  | ok {started other : Assembly} (requests : List Request) :
      started.SameOutline inValue other →
        StartOutline inValue (.ok (started, requests)) (.ok (other, requests))

theorem startOutside_outline (hshape : store.SameShape other)
    (h : first.SameOutline false second) (element : Element)
    (own : OwnAttributes) :
    StartOutline (element == .value) (startOutside store first element own)
      (startOutside other second element own) := by
  cases element with
  | block kind =>
      cases kind with
      | pageBreak => exact .ok _ ⟨h, rfl⟩
      | title | chapter | sectionHeading | paragraph =>
          exact .ok _ ⟨h.enter own, rfl⟩
  | cell => exact .error _
  | page | rule | image | table => exact .ok _ ⟨h, rfl⟩
  | value =>
      obtain ⟨hopened, hrequests⟩ := openValue_outline hshape h own
      simp only [startOutside, hrequests]
      exact .ok _ ⟨hopened, rfl⟩
  | space =>
      obtain ⟨hopened, hrequests⟩ := openSpace_outline h own
      simp only [startOutside, hrequests]
      exact .ok _ ⟨hopened, rfl⟩
  | lineBreak | generic => exact .ok _ ⟨h.enter own, rfl⟩

end

variable {store other : DataStore} {first second : Assembly}

theorem SameOutline.start (h : first.SameOutline false second)
    (hshape : store.SameShape other) (element : Element)
    (own : OwnAttributes) :
    (first.start store element own).2 = (second.start other element own).2 ∧
      ∀ requests, (first.start store element own).2 = .ok requests →
        (first.start store element own).1.SameOutline (element == .value)
          (second.start other element own).1 := by
  obtain ⟨composer, table⟩ := first
  obtain ⟨composer', table'⟩ := second
  obtain ⟨hcomposer, rfl⟩ := h
  have hcut : Composer.SameOutline false
      (if element.startsAfresh then composer.restart else composer)
      (if element.startsAfresh then composer'.restart else composer') := by
    split
    · exact Composer.SameOutline.restart hcomposer
    · exact hcomposer
  unfold Assembly.start
  dsimp only
  cases table with
  | some table =>
      dsimp only
      split
      · rename_i hcell
        subst hcell
        exact ⟨rfl, fun _ _ => ⟨hcut.clearPending, rfl⟩⟩
      · exact ⟨rfl, nofun⟩
  | none =>
      have houtside := startOutside_outline hshape hcut element own
      generalize startOutside store _ element own = result at houtside
      generalize startOutside other _ element own = result' at houtside
      cases houtside with
      | error misplacement => exact ⟨rfl, nofun⟩
      | ok requests hstarted => exact ⟨rfl, fun _ _ => hstarted⟩

theorem stopEntry_outline {first second : Composer}
    (h : first.SameOutline false second) (element : Element) :
    (stopEntry first element).1.SameOutline false
        (stopEntry second element).1 ∧
      (stopEntry first element).2.map Request.masked =
        (stopEntry second element).2.map Request.masked := by
  obtain ⟨hleft, hcarrier⟩ := h.leave element.leavesChunk
  unfold stopEntry
  generalize first.leave element.leavesChunk = left at hleft hcarrier
  generalize second.leave element.leavesChunk = left' at hleft hcarrier
  obtain ⟨composer, carrier⟩ := left
  obtain ⟨composer', carrier'⟩ := left'
  obtain rfl : carrier = carrier' := hcarrier
  cases carrier with
  | none => exact ⟨hleft, rfl⟩
  | some carrier =>
      cases element with
      | block kind =>
          obtain ⟨hfinished, hblock⟩ := hleft.finish kind (some carrier)
          refine ⟨hfinished, ?_⟩
          dsimp only
          rw [Request.map_masked_block, hblock, ← Request.map_masked_block]
      | page | rule | image | table | cell | value | space | lineBreak
      | generic => exact ⟨hleft, rfl⟩

theorem SameOutline.stop (h : first.SameOutline false second)
    (element : Element) :
    (first.stop element).1.SameOutline false (second.stop element).1 ∧
      (first.stop element).2.map Request.masked =
        (second.stop element).2.map Request.masked := by
  obtain ⟨composer, table⟩ := first
  obtain ⟨composer', table'⟩ := second
  obtain ⟨hcomposer, rfl⟩ := h
  have hentry := stopEntry_outline hcomposer element
  cases element with
  | block kind =>
      cases kind with
      | pageBreak => exact ⟨⟨hcomposer, rfl⟩, rfl⟩
      | title | chapter | sectionHeading | paragraph =>
          exact ⟨⟨hentry.1, rfl⟩, hentry.2⟩
  | page | rule | image => exact ⟨⟨hcomposer, rfl⟩, rfl⟩
  | lineBreak => exact ⟨⟨(hcomposer.addLiteral "\n").discard, rfl⟩, rfl⟩
  | cell =>
      cases table with
      | none => exact ⟨⟨hcomposer, rfl⟩, rfl⟩
      | some table =>
          refine ⟨⟨hcomposer.clearPending, ?_⟩, rfl⟩
          exact congrArg (fun text => some (table.closeCell text))
            (hcomposer.pending_eq rfl)
  | table => exact ⟨⟨hcomposer.clearPending, rfl⟩, rfl⟩
  | value | space | generic => exact ⟨⟨hentry.1, rfl⟩, hentry.2⟩

theorem stopEntry_value (composer : Composer) :
    stopEntry composer .value = ((composer.leave true).1, []) := by
  cases hleave : composer.leave true with
  | mk left carrier =>
      cases carrier <;> simp [stopEntry, Element.leavesChunk, hleave]

/-- Behind a placeholder nothing of its text is left that waits. -/
theorem SameOutline.stopValue (h : first.SameOutline true second) :
    (first.stop .value).1.SameOutline false (second.stop .value).1 ∧
      (first.stop .value).2.map Request.masked =
        (second.stop .value).2.map Request.masked := by
  simp only [Assembly.stop, stopEntry_value]
  exact ⟨⟨h.composer_outline.leaveValue, h.table_eq⟩, trivial⟩

theorem SameOutline.addText {inValue : Bool}
    (h : first.SameOutline inValue second) (text : String) :
    (first.addText text).SameOutline inValue (second.addText text) :=
  ⟨h.composer_outline.addLiteral (Text.collapse text), h.table_eq⟩

end Assembly

/-! ## Reactions -/

/-- Reactions that have the same outline, whether or not a placeholder is open
behind them. -/
structure Reaction.SameOutline (inValue : Bool) (first second : Reaction) :
    Prop where
  requests_masked :
    first.requests.map Request.masked = second.requests.map Request.masked
  state_eq : first.state = second.state
  refusal_eq : first.refusal = second.refusal
  assembly_outline :
    first.refusal = none → first.assembly.SameOutline inValue second.assembly

namespace Session

variable {σ : Type}

/-- Sessions that have the same outline where these elements are open. -/
structure SameOutline (names : List String) (first second : Session σ) :
    Prop where
  root_eq : first.root = second.root
  store_shape : first.store.SameShape second.store
  state_eq : first.state = second.state
  assembly_outline : first.assembly.SameOutline (inValue first.root names)
    second.assembly
  opened_of_inValue : inValue first.root names = true → first.state = .opened
  outer_free : ∀ name ∈ names.tail, isValue first.root name = false

theorem SameOutline.begin (root : String) {first second : DataStore}
    (hshape : first.SameShape second) (renderer : σ) :
    SameOutline [] (begin root first renderer)
      (begin root second renderer) where
  root_eq := rfl
  store_shape := hshape
  state_eq := rfl
  assembly_outline := ⟨.refl _, rfl⟩
  opened_of_inValue := nofun
  outer_free := nofun

variable {first second : Session σ} {names : List String}

/-- No element encloses a placeholder but the placeholder itself. -/
theorem SameOutline.inValue_tail (h : first.SameOutline names second) :
    inValue first.root names.tail = false := by
  have houter := h.outer_free
  cases htail : names.tail with
  | nil => rfl
  | cons other rest => exact houter other (by simp [htail])

theorem SameOutline.isOpen_eq [Renderer σ]
    (h : first.SameOutline names second) (hfirst : first.InStep)
    (hsecond : second.InStep) :
    isOpen first.renderer = isOpen second.renderer := by
  unfold InStep at hfirst hsecond
  rw [Bool.eq_iff_iff, ← hfirst, ← hsecond, h.state_eq]

theorem SameOutline.reactionInside (h : first.SameOutline names second)
    (hout : inValue first.root names = false) (name : String)
    (own : OwnAttributes) :
    Reaction.SameOutline (Element.ofName name == .value)
      (first.reactionInside name own) (second.reactionInside name own) := by
  have hassembly := h.assembly_outline
  rw [hout] at hassembly
  obtain ⟨hresult, hstarted⟩ :=
    hassembly.start h.store_shape (Element.ofName name) own
  unfold Session.reactionInside
  generalize first.assembly.start first.store _ own = started
    at hresult hstarted
  generalize second.assembly.start second.store _ own = started'
    at hresult hstarted
  obtain ⟨next, result⟩ := started
  obtain ⟨next', result'⟩ := started'
  obtain rfl : result = result' := hresult
  cases result with
  | error misplacement => exact ⟨rfl, h.state_eq, rfl, nofun⟩
  | ok requests =>
      exact ⟨rfl, h.state_eq, rfl, fun _ => hstarted requests rfl⟩

variable [Renderer σ]

theorem SameOutline.reaction_start (h : first.SameOutline names second)
    (hopen : isOpen first.renderer = isOpen second.renderer)
    (hout : inValue first.root names = false) (name : String)
    (own : OwnAttributes) :
    Reaction.SameOutline (isValue first.root name)
      (first.reaction (.start name own))
      (second.reaction (.start name own)) := by
  have hassembly := h.assembly_outline
  rw [hout] at hassembly
  simp only [reaction, ← h.root_eq, ← h.state_eq, ← hopen]
  by_cases hroot : Text.lower name = first.root
  · have hname : isValue first.root name = false := by simp [isValue, hroot]
    rw [if_pos hroot, if_pos hroot, hname]
    split
    · exact ⟨rfl, h.state_eq, rfl, fun htaken => by cases htaken⟩
    · exact ⟨rfl, rfl, rfl, fun _ => hassembly⟩
  · have hname :
        isValue first.root name = (Element.ofName name == .value) := by
      simp [isValue, hroot]
    rw [if_neg hroot, if_neg hroot, hname]
    cases first.state with
    | unopened | closed =>
        exact ⟨rfl, h.state_eq, rfl, fun htaken => by cases htaken⟩
    | opened =>
        dsimp only
        split
        · exact h.reactionInside hout name own
        · exact ⟨rfl, h.state_eq, rfl, fun htaken => by cases htaken⟩

/-- The element that ends is the innermost, so a placeholder that is open ends
before anything else does. -/
theorem SameOutline.reaction_stop (h : first.SameOutline names second)
    {name : String} (hname : names.head? = some name) :
    Reaction.SameOutline false (first.reaction (.stop name))
      (second.reaction (.stop name)) := by
  have hin : inValue first.root names = isValue first.root name := by
    cases names with
    | nil => cases hname
    | cons other outer => cases hname; rfl
  have hassembly := h.assembly_outline
  have hopened := h.opened_of_inValue
  rw [hin] at hassembly hopened
  simp only [reaction, still, ← h.root_eq, ← h.state_eq]
  cases hvalue : isValue first.root name with
  | true =>
      -- The only element that may end while the texts that wait differ.
      rw [hvalue] at hassembly
      obtain ⟨hroot, helement⟩ : Text.lower name ≠ first.root ∧
          Element.ofName name = .value := by simpa [isValue] using hvalue
      obtain ⟨hstopped, hrequests⟩ := hassembly.stopValue
      simp only [hopened hvalue, if_neg hroot, helement]
      exact ⟨hrequests, rfl, rfl, fun _ => hstopped⟩
  | false =>
      rw [hvalue] at hassembly
      cases first.state with
      | unopened | closed => exact ⟨rfl, rfl, rfl, fun _ => hassembly⟩
      | opened =>
          dsimp only
          split
          · exact ⟨rfl, rfl, rfl, fun _ => hassembly⟩
          · obtain ⟨hstopped, hrequests⟩ :=
              hassembly.stop (Element.ofName name)
            exact ⟨hrequests, rfl, rfl, fun _ => hstopped⟩

theorem SameOutline.reaction_text (h : first.SameOutline names second)
    (text : String) :
    Reaction.SameOutline (inValue first.root names)
      (first.reaction (.text text)) (second.reaction (.text text)) := by
  refine ⟨rfl, h.state_eq, rfl, fun _ => ?_⟩
  simp only [reaction, addText, ← h.state_eq]
  split
  · exact h.assembly_outline.addText text
  · exact h.assembly_outline

theorem SameOutline.reaction (h : first.SameOutline names second)
    (hopen : isOpen first.renderer = isOpen second.renderer) {event : Event}
    (hfits : event.Fits names)
    (hkeeps : event.keepsText first.root names = true) :
    Reaction.SameOutline (inValue first.root (event.nest names))
      (first.reaction event) (second.reaction event) := by
  cases event with
  | start name own =>
      have hout : inValue first.root names = false := by
        simpa [Event.keepsText] using hkeeps
      exact h.reaction_start hopen hout name own
  | stop name =>
      rw [Event.nest, h.inValue_tail]
      exact h.reaction_stop hfits
  | text text => exact h.reaction_text text

omit [Renderer σ] in
theorem SameOutline.outer_free_nest (h : first.SameOutline names second)
    {event : Event} (hkeeps : event.keepsText first.root names = true) :
    ∀ name ∈ (event.nest names).tail, isValue first.root name = false := by
  have houter := h.outer_free
  cases event with
  | start other own =>
      cases names with
      | nil => exact nofun
      | cons innermost outer =>
          have hout : isValue first.root innermost = false := by
            simpa [Event.keepsText, inValue] using hkeeps
          exact List.forall_mem_cons.mpr ⟨hout, houter⟩
  | stop other =>
      exact fun name hname => houter name (List.mem_of_mem_tail hname)
  | text text => exact houter

/-- A placeholder opens in an open document only. -/
theorem SameOutline.opened_nest (h : first.SameOutline names second)
    {event : Event} (hkeeps : event.keepsText first.root names = true)
    (hrefusal : (first.reaction event).refusal = none)
    (hin : inValue first.root (event.nest names) = true) :
    (first.reaction event).state = .opened := by
  have hreacts := first.reacts event
  generalize first.reaction event = reaction at hreacts hrefusal
  cases hreacts with
  | refuses | misplaces => cases hrefusal
  | opens | starts | stops => rfl
  | writes => exact h.opened_of_inValue hin
  | passes | closes =>
      cases h.inValue_tail.symm.trans hin

/-! ## Runs -/

variable [AcceptingRenderer σ]

theorem SameOutline.feed (h : first.SameOutline names second)
    (hfirst : first.InStep) (hsecond : second.InStep) {event : Event}
    (hfits : event.Fits names)
    (hkeeps : event.keepsText first.root names = true)
    (hfeed : (first.feed event).failure? = none) :
    (first.feed event).state.SameOutline (event.nest names)
      (second.feed event).state := by
  have hopen := h.isOpen_eq hfirst hsecond
  have hreaction := h.reaction hopen hfits hkeeps
  rw [failure?_feed_accepting hfirst] at hfeed
  have hopened := h.opened_nest hkeeps hfeed
  rw [feed_eq_settle, feed_eq_settle, takeAll_reaction hfirst,
    takeAll_reaction hsecond]
  exact
    { root_eq := h.root_eq
      store_shape := h.store_shape
      state_eq := hreaction.state_eq
      assembly_outline := hreaction.assembly_outline hfeed
      opened_of_inValue := hopened
      outer_free := h.outer_free_nest hkeeps }

/-- Sessions of the same outline ask for the same things, but for what the
chunks of placeholders hold, and come to the same end. -/
theorem SameOutline.feedAll (h : first.SameOutline names second)
    (hfirst : first.InStep) (hsecond : second.InStep) {events : List Event}
    (hnested : Nested names events)
    (hvalues : valuesHoldText first.root names events = true) :
    (first.asked events).map Request.masked =
        (second.asked events).map Request.masked ∧
      (first.feedAll events).failure? = (second.feedAll events).failure? ∧
      ((first.feedAll events).failure? = none →
        (first.feedAll events).state.SameOutline
          (events.foldl Event.nest names) (second.feedAll events).state) := by
  induction events generalizing first second names with
  | nil => exact ⟨rfl, rfl, fun _ => h⟩
  | cons event rest ih =>
      obtain ⟨hfits, hnested⟩ := hnested
      simp only [valuesHoldText, Bool.and_eq_true] at hvalues
      have hopen := h.isOpen_eq hfirst hsecond
      have hreaction := h.reaction hopen hfits hvalues.1
      have hfailure : (second.feed event).failure? =
          (first.feed event).failure? := by
        rw [failure?_feed_accepting hfirst, failure?_feed_accepting hsecond,
          hreaction.refusal_eq]
      rw [feedAll_cons, feedAll_cons]
      -- Both runs stop at this event or neither does.
      cases hcase : (first.feed event).failure? with
      | some error =>
          have hcase' := hfailure.trans hcase
          rw [asked_cons_of_fail hcase, asked_cons_of_fail hcase',
            Outcome.andThen_of_fail hcase, Outcome.andThen_of_fail hcase',
            hcase, hcase']
          exact ⟨hreaction.requests_masked, rfl, nofun⟩
      | none =>
          have hcase' := hfailure.trans hcase
          have hnext := h.feed hfirst hsecond hfits hvalues.1 hcase
          have hroot : (first.feed event).state.root = first.root := by
            rw [feed_eq_settle]
            rfl
          obtain ⟨hasked, hrest⟩ := ih hnext (hfirst.feed event)
            (hsecond.feed event) hnested (hroot.symm ▸ hvalues.2)
          rw [asked_cons_of_ok hcase, asked_cons_of_ok hcase',
            Outcome.andThen_of_ok hcase, Outcome.andThen_of_ok hcase',
            List.map_append, List.map_append, hreaction.requests_masked, hasked]
          exact ⟨rfl, hrest⟩

end Session

/-! ## Compilations -/

theorem Session.SameOutline.finish_eq {σ : Type} {names : List String}
    {first second : Session σ} (h : first.SameOutline names second)
    (hdiagnostics : first.diagnostics = second.diagnostics) :
    first.finish = second.finish := by
  simp only [Session.finish, h.state_eq, h.root_eq, hdiagnostics]

theorem Compiled.result_congr {σ : Type}
    {first second : Outcome CompileError (Session σ)}
    (hfailure : first.failure? = second.failure?)
    (hfinish : first.failure? = none →
      first.state.finish = second.state.finish)
    (markupError : Option MarkupError) :
    (ofOutcome first markupError).result =
      (ofOutcome second markupError).result := by
  simp only [ofOutcome, ← hfailure]
  cases hcase : first.failure? with
  | some error => rfl
  | none =>
      cases markupError with
      | some error => rfl
      | none => exact hfinish hcase

/-- The texts of values change nothing in a document but the contents of the
chunks of its placeholders. -/
theorem compile_masked (root template : String) {first second : DataStore}
    (hshape : first.SameShape second)
    (hvalues : valuesHoldText (Text.lower root) []
      (Markup.read template).1 = true) :
    let compiled := compile template first ({} : Recorder) root
    let other := compile template second ({} : Recorder) root
    compiled.result = other.result ∧
      compiled.renderer.calls.map RenderCall.masked =
        other.renderer.calls.map RenderCall.masked := by
  let session := Session.begin root first ({} : Recorder)
  let session' := Session.begin root second ({} : Recorder)
  let events := (Markup.read template).1
  have hagree : session.InStep := Session.inStep_begin rfl root first
  have hagree' : session'.InStep := Session.inStep_begin rfl root second
  have houtline : session.SameOutline [] session' :=
    .begin root hshape ({} : Recorder)
  obtain ⟨hasked, hfailure, hbehind⟩ :=
    houtline.feedAll hagree hagree' (nested_read template) hvalues
  obtain ⟨hcalls, hdiagnostics⟩ := Session.feedAll_recorder hagree events
  obtain ⟨hcalls', hdiagnostics'⟩ := Session.feedAll_recorder hagree' events
  have hreported : (session.feedAll events).state.diagnostics =
      (session'.feedAll events).state.diagnostics := by
    have hload : session.diagnostics = session'.diagnostics :=
      congrArg (List.map _) hshape.warnings_eq
    rw [hdiagnostics, hdiagnostics', hload, ← Request.problems_map_masked,
      hasked, Request.problems_map_masked]
  have hrecorded : (session.feedAll events).state.renderer.calls.map
        RenderCall.masked =
      (session'.feedAll events).state.renderer.calls.map
        RenderCall.masked := by
    rw [hcalls, hcalls', List.map_append, List.map_append,
      ← Request.calls_map_masked, hasked, Request.calls_map_masked]
    rfl
  exact ⟨Compiled.result_congr hfailure
    (fun hfed => (hbehind hfed).finish_eq hreported) _, hrecorded⟩

theorem DataStore.sameShape_single (id text other : String) :
    (ofPairs [(id, text)]).SameShape (ofPairs [(id, other)]) := by
  refine ⟨rfl, fun key => ?_⟩
  have hlookup (value : String) :
      (Dictionary.ofList [(id, Json.string value)]).get? key =
        if key == id then some (.string value) else none := by
    change List.lookup key [(id, Json.string value)] = _
    cases hkey : key == id <;> simp [List.lookup_cons, hkey]
  simp only [ofPairs, resolve, List.map_cons, List.map_nil, hlookup]
  cases key == id <;> rfl

/-- A placeholder without text and one full of markup, between two texts and
alone in a paragraph. -/
theorem compile_masked_blank :
    let template := "<doc>x<para>a<value id='name'/>b</para>" ++
      "<para><value id='name'/></para></doc>"
    let first := DataStore.ofPairs [("name", "")]
    let second := DataStore.ofPairs [("name", "</para>\n ")]
    let compiled := compile template first ({} : Recorder) "Doc"
    let other := compile template second ({} : Recorder) "Doc"
    first.SameShape second ∧
      valuesHoldText (Text.lower "Doc") [] (Markup.read template).1 = true ∧
      compiled.renderer.calls ≠ other.renderer.calls ∧
      compiled.result = other.result ∧
      compiled.renderer.calls.map RenderCall.masked =
        other.renderer.calls.map RenderCall.masked := by
  intro template first second compiled other
  have hshape := DataStore.sameShape_single "name" "" "</para>\n "
  have hvalues : valuesHoldText (Text.lower "Doc") []
      (Markup.read template).1 = true := by decide +kernel
  exact ⟨hshape, hvalues, by decide +kernel,
    compile_masked "Doc" template hshape hvalues⟩

end DocTemplate
