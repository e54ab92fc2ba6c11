import DocTemplate.Proofs.Run
import Mathlib.Data.List.Forall2
import Mathlib.Data.Option.Defs

/-!
# Sessions that run alike

The entry of an open element keeps the text that it was last filled with.
Nothing ever looks at that text again: the chunk that holds it is part of the
block already, and the entry is filled anew before it becomes a chunk another
time.  Sessions that differ in nothing else are alike, and whatever is fed to
alike sessions, they make the same calls and stay alike.
-/

namespace DocTemplate

open Markup Renderer

/-! ## Composers -/

/-- Chunks that differ at most in their contents. -/
structure Chunk.SameStyle (first second : Chunk) : Prop where
  attributes_eq : first.attributes = second.attributes
  isPlaceholder_eq : first.isPlaceholder = second.isPlaceholder

theorem Chunk.SameStyle.refl (chunk : Chunk) : chunk.SameStyle chunk :=
  ⟨rfl, rfl⟩

theorem Chunk.SameStyle.fill {first second : Chunk}
    (h : first.SameStyle second) (contents : String) :
    { first with contents } = { second with contents } := by
  obtain ⟨attributes, placeholder⟩ := h
  cases first
  cases second
  simp_all

namespace Composer

structure Alike (first second : Composer) : Prop where
  entries_alike :
    List.Forall₂ Chunk.SameStyle first.entries second.entries
  pending_eq : first.pending = second.pending
  chunks_eq : first.chunks = second.chunks

variable {first second : Composer}

theorem Alike.refl (composer : Composer) : composer.Alike composer :=
  ⟨List.forall₂_same.mpr fun chunk _ => .refl chunk, rfl, rfl⟩

theorem Alike.addLiteral (h : first.Alike second) (text : String) :
    (first.addLiteral text).Alike (second.addLiteral text) :=
  ⟨h.entries_alike, congrArg (· ++ text) h.pending_eq, h.chunks_eq⟩

theorem Alike.clearPending (h : first.Alike second) :
    first.clearPending.Alike second.clearPending :=
  ⟨h.entries_alike, rfl, h.chunks_eq⟩

theorem Alike.restart (h : first.Alike second) :
    first.restart.Alike second.restart :=
  ⟨h.entries_alike, h.pending_eq, rfl⟩

theorem Alike.modifyTop (h : first.Alike second) {change : Chunk → Chunk}
    (hchange : ∀ chunk other : Chunk, chunk.SameStyle other →
      (change chunk).SameStyle (change other)) :
    (first.modifyTop change).Alike (second.modifyTop change) := by
  obtain ⟨entries, pending, chunks⟩ := first
  obtain ⟨entries', pending', chunks'⟩ := second
  obtain ⟨hentries, rfl, rfl⟩ := h
  cases hentries with
  | nil => exact .refl _
  | cons hstyle hrest => exact ⟨.cons (hchange _ _ hstyle) hrest, rfl, rfl⟩

theorem Alike.enter (h : first.Alike second) (own : OwnAttributes) :
    (first.enter own).Alike (second.enter own) := by
  obtain ⟨entries, pending, chunks⟩ := first
  obtain ⟨entries', pending', chunks'⟩ := second
  obtain ⟨hentries, rfl, rfl⟩ := h
  cases hentries with
  | nil => exact .refl _
  | @cons parent parent' outer outer' hstyle hrest =>
      simp only [Composer.enter]
      rw [hstyle.attributes_eq]
      split
      · exact ⟨.cons (.refl _) (.cons hstyle hrest), rfl, rfl⟩
      · refine ⟨.cons (.refl _) (.cons ⟨?_, ?_⟩ hrest), rfl, ?_⟩
        · exact hstyle.attributes_eq
        · exact hstyle.isPlaceholder_eq
        · exact congrArg (chunks ++ [·]) (hstyle.fill pending)

theorem Alike.leave (h : first.Alike second) (force : Bool) :
    (first.leave force).1.Alike (second.leave force).1 ∧
      Option.Rel Chunk.SameStyle (first.leave force).2
        (second.leave force).2 := by
  obtain ⟨entries, pending, chunks⟩ := first
  obtain ⟨entries', pending', chunks'⟩ := second
  obtain ⟨hentries, rfl, rfl⟩ := h
  cases hentries with
  | nil => exact ⟨.refl _, .none⟩
  | @cons entry entry' outer outer' hstyle hrest =>
      simp only [Composer.leave]
      split
      · refine ⟨⟨hrest, rfl, ?_⟩, .some ⟨?_, ?_⟩⟩
        · exact congrArg (chunks ++ [·]) (hstyle.fill pending)
        · exact hstyle.attributes_eq
        · exact hstyle.isPlaceholder_eq
      · exact ⟨⟨hrest, rfl, rfl⟩, .some hstyle⟩

theorem Alike.discard (h : first.Alike second) :
    first.discard.1.Alike second.discard.1 := by
  obtain ⟨entries, pending, chunks⟩ := first
  obtain ⟨entries', pending', chunks'⟩ := second
  obtain ⟨hentries, rfl, rfl⟩ := h
  cases hentries with
  | nil => exact .refl _
  | cons hstyle hrest => exact ⟨hrest, rfl, rfl⟩

theorem filler_eq {carrier other : Option Chunk}
    (h : Option.Rel Chunk.SameStyle carrier other) :
    filler carrier = filler other := by
  cases h with
  | none => rfl
  | some hstyle => exact hstyle.fill " "

/-- Alike composers finish the same block. -/
theorem Alike.finish (h : first.Alike second) (kind : BlockKind)
    {carrier other : Option Chunk}
    (hcarrier : Option.Rel Chunk.SameStyle carrier other) :
    (first.finish kind carrier).1.Alike (second.finish kind other).1 ∧
      (first.finish kind carrier).2 = (second.finish kind other).2 := by
  have hfinished : finishedChunks kind carrier first.chunks =
      finishedChunks kind other second.chunks := by
    rw [finishedChunks, finishedChunks, h.chunks_eq, filler_eq hcarrier]
  refine ⟨h.restart, ?_⟩
  dsimp only [Composer.finish]
  rw [hfinished]

end Composer

/-! ## Assemblies -/

namespace Assembly

structure Alike (first second : Assembly) : Prop where
  composer_alike : first.composer.Alike second.composer
  table_eq : first.table = second.table

variable {first second : Composer}

theorem openValue_alike (store : DataStore) (h : first.Alike second)
    (own : OwnAttributes) :
    (openValue store first own).1.Alike (openValue store second own).1 ∧
      (openValue store first own).2 = (openValue store second own).2 := by
  have hopened : Composer.Alike
      ((first.enter own).modifyTop fun entry =>
        { entry with isPlaceholder := true })
      ((second.enter own).modifyTop fun entry =>
        { entry with isPlaceholder := true }) :=
    (h.enter own).modifyTop fun _ _ hstyle => ⟨hstyle.attributes_eq, rfl⟩
  unfold openValue
  cases valueText store own with
  | error problem => exact ⟨hopened, rfl⟩
  | ok text =>
      have hfilled := hopened.addLiteral text
      dsimp only
      split
      · refine ⟨hfilled.modifyTop fun _ _ hstyle => ⟨?_, ?_⟩, rfl⟩
        · simp only [Chunk.setAttribute, hstyle.attributes_eq]
        · exact hstyle.isPlaceholder_eq
      · exact ⟨hfilled, rfl⟩

theorem openSpace_alike (h : first.Alike second) (own : OwnAttributes) :
    (openSpace first own).1.Alike (openSpace second own).1 ∧
      (openSpace first own).2 = (openSpace second own).2 := by
  unfold openSpace
  cases spaceText own with
  | error problem => exact ⟨h.enter own, rfl⟩
  | ok text => exact ⟨(h.enter own).addLiteral text, rfl⟩

/-- Two results of starting an element that no call tells apart. -/
inductive StartAlike : Except Misplacement (Assembly × List Request) →
    Except Misplacement (Assembly × List Request) → Prop
  | error (misplacement : Misplacement) :
      StartAlike (.error misplacement) (.error misplacement)
  | ok {started other : Assembly} (requests : List Request) :
      started.Alike other →
        StartAlike (.ok (started, requests)) (.ok (other, requests))

theorem startOutside_alike (store : DataStore) (h : first.Alike second)
    (element : Element) (own : OwnAttributes) :
    StartAlike (startOutside store first element own)
      (startOutside store second element own) := by
  cases element with
  | block kind =>
      cases kind with
      | pageBreak => exact .ok _ ⟨h, rfl⟩
      | title | chapter | sectionHeading | paragraph =>
          exact .ok _ ⟨h.enter own, rfl⟩
  | cell => exact .error _
  | page | rule | image | table => exact .ok _ ⟨h, rfl⟩
  | value =>
      obtain ⟨hopened, hrequests⟩ := openValue_alike store h own
      simp only [startOutside, hrequests]
      exact .ok _ ⟨hopened, rfl⟩
  | space =>
      obtain ⟨hopened, hrequests⟩ := openSpace_alike h own
      simp only [startOutside, hrequests]
      exact .ok _ ⟨hopened, rfl⟩
  | lineBreak | generic => exact .ok _ ⟨h.enter own, rfl⟩

theorem Alike.start {first second : Assembly} (h : first.Alike second)
    (store : DataStore) (element : Element) (own : OwnAttributes) :
    (first.start store element own).1.Alike
        (second.start store element own).1 ∧
      (first.start store element own).2 =
        (second.start store element own).2 := by
  obtain ⟨composer, table⟩ := first
  obtain ⟨composer', table'⟩ := second
  obtain ⟨hcomposer, rfl⟩ := h
  have hcut : Composer.Alike
      (if element.startsAfresh then composer.restart else composer)
      (if element.startsAfresh then composer'.restart else composer') := by
    split
    · exact Composer.Alike.restart hcomposer
    · exact hcomposer
  unfold Assembly.start
  dsimp only
  cases table with
  | some table =>
      dsimp only
      split
      · exact ⟨⟨hcut.clearPending, rfl⟩, rfl⟩
      · exact ⟨⟨hcut, rfl⟩, rfl⟩
  | none =>
      have houtside := startOutside_alike store hcut element own
      generalize startOutside store _ element own = result at houtside
      generalize startOutside store _ element own = result' at houtside
      cases houtside with
      | error misplacement => exact ⟨⟨hcut, rfl⟩, rfl⟩
      | ok requests hstarted => exact ⟨hstarted, rfl⟩

theorem stopEntry_alike (h : first.Alike second) (element : Element) :
    (stopEntry first element).1.Alike (stopEntry second element).1 ∧
      (stopEntry first element).2 = (stopEntry second element).2 := by
  obtain ⟨hleft, hcarrier⟩ := h.leave element.leavesChunk
  unfold stopEntry
  generalize first.leave element.leavesChunk = left at hleft hcarrier
  generalize second.leave element.leavesChunk = left' at hleft hcarrier
  obtain ⟨composer, carrier⟩ := left
  obtain ⟨composer', carrier'⟩ := left'
  cases hcarrier with
  | none => exact ⟨hleft, rfl⟩
  | some hstyle =>
      cases element with
      | block kind =>
          obtain ⟨hfinished, hblock⟩ := hleft.finish kind (.some hstyle)
          exact ⟨hfinished, congrArg (fun block? => (Option.map
            (fun block => Request.call (.block block)) block?).toList)
              hblock⟩
      | page | rule | image | table | cell | value | space | lineBreak
      | generic => exact ⟨hleft, rfl⟩

theorem Alike.stop {first second : Assembly} (h : first.Alike second)
    (element : Element) :
    (first.stop element).1.Alike (second.stop element).1 ∧
      (first.stop element).2 = (second.stop element).2 := by
  obtain ⟨composer, table⟩ := first
  obtain ⟨composer', table'⟩ := second
  obtain ⟨hcomposer, rfl⟩ := h
  have hentry := stopEntry_alike hcomposer element
  cases element with
  | block kind =>
      cases kind with
      | pageBreak => exact ⟨⟨hcomposer, rfl⟩, rfl⟩
      | title | chapter | sectionHeading | paragraph =>
          exact ⟨⟨hentry.1, rfl⟩, hentry.2⟩
  | page | rule | image => exact ⟨⟨hcomposer, rfl⟩, rfl⟩
  | lineBreak => exact ⟨⟨(hcomposer.addLiteral "\n").discard, rfl⟩, rfl⟩
  | cell =>
      cases table with
      | none => exact ⟨⟨hcomposer, rfl⟩, rfl⟩
      | some table =>
          refine ⟨⟨hcomposer.clearPending, ?_⟩, rfl⟩
          exact congrArg (fun text => some (table.closeCell text))
            hcomposer.pending_eq
  | table => exact ⟨⟨hcomposer.clearPending, rfl⟩, rfl⟩
  | value | space | generic => exact ⟨⟨hentry.1, rfl⟩, hentry.2⟩

theorem Alike.addText {first second : Assembly} (h : first.Alike second)
    (text : String) : (first.addText text).Alike (second.addText text) :=
  ⟨h.composer_alike.addLiteral (Text.collapse text), h.table_eq⟩

end Assembly

/-! ## Sessions -/

namespace Session

variable {σ : Type}

/-- Sessions that differ at most in their assemblies, and there in nothing
that a call shows. -/
structure Alike (first second : Session σ) : Prop where
  assembly_alike : first.assembly.Alike second.assembly
  rest_eq : first = { second with assembly := first.assembly }

/-- Outcomes that are alike in their sessions and equal in their failures. -/
structure OutcomesAlike (first second : Outcome CompileError (Session σ)) :
    Prop where
  state_alike : first.state.Alike second.state
  failure_eq : first.failure? = second.failure?

theorem Alike.renderer_eq {first second : Session σ}
    (h : first.Alike second) : first.renderer = second.renderer := by
  rw [h.rest_eq]

theorem OutcomesAlike.andThen
    {first second : Outcome CompileError (Session σ)}
    (h : OutcomesAlike first second)
    {next : Session σ → Outcome CompileError (Session σ)}
    (hnext : ∀ {session other : Session σ}, session.Alike other →
      OutcomesAlike (next session) (next other)) :
    OutcomesAlike (first.andThen next) (second.andThen next) := by
  obtain ⟨state, failure⟩ := first
  obtain ⟨state', failure'⟩ := second
  obtain ⟨hstate, rfl⟩ := h
  cases failure with
  | none => exact hnext hstate
  | some error => exact ⟨hstate, rfl⟩

variable [Renderer σ] {first second : Session σ}

theorem Alike.issue (h : first.Alike second) (request : Request) :
    OutcomesAlike (first.issue request) (second.issue request) := by
  obtain ⟨_, _, _, assembly, _, _⟩ := first
  obtain ⟨root, store, state, assembly', diagnostics, renderer⟩ := second
  obtain ⟨hassembly, hrest⟩ := h
  cases hrest
  cases request with
  | report problem => exact ⟨⟨hassembly, rfl⟩, rfl⟩
  | call call =>
      simp only [Session.issue]
      split
      · exact ⟨⟨hassembly, rfl⟩, rfl⟩
      · split
        · exact ⟨⟨hassembly, rfl⟩, rfl⟩
        · exact ⟨⟨hassembly, rfl⟩, rfl⟩

theorem Alike.issueAll (h : first.Alike second) (requests : List Request) :
    OutcomesAlike (first.issueAll requests) (second.issueAll requests) := by
  induction requests generalizing first second with
  | nil => exact ⟨h, rfl⟩
  | cons request rest ih => exact (h.issue request).andThen ih

theorem Alike.startInside (h : first.Alike second) (name : String)
    (own : OwnAttributes) :
    OutcomesAlike (first.startInside name own)
      (second.startInside name own) := by
  obtain ⟨_, _, _, assembly, _, _⟩ := first
  obtain ⟨root, store, state, assembly', diagnostics, renderer⟩ := second
  obtain ⟨hassembly, hrest⟩ := h
  cases hrest
  obtain ⟨hstarted, hresult⟩ := hassembly.start store (.ofName name) own
  simp only [Session.startInside]
  generalize assembly.start store (.ofName name) own = started
    at hstarted hresult
  generalize assembly'.start store (.ofName name) own = started'
    at hstarted hresult
  obtain ⟨next, result⟩ := started
  obtain ⟨next', result'⟩ := started'
  cases hresult
  cases result with
  | error misplacement => exact ⟨⟨hstarted, rfl⟩, rfl⟩
  | ok requests => exact Alike.issueAll ⟨hstarted, rfl⟩ requests

/-- Whatever is fed to alike sessions, they stay alike. -/
theorem Alike.feed (h : first.Alike second) (event : Event) :
    OutcomesAlike (first.feed event) (second.feed event) := by
  have hinside := h.startInside
  obtain ⟨_, _, _, assembly, _, _⟩ := first
  obtain ⟨root, store, state, assembly', diagnostics, renderer⟩ := second
  obtain ⟨hassembly, hrest⟩ := h
  cases hrest
  cases event with
  | start name own =>
      simp only [Session.feed, Session.start]
      split
      · simp only [Session.openDocument]
        split
        · exact ⟨⟨hassembly, rfl⟩, rfl⟩
        · split <;> exact ⟨⟨hassembly, rfl⟩, rfl⟩
      · cases state with
        | unopened | closed => exact ⟨⟨hassembly, rfl⟩, rfl⟩
        | opened =>
            dsimp only
            split
            · exact hinside name own
            · exact ⟨⟨hassembly, rfl⟩, rfl⟩
  | stop name =>
      cases state with
      | unopened | closed => exact ⟨⟨hassembly, rfl⟩, rfl⟩
      | opened =>
          simp only [Session.feed, Session.stop]
          split
          · simp only [Session.closeDocument]
            split <;> exact ⟨⟨hassembly, rfl⟩, rfl⟩
          · obtain ⟨hstopped, hrequests⟩ := hassembly.stop (.ofName name)
            rw [hrequests]
            exact Alike.issueAll ⟨hstopped, rfl⟩ _
  | text contents =>
      cases state with
      | unopened | closed => exact ⟨⟨hassembly, rfl⟩, rfl⟩
      | opened => exact ⟨⟨hassembly.addText contents, rfl⟩, rfl⟩

theorem Alike.run (h : first.Alike second) (events : List Event) :
    (first.run events).Alike (second.run events) := by
  induction events generalizing first second with
  | nil => exact h
  | cons event rest ih => exact ih (h.feed event).state_alike

end Session
end DocTemplate
