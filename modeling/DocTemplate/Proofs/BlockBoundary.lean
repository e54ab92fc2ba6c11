import DocTemplate.Compile.Template
import DocTemplate.Proofs.Alike
import DocTemplate.Proofs.BlockText

/-!
# Block boundaries

The start of a block cuts off the text before it, but not all of it.  Text
that is in a chunk already is dropped and never seen again.  Text that still
waits is kept, and becomes part of the new block or, behind a page break, of
the block after it.  So a block starts fresh exactly if nothing waits at its
start.
-/

namespace DocTemplate

open Markup Renderer

namespace Composer

/-- The composer as if no text had been flushed. -/
def withoutFlushed (composer : Composer) : Composer :=
  { composer with
    entries := composer.entries.map fun entry => { entry with contents := "" }
    chunks := [] }

/-- The composer as if no text had been fed. -/
def withoutText (composer : Composer) : Composer :=
  composer.withoutFlushed.clearPending

theorem withoutText_of_pending {composer : Composer}
    (hpending : composer.pending = "") :
    composer.withoutText = composer.withoutFlushed := by
  simp [withoutText, clearPending, withoutFlushed, hpending]

theorem restart_alike_withoutFlushed (composer : Composer) :
    composer.restart.Alike composer.withoutFlushed.restart := by
  refine ⟨?_, rfl, rfl⟩
  simp only [restart, withoutFlushed, List.forall₂_map_right_iff,
    List.forall₂_same]
  exact fun _ _ => ⟨rfl, rfl⟩

end Composer

/-- An element that starts afresh looks at the composer only as it is once it
has been started afresh. -/
theorem Assembly.start_restart (store : DataStore) (assembly : Assembly)
    {element : Element} (hafresh : element.startsAfresh = true)
    (own : OwnAttributes) :
    (assembly.withComposer assembly.composer.restart).start store element own =
      assembly.start store element own := by
  simp only [start, hafresh, if_true]
  rfl

namespace Session

variable {σ : Type}

/-- The session as if no text had been flushed. -/
def withoutFlushed (session : Session σ) : Session σ :=
  { session with
    assembly := session.assembly.withComposer
      session.assembly.composer.withoutFlushed }

/-- The session as if no text had been fed. -/
def withoutText (session : Session σ) : Session σ :=
  { session with
    assembly := session.assembly.withComposer
      session.assembly.composer.withoutText }

/-- The session as the start of a block leaves it before anything opens. -/
def restart (session : Session σ) : Session σ :=
  { session with
    assembly := session.assembly.withComposer
      session.assembly.composer.restart }

variable [Renderer σ]

/-- From this event on the renderer is driven as if no text had been fed
before. -/
def StartsFresh (session : Session σ) (event : Event) : Prop :=
  ∀ later, (session.run (event :: later)).renderer =
    (session.withoutText.run (event :: later)).renderer

/-! ## Text that has been flushed -/

section

variable {session : Session σ} {name : String} {kind : BlockKind}

theorem feed_start_restart (hstate : session.state = .opened)
    (hopen : isOpen session.renderer = true)
    (hname : Text.lower name ≠ session.root)
    (helement : Element.ofName name = .block kind) (own : OwnAttributes) :
    session.restart.feed (.start name own) =
      session.feed (.start name own) := by
  have hafresh : (Element.ofName name).startsAfresh = true := by
    rw [helement]
    rfl
  have hstate' : session.restart.state = .opened := hstate
  have hleft := start_eq_startInside hstate' hopen hname own
  have hright := start_eq_startInside hstate hopen hname own
  have hstart := Assembly.start_restart session.store session.assembly
    hafresh own
  rw [feed, feed, hleft, hright, startInside, startInside, ← hstart]
  rfl

/-- Text that has been flushed is never seen again. -/
theorem run_block_withoutFlushed (hstate : session.state = .opened)
    (hopen : isOpen session.renderer = true)
    (hname : Text.lower name ≠ session.root)
    (helement : Element.ofName name = .block kind) (own : OwnAttributes)
    (later : List Event) :
    (session.run (.start name own :: later)).renderer =
      (session.withoutFlushed.run (.start name own :: later)).renderer := by
  have hstate' : session.withoutFlushed.state = .opened := hstate
  have halike : session.restart.Alike session.withoutFlushed.restart :=
    ⟨⟨Composer.restart_alike_withoutFlushed _, rfl⟩, rfl⟩
  have hstart := (halike.feed (.start name own)).state_alike
  rw [feed_start_restart hstate hopen hname helement,
    feed_start_restart hstate' hopen hname helement] at hstart
  rw [run_cons, run_cons]
  exact (hstart.run later).renderer_eq

theorem startsFresh_of_pending (hstate : session.state = .opened)
    (hopen : isOpen session.renderer = true)
    (hname : Text.lower name ≠ session.root)
    (helement : Element.ofName name = .block kind) (own : OwnAttributes)
    (hpending : session.assembly.composer.pending = "") :
    session.StartsFresh (.start name own) := by
  intro later
  have hwithout : session.withoutText = session.withoutFlushed := by
    rw [withoutText, withoutFlushed,
      Composer.withoutText_of_pending hpending]
  rw [hwithout]
  exact run_block_withoutFlushed hstate hopen hname helement own later

end

/-! ## Text that waits -/

/-- An element that is a block in a document with this root. -/
def blockName (root : String) : String :=
  if root = "para" then "title" else "para"

theorem blockName_spec (root : String) :
    ∃ kind, kind ≠ .pageBreak ∧ Text.lower (blockName root) ≠ root ∧
      Element.ofName (blockName root) = .block kind := by
  unfold blockName
  by_cases hpara : root = "para"
  · rw [if_pos hpara, hpara]
    exact ⟨.title, by decide, by decide +kernel, by decide +kernel⟩
  · rw [if_neg hpara]
    have hlower : Text.lower "para" = "para" := by decide +kernel
    exact ⟨.paragraph, by decide, by rwa [hlower, ne_comm],
      by decide +kernel⟩

/-- Events behind the start of a block that write a block with text. -/
def writingEvents (root name : String) (kind : BlockKind) : List Event :=
  if kind = .pageBreak then
    [.start (blockName root) [], .text "x", .stop (blockName root)]
  else
    [.text "x", .stop name]

theorem run_block_waiting {session : Session Recorder}
    (hagree : session.InStep) (hstate : session.state = .opened)
    (htable : session.assembly.table = none) {name : String}
    {kind : BlockKind} (hname : Text.lower name ≠ session.root)
    (helement : Element.ofName name = .block kind)
    (hkind : kind ≠ .pageBreak) (own : OwnAttributes) :
    ∃ block,
      (session.run [.start name own, .text "x", .stop name]).renderer.calls =
          session.renderer.calls ++ [.block block] ∧
        block.text = session.assembly.composer.pending ++ "x" := by
  have hinline : (Forest.text "x" .nil).Inline session.root := trivial
  have hflat : (Forest.text "x" .nil).flat session.store = "x" := by
    have hcollapse : Text.collapse "x" = "x" := by decide +kernel
    simp [Forest.flat, hcollapse]
  obtain ⟨outer, reported, calls, hfeed, -, hwrites⟩ :=
    feedAll_block session hagree hstate htable hname helement hkind own
      hinline
  rw [hflat] at hwrites
  obtain ⟨block, rfl, -, htext⟩ :=
    hwrites.filled (.inl (by simp [String.append_eq_empty_iff]))
  have hopen : session.renderer.isOpen = true := hagree.mp hstate
  have hinner : ∀ call ∈ [RenderCall.block block], call.isInner = true := by
    simp [RenderCall.isInner]
  have hperform := Recorder.performAll_inner hopen hinner
  have hrun := run_eq_of_feedAll hfeed
  have hevents : [.start name own, .text "x", .stop name] =
      .start name own :: ((Forest.text "x" .nil).events ++ [.stop name]) := rfl
  have hcalls :
      (session.run [.start name own, .text "x", .stop name]).renderer =
        performAll session.renderer [.block block] := by
    rw [hevents, hrun]
  exact ⟨block, by rw [hcalls, hperform], htext⟩

theorem feed_start_pageBreak {session : Session Recorder}
    (hagree : session.InStep) (hstate : session.state = .opened)
    (htable : session.assembly.table = none) {name : String}
    (hname : Text.lower name ≠ session.root)
    (helement : Element.ofName name = .block .pageBreak)
    (own : OwnAttributes) :
    session.feed (.start name own) = ⟨session.restart, none⟩ := by
  have hassembly := Assembly.eq_of_table_none htable
  have hstart :
      session.assembly.start session.store (Element.ofName name) own =
        (session.assembly.withComposer session.assembly.composer.restart,
          .ok []) := by
    rw [helement, hassembly]
    rfl
  have hfeed := start_opened hstate (hagree.mp hstate) hname hstart
  rwa [meet_nil] at hfeed

/-- Text that waits at the start of a block stands at the front of a later
block. -/
theorem run_writingEvents {session : Session Recorder}
    (hagree : session.InStep) (hstate : session.state = .opened)
    (htable : session.assembly.table = none) {name : String}
    {kind : BlockKind} (hname : Text.lower name ≠ session.root)
    (helement : Element.ofName name = .block kind) (own : OwnAttributes) :
    ∃ block,
      (session.run
          (.start name own :: writingEvents session.root name kind)
        ).renderer.calls = session.renderer.calls ++ [.block block] ∧
      block.text = session.assembly.composer.pending ++ "x" := by
  unfold writingEvents
  by_cases hkind : kind = .pageBreak
  · subst hkind
    rw [if_pos rfl, run_cons,
      feed_start_pageBreak hagree hstate htable hname helement]
    obtain ⟨kind, hkind, hother, helement'⟩ := blockName_spec session.root
    have hagree' : session.restart.InStep := hagree
    have hstate' : session.restart.state = .opened := hstate
    have htable' : session.restart.assembly.table = none := htable
    have hother' : Text.lower (blockName session.root) ≠
        session.restart.root := hother
    exact run_block_waiting hagree' hstate' htable' hother' helement' hkind []
  · rw [if_neg hkind]
    exact run_block_waiting hagree hstate htable hname helement hkind own

/-! ## Fresh starts -/

/-- Of the text fed before a block, what has been flushed is never seen again,
and the block starts fresh exactly if nothing waits.  What does wait comes back
at the front of some later block. -/
theorem block_startsFresh_iff {session : Session Recorder}
    (hreachable : session.Reachable) (hstate : session.state = .opened)
    (htable : session.assembly.table = none) {name : String}
    {kind : BlockKind} (hname : Text.lower name ≠ session.root)
    (helement : Element.ofName name = .block kind) (own : OwnAttributes) :
    (∀ later, (session.run (.start name own :: later)).renderer =
        (session.withoutFlushed.run (.start name own :: later)).renderer) ∧
      (session.StartsFresh (.start name own) ↔
        session.assembly.composer.pending = "") ∧
      ∃ later block rest,
        (session.run (.start name own :: later)).renderer.calls =
            session.renderer.calls ++ [.block block] ∧
          block.text = session.assembly.composer.pending ++ rest := by
  have hagree := hreachable.inStep
  have hopen := hagree.mp hstate
  obtain ⟨block, hcalls, htext⟩ :=
    run_writingEvents hagree hstate htable hname helement own
  refine ⟨run_block_withoutFlushed hstate hopen hname helement own,
    ⟨fun hfresh => ?_, startsFresh_of_pending hstate hopen hname helement own⟩,
    _, block, "x", hcalls, htext⟩
  -- What waits is the front of one of the two blocks and not of the other.
  have hagree' : session.withoutText.InStep := hagree
  have hstate' : session.withoutText.state = .opened := hstate
  have htable' : session.withoutText.assembly.table = none := htable
  have hname' : Text.lower name ≠ session.withoutText.root := hname
  obtain ⟨block', hcalls', htext'⟩ :=
    run_writingEvents hagree' hstate' htable' hname' helement own
  have hsame := congrArg Recorder.calls
    (hfresh (writingEvents session.root name kind))
  have hblocks : [RenderCall.block block] = [.block block'] :=
    List.append_cancel_left ((hcalls.symm.trans hsame).trans hcalls')
  obtain rfl : block = block' := by simpa using hblocks
  have hlength := congrArg String.length (htext.symm.trans htext')
  simpa [withoutText, Assembly.withComposer, Composer.withoutText,
    Composer.clearPending] using hlength

theorem block_startsFresh_iff_stray :
    let session := (begin "textpdf" .empty ({} : Recorder)).run
      [.start "textpdf" [], .start "b" [], .text "kept", .stop "b",
        .text "stray"]
    session.Reachable ∧ session.state = .opened ∧
      session.assembly.table = none ∧
      Text.lower "para" ≠ session.root ∧
      Element.ofName "para" = .block .paragraph ∧
      (session.StartsFresh (.start "para" []) ↔
        session.assembly.composer.pending = "") := by
  intro session
  have hreachable : session.Reachable :=
    ⟨"textpdf", .empty, {}, _, rfl, rfl⟩
  have hstate : session.state = .opened := by decide +kernel
  have htable : session.assembly.table = none := by decide +kernel
  have hname : Text.lower "para" ≠ session.root := by decide +kernel
  have helement : Element.ofName "para" = .block .paragraph := by
    decide +kernel
  exact ⟨hreachable, hstate, htable, hname, helement,
    (block_startsFresh_iff hreachable hstate htable hname helement []).2.1⟩

/-- Text under the root enters the paragraph behind it. -/
theorem not_startsFresh_stray :
    (compile "<textpdf>stray<para>x</para></textpdf>" .empty
          ({} : Recorder)).renderer.blocks.map Block.text = ["strayx"] ∧
      ¬((begin "textpdf" .empty ({} : Recorder)).run
        [.start "textpdf" [], .text "stray"]).StartsFresh
          (.start "para" []) := by
  refine ⟨by decide +kernel, fun hfresh => ?_⟩
  have hsame := hfresh [.text "x", .stop "para"]
  revert hsame
  decide +kernel

end Session
end DocTemplate
