import DocTemplate.Proofs.BlockBoundary
import DocTemplate.Proofs.Course
import DocTemplate.Proofs.Placement

/-!
# Refused elements

An element that stands where it must not is refused, and the session can go on
behind it.  Almost every refusal comes before the element has done anything.
The one exception is a block or a table that starts inside a table: it cuts off
the chunks before it, as it would anywhere else, and is refused only then.
Chunks can stand beside an open table if an element has ended there that had
started outside, so the session behind such a refusal need not be the session
before it.
-/

namespace DocTemplate

open Markup Renderer

/-- The errors of elements that are not where they belong. -/
def CompileError.IsStructural : CompileError → Prop
  | notOpened .. | duplicateRoot _ | afterClose _ | notTableChild _
  | cellOutsideTable => True
  | _ => False

/-- Whether an error is the refusal of an element inside a table that would
have started afresh outside. -/
def CompileError.CutsOff (error : CompileError) : Prop :=
  ∃ name, error = .notTableChild name ∧
    (Element.ofName name).startsAfresh = true

/-! ## What is left of a refused start -/

namespace Assembly

variable {store : DataStore} {assembly next : Assembly} {element : Element}
  {own : OwnAttributes} {misplacement : Misplacement}

theorem eq_of_start_error
    (h : assembly.start store element own = (next, .error misplacement)) :
    next = if element.startsAfresh then
      assembly.withComposer assembly.composer.restart else assembly := by
  unfold start at h
  dsimp only at h
  split at h
  · rename_i table htable
    split at h
    · cases h
    · cases h
      split <;> simp [withComposer, ← htable]
  · rename_i htable
    split at h
    · cases h
    · rename_i asked hstarted
      obtain ⟨rfl, -⟩ := startOutside_error hstarted
      cases h
      exact (eq_of_table_none htable).symm

end Assembly

namespace Session

variable {σ : Type} [Renderer σ] {session : Session σ}

section Accepting

variable [AcceptingRenderer σ]

/-- An event fails only by a refusal, which leaves the session as it was or as
it is once the chunks have been cut off. -/
theorem feed_error (hagree : session.InStep) {event : Event}
    {error : CompileError}
    (hfail : (session.feed event).failure? = some error) :
    error.IsStructural ∧
      (¬error.CutsOff → (session.feed event).state = session) ∧
      (error.CutsOff →
        (session.feed event).state = session.restart ∧
          session.state = .opened ∧
          session.assembly.table.isSome = true) := by
  have hstep := step_feed hagree event
  generalize session.feed event = outcome at hstep hfail ⊢
  cases hstep with
  | repeats hroot hstate | early hroot hstate | late hroot hstate =>
      cases hfail
      refine ⟨trivial, fun _ => rfl, ?_⟩
      rintro ⟨name, hname, -⟩
      cases hname
  | @misplaces name own assembly misplacement hroot hstate hstart =>
      cases hfail
      have hleft := Assembly.eq_of_start_error hstart
      obtain ⟨rfl, htable, -⟩ | ⟨rfl, -, hcell⟩ :=
        Assembly.start_error hstart
      · refine ⟨trivial, fun hkept => ?_, ?_⟩
        · have hafresh : ¬(Element.ofName name).startsAfresh = true :=
            fun hafresh => hkept ⟨name, rfl, hafresh⟩
          rw [if_neg hafresh] at hleft
          subst hleft
          rfl
        · rintro ⟨other, hname, hafresh⟩
          cases hname
          rw [if_pos hafresh] at hleft
          subst hleft
          exact ⟨rfl, hstate, htable⟩
      · rw [hcell] at hleft
        subst hleft
        refine ⟨trivial, fun _ => rfl, ?_⟩
        rintro ⟨other, hname, -⟩
        cases hname
  | opens | starts | passes | closes | stops | writes | ignores => cases hfail

/-! ## Chunks beside a table -/

/-- Wherever a table is open, some element has opened it. -/
theorem Reachable.exists_table (h : session.Reachable)
    (htable : session.assembly.table.isSome = true) :
    ∃ name, Text.lower name ≠ session.root ∧
      Element.ofName name = .table := by
  obtain ⟨root, store, renderer, events, hclosed, rfl⟩ := h
  let named (current : Session σ) : Prop :=
    current.assembly.table.isSome = true →
      ∃ name, Text.lower name ≠ current.root ∧ Element.ofName name = .table
  have hbegin : (begin root store renderer).InStep ∧
      named (begin root store renderer) :=
    ⟨inStep_begin hclosed root store, fun hopen => by cases hopen⟩
  have hfeed : ∀ current : Session σ, current.InStep ∧ named current →
      ∀ event, (current.feed event).state.InStep ∧
        named (current.feed event).state := by
    rintro current ⟨hagree, hnamed⟩ event
    refine ⟨hagree.feed event, ?_⟩
    have hstep := step_feed hagree event
    generalize current.feed event = outcome at hstep
    cases hstep with
    | @starts name own assembly requests hroot hstate hstart =>
        intro hopen
        obtain ⟨hcell, hnext⟩ := Assembly.start_ok hstart
        rcases hnext.mp hopen with hname | hname
        · exact hnamed (hcell.mpr hname)
        · exact ⟨name, hroot, hname⟩
    | @misplaces name own assembly misplacement hroot hstate hstart =>
        intro hopen
        apply hnamed
        have hleft := Assembly.eq_of_start_error hstart
        split at hleft <;> subst hleft <;> exact hopen
    | @stops name assembly requests hroot hstate hstop =>
        intro hopen
        have htables := current.assembly.stop_table (.ofName name)
        rw [hstop] at htables
        exact hnamed (htables.mp hopen).1
    | opens | repeats | early | late | passes | closes | writes | ignores =>
        exact hnamed
  exact (run_preserves hfeed hbegin events).2 htable

/-- The end of a table and of a heading behind it bring out the chunks that
stand beside the table. -/
theorem calls_asked_heading (hagree : session.InStep)
    (hstate : session.state = .opened) {table span heading : String}
    (htable : Text.lower table ≠ session.root ∧
      Element.ofName table = .table)
    (hspan : Text.lower span ≠ session.root ∧
      Element.ofName span = .generic)
    {kind : BlockKind} (hheading : Text.lower heading ≠ session.root ∧
      Element.ofName heading = .block kind)
    (hkind : kind ≠ .pageBreak ∧ kind ≠ .paragraph) :
    let chunks := session.assembly.composer.chunks
    Request.calls (session.asked
        [.stop table, .start span [], .stop heading]) =
      Request.calls (session.assembly.stop .table).2 ++
        if chunks = [] then [] else [.block ⟨kind, chunks⟩] := by
  intro chunks
  let cleared := session.assembly.composer.clearPending
  have hstop : session.assembly.stop (.ofName table) =
      (⟨cleared, none⟩, (session.assembly.stop .table).2) := by
    rw [htable.2]
    rfl
  obtain ⟨hagree, hasked⟩ := asked_stop hagree hstate htable.1 hstop
  rw [hasked]
  have hstart :
      Assembly.start session.store ⟨cleared, none⟩ (.ofName span) [] =
        (⟨cleared.enter [], none⟩, .ok []) := by
    rw [hspan.2]
    rfl
  obtain ⟨hagree, hasked⟩ := asked_start hagree hstate hspan.1 hstart
  rw [hasked]
  obtain ⟨entry, outer, hentries, -⟩ := cleared.exists_entries_enter []
  have hstop := Assembly.stop_block hentries hkind.1
  rw [← hheading.2] at hstop
  obtain ⟨-, hasked⟩ := asked_stop hagree hstate hheading.1 hstop
  rw [hasked]
  have hchunks : ((cleared.enter []).leave false).1.chunks = chunks :=
    Composer.chunks_leave_enter rfl []
  simp only [Assembly.blockRequests, Composer.finish,
    Composer.finishedChunks, hchunks, asked, Request.calls_append,
    List.append_nil, List.nil_append]
  by_cases hnone : chunks = []
  · simp [hnone, hkind.2]
  · simp [hnone]

omit [Renderer σ] [AcceptingRenderer σ] in
theorem restart_eq_self_iff :
    session.restart = session ↔ session.assembly.composer.chunks = [] := by
  constructor
  · intro hsame
    exact (congrArg (fun current => current.assembly.composer.chunks)
      hsame).symm
  · intro hnone
    obtain ⟨root, store, state, ⟨⟨entries, pending, chunks⟩, table⟩,
      diagnostics, renderer⟩ := session
    subst hnone
    rfl

omit [Renderer σ] [AcceptingRenderer σ] in
/-- Some name is that of an element without a meaning of its own, whatever the
root is called. -/
theorem exists_span (root : String) :
    ∃ span, Text.lower span ≠ root ∧ Element.ofName span = .generic := by
  by_cases hroot : root = "b"
  · exact ⟨"i", by rw [hroot]; decide +kernel, by decide +kernel⟩
  · have hlower : Text.lower "b" = "b" := by decide +kernel
    exact ⟨"b", by rwa [hlower, ne_comm], by decide +kernel⟩

omit [Renderer σ] [AcceptingRenderer σ] in
theorem exists_heading (root : String) :
    ∃ heading kind, (Text.lower heading ≠ root ∧
      Element.ofName heading = .block kind) ∧
        kind ≠ .pageBreak ∧ kind ≠ .paragraph := by
  by_cases hroot : root = "title"
  · exact ⟨"chapter", .chapter,
      ⟨by rw [hroot]; decide +kernel, by decide +kernel⟩, by decide⟩
  · have hlower : Text.lower "title" = "title" := by decide +kernel
    exact ⟨"title", .title,
      ⟨by rwa [hlower, ne_comm], by decide +kernel⟩, by decide⟩

/-- Chunks beside an open table are not forgotten: without them the session
would come to ask for something else. -/
theorem Reachable.chunks_eq_nil_of_asked (h : session.Reachable)
    (hstate : session.state = .opened)
    (htable : session.assembly.table.isSome = true)
    (hsame : ∀ later, session.restart.asked later = session.asked later) :
    session.assembly.composer.chunks = [] := by
  have hagree := h.inStep
  have hagree' : session.restart.InStep := hagree
  obtain ⟨table, htable⟩ := h.exists_table htable
  obtain ⟨span, hspan⟩ := exists_span session.root
  obtain ⟨heading, kind, hheading, hkind⟩ := exists_heading session.root
  have hwith :=
    calls_asked_heading hagree hstate htable hspan hheading hkind
  have hwithout : Request.calls (session.restart.asked
        [.stop table, .start span [], .stop heading]) =
      Request.calls (session.restart.assembly.stop .table).2 :=
    (calls_asked_heading hagree' hstate htable hspan hheading hkind).trans
      (List.append_nil _)
  have htables : (session.restart.assembly.stop .table).2 =
      (session.assembly.stop .table).2 := rfl
  rw [hsame, hwith, htables] at hwithout
  by_contra hsome
  simp [hsome] at hwithout

/-- What a refusal leaves of a session.  Nothing but the chunks can be gone,
and they are gone only if the element is one that starts afresh and a table is
open.  If there were any, the session comes to ask for other things than it
would have done without the element. -/
theorem feed_refused (hreachable : session.Reachable) {event : Event}
    {error : CompileError}
    (hfail : (session.feed event).failure? = some error) :
    let next := (session.feed event).state
    let kept := error.CutsOff → session.assembly.composer.chunks = []
    error.IsStructural ∧
      (¬error.CutsOff → next = session) ∧
      (error.CutsOff → next = session.restart) ∧
      (next = session ↔ kept) ∧
      ((∀ later, next.asked later = session.asked later) ↔ kept) := by
  intro next kept
  obtain ⟨hstructural, huntouched, hcut⟩ :=
    feed_error hreachable.inStep hfail
  have hnext : kept → next = session := by
    intro hkept
    by_cases hcuts : error.CutsOff
    · exact (hcut hcuts).1.trans (restart_eq_self_iff.mpr (hkept hcuts))
    · exact huntouched hcuts
  refine ⟨hstructural, huntouched, fun hcuts => (hcut hcuts).1, ?_, ?_⟩
  · constructor
    · intro hsame hcuts
      apply restart_eq_self_iff.mp
      rw [← (hcut hcuts).1]
      exact hsame
    · exact hnext
  · constructor
    · intro hsame hcuts
      obtain ⟨hrestart, hstate, htable⟩ := hcut hcuts
      apply hreachable.chunks_eq_nil_of_asked hstate htable
      rw [← hrestart]
      exact hsame
    · intro hkept later
      rw [hnext hkept]

end Accepting

/-- Events of nested elements behind which a chunk stands beside an open
table: the start of `b` is refused, and its end closes `i`. -/
def chunkBesideTable : List Event :=
  [.start "textpdf" [], .start "para" [], .start "i" [], .start "table" [],
    .start "cell" [], .start "b" [], .text "x", .stop "b"]

theorem feed_refused_title :
    let session := (begin "textpdf" .empty ({} : Recorder)).run
      chunkBesideTable
    let error := CompileError.notTableChild "title"
    session.Reachable ∧
      (session.feed (.start "title" [])).failure? = some error ∧
      ((session.feed (.start "title" [])).state = session ↔
        (error.CutsOff → session.assembly.composer.chunks = [])) := by
  intro session error
  have hreachable : session.Reachable := ⟨"textpdf", .empty, {}, _, rfl, rfl⟩
  have hfail :
      (session.feed (.start "title" [])).failure? = some error := by
    decide +kernel
  exact ⟨hreachable, hfail, (feed_refused hreachable hfail).2.2.2.1⟩

/-- The refused title takes the chunk with it, which would have become a
block. -/
theorem not_untouched_title :
    let session := (begin "textpdf" .empty ({} : Recorder)).run
      chunkBesideTable
    let refused := session.feed (.start "title" [])
    refused.failure? = some (.notTableChild "title") ∧
      session.assembly.composer.chunks = [{ contents := "x" }] ∧
      refused.state.assembly.composer.chunks = [] ∧
      (session.run [.stop "title"]).renderer.blocks =
        [⟨.title, [{ contents := "x" }]⟩] ∧
      (refused.state.run [.stop "title"]).renderer.blocks = [] := by
  decide +kernel

end Session
end DocTemplate
