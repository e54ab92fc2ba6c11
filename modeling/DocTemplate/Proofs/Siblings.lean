import DocTemplate.Compile.Template
import DocTemplate.Proofs.BlockBoundary
import DocTemplate.Proofs.Course
import DocTemplate.Proofs.Depth

/-!
# The children of the root

All children of the root share one list of chunks, and what a child leaves
there stays.  It is never seen again: nothing reads the chunks but the end of a
block, and the start of a block has cleared them.  Everything else a child
hands back as it has found it, if it is one that closes what it opens and lets
no text wait behind it.

So a document is compiled child by child.  What is between its opening and its
closing, and what is reported, is for each child what it would be if the child
stood alone.
-/

namespace DocTemplate

open Markup Renderer
open scoped List

/-! ## Chunks that nobody reads -/

namespace Composer

variable {first second : Composer}

theorem restart_eq_iff :
    first.restart = second.restart ↔
      first.entries = second.entries ∧ first.pending = second.pending := by
  simp [restart]

theorem enter_restart (h : first.restart = second.restart)
    (own : OwnAttributes) :
    (first.enter own).restart = (second.enter own).restart := by
  obtain ⟨hentries, hpending⟩ := restart_eq_iff.mp h
  unfold enter
  rw [hentries, hpending]
  cases second.entries with
  | nil => simp [restart]
  | cons parent outer =>
      dsimp only
      split
      · simp [restart]
      · simp [restart, flushInto, push, clearPending, hpending]

theorem leave_restart (h : first.restart = second.restart) (force : Bool) :
    (first.leave force).1.restart = (second.leave force).1.restart := by
  obtain ⟨hentries, hpending⟩ := restart_eq_iff.mp h
  unfold leave
  rw [hentries, hpending]
  cases second.entries with
  | nil => exact h
  | cons entry outer =>
      dsimp only
      split
      · simp [restart, flushInto, push, clearPending]
      · simp [restart]

theorem discard_restart (h : first.restart = second.restart) :
    first.discard.1.restart = second.discard.1.restart := by
  obtain ⟨hentries, hpending⟩ := restart_eq_iff.mp h
  unfold discard
  rw [hentries]
  cases second.entries with
  | nil => exact h
  | cons entry outer => simp [restart, hpending]

theorem addLiteral_restart (h : first.restart = second.restart)
    (text : String) :
    (first.addLiteral text).restart = (second.addLiteral text).restart := by
  obtain ⟨hentries, hpending⟩ := restart_eq_iff.mp h
  simp [addLiteral, restart, hentries, hpending]

theorem clearPending_restart (h : first.restart = second.restart) :
    first.clearPending.restart = second.clearPending.restart := by
  obtain ⟨hentries, -⟩ := restart_eq_iff.mp h
  simp [clearPending, restart, hentries]

theorem modifyTop_restart (h : first.restart = second.restart)
    (change : Chunk → Chunk) :
    (first.modifyTop change).restart = (second.modifyTop change).restart := by
  obtain ⟨hentries, hpending⟩ := restart_eq_iff.mp h
  simp [modifyTop, restart, hentries, hpending]

end Composer

namespace Assembly

open Composer

def restart (assembly : Assembly) : Assembly :=
  assembly.withComposer assembly.composer.restart

theorem restart_eq_iff {first second : Assembly} :
    first.restart = second.restart ↔
      first.composer.restart = second.composer.restart ∧
        first.table = second.table := by
  simp [restart, withComposer]

theorem openValue_restart {first second : Composer}
    (h : first.restart = second.restart) (store : DataStore)
    (own : OwnAttributes) :
    (openValue store first own).1.restart =
        (openValue store second own).1.restart ∧
      (openValue store first own).2 = (openValue store second own).2 := by
  have hopened := modifyTop_restart (enter_restart h own)
    fun entry => { entry with isPlaceholder := true }
  unfold openValue
  cases valueText store own with
  | error problem => exact ⟨hopened, rfl⟩
  | ok text =>
      have hfilled := addLiteral_restart hopened text
      dsimp only
      split
      · exact ⟨modifyTop_restart hfilled _, rfl⟩
      · exact ⟨hfilled, rfl⟩

theorem openSpace_restart {first second : Composer}
    (h : first.restart = second.restart) (own : OwnAttributes) :
    (openSpace first own).1.restart = (openSpace second own).1.restart ∧
      (openSpace first own).2 = (openSpace second own).2 := by
  have hopened := enter_restart h own
  unfold openSpace
  cases spaceText own with
  | error problem => exact ⟨hopened, rfl⟩
  | ok text => exact ⟨addLiteral_restart hopened text, rfl⟩

variable {first second next : Assembly} {store : DataStore}
  {element : Element} {own : OwnAttributes} {requests : List Request}

theorem startOutside_restart {composer other : Composer}
    (h : composer.restart = other.restart)
    (hplain : element.startsAfresh = false)
    (hstart : startOutside store composer element own =
      .ok (next, requests)) :
    ∃ started, startOutside store other element own =
        .ok (started, requests) ∧
      started.restart = next.restart := by
  cases element with
  | block kind | table => cases hplain
  | cell => cases hstart
  | page | rule | image =>
      cases hstart
      exact ⟨_, rfl, restart_eq_iff.mpr ⟨h.symm, rfl⟩⟩
  | value =>
      obtain ⟨hopened, hrequests⟩ := openValue_restart h store own
      simp only [startOutside, Except.ok.injEq, Prod.mk.injEq] at hstart
      obtain ⟨rfl, rfl⟩ := hstart
      refine ⟨⟨(openValue store other own).1, none⟩, ?_,
        restart_eq_iff.mpr ⟨hopened.symm, rfl⟩⟩
      simp only [startOutside, hrequests]
  | space =>
      obtain ⟨hopened, hrequests⟩ := openSpace_restart h own
      simp only [startOutside, Except.ok.injEq, Prod.mk.injEq] at hstart
      obtain ⟨rfl, rfl⟩ := hstart
      refine ⟨⟨(openSpace other own).1, none⟩, ?_,
        restart_eq_iff.mpr ⟨hopened.symm, rfl⟩⟩
      simp only [startOutside, hrequests]
  | lineBreak | generic =>
      cases hstart
      exact ⟨_, rfl, restart_eq_iff.mpr ⟨(enter_restart h own).symm, rfl⟩⟩

/-- The start of an element asks for the same whatever the chunks are, and
leaves the same but for the chunks. -/
theorem start_restart_congr (h : first.restart = second.restart)
    (hstart : first.start store element own = (next, .ok requests)) :
    ∃ other, second.start store element own = (other, .ok requests) ∧
      other.restart = next.restart ∧
      (element.startsAfresh = true → other = next) := by
  cases hafresh : element.startsAfresh with
  | true =>
      refine ⟨next, ?_, rfl, fun _ => rfl⟩
      rw [← start_restart store second hafresh own]
      change second.restart.start store element own = _
      rw [← h]
      exact (start_restart store first hafresh own).trans hstart
  | false =>
      obtain ⟨hcomposer, htable⟩ := restart_eq_iff.mp h
      simp only [start, hafresh, Bool.false_eq_true, if_false] at hstart ⊢
      rw [← htable]
      cases hfirst : first.table with
      | some table =>
          simp only [hfirst] at hstart ⊢
          split at hstart
          · rename_i hcell
            cases hstart
            rw [if_pos hcell]
            refine ⟨_, rfl, ?_, fun hblock => absurd hblock (by decide)⟩
            exact restart_eq_iff.mpr
              ⟨(clearPending_restart hcomposer).symm, rfl⟩
          · cases hstart
      | none =>
          simp only [hfirst] at hstart ⊢
          split at hstart
          · rename_i started asked hstarted
            cases hstart
            obtain ⟨other, hother, hsame⟩ :=
              startOutside_restart hcomposer hafresh hstarted
            rw [hother]
            exact ⟨other, rfl, hsame, fun hblock => absurd hblock (by decide)⟩
          · cases hstart

/-- So does the end of an element, unless that is a block or a table. -/
theorem stop_restart_congr (h : first.restart = second.restart)
    (hplain : element.startsAfresh = false) :
    (second.stop element).2 = (first.stop element).2 ∧
      (second.stop element).1.restart = (first.stop element).1.restart := by
  obtain ⟨hcomposer, htable⟩ := restart_eq_iff.mp h
  have hpending := (Composer.restart_eq_iff.mp hcomposer).2
  have hcleared := clearPending_restart hcomposer
  cases element with
  | block kind | table => cases hplain
  | page | rule | image => exact ⟨rfl, h.symm⟩
  | cell =>
      simp only [stop, ← htable]
      cases first.table with
      | none => exact ⟨rfl, h.symm⟩
      | some table =>
          rw [hpending]
          exact ⟨rfl, restart_eq_iff.mpr ⟨hcleared.symm, rfl⟩⟩
  | lineBreak =>
      have hdiscarded := discard_restart (addLiteral_restart hcomposer "\n")
      exact ⟨rfl, restart_eq_iff.mpr ⟨hdiscarded.symm, htable.symm⟩⟩
  | value | space | generic =>
      have hleft := leave_restart hcomposer
      simp only [stop, stopEntry, true_and]
      exact restart_eq_iff.mpr ⟨(hleft _).symm, htable.symm⟩

end Assembly

/-! ## Sessions side by side -/

namespace Session

variable {σ : Type} {first second : Session σ}

/-- A session with the same but for the chunks is the session with another
assembly. -/
theorem exists_assembly_of_restart_eq (h : first.restart = second.restart) :
    ∃ other : Assembly, first.assembly.restart = other.restart ∧
      second = { first with assembly := other } := by
  refine ⟨second.assembly, congrArg Session.assembly h, ?_⟩
  exact (congrArg (fun session : Session σ =>
    { session with assembly := second.assembly }) h).symm

variable [Renderer σ]

/-- Two sessions with the same but for their chunks take some events in an
open document, ask for the same, and have the same but for their chunks
behind them. -/
structure SideBySide (events : List Event) (first second : Session σ) :
    Prop where
  ok : (first.feedAll events).failure? = none
  other_ok : (second.feedAll events).failure? = none
  asked_eq : second.asked events = first.asked events
  restart_eq : (second.feedAll events).state.restart =
    (first.feedAll events).state.restart
  opened : (first.feedAll events).state.state = .opened

theorem SideBySide.append {events later : List Event}
    (h : SideBySide events first second)
    (hlater : SideBySide later (first.feedAll events).state
      (second.feedAll events).state) :
    SideBySide (events ++ later) first second where
  ok := feedAll_append_ok_iff.mpr ⟨h.ok, hlater.ok⟩
  other_ok := feedAll_append_ok_iff.mpr ⟨h.other_ok, hlater.other_ok⟩
  asked_eq := by
    rw [asked_append h.ok, asked_append h.other_ok, h.asked_eq,
      hlater.asked_eq]
  restart_eq := by
    rw [state_feedAll_append h.ok, state_feedAll_append h.other_ok]
    exact hlater.restart_eq
  opened := by
    rw [state_feedAll_append h.ok]
    exact hlater.opened

theorem SideBySide.of_feed {event : Event}
    (hok : (first.feed event).failure? = none)
    (hother : (second.feed event).failure? = none)
    (hrequests : (second.reaction event).requests =
      (first.reaction event).requests)
    (hrestart : (second.feed event).state.restart =
      (first.feed event).state.restart)
    (hopened : (first.feed event).state.state = .opened) :
    SideBySide [event] first second where
  ok := by rw [feedAll_cons_of_ok hok]; rfl
  other_ok := by rw [feedAll_cons_of_ok hother]; rfl
  asked_eq := by
    rw [asked_cons_of_ok hok, asked_cons_of_ok hother, hrequests]
    rfl
  restart_eq := by
    rw [feedAll_cons_of_ok hok, feedAll_cons_of_ok hother]
    exact hrestart
  opened := by
    rw [feedAll_cons_of_ok hok]
    exact hopened

variable [AcceptingRenderer σ]

section

variable (hsame : first.restart = second.restart) (hagree : first.InStep)
  (hstate : first.state = .opened)

include hsame hagree hstate

theorem sideBySide_start {name : String} {own : OwnAttributes}
    (hok : (first.feed (.start name own)).failure? = none) :
    SideBySide [.start name own] first second ∧
      ((Element.ofName name).startsAfresh = true →
        (second.feed (.start name own)).state =
          (first.feed (.start name own)).state) := by
  obtain ⟨other, hother, rfl⟩ := exists_assembly_of_restart_eq hsame
  obtain ⟨hname, assembly, requests, hstart, hfeed⟩ :=
    start_of_ok hagree hstate hok
  obtain ⟨started, hstarted, hrestart, hafresh⟩ :=
    Assembly.start_restart_congr hother hstart
  let second : Session σ := { first with assembly := other }
  have hstate' : second.state = .opened := hstate
  have hopen := hagree.mp hstate
  have hfeed' : second.feed (.start name own) =
      ⟨{ second with assembly := started }.meet requests, none⟩ :=
    start_opened hstate' hopen hname hstarted
  constructor
  · apply SideBySide.of_feed
    · exact hok
    · rw [hfeed']
    · simp [reaction, reactionInside, hname, hstate, hopen, hstart, hstarted]
    · rw [hfeed, hfeed']
      exact congrArg (fun assembly =>
        ({ first with assembly } : Session σ).meet requests) hrestart
    · rw [hfeed]
      exact hstate
  · intro hblock
    rw [hfeed, hfeed', hafresh hblock]

theorem sideBySide_stop {name : String}
    (hname : Text.lower name ≠ first.root)
    (hplain : (Element.ofName name).startsAfresh = false ∨ first = second) :
    SideBySide [.stop name] first second := by
  have hopen := hagree.mp hstate
  have hfeed := feed_stop_opened hstate hopen hname
  rcases hplain with hplain | rfl
  · obtain ⟨other, hother, rfl⟩ := exists_assembly_of_restart_eq hsame
    obtain ⟨hrequests, hrestart⟩ := Assembly.stop_restart_congr hother hplain
    let second : Session σ := { first with assembly := other }
    have hstate' : second.state = .opened := hstate
    have hfeed' := feed_stop_opened hstate' hopen hname
    apply SideBySide.of_feed
    · rw [hfeed]
    · rw [hfeed']
    · simp [reaction, hname, hstate, hrequests]
    · rw [hfeed, hfeed']
      simp only [second, hrequests]
      exact congrArg (fun assembly =>
        ({ first with assembly } : Session σ).meet _) hrestart
    · rw [hfeed]
      exact hstate
  · apply SideBySide.of_feed
    · rw [hfeed]
    · rw [hfeed]
    · rfl
    · rfl
    · rw [hfeed]
      exact hstate

omit [AcceptingRenderer σ] hagree in
theorem sideBySide_text (contents : String) :
    SideBySide [.text contents] first second := by
  obtain ⟨other, hother, rfl⟩ := exists_assembly_of_restart_eq hsame
  have hfeed : first.feed (.text contents) =
      ⟨{ first with assembly := first.assembly.addText contents }, none⟩ := by
    simp only [feed, addText, hstate]
  let second : Session σ := { first with assembly := other }
  have hfeed' : second.feed (.text contents) =
      ⟨{ second with assembly := other.addText contents }, none⟩ := by
    simp only [feed, addText, second, hstate]
  obtain ⟨hcomposer, htable⟩ := Assembly.restart_eq_iff.mp hother
  have hrestart : (other.addText contents).restart =
      (first.assembly.addText contents).restart :=
    Assembly.restart_eq_iff.mpr
      ⟨(Composer.addLiteral_restart hcomposer _).symm, htable.symm⟩
  apply SideBySide.of_feed
  · rw [hfeed]
  · rw [hfeed']
  · rfl
  · rw [hfeed, hfeed']
    exact congrArg (fun assembly =>
      ({ first with assembly } : Session σ)) hrestart
  · rw [hfeed]
    exact hstate

end

/-- Whatever the chunks are, a forest that is taken asks for the same. -/
theorem sideBySide_forest {forest : Forest}
    (hsame : first.restart = second.restart) (hagree : first.InStep)
    (hstate : first.state = .opened)
    (hok : (first.feedAll forest.events).failure? = none) :
    SideBySide forest.events first second := by
  induction forest generalizing first second with
  | nil => exact ⟨rfl, rfl, rfl, hsame.symm, hstate⟩
  | text contents rest ih =>
      have htext := sideBySide_text hsame hstate contents
      have hevents : (Forest.text contents rest).events =
          [.text contents] ++ rest.events := rfl
      rw [hevents] at hok ⊢
      apply htext.append
      apply ih htext.restart_eq.symm (hagree.feedAll _) htext.opened
      exact (feedAll_append_ok_iff.mp hok).2
  | element name own content rest ihcontent ihrest =>
      have hevents : (Forest.element name own content rest).events =
          [.start name own] ++
            (content.events ++ ([.stop name] ++ rest.events)) := rfl
      rw [hevents] at hok ⊢
      obtain ⟨hstart, hlater⟩ := feedAll_append_ok_iff.mp hok
      have hfeed := feed_ok_of_feedAll hstart
      obtain ⟨hname, -⟩ := start_of_ok hagree hstate hfeed
      obtain ⟨hstarted, hafresh⟩ :=
        sideBySide_start hsame hagree hstate hfeed
      apply hstarted.append
      obtain ⟨hcontent, hlater⟩ := feedAll_append_ok_iff.mp hlater
      have hagree' := hagree.feedAll [.start name own]
      have hsides :=
        ihcontent hstarted.restart_eq.symm hagree' hstarted.opened hcontent
      apply hsides.append
      have hagree'' := hagree'.feedAll content.events
      have hstops : Text.lower name ≠ (((first.feedAll
          [.start name own]).state.feedAll content.events).state).root := by
        rwa [root_feedAll, root_feedAll]
      have hplain : (Element.ofName name).startsAfresh = false ∨
          ((first.feedAll [.start name own]).state.feedAll
              content.events).state =
            ((second.feedAll [.start name own]).state.feedAll
              content.events).state := by
        cases hblock : (Element.ofName name).startsAfresh with
        | false => exact .inl rfl
        | true =>
            have hsecond := feed_ok_of_feedAll hstarted.other_ok
            right
            rw [feedAll_cons_of_ok hfeed, feedAll_cons_of_ok hsecond]
            simp only [feedAll_nil, hafresh hblock]
      have hstop := sideBySide_stop hsides.restart_eq.symm hagree''
        hsides.opened hstops hplain
      apply hstop.append
      obtain ⟨-, hrest⟩ := feedAll_append_ok_iff.mp hlater
      exact ihrest hstop.restart_eq.symm (hagree''.feedAll _) hstop.opened
        hrest

end Session

/-! ## Children -/

/-- Whether a child of the root with this element and content closes what it
opens and lets no text wait behind it. -/
def Element.settles (element : Element) (content : Forest) : Prop :=
  match element with
  | .page | .rule | .image | .block .pageBreak => content = .nil
  | .block _ | .table | .generic | .value | .space => True
  | .cell | .lineBreak => False

theorem Element.settles_iff {element : Element} {content : Forest} :
    element.settles content ↔
      (element.hasEntry = true ∧ element ≠ .lineBreak) ∨ element = .table ∨
        (element ∈ [.page, .rule, .image, .block .pageBreak] ∧
          content = .nil) := by
  cases element with
  | block kind => cases kind <;> simp [settles, hasEntry]
  | page | rule | image | table | cell | value | space | lineBreak
  | generic => simp [settles, hasEntry]

/-- A child of the root, with all that is in it. -/
def Markup.Forest.IsChild : Forest → Prop
  | .text contents .nil => Text.collapse contents = ""
  | .element name _ content .nil => (Element.ofName name).settles content
  | _ => False

namespace Assembly

/-- Nothing waits behind the end of an element that has an entry. -/
theorem pending_stop {assembly : Assembly} {entry : Chunk}
    {outer : List Chunk}
    (hentries : assembly.composer.entries = entry :: outer)
    {element : Element} (hentry : element.hasEntry = true)
    (hbreak : element ≠ .lineBreak) :
    (assembly.stop element).1.composer.pending = "" := by
  cases element with
  | block kind =>
      cases kind with
      | pageBreak => cases hentry
      | title | chapter | sectionHeading | paragraph =>
          obtain ⟨carrier, hcarrier⟩ :=
            Composer.carrier_leave hentries false
          have hleave : ∀ kind, assembly.composer.leave
                (Element.block kind).leavesChunk =
              ((assembly.composer.leave false).1, some carrier) :=
            fun kind => Prod.ext rfl hcarrier
          simp only [stop, stopEntry, hleave]
          exact Composer.pending_leave hentries false
  | value | space | generic =>
      simp only [stop, stopEntry]
      exact Composer.pending_leave hentries _
  | lineBreak => exact absurd rfl hbreak
  | page | rule | image | table | cell => cases hentry

/-- What waits at the start of an element without contents still waits behind
its end. -/
theorem pending_start_stop {store : DataStore} {assembly next : Assembly}
    {element : Element} {own : OwnAttributes} {requests : List Request}
    (helement : element ∈
      [.page, .rule, .image, .block .pageBreak])
    (hstart : assembly.start store element own = (next, .ok requests)) :
    (next.stop element).1.composer.pending = assembly.composer.pending := by
  have htable : assembly.table = none := by
    have hcell := (start_ok hstart).1
    cases htable : assembly.table with
    | none => rfl
    | some table =>
        rw [htable] at hcell
        rw [hcell.mp rfl] at helement
        simp at helement
  rw [eq_of_table_none htable] at hstart
  simp only [List.mem_cons, List.not_mem_nil, or_false] at helement
  rcases helement with rfl | rfl | rfl | rfl <;> cases hstart <;> rfl

end Assembly

namespace Markup

theorem openNames_append (first second : List Event) :
    openNames (first ++ second) = second.foldl Event.nest (openNames first) :=
  List.foldl_append

/-- The events of a forest are nested, and close all that they open. -/
theorem Forest.nested_events (forest : Forest) (names : List String) :
    Nested names forest.events ∧
      forest.events.foldl Event.nest names = names := by
  induction forest generalizing names with
  | nil => exact ⟨trivial, rfl⟩
  | text contents rest ih =>
      obtain ⟨hnested, hnames⟩ := ih names
      exact ⟨⟨trivial, hnested⟩, hnames⟩
  | element name own content rest ihcontent ihrest =>
      obtain ⟨hcontent, hinner⟩ := ihcontent (name :: names)
      obtain ⟨hrest, houter⟩ := ihrest names
      constructor
      · refine ⟨trivial, nested_append.mpr ⟨hcontent, ?_⟩⟩
        simp only [Event.nest, hinner]
        exact ⟨rfl, hrest⟩
      · simp only [events, List.foldl_cons, List.foldl_append, Event.nest,
          hinner, List.tail_cons, houter]

end Markup

/-- Elements are open only in an open document. -/
theorem Stacks.opened_of_ne_nil {σ : Type} [Renderer σ] {root : String}
    {before : List Event} {session : Session σ}
    (h : Stacks root before session) (hnames : openNames before ≠ []) :
    session.state = .opened := by
  by_contra hstate
  exact hnames (h.tracks.outside hstate)

namespace Session

variable {σ : Type} [Renderer σ]

/-- A session in which only the root is open and no text waits. -/
structure Idle (root name : String) (before : List Event)
    (session : Session σ) : Prop where
  stacked : Stacks root before session
  openNames_eq : openNames before = [name]
  pending_eq : session.assembly.composer.pending = ""

variable [AcceptingRenderer σ] {session : Session σ} {root name : String}
  {before : List Event}

omit [AcceptingRenderer σ] in
theorem Idle.opened (h : Idle root name before session) :
    session.state = .opened := by
  apply h.stacked.opened_of_ne_nil
  rw [h.openNames_eq]
  exact List.cons_ne_nil _ _

theorem Idle.pending_element (h : Idle root name before session)
    {child : String} {own : OwnAttributes} {content : Forest}
    (hsettles : (Element.ofName child).settles content)
    (hok : (session.feedAll
      (.start child own :: (content.events ++ [.stop child]))).failure? =
        none) :
    (session.feedAll (.start child own :: (content.events ++ [.stop child]))
      ).state.assembly.composer.pending = "" := by
  have hagree := h.stacked.tracks.inStep
  have hroot := h.stacked.tracks.root_eq
  have hstart := feed_ok_of_feedAll hok
  obtain ⟨hname, assembly, requests, hstarted, hfeed⟩ :=
    start_of_ok hagree h.opened hstart
  let front := .start child own :: content.events
  rw [← List.cons_append] at hok ⊢
  obtain ⟨hfront, hstop⟩ := feedAll_append_ok_iff.mp hok
  rw [state_feedAll_append hfront]
  -- Before its end the child is open in the root.
  have hnested : Nested (openNames before) front :=
    ⟨trivial, (content.nested_events _).1⟩
  have hstacks := h.stacked.feedAll hnested hfront
  have hnames : openNames (before ++ front) = [child, name] := by
    rw [openNames_append, h.openNames_eq]
    exact (content.nested_events [child, name]).2
  let filled := (session.feedAll front).state
  have hopened : filled.state = .opened :=
    hstacks.opened_of_ne_nil (by rw [hnames]; exact List.cons_ne_nil _ _)
  have hstops : Text.lower child ≠ filled.root := by
    rwa [root_feedAll]
  have hlast := feed_stop_opened hopened
    (hstacks.tracks.inStep.mp hopened) hstops
  have hafter : (filled.feedAll [.stop child]).state.assembly =
      (filled.assembly.stop (.ofName child)).1 := by
    rw [feedAll_cons_of_ok (by rw [hlast]), hlast]
    rfl
  change (filled.feedAll [.stop child]).state.assembly.composer.pending = ""
  rw [hafter]
  rcases Element.settles_iff.mp hsettles with ⟨hentry, hbreak⟩ | htable |
    ⟨hempty, rfl⟩
  · have hdepth : 0 < filled.assembly.composer.entries.length := by
      have hcount := hstacks.depth_eq
      rw [hnames, List.countP_cons_of_pos] at hcount
      · exact Nat.lt_of_lt_of_eq (Nat.succ_pos _) hcount.symm
      · rw [decide_eq_true_eq, hasEntry_iff (hroot ▸ hname)]
        exact hentry
    obtain ⟨entry, outer, hentries⟩ :=
      List.exists_cons_of_length_pos hdepth
    exact Assembly.pending_stop hentries hentry hbreak
  · rw [htable]
    rfl
  · have hfilled : filled.assembly = assembly := by
      simp only [filled, front, Forest.events]
      rw [feedAll_cons_of_ok hstart, hfeed]
      rfl
    rw [hfilled, Assembly.pending_start_stop hempty hstarted]
    exact h.pending_eq

theorem Idle.feedAll_child (h : Idle root name before session)
    {child : Forest} (hchild : child.IsChild)
    (hok : (session.feedAll child.events).failure? = none) :
    Idle root name (before ++ child.events)
      (session.feedAll child.events).state where
  stacked := h.stacked.feedAll (child.nested_events _).1 hok
  openNames_eq := by
    rw [openNames_append, (child.nested_events _).2]
    exact h.openNames_eq
  pending_eq := by
    match child, hchild with
    | .text contents .nil, hblank =>
        have hfeed : session.feedAll [.text contents] =
            ⟨{ session with assembly := session.assembly.addText contents },
              none⟩ := by
          simp [feedAll_cons, feed, addText, h.opened]
        have hcollapse : Text.collapse contents = "" := hblank
        simp only [Forest.events, hfeed, Assembly.addText,
          Assembly.withComposer, Composer.addTemplateText, hcollapse,
          h.pending_eq, String.append_empty]
    | .element child own content .nil, hsettles =>
        exact h.pending_element hsettles hok

omit [AcceptingRenderer σ] in
theorem Idle.lower_name (h : Idle root name before session) :
    Text.lower name = root := by
  obtain ⟨inner, bottom, hnames, hbottom, -⟩ :=
    h.stacked.tracks.inside h.opened
  rw [h.openNames_eq] at hnames
  cases inner with
  | nil =>
      obtain rfl : name = bottom := by simpa using hnames
      exact hbottom
  | cons first others => simp at hnames

omit [AcceptingRenderer σ] in
theorem Idle.restart_eq (h : Idle root name before session) :
    session.restart.assembly = {} := by
  have hname := h.lower_name
  have hentries : session.assembly.composer.entries = [] := by
    have hdepth := h.stacked.depth_eq
    rw [h.openNames_eq] at hdepth
    apply List.length_eq_zero_iff.mp
    change session.assembly.composer.depth = 0
    simpa [HasEntry, hname] using hdepth
  have htable : session.assembly.table = none := by
    have htables := h.stacked.tracks.tables
    rw [h.openNames_eq] at htables
    cases htable : session.assembly.table with
    | none => rfl
    | some table => simp [IsTable, hname, htable] at htables
  simp [restart, Assembly.withComposer, Composer.restart, hentries, htable,
    h.pending_eq]

omit [AcceptingRenderer σ] in
/-- All that distinguishes idle sessions of one document is the chunks, and
what the renderer has made of the document. -/
theorem Idle.sameCourse {other : Session σ} {earlier : List Event}
    (h : Idle root name before session)
    (hother : Idle root name earlier other)
    (hstore : session.store = other.store) :
    session.restart.SameCourse other.restart where
  root_eq := h.stacked.tracks.root_eq.trans hother.stacked.tracks.root_eq.symm
  store_eq := hstore
  state_eq := h.opened.trans hother.opened.symm
  assembly_eq := h.restart_eq.trans hother.restart_eq.symm

/-- Children one after the other ask for what each of them asks for alone. -/
theorem Idle.asked_children {fresh : Session σ} {earlier : List Event}
    (hfresh : Idle root name earlier fresh)
    (h : Idle root name before session)
    (hstore : fresh.store = session.store) {children : List Forest}
    (hchildren : ∀ child ∈ children, child.IsChild ∧
      (fresh.feedAll child.events).failure? = none) :
    let events := children.flatMap Forest.events
    (session.feedAll events).failure? = none ∧
      session.asked events =
        children.flatMap (fun child => fresh.asked child.events) ∧
      Idle root name (before ++ events) (session.feedAll events).state := by
  induction children generalizing before session with
  | nil =>
      simp only [List.flatMap_nil, List.append_nil]
      exact ⟨rfl, rfl, h⟩
  | cons child rest ih =>
      obtain ⟨⟨hchild, hok⟩, hrest⟩ := List.forall_mem_cons.mp hchildren
      have hagree : session.restart.InStep := h.stacked.tracks.inStep
      have hagree' : fresh.restart.InStep := hfresh.stacked.tracks.inStep
      -- Neither session looks at its chunks, and apart from them they agree.
      have hthere : SideBySide child.events fresh fresh.restart :=
        sideBySide_forest rfl hagree' hfresh.opened hok
      obtain ⟨hasked, hok', -⟩ := (hfresh.sameCourse h hstore).asked_eq
        hagree' hagree hthere.other_ok
      have hhere : SideBySide child.events session.restart session :=
        sideBySide_forest rfl hagree h.opened hok'
      have hnext := h.feedAll_child hchild hhere.other_ok
      obtain ⟨hlater, haskedLater, hidle⟩ := ih hnext
        (hstore.trans (session.store_feedAll child.events).symm) hrest
      simp only [List.flatMap_cons]
      refine ⟨feedAll_append_ok_iff.mpr ⟨hhere.other_ok, hlater⟩, ?_, ?_⟩
      · rw [asked_append hhere.other_ok, haskedLater, hhere.asked_eq, hasked,
          hthere.asked_eq]
      · rw [state_feedAll_append hhere.other_ok, ← List.append_assoc]
        exact hidle

end Session

/-! ## Documents -/

/-- The events of a document with some children of the root. -/
def documentEvents (name : String) (own : OwnAttributes)
    (children : List Forest) : List Event :=
  .start name own :: (children.flatMap Forest.events ++ [.stop name])

/-- What a recorder makes of a template that reads as some events. -/
def recorded (root : String) (store : DataStore) (events : List Event) :
    Compiled Recorder :=
  .ofOutcome ((Session.begin root store ({} : Recorder)).feedAll events) none

theorem compile_eq_recorded {template : String} {events : List Event}
    (hread : Markup.read template = (events, none)) (root : String)
    (store : DataStore) :
    compile template store ({} : Recorder) root =
      recorded root store events := by
  simp only [compile, hread, recorded]

namespace Session

/-- A session behind the start of the root. -/
def rootOpened (root : String) (store : DataStore) : Session Recorder :=
  { begin root store ⟨[.openDocument], true⟩ with state := .opened }

variable {root name : String} (hname : Text.lower name = Text.lower root)
  (own : OwnAttributes) (store : DataStore)

include hname

theorem feed_root :
    (begin root store ({} : Recorder)).feed (.start name own) =
      ⟨rootOpened root store, none⟩ := by
  simp [feed, start, begin, hname, openDocument, isOpen, perform,
    Recorder.perform, Recorder.record, rootOpened]

theorem idle_root :
    Idle (Text.lower root) name [.start name own]
      (rootOpened root store) := by
  have hclosed : isOpen ({} : Recorder) = false := rfl
  have hfits : (Event.start name own).Fits (openNames []) := trivial
  have hfeed := feed_root hname own store
  have hstacks :=
    (Stacks.begin hclosed root store).feed hfits (by rw [hfeed])
  rw [hfeed] at hstacks
  exact ⟨hstacks, rfl, rfl⟩

/-- A document asks for its opening, for what its children ask for, and for its
closing. -/
theorem asked_document {children : List Forest}
    (hchildren : ∀ child ∈ children, child.IsChild ∧
      ((rootOpened root store).feedAll child.events).failure? = none) :
    let session := begin root store ({} : Recorder)
    let events := documentEvents name own children
    (session.feedAll events).failure? = none ∧
      (session.feedAll events).state.state = .closed ∧
      session.asked events = .call .openDocument ::
        (children.flatMap
            (fun child => (rootOpened root store).asked child.events) ++
          [.call .closeDocument]) := by
  intro session events
  have hidle := idle_root hname own store
  have hstart := feed_root hname own store
  have hstarted : (session.feed (.start name own)).failure? = none := by
    rw [hstart]
  have hreaction : (session.reaction (.start name own)).requests =
      [.call .openDocument] := by
    simp [reaction, session, begin, hname, isOpen]
  obtain ⟨hok, hasked, hlast⟩ := hidle.asked_children hidle rfl hchildren
  let filled := ((rootOpened root store).feedAll
    (children.flatMap Forest.events)).state
  have hagree : filled.InStep := hlast.stacked.tracks.inStep
  have hroot : Text.lower name = filled.root :=
    hname.trans hlast.stacked.tracks.root_eq.symm
  have hstop : filled.feed (.stop name) =
      ⟨{ filled with
          state := .closed
          renderer := (perform filled.renderer .closeDocument).state },
        none⟩ := by
    rw [← closeDocument_opened (hagree.mp hlast.opened)]
    simp [feed, stop, hlast.opened, filled, hroot]
  have hstopped : (filled.feed (.stop name)).failure? = none := by
    rw [hstop]
  have hclosing : (filled.reaction (.stop name)).requests =
      [.call .closeDocument] := by
    simp [reaction, hlast.opened, filled, hroot]
  have hend : (filled.feedAll [.stop name]).failure? = none := by
    rw [feedAll_cons_of_ok hstopped]
    rfl
  simp only [events, documentEvents]
  rw [feedAll_cons_of_ok hstarted, asked_cons_of_ok hstarted, hreaction,
    hstart]
  refine ⟨feedAll_append_ok_iff.mpr ⟨hok, hend⟩, ?_, ?_⟩
  · rw [state_feedAll_append hok]
    change (filled.feedAll [.stop name]).state.state = .closed
    rw [feedAll_cons_of_ok hstopped, hstop]
    rfl
  · rw [asked_append hok, hasked]
    change _ ++ (_ ++ filled.asked [.stop name]) = _
    rw [asked_cons_of_ok hstopped, hclosing]
    rfl

/-- A child whose document compiles is taken behind the start of the root. -/
theorem feedAll_child_ok {child : Forest} {diagnostics : List Diagnostic}
    (hcompiled : (recorded root store (documentEvents name own [child])
      ).result = .ok diagnostics) :
    ((rootOpened root store).feedAll child.events).failure? = none := by
  have hstart := feed_root hname own store
  obtain ⟨hfeed, -⟩ := Compiled.result_ok_iff.mp hcompiled
  simp only [documentEvents, List.flatMap_singleton] at hfeed
  rw [feedAll_cons_of_ok (by rw [hstart]), hstart] at hfeed
  exact (feedAll_append_ok_iff.mp hfeed).1

end Session

/-! ## Child by child -/

/-- What a child of the root has a renderer do, in a document of its own. -/
def Markup.Forest.inner (root : String) (store : DataStore)
    (child : Forest) : List RenderCall :=
  Request.calls ((Session.rootOpened root store).asked child.events)

/-- What is reported of a child of the root. -/
def Markup.Forest.found (root : String) (store : DataStore)
    (child : Forest) : List Diagnostic :=
  (Request.problems
    ((Session.rootOpened root store).asked child.events)).map
      Problem.diagnostic

theorem Request.calls_flatMap {α : Type} (requests : α → List Request)
    (list : List α) :
    calls (list.flatMap requests) =
      list.flatMap fun entry => calls (requests entry) :=
  List.filterMap_flatMap

theorem Request.problems_flatMap {α : Type} (requests : α → List Request)
    (list : List α) :
    problems (list.flatMap requests) =
      list.flatMap fun entry => problems (requests entry) :=
  List.filterMap_flatMap

theorem recorded_children {root name : String}
    (hname : Text.lower name = Text.lower root) (own : OwnAttributes)
    (store : DataStore) {children : List Forest}
    (hchildren : ∀ child ∈ children, child.IsChild ∧
      ((Session.rootOpened root store).feedAll child.events).failure? =
        none) :
    let compiled := recorded root store (documentEvents name own children)
    compiled.renderer.calls = .openDocument ::
        (children.flatMap (Forest.inner root store) ++ [.closeDocument]) ∧
      compiled.result = .ok (Session.loadReports store ++
        children.flatMap (Forest.found root store)) := by
  intro compiled
  obtain ⟨hok, hclosed, hasked⟩ :=
    Session.asked_document hname own store hchildren
  have hagree : (Session.begin root store ({} : Recorder)).InStep :=
    Session.inStep_begin rfl root store
  obtain ⟨hcalls, hdiagnostics⟩ :=
    Session.feedAll_recorder hagree (documentEvents name own children)
  rw [hasked] at hcalls hdiagnostics
  constructor
  · simp only [compiled, recorded, Compiled.ofOutcome, hcalls]
    simp [Session.begin, Request.calls_flatMap]
    rfl
  · apply Compiled.result_ok_iff.mpr
    refine ⟨hok, rfl, hclosed, ?_⟩
    rw [hdiagnostics]
    simp [Session.begin, Request.problems_flatMap, List.map_flatMap]
    rfl

/-- The calls of a document are its opening, the calls of its children in their
order, and its closing; its diagnostics behind those of the data are the
diagnostics of its children in their order. -/
theorem recorded_document {root name : String}
    (hname : Text.lower name = Text.lower root) (own : OwnAttributes)
    (store : DataStore) {children : List Forest}
    (hchildren : ∀ child ∈ children, child.IsChild ∧
      ∃ diagnostics, (recorded root store
        (documentEvents name own [child])).result = .ok diagnostics) :
    let compiled (children : List Forest) :=
      recorded root store (documentEvents name own children)
    ∃ (inner : Forest → List RenderCall) (found : Forest → List Diagnostic),
      (∀ child ∈ children,
        (compiled [child]).renderer.calls =
            .openDocument :: (inner child ++ [.closeDocument]) ∧
          (compiled [child]).result =
            .ok (Session.loadReports store ++ found child)) ∧
      (compiled children).renderer.calls =
        .openDocument :: (children.flatMap inner ++ [.closeDocument]) ∧
      (compiled children).result =
        .ok (Session.loadReports store ++ children.flatMap found) ∧
      (∀ front first between second back,
        children = front ++ first :: (between ++ second :: back) →
          let swapped :=
            compiled (front ++ second :: (between ++ first :: back))
          let calls (one other : Forest) : List RenderCall :=
            .openDocument :: (front.flatMap inner ++ inner one ++
              between.flatMap inner ++ inner other ++ back.flatMap inner ++
                [.closeDocument])
          (compiled children).renderer.calls = calls first second ∧
            swapped.renderer.calls = calls second first ∧
            swapped.renderer.calls.Perm (compiled children).renderer.calls) ∧
      ∀ template,
        Markup.read template = (documentEvents name own children, none) →
          compile template store ({} : Recorder) root = compiled children := by
  intro compiled
  have htaken : ∀ child ∈ children, child.IsChild ∧
      ((Session.rootOpened root store).feedAll child.events).failure? =
        none := by
    intro child hchild
    obtain ⟨hshape, diagnostics, hcompiled⟩ := hchildren child hchild
    exact ⟨hshape, Session.feedAll_child_ok hname own store hcompiled⟩
  obtain ⟨hcalls, hresult⟩ := recorded_children hname own store htaken
  refine ⟨Forest.inner root store, Forest.found root store, ?_, hcalls,
    hresult, ?_, ?_⟩
  · intro child hchild
    have hone := @recorded_children _ _ hname own store [child] (by
      rintro _ hmem
      obtain rfl := List.mem_singleton.mp hmem
      exact htaken _ hchild)
    simpa using hone
  · rintro front first between second back rfl swapped calls
    have hperm : (front ++ second :: (between ++ first :: back)).Perm
        (front ++ first :: (between ++ second :: back)) := by
      apply List.Perm.append_left
      calc
        second :: (between ++ first :: back)
        _ ~ second :: first :: (between ++ back) := List.perm_middle.cons _
        _ ~ first :: second :: (between ++ back) := .swap _ _ _
        _ ~ first :: (between ++ second :: back) :=
            List.perm_middle.symm.cons _
    obtain ⟨hswapped, -⟩ := recorded_children hname own store
      fun child hchild => htaken child (hperm.mem_iff.mp hchild)
    refine ⟨?_, ?_, ?_⟩
    · rw [hcalls]
      simp [calls]
    · rw [hswapped]
      simp [calls]
    · rw [hcalls, hswapped]
      exact ((hperm.flatMap_right _).append_right _).cons _
  · intro template hread
    exact compile_eq_recorded hread root store

/-- Text in an inline element of the root is lost, whatever stands beside
it. -/
theorem recorded_document_lost :
    let lost : Forest := .element "b" [] (.text "lost" .nil) .nil
    let kept : Forest := .element "para" [] (.text "kept" .nil) .nil
    let compiled (children : List Forest) :=
      recorded "doc" .empty (documentEvents "DOC" [] children)
    Text.lower "DOC" = Text.lower "doc" ∧
      (∀ child ∈ [lost, kept], child.IsChild ∧
        (compiled [child]).result = .ok []) ∧
      (compiled [lost, kept]).renderer.calls =
        (compiled [kept]).renderer.calls := by
  intro lost kept compiled
  have hname : Text.lower "DOC" = Text.lower "doc" := by decide +kernel
  have hlost : (compiled [lost]).result = .ok [] ∧
      (compiled [lost]).renderer.calls = [.openDocument, .closeDocument] := by
    decide +kernel
  have hkept : (compiled [kept]).result = .ok [] := by decide +kernel
  have hshapes : lost.IsChild ∧ kept.IsChild := by
    have hinline : Element.ofName "b" = .generic := by decide +kernel
    have hblock : Element.ofName "para" = .block .paragraph := by
      decide +kernel
    simp only [lost, kept, Forest.IsChild, hinline, hblock, Element.settles,
      and_self]
  have hchildren : ∀ child ∈ [lost, kept], child.IsChild ∧
      (compiled [child]).result = .ok [] := by
    simp only [List.forall_mem_cons, List.not_mem_nil, false_imp_iff,
      implies_true, and_true]
    exact ⟨⟨hshapes.1, hlost.1⟩, hshapes.2, hkept⟩
  refine ⟨hname, hchildren, ?_⟩
  obtain ⟨inner, found, halone, hcalls, -⟩ := recorded_document hname [] .empty
    fun child hchild => ⟨(hchildren child hchild).1, [],
      (hchildren child hchild).2⟩
  obtain ⟨hfirst, -⟩ := halone lost List.mem_cons_self
  obtain ⟨hsecond, -⟩ := halone kept
    (List.mem_cons_of_mem _ List.mem_cons_self)
  have hnothing : inner lost = [] := by
    have htwo := hlost.2.symm.trans hfirst
    simpa using htwo
  change (compiled [lost, kept]).renderer.calls = _ at hcalls
  rw [hcalls, hsecond]
  simp [hnothing]

end DocTemplate
