import DocTemplate.Compile.Template
import DocTemplate.Proofs.Nesting
import DocTemplate.Proofs.Placement
import DocTemplate.Proofs.Run

/-!
# The structure of a template

A template has a structure that can be told from its tags alone: one root
element around everything, and tables that hold cells, which stand nowhere
else.  A compilation keeps no tree, only whether the document is open and the
table in the making.  This file shows that this is enough: on a renderer that
accepts everything a template compiles exactly if it is structured, and
otherwise the error is that of the first start tag that breaks a rule.
-/

namespace DocTemplate

open Markup Renderer

/-! ## Structured events -/

/-- Whether an element other than the root is a table.  The root has its name
in small letters, here as everywhere below. -/
def IsTable (root name : String) : Prop :=
  Text.lower name ≠ root ∧ Element.ofName name = .table

def IsCell (root name : String) : Prop :=
  Text.lower name ≠ root ∧ Element.ofName name = .cell

instance (root name : String) : Decidable (IsTable root name) :=
  inferInstanceAs (Decidable (_ ∧ _))

def RootStarted (root : String) (events : List Event) : Prop :=
  ∃ name own, .start name own ∈ events ∧ Text.lower name = root

def RootEnded (root : String) (events : List Event) : Prop :=
  ∃ name, .stop name ∈ events ∧ Text.lower name = root

/-- Whether a table is open behind some events. -/
def InTable (root : String) (events : List Event) : Prop :=
  ∃ name ∈ openNames events, IsTable root name

/-- Among some events, an element of this name starts behind these. -/
def StartsBehind (events before : List Event) (name : String) : Prop :=
  ∃ own after, events = before ++ .start name own :: after

def NothingStarts (events : List Event) : Prop :=
  ∀ name own, .start name own ∉ events

/-- The rules for the elements of a template. -/
structure Structured (root : String) (events : List Event) : Prop where
  root_first : ∀ before name, StartsBehind events before name →
    NothingStarts before → Text.lower name = root
  root_once : ∀ before name, StartsBehind events before name →
    RootStarted root before → Text.lower name ≠ root
  nothing_behind : ∀ before name, StartsBehind events before name →
    ¬RootEnded root before
  cells_only : ∀ before name, StartsBehind events before name →
    InTable root before → IsCell root name
  cells_inside : ∀ before name, StartsBehind events before name →
    IsCell root name → InTable root before
  root_ends : RootEnded root events

/-- How the start of an element breaks a rule, given the events before it. -/
inductive Fault (root : String) (before : List Event) (name : String) :
    CompileError → Prop
  | early (hname : Text.lower name ≠ root)
      (hstarted : ¬RootStarted root before) :
      Fault root before name (.notOpened name root)
  | repeats (hname : Text.lower name = root)
      (hstarted : RootStarted root before) :
      Fault root before name (.duplicateRoot root)
  | late (hname : Text.lower name ≠ root)
      (hstarted : RootStarted root before) (hended : RootEnded root before) :
      Fault root before name (.afterClose name)
  | tableChild (hname : Text.lower name ≠ root)
      (hstarted : RootStarted root before) (hended : ¬RootEnded root before)
      (htable : InTable root before) (hcell : Element.ofName name ≠ .cell) :
      Fault root before name (.notTableChild name)
  | strayCell (hname : Text.lower name ≠ root)
      (hstarted : RootStarted root before) (hended : ¬RootEnded root before)
      (htable : ¬InTable root before) (hcell : Element.ofName name = .cell) :
      Fault root before name .cellOutsideTable

/-- Events without an element that breaks a rule. -/
def Faultless (root : String) (events : List Event) : Prop :=
  ∀ before name error, StartsBehind events before name →
    ¬Fault root before name error

/-- The error of the first element that breaks a rule. -/
def FirstFault (root : String) (events : List Event)
    (error : CompileError) : Prop :=
  ∃ before name, StartsBehind events before name ∧ Faultless root before ∧
    Fault root before name error

/-! ## Events one after the other -/

@[simp] theorem rootStarted_append {root : String}
    {first second : List Event} :
    RootStarted root (first ++ second) ↔
      RootStarted root first ∨ RootStarted root second := by
  simp only [RootStarted, List.mem_append, or_and_right, exists_or]

@[simp] theorem rootEnded_append {root : String}
    {first second : List Event} :
    RootEnded root (first ++ second) ↔
      RootEnded root first ∨ RootEnded root second := by
  simp only [RootEnded, List.mem_append, or_and_right, exists_or]

@[simp] theorem rootStarted_start {root name : String}
    {own : OwnAttributes} :
    RootStarted root [.start name own] ↔ Text.lower name = root := by
  simp [RootStarted]

@[simp] theorem rootStarted_stop {root name : String} :
    ¬RootStarted root [.stop name] := by
  simp [RootStarted]

@[simp] theorem rootStarted_text {root text : String} :
    ¬RootStarted root [.text text] := by
  simp [RootStarted]

@[simp] theorem rootEnded_start {root name : String}
    {own : OwnAttributes} : ¬RootEnded root [.start name own] := by
  simp [RootEnded]

@[simp] theorem rootEnded_stop {root name : String} :
    RootEnded root [.stop name] ↔ Text.lower name = root := by
  simp [RootEnded]

@[simp] theorem rootEnded_text {root text : String} :
    ¬RootEnded root [.text text] := by
  simp [RootEnded]

/-- What starts among the events up to one more starts before it, or with
it. -/
theorem startsBehind_append_singleton {events before : List Event}
    {event : Event} {name : String} :
    StartsBehind (events ++ [event]) before name ↔
      StartsBehind events before name ∨
        before = events ∧ ∃ own, event = .start name own := by
  constructor
  · rintro ⟨own, after, hsplit⟩
    rcases List.eq_nil_or_concat after with rfl | ⟨rest, last, rfl⟩
    · have hlast := List.append_inj' hsplit rfl
      exact .inr ⟨hlast.1.symm, own, by simpa using hlast.2⟩
    · rw [List.concat_eq_append, ← List.cons_append, ← List.append_assoc]
        at hsplit
      exact .inl ⟨own, rest, (List.append_inj' hsplit rfl).1⟩
  · rintro (⟨own, after, rfl⟩ | ⟨rfl, own, rfl⟩)
    · exact ⟨own, after ++ [event], by simp⟩
    · exact ⟨own, [], rfl⟩

theorem faultless_append_singleton {root : String} {events : List Event}
    {event : Event} :
    Faultless root (events ++ [event]) ↔
      Faultless root events ∧
        ∀ name own error, event = .start name own →
          ¬Fault root events name error := by
  simp only [Faultless, startsBehind_append_singleton]
  constructor
  · intro h
    refine ⟨fun before name error hstart => h before name error (.inl hstart),
      fun name own error hevent => ?_⟩
    exact h events name error (.inr ⟨rfl, own, hevent⟩)
  · rintro ⟨hearlier, hlast⟩ before name error (hstart | ⟨rfl, own, hevent⟩)
    · exact hearlier before name error hstart
    · exact hlast name own error hevent

theorem Fault.unique {root : String} {before : List Event} {name : String}
    {first second : CompileError} (hfirst : Fault root before name first)
    (hsecond : Fault root before name second) : first = second := by
  cases hfirst <;> cases hsecond <;> first | rfl | contradiction

/-- Of two places at which elements start, one is the earlier. -/
theorem StartsBehind.total {events first second : List Event}
    {name other : String} (hfirst : StartsBehind events first name)
    (hsecond : StartsBehind events second other) :
    StartsBehind second first name ∨ (first = second ∧ name = other) ∨
      StartsBehind first second other := by
  obtain ⟨own, after, rfl⟩ := hfirst
  obtain ⟨own', after', hsplit⟩ := hsecond
  rcases List.append_eq_append_iff.mp hsplit with
    ⟨between, hsecond, hafter⟩ | ⟨between, hfirst, hafter⟩
  · cases between with
    | nil =>
        simp only [List.nil_append, List.cons.injEq, Event.start.injEq]
          at hafter
        exact .inr (.inl ⟨by simpa using hsecond.symm, hafter.1.1⟩)
    | cons event rest =>
        obtain ⟨rfl, -⟩ := List.cons.inj hafter
        exact .inl ⟨own, rest, hsecond⟩
  · cases between with
    | nil =>
        simp only [List.nil_append, List.cons.injEq, Event.start.injEq]
          at hafter
        exact .inr (.inl ⟨by simpa using hfirst, hafter.1.1.symm⟩)
    | cons event rest =>
        obtain ⟨rfl, -⟩ := List.cons.inj hafter
        exact .inr (.inr ⟨own', rest, hfirst⟩)

theorem FirstFault.not_faultless {root : String} {events : List Event}
    {error : CompileError} (h : FirstFault root events error) :
    ¬Faultless root events := by
  obtain ⟨before, name, hstart, -, hfault⟩ := h
  exact fun hfaultless => hfaultless before name error hstart hfault

theorem FirstFault.unique {root : String} {events : List Event}
    {first second : CompileError} (hfirst : FirstFault root events first)
    (hsecond : FirstFault root events second) : first = second := by
  obtain ⟨before, name, hstart, hfaultless, hfault⟩ := hfirst
  obtain ⟨before', name', hstart', hfaultless', hfault'⟩ := hsecond
  rcases hstart.total hstart' with hearlier | ⟨rfl, rfl⟩ | hlater
  · exact absurd hfault (hfaultless' before name first hearlier)
  · exact hfault.unique hfault'
  · exact absurd hfault' (hfaultless before' name' second hlater)

/-! ## Structured events are faultless -/

/-- Something starts first, unless nothing does. -/
theorem NothingStarts.or_first (events : List Event) :
    NothingStarts events ∨
      ∃ before name, StartsBehind events before name ∧
        NothingStarts before := by
  induction events with
  | nil => exact .inl (by simp [NothingStarts])
  | cons event rest ih =>
      cases event with
      | start name own =>
          exact .inr ⟨[], name, ⟨own, rest, rfl⟩, by simp [NothingStarts]⟩
      | stop _ | text _ =>
          rcases ih with hnone | ⟨before, name, ⟨own, after, rfl⟩, hfirst⟩
          · exact .inl (by simpa [NothingStarts] using hnone)
          · exact .inr ⟨_ :: before, name, ⟨own, after, rfl⟩,
              by simpa [NothingStarts] using hfirst⟩

theorem StartsBehind.trans {events before earlier : List Event}
    {name other : String} (hstart : StartsBehind events before name)
    (hearlier : StartsBehind before earlier other) :
    StartsBehind events earlier other := by
  obtain ⟨own, after, rfl⟩ := hstart
  obtain ⟨own', after', rfl⟩ := hearlier
  exact ⟨own', after' ++ .start name own :: after, by simp⟩

theorem StartsBehind.rootStarted {root : String}
    {events before : List Event} {name : String}
    (hstart : StartsBehind events before name)
    (hname : Text.lower name = root) : RootStarted root events := by
  obtain ⟨own, after, rfl⟩ := hstart
  exact ⟨name, own, by simp, hname⟩

/-- If the first element is the root, then the root has started wherever
anything has. -/
theorem rootStarted_of_root_first {root : String}
    {events before : List Event} {name : String}
    (hfirst : ∀ before name, StartsBehind events before name →
      NothingStarts before → Text.lower name = root)
    (hstart : StartsBehind events before name)
    (hsome : ¬NothingStarts before) : RootStarted root before := by
  obtain ⟨earlier, other, hearlier, hnone⟩ :=
    (NothingStarts.or_first before).resolve_left hsome
  exact hearlier.rootStarted (hfirst earlier other (hstart.trans hearlier) hnone)

theorem Structured.faultless {root : String} {events : List Event}
    (h : Structured root events) : Faultless root events := by
  intro before name error hstart hfault
  cases hfault with
  | early hname hstarted =>
      by_cases hnone : NothingStarts before
      · exact hname (h.root_first before name hstart hnone)
      · exact hstarted (rootStarted_of_root_first h.root_first hstart hnone)
  | repeats hname hstarted =>
      exact h.root_once before name hstart hstarted hname
  | late _ _ hended => exact h.nothing_behind before name hstart hended
  | tableChild _ _ _ htable hcell =>
      exact hcell (h.cells_only before name hstart htable).2
  | strayCell hname _ _ htable hcell =>
      exact htable (h.cells_inside before name hstart ⟨hname, hcell⟩)

theorem Faultless.structured {root : String} {events : List Event}
    (h : Faultless root events) (hnested : Nested [] events)
    (hended : RootEnded root events) : Structured root events := by
  have hfirst : ∀ before name, StartsBehind events before name →
      NothingStarts before → Text.lower name = root := by
    intro before name hstart hnone
    by_contra hname
    refine h before name _ hstart (.early hname ?_)
    rintro ⟨other, own, hmem, -⟩
    exact hnone other own hmem
  have honce : ∀ before name, StartsBehind events before name →
      RootStarted root before → Text.lower name ≠ root :=
    fun before name hstart hstarted hname =>
      h before name _ hstart (.repeats hname hstarted)
  have hbehind : ∀ before name, StartsBehind events before name →
      ¬RootEnded root before := by
    intro before name hstart ⟨other, hstop, hother⟩
    have hbefore : Nested [] before := by
      obtain ⟨own, after, rfl⟩ := hstart
      exact (nested_append.mp hnested).1
    have hstarted : RootStarted root before := by
      obtain ⟨own, hmem⟩ := hbefore.start_of_stop hstop
      exact ⟨other, own, hmem, hother⟩
    exact h before name _ hstart
      (.late (honce before name hstart hstarted) hstarted
        ⟨other, hstop, hother⟩)
  refine ⟨hfirst, honce, hbehind, ?_, ?_, hended⟩
  · intro before name hstart hin
    have hsome : ¬NothingStarts before := by
      obtain ⟨table, hopen, -⟩ := hin
      obtain ⟨own, hmem⟩ := start_of_mem_openNames hopen
      exact fun hnone => hnone table own hmem
    have hstarted := rootStarted_of_root_first hfirst hstart hsome
    have hname := honce before name hstart hstarted
    refine ⟨hname, by_contra fun hcell => ?_⟩
    exact h before name _ hstart
      (.tableChild hname hstarted (hbehind before name hstart) hin hcell)
  · intro before name hstart ⟨hname, hcell⟩
    by_contra hout
    have hstarted : RootStarted root before :=
      by_contra fun hnot => h before name _ hstart (.early hname hnot)
    exact h before name _ hstart
      (.strayCell hname hstarted (hbehind before name hstart) hout hcell)

/-! ## What a session knows of the events behind it -/

/-- A session that has been fed faultless events knows all that the rules ask
about them. -/
structure Tracks {σ : Type} [Renderer σ] (root : String)
    (before : List Event) (session : Session σ) : Prop where
  root_eq : session.root = root
  inStep : session.InStep
  started : RootStarted root before ↔ session.state ≠ .unopened
  ended : RootEnded root before ↔ session.state = .closed
  /-- Outside the document nothing is open. -/
  outside : session.state ≠ .opened → openNames before = []
  /-- In the document the root is open, and nothing else of its name. -/
  inside : session.state = .opened →
    ∃ inner bottom, openNames before = inner ++ [bottom] ∧
      Text.lower bottom = root ∧ ∀ name ∈ inner, Text.lower name ≠ root
  tables : (openNames before).countP (fun name => IsTable root name) =
    if session.assembly.table.isSome then 1 else 0

theorem Tracks.inTable_iff {σ : Type} [Renderer σ] {root : String}
    {before : List Event} {session : Session σ}
    (h : Tracks root before session) :
    InTable root before ↔ session.assembly.table.isSome = true := by
  have hcount : InTable root before ↔
      0 < (openNames before).countP (fun name => IsTable root name) := by
    simp [InTable, List.countP_pos_iff]
  rw [hcount, h.tables]
  cases session.assembly.table <;> simp

theorem Tracks.begin {σ : Type} [Renderer σ] {renderer : σ}
    (hclosed : isOpen renderer = false) (root : String)
    (store : DataStore) :
    Tracks (Text.lower root) [] (Session.begin root store renderer) where
  root_eq := rfl
  inStep := Session.inStep_begin hclosed root store
  started := by simp [RootStarted, Session.begin]
  ended := by simp [RootEnded, Session.begin]
  outside _ := rfl
  inside hstate := by simp [Session.begin] at hstate
  tables := rfl

section Accepting

variable {σ : Type} [Renderer σ] [AcceptingRenderer σ] {root : String}
  {before : List Event} {session : Session σ}

omit [Renderer σ] [AcceptingRenderer σ] in
theorem Fault.some_eq_iff {name : String} {first : CompileError}
    (hfirst : Fault root before name first) (error : CompileError) :
    some first = some error ↔ Fault root before name error :=
  ⟨fun heq => Option.some.inj heq ▸ hfirst,
    fun herror => congrArg some (hfirst.unique herror)⟩

/-- An element is refused exactly if it breaks a rule, and with that error. -/
theorem Tracks.failure_iff_fault (h : Tracks root before session)
    (name : String) (own : OwnAttributes) (error : CompileError) :
    (session.feed (.start name own)).failure? = some error ↔
      Fault root before name error := by
  have hstep := Session.step_feed h.inStep (.start name own)
  generalize session.feed (.start name own) = outcome at hstep
  have hstarted := h.started
  have hended := h.ended
  have htable := h.inTable_iff
  obtain rfl := h.root_eq
  cases hstep with
  | opens hname hstate =>
      refine iff_of_false (by simp) fun hfault => ?_
      simp only [hstate, ne_eq, not_true_eq_false, iff_false] at hstarted
      cases hfault <;> contradiction
  | repeats hname hstate =>
      exact (Fault.repeats hname (hstarted.mpr hstate)).some_eq_iff error
  | early hname hstate =>
      exact (Fault.early hname (by simp [hstarted, hstate])).some_eq_iff error
  | late hname hstate =>
      exact (Fault.late hname (by simp [hstarted, hstate])
        (hended.mpr hstate)).some_eq_iff error
  | misplaces hname hstate hstart =>
      rcases Assembly.start_error hstart with
        ⟨rfl, hopen, hcell⟩ | ⟨rfl, hnone, hcell⟩
      · exact (Fault.tableChild hname (by simp [hstarted, hstate])
          (by simp [hended, hstate]) (htable.mpr hopen) hcell).some_eq_iff
            error
      · exact (Fault.strayCell hname (by simp [hstarted, hstate])
          (by simp [hended, hstate]) (by simp [htable, hnone])
            hcell).some_eq_iff error
  | starts hname hstate hstart =>
      refine iff_of_false (by simp) fun hfault => ?_
      have hcell := (Assembly.start_ok hstart).1
      rw [← htable] at hcell
      simp only [hstate, ne_eq, reduceCtorEq, not_false_eq_true, iff_true]
        at hstarted
      simp only [hstate, reduceCtorEq, iff_false] at hended
      cases hfault with
      | early | repeats | late => contradiction
      | tableChild _ _ _ hin hnot => exact hnot (hcell.mp hin)
      | strayCell _ _ _ hout his => exact hout (hcell.mpr his)

/-- What ends is the innermost of the open elements. -/
theorem innermost_of_fits {name bottom : String} {inner : List String}
    (hfits : (Event.stop name).Fits (inner ++ [bottom])) :
    inner = [] ∧ bottom = name ∨ ∃ rest, inner = name :: rest := by
  cases inner with
  | nil => exact .inl ⟨rfl, Option.some.inj hfits⟩
  | cons first rest =>
      obtain rfl : first = name := Option.some.inj hfits
      exact .inr ⟨rest, rfl⟩

omit [AcceptingRenderer σ] in
/-- An element that starts in the document is open inside the root, and if it
is a table then one is in the making. -/
theorem Tracks.starts (h : Tracks root before session) {name : String}
    {own : OwnAttributes} {assembly : Assembly} {requests : List Request}
    (hname : Text.lower name ≠ session.root)
    (hstate : session.state = .opened)
    (hstart : session.assembly.start session.store (.ofName name) own =
      (assembly, .ok requests))
    (hagree : ({ session with assembly }.meet requests).InStep) :
    Tracks root (before ++ [.start name own])
      ({ session with assembly }.meet requests) := by
  obtain ⟨rfl, -, hstarted, hended, -, hinside, htables⟩ := h
  obtain ⟨inner, bottom, hnames, hbottom, hinner⟩ := hinside hstate
  obtain ⟨hcell, hnext⟩ := Assembly.start_ok hstart
  refine ⟨rfl, hagree, ?_, ?_, fun hout => absurd hstate hout,
    fun _ => ⟨name :: inner, bottom, ?_, hbottom, ?_⟩, ?_⟩
  · simp [hstarted, hstate, Session.meet]
  · simp [hended, hstate, Session.meet]
  · simp [hnames, Event.nest]
  · simpa using ⟨hname, hinner⟩
  · rw [openNames_append_singleton, Event.nest, List.countP_cons, htables]
    simp only [IsTable, ne_eq, hname, not_false_eq_true, true_and,
      decide_eq_true_eq, Session.meet, hcell, hnext]
    cases Element.ofName name <;> simp

omit [AcceptingRenderer σ] in
/-- An element that ends in the document leaves the root open, and if it is a
table then none is in the making. -/
theorem Tracks.stops (h : Tracks root before session) {name : String}
    {assembly : Assembly} {requests : List Request}
    (hfits : (Event.stop name).Fits (openNames before))
    (hname : Text.lower name ≠ session.root)
    (hstate : session.state = .opened)
    (hstop : session.assembly.stop (.ofName name) = (assembly, requests))
    (hagree : ({ session with assembly }.meet requests).InStep) :
    Tracks root (before ++ [.stop name])
      ({ session with assembly }.meet requests) := by
  obtain ⟨rfl, -, hstarted, hended, -, hinside, htables⟩ := h
  obtain ⟨inner, bottom, hnames, hbottom, hinner⟩ := hinside hstate
  rw [hnames] at hfits
  rcases innermost_of_fits hfits with ⟨-, rfl⟩ | ⟨rest, rfl⟩
  · exact absurd hbottom hname
  have hrest : openNames (before ++ [.stop name]) = rest ++ [bottom] := by
    simp [hnames, Event.nest]
  have hnext := Assembly.stop_table session.assembly (.ofName name)
  rw [hstop] at hnext
  refine ⟨rfl, hagree, ?_, ?_, fun hout => absurd hstate hout,
    fun _ => ⟨rest, bottom, hrest, hbottom, ?_⟩, ?_⟩
  · simp [hstarted, hstate, Session.meet]
  · simp [hended, hstate, hname, Session.meet]
  · exact fun other hother => hinner other (List.mem_cons_of_mem _ hother)
  · rw [hnames, List.cons_append, List.countP_cons] at htables
    rw [hrest]
    simp only [Session.meet, hnext]
    by_cases htable : Element.ofName name = .table
    · have htop : IsTable session.root name := ⟨hname, htable⟩
      simp only [htop, decide_true, if_true] at htables
      simp only [htable, ne_eq, not_true_eq_false, and_false, if_false]
      split at htables <;> omega
    · have htop : ¬IsTable session.root name := fun h => htable h.2
      simpa [htop, htable] using htables

theorem Tracks.feed (h : Tracks root before session) {event : Event}
    (hfits : event.Fits (openNames before))
    (hok : (session.feed event).failure? = none) :
    Tracks root (before ++ [event]) (session.feed event).state := by
  have hagree := h.inStep.feed event
  have hstep := Session.step_feed h.inStep event
  generalize session.feed event = outcome at hstep hagree hok
  cases hstep with
  | @opens name own hname hstate =>
      obtain ⟨rfl, -, -, hended, houtside, -, htables⟩ := h
      have hnames : openNames before = [] := houtside (by simp [hstate])
      refine ⟨rfl, hagree, by simp [hname], by simp [hended, hstate],
        by simp, fun _ => ⟨[], name, ?_, hname, by simp⟩, ?_⟩
      · simp [hnames, Event.nest]
      · rw [← htables]
        simp [hnames, Event.nest, IsTable, hname]
  | repeats | early | late | misplaces => simp [Outcome.fail] at hok
  | starts hname hstate hstart => exact h.starts hname hstate hstart hagree
  | passes hstate =>
      -- Outside the document nothing is open that could end.
      rw [h.outside hstate] at hfits
      simp [Event.Fits] at hfits
  | @closes name hname hstate =>
      obtain ⟨rfl, -, hstarted, -, -, hinside, htables⟩ := h
      obtain ⟨inner, bottom, hnames, hbottom, hinner⟩ := hinside hstate
      rw [hnames] at hfits
      -- Nothing inside the root has its name, so the root is the innermost.
      rcases innermost_of_fits hfits with ⟨rfl, -⟩ | ⟨rest, rfl⟩
      · refine ⟨rfl, hagree, by simp [hstarted, hstate], by simp [hname],
          by simp [hnames, Event.nest], by simp, ?_⟩
        rw [← htables]
        simp [hnames, Event.nest, IsTable, hbottom]
      · exact absurd hname (hinner name List.mem_cons_self)
  | stops hname hstate hstop => exact h.stops hfits hname hstate hstop hagree
  | writes hstate =>
      obtain ⟨rfl, -, hstarted, hended, houtside, hinside, htables⟩ := h
      refine ⟨rfl, hagree, by simp [hstarted], by simp [hended],
        by simpa [Event.nest] using houtside,
        by simpa [Event.nest] using hinside, ?_⟩
      rw [openNames_append_singleton]
      exact htables
  | ignores hstate =>
      obtain ⟨rfl, -, hstarted, hended, houtside, hinside, htables⟩ := h
      exact ⟨rfl, hagree, by simp [hstarted], by simp [hended],
        by simpa [Event.nest] using houtside,
        by simpa [Event.nest] using hinside,
        by simpa [Event.nest] using htables⟩

/-- Only the start of an element can be refused. -/
theorem Tracks.failure_start (h : Tracks root before session) {event : Event}
    {error : CompileError}
    (hfailed : (session.feed event).failure? = some error) :
    ∃ name own, event = .start name own := by
  have hstep := Session.step_feed h.inStep event
  generalize session.feed event = outcome at hstep hfailed
  cases hstep with
  | opens | repeats | early | late | misplaces | starts => exact ⟨_, _, rfl⟩
  | passes | closes | stops | writes | ignores => cases hfailed

/-- Nested events are taken up to the first fault, or all of them. -/
theorem Tracks.feedAll {rest : List Event}
    (h : Tracks root before session) (hfaultless : Faultless root before)
    (hnested : Nested (openNames before) rest) :
    (∃ error, FirstFault root (before ++ rest) error ∧
        (session.feedAll rest).failure? = some error) ∨
      (Faultless root (before ++ rest) ∧
        (session.feedAll rest).failure? = none ∧
        Tracks root (before ++ rest) (session.feedAll rest).state) := by
  induction rest generalizing before session with
  | nil =>
      rw [List.append_nil]
      exact .inr ⟨hfaultless, rfl, h⟩
  | cons event rest ih =>
      cases hfeed : (session.feed event).failure? with
      | some error =>
          obtain ⟨name, own, rfl⟩ := h.failure_start hfeed
          have hfault := (h.failure_iff_fault name own error).mp hfeed
          refine .inl ⟨error, ⟨before, name, ⟨own, rest, rfl⟩, hfaultless,
            hfault⟩, ?_⟩
          simp only [Session.feedAll, Outcome.fold, Outcome.andThen, hfeed]
      | none =>
          have hall : session.feedAll (event :: rest) =
              (session.feed event).state.feedAll rest := by
            simp only [Session.feedAll, Outcome.fold, Outcome.andThen, hfeed]
          have hnext : Faultless root (before ++ [event]) := by
            refine faultless_append_singleton.mpr ⟨hfaultless, ?_⟩
            rintro name own error rfl hfault
            have hfailed := (h.failure_iff_fault name own error).mpr hfault
            cases hfeed.symm.trans hfailed
          rw [hall, List.append_cons]
          exact ih (h.feed hnested.1 hfeed) hnext
            ((openNames_append_singleton before event).symm ▸ hnested.2)

end Accepting

/-! ## Compiling a template -/

/-- The root of faultless events starts if anything does. -/
theorem Faultless.nothingStarts_iff {root : String} {events : List Event}
    (h : Faultless root events) :
    NothingStarts events ↔ ¬RootStarted root events := by
  constructor
  · rintro hnone ⟨name, own, hmem, -⟩
    exact hnone name own hmem
  · intro hstarted
    rcases NothingStarts.or_first events with hnone |
      ⟨before, name, hstart, hfirst⟩
    · exact hnone
    · refine absurd (Fault.early ?_ ?_) (h before name _ hstart)
      · exact fun hname => hstarted (hstart.rootStarted hname)
      · rintro ⟨other, own, hmem, -⟩
        exact hfirst other own hmem

/-- How a session ends that has taken all of some faultless events. -/
theorem Tracks.finish_eq {σ : Type} [Renderer σ] {root : String}
    {events : List Event} {session : Session σ}
    (h : Tracks root events session) (hfaultless : Faultless root events) :
    (RootEnded root events → session.finish = .ok session.diagnostics) ∧
      (NothingStarts events → session.finish = .error (.missingRoot root)) ∧
      (¬NothingStarts events → ¬RootEnded root events →
        session.finish = .error (.unexpectedEnd root)) := by
  rw [hfaultless.nothingStarts_iff, h.started, h.ended, Session.finish,
    h.root_eq]
  cases session.state <;> simp

/-- On a renderer that accepts everything a well-formed template compiles
exactly if it is structured.  Otherwise the error is that of the first element
that breaks a rule; if none does, the root is missing or does not end. -/
theorem compile_ok_iff_structured {σ : Type} [Renderer σ]
    [AcceptingRenderer σ] {renderer : σ} (hclosed : isOpen renderer = false)
    (store : DataStore) (root template : String)
    (hread : (Markup.read template).2 = none) :
    let events := (Markup.read template).1
    let result := (compile template store renderer root).result
    ((∃ diagnostics, result = .ok diagnostics) ↔
        Structured (Text.lower root) events) ∧
      (¬Faultless (Text.lower root) events →
        ∃ error, FirstFault (Text.lower root) events error) ∧
      (∀ error, FirstFault (Text.lower root) events error →
        result = .error error) ∧
      (Faultless (Text.lower root) events →
        (NothingStarts events →
          result = .error (.missingRoot (Text.lower root))) ∧
        (¬NothingStarts events → ¬RootEnded (Text.lower root) events →
          result = .error (.unexpectedEnd (Text.lower root)))) := by
  intro events result
  have hnested : Nested [] events := nested_read template
  have hresult : result =
      (Compiled.ofOutcome
        ((Session.begin root store renderer).feedAll events) none).result := by
    simp only [result, compile, events, ← hread]
  have hbegin := Tracks.begin hclosed root store
  have hempty : Faultless (Text.lower root) [] := by
    rintro before name error ⟨own, after, hsplit⟩
    simp at hsplit
  rcases hbegin.feedAll hempty hnested with
    ⟨error, hfirst, hfailed⟩ | ⟨hfaultless, hfeed, htracks⟩
  · have herror : result = .error error := by
      simp only [hresult, Compiled.ofOutcome, hfailed]
    refine ⟨iff_of_false (by simp [herror])
      fun hstructured => hfirst.not_faultless hstructured.faultless,
      fun _ => ⟨error, hfirst⟩, fun other hother => ?_,
      fun hfaultless => absurd hfaultless hfirst.not_faultless⟩
    rw [herror, hother.unique hfirst]
  · have hfinish : result =
        ((Session.begin root store renderer).feedAll events).state.finish := by
      simp only [hresult, Compiled.ofOutcome, hfeed]
    obtain ⟨hok, hmissing, hunended⟩ := htracks.finish_eq hfaultless
    rw [← hfinish] at hok hmissing hunended
    refine ⟨⟨?_, fun hstructured => ⟨_, hok hstructured.root_ends⟩⟩,
      fun hnot => absurd hfaultless hnot,
      fun other hother => absurd hfaultless hother.not_faultless,
      fun _ => ⟨hmissing, hunended⟩⟩
    rintro ⟨diagnostics, hdiagnostics⟩
    refine hfaultless.structured hnested (by_contra fun hended => ?_)
    by_cases hnone : NothingStarts events
    · cases hdiagnostics.symm.trans (hmissing hnone)
    · cases hdiagnostics.symm.trans (hunended hnone hended)

theorem compile_table_ok_iff_structured :
    isOpen ({} : Recorder) = false ∧
      (Markup.read "<root><table><cell>x</cell><para/></table></root>").2 =
          none ∧
        ((∃ diagnostics,
            (compile "<root><table><cell>x</cell><para/></table></root>"
              .empty ({} : Recorder) "Root").result = .ok diagnostics) ↔
          Structured (Text.lower "Root") (Markup.read
            "<root><table><cell>x</cell><para/></table></root>").1) := by
  have hread : (Markup.read
      "<root><table><cell>x</cell><para/></table></root>").2 = none := by
    decide +kernel
  exact ⟨rfl, hread, (compile_ok_iff_structured rfl .empty "Root" _ hread).1⟩

end DocTemplate
