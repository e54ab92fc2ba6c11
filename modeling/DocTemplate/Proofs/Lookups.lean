import DocTemplate.Data.Placeholder
import DocTemplate.Proofs.BlockText
import DocTemplate.Proofs.Depth
import DocTemplate.Proofs.Reports
import Mathlib.Data.List.Dedup

/-!
# What a template looks up

The placeholders of a template are listed by a scan over its start tags, which
knows nothing of documents and tables.  A compilation looks up a value where
its element opens, and it opens only in an open document and outside of tables.
In a template that compiles the two come to the same: a value that does not
open is refused, and a refusal ends the compilation.

So the listed ids are those on which the compilation depends.  A data source
that has them all leaves nothing to report but values without an id, and one
that lacks any of them is found out.
-/

namespace DocTemplate

open Markup Renderer

/-! ## Lookups -/

/-- The id that an element looks up when it starts. -/
def Assembly.lookup? (assembly : Assembly) (element : Element)
    (own : OwnAttributes) : Option String :=
  match assembly.table, element with
  | none, .value => own.lookup "id"
  | _, _ => none

namespace Session

variable {σ : Type} [Renderer σ]

/-- The id that a session looks up when it takes an event. -/
def lookup? (session : Session σ) : Event → Option String
  | .start name own =>
      if Text.lower name = session.root then
        none
      else
        match session.state with
        | .opened =>
            if isOpen session.renderer then
              session.assembly.lookup? (.ofName name) own
            else
              none
        | _ => none
  | _ => none

/-- What a session looks up while it is fed events, up to the first that
fails. -/
def lookups (session : Session σ) : List Event → List String
  | [] => []
  | event :: rest =>
      (session.lookup? event).toList ++
        if (session.feed event).succeeded then
          (session.feed event).state.lookups rest
        else
          []

/-- The session with another store. -/
def withStore (session : Session σ) (store : DataStore) : Session σ :=
  { session with store }

end Session

/-! ## A session depends on its lookups -/

section

variable {store other : DataStore} {own : OwnAttributes}

theorem valueText_eq_iff :
    valueText other own = valueText store own ↔
      ∀ id, own.lookup "id" = some id →
        other.resolve id = store.resolve id := by
  unfold valueText
  cases hid : own.lookup "id" with
  | none => simp
  | some id =>
      simp only [Option.some.injEq, forall_eq']
      constructor
      · intro hsame
        cases hother : other.resolve id <;>
          cases hstore : store.resolve id <;> simp_all
      · intro hsame
        rw [hsame]

namespace Assembly

variable {assembly : Assembly} {composer : Composer}

theorem openValue_eq_iff :
    openValue other composer own = openValue store composer own ↔
      valueText other own = valueText store own := by
  constructor
  · intro hsame
    have hrequests := congrArg Prod.snd hsame
    have hpending := congrArg (fun opened => opened.1.pending) hsame
    simp only [requests_openValue, pending_openValue,
      String.append_right_inj] at hrequests hpending
    cases hother : valueText other own <;>
      cases hstore : valueText store own <;>
      simp_all [Except.toOption]
  · intro hsame
    unfold openValue
    rw [hsame]

/-- The start of an element comes to the same with another store exactly if
that gives the same for what is looked up. -/
theorem start_eq_iff {element : Element} :
    assembly.start other element own = assembly.start store element own ↔
      ∀ id, assembly.lookup? element own = some id →
        other.resolve id = store.resolve id := by
  cases htable : assembly.table with
  | some table => simp [start, lookup?, htable]
  | none =>
      cases element with
      | value =>
          have hstart : ∀ store, assembly.start store .value own =
              (⟨(openValue store assembly.composer own).1, none⟩,
                .ok (openValue store assembly.composer own).2) := by
            intro store
            rw [eq_of_table_none htable]
            rfl
          have hlookup : assembly.lookup? .value own = own.lookup "id" := by
            simp only [lookup?, htable]
          rw [hlookup, ← valueText_eq_iff,
            ← @openValue_eq_iff store other own assembly.composer, hstart,
            hstart, Prod.ext_iff, Prod.ext_iff]
          simp
      | block kind =>
          cases kind <;> simp [start, startOutside, lookup?, htable]
      | page | rule | image | table | cell | space | lineBreak | generic =>
          simp [start, startOutside, lookup?, htable]

end Assembly

end

namespace Session

variable {σ : Type}

/-- The reaction to a start keeps all that the assembly makes of it. -/
theorem reactionInside_eq_iff {first second : Session σ} {name : String}
    {own : OwnAttributes} (hstate : first.state = second.state) :
    first.reactionInside name own = second.reactionInside name own ↔
      first.assembly.start first.store (.ofName name) own =
        second.assembly.start second.store (.ofName name) own := by
  unfold reactionInside
  rw [hstate]
  generalize first.assembly.start first.store (.ofName name) own = left
  generalize second.assembly.start second.store (.ofName name) own = right
  obtain ⟨assembly, misplacement | requests⟩ := left <;>
    obtain ⟨assembly', misplacement' | requests'⟩ := right
  · cases misplacement <;> cases misplacement' <;> simp [misplaced]
  all_goals simp

variable [Renderer σ]

/-- An event comes to the same with another store exactly if that gives the
same for what is looked up. -/
theorem reaction_withStore_eq_iff (session : Session σ) (other : DataStore)
    (event : Event) :
    (session.withStore other).reaction event = session.reaction event ↔
      ∀ id, session.lookup? event = some id →
        other.resolve id = session.store.resolve id := by
  obtain ⟨root, store, state, assembly, diagnostics, renderer⟩ := session
  let session : Session σ :=
    ⟨root, store, state, assembly, diagnostics, renderer⟩
  have hunasked (hlookup : session.lookup? event = none)
      (hsame : (session.withStore other).reaction event =
        session.reaction event) :
      (session.withStore other).reaction event = session.reaction event ↔
        ∀ id, session.lookup? event = some id →
          other.resolve id = store.resolve id :=
    iff_of_true hsame fun id hid => by cases hlookup.symm.trans hid
  cases event with
  | stop name => exact hunasked rfl rfl
  | text contents =>
      apply hunasked rfl
      cases state <;> rfl
  | start name own =>
      by_cases hroot : Text.lower name = root
      · apply hunasked
        · simp only [lookup?, session, hroot, if_true]
        · simp only [reaction, withStore, session, hroot, if_true]
          rfl
      cases state with
      | unopened | closed =>
          apply hunasked
          · simp only [lookup?, session, hroot, if_false]
          · simp only [reaction, withStore, session, hroot, if_false]
            rfl
      | opened =>
          by_cases hopen : isOpen renderer = true
          · simp only [reaction, withStore, lookup?, hroot, if_false, hopen,
              if_true]
            refine Iff.trans (reactionInside_eq_iff ?_) Assembly.start_eq_iff
            rfl
          · apply hunasked
            · simp only [lookup?, session, hroot, if_false, hopen,
                Bool.false_eq_true]
            · simp only [reaction, withStore, session, hroot, if_false, hopen,
                Bool.false_eq_true]
              rfl

/-- Whether each of some events comes to the same with another store, wherever
the session has got by then. -/
def ReactsAlike (session : Session σ) (other : DataStore)
    (events : List Event) : Prop :=
  ∀ before event after, events = before ++ event :: after →
    let reached := (session.feedAll before).state
    (reached.withStore other).reaction event = reached.reaction event

theorem reactsAlike_cons {session : Session σ} {other : DataStore}
    {event : Event} {rest : List Event}
    (hevent : (session.feed event).failure? = none) :
    session.ReactsAlike other (event :: rest) ↔
      (session.withStore other).reaction event = session.reaction event ∧
        (session.feed event).state.ReactsAlike other rest := by
  constructor
  · intro halike
    refine ⟨halike [] event rest rfl, fun before later after hsplit => ?_⟩
    have hlater := halike (event :: before) later after (by rw [hsplit]; rfl)
    rwa [feedAll_cons_of_ok hevent] at hlater
  · rintro ⟨hfirst, hrest⟩ (_ | ⟨first, before⟩) later after hsplit
    · obtain ⟨rfl, -⟩ := List.cons.inj hsplit
      exact hfirst
    · obtain ⟨rfl, htail⟩ := List.cons.inj hsplit
      rw [feedAll_cons_of_ok hevent]
      exact hrest before later after htail

/-- A run depends on its lookups, and on nothing else of the store. -/
theorem reactsAlike_iff {session : Session σ} {other : DataStore}
    {events : List Event} (hfeed : (session.feedAll events).failure? = none) :
    session.ReactsAlike other events ↔
      ∀ id ∈ session.lookups events,
        other.resolve id = session.store.resolve id := by
  induction events generalizing session with
  | nil => exact iff_of_true (fun before _ _ hsplit => by simp at hsplit) nofun
  | cons event rest ih =>
      have hevent := feed_ok_of_feedAll hfeed
      rw [feedAll_cons_of_ok hevent] at hfeed
      rw [reactsAlike_cons hevent, ih hfeed, reaction_withStore_eq_iff,
        store_feed]
      simp only [lookups, Outcome.succeeded, hevent, Option.isNone_none,
        if_true, List.mem_append, Option.mem_toList, or_imp, forall_and]

end Session

/-! ## The scan and the session -/

theorem Element.lower_eq_of_value {name : String}
    (h : ofName name = .value) : Text.lower name = "value" := by
  unfold ofName ofLowerName at h
  split at h
  case h_6 hname => exact hname
  case h_9 => split at h <;> cases h
  all_goals cases h

/-- The problem that an event has with the data. -/
def Markup.Event.dataProblem? (store : DataStore) : Event → Option Problem
  | .start name own =>
      if Element.ofName name = .value then
        valueProblem? store (own.lookup "id")
      else
        none
  | _ => none

/-- Whether an event starts a value without an id. -/
def Markup.Event.lacksId : Event → Bool
  | .start name own =>
      Element.ofName name == .value && (own.lookup "id").isNone
  | _ => false

theorem Diagnostic.ofKind_append (kind : DiagnosticKind)
    (first second : List Diagnostic) :
    ofKind kind (first ++ second) = ofKind kind first ++ ofKind kind second :=
  List.filter_append _ _

theorem Element.problemKind_eq_dataBinding_iff (element : Element) :
    element.problemKind = .dataBinding ↔ element = .value := by
  cases element <;> simp [problemKind]

namespace Session

section Accepting

variable {σ : Type} [Renderer σ] [AcceptingRenderer σ] {session : Session σ}

/-- A value that a session takes opens in the document and outside of
tables. -/
theorem inside_of_value (hagree : session.InStep)
    (hroot : session.root ≠ "value") {name : String} {own : OwnAttributes}
    (hvalue : Element.ofName name = .value)
    (hfeed : (session.feed (.start name own)).failure? = none) :
    Text.lower name ≠ session.root ∧ session.state = .opened ∧
      session.assembly.table = none := by
  have hname : Text.lower name ≠ session.root := by
    rw [Element.lower_eq_of_value hvalue]
    exact hroot.symm
  obtain ⟨hstate, hcell⟩ := inside_of_ok hagree hname hfeed
  rw [hvalue] at hcell
  exact ⟨hname, hstate, by simpa using hcell⟩

theorem lookup?_eq_placeholderId? (hagree : session.InStep)
    (hroot : session.root ≠ "value") {event : Event}
    (hfeed : (session.feed event).failure? = none) :
    session.lookup? event = event.placeholderId? := by
  cases event with
  | stop name | text contents => rfl
  | start name own =>
      by_cases hvalue : Element.ofName name = .value
      · obtain ⟨hname, hstate, htable⟩ :=
          inside_of_value hagree hroot hvalue hfeed
        simp only [lookup?, hname, if_false, hstate, hagree.mp hstate, if_true,
          Assembly.lookup?, htable, hvalue, Event.placeholderId?]
      · have hnone :
            session.assembly.lookup? (Element.ofName name) own = none := by
          unfold Assembly.lookup?
          split
          · rename_i hother
            exact absurd hother hvalue
          · rfl
        simp only [lookup?, hnone, Event.placeholderId?, hvalue, if_false,
          ite_self]
        split
        · rfl
        · cases session.state <;> rfl

theorem lookups_eq_filterMap (hagree : session.InStep)
    (hroot : session.root ≠ "value") {events : List Event}
    (hfeed : (session.feedAll events).failure? = none) :
    session.lookups events = events.filterMap Event.placeholderId? := by
  induction events generalizing session with
  | nil => rfl
  | cons event rest ih =>
      have hevent := feed_ok_of_feedAll hfeed
      rw [feedAll_cons_of_ok hevent] at hfeed
      have hnext : (session.feed event).state.root ≠ "value" := by
        rw [root_feed]
        exact hroot
      have hlookup := lookup?_eq_placeholderId? hagree hroot hevent
      have hrest := ih (hagree.feed event) hnext hfeed
      simp only [lookups, Outcome.succeeded, hevent, Option.isNone_none,
        if_true, hlookup, hrest]
      cases hid : event.placeholderId? <;> simp [hid]

/-! ## Problems with the data -/

/-- Of what an event that is taken reports, only the problem of a value is one
with the data. -/
theorem ofKind_problems (hagree : session.InStep)
    (hroot : session.root ≠ "value") {event : Event}
    (hfeed : (session.feed event).failure? = none) :
    Diagnostic.ofKind .dataBinding
        ((session.spot.problems session.store event).map Problem.diagnostic) =
      ((event.dataProblem? session.store).map Problem.diagnostic).toList := by
  cases event with
  | stop name | text contents => cases session.spot <;> rfl
  | start name own =>
      by_cases hvalue : Element.ofName name = .value
      · obtain ⟨-, hstate, htable⟩ :=
          inside_of_value hagree hroot hvalue hfeed
        have hspot := spot_eq_inside_iff.mpr ⟨hstate, htable⟩
        simp only [hspot, Spot.problems, Event.dataProblem?, hvalue, if_true,
          Element.problems]
        cases hproblem : valueProblem? session.store (own.lookup "id") with
        | none => rfl
        | some problem =>
            have hkind := kind_valueProblem? hproblem
            simp [Diagnostic.ofKind, Problem.diagnostic, hkind]
      · have hothers : ∀ problem ∈
            session.spot.problems session.store (.start name own),
            problem.kind ≠ .dataBinding := by
          intro problem hproblem
          cases hspot : session.spot with
          | inside =>
              rw [hspot] at hproblem
              rw [Element.kind_of_mem_problems hproblem, ne_eq,
                Element.problemKind_eq_dataBinding_iff]
              exact hvalue
          | before | inTable | behind =>
              rw [hspot] at hproblem
              cases hproblem
        simp only [Event.dataProblem?, hvalue, if_false]
        simpa [Diagnostic.ofKind, Problem.diagnostic] using hothers

theorem ofKind_feedAll (hagree : session.InStep) (hfresh : session.Fresh)
    (hroot : session.root ≠ "value") {events : List Event}
    (hfeed : (session.feedAll events).failure? = none) :
    Diagnostic.ofKind .dataBinding
        (session.feedAll events).state.diagnostics =
      Diagnostic.ofKind .dataBinding session.diagnostics ++
        (events.filterMap (Event.dataProblem? session.store)).map
          Problem.diagnostic := by
  induction events generalizing session with
  | nil => simp
  | cons event rest ih =>
      have hevent := feed_ok_of_feedAll hfeed
      rw [feedAll_cons_of_ok hevent] at hfeed ⊢
      have hreports := reports_feed hagree hfresh hevent
      have hnext : (session.feed event).state.root ≠ "value" := by
        rw [hreports.root_eq]
        exact hroot
      rw [ih (hagree.feed event) hreports.fresh hnext hfeed,
        hreports.diagnostics_eq, hreports.store_eq,
        Diagnostic.ofKind_append, ofKind_problems hagree hroot hevent]
      cases hproblem : event.dataProblem? session.store <;> simp [hproblem]

end Accepting

end Session

/-! ## First occurrences -/

theorem firstOccurrences_append_singleton (list : List String)
    (text : String) :
    firstOccurrences (list ++ [text]) =
      if text ∈ firstOccurrences list then
        firstOccurrences list
      else
        firstOccurrences list ++ [text] := by
  simp [firstOccurrences, List.foldl_append]

theorem firstOccurrences_eq_dedup (list : List String) :
    firstOccurrences list = list.reverse.dedup.reverse := by
  induction list using List.reverseRecOn with
  | nil => rfl
  | append_singleton list last ih =>
      rw [firstOccurrences_append_singleton, ih, List.reverse_append,
        List.reverse_singleton, List.singleton_append]
      by_cases hknown : last ∈ list.reverse
      · simp [List.dedup_cons_of_mem hknown, List.mem_reverse.mp hknown]
      · have hnew : last ∉ list := fun hmem =>
          hknown (List.mem_reverse.mpr hmem)
        simp [List.dedup_cons_of_notMem hknown, hnew]

theorem mem_firstOccurrences {list : List String} {text : String} :
    text ∈ firstOccurrences list ↔ text ∈ list := by
  simp [firstOccurrences_eq_dedup]

theorem nodup_firstOccurrences (list : List String) :
    (firstOccurrences list).Nodup := by
  rw [firstOccurrences_eq_dedup, List.nodup_reverse]
  exact List.nodup_dedup _

/-- First occurrences come in the order of the list. -/
theorem pairwise_firstOccurrences (list : List String) :
    (firstOccurrences list).Pairwise fun first second =>
      list.idxOf first < list.idxOf second := by
  induction list using List.reverseRecOn with
  | nil => exact .nil
  | append_singleton list last ih =>
      have hkept : (firstOccurrences list).Pairwise fun first second =>
          (list ++ [last]).idxOf first < (list ++ [last]).idxOf second := by
        refine ih.imp_of_mem fun {first second} hfirst hsecond hbefore => ?_
        rw [mem_firstOccurrences] at hfirst hsecond
        rwa [List.idxOf_append, if_pos hfirst, List.idxOf_append,
          if_pos hsecond]
      rw [firstOccurrences_append_singleton]
      split
      · exact hkept
      · rename_i hnew
        rw [mem_firstOccurrences] at hnew
        rw [List.pairwise_append]
        refine ⟨hkept, List.pairwise_singleton _ _, ?_⟩
        intro first hfirst second hsecond
        rw [mem_firstOccurrences] at hfirst
        rw [List.mem_singleton.mp hsecond, List.idxOf_append, if_pos hfirst,
          List.idxOf_append, if_neg hnew]
        have hbound := List.idxOf_lt_length_of_mem hfirst
        omega

/-! ## Skeletons -/

theorem Dictionary.ofList_entries {α : Type} (dictionary : Dictionary α) :
    ofList dictionary.entries = dictionary := by
  apply ext
  intro key
  rw [get?_ofList, lookup_reverse dictionary.distinct_entries]
  rfl

theorem Dictionary.lookup_map_const {α : Type} (ids : List String)
    (id : String) (value : α) :
    (ids.map fun id => (id, value)).lookup id =
      if id ∈ ids then some value else none := by
  induction ids with
  | nil => rfl
  | cons first rest ih =>
      rw [List.map_cons, lookup_cons_eq_ite, ih]
      by_cases hfirst : id = first
      · simp [hfirst]
      · simp [hfirst]

namespace DataStore

/-- A store in which each of some ids has the empty text. -/
def blank (ids : List String) : DataStore where
  title := some ""
  values := some (.ofList (ids.map fun id => (id, .string "")))

theorem ofJson_skeleton (ids : List String) :
    ofJson (skeleton ids) = .ok (blank ids) := by
  let data := Dictionary.ofList (ids.map fun id => (id, Json.string ""))
  let members := [("data", Json.object data.entries), ("title", .string "")]
  have hskeleton : skeleton ids = .object members := by
    have horder : ("data" : String) < "title" := by decide
    simp [skeleton, Json.ofDictionary, Dictionary.ofList,
      Dictionary.insertAll, Dictionary.insert, Dictionary.place,
      Dictionary.empty, horder, members, data]
  have hdata : Json.member? members "data" = some (.object data.entries) := by
    simp [Json.member?, Dictionary.lookup_cons_eq_ite, members]
  have htitle : Json.member? members "title" = some (.string "") := by
    simp [Json.member?, members]
  simp only [hskeleton, ofJson, hdata, htitle, loadValues, loadTitle,
    data.ofList_entries]
  rfl

theorem resolve_blank (ids : List String) (id : String) :
    (blank ids).resolve id = if id ∈ ids then .value "" else .missing := by
  have hget : (Dictionary.ofList
      (ids.map fun id => (id, Json.string ""))).get? id =
        if id ∈ ids then some (.string "") else none := by
    rw [Dictionary.ofList, Dictionary.get?_insertAll, ← List.map_reverse,
      Dictionary.lookup_map_const, Dictionary.get?_empty, Option.or_none]
    simp only [List.mem_reverse]
  simp only [resolve, blank, hget]
  by_cases hid : id ∈ ids
  · simp [hid]
  · simp [hid]

theorem valueProblem?_blank (ids : List String) (id : String) :
    valueProblem? (blank ids) (some id) =
      if id ∈ ids then none else some (.unknownId id) := by
  simp only [valueProblem?, resolve_blank]
  by_cases hid : id ∈ ids
  · simp [hid]
  · simp [hid]

end DataStore

/-! ## Compiling with other data -/

/-- Only a renderer that is not open yet can take a whole document. -/
theorem Compiled.isOpen_of_ok {σ : Type} [Renderer σ] {root : String}
    {store : DataStore} {renderer : σ} {events : List Event}
    {markupError : Option MarkupError} {diagnostics : List Diagnostic}
    (h : (ofOutcome ((Session.begin root store renderer).feedAll events)
      markupError).result = .ok diagnostics) : isOpen renderer = false := by
  obtain ⟨hfeed, -, hstate, -⟩ := result_ok_iff.mp h
  rw [← Bool.not_eq_true]
  intro hopen
  have hstill := (Session.feedAll_alreadyOpen rfl hopen hfeed).1
  rw [hstill] at hstate
  cases hstate

/-- Whether a template compiles does not depend on its data. -/
theorem compile_ok_of_ok {σ : Type} [Renderer σ] [AcceptingRenderer σ]
    {template root : String} {store : DataStore} {renderer : σ}
    {diagnostics : List Diagnostic}
    (h : (compile template store renderer root).result = .ok diagnostics)
    (other : DataStore) :
    let session := Session.begin root other renderer
    let events := (Markup.read template).1
    (session.feedAll events).failure? = none ∧
      (compile template other renderer root).result =
        .ok (session.feedAll events).state.diagnostics := by
  intro session events
  have hclosed := Compiled.isOpen_of_ok h
  obtain ⟨hfeed, hread, hstate, -⟩ := Compiled.result_ok_iff.mp h
  have hnested : Nested [] events := nested_read template
  have hempty : Faultless (Text.lower root) [] := by
    rintro before name error ⟨own, after, hsplit⟩
    simp at hsplit
  rcases (Tracks.begin hclosed root store).feedAll hempty hnested with
    ⟨error, -, hfails⟩ | ⟨hfaultless, -, htracks⟩
  · cases hfeed.symm.trans hfails
  · have hended := htracks.ended.mpr hstate
    rcases (Tracks.begin hclosed root other).feedAll hempty hnested with
      ⟨error, hfirst, -⟩ | ⟨-, hfeed', htracks'⟩
    · exact absurd hfaultless hfirst.not_faultless
    · refine ⟨hfeed', Compiled.result_ok_iff.mpr ⟨hfeed', hread, ?_, rfl⟩⟩
      exact htracks'.ended.mp hended

/-! ## What a template looks up -/

theorem lacksId_of_placeholderId? {event : Event} {id : String}
    (h : event.placeholderId? = some id) : event.lacksId = false := by
  cases event with
  | stop name | text contents => rfl
  | start name own =>
      simp only [Event.placeholderId?] at h
      split at h
      · simp [Event.lacksId, h]
      · cases h

/-- The problem of an event with the data of a skeleton. -/
theorem dataProblem?_blank (ids : List String) (event : Event) :
    event.dataProblem? (DataStore.blank ids) =
      if event.lacksId then
        some .valueWithoutId
      else
        (event.placeholderId?.filter (· ∉ ids)).map .unknownId := by
  cases event with
  | stop name | text contents => rfl
  | start name own =>
      by_cases hvalue : Element.ofName name = .value
      · simp only [Event.dataProblem?, Event.lacksId, Event.placeholderId?,
          hvalue, if_true, beq_self_eq_true, Bool.true_and]
        cases own.lookup "id" with
        | none => rfl
        | some id =>
            rw [DataStore.valueProblem?_blank]
            by_cases hid : id ∈ ids
            · simp [hid, Option.filter_some]
            · simp [hid, Option.filter_some]
      · simp [Event.dataProblem?, Event.lacksId, Event.placeholderId?,
          hvalue]

/-- With all ids in the skeleton only values without an id have a problem. -/
theorem dataProblems_blank {events : List Event} {ids : List String}
    (hids : ∀ id ∈ events.filterMap Event.placeholderId?, id ∈ ids) :
    events.filterMap (Event.dataProblem? (DataStore.blank ids)) =
      List.replicate (events.countP Event.lacksId) .valueWithoutId := by
  induction events with
  | nil => rfl
  | cons event rest ih =>
      have hrest : ∀ id ∈ rest.filterMap Event.placeholderId?, id ∈ ids := by
        intro id hid
        apply hids
        rw [List.mem_filterMap] at hid ⊢
        obtain ⟨other, hother, hlookup⟩ := hid
        exact ⟨other, List.mem_cons_of_mem _ hother, hlookup⟩
      have hknown : event.placeholderId?.filter (· ∉ ids) = none := by
        rw [Option.filter_eq_none_iff]
        intro id hid
        have hmem : id ∈ ids :=
          hids id (List.mem_filterMap.mpr ⟨event, List.mem_cons_self, hid⟩)
        simp [hmem]
      rw [List.filterMap_cons, List.countP_cons, ih hrest,
        dataProblem?_blank, hknown]
      by_cases hlacks : event.lacksId = true
      · simp [hlacks, List.replicate_succ]
      · simp [hlacks]

/-- With the skeleton of any ids the template compiles too, and reports what
its values lack. -/
theorem exists_compile_blank {σ : Type} [Renderer σ] [AcceptingRenderer σ]
    {template root : String} {store : DataStore} {renderer : σ}
    {diagnostics : List Diagnostic} (hroot : Text.lower root ≠ "value")
    (hcompiled : (compile template store renderer root).result =
      .ok diagnostics) (ids : List String) :
    ∃ found,
      (compile template (DataStore.blank ids) renderer root).result =
          .ok found ∧
        Diagnostic.ofKind .dataBinding found =
          ((Markup.read template).1.filterMap
            (Event.dataProblem? (DataStore.blank ids))).map
              Problem.diagnostic := by
  have hagree := Session.inStep_begin (Compiled.isOpen_of_ok hcompiled) root
    (DataStore.blank ids)
  obtain ⟨hfeed, hresult⟩ := compile_ok_of_ok hcompiled (DataStore.blank ids)
  refine ⟨_, hresult, ?_⟩
  rw [Session.ofKind_feedAll hagree (fun _ => rfl) hroot hfeed]
  rfl

/-- The placeholders that a template that compiles is said to have are the ids
that the compilation looks up.  With another store it goes the same way, event
by event, exactly if that has the same for each of them. -/
theorem placeholderIds_eq_lookups {σ : Type} [Renderer σ]
    [AcceptingRenderer σ] {template root : String} {store : DataStore}
    {renderer : σ} {diagnostics : List Diagnostic}
    (hroot : Text.lower root ≠ "value")
    (hcompiled : (compile template store renderer root).result =
      .ok diagnostics) :
    let events := (Markup.read template).1
    let lookups := (Session.begin root store renderer).lookups events
    ∃ ids, placeholderIds template = .ok ids ∧ ids.Nodup ∧
      (∀ id, id ∈ ids ↔ id ∈ lookups) ∧
      ids.Pairwise (fun first second =>
        lookups.idxOf first < lookups.idxOf second) ∧
      (∀ other, (Session.begin root store renderer).ReactsAlike other events ↔
        ∀ id ∈ ids, other.resolve id = store.resolve id) ∧
      (∃ whole found,
        DataStore.ofJson (DataStore.skeleton ids) = .ok whole ∧
        (compile template whole renderer root).result = .ok found ∧
        Diagnostic.ofKind .dataBinding found =
          List.replicate (events.countP Event.lacksId)
            ⟨.dataBinding, "Placeholder has no 'id' attribute"⟩) ∧
      ∀ id ∈ ids, ∃ partly found,
        DataStore.ofJson (DataStore.skeleton (ids.erase id)) = .ok partly ∧
        (compile template partly renderer root).result = .ok found ∧
        ⟨.dataBinding, s!"Data key '{id}' not found"⟩ ∈ found := by
  intro events lookups
  have hagree := Session.inStep_begin (Compiled.isOpen_of_ok hcompiled) root
  obtain ⟨hfeed, hread, -, -⟩ := Compiled.result_ok_iff.mp hcompiled
  have hlookups : lookups = events.filterMap Event.placeholderId? :=
    Session.lookups_eq_filterMap (hagree store) hroot hfeed
  let ids := firstOccurrences lookups
  have hids : placeholderIds template = .ok ids := by
    have hread : Markup.read template = (events, none) := Prod.ext rfl hread
    simp only [placeholderIds, hread, ids, hlookups]
  have hmem : ∀ id, id ∈ ids ↔ id ∈ lookups := fun id => mem_firstOccurrences
  have hnodup : ids.Nodup := nodup_firstOccurrences lookups
  have halike : ∀ other,
      (Session.begin root store renderer).ReactsAlike other events ↔
        ∀ id ∈ ids, other.resolve id = store.resolve id := by
    intro other
    simp only [hmem]
    exact Session.reactsAlike_iff hfeed
  refine ⟨ids, hids, hnodup, hmem, pairwise_firstOccurrences lookups, halike,
    ?_, ?_⟩
  · obtain ⟨found, hresult, hreported⟩ :=
      exists_compile_blank hroot hcompiled ids
    refine ⟨_, found, DataStore.ofJson_skeleton ids, hresult, ?_⟩
    rw [hreported, dataProblems_blank, List.map_replicate]
    · rfl
    · intro id hid
      rwa [hmem, hlookups]
  · intro id hid
    obtain ⟨found, hresult, hreported⟩ :=
      exists_compile_blank hroot hcompiled (ids.erase id)
    refine ⟨_, found, DataStore.ofJson_skeleton _, hresult, ?_⟩
    have hlooked : id ∈ events.filterMap Event.placeholderId? := by
      rwa [← hlookups, ← hmem]
    obtain ⟨event, hevent, hasked⟩ := List.mem_filterMap.mp hlooked
    have hmissing : id ∉ ids.erase id := hnodup.not_mem_erase
    have hproblem : event.dataProblem? (DataStore.blank (ids.erase id)) =
        some (.unknownId id) := by
      rw [dataProblem?_blank, lacksId_of_placeholderId? hasked, hasked]
      simp [Option.filter_some, hmissing]
    have hfound : (Problem.unknownId id).diagnostic ∈
        Diagnostic.ofKind .dataBinding found := by
      rw [hreported]
      exact List.mem_map_of_mem
        (List.mem_filterMap.mpr ⟨event, hevent, hproblem⟩)
    exact (List.mem_filter.mp hfound).1

/-- A template that asks for one id twice, for one inside another element, and
for none in between. -/
theorem placeholderIds_eq_lookups_repeated :
    let template := "<textpdf><para><Value id='b'/><value/><i>" ++
      "<VALUE id='a'/></i></para><title><value id='b'/></title></textpdf>"
    let events := (Markup.read template).1
    let problem (message : String) : Diagnostic := ⟨.dataBinding, message⟩
    let found := [problem "No data section to resolve 'b'",
      problem "Placeholder has no 'id' attribute",
      problem "No data section to resolve 'a'",
      problem "No data section to resolve 'b'"]
    Text.lower "textpdf" ≠ "value" ∧
      (compile template .empty ({} : Recorder)).result = .ok found ∧
      (Session.begin "textpdf" .empty ({} : Recorder)).lookups events =
        ["b", "a", "b"] ∧
      ∃ ids, placeholderIds template = .ok ids ∧ ids.Nodup ∧
        ∀ id, id ∈ ids ↔ id ∈ ["b", "a", "b"] := by
  intro template events problem found
  have hroot : Text.lower "textpdf" ≠ "value" := by decide +kernel
  have hcompiled :
      (compile template .empty ({} : Recorder)).result = .ok found := by
    decide +kernel
  have hlookups :
      (Session.begin "textpdf" .empty ({} : Recorder)).lookups events =
        ["b", "a", "b"] := by
    decide +kernel
  obtain ⟨ids, hids, hnodup, hmem, -⟩ :=
    placeholderIds_eq_lookups hroot hcompiled
  exact ⟨hroot, hcompiled, hlookups, ids, hids, hnodup, hlookups ▸ hmem⟩

end DocTemplate
