import DocTemplate.Markup.Cursor
import DocTemplate.Proofs.Nesting
import DocTemplate.Proofs.UniqueKeys

/-!
# Pulling events

A cursor gives exactly the events that reading the template as a whole gives,
one after the other, then the error if there is one, and then nothing for ever.
What it has given at any moment could be completed to well-nested events.
-/

namespace DocTemplate
namespace Markup

/-! ## Reading from a place -/

/-- The events of a text that starts at a place of a template. -/
def readFrom (place : Place) (text : List Char) :
    List Event × Option MarkupError :=
  eventsFrom place (pieces text).2 (pieces text).1

theorem read_eq_readFrom (source : String) :
    read source = readFrom {} (withoutByteOrderMark source.toList) := rfl

@[simp] theorem readFrom_nil (place : Place) :
    readFrom place [] = ([], none) := by
  simp [readFrom, pieces, eventsFrom]

theorem readFrom_of_fault {place : Place} {first : Char} {rest : List Char}
    {fault : PieceFault} (hcut : cutPiece first rest = .error fault) :
    readFrom place (first :: rest) =
      ([], some ⟨fault.problem, place.offset + fault.offset⟩) := by
  unfold readFrom
  rw [pieces]
  split
  · rename_i found hfound
    cases hcut.symm.trans hfound
    rfl
  · rename_i hfound
    cases hcut.symm.trans hfound

/-- What is read of a text is what is read of its first piece, and then of the
text behind that. -/
theorem readFrom_of_cut {place : Place} {first : Char}
    {rest behind : List Char} {piece : Piece}
    (hcut : cutPiece first rest = .ok (piece, behind)) :
    readFrom place (first :: rest) =
      match place.take piece with
      | .error error => ([], some error)
      | .ok (events, next) =>
          (events ++ (readFrom next behind).1, (readFrom next behind).2) := by
  unfold readFrom
  rw [pieces]
  split
  · rename_i hfound
    cases hcut.symm.trans hfound
  · rename_i hfound
    cases hcut.symm.trans hfound
    rfl

/-- A piece has no event, or one, or a start and its own end. -/
theorem Place.take_events {place next : Place} {piece : Piece}
    {events : List Event} (h : place.take piece = .ok (events, next)) :
    events = [] ∨ ∃ event, events =
      event :: (piece.ownEnd?.map Event.stop).toList := by
  cases piece with
  | text contents =>
      simp only [take] at h
      split at h <;> cases h
      exact .inr ⟨_, rfl⟩
  | literal contents =>
      cases h
      exact .inr ⟨_, rfl⟩
  | skipped source =>
      cases h
      exact .inl rfl
  | startTag content =>
      simp only [take] at h
      split at h <;> cases h
      exact .inr ⟨_, rfl⟩
  | emptyTag content =>
      simp only [take] at h
      split at h <;> cases h
      exact .inr ⟨_, rfl⟩
  | endTag content =>
      simp only [take] at h
      split at h
      · cases h
      · split at h <;> cases h
        exact .inr ⟨_, rfl⟩

/-! ## What a cursor still gives -/

namespace Cursor

/-- The events and the error that a reading comes to, one after the other. -/
def answers (found : List Event × Option MarkupError) :
    List (Except MarkupError Event) :=
  found.1.map .ok ++ found.2.toList.map .error

/-- What a cursor has still to give. -/
def remaining (cursor : Cursor) : List (Except MarkupError Event) :=
  if cursor.done then
    []
  else
    (cursor.pendingEnd?.map fun name => .ok (.stop name)).toList ++
      answers (readFrom cursor.place cursor.rest)

/-- Only the last thing to be given can be an error. -/
theorem answers_behind {found : List Event × Option MarkupError}
    {asked later : Nat}
    (hstop : (answers found)[asked]? = none ∨
      ∃ error, (answers found)[asked]? = some (.error error))
    (hlater : asked < later) : (answers found)[later]? = none := by
  obtain ⟨events, error?⟩ := found
  have hshort : (answers (events, error?)).length ≤ events.length + 1 := by
    cases error? <;> simp [answers]
  rw [List.getElem?_eq_none_iff]
  rcases hstop with hnone | ⟨error, herror⟩
  · rw [List.getElem?_eq_none_iff] at hnone
    omega
  · have hevents : events.length ≤ asked := by
      by_contra hbefore
      have hinside : asked < (events.map
          (Except.ok : Event → Except MarkupError Event)).length := by
        rw [List.length_map]
        omega
      rw [answers, List.getElem?_append_left hinside, List.getElem?_map] at herror
      cases hevent : events[asked]? with
      | none => simp [hevent] at herror
      | some event => simp [hevent] at herror
    omega

theorem remaining_stopped (place : Place) (rest : List Char) :
    (stopped place rest).remaining = [] := rfl

theorem advance_eq (place : Place) (text : List Char) :
    (advance place text).1 = (answers (readFrom place text)).head? ∧
      (advance place text).2.remaining =
        (answers (readFrom place text)).tail := by
  fun_induction advance place text with
  | case1 place => simp [answers, remaining_stopped]
  | case2 place first rest fault hcut =>
      rw [readFrom_of_fault hcut]
      exact ⟨rfl, rfl⟩
  | case3 place first rest piece behind hcut error htake =>
      rw [readFrom_of_cut hcut, htake]
      exact ⟨rfl, rfl⟩
  | case4 place first rest piece behind hcut next htake ih =>
      rw [readFrom_of_cut hcut, htake]
      exact ih
  | case5 place first rest piece behind hcut event others next htake =>
      rw [readFrom_of_cut hcut, htake]
      -- the only event that can be left of the piece is its pending end
      rcases Place.take_events htake with hnone | ⟨found, hevents⟩
      · cases hnone
      · obtain ⟨rfl, rfl⟩ := List.cons.inj hevents
        refine ⟨rfl, ?_⟩
        cases piece.ownEnd? <;> simp [answers, remaining]

/-- A cursor gives the first of what it has to give, and keeps the others. -/
theorem next_eq (cursor : Cursor) :
    cursor.next.1 = cursor.remaining.head? ∧
      cursor.next.2.remaining = cursor.remaining.tail := by
  obtain ⟨rest, place, pendingEnd, done⟩ := cursor
  cases done with
  | true => exact ⟨rfl, rfl⟩
  | false =>
      cases pendingEnd with
      | some name => exact ⟨rfl, rfl⟩
      | none => exact advance_eq place rest

theorem answer_eq (cursor : Cursor) (asked : Nat) :
    cursor.answer asked = cursor.remaining[asked]? := by
  induction asked generalizing cursor with
  | zero => rw [answer, (next_eq cursor).1, List.head?_eq_getElem?]
  | succ asked ih =>
      rw [answer, ih, (next_eq cursor).2, List.getElem?_tail]

end Cursor

/-! ## Well-nested events -/

/-- Whether events are nested and close whatever they open. -/
def WellNested (events : List Event) : Prop :=
  Nested [] events ∧ openNames events = []

/-- Ending what is open, from the inside out, closes everything. -/
theorem nested_map_stop (names : List String) :
    Nested names (names.map .stop) ∧
      (names.map Event.stop).foldl Event.nest names = [] := by
  induction names with
  | nil => exact ⟨trivial, rfl⟩
  | cons name outer ih => exact ⟨⟨rfl, ih.1⟩, ih.2⟩

theorem Nested.exists_wellNested {events : List Event}
    (h : Nested [] events) : ∃ later, WellNested (events ++ later) := by
  obtain ⟨hnested, hclosed⟩ := nested_map_stop (openNames events)
  refine ⟨(openNames events).map .stop, nested_append.mpr ⟨h, hnested⟩, ?_⟩
  rw [openNames, List.foldl_append]
  exact hclosed

/-- Pieces that are read without an error leave the rest of the template,
whatever it is, to be read from the place behind them. -/
theorem exists_place_behind {place : Place} {front : List Piece}
    {events : List Event}
    (hfront : eventsFrom place none front = (events, none)) :
    ∃ next, ∀ fault later, eventsFrom place fault (front ++ later) =
      (events ++ (eventsFrom next fault later).1,
        (eventsFrom next fault later).2) := by
  induction front generalizing place events with
  | nil =>
      cases hfront
      exact ⟨place, fun _ _ => rfl⟩
  | cons piece rest ih =>
      simp only [eventsFrom] at hfront
      cases htake : place.take piece with
      | error error =>
          rw [htake] at hfront
          cases hfront
      | ok taken =>
          obtain ⟨found, behind⟩ := taken
          rw [htake] at hfront
          obtain ⟨rfl, hrest⟩ := Prod.mk.inj hfront
          obtain ⟨next, hnext⟩ := ih (Prod.ext rfl hrest)
          refine ⟨next, fun fault later => ?_⟩
          simp only [List.cons_append, eventsFrom, htake, hnext,
            List.append_assoc]

theorem eventsFrom_append {place : Place} {front : List Piece}
    {events : List Event}
    (hfront : eventsFrom place none front = (events, none))
    (fault : Option PieceFault) (later : List Piece) :
    ∃ next, eventsFrom place fault (front ++ later) =
      (events ++ (eventsFrom next fault later).1,
        (eventsFrom next fault later).2) := by
  obtain ⟨next, hnext⟩ := exists_place_behind hfront
  exact ⟨next, hnext fault later⟩

/-- A tag without content is read into a start and its end right behind, or it
is an error. -/
theorem eventsFrom_emptyTag (place : Place) (fault : Option PieceFault)
    (content : List Char) (later : List Piece) :
    let name := String.ofList (tagName content)
    let found := eventsFrom place fault (.emptyTag content :: later)
    (∃ error, found = ([], some error)) ∨
      ∃ own others, found.1 = .start name own :: .stop name :: others := by
  intro name found
  cases hevent : startEvent content with
  | error problem =>
      left
      simp [found, eventsFrom, Place.take, hevent]
  | ok event =>
      right
      obtain ⟨own, rfl⟩ := startEvent_eq hevent
      refine ⟨own, ?_⟩
      simp [found, eventsFrom, Place.take, hevent, name]

/-- Whether or not a template is well-formed, its events up to the first error
begin some well-nested events: every end names the innermost open element, an
element without content ends right behind its start, and no start has a key
twice.  A cursor gives these events, then the error if there is one, and behind
an error or the end of the template nothing any more. -/
theorem read_begins_wellNested (source : String) :
    let events := (read source).1
    let error? := (read source).2
    let answer := (Cursor.of source).answer
    (∃ later, WellNested (events ++ later)) ∧
      (∀ before name after, events = before ++ .stop name :: after →
        (openNames before).head? = some name) ∧
      (∀ front content later fault opened,
        pieces (withoutByteOrderMark source.toList) =
            (front ++ .emptyTag content :: later, fault) →
          eventsFrom {} none front = (opened, none) →
          let name := String.ofList (tagName content)
          (∃ error, read source = (opened, some error)) ∨
            ∃ own others,
              events = opened ++ .start name own :: .stop name :: others) ∧
      (∀ name own, .start name own ∈ events → (own.map Prod.fst).Nodup) ∧
      (∀ asked, answer asked =
        (events.map .ok ++ error?.toList.map .error)[asked]?) ∧
      ∀ asked, answer asked = none ∨
          (∃ error, answer asked = some (.error error)) →
        ∀ later, asked < later → answer later = none := by
  intro events error? answer
  have hnested : Nested [] events := nested_read source
  have hanswer (asked : Nat) : answer asked =
      (Cursor.answers (read source))[asked]? :=
    (Cursor.of source).answer_eq asked
  refine ⟨hnested.exists_wellNested, ?_, ?_, ?_, hanswer, ?_⟩
  · intro before name after hevents
    rw [hevents] at hnested
    exact (nested_append.mp hnested).2.1
  · intro front content later fault opened hpieces hfront name
    have hread : read source =
        eventsFrom {} fault (front ++ .emptyTag content :: later) := by
      simp only [read, hpieces]
    obtain ⟨next, hnext⟩ :=
      eventsFrom_append hfront fault (.emptyTag content :: later)
    -- behind the front the tag is the first piece, and no error came before
    rw [← hread] at hnext
    rcases eventsFrom_emptyTag next fault content later with
      ⟨error, hfault⟩ | ⟨own, others, hevents⟩
    · left
      refine ⟨error, ?_⟩
      rw [hnext, hfault, List.append_nil]
    · right
      refine ⟨own, others, ?_⟩
      simp only [events, hnext, hevents, name]
  · intro name own hstart
    have hunique : UniqueKeys own := read_unique hstart
    rw [List.nodup_iff_pairwise_ne, List.pairwise_map]
    exact hunique
  · intro asked hstop later hlater
    rw [hanswer] at hstop ⊢
    exact Cursor.answers_behind hstop hlater

end Markup
end DocTemplate
