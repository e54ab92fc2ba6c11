import DocTemplate.Markup.Reader
import Mathlib.Data.List.Induction

/-!
# Nesting of markup events

Each event is met with some elements open around it.  Events are nested if
every end names the innermost of them.  The events of a template are, up to
its first error and whether or not it is well-formed.
-/

namespace DocTemplate
namespace Markup

/-- The names of the open elements behind an event, the innermost first. -/
def Event.nest (names : List String) : Event → List String
  | .start name _ => name :: names
  | .stop _ => names.tail
  | .text _ => names

/-- Whether an event may follow where these elements are open. -/
def Event.Fits (names : List String) : Event → Prop
  | .stop name => names.head? = some name
  | _ => True

/-- Events of which every end names the innermost open element. -/
def Nested (names : List String) : List Event → Prop
  | [] => True
  | event :: rest => event.Fits names ∧ Nested (event.nest names) rest

/-- The names of the elements that are open behind some events, the innermost
first. -/
def openNames (events : List Event) : List String :=
  events.foldl Event.nest []

@[simp] theorem openNames_nil : openNames [] = [] := rfl

@[simp] theorem openNames_append_singleton (before : List Event)
    (event : Event) :
    openNames (before ++ [event]) = event.nest (openNames before) := by
  simp [openNames]

theorem nested_append {names : List String} {first second : List Event} :
    Nested names (first ++ second) ↔
      Nested names first ∧ Nested (first.foldl Event.nest names) second := by
  induction first generalizing names with
  | nil => simp [Nested]
  | cons event rest ih =>
      simp only [List.cons_append, Nested, List.foldl_cons, ih, and_assoc]

/-- Nested events end only what they have started, or what was open before. -/
theorem Nested.start_or_mem_of_stop {names : List String}
    {events : List Event} (h : Nested names events) {name : String}
    (hstop : .stop name ∈ events) :
    name ∈ names ∨ ∃ own, .start name own ∈ events := by
  induction events generalizing names with
  | nil => cases hstop
  | cons event rest ih =>
      obtain ⟨hfits, hrest⟩ := h
      rcases List.mem_cons.mp hstop with rfl | hlater
      · exact .inl (List.mem_of_mem_head? hfits)
      · rcases ih hrest hlater with hname | ⟨own, hstart⟩
        · cases event with
          | start other own =>
              rcases List.mem_cons.mp hname with rfl | hold
              · exact .inr ⟨own, List.mem_cons_self⟩
              · exact .inl hold
          | stop other => exact .inl (List.mem_of_mem_tail hname)
          | text other => exact .inl hname
        · exact .inr ⟨own, List.mem_cons_of_mem _ hstart⟩

theorem Nested.start_of_stop {events : List Event} (h : Nested [] events)
    {name : String} (hstop : .stop name ∈ events) :
    ∃ own, .start name own ∈ events :=
  (h.start_or_mem_of_stop hstop).resolve_left List.not_mem_nil

theorem start_of_mem_openNames {events : List Event} {name : String}
    (hopen : name ∈ openNames events) : ∃ own, .start name own ∈ events := by
  induction events using List.reverseRecOn with
  | nil => cases hopen
  | append_singleton before event ih =>
      rw [openNames_append_singleton] at hopen
      have hearlier (hmem : name ∈ openNames before) :
          ∃ own, .start name own ∈ before ++ [event] := by
        obtain ⟨own, hstart⟩ := ih hmem
        exact ⟨own, List.mem_append_left _ hstart⟩
      cases event with
      | start other own =>
          rcases List.mem_cons.mp hopen with rfl | hold
          · exact ⟨own, List.mem_append_right _ List.mem_cons_self⟩
          · exact hearlier hold
      | stop other => exact hearlier (List.mem_of_mem_tail hopen)
      | text other => exact hearlier hopen

theorem startEvent_eq {content : List Char} {event : Event}
    (h : startEvent content = .ok event) :
    ∃ own, event = .start (String.ofList (tagName content)) own := by
  unfold startEvent at h
  cases hown : attributes content with
  | error problem =>
      rw [hown] at h
      cases h
  | ok own =>
      rw [hown] at h
      cases h
      exact ⟨own, rfl⟩

/-- A piece is read into events that nest, and the place behind it knows the
elements that they leave open. -/
theorem Place.take_nested {place next : Place} {piece : Piece}
    {events : List Event} (h : place.take piece = .ok (events, next)) :
    Nested place.openNames events ∧
      next.openNames = events.foldl Event.nest place.openNames := by
  unfold take at h
  dsimp only at h
  split at h
  · split at h <;> cases h
    exact ⟨⟨trivial, trivial⟩, rfl⟩
  · cases h
    exact ⟨⟨trivial, trivial⟩, rfl⟩
  · cases h
    exact ⟨trivial, rfl⟩
  · split at h
    · rename_i content event hevent
      cases h
      obtain ⟨own, rfl⟩ := startEvent_eq hevent
      exact ⟨⟨trivial, trivial⟩, rfl⟩
    · cases h
  · split at h
    · rename_i content event hevent
      cases h
      obtain ⟨own, rfl⟩ := startEvent_eq hevent
      exact ⟨⟨trivial, rfl, trivial⟩, rfl⟩
    · cases h
  · split at h
    · cases h
    · rename_i expected outer hnames
      split at h
      · rename_i hfound
        cases h
        rw [hnames]
        exact ⟨⟨congrArg some hfound.symm, trivial⟩, rfl⟩
      · cases h

theorem nested_eventsFrom (fault : Option PieceFault) (list : List Piece)
    (place : Place) :
    Nested place.openNames (eventsFrom place fault list).1 := by
  induction list generalizing place with
  | nil => trivial
  | cons piece rest ih =>
      unfold eventsFrom
      cases htake : place.take piece with
      | error error => trivial
      | ok taken =>
          obtain ⟨events, next⟩ := taken
          obtain ⟨hnested, hnames⟩ := Place.take_nested htake
          refine nested_append.mpr ⟨hnested, ?_⟩
          rw [← hnames]
          exact ih next

/-- The events of a template are nested. -/
theorem nested_read (source : String) : Nested [] (read source).1 :=
  nested_eventsFrom _ _ {}

end Markup
end DocTemplate
