import DocTemplate.Markup.Reader

/-!
# The keys of a tag

An element cannot have an attribute twice: such a tag is an error of the
markup.  So it does not matter that the first value of a key is looked up in
some places and the last one counts in others.
-/

namespace DocTemplate
namespace Markup

/-- Whether no key is given twice. -/
def UniqueKeys (own : OwnAttributes) : Prop :=
  own.Pairwise fun first second => first.1 ≠ second.1

theorem attributesFrom_unique {known : List (List Char × Nat)}
    {located : Located} {own : OwnAttributes}
    (h : attributesFrom known located = .ok own) :
    UniqueKeys own ∧ ∀ pair ∈ own, known.lookup pair.1.toList = none := by
  fun_induction attributesFrom known located generalizing own with
  | case1 =>
      cases h
      exact ⟨.nil, nofun⟩
  | case2 | case3 | case4 => cases h
  | case5 known located first rest hstart place key behindKey behindSign
      hequals hknown raw behind hvalue =>
      rename_i ih
      cases hunescaped : (unescape raw).mapError MarkupProblem.attributeValue
        with
      | error problem =>
          rw [hunescaped] at h
          cases h
      | ok value =>
          rw [hunescaped] at h
          cases hothers : attributesFrom ((key, place) :: known) behind with
          | error problem =>
              rw [hothers] at h
              cases h
          | ok others =>
              rw [hothers] at h
              cases h
              obtain ⟨hunique, hnew⟩ := ih hothers
              have hother : ∀ pair ∈ others, pair.1.toList ≠ key ∧
                  known.lookup pair.1.toList = none := by
                intro pair hpair
                have hlookup := hnew pair hpair
                rw [List.lookup_cons] at hlookup
                cases hsame : pair.1.toList == key with
                | true => simp [hsame] at hlookup
                | false =>
                    rw [hsame] at hlookup
                    exact ⟨ne_of_beq_false hsame, hlookup⟩
              constructor
              · apply List.pairwise_cons.mpr
                refine ⟨fun pair hpair heq => ?_, hunique⟩
                apply (hother pair hpair).1
                rw [← heq, String.toList_ofList]
              · rw [List.forall_mem_cons]
                refine ⟨?_, fun pair hpair => (hother pair hpair).2⟩
                rw [String.toList_ofList]
                exact hknown

/-- The attributes of an event, if it starts an element. -/
def Event.UniqueKeys : Event → Prop
  | .start _ own => Markup.UniqueKeys own
  | .stop _ | .text _ => True

theorem startEvent_unique {content : List Char} {event : Event}
    (h : startEvent content = .ok event) : event.UniqueKeys := by
  unfold startEvent at h
  cases hown : attributes content with
  | error problem =>
      rw [hown] at h
      cases h
  | ok own =>
      rw [hown] at h
      cases h
      exact (attributesFrom_unique hown).1

theorem Place.take_unique {place next : Place} {piece : Piece}
    {events : List Event} (h : place.take piece = .ok (events, next)) :
    ∀ event ∈ events, event.UniqueKeys := by
  cases piece with
  | text contents =>
      simp only [take] at h
      split at h
      · cases h
        exact List.forall_mem_singleton.mpr trivial
      · cases h
  | literal contents =>
      cases h
      exact List.forall_mem_singleton.mpr trivial
  | skipped source =>
      cases h
      exact nofun
  | startTag content =>
      simp only [take] at h
      split at h
      · rename_i hevent
        cases h
        exact List.forall_mem_singleton.mpr (startEvent_unique hevent)
      · cases h
  | emptyTag content =>
      simp only [take] at h
      split at h
      · rename_i hevent
        cases h
        rw [List.forall_mem_cons]
        exact ⟨startEvent_unique hevent, List.forall_mem_singleton.mpr trivial⟩
      · cases h
  | endTag content =>
      simp only [take] at h
      split at h
      · cases h
      · split at h
        · cases h
          exact List.forall_mem_singleton.mpr trivial
        · cases h

/-- No tag of a template gives a key twice. -/
theorem read_unique {template : String} {event : Event}
    (h : event ∈ (read template).1) : event.UniqueKeys := by
  unfold read at h
  generalize pieces (withoutByteOrderMark template.toList) = found at h
  obtain ⟨list, fault⟩ := found
  dsimp only at h
  generalize ({} : Place) = place at h
  induction list generalizing place with
  | nil => cases h
  | cons piece rest ih =>
      unfold eventsFrom at h
      cases htake : place.take piece with
      | error error =>
          rw [htake] at h
          cases h
      | ok taken =>
          rw [htake] at h
          rcases List.mem_append.mp h with hevent | hrest
          · exact Place.take_unique htake event hevent
          · exact ih _ hrest

end Markup
end DocTemplate
