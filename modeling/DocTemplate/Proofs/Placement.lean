import DocTemplate.Assembly

/-!
# Where elements can stand

Inside a table only cells start, and cells start nowhere else.  An assembly
knows whether a table is open, and that is all it needs to know to decide.
-/

namespace DocTemplate
namespace Assembly

theorem startOutside_ok {store : DataStore} {composer : Composer}
    {element : Element} {own : OwnAttributes} {started : Assembly}
    {requests : List Request}
    (h : startOutside store composer element own = .ok (started, requests)) :
    element ≠ .cell ∧
      (started.table.isSome = true ↔ element = .table) := by
  cases element with
  | block kind => cases kind <;> cases h <;> simp
  | cell => cases h
  | page | rule | image | table | value | space | lineBreak | generic =>
      simp only [startOutside, Except.ok.injEq, Prod.mk.injEq] at h
      simp [← h.1]

theorem startOutside_error {store : DataStore} {composer : Composer}
    {element : Element} {own : OwnAttributes} {misplacement : Misplacement}
    (h : startOutside store composer element own = .error misplacement) :
    element = .cell ∧ misplacement = .cellOutsideTable := by
  cases element with
  | cell => cases h; exact ⟨rfl, rfl⟩
  | block kind => cases kind <;> cases h
  | page | rule | image | table | value | space | lineBreak | generic =>
      cases h

/-- Inside a table a cell starts and nothing else; outside, anything but a
cell. -/
theorem start_ok {store : DataStore} {assembly next : Assembly}
    {element : Element} {own : OwnAttributes} {requests : List Request}
    (h : assembly.start store element own = (next, .ok requests)) :
    (assembly.table.isSome = true ↔ element = .cell) ∧
      (next.table.isSome = true ↔ element = .cell ∨ element = .table) := by
  unfold start at h
  dsimp only at h
  split at h
  · rename_i table htable
    split at h
    · rename_i hcell
      cases h
      simp [htable, hcell]
    · cases h
  · rename_i htable
    split at h
    · rename_i started asked hstarted
      cases h
      obtain ⟨hcell, hnext⟩ := startOutside_ok hstarted
      simp [htable, hcell, hnext]
    · cases h

theorem start_error {store : DataStore} {assembly next : Assembly}
    {element : Element} {own : OwnAttributes} {misplacement : Misplacement}
    (h : assembly.start store element own = (next, .error misplacement)) :
    misplacement = .notTableChild ∧ assembly.table.isSome = true ∧
        element ≠ .cell ∨
      misplacement = .cellOutsideTable ∧ assembly.table = none ∧
        element = .cell := by
  unfold start at h
  dsimp only at h
  split at h
  · rename_i table htable
    split at h
    · cases h
    · rename_i hcell
      cases h
      exact .inl ⟨rfl, by simp [htable], hcell⟩
  · rename_i htable
    split at h
    · cases h
    · rename_i asked hstarted
      cases h
      obtain ⟨hcell, hmisplacement⟩ := startOutside_error hstarted
      exact .inr ⟨hmisplacement, htable, hcell⟩

/-- Only the end of a table ends the table. -/
theorem stop_table (assembly : Assembly) (element : Element) :
    (assembly.stop element).1.table.isSome = true ↔
      assembly.table.isSome = true ∧ element ≠ .table := by
  cases element with
  | block kind => cases kind <;> simp [stop, withComposer]
  | cell =>
      cases htable : assembly.table <;> simp [stop, htable]
  | page | rule | image | table | value | space | lineBreak | generic =>
      simp [stop, withComposer]

end Assembly
end DocTemplate
