import DocTemplate.Composer
import Mathlib.Tactic.Tauto

/-!
# The text of a block in the making

What will be the text of a block stands partly in its chunks and partly in the
text that waits behind them.  Opening and closing elements moves text from one
to the other and changes the order of nothing; the text as a whole changes
only where text is added.
-/

namespace DocTemplate

@[simp] theorem Chunk.texts_nil : Chunk.texts [] = "" := rfl

@[simp] theorem Chunk.texts_append (first second : List Chunk) :
    Chunk.texts (first ++ second) = Chunk.texts first ++ Chunk.texts second := by
  simp [Chunk.texts]

@[simp] theorem Chunk.texts_singleton (chunk : Chunk) :
    Chunk.texts [chunk] = chunk.contents := by
  simp [Chunk.texts]

namespace Composer

/-- The text of the chunks and what waits behind them. -/
def text (composer : Composer) : String :=
  Chunk.texts composer.chunks ++ composer.pending

/-- Whether there is nothing to make a block of. -/
def IsVacant (composer : Composer) : Prop :=
  composer.chunks = [] ∧ composer.pending = ""

/-! ## Adding text -/

@[simp] theorem text_addLiteral (composer : Composer) (added : String) :
    (composer.addLiteral added).text = composer.text ++ added := by
  simp [text, addLiteral, String.append_assoc]

@[simp] theorem text_addTemplateText (composer : Composer) (added : String) :
    (composer.addTemplateText added).text =
      composer.text ++ Text.collapse added :=
  text_addLiteral composer (Text.collapse added)

@[simp] theorem text_modifyTop (composer : Composer)
    (change : Chunk → Chunk) :
    (composer.modifyTop change).text = composer.text := rfl

@[simp] theorem isVacant_addLiteral (composer : Composer) (added : String) :
    (composer.addLiteral added).IsVacant ↔ composer.IsVacant ∧ added = "" := by
  simp [IsVacant, addLiteral, and_assoc]

@[simp] theorem isVacant_modifyTop (composer : Composer)
    (change : Chunk → Chunk) :
    (composer.modifyTop change).IsVacant ↔ composer.IsVacant := Iff.rfl

theorem entries_modifyTop {composer : Composer} {entry : Chunk}
    {outer : List Chunk} (hentries : composer.entries = entry :: outer)
    (change : Chunk → Chunk) :
    (composer.modifyTop change).entries = change entry :: outer := by
  simp [modifyTop, hentries]

theorem text_restart (composer : Composer) :
    composer.restart.text = composer.pending := by
  simp [text, restart]

theorem isVacant_restart (composer : Composer) :
    composer.restart.IsVacant ↔ composer.pending = "" := by
  simp [IsVacant, restart]

/-! ## Opening and closing elements -/

theorem text_flushInto (composer : Composer) (chunk : Chunk) :
    (composer.flushInto chunk).1.text = composer.text := by
  simp [text, flushInto, push, clearPending]

theorem not_isVacant_flushInto (composer : Composer) (chunk : Chunk) :
    ¬(composer.flushInto chunk).1.IsVacant := by
  simp [IsVacant, flushInto, push, clearPending]

@[simp] theorem text_enter (composer : Composer) (own : OwnAttributes) :
    (composer.enter own).text = composer.text := by
  unfold enter
  cases composer.entries with
  | nil => rfl
  | cons parent outer =>
      dsimp only
      split
      · rfl
      · exact text_flushInto composer parent

@[simp] theorem isVacant_enter (composer : Composer) (own : OwnAttributes) :
    (composer.enter own).IsVacant ↔ composer.IsVacant := by
  unfold enter
  cases composer.entries with
  | nil => rfl
  | cons parent outer =>
      dsimp only
      split
      · rfl
      · rename_i hpending
        have hwaits : composer.pending ≠ "" := by simpa using hpending
        exact iff_of_false (not_isVacant_flushInto composer parent)
          fun hvacant => hwaits hvacant.2

/-- The entry of a new element lies on that of the element around it, which
may have been filled. -/
theorem entries_enter {composer : Composer} {parent : Chunk}
    {outer : List Chunk} (hentries : composer.entries = parent :: outer)
    (own : OwnAttributes) :
    ∃ filled, (composer.enter own).entries =
      entryWithin parent.attributes own :: filled :: outer := by
  simp only [enter, hentries]
  split
  · exact ⟨parent, rfl⟩
  · exact ⟨_, rfl⟩

/-- The entries below that of a new element remain as they are if nothing
waits. -/
theorem exists_entries_enter (composer : Composer) (own : OwnAttributes) :
    ∃ entry outer, (composer.enter own).entries = entry :: outer ∧
      (composer.pending = "" → outer = composer.entries) := by
  unfold enter
  cases hentries : composer.entries with
  | nil => exact ⟨_, [], rfl, fun _ => rfl⟩
  | cons parent outer =>
      dsimp only
      split
      · exact ⟨_, _, rfl, fun _ => rfl⟩
      · rename_i hwaits
        exact ⟨_, _, rfl, fun hpending => absurd (by simp [hpending]) hwaits⟩

@[simp] theorem text_leave (composer : Composer) (force : Bool) :
    (composer.leave force).1.text = composer.text := by
  unfold leave
  cases composer.entries with
  | nil => rfl
  | cons entry outer =>
      dsimp only
      split
      · exact text_flushInto composer entry
      · rfl

@[simp] theorem isVacant_leave_false (composer : Composer) :
    (composer.leave false).1.IsVacant ↔ composer.IsVacant := by
  unfold leave
  cases composer.entries with
  | nil => rfl
  | cons entry outer =>
      dsimp only
      split
      · rename_i hpending
        have hwaits : composer.pending ≠ "" := by simpa using hpending
        exact iff_of_false (not_isVacant_flushInto composer entry)
          fun hvacant => hwaits hvacant.2
      · rfl

theorem not_isVacant_leave_true {composer : Composer} {entry : Chunk}
    {outer : List Chunk} (hentries : composer.entries = entry :: outer) :
    ¬(composer.leave true).1.IsVacant := by
  simp only [leave, hentries, Bool.true_or, if_true]
  exact not_isVacant_flushInto composer entry

theorem entries_leave {composer : Composer} {entry : Chunk}
    {outer : List Chunk} (hentries : composer.entries = entry :: outer)
    (force : Bool) : (composer.leave force).1.entries = outer := by
  simp only [leave, hentries]
  split <;> rfl

theorem carrier_leave {composer : Composer} {entry : Chunk}
    {outer : List Chunk} (hentries : composer.entries = entry :: outer)
    (force : Bool) :
    ∃ carrier, (composer.leave force).2 = some carrier := by
  simp only [leave, hentries]
  split <;> exact ⟨_, rfl⟩

/-- Nothing waits behind an element that has just closed. -/
theorem pending_leave {composer : Composer} {entry : Chunk}
    {outer : List Chunk} (hentries : composer.entries = entry :: outer)
    (force : Bool) : (composer.leave force).1.pending = "" := by
  simp only [leave, hentries]
  split
  · rfl
  · rename_i hkept
    simp only [Bool.or_eq_true, Bool.not_eq_true', not_or,
      Bool.not_eq_false, String.isEmpty_iff] at hkept
    exact hkept.2

@[simp] theorem text_discard (composer : Composer) :
    composer.discard.1.text = composer.text := by
  unfold discard
  split <;> rfl

@[simp] theorem isVacant_discard (composer : Composer) :
    composer.discard.1.IsVacant ↔ composer.IsVacant := by
  unfold discard
  split <;> rfl

theorem entries_discard {composer : Composer} {entry : Chunk}
    {outer : List Chunk} (hentries : composer.entries = entry :: outer) :
    composer.discard.1.entries = outer := by
  simp only [discard, hentries]

/-! ## What opening and closing elements leave behind -/

/-- The innermost entry, with the text that waits. -/
def filledTop (composer : Composer) : List Chunk :=
  (composer.top?.map fun entry =>
    { entry with contents := composer.pending }).toList

theorem chunks_enter (composer : Composer) (own : OwnAttributes) :
    (composer.enter own).chunks = composer.chunks ++
      if composer.pending = "" then [] else composer.filledTop := by
  unfold enter filledTop top?
  cases composer.entries with
  | nil => simp
  | cons parent outer =>
      by_cases hpending : composer.pending = ""
      · simp [hpending]
      · simp [hpending, flushInto, push, clearPending]

theorem chunks_leave (composer : Composer) (force : Bool) :
    (composer.leave force).1.chunks = composer.chunks ++
      if force = false ∧ composer.pending = "" then
        []
      else
        composer.filledTop := by
  unfold leave filledTop top?
  cases composer.entries with
  | nil => simp
  | cons entry outer =>
      by_cases hkept : force = false ∧ composer.pending = ""
      · simp [hkept.1, hkept.2]
      · have hflushed : (force || !composer.pending.isEmpty) = true := by
          simpa [← Bool.not_eq_true, imp_iff_not_or] using hkept
        simp [hflushed, hkept, flushInto, push, clearPending]

/-- Inside an open element nothing waits behind the start of another one. -/
theorem pending_enter {composer : Composer} {parent : Chunk}
    {outer : List Chunk} (hentries : composer.entries = parent :: outer)
    (own : OwnAttributes) : (composer.enter own).pending = "" := by
  simp only [enter, hentries]
  split
  · rename_i hempty
    exact String.isEmpty_iff.mp hempty
  · rfl

theorem pending_enter_of_eq_nil {composer : Composer}
    (hentries : composer.entries = []) (own : OwnAttributes) :
    (composer.enter own).pending = composer.pending := by
  simp only [enter, hentries]

/-- An element without text leaves no chunk, unless it is told to. -/
theorem chunks_leave_enter {composer : Composer}
    (hpending : composer.pending = "") (own : OwnAttributes) :
    ((composer.enter own).leave false).1.chunks = composer.chunks := by
  have hentered : (composer.enter own).pending = "" := by
    cases hentries : composer.entries with
    | nil => rwa [pending_enter_of_eq_nil hentries]
    | cons parent outer => exact pending_enter hentries own
  rw [chunks_leave, if_pos ⟨rfl, hentered⟩, chunks_enter, if_pos hpending,
    List.append_nil, List.append_nil]

theorem eq_of_finish {composer : Composer} {kind : BlockKind}
    {carrier : Option Chunk} {block : Block}
    (h : (composer.finish kind carrier).2 = some block) :
    block.kind = kind ∧
      block.chunks = finishedChunks kind carrier composer.chunks := by
  unfold finish at h
  dsimp only at h
  split at h
  · cases h
  · obtain rfl := Option.some.inj h
    exact ⟨rfl, rfl⟩

/-! ## Adding text behind text -/

/-- One composer has become another by text added behind the text that was
there.  Marked additions leave a chunk even if their text is empty. -/
structure Adds (added : String) (marked : Bool)
    (before after : Composer) : Prop where
  text_eq : after.text = before.text ++ added
  isVacant_iff : after.IsVacant ↔
    before.IsVacant ∧ added = "" ∧ marked = false

theorem Adds.refl (composer : Composer) : Adds "" false composer composer :=
  ⟨by simp, by simp⟩

theorem Adds.trans {first second : String} {firstMarked secondMarked : Bool}
    {before between after : Composer}
    (hfirst : Adds first firstMarked before between)
    (hsecond : Adds second secondMarked between after) :
    Adds (first ++ second) (firstMarked || secondMarked) before after where
  text_eq := by
    rw [hsecond.text_eq, hfirst.text_eq, String.append_assoc]
  isVacant_iff := by
    rw [hsecond.isVacant_iff, hfirst.isVacant_iff,
      String.append_eq_empty_iff, Bool.or_eq_false_iff]
    tauto

theorem adds_addLiteral (composer : Composer) (added : String) :
    Adds added false composer (composer.addLiteral added) :=
  ⟨text_addLiteral composer added, by simp⟩

theorem adds_addTemplateText (composer : Composer) (added : String) :
    Adds (Text.collapse added) false composer
      (composer.addTemplateText added) :=
  adds_addLiteral composer (Text.collapse added)

theorem adds_modifyTop (composer : Composer) (change : Chunk → Chunk) :
    Adds "" false composer (composer.modifyTop change) :=
  ⟨by simp, by simp⟩

theorem adds_enter (composer : Composer) (own : OwnAttributes) :
    Adds "" false composer (composer.enter own) :=
  ⟨by simp, by simp⟩

theorem adds_leave {composer : Composer} {entry : Chunk} {outer : List Chunk}
    (hentries : composer.entries = entry :: outer) (force : Bool) :
    Adds "" force composer (composer.leave force).1 where
  text_eq := by simp
  isVacant_iff := by
    cases force with
    | false => simp
    | true => simp [not_isVacant_leave_true hentries]

theorem adds_discard (composer : Composer) :
    Adds "" false composer composer.discard.1 :=
  ⟨by simp, by simp⟩

end Composer
end DocTemplate
