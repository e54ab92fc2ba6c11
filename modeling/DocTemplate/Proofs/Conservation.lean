import DocTemplate.Proofs.Composing
import DocTemplate.Proofs.Depth

/-!
# No text is lost in a composer

Elements may open and close in any order, more of them may close than are open,
and what is known of the innermost one may change at any time.  Whatever comes,
the text of the chunks with what waits behind them is the text that has been
added, in its order: each step adds its own text at the end, and one that opens
or closes an element at most turns what waits into one more chunk.
-/

namespace DocTemplate

/-! ## Steps -/

/-- What can happen to a composer while a block is filled. -/
inductive ComposerStep
  | enter (own : OwnAttributes)
  | leave (force : Bool)
  | discard
  | modifyTop (change : Chunk → Chunk)
  | templateText (text : String)
  | literal (text : String)

namespace ComposerStep

/-- The text that a step adds. -/
def text : ComposerStep → String
  | templateText text => Text.collapse text
  | literal text => text
  | _ => ""

def opensElement : ComposerStep → Bool
  | enter _ => true
  | _ => false

def closesElement : ComposerStep → Bool
  | leave _ | discard => true
  | _ => false

end ComposerStep

namespace Composer

open ComposerStep

def act (composer : Composer) : ComposerStep → Composer
  | .enter own => composer.enter own
  | .leave force => (composer.leave force).1
  | .discard => composer.discard.1
  | .modifyTop change => composer.modifyTop change
  | .templateText text => composer.addTemplateText text
  | .literal text => composer.addLiteral text

/-- The composer behind some steps, one after the other. -/
def run (composer : Composer) (steps : List ComposerStep) : Composer :=
  steps.foldl act composer

theorem run_cons (composer : Composer) (step : ComposerStep)
    (rest : List ComposerStep) :
    composer.run (step :: rest) = (composer.act step).run rest := rfl

/-- How many of some steps close an element and find one to close. -/
def departures (composer : Composer) : List ComposerStep → Nat
  | [] => 0
  | step :: rest =>
      (if step.closesElement && !composer.entries.isEmpty then 1 else 0) +
        (composer.act step).departures rest

/-- The chunks that a step adds to the block. -/
def flushed (composer : Composer) : ComposerStep → List Chunk
  | .enter _ => if composer.pending = "" then [] else composer.filledTop
  | .leave force =>
      if force = false ∧ composer.pending = "" then []
      else composer.filledTop
  | _ => []

/-! ## One step -/

section

variable (composer : Composer) (step : ComposerStep)

theorem text_act : (composer.act step).text = composer.text ++ step.text := by
  cases step with
  | enter | leave | discard | modifyTop => simp [act, ComposerStep.text]
  | templateText text => exact text_addTemplateText composer text
  | literal text => exact text_addLiteral composer text

theorem chunks_act :
    (composer.act step).chunks = composer.chunks ++ composer.flushed step := by
  cases step with
  | enter own => exact chunks_enter composer own
  | leave force => exact chunks_leave composer force
  | discard =>
      have hkept : composer.discard.1.chunks = composer.chunks := by
        unfold Composer.discard
        split <;> rfl
      exact hkept.trans (List.append_nil _).symm
  | modifyTop | templateText | literal => exact (List.append_nil _).symm

/-- A step that opens an element makes the composer deeper, and one that closes
an element makes it less deep if it finds one. -/
theorem depth_act :
    (composer.act step).depth +
        (if step.closesElement && !composer.entries.isEmpty then 1 else 0) =
      composer.depth + if step.opensElement then 1 else 0 := by
  -- A composer that is not deep finds nothing to close and is as deep after.
  have hclosed : composer.depth - 1 +
      (if !composer.entries.isEmpty then 1 else 0) = composer.depth := by
    rw [depth]
    cases composer.entries with
    | nil => rfl
    | cons entry outer => simp
  cases step with
  | enter own => exact depth_enter composer own
  | leave force =>
      rw [act, depth_leave composer force]
      exact hclosed
  | discard =>
      rw [act, depth_discard composer]
      exact hclosed
  | modifyTop change => exact depth_modifyTop composer change
  | templateText | literal => rfl

end

theorem of_mem_filledTop {composer : Composer} {chunk : Chunk}
    (h : chunk ∈ composer.filledTop) :
    composer.filledTop = [chunk] ∧
      ∃ entry, composer.top? = some entry ∧
        chunk = { entry with contents := composer.pending } := by
  obtain ⟨entry, hentry, rfl⟩ :=
    Option.map_eq_some_iff.mp (Option.mem_toList.mp h)
  refine ⟨?_, entry, hentry, rfl⟩
  rw [filledTop, hentry]
  rfl

/-- What a step adds to the block is the innermost entry with the text that
waited, and it is without text only if it is told to be. -/
theorem of_mem_flushed {composer : Composer} {step : ComposerStep}
    {chunk : Chunk} (h : chunk ∈ composer.flushed step) :
    composer.flushed step = [chunk] ∧
      (∃ entry, composer.top? = some entry ∧
        chunk = { entry with contents := composer.pending }) ∧
      (composer.pending ≠ "" ∨ step = .leave true) := by
  cases step with
  | enter own =>
      by_cases hpending : composer.pending = ""
      · rw [flushed, if_pos hpending] at h
        cases h
      · rw [flushed, if_neg hpending] at h ⊢
        obtain ⟨hsingle, hentry⟩ := of_mem_filledTop h
        exact ⟨hsingle, hentry, .inl hpending⟩
  | leave force =>
      by_cases hkept : force = false ∧ composer.pending = ""
      · rw [flushed, if_pos hkept] at h
        cases h
      · rw [flushed, if_neg hkept] at h ⊢
        obtain ⟨hsingle, hentry⟩ := of_mem_filledTop h
        refine ⟨hsingle, hentry, ?_⟩
        cases force with
        | true => exact .inr rfl
        | false => exact .inl fun hpending => hkept ⟨rfl, hpending⟩
  | discard | modifyTop | templateText | literal => cases h

/-! ## All steps -/

section

variable (composer : Composer) (steps : List ComposerStep)

theorem text_run :
    (composer.run steps).text =
      composer.text ++ String.join (steps.map ComposerStep.text) := by
  induction steps generalizing composer with
  | nil => exact (String.append_empty).symm
  | cons step rest ih =>
      rw [run_cons, ih, text_act, List.map_cons, String.join_cons,
        String.append_assoc]

theorem chunks_prefix_run : composer.chunks <+: (composer.run steps).chunks := by
  induction steps generalizing composer with
  | nil => exact List.prefix_refl _
  | cons step rest ih =>
      have hstep : composer.chunks <+: (composer.act step).chunks :=
        ⟨composer.flushed step, (chunks_act composer step).symm⟩
      exact hstep.trans (ih (composer.act step))

theorem depth_run :
    (composer.run steps).depth + composer.departures steps =
      composer.depth + steps.countP opensElement := by
  induction steps generalizing composer with
  | nil => rfl
  | cons step rest ih =>
      have hstep := depth_act composer step
      have hrest := ih (composer.act step)
      rw [run_cons, departures, List.countP_cons]
      omega

end

/-- Whatever elements are open at first and whatever happens then, the text of
the chunks with what waits behind them is the text that has been added.  A
chunk once in the block remains there as it is, and what a step adds is the
innermost entry with the text that waited, which is empty only if the step
demands a chunk.  The depth counts the elements that have been opened, less
those that have been closed. -/
theorem run_conserves_text (entries : List Chunk)
    (steps : List ComposerStep) (step : ComposerStep) :
    let start : Composer := { entries }
    let before := start.run steps
    let after := before.act step
    Chunk.texts before.chunks ++ before.pending =
        String.join (steps.map ComposerStep.text) ∧
      (∀ later, before.chunks <+: (before.run later).chunks) ∧
      (after.chunks = before.chunks ∨
        ∃ entry, before.top? = some entry ∧
          after.chunks =
            before.chunks ++ [{ entry with contents := before.pending }] ∧
          (before.pending ≠ "" ∨ step = .leave true)) ∧
      before.depth + start.departures steps =
        entries.length + steps.countP opensElement := by
  intro start before after
  have hchunks : after.chunks = before.chunks ++ before.flushed step :=
    chunks_act before step
  refine ⟨?_, chunks_prefix_run before, ?_, depth_run start steps⟩
  · have htext : before.text = _ := text_run start steps
    have hstart : start.text = "" := rfl
    rwa [hstart, String.empty_append] at htext
  · cases hflushed : before.flushed step with
    | nil =>
        rw [hflushed, List.append_nil] at hchunks
        exact .inl hchunks
    | cons chunk rest =>
        have hmem : chunk ∈ before.flushed step := by
          rw [hflushed]
          exact List.mem_cons_self
        obtain ⟨hsingle, ⟨entry, hentry, rfl⟩, hfilled⟩ := of_mem_flushed hmem
        exact .inr ⟨entry, hentry, hsingle ▸ hchunks, hfilled⟩

end Composer
end DocTemplate
