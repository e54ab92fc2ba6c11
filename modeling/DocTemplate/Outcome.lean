/-!
# Outcomes

An action on a state may fail half way.  What it has done until then remains,
so an outcome always has a state, and beside it the failure if there is one.
Where there is no state to keep, a result is a value or an error, and stages
follow each other up to the first error.
-/

universe u v

namespace DocTemplate

structure Outcome (ε : Type u) (σ : Type v) where
  state : σ
  failure? : Option ε := none

namespace Outcome

variable {ε : Type u} {σ : Type v}

def fail (state : σ) (failure : ε) : Outcome ε σ := ⟨state, some failure⟩

def succeeded (outcome : Outcome ε σ) : Bool := outcome.failure?.isNone

/-- Goes on with a second action, unless the first has failed. -/
def andThen (first : Outcome ε σ) (second : σ → Outcome ε σ) :
    Outcome ε σ :=
  match first.failure? with
  | none => second first.state
  | some _ => first

/-- Takes a list of inputs one after the other up to the first failure. -/
def fold {α : Type u} (act : σ → α → Outcome ε σ) (state : σ) :
    List α → Outcome ε σ
  | [] => ⟨state, none⟩
  | input :: rest => (act state input).andThen fun next => fold act next rest

@[simp] theorem andThen_ok (state : σ) (second : σ → Outcome ε σ) :
    andThen ⟨state, none⟩ second = second state := rfl

@[simp] theorem andThen_fail (state : σ) (failure : ε)
    (second : σ → Outcome ε σ) :
    andThen ⟨state, some failure⟩ second = ⟨state, some failure⟩ := rfl

theorem andThen_of_ok {first : Outcome ε σ} (h : first.failure? = none)
    (second : σ → Outcome ε σ) : first.andThen second = second first.state := by
  simp only [andThen, h]

theorem andThen_of_fail {first : Outcome ε σ} {failure : ε}
    (h : first.failure? = some failure) (second : σ → Outcome ε σ) :
    first.andThen second = first := by
  simp only [andThen, h]

theorem andThen_assoc (first : Outcome ε σ)
    (second third : σ → Outcome ε σ) :
    (first.andThen second).andThen third =
      first.andThen fun state => (second state).andThen third := by
  obtain ⟨state, failure | failure⟩ := first <;> rfl

theorem fold_append {α : Type u} (act : σ → α → Outcome ε σ) (state : σ)
    (first second : List α) :
    fold act state (first ++ second) =
      (fold act state first).andThen fun next => fold act next second := by
  induction first generalizing state with
  | nil => rfl
  | cons input rest ih =>
      simp only [List.cons_append, fold, andThen_assoc, ih]

end Outcome

/-! ## Results of stages -/

theorem mapError_ok {ε ε' α : Type} (change : ε → ε') (value : α) :
    (Except.ok value).mapError change = .ok value := rfl

theorem mapError_eq_ok_iff {ε ε' α : Type} {result : Except ε α}
    {change : ε → ε'} {value : α} :
    result.mapError change = .ok value ↔ result = .ok value := by
  cases result with
  | error error => constructor <;> rintro ⟨⟩
  | ok found =>
      rw [mapError_ok, Except.ok.injEq, Except.ok.injEq]

theorem ok_bind {ε α β : Type} (value : α) (next : α → Except ε β) :
    Except.ok value >>= next = next value := rfl

theorem bind_eq_ok_iff {ε α β : Type} {first : Except ε α}
    {next : α → Except ε β} {value : β} :
    first >>= next = .ok value ↔
      ∃ found, first = .ok found ∧ next found = .ok value := by
  cases first with
  | error error =>
      constructor
      · rintro ⟨⟩
      · rintro ⟨found, ⟨⟩, -⟩
  | ok found =>
      constructor
      · intro hnext
        exact ⟨found, rfl, hnext⟩
      · rintro ⟨other, ⟨⟩, hnext⟩
        exact hnext

end DocTemplate
