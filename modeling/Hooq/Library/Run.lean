import Mathlib.Data.List.Induction

/-!
# Runs of a step function

A run takes a state through a list of inputs.  An invariant that every step keeps
under some condition holds after each run whose steps all meet the condition.
-/

namespace Hooq.Library.Run

variable {State Shadow Input : Type}

/-- Every step of a run meets a condition on the state that it starts in. -/
def StepsMeet (step : State → Input → State) (condition : State → Input → Prop)
    (initial : State) (inputs : List Input) : Prop :=
  ∀ before input after, inputs = before ++ input :: after →
    condition (before.foldl step initial) input

section

variable {step : State → Input → State} {condition : State → Input → Prop} {initial : State}

theorem StepsMeet.prefix {inputs rest : List Input}
    (meets : StepsMeet step condition initial (inputs ++ rest)) :
    StepsMeet step condition initial inputs := by
  intro before input after shape
  exact meets before input (after ++ rest) (by simp [shape])

theorem StepsMeet.last {inputs : List Input} {last : Input}
    (meets : StepsMeet step condition initial (inputs ++ [last])) :
    condition (inputs.foldl step initial) last :=
  meets inputs last [] rfl

theorem StepsMeet.nil : StepsMeet step condition initial [] := by
  intro before input after shape
  simp at shape

theorem StepsMeet.concat {inputs : List Input} {last : Input}
    (front : StepsMeet step condition initial inputs)
    (final : condition (inputs.foldl step initial) last) :
    StepsMeet step condition initial (inputs ++ [last]) := by
  intro before input after shape
  rcases List.eq_nil_or_concat after with rfl | ⟨rest, ending, rfl⟩
  · have same := List.append_inj' shape rfl
    obtain ⟨rfl, same⟩ := same
    cases same
    exact final
  · have split : inputs ++ [last] = (before ++ input :: rest) ++ [ending] := by
      simpa using shape
    exact front before input rest (List.append_inj' split rfl).1

theorem StepsMeet.cons {inputs : List Input} {first : Input}
    (here : condition initial first)
    (later : StepsMeet step condition (step initial first) inputs) :
    StepsMeet step condition initial (first :: inputs) := by
  intro before input after shape
  cases before with
  | nil =>
      cases shape
      exact here
  | cons head before =>
      cases shape
      exact later before input after rfl

theorem stepsMeet_cons {inputs : List Input} {first : Input} :
    StepsMeet step condition initial (first :: inputs) ↔
      condition initial first ∧ StepsMeet step condition (step initial first) inputs := by
  constructor
  · intro meets
    refine ⟨meets [] first inputs rfl, fun before input after shape => ?_⟩
    exact meets (first :: before) input after (by rw [shape, List.cons_append])
  · exact fun both => both.2.cons both.1

instance decidableStepsMeet [∀ state input, Decidable (condition state input)] :
    (initial : State) → (inputs : List Input) →
      Decidable (StepsMeet step condition initial inputs)
  | _, [] => isTrue .nil
  | initial, first :: inputs =>
      have := decidableStepsMeet (step initial first) inputs
      decidable_of_iff _ stepsMeet_cons.symm

theorem StepsMeet.mono {weaker : State → Input → Prop} {inputs : List Input}
    (implies : ∀ state input, condition state input → weaker state input)
    (meets : StepsMeet step condition initial inputs) :
    StepsMeet step weaker initial inputs :=
  fun before input after shape => implies _ _ (meets before input after shape)

/-- An invariant of the steps that meet the condition is one of their runs. -/
theorem invariant_foldl {Invariant : State → Prop}
    (kept : ∀ state input, Invariant state → condition state input →
      Invariant (step state input))
    (start : Invariant initial) {inputs : List Input}
    (meets : StepsMeet step condition initial inputs) :
    Invariant (inputs.foldl step initial) := by
  induction inputs using List.reverseRecOn with
  | nil => exact start
  | append_singleton inputs last ih =>
      rw [List.foldl_append, List.foldl_cons, List.foldl_nil]
      exact kept _ last (ih meets.prefix) meets.last

/-- A run is no longer than the measure that each of its steps lowers. -/
theorem length_add_le (measure : State → Nat)
    (lowers : ∀ state input, condition state input → measure (step state input) < measure state)
    {inputs : List Input} (meets : StepsMeet step condition initial inputs) :
    inputs.length + measure (inputs.foldl step initial) ≤ measure initial := by
  induction inputs using List.reverseRecOn with
  | nil => exact Nat.le_of_eq (Nat.zero_add _)
  | append_singleton inputs last ih =>
      have front := ih meets.prefix
      have lower := lowers _ last meets.last
      rw [List.foldl_append, List.foldl_cons, List.foldl_nil, List.length_append,
        List.length_singleton]
      omega

/-- Where a step that misses the condition spoils what the invariant grants, the runs
that are good throughout are those whose steps all meet the condition. -/
theorem always_iff_stepsMeet (step : State → Input → State)
    (condition : State → Input → Prop) (Invariant Good : State → Prop) (initial : State)
    (kept : ∀ state input, Invariant state → condition state input →
      Invariant (step state input))
    (good : ∀ state, Invariant state → Good state)
    (spoiled : ∀ state input, Invariant state → ¬condition state input →
      ¬Good (step state input))
    (start : Invariant initial) (inputs : List Input) :
    (∀ before after, inputs = before ++ after → Good (before.foldl step initial)) ↔
      StepsMeet step condition initial inputs := by
  constructor
  · intro always
    induction inputs using List.reverseRecOn with
    | nil => exact .nil
    | append_singleton inputs last ih =>
        have front : StepsMeet step condition initial inputs :=
          ih fun before after shape => always before (after ++ [last]) (by simp [shape])
        refine front.concat ?_
        by_contra missed
        have whole := always (inputs ++ [last]) [] (by simp)
        rw [List.foldl_append, List.foldl_cons, List.foldl_nil] at whole
        exact spoiled _ last (invariant_foldl kept start front) missed whole
  · intro meets before after shape
    subst shape
    exact good _ (invariant_foldl kept start meets.prefix)

/-- Two conditions that an invariant makes the same are met by the same runs. -/
theorem stepsMeet_congr {same : State → Input → Prop} {Invariant : State → Prop}
    (kept : ∀ state input, Invariant state → condition state input →
      Invariant (step state input))
    (agree : ∀ state input, Invariant state → (same state input ↔ condition state input))
    (start : Invariant initial) (inputs : List Input) :
    StepsMeet step same initial inputs ↔ StepsMeet step condition initial inputs := by
  induction inputs using List.reverseRecOn with
  | nil => exact iff_of_true .nil .nil
  | append_singleton inputs last ih =>
      constructor
      · intro meets
        have front := ih.mp meets.prefix
        exact front.concat ((agree _ last (invariant_foldl kept start front)).mp meets.last)
      · intro meets
        have holds := invariant_foldl kept start meets.prefix
        exact (ih.mpr meets.prefix).concat ((agree _ last holds).mpr meets.last)

/-- A run follows what it should as long as its steps meet the condition, and the first
step that misses it leads astray for good. -/
theorem follows_or_strays (step : State → Input → State) (condition : State → Input → Prop)
    (Follows Strays : State → Prop) (permitted : State → Input → Prop) (initial : State)
    (kept : ∀ state input, permitted state input → Follows state → condition state input →
      Follows (step state input))
    (spoiled : ∀ state input, permitted state input → Follows state → ¬condition state input →
      Strays (step state input))
    (stays : ∀ state input, permitted state input → Strays state → Strays (step state input))
    (start : Follows initial) (inputs : List Input)
    (allowed : StepsMeet step permitted initial inputs) :
    StepsMeet step condition initial inputs ∧ Follows (inputs.foldl step initial) ∨
      ¬StepsMeet step condition initial inputs ∧ Strays (inputs.foldl step initial) := by
  induction inputs using List.reverseRecOn with
  | nil => exact .inl ⟨.nil, start⟩
  | append_singleton inputs last ih =>
      have here := allowed.last
      rw [List.foldl_append, List.foldl_cons, List.foldl_nil]
      rcases ih allowed.prefix with ⟨meets, follows⟩ | ⟨misses, strays⟩
      · by_cases met : condition (inputs.foldl step initial) last
        · exact .inl ⟨meets.concat met, kept _ last here follows met⟩
        · exact .inr ⟨fun all => met all.last, spoiled _ last here follows met⟩
      · exact .inr ⟨fun all => misses all.prefix, stays _ last here strays⟩

end

/-- Where steps may fail: an invariant under which no step fails makes every run
succeed. -/
theorem invariant_foldlM {step : State → Input → Option State} {Invariant : State → Prop}
    (kept : ∀ state input, Invariant state →
      ∃ next, step state input = some next ∧ Invariant next)
    {initial : State} (start : Invariant initial) (inputs : List Input) :
    ∃ final, inputs.foldlM step initial = some final ∧ Invariant final := by
  induction inputs generalizing initial with
  | nil => exact ⟨initial, rfl, start⟩
  | cons input rest ih =>
      obtain ⟨next, stepped, holds⟩ := kept initial input start
      obtain ⟨final, run, kept⟩ := ih holds
      refine ⟨final, ?_, kept⟩
      rw [List.foldlM_cons, stepped]
      exact run

/-- Two machines that take the same inputs side by side. -/
theorem foldl_prod (step : State → Input → State) (shadowStep : Shadow → Input → Shadow)
    (inputs : List Input) (state : State) (shadow : Shadow) :
    inputs.foldl (fun both input => (step both.1 input, shadowStep both.2 input))
        (state, shadow) =
      (inputs.foldl step state, inputs.foldl shadowStep shadow) := by
  induction inputs generalizing state shadow with
  | nil => rfl
  | cons input rest ih => exact ih (step state input) (shadowStep shadow input)

end Hooq.Library.Run
