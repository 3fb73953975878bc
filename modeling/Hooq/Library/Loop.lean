import Mathlib.Data.Sum.Basic

/-!
# Loops that end

The body of a loop goes on with another state or leaves with a result.  A measure
that every pass lowers makes the loop a function of the state it starts in.
-/

namespace Hooq.Library

/-- The body of a loop, and the measure by which it ends. -/
structure Loop (σ ρ : Type*) where
  body : σ → σ ⊕ ρ
  measure : σ → Nat
  decreases : ∀ {state next}, body state = .inl next → measure next < measure state

namespace Loop

variable {σ ρ : Type*} (loop : Loop σ ρ)

/-- From a state, the loop leaves with a result after so many passes. -/
inductive Leaves : σ → Nat → ρ → Prop where
  | last {state : σ} {result : ρ} (leaves : loop.body state = .inr result) :
      Leaves state 1 result
  | again {state next : σ} {passes : Nat} {result : ρ} (goesOn : loop.body state = .inl next)
      (rest : Leaves next passes result) : Leaves state (passes + 1) result

/-- The result of at most so many passes. -/
def runFor : Nat → σ → Option ρ
  | 0, _ => none
  | passes + 1, state =>
      match loop.body state with
      | .inl next => runFor passes next
      | .inr result => some result

theorem runFor_isSome {passes : Nat} {state : σ} (enough : loop.measure state < passes) :
    (loop.runFor passes state).isSome = true := by
  induction passes generalizing state with
  | zero => exact absurd enough (Nat.not_lt_zero _)
  | succ passes ih =>
      rw [runFor]
      split
      next next goesOn =>
          exact ih (Nat.lt_of_lt_of_le (loop.decreases goesOn) (Nat.le_of_lt_succ enough))
      next result leaves => rfl

def run (state : σ) : ρ :=
  (loop.runFor (loop.measure state + 1) state).get (loop.runFor_isSome (Nat.lt_succ_self _))

variable {loop}

theorem leaves_of_runFor {passes : Nat} {state : σ} {result : ρ}
    (ran : loop.runFor passes state = some result) :
    ∃ needed ≤ passes, loop.Leaves state needed result := by
  induction passes generalizing state with
  | zero => cases ran
  | succ passes ih =>
      rw [runFor] at ran
      split at ran
      next next goesOn =>
          rcases ih ran with ⟨needed, few, rest⟩
          exact ⟨needed + 1, Nat.succ_le_succ few, .again goesOn rest⟩
      next other leaves =>
          cases ran
          exact ⟨1, Nat.succ_le_succ (Nat.zero_le _), .last leaves⟩

theorem Leaves.unique {state : σ} {first second : Nat} {result other : ρ}
    (leaves : loop.Leaves state first result) (leavesToo : loop.Leaves state second other) :
    first = second ∧ result = other := by
  induction leaves generalizing second with
  | last leaves =>
      cases leavesToo with
      | last leavesToo => exact ⟨rfl, Sum.inr.inj (leaves.symm.trans leavesToo)⟩
      | again goesOn _ => cases leaves.symm.trans goesOn
  | again goesOn _ ih =>
      cases leavesToo with
      | last leavesToo => cases goesOn.symm.trans leavesToo
      | again goesOnToo rest =>
          cases Sum.inl.inj (goesOn.symm.trans goesOnToo)
          obtain ⟨same, results⟩ := ih rest
          exact ⟨congrArg (· + 1) same, results⟩

variable (loop) in
/-- The loop ends, and after how many passes at most. -/
theorem leaves_run (state : σ) :
    ∃ passes ≤ loop.measure state + 1, loop.Leaves state passes (loop.run state) :=
  leaves_of_runFor (Option.some_get _).symm

theorem Leaves.run_eq {state : σ} {passes : Nat} {result : ρ}
    (leaves : loop.Leaves state passes result) : loop.run state = result := by
  rcases loop.leaves_run state with ⟨_, _, ran⟩
  exact (ran.unique leaves).2

theorem run_of_goesOn {state next : σ} (goesOn : loop.body state = .inl next) :
    loop.run state = loop.run next := by
  rcases loop.leaves_run next with ⟨_, _, rest⟩
  exact (Leaves.again goesOn rest).run_eq

theorem run_of_leaves {state : σ} {result : ρ} (leaves : loop.body state = .inr result) :
    loop.run state = result :=
  (Leaves.last leaves).run_eq

/-- What holds of a state and the result that the loop leaves it with holds of the whole
run, if a pass keeps it. -/
theorem run_induction {motive : σ → ρ → Prop}
    (leaves : ∀ state result, loop.body state = .inr result → motive state result)
    (goesOn : ∀ state next result, loop.body state = .inl next → motive next result →
      motive state result)
    (state : σ) : motive state (loop.run state) := by
  rcases loop.leaves_run state with ⟨passes, -, run⟩
  generalize loop.run state = result at run
  induction run with
  | last ends => exact leaves _ _ ends
  | again next _ ih => exact goesOn _ _ _ next ih

/-- Two loops in step: if each pass keeps their states related or leaves both with related
results, then the results of the loops are related. -/
theorem run_liftRel {τ π : Type*} {other : Loop τ π} {related : σ → τ → Prop}
    {results : ρ → π → Prop}
    (inStep : ∀ state image, related state image →
      Sum.LiftRel related results (loop.body state) (other.body image))
    {state : σ} {image : τ} (start : related state image) :
    results (loop.run state) (other.run image) := by
  rcases loop.leaves_run state with ⟨passes, -, run⟩
  generalize loop.run state = result at run
  induction run generalizing image with
  | last leaves =>
      have bodies := inStep _ _ start
      rw [leaves] at bodies
      cases found : other.body image with
      | inl next =>
          rw [found] at bodies
          cases bodies
      | inr last =>
          rw [found] at bodies
          rw [run_of_leaves found]
          exact Sum.liftRel_inr_inr.mp bodies
  | again goesOn _ ih =>
      have bodies := inStep _ _ start
      rw [goesOn] at bodies
      cases found : other.body image with
      | inl next =>
          rw [found] at bodies
          rw [run_of_goesOn found]
          exact ih (Sum.liftRel_inl_inl.mp bodies)
      | inr last =>
          rw [found] at bodies
          cases bodies

end Loop

end Hooq.Library
