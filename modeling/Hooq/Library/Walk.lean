import Mathlib.Algebra.Order.Floor.Ring
import Mathlib.Data.List.Chain
import Mathlib.Data.Rat.Floor

/-!
# Walks over the integers

A walk is a list of places whose neighbours lie at most one apart.  Its two ends lie no
further apart than it is long, and the values on a slope of at most one, rounded, make a
walk.
-/

namespace Library.Walk

/-- Two numbers at most one apart stay so when both are rounded down. -/
theorem floor_near {first second : Rat} (below : second ≤ first + 1)
    (above : first ≤ second + 1) : |⌊first⌋ - ⌊second⌋| ≤ 1 := by
  have lower : ⌊second⌋ ≤ ⌊first⌋ + 1 := by
    rw [← Int.floor_add_one]
    exact Int.floor_le_floor below
  have upper : ⌊first⌋ ≤ ⌊second⌋ + 1 := by
    rw [← Int.floor_add_one]
    exact Int.floor_le_floor above
  rw [abs_le]
  constructor <;> linarith

section

variable {Place : Type} (coordinate : Place → Int)

/-- The two places lie at most one apart in the coordinate. -/
def Near (first second : Place) : Prop :=
  |coordinate first - coordinate second| ≤ 1

/-- From its first place to its last, a walk makes at most one unit with each step. -/
theorem span_le {places : List Place} {first last : Place}
    (walk : places.IsChain (Near coordinate)) (starts : places.head? = some first)
    (ends : places.getLast? = some last) :
    |coordinate first - coordinate last| + 1 ≤ places.length := by
  induction places generalizing first with
  | nil => simp at starts
  | cons place rest ih =>
      cases Option.some.inj starts
      cases rest with
      | nil =>
          cases Option.some.inj ends
          simp
      | cons next after =>
          have step : |coordinate place - coordinate next| ≤ 1 :=
            (List.isChain_cons_cons.mp walk).1
          have remaining := ih (List.isChain_cons_cons.mp walk).2 rfl
            (by simpa [List.getLast?_cons_cons] using ends)
          have triangle := abs_sub_le (coordinate place) (coordinate next) (coordinate last)
          simp only [List.length_cons, Nat.cast_add, Nat.cast_one] at remaining ⊢
          linarith

end

/-- What a function gives for the numbers below a bound is a walk when each number and its
successor are near. -/
theorem isChain_map_range {Place : Type} {near : Place → Place → Prop} {place : Nat → Place}
    {count : Nat} (step : ∀ index, index + 1 < count → near (place index) (place (index + 1))) :
    ((List.range count).map place).IsChain near := by
  rw [List.isChain_map, List.isChain_iff_getElem]
  intro index inside
  simpa using step index (by simpa using inside)

end Library.Walk
