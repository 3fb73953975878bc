import Hooq.Library.Walk
import Hooq.Script.RemoteObject
import Mathlib.Tactic.Linarith

/-!
# The steps of a simplified mouse movement

`moveMouse` walks from the origin of a simplified movement to its destination, with a move
event for each unit of the way and a sleep behind each event.
-/

namespace Hooq

namespace RemoteObject

section

variable {Sequence : Type}

/-- The position of a move event. -/
def movedTo? : Command Sequence → Option Point
  | .mouse .move _ position _ _ _ => some position
  | _ => none

/-- The interval of a requested sleep. -/
def sleptFor? : Command Sequence → Option Int32
  | .sleep msec => some msec
  | _ => none

/-- Neighbouring positions differ by at most one in each coordinate. -/
def Adjacent (first second : Point) : Prop :=
  Library.Walk.Near (fun position : Point => position.x.toInt) first second ∧
    Library.Walk.Near (fun position : Point => position.y.toInt) first second

/-- The commands move the mouse all the way, without a jump and in the given time. -/
structure Travels (origin destination : Point) (duration : Int32)
    (commands : List (Command Sequence)) : Prop where
  starts : (commands.filterMap movedTo?).head? = some origin
  arrives : (commands.filterMap movedTo?).getLast? = some destination
  walks : (commands.filterMap movedTo?).IsChain Adjacent
  inTime : ((commands.filterMap sleptFor?).map Int32.toInt).sum ≤ duration.toInt

end

/-- The origin of a simplified movement. -/
def origin (parameters : QVariantMap) : Point :=
  ⟨(parameters.value "originX").toInt, (parameters.value "originY").toInt⟩

/-- The destination of a simplified movement. -/
def destination (parameters : QVariantMap) : Point :=
  ⟨(parameters.value "destinationX").toInt, (parameters.value "destinationY").toInt⟩

/-- The length of the way as the code computes it, in the range of an int. -/
def stepCount (origin destination : Point) : Int32 :=
  manhattanLength ⟨destination.x - origin.x, destination.y - origin.y⟩

/-- The length of the way as it is. -/
def distance (origin destination : Point) : Int :=
  |destination.x.toInt - origin.x.toInt| + |destination.y.toInt - origin.y.toInt|

/-- The loop over the steps counts with an int from 0 while it is at most the length: it
ends when some int is past the length. -/
def LoopEnds (length : Int32) : Prop :=
  ∃ count : Int32, length < count

/-- The position of one step. -/
def stepPosition (origin destination : Point) (index : Nat) : Point :=
  let length := stepCount origin destination
  ⟨stepCoordinate origin.x (destination.x - origin.x) length index,
    stepCoordinate origin.y (destination.y - origin.y) length index⟩

/-! ### The events and the sleeps of the loop -/

theorem loopEnds_iff (length : Int32) : LoopEnds length ↔ length.toInt < 2 ^ 31 - 1 := by
  constructor
  · intro ⟨count, past⟩
    have bound := Int32.toInt_lt count
    have greater := Int32.lt_iff_toInt_lt.mp past
    linarith
  · intro small
    exact ⟨Int32.maxValue, Int32.lt_iff_toInt_lt.mpr small⟩

section

variable {Sequence : Type} {path : QString} {parameters : QVariantMap}

/-- The event of one step. -/
def stepEvent (path : QString) (parameters : QVariantMap) (place : Point) : Command Sequence :=
  let stepParameters := parameters.remove "duration" |>.remove "originX" |>.remove "originY"
    |>.remove "destinationX" |>.remove "destinationY"
  raiseMouseEvent path ((stepParameters.insert "x" (.int place.x)).insert "y" (.int place.y)) .move

theorem movedTo?_stepEvent (place : Point) :
    movedTo? (stepEvent path parameters place : Command Sequence) = some place := by
  have different : QString.ofString "y" ≠ QString.ofString "x" := by decide
  simp only [stepEvent, raiseMouseEvent, movedTo?, position, QVariantMap.value_insert_self,
    QVariantMap.value_insert_of_ne different]
  rfl

/-- A simplified movement raises an event for each step, and asks for a sleep behind it. -/
theorem moveMouse_eq (simplified : parameters.contains "duration" = true) :
    (moveMouse path parameters : List (Command Sequence)) =
      let count := stepCount (origin parameters) (destination parameters)
      if count = 0 then [] else
        (List.range (count.toInt + 1).toNat).flatMap fun index =>
          [stepEvent path parameters
              (stepPosition (origin parameters) (destination parameters) index),
            .sleep ((parameters.value "duration").toInt / count)] := by
  rw [moveMouse, if_neg (by simp [simplified])]
  rfl

theorem moveMouse_positions (simplified : parameters.contains "duration" = true)
    (moves : stepCount (origin parameters) (destination parameters) ≠ 0) :
    (moveMouse path parameters : List (Command Sequence)).filterMap movedTo? =
      (List.range
        ((stepCount (origin parameters) (destination parameters)).toInt + 1).toNat).map
        (stepPosition (origin parameters) (destination parameters)) := by
  rw [moveMouse_eq simplified]
  simp only [if_neg moves, List.filterMap_flatMap, List.map_eq_flatMap]
  simp only [List.filterMap_cons, List.filterMap_nil, movedTo?_stepEvent]
  rfl

theorem moveMouse_sleeps (simplified : parameters.contains "duration" = true)
    (moves : stepCount (origin parameters) (destination parameters) ≠ 0) :
    (moveMouse path parameters : List (Command Sequence)).filterMap sleptFor? =
      List.replicate
        ((stepCount (origin parameters) (destination parameters)).toInt + 1).toNat
        ((parameters.value "duration").toInt /
          stepCount (origin parameters) (destination parameters)) := by
  rw [moveMouse_eq simplified]
  have constant (count : Nat) (interval : Int32) :
      List.replicate count interval = (List.range count).flatMap fun _ => [interval] := by
    rw [← List.map_eq_flatMap, List.map_const', List.length_range]
  simp only [if_neg moves, List.filterMap_flatMap, constant]
  rfl

end

/-! ### The positions in the integers -/

/-- `qRound` rounds to the nearest integer, and a half upwards. -/
theorem qRound_eq (value : Rat) : qRound value = ⌊value + 1 / 2⌋ := by
  rw [qRound]
  split
  · rfl
  · change ⌊value - (⌈value - 1⌉ : Int) + 1 / 2⌋ + ⌈value - 1⌉ = _
    rw [sub_add_eq_add_sub, Int.floor_sub_intCast, sub_add_cancel]

theorem qRound_intCast (value : Int) : qRound value = value := by
  rw [qRound_eq, Int.floor_intCast_add, show ⌊(1 / 2 : Rat)⌋ = 0 by norm_num, add_zero]

theorem qRound_mono {first second : Rat} (less : first ≤ second) :
    qRound first ≤ qRound second := by
  rw [qRound_eq, qRound_eq]
  exact Int.floor_le_floor (by linarith)

theorem toInt_sub_of_abs_lt {first second : Int32}
    (small : |first.toInt - second.toInt| < 2 ^ 31) :
    (first - second).toInt = first.toInt - second.toInt := by
  have bounds := abs_lt.mp small
  rw [Int32.toInt_sub]
  exact Int.bmod_eq_of_le (by norm_num; linarith) (by norm_num; linarith)

/-- The absolute value of an int, which wraps around for the least of them. -/
def magnitude (value : Int32) : Int32 :=
  if value < 0 then -value else value

theorem toInt_magnitude {value : Int32} (small : |value.toInt| < 2 ^ 31) :
    (magnitude value).toInt = |value.toInt| := by
  have bounds := abs_lt.mp small
  rw [magnitude]
  split
  next negative =>
    have negative : value.toInt < 0 := Int32.lt_iff_toInt_lt.mp negative
    rw [Int32.toInt_neg, abs_of_neg negative]
    exact Int.bmod_eq_of_le (by norm_num; linarith) (by norm_num; linarith)
  next positive =>
    have positive : ¬ value.toInt < 0 := fun less => positive (Int32.lt_iff_toInt_lt.mpr less)
    rw [abs_of_nonneg (by linarith)]

/-- What the code computes as the length, where neither coordinate wraps around. -/
theorem toInt_stepCount {origin destination : Point}
    (smallX : |destination.x.toInt - origin.x.toInt| < 2 ^ 31)
    (smallY : |destination.y.toInt - origin.y.toInt| < 2 ^ 31) :
    (stepCount origin destination).toInt = (distance origin destination).bmod (2 ^ 32) := by
  have x : (magnitude (destination.x - origin.x)).toInt =
      |destination.x.toInt - origin.x.toInt| := by
    rw [toInt_magnitude (by rwa [toInt_sub_of_abs_lt smallX]), toInt_sub_of_abs_lt smallX]
  have y : (magnitude (destination.y - origin.y)).toInt =
      |destination.y.toInt - origin.y.toInt| := by
    rw [toInt_magnitude (by rwa [toInt_sub_of_abs_lt smallY]), toInt_sub_of_abs_lt smallY]
  change (magnitude _ + magnitude _).toInt = _
  rw [Int32.toInt_add, x, y, distance]

theorem abs_x_le_distance (origin destination : Point) :
    |destination.x.toInt - origin.x.toInt| ≤ distance origin destination :=
  le_add_of_nonneg_right (abs_nonneg _)

theorem abs_y_le_distance (origin destination : Point) :
    |destination.y.toInt - origin.y.toInt| ≤ distance origin destination :=
  le_add_of_nonneg_left (abs_nonneg _)

theorem toInt_stepCount_of_lt {origin destination : Point}
    (small : distance origin destination < 2 ^ 31) :
    (stepCount origin destination).toInt = distance origin destination := by
  have nonneg : 0 ≤ distance origin destination := add_nonneg (abs_nonneg _) (abs_nonneg _)
  rw [toInt_stepCount ((abs_x_le_distance _ _).trans_lt small)
    ((abs_y_le_distance _ _).trans_lt small)]
  exact Int.bmod_eq_of_le (by norm_num; linarith) (by norm_num; linarith)

section

variable {start finish : Int} {length : Int}

/-- The coordinate of a step before it is rounded. -/
def exactCoordinate (start finish length : Int) (index : Nat) : Rat :=
  start + ((finish - start : Int) / length : Rat) * index

/-- Each step stays between the two ends of the way. -/
theorem exactCoordinate_mem (positive : 0 < length) {index : Nat} (inside : index ≤ length) :
    (min start finish : Int) ≤ exactCoordinate start finish length index ∧
      exactCoordinate start finish length index ≤ (max start finish : Int) := by
  have positive : (0 : Rat) < length := by exact_mod_cast positive
  have inside : (index : Rat) ≤ length := by exact_mod_cast inside
  have nonneg : (0 : Rat) ≤ index / length := by positivity
  have small : (index / length : Rat) ≤ 1 := (div_le_one positive).mpr inside
  have split : exactCoordinate start finish length index =
      start + ((finish : Rat) - start) * (index / length) := by
    rw [exactCoordinate, Int.cast_sub]
    ring
  rw [split]
  rcases le_total start finish with up | down
  · rw [min_eq_left up, max_eq_right up]
    have up : (0 : Rat) ≤ finish - start := by exact_mod_cast sub_nonneg.mpr up
    have first := mul_nonneg up nonneg
    have second := mul_le_mul_of_nonneg_left small up
    constructor <;> linarith
  · rw [min_eq_right down, max_eq_left down]
    have down : (0 : Rat) ≤ start - finish := by exact_mod_cast sub_nonneg.mpr down
    have first := mul_nonneg down nonneg
    have second := mul_le_mul_of_nonneg_left small down
    constructor <;> linarith

@[simp] theorem exactCoordinate_zero :
    exactCoordinate start finish length 0 = start := by
  simp [exactCoordinate]

theorem exactCoordinate_length (positive : 0 < length) :
    exactCoordinate start finish length length.toNat = finish := by
  have nonzero : (length : Rat) ≠ 0 := by exact_mod_cast positive.ne'
  have count : ((length.toNat : Nat) : Rat) = length := by
    exact_mod_cast Int.toNat_of_nonneg positive.le
  rw [exactCoordinate, count, div_mul_cancel₀ _ nonzero, Int.cast_sub]
  ring

theorem exactCoordinate_succ (index : Nat) :
    exactCoordinate start finish length (index + 1) =
      exactCoordinate start finish length index + (finish - start : Int) / length := by
  rw [exactCoordinate, exactCoordinate]
  push_cast
  ring

/-- No coordinate changes faster than the way grows. -/
theorem abs_slope_le (positive : 0 < length) (short : |finish - start| ≤ length) :
    |((finish - start : Int) / length : Rat)| ≤ 1 := by
  have positive : (0 : Rat) < length := by exact_mod_cast positive
  rw [abs_div, abs_of_pos positive, div_le_one positive]
  exact_mod_cast short

end

section

variable {start finish length : Int32}

/-- The steps do not leave the range of an int. -/
theorem toInt_stepCoordinate (short : |finish.toInt - start.toInt| < 2 ^ 31)
    (positive : 0 < length.toInt) {index : Nat} (inside : index ≤ length.toInt) :
    (stepCoordinate start (finish - start) length index).toInt =
      qRound (exactCoordinate start.toInt finish.toInt length.toInt index) := by
  have between := @exactCoordinate_mem start.toInt finish.toInt _ positive _ inside
  have lower := qRound_mono between.1
  have upper := qRound_mono between.2
  rw [qRound_intCast] at lower upper
  rw [stepCoordinate, toInt_sub_of_abs_lt short]
  apply Int32.toInt_ofInt_of_le
  · exact (le_min start.le_toInt finish.le_toInt).trans lower
  · exact upper.trans_lt (max_lt start.toInt_lt finish.toInt_lt)

theorem stepCoordinate_zero (short : |finish.toInt - start.toInt| < 2 ^ 31)
    (positive : 0 < length.toInt) : stepCoordinate start (finish - start) length 0 = start := by
  apply Int32.toInt.inj
  rw [toInt_stepCoordinate short positive positive.le, exactCoordinate_zero, qRound_intCast]

theorem stepCoordinate_length (short : |finish.toInt - start.toInt| < 2 ^ 31)
    (positive : 0 < length.toInt) :
    stepCoordinate start (finish - start) length length.toInt.toNat = finish := by
  apply Int32.toInt.inj
  rw [toInt_stepCoordinate short positive (Int.toNat_of_nonneg positive.le).le,
    exactCoordinate_length positive, qRound_intCast]

theorem near_stepCoordinate (short : |finish.toInt - start.toInt| ≤ length.toInt)
    (positive : 0 < length.toInt) {index : Nat} (inside : index + 1 ≤ length.toInt) :
    |(stepCoordinate start (finish - start) length index).toInt -
      (stepCoordinate start (finish - start) length (index + 1)).toInt| ≤ 1 := by
  have range : |finish.toInt - start.toInt| < 2 ^ 31 := short.trans_lt length.toInt_lt
  rw [toInt_stepCoordinate range positive (by linarith),
    toInt_stepCoordinate range positive (by push_cast; linarith), exactCoordinate_succ, qRound_eq,
    qRound_eq]
  have slope := abs_le.mp (abs_slope_le positive short)
  apply Library.Walk.floor_near <;> linarith

end

/-! ### The whole way -/

section

variable {origin destination : Point}

theorem stepPosition_zero (moves : 0 < distance origin destination)
    (small : distance origin destination < 2 ^ 31) :
    stepPosition origin destination 0 = origin := by
  have positive : 0 < (stepCount origin destination).toInt := by
    rwa [toInt_stepCount_of_lt small]
  change Point.mk (stepCoordinate _ _ _ 0) (stepCoordinate _ _ _ 0) = _
  rw [stepCoordinate_zero ((abs_x_le_distance _ _).trans_lt small) positive,
    stepCoordinate_zero ((abs_y_le_distance _ _).trans_lt small) positive]

theorem stepPosition_last (moves : 0 < distance origin destination)
    (small : distance origin destination < 2 ^ 31) :
    stepPosition origin destination (stepCount origin destination).toInt.toNat =
      destination := by
  have positive : 0 < (stepCount origin destination).toInt := by
    rwa [toInt_stepCount_of_lt small]
  change Point.mk (stepCoordinate _ _ _ _) (stepCoordinate _ _ _ _) = _
  rw [stepCoordinate_length ((abs_x_le_distance _ _).trans_lt small) positive,
    stepCoordinate_length ((abs_y_le_distance _ _).trans_lt small) positive]

theorem adjacent_stepPosition (moves : 0 < distance origin destination)
    (small : distance origin destination < 2 ^ 31) {index : Nat}
    (inside : index + 1 ≤ (stepCount origin destination).toInt) :
    Adjacent (stepPosition origin destination index)
      (stepPosition origin destination (index + 1)) := by
  have count := toInt_stepCount_of_lt small
  have positive : 0 < (stepCount origin destination).toInt := by rwa [count]
  constructor
  · exact near_stepCoordinate (by rw [count]; exact abs_x_le_distance _ _) positive inside
  · exact near_stepCoordinate (by rw [count]; exact abs_y_le_distance _ _) positive inside

end

section

variable {Sequence : Type} {path : QString} {parameters : QVariantMap}

theorem stepCount_ne_zero {origin destination : Point}
    (positive : 0 < (stepCount origin destination).toInt) : stepCount origin destination ≠ 0 := by
  intro zero
  rw [zero] at positive
  exact lt_irrefl _ positive

/-- The sleeps of a movement: one more than the way is long. -/
theorem moveMouse_sleep_sum (simplified : parameters.contains "duration" = true)
    (notNegative : 0 ≤ (parameters.value "duration").toInt.toInt)
    (positive : 0 < (stepCount (origin parameters) (destination parameters)).toInt) :
    (((moveMouse path parameters : List (Command Sequence)).filterMap sleptFor?).map
      Int32.toInt).sum =
      ((stepCount (origin parameters) (destination parameters)).toInt + 1) *
        ((parameters.value "duration").toInt.toInt /
          (stepCount (origin parameters) (destination parameters)).toInt) := by
  have divisor : stepCount (origin parameters) (destination parameters) ≠ -1 := by
    intro minus
    rw [minus] at positive
    exact absurd positive (by decide)
  have count := Int.toNat_of_nonneg (add_nonneg positive.le zero_le_one)
  rw [moveMouse_sleeps simplified (stepCount_ne_zero positive), List.map_replicate,
    List.sum_replicate, nsmul_eq_mul, count, Int32.toInt_div_of_ne_right _ _ divisor,
    Int.tdiv_eq_ediv_of_nonneg notNegative]

/-- The events reach no further than there are steps. -/
theorem toInt_stepCount_of_travels (simplified : parameters.contains "duration" = true)
    (travels : Travels (origin parameters) (destination parameters)
      (parameters.value "duration").toInt
      (moveMouse path parameters : List (Command Sequence))) :
    0 < (stepCount (origin parameters) (destination parameters)).toInt ∧
      (stepCount (origin parameters) (destination parameters)).toInt =
        distance (origin parameters) (destination parameters) := by
  have moves : stepCount (origin parameters) (destination parameters) ≠ 0 := by
    intro zero
    have none := travels.starts
    rw [moveMouse_eq simplified] at none
    simp [zero] at none
  obtain ⟨starts, arrives, walks, _⟩ := travels
  rw [moveMouse_positions simplified moves] at starts arrives walks
  have spanX := Library.Walk.span_le (fun position : Point => position.x.toInt)
    (walks.imp fun _ _ both => both.1) starts arrives
  have spanY := Library.Walk.span_le (fun position : Point => position.y.toInt)
    (walks.imp fun _ _ both => both.2) starts arrives
  rw [List.length_map, List.length_range, abs_sub_comm] at spanX spanY
  have steps : 0 < (stepCount (origin parameters) (destination parameters)).toInt + 1 := by
    by_contra negative
    rw [Int.toNat_of_nonpos (not_lt.mp negative)] at spanX
    have := abs_nonneg ((destination parameters).x.toInt - (origin parameters).x.toInt)
    push_cast at spanX
    linarith
  rw [Int.toNat_of_nonneg steps.le] at spanX spanY
  have range := Int32.toInt_lt (stepCount (origin parameters) (destination parameters))
  have count := @toInt_stepCount (origin parameters) (destination parameters) (by linarith)
    (by linarith)
  have nonneg : 0 ≤ distance (origin parameters) (destination parameters) :=
    add_nonneg (abs_nonneg _) (abs_nonneg _)
  have positive : 0 < (stepCount (origin parameters) (destination parameters)).toInt :=
    lt_of_le_of_ne (Int.lt_add_one_iff.mp steps) fun zero => moves (Int32.toInt.inj zero.symm)
  have wraps : distance (origin parameters) (destination parameters) < 4294967296 := by
    rw [distance]
    linarith
  rw [Int.bmod_def] at count
  push_cast at count
  rw [Int.emod_eq_of_lt nonneg wraps] at count
  split at count
  · exact ⟨positive, count⟩
  · exfalso
    linarith

/-- A simplified movement goes all the way in its time when the way is neither empty nor as
long as the greatest int, and the sleep behind the last event still fits in the duration. -/
theorem moveMouse_travels_iff (simplified : parameters.contains "duration" = true)
    (notNegative : 0 ≤ (parameters.value "duration").toInt.toInt) :
    (LoopEnds (stepCount (origin parameters) (destination parameters)) ∧
        Travels (origin parameters) (destination parameters)
          (parameters.value "duration").toInt
          (moveMouse path parameters : List (Command Sequence))) ↔
      0 < distance (origin parameters) (destination parameters) ∧
        distance (origin parameters) (destination parameters) < 2 ^ 31 - 1 ∧
        (parameters.value "duration").toInt.toInt /
            distance (origin parameters) (destination parameters) ≤
          (parameters.value "duration").toInt.toInt %
            distance (origin parameters) (destination parameters) := by
  have parts := Int.mul_ediv_add_emod (parameters.value "duration").toInt.toInt
    (distance (origin parameters) (destination parameters))
  constructor
  · intro ⟨ends, travels⟩
    have ⟨positive, count⟩ := toInt_stepCount_of_travels simplified travels
    have inTime := travels.inTime
    rw [moveMouse_sleep_sum simplified notNegative positive, count] at inTime
    rw [loopEnds_iff, count] at ends
    rw [count] at positive
    exact ⟨positive, ends, by linarith⟩
  · intro ⟨positive, small, fits⟩
    have range : distance (origin parameters) (destination parameters) < 2 ^ 31 := by linarith
    have count := toInt_stepCount_of_lt range
    have counts : 0 < (stepCount (origin parameters) (destination parameters)).toInt := by
      rwa [count]
    have length : ((stepCount (origin parameters) (destination parameters)).toInt + 1).toNat =
        (stepCount (origin parameters) (destination parameters)).toInt.toNat + 1 :=
      Int.toNat_add counts.le zero_le_one
    refine ⟨(loopEnds_iff _).mpr (by rwa [count]), ?_, ?_, ?_, ?_⟩
    · rw [moveMouse_positions simplified (stepCount_ne_zero counts), length, List.head?_map,
        List.range_succ_eq_map]
      exact congrArg some (stepPosition_zero positive range)
    · rw [moveMouse_positions simplified (stepCount_ne_zero counts), length, List.range_succ,
        List.map_append, List.map_singleton, List.getLast?_concat]
      exact congrArg some (stepPosition_last positive range)
    · rw [moveMouse_positions simplified (stepCount_ne_zero counts), length]
      apply Library.Walk.isChain_map_range
      intro index inside
      apply adjacent_stepPosition positive range
      have below : index + 1 ≤
          (stepCount (origin parameters) (destination parameters)).toInt.toNat :=
        Nat.lt_succ_iff.mp inside
      calc ((index : Int) + 1)
          ≤ ((stepCount (origin parameters) (destination parameters)).toInt.toNat : Int) := by
            exact_mod_cast below
        _ = _ := Int.toNat_of_nonneg counts.le
    · rw [moveMouse_sleep_sum simplified notNegative counts, count]
      linarith

end

/-- The parameters of a simplified movement along the x axis. -/
def simplifiedMovement (length duration : Int32) : QVariantMap :=
  QVariantMap.empty
    |>.insert "originX" (.int 0)
    |>.insert "originY" (.int 0)
    |>.insert "destinationX" (.int length)
    |>.insert "destinationY" (.int 0)
    |>.insert "duration" (.int duration)

theorem simplifiedMovement_travels :
    Travels ⟨0, 0⟩ ⟨3, 0⟩ 2
      (moveMouse "window" (simplifiedMovement 3 2) : List (Command Unit)) := by
  have travels := @moveMouse_travels_iff Unit "window" (simplifiedMovement 3 2) (by decide)
    (by decide)
  exact (travels.mpr (by decide)).2

/-- A way that leads nowhere raises no event; on a way of one unit, both ends are followed by
a sleep for the whole duration. -/
theorem simplifiedMovement_not_travels :
    ¬ Travels ⟨0, 0⟩ ⟨0, 0⟩ 5
        (moveMouse "window" (simplifiedMovement 0 5) : List (Command Unit)) ∧
      ¬ Travels ⟨0, 0⟩ ⟨1, 0⟩ 1
        (moveMouse "window" (simplifiedMovement 1 1) : List (Command Unit)) := by
  constructor
  · intro travels
    exact absurd travels.starts (by decide +kernel)
  · intro travels
    exact absurd travels.inTime (by decide +kernel)

end RemoteObject

end Hooq
