import Mathlib.Data.List.SplitBy
import Mathlib.Tactic.SplitIfs
import Hooq.Qt.Event
import Hooq.Script.InsertionOrder
import Hooq.Script.Parse
import Hooq.Script.Recording

/-!
# What becomes of mouse movements

SimplifyMouseMovements merges runs of movements into one.  The runs of a recording
are the maximal groups of neighbouring movements on one target.  This module says
which movements the pass leaves behind, and how the time that was recorded is
spread over sleeps and durations.
-/

namespace Hooq

namespace Item

def isMove (item : Item) : Bool :=
  item.method = QString.ofString "moveMouse"

/-- Where a movement ends. -/
def position (item : Item) : Point where
  x := (item.parameters.toMap.value "x").toInt
  y := (item.parameters.toMap.value "y").toInt

theorem isSleep_of_isMove {item : Item} (isMove : item.isMove = true) : item.isSleep = false := by
  rw [isSleep, of_decide_eq_true isMove]
  decide

theorem isValid_of_isMove {item : Item} (isMove : item.isMove = true) : item.isValid = true := by
  rw [isValid, of_decide_eq_true isMove]
  decide

end Item

theorem IsEvent.isSleep {item : Item} (isEvent : IsEvent item) : item.isSleep = false := by
  have events : ∀ method ∈ eventMethods, method ≠ QString.ofString "msleep" := by decide
  exact decide_eq_false (events item.method isEvent.method)

theorem IsEvent.isValid {item : Item} (isEvent : IsEvent item) : item.isValid = true := by
  have named : ∀ method ∈ eventMethods, method ≠ [] := by decide
  exact decide_eq_true (named item.method isEvent.method)

namespace SimplifyMouseMovements

/-! ## Runs of movements -/

/-- The events of a recording, each with the sleep in front of it. -/
def pairs : List Item → List (Int32 × Item)
  | sleep :: event :: rest => (sleep.parameters.toInt, event) :: pairs rest
  | _ => []

/-- Two neighbours that belong to one run. -/
def continues (first second : Int32 × Item) : Bool :=
  first.2.isMove && second.2.isMove && decide (second.2.target = first.2.target)

/-- The maximal runs; an event that is no movement is a run by itself. -/
def runs (pairs : List (Int32 × Item)) : List (List (Int32 × Item)) :=
  pairs.splitBy continues

def withoutSleeps (items : List Item) : List Item :=
  items.filter fun item => !item.isSleep

/-- One movement for a whole run. -/
structure StandsFor (run : List (Int32 × Item)) (item : Item) : Prop where
  isMove : item.isMove = true
  target : ∀ first ∈ run.head?, item.target = first.2.target
  origin : ∀ first ∈ run.head?,
    item.parameters.toMap.value "originX" = .int first.2.position.x ∧
      item.parameters.toMap.value "originY" = .int first.2.position.y
  destination : ∀ last ∈ run.getLast?,
    item.parameters.toMap.value "destinationX" = .int last.2.position.x ∧
      item.parameters.toMap.value "destinationY" = .int last.2.position.y
  duration : ∃ duration, item.parameters.toMap.value "duration" = .int duration

/-- What a run is to be replaced by: an event that is no movement stays. -/
def Replaces (run : List (Int32 × Item)) (item : Item) : Prop :=
  if run.any fun pair => pair.2.isMove then StandsFor run item
  else run.map Prod.snd = [item]

/-- The last event is a movement. -/
def endsInMove (items : List Item) : Bool :=
  items.getLast?.any Item.isMove

theorem runs_of_not_isMove {pair : Int32 × Item} (notMove : pair.2.isMove = false)
    (rest : List (Int32 × Item)) : runs (pair :: rest) = [pair] :: runs rest := by
  have apart : ∀ last ∈ [pair].getLast?, ∀ next ∈ rest.head?, continues last next = false := by
    intro last isLast next _
    cases isLast
    simp [continues, notMove]
  rw [runs, ← List.singleton_append, List.splitBy_append apart,
    List.splitBy_of_isChain (by simp) (List.isChain_singleton _)]
  rfl

theorem head?_runs (pair : Int32 × Item) (rest : List (Int32 × Item)) :
    (runs (pair :: rest)).head?.bind List.head? = some pair := by
  have whole := List.flatten_splitBy continues (pair :: rest)
  have nonempty := List.nil_notMem_splitBy continues (pair :: rest)
  rw [runs]
  cases groups : (pair :: rest).splitBy continues with
  | nil =>
      rw [groups] at whole
      cases whole
  | cons group others =>
      rw [groups] at whole nonempty
      cases group with
      | nil => exact absurd List.mem_cons_self nonempty
      | cons first group =>
          rw [List.flatten_cons, List.cons_append, List.cons.injEq] at whole
          exact congrArg some whole.1

/-- The movements that follow a movement on its target. -/
def Follows (target : Target) (moves : List (Int32 × Item)) : Prop :=
  ∀ move ∈ moves, move.2.isMove = true ∧ move.2.target = target

theorem isChain_of_follows {first : Int32 × Item} {moves : List (Int32 × Item)}
    (isMove : first.2.isMove = true) (follows : Follows first.2.target moves) :
    (first :: moves).IsChain fun before after => continues before after = true := by
  induction moves generalizing first with
  | nil => exact List.isChain_singleton _
  | cons second moves ih =>
      have next := follows second List.mem_cons_self
      apply List.IsChain.cons_cons
      · simp [continues, isMove, next.1, next.2]
      · apply ih next.1
        intro move member
        rw [next.2]
        exact follows move (List.mem_cons_of_mem _ member)

theorem runs_of_follows {first : Int32 × Item} {moves : List (Int32 × Item)}
    (isMove : first.2.isMove = true) (follows : Follows first.2.target moves) :
    runs (first :: moves) = [first :: moves] :=
  List.splitBy_of_isChain (by simp) (isChain_of_follows isMove follows)

theorem last_of_follows {first last : Int32 × Item} {moves : List (Int32 × Item)}
    (isMove : first.2.isMove = true) (follows : Follows first.2.target moves)
    (isLast : last ∈ (first :: moves).getLast?) :
    last.2.isMove = true ∧ last.2.target = first.2.target := by
  rcases List.mem_cons.mp (List.mem_of_getLast? isLast) with isFirst | member
  · rw [isFirst]
    exact ⟨isMove, rfl⟩
  · exact follows last member

theorem runs_of_different {first next : Int32 × Item} {moves rest : List (Int32 × Item)}
    (isMove : first.2.isMove = true) (follows : Follows first.2.target moves)
    (different : ¬(next.2.isMove = true ∧ next.2.target = first.2.target)) :
    runs (first :: moves ++ next :: rest) = (first :: moves) :: runs (next :: rest) := by
  have apart : ∀ last ∈ (first :: moves).getLast?, continues last next = false := by
    intro last isLast
    have same := last_of_follows isMove follows isLast
    by_contra joined
    simp only [continues, Bool.not_eq_false, Bool.and_eq_true, decide_eq_true_eq] at joined
    exact different ⟨joined.1.2, joined.2.trans same.2⟩
  rw [runs, List.splitBy_append_cons rest apart,
    List.splitBy_of_isChain (by simp) (isChain_of_follows isMove follows)]
  rfl

/-! ## The loop on a recording -/

/-- The last movement, or the one that the loop started from. -/
def lastMove (iterator : Item) (moves : List (Int32 × Item)) : Item :=
  (moves.getLast?.map Prod.snd).getD iterator

def addSleeps (duration : Int32) (moves : List (Int32 × Item)) : Int32 :=
  moves.foldl (fun duration move => duration + move.1) duration

theorem lastMove_cons (iterator : Item) (move : Int32 × Item) (moves : List (Int32 × Item)) :
    lastMove iterator (move :: moves) = lastMove move.2 moves := by
  rw [lastMove, lastMove, List.getLast?_cons]
  cases moves.getLast? <;> rfl

theorem lastMove_mem (sleep : Int32) (iterator : Item) (moves : List (Int32 × Item)) :
    ∃ last ∈ ((sleep, iterator) :: moves).getLast?, last.2 = lastMove iterator moves := by
  rw [List.getLast?_cons]
  refine ⟨_, rfl, ?_⟩
  rw [lastMove]
  cases moves.getLast? <;> rfl

/-- How the loop leaves a recording: it consumes movements up to the end, or up to
another event. -/
inductive Collected (target : Target) (iterator : Item) (duration : Int32) (items : List Item)
    (run : Run) : Prop where
  | atEnd (follows : Follows target (pairs items))
      (isLast : run.iterator = lastMove iterator (pairs items))
      (parameters : run.parameters = (lastMove iterator (pairs items)).parameters.toMap)
      (total : run.duration = addSleeps duration (pairs items))
      (exhausted : run.rest = [])
  | before (moves : List (Int32 × Item)) (sleep : Int32) (next : Item) (rest : List Item)
      (follows : Follows target moves)
      (different : ¬(next.isMove = true ∧ next.target = target))
      (isEvent : IsEvent next) (isRecording : IsRecording rest)
      (shape : pairs items = moves ++ (sleep, next) :: pairs rest)
      (isSleep : run.iterator = .ofMethod "msleep" (.int sleep))
      (parameters : run.parameters = (lastMove iterator moves).parameters.toMap)
      (total : run.duration = addSleeps duration moves + sleep)
      (remaining : run.rest = next :: rest)

theorem Follows.cons {target : Target} {move : Int32 × Item} {moves : List (Int32 × Item)}
    (isMove : move.2.isMove = true) (same : move.2.target = target)
    (follows : Follows target moves) : Follows target (move :: moves) := by
  intro other member
  rcases List.mem_cons.mp member with isFirst | later
  · rw [isFirst]
    exact ⟨isMove, same⟩
  · exact follows other later

theorem Collected.cons {target : Target} {iterator event : Item} {duration sleep : Int32}
    {items : List Item} {run : Run} (isMove : event.isMove = true) (same : event.target = target)
    (collected : Collected target event (duration + sleep) items run) :
    Collected target iterator duration (.ofMethod "msleep" (.int sleep) :: event :: items) run := by
  have consumed : pairs (.ofMethod "msleep" (.int sleep) :: event :: items) =
      (sleep, event) :: pairs items := rfl
  cases collected with
  | atEnd follows isLast parameters total exhausted =>
      apply Collected.atEnd
      · rw [consumed]
        exact Follows.cons isMove same follows
      · rw [consumed, lastMove_cons]
        exact isLast
      · rw [consumed, lastMove_cons]
        exact parameters
      · exact total
      · exact exhausted
  | before moves later next rest follows different isEvent isRecording shape isSleep parameters
      total remaining =>
      apply Collected.before ((sleep, event) :: moves) later next rest
        (Follows.cons isMove same follows) different isEvent isRecording
      · rw [consumed, shape]
        rfl
      · exact isSleep
      · rw [lastMove_cons]
        exact parameters
      · exact total
      · exact remaining

theorem collect_collected (target : Target) (iterator : Item) (duration : Int32)
    {items : List Item} (isRecording : IsRecording items) :
    Collected target iterator duration items
      (collect target iterator iterator.parameters.toMap duration items) := by
  induction isRecording generalizing iterator duration with
  | nil =>
      apply Collected.atEnd
      · intro move member
        cases member
      all_goals rfl
  | pair sleep isEvent isRecording ih =>
      rename_i event rest
      rw [collect]
      by_cases different : event.method ≠ QString.ofString "moveMouse" ∨ event.target ≠ target
      · rw [if_pos different]
        have breaks : ¬(event.isMove = true ∧ event.target = target) := by
          rintro ⟨isMove, same⟩
          rcases different with notMove | other
          · exact notMove (of_decide_eq_true isMove)
          · exact other same
        apply Collected.before [] sleep event rest _ breaks isEvent isRecording
        · rfl
        · rfl
        · rfl
        · rfl
        · rfl
        · intro move member
          cases member
      · rw [if_neg different]
        push Not at different
        exact Collected.cons (decide_eq_true different.1) different.2 (ih event (duration + sleep))

/-! ## What the pass replaces -/

theorem simplified_value (item : Item) (run : Run) :
    let parameters := (simplified item run).parameters.toMap
    parameters.value "originX" = .int item.position.x ∧
      parameters.value "originY" = .int item.position.y ∧
      parameters.value "destinationX" = .int (run.parameters.value "x").toInt ∧
      parameters.value "destinationY" = .int (run.parameters.value "y").toInt ∧
      parameters.value "duration" = .int run.duration := by
  refine ⟨?_, ?_, ?_, ?_, ?_⟩
  · change QVariantMap.value (QVariantMap.insert _ _ _) _ = _
    rw [QVariantMap.value_insert_of_ne (by decide), QVariantMap.value_insert_of_ne (by decide),
      QVariantMap.value_insert_of_ne (by decide), QVariantMap.value_insert_of_ne (by decide),
      QVariantMap.value_insert_self]
    rfl
  · change QVariantMap.value (QVariantMap.insert _ _ _) _ = _
    rw [QVariantMap.value_insert_of_ne (by decide), QVariantMap.value_insert_of_ne (by decide),
      QVariantMap.value_insert_of_ne (by decide), QVariantMap.value_insert_self]
    rfl
  · change QVariantMap.value (QVariantMap.insert _ _ _) _ = _
    rw [QVariantMap.value_insert_of_ne (by decide), QVariantMap.value_insert_of_ne (by decide),
      QVariantMap.value_insert_self]
  · change QVariantMap.value (QVariantMap.insert _ _ _) _ = _
    rw [QVariantMap.value_insert_of_ne (by decide), QVariantMap.value_insert_self]
  · exact QVariantMap.value_insert_self _ _ _

theorem standsFor_simplified {item : Item} {sleep : Int32} {moves : List (Int32 × Item)} {run : Run}
    (isLast : run.parameters = (lastMove item moves).parameters.toMap) :
    StandsFor ((sleep, item) :: moves) (simplified item run) where
  isMove := rfl
  target first isFirst := by
    cases isFirst
    rfl
  origin first isFirst := by
    cases isFirst
    exact ⟨(simplified_value item run).1, (simplified_value item run).2.1⟩
  destination last isEnd := by
    rcases lastMove_mem sleep item moves with ⟨other, isOther, found⟩
    cases Option.mem_unique isEnd isOther
    rw [Item.position, found, ← isLast]
    exact ⟨(simplified_value item run).2.2.1, (simplified_value item run).2.2.2.1⟩
  duration := ⟨run.duration, (simplified_value item run).2.2.2.2⟩

/-! ## The time that was recorded -/

/-- The time that an item takes: a sleep, or the duration of a simplified movement. -/
def time (item : Item) : Int :=
  if item.isSleep then item.parameters.toInt.toInt
  else if item.isMove then (item.parameters.toMap.value "duration").toInt.toInt
  else 0

def recordedTime (items : List Item) : Int :=
  (items.map time).sum

/-- The sleeps in front of the events. -/
def sleepTime (pairs : List (Int32 × Item)) : Int :=
  (pairs.map fun pair => pair.1.toInt).sum

/-- By how much the duration of a run exceeds the sleeps inside of it.  The loop adds
the sleep behind the run to the duration. -/
def overrun (run : List (Int32 × Item)) (next : Option (Int32 × Item)) : Int :=
  if run.any fun pair => pair.2.isMove then
    (addSleeps 0 (run.tail ++ next.toList)).toInt - sleepTime run.tail
  else
    0

def excess : List (List (Int32 × Item)) → Int
  | [] => 0
  | run :: rest => overrun run (rest.head?.bind List.head?) + excess rest

theorem recordedTime_append (front back : List Item) :
    recordedTime (front ++ back) = recordedTime front + recordedTime back := by
  rw [recordedTime, List.map_append, List.sum_append, recordedTime, recordedTime]

theorem recordedTime_insertAt (list : List Item) (index : Int) (item : Item) :
    recordedTime (insertAt list index item) = recordedTime list + time item := by
  have parts := recordedTime_append (list.take index.toNat) (list.drop index.toNat)
  rw [List.take_append_drop] at parts
  rw [insertAt, recordedTime_append, parts]
  change _ + (time item + recordedTime (list.drop index.toNat)) = _
  ring

/-! ## The run -/

/-- The inserter as the driver leaves it between two calls. -/
structure Resting (inserter : Inserter Item) : Prop where
  appended : inserter.appendedItems = 0
  lag : -1 ≤ inserter.lag

theorem Resting.new (list : List Item) : Resting (Inserter.new list).clear := by
  constructor
  · rfl
  · simp only [Inserter.lag, Inserter.clear, Inserter.new, Inserter.reset, List.length_nil]
    omega

theorem Resting.perform {inserter : Inserter Item} (resting : Resting inserter)
    (outcome : Outcome) (valid : outcome.iterator.isValid = true) :
    Resting (outcome.perform inserter) := by
  have lag := inserter.lag_insertAll outcome.insertions
  have appended := inserter.appendedItems_insertAll outcome.insertions
  have kept := resting.lag
  constructor
  · rfl
  · rw [Outcome.perform, if_pos valid]
    rw [resting.appended] at appended
    simp only [Inserter.lag, Inserter.next, Inserter.append, List.length_append,
      List.length_singleton] at lag kept ⊢
    omega

/-- The last item, if there is one, is a sleep. -/
def EndsQuietly (items : List Item) : Prop :=
  ∀ last ∈ items.getLast?, last.isSleep = true

theorem EndsQuietly.concat (front : List Item) {sleep : Item} (isSleep : sleep.isSleep = true) :
    EndsQuietly (front ++ [sleep]) := by
  intro last isLast
  rw [List.getLast?_concat] at isLast
  cases isLast
  exact isSleep

@[simp] theorem withoutSleeps_append (front back : List Item) :
    withoutSleeps (front ++ back) = withoutSleeps front ++ withoutSleeps back :=
  List.filter_append ..

theorem withoutSleeps_of_isSleep {item : Item} (isSleep : item.isSleep = true) :
    withoutSleeps [item] = [] := by
  simp [withoutSleeps, isSleep]

theorem withoutSleeps_of_not {item : Item} (loud : item.isSleep = false) :
    withoutSleeps [item] = [item] := by
  simp [withoutSleeps, loud]

/-- What is inserted before the current item ends up behind the last event. -/
theorem withoutSleeps_insert {inserter : Inserter Item} (resting : Resting inserter)
    (quiet : EndsQuietly inserter.rootList) {item : Item} (loud : item.isSleep = false) :
    withoutSleeps (inserter.insert item .beforeCurrentItem).rootList =
      withoutSleeps inserter.rootList ++ [item] := by
  change withoutSleeps (insertAt inserter.rootList inserter.itemIndex item) = _
  by_cases behind : inserter.rootList.length ≤ inserter.itemIndex
  · rw [insertAt_of_length_le behind, withoutSleeps_append, withoutSleeps_of_not loud]
  · rcases List.eq_nil_or_concat inserter.rootList with empty | ⟨front, last, shape⟩
    · rw [empty, insertAt, List.take_nil, List.drop_nil]
      exact withoutSleeps_of_not loud
    · rw [List.concat_eq_append] at shape
      have isSleep : last.isSleep = true := quiet last (by rw [shape, List.getLast?_concat]; rfl)
      have place : inserter.itemIndex = front.length := by
        have lag := resting.lag
        rw [Inserter.lag, shape, List.length_append, List.length_singleton] at lag
        rw [shape, List.length_append, List.length_singleton] at behind
        omega
      rw [shape, insertAt_append place, ← List.singleton_append, withoutSleeps_append,
        withoutSleeps_append, withoutSleeps_append, withoutSleeps_of_isSleep isSleep,
        withoutSleeps_of_not loud, List.append_nil, List.append_nil]

/-- A raw movement that the pass leaves behind its simplified one. -/
def leftover (pairs : List (Int32 × Item)) : List Item :=
  ((pairs.getLast?.map Prod.snd).filter Item.isMove).toList

/-- What the pass makes of the events that are still to come.  `due` is the time of the
sleeps that it has not seen. -/
structure Accounts (inserter final : Inserter Item) (remaining : List (Int32 × Item))
    (due : Int) : Prop where
  replaces : ∃ replaced,
    withoutSleeps final.rootList =
      withoutSleeps inserter.rootList ++ replaced ++ leftover remaining ∧
    List.Forall₂ Replaces (runs remaining) replaced
  time : (∀ pair ∈ remaining, pair.2.parameters.toMap.value "duration" = .invalid) →
    recordedTime final.rootList = recordedTime inserter.rootList + due + excess (runs remaining)

/-- The pass accounts for an event, with the sleep in front of it already emitted, and for
the recording behind it. -/
def AccountsFrom (event : Item) (rest : List Item) : Prop :=
  ∀ inserter final sleep, Resting inserter → EndsQuietly inserter.rootList →
    simplifyMouseMovements.run simplifyMouseMovements.initial (event :: rest) inserter = .ok final →
    Accounts inserter final ((sleep, event) :: pairs rest) (sleepTime (pairs rest))

theorem accounts_recording {items : List Item} (isRecording : IsRecording items)
    (further : ∀ sleep event rest, items = .ofMethod "msleep" (.int sleep) :: event :: rest →
      AccountsFrom event rest)
    {inserter final : Inserter Item} (resting : Resting inserter)
    (completes : simplifyMouseMovements.run simplifyMouseMovements.initial items inserter = .ok final) :
    Accounts inserter final (pairs items) (sleepTime (pairs items)) := by
  cases isRecording with
  | nil =>
      rw [PostProcessor.run_nil] at completes
      cases completes
      constructor
      · refine ⟨[], ?_, .nil⟩
        simp [leftover, pairs]
      · intro _
        simp [sleepTime, pairs, runs, excess]
  | pair sleep isEvent isRecording =>
      rename_i event rest
      have sleeps : (Item.ofMethod "msleep" (.int sleep)).isSleep = true := rfl
      rw [simplifyMouseMovements.run_cons_ok inserter rfl] at completes
      change simplifyMouseMovements.run simplifyMouseMovements.initial (event :: rest)
        (Outcome.perform (.unchanged _ _) inserter) = _ at completes
      have root := Outcome.rootList_perform
        (.unchanged (.ofMethod "msleep" (.int sleep)) (event :: rest)) inserter
      change _ = inserter.rootList ++ [Item.ofMethod "msleep" (.int sleep)] at root
      have accounts := further sleep event rest rfl _ final sleep
        (resting.perform (.unchanged _ (event :: rest)) rfl)
        (by rw [root]; exact EndsQuietly.concat _ sleeps) completes
      rcases accounts with ⟨⟨replaced, shape, replaces⟩, time⟩
      rw [root] at shape time
      constructor
      · refine ⟨replaced, ?_, replaces⟩
        rw [shape, withoutSleeps_append, withoutSleeps_of_isSleep sleeps, List.append_nil]
        rfl
      · intro untimed
        rw [time untimed, recordedTime_append]
        change _ = _ + (sleep.toInt + sleepTime (pairs rest)) +
          excess (runs ((sleep, event) :: pairs rest))
        have single : recordedTime [Item.ofMethod "msleep" (.int sleep)] = sleep.toInt := by
          simp only [recordedTime, List.map_singleton, List.sum_singleton]
          rfl
        rw [single]
        ring

theorem leftover_cons_of_not {pair : Int32 × Item} (notMove : pair.2.isMove = false)
    (rest : List (Int32 × Item)) : leftover (pair :: rest) = leftover rest := by
  rw [leftover, leftover, List.getLast?_cons]
  cases rest.getLast? <;> simp [Option.filter, notMove]

theorem leftover_append_cons (front : List (Int32 × Item)) (pair : Int32 × Item)
    (rest : List (Int32 × Item)) : leftover (front ++ pair :: rest) = leftover (pair :: rest) := by
  rw [leftover, leftover, List.getLast?_append, List.getLast?_cons]
  rfl

theorem leftover_of_follows (sleep : Int32) {event : Item} {moves : List (Int32 × Item)}
    (isMove : event.isMove = true) (follows : Follows event.target moves) :
    leftover ((sleep, event) :: moves) = [lastMove event moves] := by
  rcases lastMove_mem sleep event moves with ⟨last, isLast, found⟩
  have moving := (last_of_follows isMove follows isLast).1
  rw [found] at moving
  rw [leftover, Option.mem_def.mp isLast, Option.map_some, found, Option.filter_some,
    if_pos moving]
  rfl

theorem time_of_event {item : Item} (isEvent : IsEvent item)
    (untimed : item.parameters.toMap.value "duration" = .invalid) : time item = 0 := by
  rw [time, isEvent.isSleep, untimed]
  cases item.isMove <;> rfl

theorem time_simplified (item : Item) (run : Run) :
    time (simplified item run) = run.duration.toInt := by
  have isMove : (simplified item run).isMove = true := rfl
  rw [time, Item.isSleep_of_isMove isMove, isMove, (simplified_value item run).2.2.2.2]
  rfl

/-- What a call leaves behind that was given a movement. -/
def merged (event : Item) (run : Run) : Outcome :=
  ⟨run.iterator, run.rest, [(simplified event run, .beforeCurrentItem)]⟩

theorem process_of_isMove {event : Item} (isMove : event.isMove = true) (input : List Item) :
    SimplifyMouseMovements.process event input =
      merged event (collect event.target event event.parameters.toMap 0 input) := by
  rw [SimplifyMouseMovements.process, if_pos (of_decide_eq_true isMove)]
  rfl

theorem process_of_not_isMove {item : Item} (notMove : item.isMove = false) (input : List Item) :
    SimplifyMouseMovements.process item input = .unchanged item input := by
  rw [SimplifyMouseMovements.process, if_neg (of_decide_eq_false notMove)]

/-- An event that is no movement is emitted as it is. -/
theorem accountsFrom_other {event : Item} {rest : List Item} (isEvent : IsEvent event)
    (notMove : event.isMove = false) (isRecording : IsRecording rest)
    (further : ∀ sleep next later, rest = .ofMethod "msleep" (.int sleep) :: next :: later →
      AccountsFrom next later) : AccountsFrom event rest := by
  intro inserter final sleep resting quiet completes
  have processed : simplifyMouseMovements.process simplifyMouseMovements.initial event rest =
      .ok (simplifyMouseMovements.initial, .unchanged event rest) := by
    change Except.ok (_, SimplifyMouseMovements.process event rest) = _
    rw [process_of_not_isMove notMove]
    rfl
  rw [simplifyMouseMovements.run_cons_ok inserter processed] at completes
  have root := Outcome.rootList_perform (.unchanged event rest) inserter
  have emitted : (Outcome.unchanged event rest).emitted = [event] := if_pos isEvent.isValid
  rw [emitted] at root
  change _ = inserter.rootList ++ [event] at root
  rcases accounts_recording isRecording further
    (resting.perform (.unchanged event rest) isEvent.isValid) completes with
    ⟨⟨replaced, shape, replaces⟩, time⟩
  rw [root] at shape time
  constructor
  · refine ⟨event :: replaced, ?_, ?_⟩
    · rw [shape, leftover_cons_of_not notMove, withoutSleeps_append,
        withoutSleeps_of_not isEvent.isSleep]
      simp only [List.append_assoc, List.cons_append, List.nil_append]
    · rw [runs_of_not_isMove notMove]
      apply List.Forall₂.cons
      · simp [Replaces, notMove]
      · exact replaces
  · intro untimed
    have single : recordedTime [event] = 0 := by
      simp only [recordedTime, List.map_singleton, List.sum_singleton]
      exact time_of_event isEvent (untimed _ List.mem_cons_self)
    have whole : excess (runs ((sleep, event) :: pairs rest)) = excess (runs (pairs rest)) := by
      rw [runs_of_not_isMove notMove, excess]
      simp [overrun, notMove]
    rw [time fun pair member => untimed pair (List.mem_cons_of_mem _ member),
      recordedTime_append, single, whole]
    ring

theorem rootList_merged {run : Run} (valid : run.iterator.isValid = true) (event : Item)
    (inserter : Inserter Item) :
    ((merged event run).perform inserter).rootList =
      (inserter.insert (simplified event run) .beforeCurrentItem).rootList ++ [run.iterator] := by
  have emitted : (merged event run).emitted = [run.iterator] := if_pos valid
  rw [Outcome.rootList_perform, emitted]
  rfl

section Merged

variable {event : Item} {run : Run} {inserter : Inserter Item} {moves : List (Int32 × Item)}

theorem withoutSleeps_merged (valid : run.iterator.isValid = true) (resting : Resting inserter)
    (quiet : EndsQuietly inserter.rootList) :
    withoutSleeps ((merged event run).perform inserter).rootList =
      withoutSleeps inserter.rootList ++ [simplified event run] ++
        withoutSleeps [run.iterator] := by
  have loud : (simplified event run).isSleep = false := Item.isSleep_of_isMove rfl
  rw [rootList_merged valid, withoutSleeps_append, withoutSleeps_insert resting quiet loud]

theorem recordedTime_merged (valid : run.iterator.isValid = true) :
    recordedTime ((merged event run).perform inserter).rootList =
      recordedTime inserter.rootList + run.duration.toInt + time run.iterator := by
  have inserted := recordedTime_insertAt inserter.rootList inserter.itemIndex (simplified event run)
  rw [time_simplified] at inserted
  rw [rootList_merged valid, recordedTime_append, ← inserted]
  simp only [recordedTime, List.map_singleton, List.sum_singleton]
  rfl

theorem any_isMove (sleep : Int32) (isMove : event.isMove = true)
    (moves : List (Int32 × Item)) :
    ((sleep, event) :: moves).any (fun pair => pair.2.isMove) = true := by
  simp [isMove]

/-- At the end of the recording the last movement stays behind its run. -/
theorem accounts_atEnd (sleep : Int32) (isMove : event.isMove = true)
    (follows : Follows event.target moves) (isLast : run.iterator = lastMove event moves)
    (parameters : run.parameters = (lastMove event moves).parameters.toMap)
    (total : run.duration = addSleeps 0 moves) (resting : Resting inserter)
    (quiet : EndsQuietly inserter.rootList) :
    Accounts inserter ((merged event run).perform inserter) ((sleep, event) :: moves)
      (sleepTime moves) := by
  rcases lastMove_mem sleep event moves with ⟨last, isEnd, found⟩
  have moving := (last_of_follows isMove follows isEnd).1
  have member := List.mem_of_getLast? isEnd
  rw [found, ← isLast] at moving
  have valid := Item.isValid_of_isMove moving
  constructor
  · refine ⟨[simplified event run], ?_, ?_⟩
    · rw [withoutSleeps_merged valid resting quiet,
        withoutSleeps_of_not (Item.isSleep_of_isMove moving),
        leftover_of_follows sleep isMove follows, ← isLast]
    · rw [runs_of_follows isMove follows]
      apply List.Forall₂.cons _ .nil
      rw [Replaces, if_pos (any_isMove sleep isMove moves)]
      exact standsFor_simplified parameters
  · intro untimed
    have still : time run.iterator = 0 := by
      have bare := untimed last member
      rw [found, ← isLast] at bare
      rw [time, Item.isSleep_of_isMove moving, bare]
      cases run.iterator.isMove <;> rfl
    have whole : excess (runs ((sleep, event) :: moves)) =
        run.duration.toInt - sleepTime moves := by
      rw [runs_of_follows isMove follows, excess, excess, overrun,
        if_pos (any_isMove sleep isMove moves), total, add_zero]
      simp only [List.tail_cons, List.head?_nil, Option.bind_none, Option.toList_none,
        List.append_nil]
    rw [recordedTime_merged valid, still, whole]
    ring

/-- Before another event the sleep in front of that event is kept, and counted in the
duration as well. -/
theorem accounts_before {final : Inserter Item} {later : Int32} {next : Item}
    {rest : List (Int32 × Item)} {due : Int} (sleep : Int32) (isMove : event.isMove = true)
    (follows : Follows event.target moves)
    (different : ¬(next.isMove = true ∧ next.target = event.target))
    (isSleep : run.iterator = .ofMethod "msleep" (.int later))
    (parameters : run.parameters = (lastMove event moves).parameters.toMap)
    (total : run.duration = addSleeps 0 moves + later) (resting : Resting inserter)
    (quiet : EndsQuietly inserter.rootList)
    (further : Accounts ((merged event run).perform inserter) final ((later, next) :: rest) due) :
    Accounts inserter final ((sleep, event) :: moves ++ (later, next) :: rest)
      (sleepTime moves + later.toInt + due) := by
  have sleeps : run.iterator.isSleep = true := by
    rw [isSleep]
    rfl
  have valid : run.iterator.isValid = true := by
    rw [isSleep]
    rfl
  have grouped : runs ((sleep, event) :: moves ++ (later, next) :: rest) =
      ((sleep, event) :: moves) :: runs ((later, next) :: rest) :=
    runs_of_different isMove follows different
  rcases further with ⟨⟨replaced, shape, replaces⟩, timed⟩
  rw [withoutSleeps_merged valid resting quiet, withoutSleeps_of_isSleep sleeps] at shape
  rw [recordedTime_merged valid] at timed
  constructor
  · refine ⟨simplified event run :: replaced, ?_, ?_⟩
    · rw [shape, leftover_append_cons]
      simp only [List.append_assoc, List.cons_append, List.nil_append]
    · rw [grouped]
      apply List.Forall₂.cons _ replaces
      rw [Replaces, if_pos (any_isMove sleep isMove moves)]
      exact standsFor_simplified parameters
  · intro untimed
    have slept : time run.iterator = later.toInt := by
      rw [isSleep]
      rfl
    have isFirst := head?_runs (later, next) rest
    have whole : excess (runs ((sleep, event) :: moves ++ (later, next) :: rest)) =
        run.duration.toInt - sleepTime moves + excess (runs ((later, next) :: rest)) := by
      rw [grouped, excess, overrun, if_pos (any_isMove sleep isMove moves), isFirst, total]
      simp only [List.tail_cons, Option.toList_some, addSleeps, List.foldl_append,
        List.foldl_cons, List.foldl_nil]
    rw [timed fun pair member => untimed pair (List.mem_append_right _ member), slept, whole]
    ring

end Merged

/-- A movement is replaced together with its run. -/
theorem accountsFrom_move {event : Item} {rest : List Item} (isMove : event.isMove = true)
    (isRecording : IsRecording rest)
    (further : ∀ next later, later.length < rest.length → IsEvent next → IsRecording later →
      AccountsFrom next later) : AccountsFrom event rest := by
  intro inserter final sleep resting quiet completes
  have collected := collect_collected event.target event 0 isRecording
  have suffix := collect_suffix event.target event event.parameters.toMap 0 rest
  have processed : simplifyMouseMovements.process simplifyMouseMovements.initial event rest =
      .ok (simplifyMouseMovements.initial,
        merged event (collect event.target event event.parameters.toMap 0 rest)) := by
    change Except.ok (_, SimplifyMouseMovements.process event rest) = _
    rw [process_of_isMove isMove]
    rfl
  rw [simplifyMouseMovements.run_cons_ok inserter processed] at completes
  generalize collect event.target event event.parameters.toMap 0 rest = run
    at collected suffix completes
  change simplifyMouseMovements.run _ run.rest _ = _ at completes
  cases collected with
  | atEnd follows isLast parameters total exhausted =>
      rw [exhausted, PostProcessor.run_nil] at completes
      cases completes
      exact accounts_atEnd sleep isMove follows isLast parameters total resting quiet
  | before moves later next following follows different isNext isFollowing shape isSleep
      parameters total remaining =>
      have sleeps : run.iterator.isSleep = true := by
        rw [isSleep]
        rfl
      have valid : run.iterator.isValid = true := by
        rw [isSleep]
        rfl
      rw [remaining] at suffix completes
      have accounts := further next following suffix.length_le isNext isFollowing _ final later
        (resting.perform (merged event run) valid)
        (by rw [rootList_merged valid]; exact EndsQuietly.concat _ sleeps) completes
      have whole := accounts_before sleep isMove follows different isSleep parameters total resting
        quiet accounts
      have due : sleepTime (pairs rest) =
          sleepTime moves + later.toInt + sleepTime (pairs following) := by
        rw [shape]
        simp only [sleepTime, List.map_append, List.map_cons, List.sum_append, List.sum_cons]
        ring
      rw [due, shape]
      exact whole

theorem accountsFrom {event : Item} (isEvent : IsEvent event) {rest : List Item}
    (isRecording : IsRecording rest) : AccountsFrom event rest := by
  induction size : rest.length using Nat.strong_induction_on generalizing event rest with
  | _ size ih =>
      subst size
      cases isMove : event.isMove with
      | false =>
          apply accountsFrom_other isEvent isMove isRecording
          rintro sleep next later rfl
          cases isRecording with
          | pair sleep isNext isLater =>
              exact ih later.length (Nat.lt_add_of_pos_right Nat.two_pos) isNext isLater rfl
      | true =>
          apply accountsFrom_move isMove isRecording
          intro next later shorter isNext isLater
          exact ih later.length shorter isNext isLater rfl

/-- The pass accounts for a whole recording. -/
theorem accounts {items list : List Item} (isRecording : IsRecording items)
    {final : Inserter Item}
    (completes : simplifyMouseMovements.run simplifyMouseMovements.initial items
      (Inserter.new list).clear = .ok final) :
    Accounts (Inserter.new list).clear final (pairs items) (sleepTime (pairs items)) := by
  apply accounts_recording isRecording _ (Resting.new list) completes
  rintro sleep event rest rfl
  cases isRecording with
  | pair sleep isEvent isRest => exact accountsFrom isEvent isRest

theorem completes (items list : List Item) :
    ∃ final, simplifyMouseMovements.run simplifyMouseMovements.initial items
      (Inserter.new list).clear = .ok final := by
  rcases simplifyMouseMovements.exists_run simplifyMouseMovements.initial items
    (Inserter.new list).clear (fun _ _ _ => True)
    (fun state inserter item input _ => ⟨_, _, rfl, trivial⟩) trivial with
    ⟨last, final, completes, _⟩
  exact ⟨final, completes⟩

/-! ## Recordings that end in a movement -/

theorem getLast?_pairs {items : List Item} (isRecording : IsRecording items) :
    (pairs items).getLast?.map Prod.snd = items.getLast? := by
  induction isRecording with
  | nil => rfl
  | pair sleep isEvent isRecording ih =>
      rename_i event rest
      change (((_, event) :: pairs rest).getLast?).map Prod.snd = _
      rw [List.getLast?_cons, List.getLast?_cons, List.getLast?_cons, ← ih]
      cases (pairs rest).getLast? <;> rfl

theorem leftover_eq_nil_iff {items : List Item} (isRecording : IsRecording items) :
    leftover (pairs items) = [] ↔ endsInMove items = false := by
  rw [leftover, getLast?_pairs isRecording, endsInMove]
  cases items.getLast? with
  | none => simp
  | some last =>
      cases moves : last.isMove <;> simp [Option.filter, moves]

/-- The pass replaces each run by one movement, and leaves no other movement, exactly if
the recording does not end in a movement. -/
theorem replaces_iff {items : List Item} (isRecording : IsRecording items) (list : List Item) :
    (∃ final, simplifyMouseMovements.run simplifyMouseMovements.initial items
        (Inserter.new list).clear = .ok final ∧
      List.Forall₂ Replaces (runs (pairs items)) (withoutSleeps final.rootList)) ↔
      endsInMove items = false := by
  rcases completes items list with ⟨final, completes⟩
  rcases (accounts isRecording completes).replaces with ⟨replaced, shape, replaces⟩
  change _ = [] ++ replaced ++ _ at shape
  rw [List.nil_append] at shape
  rw [← leftover_eq_nil_iff isRecording]
  constructor
  · rintro ⟨other, otherCompletes, whole⟩
    rw [completes] at otherCompletes
    cases otherCompletes
    rw [shape] at whole
    have lengths := whole.length_eq
    rw [List.length_append, ← replaces.length_eq] at lengths
    exact List.length_eq_zero_iff.mp (by omega)
  · intro nothing
    refine ⟨final, completes, ?_⟩
    rw [shape, nothing, List.append_nil]
    exact replaces

theorem moveRecording_isRecording : IsRecording moveRecording := by
  apply IsRecording.pair
  · exact ⟨by decide, _, rfl⟩
  · apply IsRecording.pair
    · exact ⟨by decide, _, rfl⟩
    · exact IsRecording.nil

theorem moveRecording_replaced :
    ∃ final, simplifyMouseMovements.run simplifyMouseMovements.initial moveRecording
        (Inserter.new []).clear = .ok final ∧
      List.Forall₂ Replaces (runs (pairs moveRecording)) (withoutSleeps final.rootList) :=
  (replaces_iff moveRecording_isRecording []).mpr (by decide)

/-- A sleep and a movement. -/
def singleMove : List Item :=
  moveRecording.take 2

theorem singleMove_isRecording : IsRecording singleMove := by
  apply IsRecording.pair
  · exact ⟨by decide, _, rfl⟩
  · exact IsRecording.nil

/-- The recorded movement stays behind the one that replaces it. -/
theorem singleMove_not_replaced :
    ¬∀ items, IsRecording items → ∃ final,
      simplifyMouseMovements.run simplifyMouseMovements.initial items
        (Inserter.new []).clear = .ok final ∧
      List.Forall₂ Replaces (runs (pairs items)) (withoutSleeps final.rootList) := by
  intro replacesAll
  rcases replacesAll singleMove singleMove_isRecording with ⟨final, completes, whole⟩
  rcases (accounts singleMove_isRecording completes).replaces with ⟨replaced, shape, replaces⟩
  have left : leftover (pairs singleMove) ≠ [] := by
    rw [Ne, leftover_eq_nil_iff singleMove_isRecording]
    decide
  have lengths := whole.length_eq
  rw [shape, List.length_append, List.length_append, replaces.length_eq] at lengths
  have positive := List.length_pos_of_ne_nil left
  omega

/-! ## Time that is counted twice -/

/-- No event has a duration of its own. -/
def AreUntimed (items : List Item) : Prop :=
  ∀ item ∈ items, item.parameters.toMap.value "duration" = .invalid

instance (items : List Item) : Decidable (AreUntimed items) :=
  inferInstanceAs (Decidable (∀ item ∈ items, _))

theorem value_insert_duration {map : QVariantMap} {key : QString} (value : QVariant)
    (other : key ≠ "duration") (absent : map.value "duration" = .invalid) :
    (map.insert key value).value "duration" = .invalid := by
  rw [QVariantMap.value_insert_of_ne other, absent]

/-- What the compiler reads from a file has no durations. -/
theorem areUntimed_parse (elements : List Element) :
    AreUntimed (elements.filterMap XmlToQtScript.parseElement) := by
  intro item member
  rcases List.mem_filterMap.mp member with ⟨element, _, parsed⟩
  have none : QVariantMap.empty.value "duration" = .invalid := rfl
  cases XmlToQtScript.parses_of_parseElement parsed with
  | msec => rfl
  | windowClosed => rfl
  | _ =>
      change QVariantMap.value (QVariantMap.insert _ _ _) _ = _
      repeat apply value_insert_duration _ (by decide)
      exact none

theorem recordedTime_recording {items : List Item} (isRecording : IsRecording items)
    (untimed : AreUntimed items) : recordedTime items = sleepTime (pairs items) := by
  induction isRecording with
  | nil => rfl
  | pair sleep isEvent isRecording ih =>
      rename_i event rest
      have bare := untimed event (List.mem_cons_of_mem _ List.mem_cons_self)
      have later := ih fun item member =>
        untimed item (List.mem_cons_of_mem _ (List.mem_cons_of_mem _ member))
      have still := time_of_event isEvent bare
      change sleep.toInt + (time event + recordedTime rest) = sleep.toInt + sleepTime (pairs rest)
      rw [still, later, zero_add]

theorem mem_of_mem_pairs {items : List Item} {pair : Int32 × Item} (member : pair ∈ pairs items) :
    pair.2 ∈ items := by
  fun_induction pairs items with
  | case1 sleep event rest ih =>
      rcases List.mem_cons.mp member with isFirst | later
      · rw [isFirst]
        exact List.mem_cons_of_mem _ List.mem_cons_self
      · exact List.mem_cons_of_mem _ (List.mem_cons_of_mem _ (ih later))
  | case2 => cases member

/-- The pass changes the recorded time by what the durations of the runs exceed the sleeps
inside of them. -/
theorem recordedTime_final {items : List Item} (isRecording : IsRecording items)
    (untimed : AreUntimed items) {list : List Item} {final : Inserter Item}
    (completes : simplifyMouseMovements.run simplifyMouseMovements.initial items
      (Inserter.new list).clear = .ok final) :
    recordedTime final.rootList = recordedTime items + excess (runs (pairs items)) := by
  have timed := (accounts isRecording completes).time
    fun pair member => untimed pair.2 (mem_of_mem_pairs member)
  rw [← recordedTime_recording isRecording untimed] at timed
  change _ = 0 + _ + _ at timed
  omega

/-- The recorded time is the time of the output exactly if the durations of the runs
exceed the sleeps inside of them by nothing, in total. -/
theorem recordedTime_iff {items : List Item} (isRecording : IsRecording items)
    (untimed : AreUntimed items) (list : List Item) :
    (∃ final, simplifyMouseMovements.run simplifyMouseMovements.initial items
        (Inserter.new list).clear = .ok final ∧
      recordedTime final.rootList = recordedTime items) ↔
      excess (runs (pairs items)) = 0 := by
  rcases completes items list with ⟨final, completes⟩
  have timed := recordedTime_final isRecording untimed completes
  constructor
  · rintro ⟨other, otherCompletes, same⟩
    rw [completes] at otherCompletes
    cases otherCompletes
    omega
  · intro nothing
    refine ⟨final, completes, ?_⟩
    omega

/-- A run whose last sleep is empty. -/
def promptRecording : List Item :=
  moveRecording.take 2 ++ .ofMethod "msleep" (.int 0) :: moveRecording.drop 3

theorem promptRecording_isRecording : IsRecording promptRecording := by
  apply IsRecording.pair
  · exact ⟨by decide, _, rfl⟩
  · apply IsRecording.pair
    · exact ⟨by decide, _, rfl⟩
    · exact IsRecording.nil

theorem promptRecording_keeps_time :
    ∃ final, simplifyMouseMovements.run simplifyMouseMovements.initial promptRecording
        (Inserter.new []).clear = .ok final ∧
      recordedTime final.rootList = recordedTime promptRecording :=
  (recordedTime_iff promptRecording_isRecording (by decide) []).mpr (by decide)

/-- The sleep behind a movement counts as its duration and as a sleep. -/
theorem moveRecording_gains_time :
    ¬∀ items, IsRecording items → AreUntimed items → ∃ final,
      simplifyMouseMovements.run simplifyMouseMovements.initial items
        (Inserter.new []).clear = .ok final ∧
      recordedTime final.rootList = recordedTime items := by
  intro keeps
  have untimed : AreUntimed moveRecording := by decide
  rcases keeps moveRecording moveRecording_isRecording untimed with ⟨final, completes, same⟩
  have timed := recordedTime_final moveRecording_isRecording untimed completes
  have twice : excess (runs (pairs moveRecording)) = 20 := by decide
  omega

/-- The sleeps directly behind movements. -/
def sleepsBehind : List (List (Int32 × Item)) → Int
  | [] => 0
  | run :: rest =>
      (if run.any fun pair => pair.2.isMove then
        sleepTime (rest.head?.bind List.head?).toList
      else
        0) + sleepsBehind rest

/-- The sleeps of each run, with the one behind it, fit into a C++ `int`. -/
def Fits : List (List (Int32 × Item)) → Prop
  | [] => True
  | run :: rest =>
      let sleeps := run.tail ++ (rest.head?.bind List.head?).toList
      (addSleeps 0 sleeps).toInt = sleepTime sleeps ∧ Fits rest

/-- By how much the durations exceed the sleeps, where none of them overflows: it is the sleep
behind a run that counts twice. -/
theorem excess_of_fits {runs : List (List (Int32 × Item))} (fits : Fits runs) :
    excess runs = sleepsBehind runs := by
  induction runs with
  | nil => rfl
  | cons run rest ih =>
      rw [excess, sleepsBehind, ih fits.2, overrun, fits.1, sleepTime, List.map_append,
        List.sum_append, ← sleepTime, ← sleepTime]
      split
      · ring
      · rfl

/-- Unless a duration overflows, the output takes longer than the recording by the sleeps
directly behind movements. -/
theorem recordedTime_of_fits {items : List Item} (isRecording : IsRecording items)
    (untimed : AreUntimed items) (fits : Fits (runs (pairs items))) {list : List Item}
    {final : Inserter Item}
    (completes : simplifyMouseMovements.run simplifyMouseMovements.initial items
      (Inserter.new list).clear = .ok final) :
    recordedTime final.rootList = recordedTime items + sleepsBehind (runs (pairs items)) := by
  rw [recordedTime_final isRecording untimed completes, excess_of_fits fits]

end SimplifyMouseMovements

end Hooq
