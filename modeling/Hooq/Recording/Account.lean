import Hooq.Recording.Document
import Hooq.Recording.RawReplay
import Hooq.Script.Replay

/-!
# The account of a recording

What the user did while a recorder ran, without elements and devices: the events that
count, each with the time that passed before it, and a drag in place of the press, the
moves and the release that it consists of.
-/

namespace Hooq

/-- An event that counts, with the milliseconds since the one before. -/
structure Take (Sequence : Type) where
  elapsed : Nat
  record : Record Sequence
  deriving DecidableEq, Repr

namespace Take

variable (isPrint : QChar → Bool) (keys : KeySequences)

/-- The entry that the log has for it. -/
def entry (take : Take keys.Sequence) : Option LogEntry :=
  (take.record.element isPrint keys).map (Logger.entryOf take.elapsed)

/-- What there is to record of an event other than a drop, if it has a receiver. -/
def ofEvent {Object Sequence : Type} [DecidableEq Object] (scene : Scene Object) (elapsed : Nat)
    (receiver : Object) (qtEvent : QtEvent Sequence) : Option (Take Sequence) :=
  (scene.receiverOf receiver (AppEvent.known qtEvent).type).map fun receiver =>
    ⟨elapsed, .event receiver qtEvent⟩

end Take

/-- The events that count so far, the number of those before the latest button press,
and whether the latest of them is a button release.  The origin of a drag and the
pending canary follow the events as well. -/
structure Account (Object Sequence : Type) where
  takes : List (Take Sequence)
  groupStart : Option Nat
  released : Bool
  origin : Option Object
  originPoint : Point
  canaryPending : Bool
  deriving DecidableEq

namespace Account

section

variable {Object Sequence : Type}

def new (origin : Option Object) (originPoint : Point) : Account Object Sequence :=
  ⟨[], none, false, origin, originPoint, false⟩

/-- A drop directly behind a button release replaces the group of the press. -/
def drop (take : Take Sequence) (account : Account Object Sequence) : Account Object Sequence :=
  let takes :=
    match account.groupStart, account.released with
    | some start, true => account.takes.take start
    | _, _ => account.takes
  { account with
    takes := takes ++ [take]
    groupStart := if account.released then none else account.groupStart
    released := false
    origin := none
    originPoint := ⟨0, 0⟩ }

def press (receiver : Object) (position : Point) (take : Option (Take Sequence))
    (account : Account Object Sequence) : Account Object Sequence :=
  { takes := account.takes ++ take.toList
    groupStart := some account.takes.length
    released := false
    origin := some receiver
    originPoint := position
    canaryPending := true }

def accept (type : EventType) (take : Option (Take Sequence))
    (account : Account Object Sequence) : Account Object Sequence :=
  { account with
    takes := account.takes ++ take.toList
    released := type = .mouseButtonRelease
    canaryPending := true }

end

section

variable {Object Sequence : Type} [DecidableEq Object]

def step (account : Account Object Sequence) :
    Logger.Input Object Sequence → Account Object Sequence
  | .canary => { account with canaryPending := false }
  | .event _ _ _ (.other _) => { account with canaryPending := true }
  | .event scene elapsed receiver (.known (.drop position)) =>
      account.drop ⟨elapsed, .dragAndDrop (scene.pathOf account.origin) account.originPoint
        (scene.tree.objectPath receiver) position⟩
  | .event scene elapsed receiver
        (.known (.mouse .press position globalPosition button buttons modifiers)) =>
      if account.canaryPending then
        account
      else
        account.press receiver position (Take.ofEvent scene elapsed receiver
          (.mouse .press position globalPosition button buttons modifiers))
  | .event scene elapsed receiver (.known qtEvent) =>
      if account.canaryPending then
        account
      else
        account.accept (AppEvent.known qtEvent).type
          (Take.ofEvent scene elapsed receiver qtEvent)

theorem step_ordinary (account : Account Object Sequence) (scene : Scene Object) (elapsed : Nat)
    (receiver : Object) {qtEvent : QtEvent Sequence} (ordinary : Logger.IsOrdinary qtEvent) :
    account.step (.event scene elapsed receiver (.known qtEvent)) =
      if account.canaryPending then
        account
      else
        account.accept (AppEvent.known qtEvent).type
          (Take.ofEvent scene elapsed receiver qtEvent) := by
  rw [Account.step.eq_def]
  split
  next same => cases same
  next same => cases same
  next same => cases same; exact absurd rfl ordinary.1
  next same => cases same; exact absurd rfl ordinary.2
  next same => cases same; rfl

end

/-! ## The log of an account -/

section

variable {Object : Type} (isPrint : QChar → Bool) (keys : KeySequences)

/-- The records that the events ask for are those of the account. -/
structure Tells (account : Account Object keys.Sequence) (history : History Object) : Prop where
  entries : history.entries.map some = account.takes.map (Take.entry isPrint keys)
  groupStart : history.groupStart = account.groupStart
  released : history.released = account.released
  origin : history.origin = account.origin
  originPoint : history.originPoint = account.originPoint
  canaryPending : history.canaryPending = account.canaryPending

variable {isPrint keys}

theorem tells_new (origin : Option Object) (originPoint : Point) :
    (new origin originPoint).Tells isPrint keys (History.new origin originPoint) :=
  ⟨rfl, rfl, rfl, rfl, rfl, rfl⟩

theorem Tells.drop {account : Account Object keys.Sequence} {history : History Object}
    (tells : account.Tells isPrint keys history) {logged : LogEntry}
    {take : Take keys.Sequence} (entry : take.entry isPrint keys = some logged) :
    (account.drop take).Tells isPrint keys (history.drop logged) := by
  obtain ⟨entries, groupStart, released, origin, originPoint, canaryPending⟩ := tells
  constructor
  · simp only [History.drop, Account.drop, List.map_append, List.map_cons, List.map_nil, entry,
      groupStart, released]
    congr 1
    cases account.groupStart with
    | none => exact entries
    | some start =>
        cases account.released with
        | false => exact entries
        | true =>
          exact (List.map_take ..).trans ((congrArg _ entries).trans (List.map_take ..).symm)
  · simp only [History.drop, Account.drop, groupStart, released]
  · rfl
  · rfl
  · rfl
  · exact canaryPending

theorem Tells.press {account : Account Object keys.Sequence} {history : History Object}
    (tells : account.Tells isPrint keys history) (receiver : Object) (position : Point)
    {logged : Option LogEntry} {take : Option (Take keys.Sequence)}
    (entry : logged.toList.map some = take.toList.map (Take.entry isPrint keys)) :
    (account.press receiver position take).Tells isPrint keys
      (history.press receiver position logged) := by
  have count : history.entries.length = account.takes.length := by
    simpa using congrArg List.length tells.entries
  constructor
  · simp only [History.press, Account.press, List.map_append, tells.entries, entry]
  · simp only [History.press, Account.press, count]
  · rfl
  · rfl
  · rfl
  · rfl

theorem Tells.accept {account : Account Object keys.Sequence} {history : History Object}
    (tells : account.Tells isPrint keys history) (type : EventType)
    {logged : Option LogEntry} {take : Option (Take keys.Sequence)}
    (entry : logged.toList.map some = take.toList.map (Take.entry isPrint keys)) :
    (account.accept type take).Tells isPrint keys (history.accept type logged) := by
  constructor
  · simp only [History.accept, Account.accept, List.map_append, tells.entries, entry]
  · exact tells.groupStart
  · rfl
  · exact tells.origin
  · exact tells.originPoint
  · rfl

end

section

variable {Object : Type} [DecidableEq Object] {isPrint : QChar → Bool} {keys : KeySequences}

theorem isSome_record (receiver : Receiver) {qtEvent : QtEvent keys.Sequence}
    (notDrop : (AppEvent.known qtEvent).type ≠ .drop) :
    ∃ element, Logger.record isPrint keys receiver qtEvent = some element := by
  cases qtEvent with
  | drop position => exact absurd rfl notDrop
  | key action => cases action <;> exact ⟨_, rfl⟩
  | mouse action => cases action <;> exact ⟨_, rfl⟩
  | _ => exact ⟨_, rfl⟩

/-- An event has an entry in the log exactly if there is something to record of it. -/
theorem entryFor_eq (scene : Scene Object) (elapsed : Nat) (receiver : Object)
    {qtEvent : QtEvent keys.Sequence} (notDrop : (AppEvent.known qtEvent).type ≠ .drop) :
    (Logger.entryFor isPrint keys scene elapsed receiver qtEvent).toList.map some =
      (Take.ofEvent scene elapsed receiver qtEvent).toList.map (Take.entry isPrint keys) := by
  rw [Logger.entryFor, Take.ofEvent]
  cases scene.receiverOf receiver (AppEvent.known qtEvent).type with
  | none => rfl
  | some found =>
      have isSome : ∃ element, Logger.record isPrint keys found qtEvent = some element :=
        isSome_record found notDrop
      obtain ⟨element, recorded⟩ := isSome
      simp [Take.entry, Record.element, recorded]

theorem Tells.step {account : Account Object keys.Sequence} {history : History Object}
    (tells : account.Tells isPrint keys history) (input : Logger.Input Object keys.Sequence) :
    (account.step input).Tells isPrint keys (history.step isPrint keys input) := by
  have pending := tells.canaryPending
  cases input with
  | canary => exact { tells with canaryPending := rfl }
  | event scene elapsed receiver event =>
      induction event using Logger.event_cases with
      | drop position =>
          rw [Account.step, History.step, tells.origin, tells.originPoint]
          exact tells.drop rfl
      | press position globalPosition button buttons modifiers =>
          rw [Account.step, History.step, pending]
          split
          · exact tells
          · exact tells.press receiver position
              (entryFor_eq scene elapsed receiver fun isDrop => by cases isDrop)
      | ordinary qtEvent ordinary =>
          rw [account.step_ordinary scene elapsed receiver ordinary]
          cases waits : account.canaryPending with
          | true =>
              rw [Logger.history_ordinary_ignored isPrint keys scene elapsed receiver history
                qtEvent ordinary (pending.trans waits), if_pos rfl]
              exact tells
          | false =>
              rw [Logger.history_ordinary isPrint keys scene elapsed receiver history qtEvent
                ordinary (pending.trans waits), if_neg Bool.false_ne_true]
              exact tells.accept _ (entryFor_eq scene elapsed receiver ordinary.1)
      | other type => exact { tells with canaryPending := rfl }

/-- Whatever happens, the log that the events ask for is that of the account. -/
theorem tells_foldl (origin : Option Object) (originPoint : Point)
    (inputs : List (Logger.Input Object keys.Sequence)) :
    (inputs.foldl Account.step (new origin originPoint)).Tells isPrint keys
      (inputs.foldl (History.step isPrint keys) (History.new origin originPoint)) := by
  induction inputs using List.reverseRecOn with
  | nil => exact tells_new origin originPoint
  | append_singleton inputs last ih =>
      rw [List.foldl_append, List.foldl_append]
      exact ih.step last

end

end Account

/-! ## The times of an account -/

/-- The time that `QTime` has measured is an `int`. -/
def Logger.IsTimely {Object Sequence : Type} [DecidableEq Object] :
    Logger.Input Object Sequence → Prop
  | .event _ elapsed _ _ => elapsed < 2 ^ 31
  | .canary => True

instance {Object Sequence : Type} [DecidableEq Object] :
    (input : Logger.Input Object Sequence) → Decidable (Logger.IsTimely input)
  | .event _ elapsed _ _ => inferInstanceAs (Decidable (elapsed < 2 ^ 31))
  | .canary => isTrue trivial

namespace Account

section

variable {Object Sequence : Type}

/-- The times of all events that count are of that kind. -/
def IsTimely (account : Account Object Sequence) : Prop :=
  ∀ take ∈ account.takes, take.elapsed < 2 ^ 31

variable {account : Account Object Sequence}

theorem IsTimely.concat {takes : List (Take Sequence)}
    (timely : ∀ take ∈ takes, take.elapsed < 2 ^ 31) {taken : List (Take Sequence)}
    (here : ∀ take ∈ taken, take.elapsed < 2 ^ 31) :
    ∀ take ∈ takes ++ taken, take.elapsed < 2 ^ 31 := by
  intro take member
  rcases List.mem_append.mp member with old | isNew
  · exact timely take old
  · exact here take isNew

theorem IsTimely.drop (timely : account.IsTimely) {take : Take Sequence}
    (here : take.elapsed < 2 ^ 31) : (account.drop take).IsTimely := by
  rw [IsTimely, Account.drop]
  apply IsTimely.concat
  · split
    · exact fun other member => timely other (List.mem_of_mem_take member)
    · exact timely
  · intro other member
    rwa [List.mem_singleton.mp member]

end

section

variable {Object Sequence : Type} [DecidableEq Object] {account : Account Object Sequence}

theorem elapsed_ofEvent {scene : Scene Object} {elapsed : Nat} {receiver : Object}
    {qtEvent : QtEvent Sequence} (timely : elapsed < 2 ^ 31) :
    ∀ take ∈ (Take.ofEvent scene elapsed receiver qtEvent).toList, take.elapsed < 2 ^ 31 := by
  intro take member
  obtain ⟨_, _, rfl⟩ := Option.map_eq_some_iff.mp (Option.mem_toList.mp member)
  exact timely

theorem IsTimely.step (timely : account.IsTimely) {input : Logger.Input Object Sequence}
    (here : Logger.IsTimely input) : (account.step input).IsTimely := by
  rw [Account.step.eq_def]
  split
  next => exact timely
  next => exact timely
  next => exact timely.drop here
  next =>
    split
    · exact timely
    · exact IsTimely.concat timely (elapsed_ofEvent here)
  next =>
    split
    · exact timely
    · exact IsTimely.concat timely (elapsed_ofEvent here)

theorem timely_foldl {origin : Option Object} {originPoint : Point}
    {inputs : List (Logger.Input Object Sequence)}
    (timely : ∀ input ∈ inputs, Logger.IsTimely input) :
    (inputs.foldl Account.step (new origin originPoint)).IsTimely := by
  induction inputs using List.reverseRecOn with
  | nil => exact List.forall_mem_nil _
  | append_singleton inputs last ih =>
      rw [List.foldl_append, List.foldl_cons, List.foldl_nil]
      exact (ih fun input member => timely input (List.mem_append_left _ member)).step
        (timely last (List.mem_append_right _ List.mem_cons_self))

end

end Account

end Hooq
