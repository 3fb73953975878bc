import Hooq.Objects.Lookup
import Hooq.Recording.Logger

/-!
# What reaches the device

The log should hold one record for each accepted event, with the records of a drag
replaced by that of the drop.  This module says for which runs it does: the buffer
must not be in use when a button is pressed, and must still be in use when a drop
ends a drag.
-/

namespace Hooq

open Library.Run

/-! ## The log that the events ask for -/

/-- The records of the accepted events, the number of those before the latest button
press, and whether the latest accepted event is a button release.  The origin of a
drag and the pending canary follow the events as well. -/
structure History (Object : Type) where
  entries : List LogEntry
  groupStart : Option Nat
  released : Bool
  origin : Option Object
  originPoint : Point
  canaryPending : Bool

namespace History

section

variable {Object : Type}

def new (origin : Option Object) (originPoint : Point) : History Object :=
  ⟨[], none, false, origin, originPoint, false⟩

/-- A drop directly behind a button release replaces the group of the press. -/
def drop (entry : LogEntry) (history : History Object) : History Object :=
  let entries :=
    match history.groupStart, history.released with
    | some start, true => history.entries.take start
    | _, _ => history.entries
  { history with
    entries := entries ++ [entry]
    groupStart := if history.released then none else history.groupStart
    released := false
    origin := none
    originPoint := ⟨0, 0⟩ }

def press (receiver : Object) (position : Point) (entry : Option LogEntry)
    (history : History Object) : History Object :=
  { entries := history.entries ++ entry.toList
    groupStart := some history.entries.length
    released := false
    origin := some receiver
    originPoint := position
    canaryPending := true }

def accept (type : EventType) (entry : Option LogEntry) (history : History Object) :
    History Object :=
  { history with
    entries := history.entries ++ entry.toList
    released := type = .mouseButtonRelease
    canaryPending := true }

end

variable {Object : Type} [DecidableEq Object] (isPrint : QChar → Bool) (keys : KeySequences)

def step (history : History Object) : Logger.Input Object keys.Sequence → History Object
  | .canary => { history with canaryPending := false }
  | .event _ _ _ (.other _) => { history with canaryPending := true }
  | .event scene elapsed receiver (.known (.drop position)) =>
      history.drop (Logger.entryOf elapsed
        (Logger.outputDragAndDropEvent (scene.pathOf history.origin) history.originPoint
          (scene.tree.objectPath receiver) position))
  | .event scene elapsed receiver
        (.known (.mouse .press position globalPosition button buttons modifiers)) =>
      if history.canaryPending then
        history
      else
        history.press receiver position (Logger.entryFor isPrint keys scene elapsed receiver
          (.mouse .press position globalPosition button buttons modifiers))
  | .event scene elapsed receiver (.known qtEvent) =>
      if history.canaryPending then
        history
      else
        history.accept (AppEvent.known qtEvent).type
          (Logger.entryFor isPrint keys scene elapsed receiver qtEvent)

end History

namespace Logger

/-- The step finds the buffer as the events ask for: a press that counts finds it
unused or behind a button release, and a drop that ends a drag finds it in use. -/
def FindsBuffer {Object Sequence : Type} [DecidableEq Object] (logger : Logger Object)
    (history : History Object) : Input Object Sequence → Prop
  | .event _ _ _ (.known (.mouse .press _ _ _ _ _)) =>
      history.canaryPending = false → logger.writer = .dragAndDropBuffer →
        logger.lastEvent = .mouseButtonRelease
  | .event _ _ _ (.known (.drop _)) =>
      history.released = true → history.groupStart ≠ none →
        logger.writer = .dragAndDropBuffer
  | _ => True

/-! ## Writing and the buffer -/

section

variable {Object : Type} {logger : Logger Object}

/-- The records on both devices. -/
def entries (logger : Logger Object) : List LogEntry :=
  Markup.entries logger.device ++ Markup.entries logger.dragAndDropBuffer

/-- Where records are while `groupStart` of them come before the latest press. -/
structure Placed (logger : Logger Object) (entries : List LogEntry)
    (groupStart : Option Nat) : Prop where
  entries_eq : logger.entries = entries
  unused : logger.writer = .socket → Markup.entries logger.dragAndDropBuffer = []
  start : logger.writer = .dragAndDropBuffer →
    groupStart = some (Markup.entries logger.device).length
  used : logger.writer = .dragAndDropBuffer → Markup.entries logger.dragAndDropBuffer ≠ []

theorem write_of_socket (onSocket : logger.writer = .socket) (piece : Markup) :
    logger.write piece =
      { logger with
        device := logger.device ++
          Markup.behindStartTag logger.startTagOpen piece
        startTagOpen := false } := by
  rw [write, onSocket]

theorem write_of_buffer (onBuffer : logger.writer = .dragAndDropBuffer) (piece : Markup) :
    logger.write piece =
      { logger with
        dragAndDropBuffer := logger.dragAndDropBuffer ++
          Markup.behindStartTag logger.startTagOpen piece
        startTagOpen := false } := by
  rw [write, onBuffer]

/-- Destruction writes what is left. -/
theorem entries_destroy (logger : Logger Object) :
    Markup.entries logger.destroy.device = logger.entries := by
  cases target : logger.writer with
  | socket =>
      rw [destroy, write_of_socket target]
      simp [flushDragAndDropBuffer, clearDragAndDropBuffer, entries]
  | dragAndDropBuffer =>
      rw [destroy, write_of_buffer target]
      simp [flushDragAndDropBuffer, clearDragAndDropBuffer, entries]

theorem Placed.write {entries : List LogEntry} {groupStart : Option Nat}
    (placed : logger.Placed entries groupStart) (entry : LogEntry) :
    (logger.write (.entry entry)).Placed (entries ++ [entry]) groupStart := by
  cases target : logger.writer with
  | socket =>
      rw [write_of_socket target]
      constructor
      · simp [Logger.entries, ← placed.entries_eq, placed.unused target]
      · exact placed.unused
      · exact fun onBuffer => absurd (target.symm.trans onBuffer) (by decide)
      · exact fun onBuffer => absurd (target.symm.trans onBuffer) (by decide)
  | dragAndDropBuffer =>
      rw [write_of_buffer target]
      constructor
      · simp [Logger.entries, ← placed.entries_eq]
      · exact fun onSocket => absurd (target.symm.trans onSocket) (by decide)
      · exact placed.start
      · simp

/-- A press begins a group. -/
theorem Placed.startGroup {entries : List LogEntry} {groupStart : Option Nat}
    (placed : logger.Placed entries groupStart) (onSocket : logger.writer = .socket)
    (entry : LogEntry) :
    (logger.startDragAndDropBuffer.write (.entry entry)).Placed (entries ++ [entry])
      (some entries.length) := by
  have onDevice : Markup.entries logger.device = entries := by
    rw [← placed.entries_eq, Logger.entries, placed.unused onSocket, List.append_nil]
  rw [write_of_buffer rfl]
  constructor <;>
    simp [Logger.entries, startDragAndDropBuffer, clearDragAndDropBuffer, onDevice]

/-- A drop takes the place of its group. -/
theorem Placed.stop {entries : List LogEntry} {groupStart : Option Nat}
    (placed : logger.Placed entries groupStart)
    (onBuffer : logger.writer = .dragAndDropBuffer) :
    ∃ start, groupStart = some start ∧
      logger.stopDragAndDropBuffer.Placed (entries.take start) none := by
  refine ⟨_, placed.start onBuffer, ?_⟩
  constructor <;>
    simp [Logger.entries, stopDragAndDropBuffer, clearDragAndDropBuffer,
      ← placed.entries_eq]

theorem Placed.stop_of_socket {entries : List LogEntry} {groupStart : Option Nat}
    (placed : logger.Placed entries groupStart) (onSocket : logger.writer = .socket) :
    logger.stopDragAndDropBuffer.Placed entries groupStart := by
  have onDevice : Markup.entries logger.device = entries := by
    rw [← placed.entries_eq, Logger.entries, placed.unused onSocket, List.append_nil]
  constructor <;>
    simp [Logger.entries, stopDragAndDropBuffer, clearDragAndDropBuffer, onDevice]

/-- Behind a release the buffer is flushed, unless for a drop. -/
theorem Placed.leave {entries : List LogEntry} {groupStart : Option Nat}
    (placed : logger.Placed entries groupStart) {type : EventType} (notDrop : type ≠ .drop) :
    (logger.leaveDragAndDropBuffer type).Placed entries groupStart := by
  rw [leaveDragAndDropBuffer, if_neg notDrop]
  split
  · constructor <;>
      simp [Logger.entries, flushDragAndDropBuffer, stopDragAndDropBuffer,
        clearDragAndDropBuffer, ← placed.entries_eq]
  · exact placed

/-- For a drop the buffer is discarded; it is in use only behind a press. -/
theorem Placed.leave_drop {entries : List LogEntry} {groupStart : Option Nat}
    (placed : logger.Placed entries groupStart)
    (alone : logger.writer = .dragAndDropBuffer → logger.lastEvent ≠ .mouseButtonRelease) :
    (logger.leaveDragAndDropBuffer .drop).Placed entries groupStart := by
  rw [leaveDragAndDropBuffer]
  split
  next released =>
      cases target : logger.writer with
      | socket => exact placed.stop_of_socket target
      | dragAndDropBuffer => exact absurd released (alone target)
  · exact placed

theorem leaveDragAndDropBuffer_of_buffer {type : EventType}
    (onBuffer : (logger.leaveDragAndDropBuffer type).writer = .dragAndDropBuffer) :
    logger.lastEvent ≠ .mouseButtonRelease ∧ logger.leaveDragAndDropBuffer type = logger := by
  rw [leaveDragAndDropBuffer] at onBuffer ⊢
  split at onBuffer
  · split at onBuffer <;> exact nomatch onBuffer
  next notReleased => exact ⟨notReleased, if_neg notReleased⟩

end

/-! ## The cases of the filter -/

section

variable {Object : Type} [DecidableEq Object] (isPrint : QChar → Bool) (keys : KeySequences)
  (scene : Scene Object) (elapsed : Nat) (receiver : Object) (logger : Logger Object)
  (history : History Object)

/-- A logged event that neither ends a drag nor may begin one. -/
def IsOrdinary {Sequence : Type} (qtEvent : QtEvent Sequence) : Prop :=
  (AppEvent.known qtEvent).type ≠ .drop ∧ (AppEvent.known qtEvent).type ≠ .mouseButtonPress

/-- The events by what the filter does with them. -/
theorem event_cases {motive : AppEvent keys.Sequence → Prop}
    (drop : ∀ position, motive (.known (.drop position)))
    (press : ∀ position globalPosition button buttons modifiers,
      motive (.known (.mouse .press position globalPosition button buttons modifiers)))
    (ordinary : ∀ qtEvent, IsOrdinary qtEvent → motive (.known qtEvent))
    (other : ∀ type, motive (.other type)) (event : AppEvent keys.Sequence) : motive event := by
  match event with
  | .other type => exact other type
  | .known (.drop position) => exact drop position
  | .known (.mouse .press position globalPosition button buttons modifiers) =>
      exact press position globalPosition button buttons modifiers
  | .known .close => exact ordinary _ ⟨nofun, nofun⟩
  | .known (.contextMenu ..) => exact ordinary _ ⟨nofun, nofun⟩
  | .known (.focusIn _) => exact ordinary _ ⟨nofun, nofun⟩
  | .known (.key .press ..) => exact ordinary _ ⟨nofun, nofun⟩
  | .known (.key .release ..) => exact ordinary _ ⟨nofun, nofun⟩
  | .known (.mouse .move ..) => exact ordinary _ ⟨nofun, nofun⟩
  | .known (.mouse .release ..) => exact ordinary _ ⟨nofun, nofun⟩
  | .known (.mouse .doubleClick ..) => exact ordinary _ ⟨nofun, nofun⟩
  | .known (.shortcut ..) => exact ordinary _ ⟨nofun, nofun⟩
  | .known (.wheel ..) => exact ordinary _ ⟨nofun, nofun⟩

theorem eventFilter_ignored (event : AppEvent keys.Sequence)
    (ignored : logger.ignoreEvents = true) (notDrop : event.type ≠ .drop) :
    logger.eventFilter isPrint keys scene elapsed receiver event = logger := by
  rw [eventFilter, if_pos ⟨ignored, notDrop⟩]

theorem eventFilter_ordinary (qtEvent : QtEvent keys.Sequence) (ordinary : IsOrdinary qtEvent)
    (heard : logger.ignoreEvents = false) :
    logger.eventFilter isPrint keys scene elapsed receiver (.known qtEvent) =
      ((logger.leaveDragAndDropBuffer (AppEvent.known qtEvent).type).logEvent isPrint keys scene
        elapsed receiver qtEvent).noteEvent (AppEvent.known qtEvent).type := by
  rw [eventFilter, if_neg (by simp [heard])]
  split
  next position same => cases same; exact absurd rfl ordinary.1
  next same => cases same; exact absurd rfl ordinary.2
  next same => cases same; rfl
  next same => cases same

theorem eventFilter_other (type : Nat) (heard : logger.ignoreEvents = false) :
    logger.eventFilter isPrint keys scene elapsed receiver (.other type) =
      (logger.leaveDragAndDropBuffer (.other type)).noteEvent (.other type) := by
  rw [eventFilter, if_neg (by simp [heard])]
  rfl

theorem history_ordinary_ignored (qtEvent : QtEvent keys.Sequence)
    (ordinary : IsOrdinary qtEvent) (ignored : history.canaryPending = true) :
    history.step isPrint keys (.event scene elapsed receiver (.known qtEvent)) = history := by
  rw [History.step.eq_def]
  split
  next same => cases same
  next same => cases same
  next same => cases same; exact absurd rfl ordinary.1
  next same => cases same; exact absurd rfl ordinary.2
  next same => cases same; simp [ignored]

theorem history_ordinary (qtEvent : QtEvent keys.Sequence) (ordinary : IsOrdinary qtEvent)
    (heard : history.canaryPending = false) :
    history.step isPrint keys (.event scene elapsed receiver (.known qtEvent)) =
      history.accept (AppEvent.known qtEvent).type
        (entryFor isPrint keys scene elapsed receiver qtEvent) := by
  rw [History.step.eq_def]
  split
  next same => cases same
  next same => cases same
  next same => cases same; exact absurd rfl ordinary.1
  next same => cases same; exact absurd rfl ordinary.2
  next same => cases same; simp [heard]

end

/-! ## A recorder and the history that it follows -/

/-- A recorder holds the log that the events ask for. -/
structure Follows {Object : Type} (logger : Logger Object) (history : History Object) :
    Prop where
  placed : logger.Placed history.entries history.groupStart
  inside : ∀ start, history.groupStart = some start → start < history.entries.length
  released : logger.writer = .dragAndDropBuffer →
    (logger.lastEvent = .mouseButtonRelease ↔ history.released = true)
  ignoreEvents : logger.ignoreEvents = history.canaryPending
  canaries : logger.canaries = 0 → history.canaryPending = false
  origin : logger.dragOriginWidget = history.origin
  originPoint : logger.dragOriginPoint = history.originPoint

section

variable {Object : Type} {logger : Logger Object} {history : History Object}

theorem follows_new (lastEvent : EventType) (origin : Option Object) (originPoint : Point) :
    (new lastEvent origin originPoint).Follows (History.new origin originPoint) where
  placed := ⟨rfl, fun _ => rfl, nofun, nofun⟩
  inside := nofun
  released := nofun
  ignoreEvents := rfl
  canaries _ := rfl
  origin := rfl
  originPoint := rfl

theorem Placed.transport {entries : List LogEntry} {groupStart : Option Nat}
    (placed : logger.Placed entries groupStart) {other : Logger Object}
    (writer : other.writer = logger.writer) (device : other.device = logger.device)
    (buffer : other.dragAndDropBuffer = logger.dragAndDropBuffer) :
    other.Placed entries groupStart := by
  rcases placed with ⟨entries_eq, unused, start, used⟩
  rw [Logger.entries] at entries_eq
  rw [← writer, ← buffer] at unused used
  rw [← writer, ← device] at start
  rw [← device, ← buffer] at entries_eq
  exact ⟨entries_eq, unused, start, used⟩

theorem Follows.deliverCanary (follows : logger.Follows history) :
    logger.deliverCanary.Follows { history with canaryPending := false } := by
  rw [Logger.deliverCanary]
  split
  next none =>
      have quiet : history.canaryPending = false := follows.canaries none
      exact ⟨follows.placed, follows.inside, follows.released,
        follows.ignoreEvents.trans quiet, fun _ => rfl, follows.origin, follows.originPoint⟩
  next =>
      exact ⟨follows.placed.transport rfl rfl rfl, follows.inside, follows.released, rfl,
        fun _ => rfl, follows.origin, follows.originPoint⟩

/-- The members that neither writing nor leaving the buffer touches. -/
def members (logger : Logger Object) : Bool × Nat × EventType × Option Object × Point :=
  (logger.ignoreEvents, logger.canaries, logger.lastEvent, logger.dragOriginWidget,
    logger.dragOriginPoint)

theorem write_members (logger : Logger Object) (piece : Markup) :
    (logger.write piece).members = logger.members := by
  cases target : logger.writer <;> simp [write, target, members]

theorem write_writer (logger : Logger Object) (piece : Markup) :
    (logger.write piece).writer = logger.writer := by
  cases target : logger.writer <;> simp [write, target]

theorem leave_members (logger : Logger Object) (type : EventType) :
    (logger.leaveDragAndDropBuffer type).members = logger.members := by
  rw [leaveDragAndDropBuffer]
  split
  · split <;> rfl
  · rfl

theorem Follows.other (follows : logger.Follows history) (type : Nat) :
    ((logger.leaveDragAndDropBuffer (.other type)).noteEvent (.other type)).Follows
      { history with canaryPending := true } := by
  have kept := logger.leave_members (.other type)
  simp only [members, Prod.mk.injEq] at kept
  refine ⟨(follows.placed.leave (by simp)).transport rfl rfl rfl, follows.inside, ?_, rfl, nofun,
    kept.2.2.2.1.trans follows.origin, kept.2.2.2.2.trans follows.originPoint⟩
  intro onBuffer
  have stayed : logger.lastEvent ≠ .mouseButtonRelease ∧
      logger.leaveDragAndDropBuffer (.other type) = logger :=
    leaveDragAndDropBuffer_of_buffer onBuffer
  have onBufferBefore : logger.writer = .dragAndDropBuffer := by
    rw [← stayed.2]
    exact onBuffer
  simpa [noteEvent, stayed.1] using follows.released onBufferBefore

end

section

variable {Object : Type} (receiver : Object) {logger : Logger Object} {history : History Object}

/-- What the filter does with a press. -/
def beginDrag (entry : LogEntry) (position : Point) (logger : Logger Object) : Logger Object :=
  ({ logger.startDragAndDropBuffer with
      dragOriginWidget := some receiver, dragOriginPoint := position }.write
    (.entry entry)).noteEvent .mouseButtonPress

theorem beginDrag_eq (entry : LogEntry) (position : Point) (logger : Logger Object) :
    logger.beginDrag receiver entry position =
      { logger with
        writer := .dragAndDropBuffer
        startTagOpen := false
        dragAndDropBuffer := Markup.behindStartTag logger.startTagOpen (.entry entry)
        dragOriginWidget := some receiver
        dragOriginPoint := position
        lastEvent := .mouseButtonPress
        canaries := logger.canaries + 1
        ignoreEvents := true } := by
  rw [beginDrag, write_of_buffer rfl]
  rfl

theorem Follows.press (follows : logger.Follows history) (entry : LogEntry) (position : Point)
    (onSocket : (logger.leaveDragAndDropBuffer .mouseButtonPress).writer = .socket) :
    ((logger.leaveDragAndDropBuffer .mouseButtonPress).beginDrag receiver entry
      position).Follows (history.press receiver position (some entry)) := by
  have placed := (follows.placed.leave (show EventType.mouseButtonPress ≠ .drop by decide)).startGroup
    onSocket entry
  rw [write_of_buffer rfl] at placed
  rw [beginDrag_eq]
  refine ⟨placed.transport rfl rfl rfl, ?_, ?_, rfl, nofun, rfl, rfl⟩
  · intro start found
    cases found
    simp [History.press]
  · simp [History.press]

/-- A press that finds a group in the buffer discards it. -/
theorem press_discards (follows : logger.Follows history) (entry : LogEntry) (position : Point)
    (onBuffer : (logger.leaveDragAndDropBuffer .mouseButtonPress).writer = .dragAndDropBuffer) :
    ((logger.leaveDragAndDropBuffer .mouseButtonPress).beginDrag receiver entry
      position).entries ≠ (history.press receiver position (some entry)).entries := by
  have stayed := (leaveDragAndDropBuffer_of_buffer onBuffer).2
  rw [stayed] at onBuffer ⊢
  rw [beginDrag_eq]
  intro same
  have lost : Markup.entries logger.dragAndDropBuffer = [] := by
    simpa [Logger.entries, History.press, ← follows.placed.entries_eq] using same
  exact follows.placed.used onBuffer lost

/-- What the filter does with a drop. -/
def endDrag (entry : LogEntry) (logger : Logger Object) : Logger Object :=
  { logger.write (.entry entry) with dragOriginWidget := none, dragOriginPoint := ⟨0, 0⟩ }

theorem leave_endDrag (logger : Logger Object) (entry : LogEntry) :
    ((logger.leaveDragAndDropBuffer .drop).endDrag entry).ignoreEvents = logger.ignoreEvents ∧
      ((logger.leaveDragAndDropBuffer .drop).endDrag entry).canaries = logger.canaries ∧
      ((logger.leaveDragAndDropBuffer .drop).endDrag entry).lastEvent = logger.lastEvent := by
  have kept := (logger.leaveDragAndDropBuffer .drop).write_members (.entry entry)
  rw [leave_members] at kept
  simp only [members, Prod.mk.injEq] at kept
  exact ⟨kept.1, kept.2.1, kept.2.2.1⟩

/-- A drop directly behind a button release, while the buffer is in use. -/
theorem Follows.drop_replaces (follows : logger.Follows history) (entry : LogEntry)
    (onBuffer : logger.writer = .dragAndDropBuffer)
    (released : logger.lastEvent = .mouseButtonRelease) :
    ((logger.leaveDragAndDropBuffer .drop).endDrag entry).Follows (history.drop entry) := by
  have behind : history.released = true := (follows.released onBuffer).mp released
  obtain ⟨start, group, placed⟩ := follows.placed.stop onBuffer
  have left : logger.leaveDragAndDropBuffer .drop = logger.stopDragAndDropBuffer := by
    rw [leaveDragAndDropBuffer, if_pos released, if_pos rfl]
  have replaced : history.drop entry =
      { history with
        entries := history.entries.take start ++ [entry], groupStart := none, released := false,
        origin := none, originPoint := ⟨0, 0⟩ } := by
    simp [History.drop, group, behind]
  have kept := logger.leave_endDrag entry
  rw [left] at kept ⊢
  rw [replaced]
  refine ⟨(placed.write entry).transport rfl rfl rfl, nofun, ?_,
    kept.1.trans follows.ignoreEvents, ?_, rfl, rfl⟩
  · intro inUse
    exact nomatch (write_writer _ _).symm.trans inUse
  · intro none
    exact follows.canaries (kept.2.1.symm.trans none)

/-- A drop that ends no drag is one more record. -/
theorem Follows.drop_appends (follows : logger.Follows history) (entry : LogEntry)
    (alone : logger.writer = .dragAndDropBuffer → logger.lastEvent ≠ .mouseButtonRelease)
    (groupless : history.released = true → history.groupStart = none) :
    ((logger.leaveDragAndDropBuffer .drop).endDrag entry).Follows (history.drop entry) := by
  have placed := follows.placed.leave_drop alone
  have appended : history.drop entry =
      { history with
        entries := history.entries ++ [entry], released := false,
        origin := none, originPoint := ⟨0, 0⟩ } := by
    cases behind : history.released with
    | false => simp [History.drop, behind]
    | true => simp [History.drop, behind, groupless behind]
  have kept := logger.leave_endDrag entry
  rw [appended]
  refine ⟨(placed.write entry).transport rfl rfl rfl, ?_, ?_,
    kept.1.trans follows.ignoreEvents, ?_, rfl, rfl⟩
  · intro start found
    have before := follows.inside start found
    simp only [List.length_append]
    exact Nat.lt_add_right _ before
  · intro inUse
    have stayed := leaveDragAndDropBuffer_of_buffer ((write_writer _ _).symm.trans inUse)
    have notReleased : ((logger.leaveDragAndDropBuffer .drop).endDrag entry).lastEvent ≠
        .mouseButtonRelease := by
      rw [kept.2.2]
      exact stayed.1
    exact iff_of_false notReleased nofun
  · intro none
    exact follows.canaries (kept.2.1.symm.trans none)

/-- A drop behind a release that has left the buffer already leaves its group in the
log. -/
theorem drop_keeps_group (follows : logger.Follows history) (entry : LogEntry)
    (onSocket : logger.writer = .socket) (released : history.released = true) {start : Nat}
    (group : history.groupStart = some start) :
    ((logger.leaveDragAndDropBuffer .drop).endDrag entry).entries ≠
      (history.drop entry).entries := by
  have placed := follows.placed.leave_drop
    fun onBuffer => absurd (onSocket.symm.trans onBuffer) (by decide)
  have held := (placed.write entry).entries_eq
  have replaced : (history.drop entry).entries = history.entries.take start ++ [entry] := by
    simp [History.drop, group, released]
  intro same
  have shorter : history.entries ++ [entry] = history.entries.take start ++ [entry] :=
    held.symm.trans (same.trans replaced)
  have lengths := congrArg List.length shorter
  have before := follows.inside start group
  simp only [List.length_append, List.length_take, List.length_singleton] at lengths
  omega

end

section

variable {Object : Type} [DecidableEq Object] (isPrint : QChar → Bool) (keys : KeySequences)
  (scene : Scene Object) (elapsed : Nat) (receiver : Object) {logger : Logger Object}
  {history : History Object}

theorem Placed.logEvent {entries : List LogEntry} {groupStart : Option Nat}
    (placed : logger.Placed entries groupStart) (qtEvent : QtEvent keys.Sequence) :
    (logger.logEvent isPrint keys scene elapsed receiver qtEvent).Placed
      (entries ++ (entryFor isPrint keys scene elapsed receiver qtEvent).toList) groupStart := by
  rw [Logger.logEvent]
  split
  next entry written => simpa [written] using placed.write entry
  next unwritten => simpa [unwritten] using placed

theorem logEvent_members (logger : Logger Object) (qtEvent : QtEvent keys.Sequence) :
    (logger.logEvent isPrint keys scene elapsed receiver qtEvent).members =
      logger.members := by
  rw [Logger.logEvent]
  split
  next entry written => exact logger.write_members (.entry entry)
  next unwritten => rfl

theorem Follows.ordinary (follows : logger.Follows history) (qtEvent : QtEvent keys.Sequence)
    (ordinary : IsOrdinary qtEvent) :
    (((logger.leaveDragAndDropBuffer (AppEvent.known qtEvent).type).logEvent isPrint keys scene
        elapsed receiver qtEvent).noteEvent (AppEvent.known qtEvent).type).Follows
      (history.accept (AppEvent.known qtEvent).type
        (entryFor isPrint keys scene elapsed receiver qtEvent)) := by
  have kept := (logger.leaveDragAndDropBuffer (AppEvent.known qtEvent).type).logEvent_members
    isPrint keys scene elapsed receiver qtEvent
  rw [leave_members] at kept
  simp only [members, Prod.mk.injEq] at kept
  have placed := (follows.placed.leave ordinary.1).logEvent isPrint keys scene elapsed receiver
    qtEvent
  refine ⟨placed.transport rfl rfl rfl, ?_, ?_, rfl, nofun,
    kept.2.2.2.1.trans follows.origin, kept.2.2.2.2.trans follows.originPoint⟩
  · intro start found
    have before := follows.inside start found
    simp only [History.accept, List.length_append]
    exact Nat.lt_add_right _ before
  · simp [noteEvent, History.accept]

theorem eventFilter_press (position : Point) (globalPosition : Option Point)
    (button buttons modifiers : Int32) (heard : logger.ignoreEvents = false) :
    ∃ entry,
      entryFor isPrint keys scene elapsed receiver
          (.mouse .press position globalPosition button buttons modifiers) = some entry ∧
        logger.eventFilter isPrint keys scene elapsed receiver
            (.known (.mouse .press position globalPosition button buttons modifiers)) =
          (logger.leaveDragAndDropBuffer .mouseButtonPress).beginDrag receiver entry position := by
  refine ⟨_, rfl, ?_⟩
  rw [eventFilter, if_neg (by simp [heard])]
  rfl

theorem eventFilter_drop (logger : Logger Object) (position : Point) :
    logger.eventFilter isPrint keys scene elapsed receiver (.known (.drop position)) =
      (logger.leaveDragAndDropBuffer .drop).endDrag
        (entryOf elapsed (outputDragAndDropEvent (scene.pathOf logger.dragOriginWidget)
          logger.dragOriginPoint (scene.tree.objectPath receiver) position)) := by
  have kept := logger.leave_members .drop
  simp only [members, Prod.mk.injEq] at kept
  rw [eventFilter, if_neg (by simp [AppEvent.type]), ← kept.2.2.2.1, ← kept.2.2.2.2]
  rfl

/-! ## Steps and runs -/

theorem Follows.step (follows : logger.Follows history) (input : Input Object keys.Sequence)
    (finds : logger.FindsBuffer history input) :
    (logger.step isPrint keys input).Follows (history.step isPrint keys input) := by
  cases input with
  | canary => exact follows.deliverCanary
  | event scene elapsed receiver event =>
      have heardOr := Bool.eq_false_or_eq_true logger.ignoreEvents
      induction event using event_cases with
      | drop position =>
          rw [Logger.step, eventFilter_drop, History.step, ← follows.origin,
            ← follows.originPoint]
          by_cases ending : logger.writer = .dragAndDropBuffer ∧
              logger.lastEvent = .mouseButtonRelease
          · exact follows.drop_replaces _ ending.1 ending.2
          · refine follows.drop_appends _ (fun onBuffer => not_and.mp ending onBuffer) ?_
            intro released
            by_contra grouped
            have onBuffer := finds released grouped
            exact ending ⟨onBuffer, (follows.released onBuffer).mpr released⟩
      | press position globalPosition button buttons modifiers =>
          rw [Logger.step]
          rcases heardOr with ignored | heard
          · rw [eventFilter_ignored _ _ _ _ _ _ _ ignored (by simp [AppEvent.type]),
              History.step, if_pos (follows.ignoreEvents.symm.trans ignored)]
            exact follows
          · have quiet : history.canaryPending = false := follows.ignoreEvents.symm.trans heard
            obtain ⟨entry, written, filtered⟩ := logger.eventFilter_press isPrint keys scene elapsed
              receiver position globalPosition button buttons modifiers heard
            rw [filtered, History.step, if_neg (by simp [quiet]), written]
            apply follows.press
            cases target : (logger.leaveDragAndDropBuffer .mouseButtonPress).writer with
            | socket => rfl
            | dragAndDropBuffer =>
                have stayed := leaveDragAndDropBuffer_of_buffer target
                rw [stayed.2] at target
                exact absurd (finds quiet target) stayed.1
      | ordinary qtEvent ordinary =>
          rw [Logger.step]
          rcases heardOr with ignored | heard
          · rw [eventFilter_ignored _ _ _ _ _ _ _ ignored ordinary.1,
              history_ordinary_ignored _ _ _ _ _ _ _ ordinary
                (follows.ignoreEvents.symm.trans ignored)]
            exact follows
          · rw [eventFilter_ordinary _ _ _ _ _ _ _ ordinary heard,
              history_ordinary _ _ _ _ _ _ _ ordinary (follows.ignoreEvents.symm.trans heard)]
            exact follows.ordinary _ _ _ _ _ _ ordinary
      | other type =>
          rw [Logger.step, History.step]
          rcases heardOr with ignored | heard
          · rw [eventFilter_ignored _ _ _ _ _ _ _ ignored (by simp [AppEvent.type])]
            have pending : history.canaryPending = true :=
              follows.ignoreEvents.symm.trans ignored
            simpa [← pending] using follows
          · rw [eventFilter_other _ _ _ _ _ _ _ heard]
            exact follows.other type

/-- A step that does not find the buffer as it should spoils the log. -/
theorem Follows.spoiled (follows : logger.Follows history) (input : Input Object keys.Sequence)
    (misses : ¬logger.FindsBuffer history input) :
    (logger.step isPrint keys input).entries ≠ (history.step isPrint keys input).entries := by
  cases input with
  | canary => exact absurd trivial misses
  | event scene elapsed receiver event =>
      induction event using event_cases with
      | drop position =>
          simp only [FindsBuffer, Classical.not_imp] at misses
          obtain ⟨released, grouped, notOnBuffer⟩ := misses
          obtain ⟨start, group⟩ := Option.ne_none_iff_exists'.mp grouped
          rw [Logger.step, eventFilter_drop, History.step, ← follows.origin,
            ← follows.originPoint]
          cases target : logger.writer with
          | socket => exact drop_keeps_group follows _ target released group
          | dragAndDropBuffer => exact absurd target notOnBuffer
      | press position globalPosition button buttons modifiers =>
          simp only [FindsBuffer, Classical.not_imp] at misses
          obtain ⟨quiet, onBuffer, notReleased⟩ := misses
          obtain ⟨entry, written, filtered⟩ := logger.eventFilter_press isPrint keys scene elapsed
            receiver position globalPosition button buttons modifiers
            (follows.ignoreEvents.trans quiet)
          rw [Logger.step, filtered, History.step, if_neg (by simp [quiet]), written]
          apply press_discards receiver follows
          rw [leaveDragAndDropBuffer, if_neg notReleased]
          exact onBuffer
      | ordinary qtEvent ordinary =>
          refine absurd ?_ misses
          rw [FindsBuffer.eq_def]
          split
          next same => cases same; exact absurd rfl ordinary.2
          next same => cases same; exact absurd rfl ordinary.1
          next => trivial
      | other type => exact absurd trivial misses

/-- In every state of a run the log holds what the events ask for exactly when every
step finds the buffer as it should. -/
theorem log_iff_findsBuffer (lastEvent : EventType) (origin : Option Object)
    (originPoint : Point) (inputs : List (Input Object keys.Sequence)) :
    (∀ before after, inputs = before ++ after →
        Markup.entries (before.foldl (Logger.step isPrint keys)
            (new lastEvent origin originPoint)).destroy.device =
          (before.foldl (History.step isPrint keys) (History.new origin originPoint)).entries) ↔
      ∀ before input after, inputs = before ++ input :: after →
        FindsBuffer
          (before.foldl (Logger.step isPrint keys) (new lastEvent origin originPoint))
          (before.foldl (History.step isPrint keys) (History.new origin originPoint)) input := by
  have throughout := always_iff_stepsMeet
    (fun (both : Logger Object × History Object) input =>
      (both.1.step isPrint keys input, both.2.step isPrint keys input))
    (fun both input => FindsBuffer both.1 both.2 input)
    (fun both => both.1.Follows both.2)
    (fun both => Markup.entries both.1.destroy.device = both.2.entries)
    (new lastEvent origin originPoint, History.new origin originPoint)
    (fun both input follows finds => follows.step isPrint keys input finds)
    (fun both follows => (entries_destroy both.1).trans follows.placed.entries_eq)
    (fun both input follows misses same => follows.spoiled isPrint keys input misses
      ((entries_destroy _).symm.trans same))
    (follows_new lastEvent origin originPoint) inputs
  simpa only [StepsMeet, foldl_prod] using throughout

end

/-! ## Two buttons at once -/

/-- A mouse event at a button of `ObjectTree.buttonWindow`, and its canary. -/
def buttonEvent (action : MouseAction) (button : Int32) :
    List (Input (Fin 3) plainSequences.Sequence) :=
  [.event ⟨ObjectTree.buttonWindow, fun _ => none⟩ 10 ObjectTree.firstButton
      (.known (.mouse action ⟨3, 4⟩ none button button 0)),
    .canary]

/-- The second of two buttons that are pressed at once loses the record of the first. -/
theorem secondPress_loses_first :
    ¬∀ inputs : List (Input (Fin 3) plainSequences.Sequence),
      Markup.entries (inputs.foldl (Logger.step (fun _ => true) plainSequences)
          (new (.other 0) none ⟨0, 0⟩)).destroy.device =
        (inputs.foldl (History.step (fun _ => true) plainSequences)
          (History.new none ⟨0, 0⟩)).entries := by
  intro complete
  have same := complete (buttonEvent .press 1 ++ buttonEvent .press 2)
  exact absurd (congrArg List.length same) (by decide)

end Logger

end Hooq
