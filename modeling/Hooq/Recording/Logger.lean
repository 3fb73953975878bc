import Hooq.Library.Run
import Hooq.Objects.Tree
import Hooq.Recording.Records

/-!
# The recorder

The recorder sees every event of the application.  It writes the records to the
socket, or to a buffer from a button press until it is known whether the press
started a drag.  An event that is logged leaves a canary in the event queue; until
the canary is delivered, only drops are looked at.
-/

namespace Hooq

/-- `QEvent::Type`, where the program tells the types apart. -/
inductive EventType where
  | close
  | contextMenu
  | drop
  | focusIn
  | keyPress
  | keyRelease
  | mouseMove
  | mouseButtonPress
  | mouseButtonRelease
  | mouseButtonDblClick
  | shortcut
  | wheel
  | other (type : Nat)
  deriving DecidableEq, Repr

/-- An event of the application: one of those that the recorder knows, or one of
another type. -/
inductive AppEvent (Sequence : Type) where
  | known (qtEvent : QtEvent Sequence)
  | other (type : Nat)
  deriving DecidableEq, Repr

namespace AppEvent

/-- `QEvent::type`. -/
def type {Sequence : Type} : AppEvent Sequence → EventType
  | .known .close => .close
  | .known (.contextMenu ..) => .contextMenu
  | .known (.drop _) => .drop
  | .known (.focusIn _) => .focusIn
  | .known (.key .press ..) => .keyPress
  | .known (.key .release ..) => .keyRelease
  | .known (.mouse .move ..) => .mouseMove
  | .known (.mouse .press ..) => .mouseButtonPress
  | .known (.mouse .release ..) => .mouseButtonRelease
  | .known (.mouse .doubleClick ..) => .mouseButtonDblClick
  | .known (.shortcut ..) => .shortcut
  | .known (.wheel ..) => .wheel
  | .other type => .other type

end AppEvent

/-- The application at the moment of an event. -/
structure Scene (Object : Type) [DecidableEq Object] where
  tree : ObjectTree Object
  focusProxy : Object → Option Object

namespace Scene

variable {Object : Type} [DecidableEq Object] (scene : Scene Object)

/-- `Logger::focusObject`. -/
def focusObject (receiver : Object) : Option Object :=
  if scene.tree.isWidget receiver then
    some ((scene.focusProxy receiver).getD receiver)
  else
    none

/-- The arguments of `outputEvent` that name objects.  Only a focus change passes
the original receiver, and it may have no receiver. -/
def receiverOf (receiver : Object) : EventType → Option Receiver
  | .focusIn =>
      (scene.focusObject receiver).map fun focused =>
        ⟨scene.tree.objectPath focused, (scene.tree.metaObject focused).className,
          if focused = receiver then none else some (scene.tree.objectPath receiver)⟩
  | _ =>
      some ⟨scene.tree.objectPath receiver, (scene.tree.metaObject receiver).className, none⟩

/-- `ObjectHookName::objectPath` of a pointer that may be null. -/
def pathOf (object : Option Object) : QString :=
  (object.map scene.tree.objectPath).getD []

end Scene

/-- What is recorded of one event: the element for the time and the event's own. -/
structure LogEntry where
  msec : Element
  event : Element
  deriving DecidableEq, Repr

/-- The pieces of a log.  The start tag of the document stays open until something
is written behind it. -/
inductive Markup where
  | startTag
  | startTagEnd
  | entry (entry : LogEntry)
  | documentEnd
  deriving DecidableEq, Repr

namespace Markup

/-- The records among the pieces of a log. -/
def entries (pieces : List Markup) : List LogEntry :=
  pieces.filterMap fun
    | .entry logged => some logged
    | _ => none

@[simp] theorem entries_nil : entries [] = [] := rfl

@[simp] theorem entries_append (front back : List Markup) :
    entries (front ++ back) = entries front ++ entries back :=
  List.filterMap_append

/-- A piece as it is written: whatever comes first ends the start tag. -/
def behindStartTag (startTagOpen : Bool) (piece : Markup) : List Markup :=
  if startTagOpen then [.startTagEnd, piece] else [piece]

@[simp] theorem entries_entry (startTagOpen : Bool) (logged : LogEntry) :
    entries (behindStartTag startTagOpen (.entry logged)) = [logged] := by
  cases startTagOpen <;> rfl

@[simp] theorem entries_documentEnd (startTagOpen : Bool) :
    entries (behindStartTag startTagOpen .documentEnd) = [] := by
  cases startTagOpen <;> rfl

end Markup

/-- The device of the XML writer. -/
inductive LogDevice where
  | socket
  | dragAndDropBuffer
  deriving DecidableEq, Repr

/-- `Logger`, with the canaries in the event queue and what its two devices hold. -/
structure Logger (Object : Type) where
  ignoreEvents : Bool
  canaries : Nat
  lastEvent : EventType
  dragOriginWidget : Option Object
  dragOriginPoint : Point
  writer : LogDevice
  startTagOpen : Bool
  device : List Markup
  dragAndDropBuffer : List Markup
  deriving DecidableEq

namespace Logger

section

variable {Object : Type}

/-- The constructor, which leaves three members as they are. -/
def new (lastEvent : EventType) (dragOriginWidget : Option Object) (dragOriginPoint : Point) :
    Logger Object where
  ignoreEvents := false
  canaries := 0
  lastEvent := lastEvent
  dragOriginWidget := dragOriginWidget
  dragOriginPoint := dragOriginPoint
  writer := .socket
  startTagOpen := true
  device := [.startTag]
  dragAndDropBuffer := []

/-! ## The drag buffer -/

def clearDragAndDropBuffer (logger : Logger Object) : Logger Object :=
  { logger with dragAndDropBuffer := [] }

def startDragAndDropBuffer (logger : Logger Object) : Logger Object :=
  { logger.clearDragAndDropBuffer with writer := .dragAndDropBuffer }

def flushDragAndDropBuffer (logger : Logger Object) : Logger Object :=
  { logger with device := logger.device ++ logger.dragAndDropBuffer }.clearDragAndDropBuffer

def stopDragAndDropBuffer (logger : Logger Object) : Logger Object :=
  { logger with writer := .socket }.clearDragAndDropBuffer

/-! ## Writing -/

/-- Writing through the XML writer. -/
def write (logger : Logger Object) (piece : Markup) : Logger Object :=
  let pieces := Markup.behindStartTag logger.startTagOpen piece
  match logger.writer with
  | .socket => { logger with device := logger.device ++ pieces, startTagOpen := false }
  | .dragAndDropBuffer =>
      { logger with
        dragAndDropBuffer := logger.dragAndDropBuffer ++ pieces, startTagOpen := false }

/-- The record of an event that comes `elapsed` milliseconds after the one before. -/
def entryOf (elapsed : Nat) (event : Element) : LogEntry :=
  ⟨⟨"msec", [], QString.number elapsed⟩, event⟩

/-- The destructor. -/
def destroy (logger : Logger Object) : Logger Object :=
  (logger.write .documentEnd).flushDragAndDropBuffer

end

section

variable {Object : Type} [DecidableEq Object] (isPrint : QChar → Bool) (keys : KeySequences)

/-- What `outputEvent` records of an event other than a drop, if anything. -/
def entryFor (scene : Scene Object) (elapsed : Nat) (receiver : Object)
    (qtEvent : QtEvent keys.Sequence) : Option LogEntry := do
  let receiver ← scene.receiverOf receiver (AppEvent.known qtEvent).type
  let event ← record isPrint keys receiver qtEvent
  return entryOf elapsed event

/-- `outputEvent` at a logger: nothing without a receiver. -/
def logEvent (scene : Scene Object) (elapsed : Nat) (receiver : Object)
    (qtEvent : QtEvent keys.Sequence) (logger : Logger Object) : Logger Object :=
  match entryFor isPrint keys scene elapsed receiver qtEvent with
  | some entry => logger.write (.entry entry)
  | none => logger

/-- `outputDragAndDropEvent` at a logger, which forgets the origin of the drag. -/
def logDragAndDrop (scene : Scene Object) (elapsed : Nat) (receiver : Object)
    (position : Point) (logger : Logger Object) : Logger Object :=
  { logger.write (.entry (entryOf elapsed
      (outputDragAndDropEvent (scene.pathOf logger.dragOriginWidget) logger.dragOriginPoint
        (scene.tree.objectPath receiver) position))) with
    dragOriginWidget := none, dragOriginPoint := ⟨0, 0⟩ }

/-- The end of `eventFilter`: the type is kept and a canary posted. -/
def noteEvent (type : EventType) (logger : Logger Object) : Logger Object :=
  { logger with lastEvent := type, canaries := logger.canaries + 1, ignoreEvents := true }

/-- The start of `eventFilter`: behind a button release the buffer is given up. -/
def leaveDragAndDropBuffer (type : EventType) (logger : Logger Object) : Logger Object :=
  if logger.lastEvent = .mouseButtonRelease then
    if type = .drop then
      logger.stopDragAndDropBuffer
    else
      logger.flushDragAndDropBuffer.stopDragAndDropBuffer
  else
    logger

/-- `eventFilter`, for an event other than a canary. -/
def eventFilter (scene : Scene Object) (elapsed : Nat) (receiver : Object)
    (event : AppEvent keys.Sequence) (logger : Logger Object) : Logger Object :=
  if logger.ignoreEvents ∧ event.type ≠ .drop then
    logger
  else
    let logger := logger.leaveDragAndDropBuffer event.type
    match event with
    | .known (.drop position) => logger.logDragAndDrop scene elapsed receiver position
    | .known (.mouse .press position globalPosition button buttons modifiers) =>
        ({ logger.startDragAndDropBuffer with
            dragOriginWidget := some receiver, dragOriginPoint := position }
          |>.logEvent isPrint keys scene elapsed receiver
            (.mouse .press position globalPosition button buttons modifiers))
          |>.noteEvent .mouseButtonPress
    | .known qtEvent =>
        (logger.logEvent isPrint keys scene elapsed receiver qtEvent).noteEvent
          (AppEvent.known qtEvent).type
    | .other type => logger.noteEvent (.other type)

end

/-- The delivery of a canary: the filter ignores it, and its end lets events through. -/
def deliverCanary {Object : Type} (logger : Logger Object) : Logger Object :=
  if logger.canaries = 0 then
    logger
  else
    { logger with canaries := logger.canaries - 1, ignoreEvents := false }

/-- What happens to a recorder. -/
inductive Input (Object : Type) [DecidableEq Object] (Sequence : Type) where
  | event (scene : Scene Object) (elapsed : Nat) (receiver : Object)
      (event : AppEvent Sequence)
  | canary

def step {Object : Type} [DecidableEq Object] (isPrint : QChar → Bool) (keys : KeySequences)
    (logger : Logger Object) : Input Object keys.Sequence → Logger Object
  | .event scene elapsed receiver event =>
      logger.eventFilter isPrint keys scene elapsed receiver event
  | .canary => logger.deliverCanary

end Logger

end Hooq
