import Hooq.Objects.Lookup
import Hooq.Qt.Event

/-!
# What the player queues

The player turns each element of the document into entries of its queue.  The
build is that for X11, where a drag begins with flushes of Qt's own queue.
-/

namespace Hooq

/-- The work that an entry of the queue stands for. -/
inductive Task (Sequence : Type) where
  | ack
  | dump (objectPath : QString)
  | drop (objectPath : QString) (position globalPosition : Point)
  | focus (objectPath : QString) (reason : Int32)
  | object (objectPath : QString) (qtEvent : QtEvent Sequence)
  | pick
  | sleep (msec : Int32)
  | flush
  | close (objectPath : QString)
  deriving DecidableEq, Repr

/-- `Hooq::Event`: an entry of the player's queue. -/
structure Event (Sequence : Type) where
  task : Task Sequence
  ack : Bool
  tag : QString
  deriving DecidableEq, Repr

namespace Event

variable {Sequence : Type}

/-- The constructors of the event classes. -/
def new (task : Task Sequence) : Event Sequence := ⟨task, true, []⟩

def withoutAck (event : Event Sequence) : Event Sequence := { event with ack := false }

def addTag (tag : QString) (event : Event Sequence) : Event Sequence := { event with tag := tag }

end Event

/-- The application that the player runs in. -/
structure Application (Object : Type) [DecidableEq Object] where
  tree : ObjectTree Object
  mapToGlobal : Object → Point → Point
  startDragTime : Int32
  startDragDistance : Int32

namespace Application

variable {Object : Type} [DecidableEq Object] (application : Application Object)

/-- `qobject_cast<QWidget*>(findObject(path))`. -/
def findWidget (path : QString) : Option Object :=
  (application.tree.findObject path).filter application.tree.isWidget

end Application

namespace Player

def noButton : Int32 := 0

def leftButton : Int32 := 1

def noModifier : Int32 := 0

def otherFocusReason : Int32 := 7

section

variable {Sequence : Type} {Object : Type} [DecidableEq Object]
  (application : Application Object)

/-- A mouse event of a drag, posted without an acknowledgement. -/
def dragMove (path : QString) (position : Point) (globalPosition : Option Point) :
    Event Sequence :=
  .withoutAck (.new (.object path
    (.mouse .move position globalPosition noButton leftButton noModifier)))

/-- The entries of a drag from a point of one widget to a point of another, which is
at `globalPoint` of the screen. -/
def dragSteps (sourcePath : QString) (sourcePoint : Point) (targetPath : QString)
    (targetPoint globalPoint : Point) : List (Event Sequence) :=
  [.withoutAck (.new .flush),
    .addTag "dnd_sourceFocus" (.withoutAck (.new (.focus sourcePath otherFocusReason))),
    .withoutAck (.new .flush),
    .addTag "dnd_click" (.withoutAck (.new (.object sourcePath
      (.mouse .press sourcePoint none leftButton leftButton noModifier)))),
    .addTag "dnd_nudge" (dragMove sourcePath (sourcePoint + ⟨0, 1⟩) none),
    .addTag "dnd_waitBeforeDrag"
      (.withoutAck (.new (.sleep (application.startDragTime + 1)))),
    .addTag "dnd_initialDrag"
      (dragMove sourcePath (sourcePoint + ⟨0, application.startDragDistance + 1⟩) none),
    .addTag "dnd_mainDrag" (dragMove targetPath targetPoint (some globalPoint)),
    .addTag "dnd_drop" (.withoutAck (.new (.drop targetPath targetPoint globalPoint))),
    .withoutAck (.new .flush),
    .new .ack]

/-- `postDragAndDrop`.  The widget that is dropped on is used without a check. -/
def postDragAndDrop (attributes : Attributes) : Option (List (Event Sequence)) :=
  let sourcePath := attributes.value "source"
  let sourcePoint : Point := ⟨(attributes.value "sourceX").toInt, (attributes.value "sourceY").toInt⟩
  let targetPath := attributes.value "target"
  let targetPoint : Point := ⟨(attributes.value "targetX").toInt, (attributes.value "targetY").toInt⟩
  (application.findWidget targetPath).map fun widget =>
    dragSteps application sourcePath sourcePoint targetPath targetPoint
      (application.mapToGlobal widget targetPoint)

def postSleepEvent (text : QString) : Event Sequence :=
  .new (.sleep text.toInt)

def postDumpEvent (attributes : Attributes) : Event Sequence :=
  .new (.dump (attributes.value "target"))

def postPickEvent : Event Sequence :=
  .new .pick

def postCloseEvent (attributes : Attributes) : Event Sequence :=
  .new (.close (attributes.value "target"))

def postFocusEvent (attributes : Attributes) : Event Sequence :=
  .new (.focus (attributes.value "target") (attributes.value "reason").toInt)

def postContextMenuEvent (attributes : Attributes) : Event Sequence :=
  .new (.object (attributes.value "target") (.contextMenu
    (attributes.value "reason").toInt
    ⟨(attributes.value "x").toInt, (attributes.value "y").toInt⟩
    ⟨(attributes.value "globalX").toInt, (attributes.value "globalY").toInt⟩
    (attributes.value "modifiers").toInt))

def postKeyEvent (action : KeyAction) (attributes : Attributes) : Event Sequence :=
  .new (.object (attributes.value "target") (.key action
    (attributes.value "key").toInt
    (attributes.value "modifiers").toInt
    (attributes.value "text")
    (attributes.value "isAutoRepeat" = QString.ofString "true")
    (attributes.value "count").toUShort))

def postMouseEvent (action : MouseAction) (attributes : Attributes) : Event Sequence :=
  .new (.object (attributes.value "target") (.mouse action
    ⟨(attributes.value "x").toInt, (attributes.value "y").toInt⟩
    none
    (attributes.value "button").toInt
    (attributes.value "buttons").toInt
    (attributes.value "modifiers").toInt))

def postWheelEvent (attributes : Attributes) : Event Sequence :=
  .new (.object (attributes.value "target") (.wheel
    ⟨(attributes.value "x").toInt, (attributes.value "y").toInt⟩
    (attributes.value "delta").toInt
    (attributes.value "buttons").toInt
    (attributes.value "modifiers").toInt
    (if attributes.value "orientation" = QString.ofString "vertical" then .vertical
      else .horizontal)))

def postShortcutEvent (keys : KeySequences) (attributes : Attributes) : Event keys.Sequence :=
  .new (.object (attributes.value "target") (.shortcut
    (keys.fromText (attributes.value "string"))
    (attributes.value "id").toInt
    (attributes.value "ambiguous" = QString.ofString "true")))

end

/-- What the function that `handleElement` calls for a name adds to the queue.  `text` is
what `readElementText` returns; there is no result where a null pointer is used. -/
def postElement (keys : KeySequences) {Object : Type} [DecidableEq Object]
    (application : Application Object) (name : QString) (attributes : Attributes)
    (text : QString) : Option (List (Event keys.Sequence)) :=
  if name = QString.ofString "msec" then
    some [postSleepEvent text]
  else if name = QString.ofString "dump" then
    some [postDumpEvent attributes]
  else if name = QString.ofString "pick" then
    some [postPickEvent]
  else if name = QString.ofString "dragAndDrop" then
    postDragAndDrop application attributes
  else if name = QString.ofString "windowClosed" then
    some [postCloseEvent attributes]
  else if name = QString.ofString "contextMenu" then
    some [postContextMenuEvent attributes]
  else if name = QString.ofString "focusChanged" then
    some [postFocusEvent attributes]
  else if name = QString.ofString "keyPress" then
    some [postKeyEvent .press attributes]
  else if name = QString.ofString "keyRelease" then
    some [postKeyEvent .release attributes]
  else if name = QString.ofString "mouseMove" then
    some [postMouseEvent .move attributes]
  else if name = QString.ofString "mouseButtonPress" then
    some [postMouseEvent .press attributes]
  else if name = QString.ofString "mouseButtonDoubleClick" then
    some [postMouseEvent .doubleClick attributes]
  else if name = QString.ofString "mouseButtonRelease" then
    some [postMouseEvent .release attributes]
  else if name = QString.ofString "mouseWheel" then
    some [postWheelEvent attributes]
  else if name = QString.ofString "shortcut" then
    some [postShortcutEvent keys attributes]
  else
    some []

/-- Decoding a whole element. -/
def decode (keys : KeySequences) {Object : Type} [DecidableEq Object]
    (application : Application Object) (element : Element) :
    Option (List (Event keys.Sequence)) :=
  postElement keys application element.name element.attributes element.text

end Player

end Hooq
