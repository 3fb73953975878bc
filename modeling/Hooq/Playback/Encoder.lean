import Hooq.Qt.Event

/-!
# What the interpreter writes

The slots of the interpreter that a script's remote objects are connected to.
Each writes one element to the application.
-/

namespace Hooq

/-- The commands of a script, with the arguments of the interpreter's slots. -/
inductive Command (Sequence : Type) where
  | key (action : KeyAction) (path : QString) (key modifiers : Int32) (text : QString)
      (autoRepeat : Bool) (count : UInt16)
  | mouse (action : MouseAction) (path : QString) (position : Point)
      (button buttons modifiers : Int32)
  | contextMenu (path : QString) (position globalPosition : Point) (modifiers : Int32)
  | wheel (path : QString) (position : Point) (delta buttons modifiers : Int32)
      (orientation : Orientation)
  | shortcut (path : QString) (sequence : Sequence) (id : Int32) (ambiguous : Bool)
  | setFocus (path : QString) (reason : Int32)
  | close (path : QString)
  | dragAndDrop (sourcePath : QString) (sourcePoint : Point) (targetPath : QString)
      (targetPoint : Point)
  | sleep (msec : Int32)
  deriving DecidableEq, Repr

/-- The numbers of `Qt::Orientation`. -/
def Orientation.toInt32 : Orientation → Int32
  | .horizontal => 1
  | .vertical => 2

namespace Interpreter

def writeKeyAttributes (path : QString) (key modifiers : Int32) (text : QString)
    (autorepeat : Bool) (count : UInt16) : Attributes :=
  [("key", intText key), ("modifiers", intText modifiers), ("text", text),
    ("autorepeat", boolText autorepeat), ("count", QString.number count.toNat), ("target", path)]

def writeMouseAttributes (path : QString) (position : Point)
    (button buttons modifiers : Int32) : Attributes :=
  [("x", intText position.x), ("y", intText position.y), ("button", intText button),
    ("buttons", intText buttons), ("modifiers", intText modifiers), ("target", path)]

def writeKeyPressEvent (path : QString) (key modifiers : Int32) (text : QString)
    (autorepeat : Bool) (count : UInt16) : Element :=
  ⟨"keyPress", writeKeyAttributes path key modifiers text autorepeat count, []⟩

def writeKeyReleaseEvent (path : QString) (key modifiers : Int32) (text : QString)
    (autorepeat : Bool) (count : UInt16) : Element :=
  ⟨"keyRelease", writeKeyAttributes path key modifiers text autorepeat count, []⟩

def writeSetFocusEvent (path : QString) (reason : Int32) : Element :=
  ⟨"focusChanged", [("target", path), ("reason", intText reason)], []⟩

def writeCloseEvent (path : QString) : Element :=
  ⟨"windowClosed", [("target", path)], []⟩

def writeMouseMoveEvent (path : QString) (position : Point)
    (button buttons modifiers : Int32) : Element :=
  ⟨"mouseMove", writeMouseAttributes path position button buttons modifiers, []⟩

def writeMousePressEvent (path : QString) (position : Point)
    (button buttons modifiers : Int32) : Element :=
  ⟨"mouseButtonPress", writeMouseAttributes path position button buttons modifiers, []⟩

def writeMouseReleaseEvent (path : QString) (position : Point)
    (button buttons modifiers : Int32) : Element :=
  ⟨"mouseButtonRelease", writeMouseAttributes path position button buttons modifiers, []⟩

def writeMouseDoubleClickEvent (path : QString) (position : Point)
    (button buttons modifiers : Int32) : Element :=
  ⟨"mouseButtonDoubleClick", writeMouseAttributes path position button buttons modifiers, []⟩

def writeContextMenuEvent (path : QString) (position globalPosition : Point)
    (modifiers : Int32) : Element :=
  ⟨"contextMenu",
    [("x", intText position.x), ("y", intText position.y), ("globalX", intText globalPosition.x),
      ("globalY", intText globalPosition.y), ("modifiers", intText modifiers),
      ("target", path)], []⟩

def writeShortcutEvent (keys : KeySequences) (path : QString) (sequence : keys.Sequence)
    (id : Int32) (ambiguous : Bool) : Element :=
  ⟨"shortcut",
    [("string", keys.toText sequence), ("id", intText id), ("ambiguous", boolText ambiguous),
      ("target", path)], []⟩

def writeWheelEvent (path : QString) (position : Point) (delta buttons modifiers : Int32)
    (orientation : Orientation) : Element :=
  ⟨"mouseWheel",
    [("x", intText position.x), ("y", intText position.y), ("delta", intText delta),
      ("buttons", intText buttons), ("modifiers", intText modifiers),
      ("orientation", intText orientation.toInt32), ("target", path)], []⟩

def writeDragAndDropEvent (sourcePath : QString) (sourcePoint : Point) (targetPath : QString)
    (targetPoint : Point) : Element :=
  ⟨"dragAndDrop",
    [("source", sourcePath), ("sourceX", intText sourcePoint.x), ("sourceY", intText sourcePoint.y),
      ("target", targetPath), ("targetX", intText targetPoint.x),
      ("targetY", intText targetPoint.y)], []⟩

def writeSleep (msec : Int32) : Element :=
  ⟨"msec", [], intText msec⟩

/-- The slot for each command, called with its arguments. -/
def write (keys : KeySequences) : Command keys.Sequence → Element
  | .key .press path key modifiers text autoRepeat count =>
      writeKeyPressEvent path key modifiers text autoRepeat count
  | .key .release path key modifiers text autoRepeat count =>
      writeKeyReleaseEvent path key modifiers text autoRepeat count
  | .mouse .move path position button buttons modifiers =>
      writeMouseMoveEvent path position button buttons modifiers
  | .mouse .press path position button buttons modifiers =>
      writeMousePressEvent path position button buttons modifiers
  | .mouse .release path position button buttons modifiers =>
      writeMouseReleaseEvent path position button buttons modifiers
  | .mouse .doubleClick path position button buttons modifiers =>
      writeMouseDoubleClickEvent path position button buttons modifiers
  | .contextMenu path position globalPosition modifiers =>
      writeContextMenuEvent path position globalPosition modifiers
  | .wheel path position delta buttons modifiers orientation =>
      writeWheelEvent path position delta buttons modifiers orientation
  | .shortcut path sequence id ambiguous => writeShortcutEvent keys path sequence id ambiguous
  | .setFocus path reason => writeSetFocusEvent path reason
  | .close path => writeCloseEvent path
  | .dragAndDrop sourcePath sourcePoint targetPath targetPoint =>
      writeDragAndDropEvent sourcePath sourcePoint targetPath targetPoint
  | .sleep msec => writeSleep msec

end Interpreter

end Hooq
