import Hooq.Qt.Event

/-!
# What the recorder writes for an event

The elements of a recording.  Which characters are printable enters through
`isPrint`.
-/

namespace Hooq

/-- What an event is recorded for: the path and the class of its receiver, and the
path of the object that it was sent to, if that is another one. -/
structure Receiver where
  path : QString
  className : QString
  original : Option QString
  deriving DecidableEq, Repr

namespace Logger

section

variable (isPrint : QChar → Bool)

/-- `Logger::safeText`. -/
def safeText (text : QString) : QString :=
  text.filter isPrint

def contextMenuEventAttributes (reason : Int32) (position globalPosition : Point)
    (modifiers : Int32) : Attributes :=
  [("x", intText position.x), ("y", intText position.y), ("globalX", intText globalPosition.x),
    ("globalY", intText globalPosition.y), ("reason", intText reason),
    ("modifiers", intText modifiers)]

def keyEventAttributes (key modifiers : Int32) (text : QString) (autoRepeat : Bool)
    (count : UInt16) : Attributes :=
  [("key", intText key), ("modifiers", intText modifiers), ("text", safeText isPrint text),
    ("isAutoRepeat", boolText autoRepeat), ("count", QString.number count.toNat)]

def mouseEventAttributes (position : Point) (button buttons modifiers : Int32) : Attributes :=
  [("x", intText position.x), ("y", intText position.y), ("button", intText button),
    ("buttons", intText buttons), ("modifiers", intText modifiers)]

def wheelEventAttributes (position : Point) (delta buttons modifiers : Int32)
    (orientation : Orientation) : Attributes :=
  [("x", intText position.x), ("y", intText position.y), ("delta", intText delta),
    ("buttons", intText buttons), ("modifiers", intText modifiers),
    ("orientation", if orientation = .vertical then "vertical" else "horizontal")]

def shortcutEventAttributes (keys : KeySequences) (sequence : keys.Sequence) (id : Int32)
    (ambiguous : Bool) : Attributes :=
  [("string", keys.toText sequence), ("id", intText id), ("ambiguous", boolText ambiguous)]

def focusEventAttributes (reason : Int32) : Attributes :=
  [("reason", intText reason)]

/-- The element that `outputEvent` writes behind the time. -/
def outputEvent (receiver : Receiver) (event : QString) (attributes : Attributes) : Element :=
  let target : Attributes := [("target", receiver.path), ("targetClass", receiver.className)]
  let original : Attributes :=
    match receiver.original with
    | some original => [("originalTarget", original)]
    | none => []
  ⟨event, attributes ++ target ++ original, []⟩

/-- The element that `outputDragAndDropEvent` writes behind the time. -/
def outputDragAndDropEvent (source : QString) (sourcePoint : Point) (target : QString)
    (position : Point) : Element :=
  ⟨"dragAndDrop",
    [("source", source), ("sourceX", intText sourcePoint.x), ("sourceY", intText sourcePoint.y),
      ("target", target), ("targetX", intText position.x), ("targetY", intText position.y)], []⟩

/-- The element for an event other than a drop: the cases of `eventFilter`. -/
def record (keys : KeySequences) (receiver : Receiver) : QtEvent keys.Sequence → Option Element
  | .close => some (outputEvent receiver "windowClosed" [])
  | .contextMenu reason position globalPosition modifiers =>
      some (outputEvent receiver "contextMenu"
        (contextMenuEventAttributes reason position globalPosition modifiers))
  | .drop _ => none
  | .focusIn reason => some (outputEvent receiver "focusChanged" (focusEventAttributes reason))
  | .key .press key modifiers text autoRepeat count =>
      some (outputEvent receiver "keyPress"
        (keyEventAttributes isPrint key modifiers text autoRepeat count))
  | .key .release key modifiers text autoRepeat count =>
      some (outputEvent receiver "keyRelease"
        (keyEventAttributes isPrint key modifiers text autoRepeat count))
  | .mouse .move position _ button buttons modifiers =>
      some (outputEvent receiver "mouseMove"
        (mouseEventAttributes position button buttons modifiers))
  | .mouse .press position _ button buttons modifiers =>
      some (outputEvent receiver "mouseButtonPress"
        (mouseEventAttributes position button buttons modifiers))
  | .mouse .release position _ button buttons modifiers =>
      some (outputEvent receiver "mouseButtonRelease"
        (mouseEventAttributes position button buttons modifiers))
  | .mouse .doubleClick position _ button buttons modifiers =>
      some (outputEvent receiver "mouseButtonDoubleClick"
        (mouseEventAttributes position button buttons modifiers))
  | .shortcut sequence id ambiguous =>
      some (outputEvent receiver "shortcut"
        (shortcutEventAttributes keys sequence id ambiguous))
  | .wheel position delta buttons modifiers orientation =>
      some (outputEvent receiver "mouseWheel"
        (wheelEventAttributes position delta buttons modifiers orientation))

end

end Logger

end Hooq
