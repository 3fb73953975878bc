import Mathlib.Data.Rat.Floor
import Hooq.Playback.Encoder
import Hooq.Script.Item

/-!
# The methods of a remote object

The slots that a script calls on the object for a path.  Each raises signals, which
the interpreter sends on as commands.
-/

namespace Hooq

namespace RemoteObject

section

variable {Sequence : Type} (path : QString) (parameters : QVariantMap)

/-- The modifiers are asked for as a single modifier. -/
def modifiers : Int32 :=
  (parameters.value "modifiers").toKeyboardModifier

def position : Point :=
  ⟨(parameters.value "x").toInt, (parameters.value "y").toInt⟩

def raiseMouseEvent (action : MouseAction) : Command Sequence :=
  .mouse action path (position parameters) (parameters.value "button").toMouseButton
    (parameters.value "buttons").toMouseButtons (modifiers parameters)

def doubleClickMouseButton : List (Command Sequence) :=
  [raiseMouseEvent path parameters .doubleClick]

/-- `qRound`. -/
def qRound (value : Rat) : Int :=
  if 0 ≤ value then
    ⌊value + 1 / 2⌋
  else
    let below := ⌈value - 1⌉
    ⌊value - below + 1 / 2⌋ + below

/-- `QPoint::manhattanLength`. -/
def manhattanLength (point : Point) : Int32 :=
  (if point.x < 0 then -point.x else point.x) + (if point.y < 0 then -point.y else point.y)

/-- The coordinate of a step on the way, in rational numbers. -/
def stepCoordinate (origin difference length : Int32) (index : Nat) : Int32 :=
  Int32.ofInt (qRound (origin.toInt + (difference.toInt / length.toInt : Rat) * index))

/-- A movement, or all the steps of a simplified one. -/
def moveMouse : List (Command Sequence) :=
  if parameters.contains "duration" = false then
    [raiseMouseEvent path parameters .move]
  else
    let duration := (parameters.value "duration").toInt
    let origin : Point :=
      ⟨(parameters.value "originX").toInt, (parameters.value "originY").toInt⟩
    let destination : Point :=
      ⟨(parameters.value "destinationX").toInt, (parameters.value "destinationY").toInt⟩
    let stepParameters := parameters.remove "duration" |>.remove "originX" |>.remove "originY"
      |>.remove "destinationX" |>.remove "destinationY"
    let difference : Point := ⟨destination.x - origin.x, destination.y - origin.y⟩
    let length := manhattanLength difference
    if length = 0 then
      []
    else
      let interval := duration / length
      (List.range (length.toInt + 1).toNat).flatMap fun index =>
        let step := stepParameters
          |>.insert "x" (.int (stepCoordinate origin.x difference.x length index))
          |>.insert "y" (.int (stepCoordinate origin.y difference.y length index))
        [raiseMouseEvent path step .move, .sleep interval]

def pressMouseButton : List (Command Sequence) :=
  [raiseMouseEvent path parameters .press]

def releaseMouseButton : List (Command Sequence) :=
  [raiseMouseEvent path parameters .release]

def contextMenu : List (Command Sequence) :=
  [.contextMenu path (position parameters)
    ⟨(parameters.value "globalX").toInt, (parameters.value "globalY").toInt⟩
    (modifiers parameters)]

def raiseKeyEvent (action : KeyAction) : Command Sequence :=
  .key action path (parameters.value "key").toKey (modifiers parameters)
    (parameters.value "text").toText (parameters.value "autorepeat").toBool
    (parameters.value "count").toUShort

def pressKey : List (Command Sequence) :=
  [raiseKeyEvent path parameters .press]

def releaseKey : List (Command Sequence) :=
  [raiseKeyEvent path parameters .release]

def close : List (Command Sequence) :=
  [.close path]

def setFocus : List (Command Sequence) :=
  [.setFocus path (parameters.value "reason").toFocusReason]

def mouseWheel : List (Command Sequence) :=
  [.wheel path (position parameters) (parameters.value "delta").toInt
    (parameters.value "buttons").toMouseButtons (modifiers parameters)
    (parameters.value "orientation").toOrientation]

/-- `drag`: an object that says where the drag starts. -/
def drag : QVariantMap :=
  QVariantMap.empty
    |>.insert "path" (.string path)
    |>.insert "x" (.int (parameters.value "x").toInt)
    |>.insert "y" (.int (parameters.value "y").toInt)

def drop : List (Command Sequence) :=
  let source := (parameters.value "dragged").toMap
  [.dragAndDrop (source.value "path").toText (position source) path (position parameters)]

end

def shortcut (keys : KeySequences) (path : QString) (parameters : QVariantMap) :
    List (Command keys.Sequence) :=
  [.shortcut path (keys.fromText (parameters.value "string").toText)
    (parameters.value "id").toInt (parameters.value "ambiguous").toBool]

end RemoteObject

/-- A parameter as the script engine hands it to a method: unchanged, but for a nested
call of `drag`, which is replaced by what it returns. -/
def evaluate : QVariant → QVariant
  | .item (.path path) targetClass method parameters =>
      if method = QString.ofString "drag" then
        .map (RemoteObject.drag path parameters.toMap)
      else
        .item (.path path) targetClass method parameters
  | other => other

/-- The parameters of a call, each evaluated. -/
def evaluateMap : QVariantMap → QVariantMap
  | .empty => .empty
  | .entry key value rest => .entry key (evaluate value) (evaluateMap rest)

/-- The signals that a statement makes the object for its path raise. -/
def execute (keys : KeySequences) (item : Item) : List (Command keys.Sequence) :=
  match item.target with
  | .path path =>
      let parameters := evaluateMap item.parameters.toMap
      if item.method = QString.ofString "close" then
        RemoteObject.close path
      else if item.method = QString.ofString "setFocus" then
        RemoteObject.setFocus path parameters
      else if item.method = QString.ofString "pressKey" then
        RemoteObject.pressKey path parameters
      else if item.method = QString.ofString "releaseKey" then
        RemoteObject.releaseKey path parameters
      else if item.method = QString.ofString "moveMouse" then
        RemoteObject.moveMouse path parameters
      else if item.method = QString.ofString "pressMouseButton" then
        RemoteObject.pressMouseButton path parameters
      else if item.method = QString.ofString "releaseMouseButton" then
        RemoteObject.releaseMouseButton path parameters
      else if item.method = QString.ofString "doubleClickMouseButton" then
        RemoteObject.doubleClickMouseButton path parameters
      else if item.method = QString.ofString "contextMenu" then
        RemoteObject.contextMenu path parameters
      else if item.method = QString.ofString "mouseWheel" then
        RemoteObject.mouseWheel path parameters
      else if item.method = QString.ofString "shortcut" then
        RemoteObject.shortcut keys path parameters
      else if item.method = QString.ofString "drop" then
        RemoteObject.drop path parameters
      else
        []
  | _ => []

end Hooq
