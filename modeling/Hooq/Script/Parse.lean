import Hooq.Qt.Event
import Hooq.Script.Item

/-!
# From elements to script items

The parse functions of the compiler, one for each kind of element in a recording.
-/

namespace Hooq

namespace XmlToQtScript

/-- Whether an attribute holds the word that stands for yes. -/
def isTrue (text : QString) : Bool :=
  text = QString.ofString "true"

/-- The path in an attribute.  A null string is a null variant, so that an item without the
attribute has no target. -/
def targetOf (attributes : Attributes) (name : QString) : Target :=
  match attributes.lookup name with
  | some path => .path path
  | none => .null

def parseMsec (element : Element) : Item :=
  .ofMethod "msleep" (.int element.text.toInt)

def parseFocusEvent (element : Element) : Item :=
  let attributes := element.attributes
  let parameters := QVariantMap.empty
    |>.insert "reason" (.focusReason (attributes.value "reason").toInt)
  ⟨targetOf attributes "target", attributes.value "targetClass", "setFocus",
    .map parameters⟩

def parseCloseEvent (element : Element) : Item :=
  let attributes := element.attributes
  ⟨targetOf attributes "target", attributes.value "targetClass", "close", .invalid⟩

def parseKeyEvent (element : Element) : Item :=
  let attributes := element.attributes
  let call : QString :=
    if element.name = QString.ofString "keyPress" then "pressKey"
    else if element.name = QString.ofString "keyRelease" then "releaseKey"
    else []
  let parameters := QVariantMap.empty
    |>.insert "key" (.key (attributes.value "key").toInt)
    |>.insert "text" (.string (attributes.value "text"))
    |>.insert "autoRepeat" (.bool (isTrue (attributes.value "isAutoRepeat")))
    |>.insert "count" (.int (attributes.value "count").toInt)
    |>.insert "modifiers" (.keyboardModifiers (attributes.value "modifiers").toInt)
  ⟨targetOf attributes "target", attributes.value "targetClass", call, .map parameters⟩

def parseMouseEvent (element : Element) : Item :=
  let attributes := element.attributes
  let call : QString :=
    if element.name = QString.ofString "mouseMove" then "moveMouse"
    else if element.name = QString.ofString "mouseButtonDoubleClick" then "doubleClickMouseButton"
    else if element.name = QString.ofString "mouseButtonPress" then "pressMouseButton"
    else if element.name = QString.ofString "mouseButtonRelease" then "releaseMouseButton"
    else []
  let parameters := QVariantMap.empty
    |>.insert "x" (.int (attributes.value "x").toInt)
    |>.insert "y" (.int (attributes.value "y").toInt)
    |>.insert "button" (.mouseButton (attributes.value "button").toInt)
    |>.insert "buttons" (.mouseButtons (attributes.value "buttons").toInt)
    |>.insert "modifiers" (.keyboardModifiers (attributes.value "modifiers").toInt)
  ⟨targetOf attributes "target", attributes.value "targetClass", call, .map parameters⟩

def parseContextMenuEvent (element : Element) : Item :=
  let attributes := element.attributes
  let parameters := QVariantMap.empty
    |>.insert "x" (.int (attributes.value "x").toInt)
    |>.insert "y" (.int (attributes.value "y").toInt)
    |>.insert "globalX" (.int (attributes.value "globalX").toInt)
    |>.insert "globalY" (.int (attributes.value "globalY").toInt)
    |>.insert "modifiers" (.keyboardModifiers (attributes.value "modifiers").toInt)
  ⟨targetOf attributes "target", attributes.value "targetClass", "contextMenu",
    .map parameters⟩

/-- Two items, one nested as a parameter of the other. -/
def parseDragAndDropEvent (element : Element) : Item :=
  let attributes := element.attributes
  let dragParameters := QVariantMap.empty
    |>.insert "x" (.int (attributes.value "sourceX").toInt)
    |>.insert "y" (.int (attributes.value "sourceY").toInt)
  let parameters := QVariantMap.empty
    |>.insert "x" (.int (attributes.value "targetX").toInt)
    |>.insert "y" (.int (attributes.value "targetY").toInt)
    |>.insert "dragged"
      (.item (targetOf attributes "source") [] "drag" (.map dragParameters))
  ⟨targetOf attributes "target", [], "drop", .map parameters⟩

def parseWheelEvent (element : Element) : Item :=
  let attributes := element.attributes
  let orientation : Orientation :=
    if attributes.value "orientation" = QString.ofString "horizontal" then .horizontal
    else .vertical
  let parameters := QVariantMap.empty
    |>.insert "x" (.int (attributes.value "x").toInt)
    |>.insert "y" (.int (attributes.value "y").toInt)
    |>.insert "buttons" (.mouseButtons (attributes.value "buttons").toInt)
    |>.insert "modifiers" (.keyboardModifiers (attributes.value "modifiers").toInt)
    |>.insert "orientation" (.orientation orientation)
    |>.insert "delta" (.int (attributes.value "delta").toInt)
  ⟨targetOf attributes "target", attributes.value "targetClass", "mouseWheel",
    .map parameters⟩

def parseShortcutEvent (element : Element) : Item :=
  let attributes := element.attributes
  let parameters := QVariantMap.empty
    |>.insert "string" (.string (attributes.value "string"))
    |>.insert "id" (.int (attributes.value "id").toInt)
    |>.insert "ambiguous" (.bool (isTrue (attributes.value "ambiguous")))
  ⟨targetOf attributes "target", attributes.value "targetClass", "shortcut",
    .map parameters⟩

/-- The choice that `parseHooq` makes; other elements are skipped. -/
def parseElement (element : Element) : Option Item :=
  if element.name = QString.ofString "msec" then
    some (parseMsec element)
  else if element.name = QString.ofString "windowClosed" then
    some (parseCloseEvent element)
  else if element.name = QString.ofString "focusChanged" then
    some (parseFocusEvent element)
  else if element.name = QString.ofString "keyPress" ∨
      element.name = QString.ofString "keyRelease" then
    some (parseKeyEvent element)
  else if element.name = QString.ofString "mouseMove" ∨
      element.name = QString.ofString "mouseButtonPress" ∨
      element.name = QString.ofString "mouseButtonRelease" ∨
      element.name = QString.ofString "mouseButtonDoubleClick" then
    some (parseMouseEvent element)
  else if element.name = QString.ofString "mouseWheel" then
    some (parseWheelEvent element)
  else if element.name = QString.ofString "shortcut" then
    some (parseShortcutEvent element)
  else if element.name = QString.ofString "contextMenu" then
    some (parseContextMenuEvent element)
  else if element.name = QString.ofString "dragAndDrop" then
    some (parseDragAndDropEvent element)
  else
    none

/-- What the parse functions return for an element. -/
inductive Parses (element : Element) : Item → Prop where
  | msec : Parses element (parseMsec element)
  | windowClosed : Parses element (parseCloseEvent element)
  | focusChanged : Parses element (parseFocusEvent element)
  | key : Parses element (parseKeyEvent element)
  | mouse : Parses element (parseMouseEvent element)
  | mouseWheel : Parses element (parseWheelEvent element)
  | shortcut : Parses element (parseShortcutEvent element)
  | contextMenu : Parses element (parseContextMenuEvent element)
  | dragAndDrop : Parses element (parseDragAndDropEvent element)

theorem parses_of_parseElement {element : Element} {item : Item}
    (parsed : parseElement element = some item) : Parses element item := by
  have taken {condition : Prop} [Decidable condition] {first : Item} {rest : Option Item}
      (here : Parses element first) (there : rest = some item → Parses element item)
      (found : (if condition then some first else rest) = some item) : Parses element item := by
    split at found
    next =>
      cases found
      exact here
    next => exact there found
  revert parsed
  refine taken .msec (taken .windowClosed (taken .focusChanged (taken .key (taken .mouse
    (taken .mouseWheel (taken .shortcut (taken .contextMenu (taken .dragAndDrop ?_))))))))
  exact nofun

end XmlToQtScript

end Hooq
