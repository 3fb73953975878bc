import Hooq.Qt.PlaceMarkers
import Hooq.Script.Passes

/-!
# From items to script text

The last step of the compiler prints each item as a statement.  The texts of the parts
are put into templates with place markers, one after the other.  The names of keys come
from Qt's meta object, which is a parameter.
-/

namespace Hooq

namespace XmlToQtScript

/-! ## Enumerations -/

/-- A `switch` over the values of an enumeration. -/
def enumeratorString (names : List (Int32 × QString)) (otherwise : QString) (value : Int32) :
    QString :=
  (names.lookup value).getD otherwise

def stringForMouseButton : Int32 → QString :=
  enumeratorString
    [(0x01, "Qt.LeftButton"), (0x02, "Qt.RightButton"), (0x04, "Qt.MidButton"),
      (0x08, "Qt.XButton1"), (0x10, "Qt.XButton2")]
    "Qt.NoButton"

def stringForModifier : Int32 → QString :=
  enumeratorString
    [(0x02000000, "Qt.ShiftModifier"), (0x04000000, "Qt.ControlModifier"),
      (0x08000000, "Qt.AltModifier"), (0x10000000, "Qt.MetaModifier"),
      (0x20000000, "Qt.KeypadModifier"), (0x40000000, "Qt.GroupSwitchModifier")]
    "Qt.NoModifier"

def stringForFocusReason : Int32 → QString :=
  enumeratorString
    [(0, "Qt.MouseFocusReason"), (1, "Qt.TabFocusReason"), (2, "Qt.BacktabFocusReason"),
      (3, "Qt.ActiveWindowFocusReason"), (4, "Qt.PopupFocusReason"),
      (5, "Qt.ShortcutFocusReason"), (6, "Qt.MenuBarFocusReason"), (7, "Qt.OtherFocusReason")]
    "Qt.OtherFocusReason"

/-- The bits that the loops over flags test. -/
def bits : List Int32 :=
  (List.range 32).map fun position => 1 <<< Int32.ofNat position

/-- The loops over the bits of a set of flags. -/
def flagsString (stringFor : Int32 → QString) (flags : Int32) : QString :=
  let out := (bits.filter fun bit => flags &&& bit ≠ 0).map stringFor
  Library.Separator.join " | " (if out = [] then [stringFor 0] else out)

def stringForMouseButtons : Int32 → QString :=
  flagsString stringForMouseButton

def stringForModifiers : Int32 → QString :=
  flagsString stringForModifier

/-! ## Values and statements -/

/-- `QVariant::isNull`, for the variants that items hold. -/
def isNull : QVariant → Bool
  | .invalid => true
  | _ => false

section

variable (tables : CharacterTables) (keyName : Int32 → Option QString)

/-- The text that `serialize` makes of an item with the given parts.  Items without a
method are left out. -/
def statement (target : Target) (method : QString) (parameters : QVariant)
    (parametersText suffix : QString) : Option QString :=
  if method = [] then
    none
  else
    match target with
    | .null =>
        if isNull parameters then
          some (method ++ suffix)
        else
          some (tables.arg (tables.arg "%1(%2)" method) parametersText ++ suffix)
    | .variable name =>
        some (tables.arg (tables.arg (tables.arg "%1.%2(%3)" name) method) parametersText ++ suffix)
    | .path path =>
        some (tables.arg (tables.arg (tables.arg "objectFromPath(\"%1\").%2(%3)" path) method)
          parametersText ++ suffix)

mutual

/-- `parametersString`.  A key without a name has a null name, which is empty. -/
def parametersString : QVariant → QString
  | .invalid => []
  | .bool value => if value then "true" else "false"
  | .int value => QString.number value.toInt
  | .string value => QString.ofString "\"" ++ escapeString value ++ QString.ofString "\""
  | .map value =>
      QString.ofString "\x7b" ++ Library.Separator.join ", " (entryStrings value) ++
        QString.ofString "\x7d"
  | .focusReason value => stringForFocusReason value
  | .key value => QString.ofString "Qt." ++ (keyName value).getD []
  | .mouseButton value => stringForMouseButton value
  | .mouseButtons value => stringForMouseButtons value
  | .orientation value =>
      match value with
      | .horizontal => "Qt.Horizontal"
      | .vertical => "Qt.Vertical"
  | .keyboardModifier value => stringForModifier value
  | .keyboardModifiers value => stringForModifiers value
  | .variable name => name
  | .item target _ method parameters =>
      (statement tables target method parameters (parametersString parameters) []).getD []

/-- The loop over the entries of a map. -/
def entryStrings : QVariantMap → List QString
  | .empty => []
  | .entry key value rest =>
      tables.arg (tables.arg "\"%1\": %2" (escapeString key)) (parametersString value) ::
        entryStrings rest

end

/-- The statement for one item. -/
def serializeItem (isStatement : Bool) (item : Item) : Option QString :=
  statement tables item.target item.method item.parameters
    (parametersString tables keyName item.parameters) (if isStatement then ";" else [])

/-- `serialize`. -/
def serialize (items : List Item) (isStatement : Bool) : QString :=
  Library.Separator.join "\n" (items.filterMap (serializeItem tables keyName isStatement))

end

end XmlToQtScript

end Hooq
