import Hooq.Qt.Text

/-!
# Variants

The values that script parameters and dumped properties are carried in.  A
variant holds one type exactly: asking for another user type gives that type's
default value, also where the two types are an enumeration and the set of flags
made of it.
-/

namespace Hooq

/-- `Qt::Orientation`. -/
inductive Orientation where
  | horizontal
  | vertical
  deriving DecidableEq, Repr

/-- What a script item is called on: nothing, the object at a path, or a script
variable. -/
inductive Target where
  | null
  | path (path : QString)
  | variable (name : QString)
  deriving DecidableEq, Repr

mutual

inductive QVariant where
  | invalid
  | bool (value : Bool)
  | int (value : Int32)
  | string (value : QString)
  | map (value : QVariantMap)
  | focusReason (value : Int32)
  | key (value : Int32)
  | mouseButton (value : Int32)
  | mouseButtons (value : Int32)
  | orientation (value : Orientation)
  | keyboardModifier (value : Int32)
  | keyboardModifiers (value : Int32)
  | variable (name : QString)
  | item (target : Target) (targetClass method : QString) (parameters : QVariant)
  deriving DecidableEq, Repr

/-- The entries of a `QMap`, by ascending key. -/
inductive QVariantMap where
  | empty
  | entry (key : QString) (value : QVariant) (rest : QVariantMap)
  deriving DecidableEq, Repr

end

namespace QVariantMap

/-- `QMap::value`: an invalid variant stands for an absent key. -/
def value (map : QVariantMap) (key : QString) : QVariant :=
  match map with
  | .empty => .invalid
  | .entry first found rest => if first = key then found else rest.value key

/-- `QMap::contains`. -/
def contains (map : QVariantMap) (key : QString) : Bool :=
  match map with
  | .empty => false
  | .entry first _ rest => first = key || rest.contains key

/-- `QMap::insert`. -/
def insert (map : QVariantMap) (key : QString) (inserted : QVariant) : QVariantMap :=
  match map with
  | .empty => .entry key inserted .empty
  | .entry first found rest =>
      if first = key then
        .entry key inserted rest
      else if key < first then
        .entry key inserted (.entry first found rest)
      else
        .entry first found (rest.insert key inserted)

/-- `QMap::remove`. -/
def remove (map : QVariantMap) (key : QString) : QVariantMap :=
  match map with
  | .empty => .empty
  | .entry first found rest =>
      if first = key then rest.remove key else .entry first found (rest.remove key)

@[simp] theorem value_insert_self (map : QVariantMap) (key : QString) (inserted : QVariant) :
    (map.insert key inserted).value key = inserted := by
  induction map using QVariantMap.rec (motive_1 := fun _ => True) with
  | empty => simp [insert, value]
  | entry first found rest _ ih =>
      rw [insert]
      split
      · simp [value]
      next different =>
        split
        · simp [value]
        · simp [value, different, ih]
  | _ => trivial

theorem value_insert_of_ne {map : QVariantMap} {key other : QString} {inserted : QVariant}
    (different : key ≠ other) : (map.insert key inserted).value other = map.value other := by
  induction map using QVariantMap.rec (motive_1 := fun _ => True) with
  | empty => simp [insert, value, different]
  | entry first found rest _ ih =>
      rw [insert]
      split
      next same => simp [value, same, different]
      · split
        · simp [value, different]
        · simp [value, ih]
  | _ => trivial

end QVariantMap

namespace QVariant

/-- `QVariant::toInt`; no user type converts to a number. -/
def toInt : QVariant → Int32
  | .int value => value
  | .bool value => if value then 1 else 0
  | .string value => value.toInt
  | _ => 0

/-- `QVariant::toBool`; a text is false when it is empty, `0` or `false`. -/
def toBool : QVariant → Bool
  | .bool value => value
  | .int value => value ≠ 0
  | .string value =>
      let lower := value.map fun character =>
        if 65 ≤ character && character ≤ 90 then character + 32 else character
      value ≠ [] ∧ lower ≠ QString.ofString "0" ∧ lower ≠ QString.ofString "false"
  | _ => false

/-- `QVariant::toString`. -/
def toText : QVariant → QString
  | .string value => value
  | .int value => QString.number value.toInt
  | .bool value => if value then "true" else "false"
  | _ => []

/-- `QVariant::toMap`. -/
def toMap : QVariant → QVariantMap
  | .map value => value
  | _ => .empty

/-! `QVariant::value` at the types that the program asks for. -/

def toUShort : QVariant → UInt16
  | .int value => UInt16.ofInt value.toInt
  | .string value => value.toUShort
  | _ => 0

def toFocusReason : QVariant → Int32
  | .focusReason value => value
  | _ => 0

def toKey : QVariant → Int32
  | .key value => value
  | _ => 0

def toMouseButton : QVariant → Int32
  | .mouseButton value => value
  | _ => 0

def toMouseButtons : QVariant → Int32
  | .mouseButtons value => value
  | _ => 0

def toOrientation : QVariant → Orientation
  | .orientation value => value
  | _ => .horizontal

def toKeyboardModifier : QVariant → Int32
  | .keyboardModifier value => value
  | _ => 0

def toKeyboardModifiers : QVariant → Int32
  | .keyboardModifiers value => value
  | _ => 0

end QVariant

end Hooq
