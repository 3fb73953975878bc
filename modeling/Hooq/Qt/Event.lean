import Hooq.Qt.Variant

/-!
# Qt events and the elements that carry them

The events that the recorder sees and the player raises, and the XML elements
that they are written as.
-/

namespace Hooq

/-- `QPoint`. -/
structure Point where
  x : Int32
  y : Int32
  deriving DecidableEq, Repr

instance : Add Point := ⟨fun first second => ⟨first.x + second.x, first.y + second.y⟩⟩

inductive KeyAction where
  | press
  | release
  deriving DecidableEq, Repr

inductive MouseAction where
  | move
  | press
  | release
  | doubleClick
  deriving DecidableEq, Repr

/-- `QKeySequence` and its text form. -/
structure KeySequences where
  Sequence : Type
  toText : Sequence → QString
  fromText : QString → Sequence
  fromText_toText : ∀ sequence, fromText (toText sequence) = sequence

/-- Key sequences that are their own text. -/
def plainSequences : KeySequences :=
  ⟨QString, id, id, fun _ => rfl⟩

instance : DecidableEq plainSequences.Sequence :=
  inferInstanceAs (DecidableEq QString)

/-- The events of Qt that the program tells apart.  Buttons, modifiers and reasons
are the values of their enumerations.  A mouse event without a global position takes
that of the cursor. -/
inductive QtEvent (Sequence : Type) where
  | close
  | contextMenu (reason : Int32) (position globalPosition : Point) (modifiers : Int32)
  | drop (position : Point)
  | focusIn (reason : Int32)
  | key (action : KeyAction) (key modifiers : Int32) (text : QString) (autoRepeat : Bool)
      (count : UInt16)
  | mouse (action : MouseAction) (position : Point) (globalPosition : Option Point)
      (button buttons modifiers : Int32)
  | shortcut (sequence : Sequence) (id : Int32) (ambiguous : Bool)
  | wheel (position : Point) (delta buttons modifiers : Int32) (orientation : Orientation)
  deriving DecidableEq, Repr

/-! ## Elements -/

/-- `QXmlStreamAttributes`. -/
abbrev Attributes := List (QString × QString)

namespace Attributes

/-- `QXmlStreamAttributes::value`: empty when there is no such attribute. -/
def value (attributes : Attributes) (name : QString) : QString :=
  (attributes.lookup name).getD []

end Attributes

/-- An element without child elements. -/
structure Element where
  name : QString
  attributes : Attributes
  text : QString
  deriving DecidableEq, Repr

/-- The text of a C++ `bool` in an attribute. -/
def boolText (value : Bool) : QString :=
  if value then QString.ofString "true" else QString.ofString "false"

theorem boolText_eq_true (value : Bool) :
    (boolText value = QString.ofString "true") ↔ value = true := by
  cases value <;> decide

/-- The text of a C++ `int` in an attribute. -/
abbrev intText (value : Int32) : QString :=
  QString.number value.toInt

end Hooq
