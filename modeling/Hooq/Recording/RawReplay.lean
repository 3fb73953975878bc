import Hooq.Playback.Wire
import Hooq.Recording.Records

/-!
# Replaying a recording without a script

A recording is also a document that the player can read.  Each element leads back to
the event that it was written for, up to two things that are not recorded: characters
that are not printable, and where on the screen the mouse was.  The modifiers of a key
event are those that the event reports when it is recorded, and those that it is made
with when it is replayed.
-/

namespace Hooq

/-- The element that the logger writes for an event of a receiver; a drop is recorded
with the origin of the drag. -/
def Logger.element (isPrint : QChar → Bool) (keys : KeySequences) (receiver : Receiver)
    (source : QString) (sourcePoint : Point) (event : QtEvent keys.Sequence) : Option Element :=
  match event with
  | .drop position => some (outputDragAndDropEvent source sourcePoint receiver.path position)
  | event => record isPrint keys receiver event

namespace QtEvent

variable {Sequence : Type}

/-- The event with the printable characters of its text. -/
def printable (isPrint : QChar → Bool) : QtEvent Sequence → QtEvent Sequence
  | .key action code modifiers text autoRepeat count =>
      .key action code modifiers (text.filter isPrint) autoRepeat count
  | event => event

/-- The event without the position of the mouse on the screen. -/
def withoutScreen : QtEvent Sequence → QtEvent Sequence
  | .mouse action position _ button buttons modifiers =>
      .mouse action position none button buttons modifiers
  | event => event

/-- The entry for an event of the object with a path. -/
def task (path : QString) : QtEvent Sequence → Task Sequence
  | .close => .close path
  | .focusIn reason => .focus path reason
  | event => .object path event

/-- The entries that a recorded event comes back as.  A drop comes back as a drag from
its origin, if the widget that is dropped on is there. -/
def replayed (isPrint : QChar → Bool) {Object : Type} [DecidableEq Object]
    (application : Application Object) (path source : QString) (sourcePoint : Point)
    (event : QtEvent Sequence) : Option (List (Event Sequence)) :=
  match event with
  | .drop position =>
      (application.findWidget path).map fun widget =>
        Player.dragSteps application source sourcePoint path position
          (application.mapToGlobal widget position)
  | event => some [.new ((event.printable isPrint).withoutScreen.task path)]

end QtEvent

namespace Player

variable (isPrint : QChar → Bool) (keys : KeySequences) {Object : Type} [DecidableEq Object]
  (application : Application Object)

theorem postKeyEvent_keyEventAttributes (action : KeyAction) (receiver : Receiver)
    (key modifiers : Int32) (text : QString) (autoRepeat : Bool) (count : UInt16) :
    (postKeyEvent action (Logger.outputEvent receiver "keyPress"
      (Logger.keyEventAttributes isPrint key modifiers text autoRepeat count)).attributes :
        Event keys.Sequence) =
      .new (.object receiver.path
        (.key action key modifiers (text.filter isPrint) autoRepeat count)) := by
  have read : (postKeyEvent action (Logger.outputEvent receiver "keyPress"
      (Logger.keyEventAttributes isPrint key modifiers text autoRepeat count)).attributes :
        Event keys.Sequence) =
      .new (.object receiver.path (.key action (intText key).toInt (intText modifiers).toInt
        (text.filter isPrint) (boolText autoRepeat = QString.ofString "true")
        (QString.number count.toNat).toUShort)) := rfl
  rw [read, QString.toInt_number, QString.toInt_number, QString.toUShort_number]
  simp only [boolText_eq_true, Bool.decide_eq_true]

theorem postMouseEvent_mouseEventAttributes (action : MouseAction) (receiver : Receiver)
    (position : Point) (button buttons modifiers : Int32) :
    (postMouseEvent action (Logger.outputEvent receiver "mouseMove"
      (Logger.mouseEventAttributes position button buttons modifiers)).attributes :
        Event keys.Sequence) =
      .new (.object receiver.path (.mouse action position none button buttons modifiers)) := by
  have read : (postMouseEvent action (Logger.outputEvent receiver "mouseMove"
      (Logger.mouseEventAttributes position button buttons modifiers)).attributes :
        Event keys.Sequence) =
      .new (.object receiver.path (.mouse action
        ⟨(intText position.x).toInt, (intText position.y).toInt⟩ none
        (intText button).toInt (intText buttons).toInt (intText modifiers).toInt)) := rfl
  rw [read]
  simp only [QString.toInt_number]

/-- What the logger writes for an event, of any kind and with any values, the player
decodes into the event that is replayed. -/
theorem decode_element (receiver : Receiver) (source : QString) (sourcePoint : Point)
    (event : QtEvent keys.Sequence) :
    (Logger.element isPrint keys receiver source sourcePoint event).bind
        (decode keys application) =
      event.replayed isPrint application receiver.path source sourcePoint := by
  have single {posted expected : Event keys.Sequence} (same : posted = expected) :
      some [posted] = some [expected] := by rw [same]
  cases event with
  | close => rfl
  | contextMenu reason position globalPosition modifiers =>
      have read : (Logger.element isPrint keys receiver source sourcePoint
          (.contextMenu reason position globalPosition modifiers)).bind
            (decode keys application) =
          some [.new (.object receiver.path (.contextMenu (intText reason).toInt
            ⟨(intText position.x).toInt, (intText position.y).toInt⟩
            ⟨(intText globalPosition.x).toInt, (intText globalPosition.y).toInt⟩
            (intText modifiers).toInt))] := rfl
      rw [read]
      simp only [QString.toInt_number]
      rfl
  | drop position =>
      have read : (Logger.element isPrint keys receiver source sourcePoint
          (.drop position)).bind (decode keys application) =
          (application.findWidget receiver.path).map fun widget =>
            dragSteps application source
              ⟨(intText sourcePoint.x).toInt, (intText sourcePoint.y).toInt⟩ receiver.path
              ⟨(intText position.x).toInt, (intText position.y).toInt⟩
              (application.mapToGlobal widget
                ⟨(intText position.x).toInt, (intText position.y).toInt⟩) := rfl
      rw [read]
      simp only [QString.toInt_number]
      rfl
  | focusIn reason =>
      have read : (Logger.element isPrint keys receiver source sourcePoint
          (.focusIn reason)).bind (decode keys application) =
          some [.new (.focus receiver.path (intText reason).toInt)] := rfl
      rw [read, QString.toInt_number]
      rfl
  | key action code modifiers text autoRepeat count =>
      have posted := postKeyEvent_keyEventAttributes isPrint keys action receiver code modifiers
        text autoRepeat count
      cases action <;> exact single posted
  | mouse action position globalPosition button buttons modifiers =>
      have posted := postMouseEvent_mouseEventAttributes keys action receiver position button
        buttons modifiers
      cases action <;> exact single posted
  | shortcut sequence id ambiguous =>
      have read : (Logger.element isPrint keys receiver source sourcePoint
          (.shortcut sequence id ambiguous)).bind (decode keys application) =
          some [.new (.object receiver.path (.shortcut (keys.fromText (keys.toText sequence))
            (intText id).toInt (boolText ambiguous = QString.ofString "true")))] := rfl
      rw [read, keys.fromText_toText, QString.toInt_number]
      simp only [boolText_eq_true, Bool.decide_eq_true]
      rfl
  | wheel position delta buttons modifiers orientation =>
      have word : (if (if orientation = .vertical then QString.ofString "vertical"
            else QString.ofString "horizontal") = QString.ofString "vertical"
          then Orientation.vertical else .horizontal) = orientation := by
        cases orientation <;> decide
      have read : (Logger.element isPrint keys receiver source sourcePoint
          (.wheel position delta buttons modifiers orientation)).bind (decode keys application) =
          some [.new (.object receiver.path (.wheel
            ⟨(intText position.x).toInt, (intText position.y).toInt⟩
            (intText delta).toInt (intText buttons).toInt (intText modifiers).toInt
            (if (if orientation = .vertical then QString.ofString "vertical"
                else QString.ofString "horizontal") = QString.ofString "vertical"
              then .vertical else .horizontal)))] := rfl
      rw [read, word]
      simp only [QString.toInt_number]
      rfl

/-- A click comes back without its position on the screen. -/
theorem click_loses_screen :
    ¬∀ event : QtEvent plainSequences.Sequence, (∀ position, event ≠ .drop position) →
      (Logger.element (fun _ => true) plainSequences ⟨"window", "QDialog", none⟩ [] ⟨0, 0⟩
          event).bind (decode plainSequences buttonApplication) =
        some [.new ((event.printable fun _ => true).task "window")] := by
  intro all
  have whole := all (.mouse .press ⟨3, 4⟩ (some ⟨103, 104⟩) 1 1 0) nofun
  exact absurd whole (by decide +kernel)

end Player

end Hooq
