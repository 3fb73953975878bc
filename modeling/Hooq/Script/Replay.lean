import Hooq.Recording.Records
import Hooq.Script.Parse
import Hooq.Script.RemoteObject

/-!
# From a recorded event to the signal that replays it

An event is recorded as an element, compiled to a script item and called on a remote
object.  This module says for which events the signal that the object raises carries
everything that was recorded.
-/

namespace Hooq

/-- What the recorder writes an element for. -/
inductive Record (Sequence : Type) where
  | event (receiver : Receiver) (qtEvent : QtEvent Sequence)
  | dragAndDrop (source : QString) (sourcePoint : Point) (target : QString) (position : Point)
  deriving DecidableEq, Repr

namespace Record

variable (isPrint : QChar → Bool) (keys : KeySequences)

/-- The element of a record; a drop is recorded as a drag only. -/
def element : Record keys.Sequence → Option Element
  | .event receiver qtEvent => Logger.record isPrint keys receiver qtEvent
  | .dragAndDrop source sourcePoint target position =>
      some (Logger.outputDragAndDropEvent source sourcePoint target position)

/-- The signal with what is recorded. -/
def signal : Record keys.Sequence → Option (Command keys.Sequence)
  | .event receiver .close => some (.close receiver.path)
  | .event receiver (.contextMenu _ position globalPosition modifiers) =>
      some (.contextMenu receiver.path position globalPosition modifiers)
  | .event _ (.drop _) => none
  | .event receiver (.focusIn reason) => some (.setFocus receiver.path reason)
  | .event receiver (.key action key modifiers text autoRepeat count) =>
      some (.key action receiver.path key modifiers (Logger.safeText isPrint text) autoRepeat
        count)
  | .event receiver (.mouse action position _ button buttons modifiers) =>
      some (.mouse action receiver.path position button buttons modifiers)
  | .event receiver (.shortcut sequence id ambiguous) =>
      some (.shortcut receiver.path sequence id ambiguous)
  | .event receiver (.wheel position delta buttons modifiers orientation) =>
      some (.wheel receiver.path position delta buttons modifiers orientation)
  | .dragAndDrop source sourcePoint target position =>
      some (.dragAndDrop source sourcePoint target position)

/-- The signals that the compiled item of a record makes an object raise. -/
def replay (record : Record keys.Sequence) : Option (List (Command keys.Sequence)) := do
  let element ← record.element isPrint keys
  let item ← XmlToQtScript.parseElement element
  return execute keys item

end Record

/-- A signal without the modifiers and without the repetition of a key. -/
def Command.stripped {Sequence : Type} : Command Sequence → Command Sequence
  | .key action path code _ text _ count => .key action path code 0 text false count
  | .mouse action path position button buttons _ =>
      .mouse action path position button buttons 0
  | .contextMenu path position globalPosition _ => .contextMenu path position globalPosition 0
  | .wheel path position delta buttons _ orientation =>
      .wheel path position delta buttons 0 orientation
  | other => other

/-- The record holds nothing that gets lost: no modifier is held and no key repeats. -/
def Record.IsPlain {Sequence : Type} : Record Sequence → Prop
  | .event _ (.key _ _ modifiers _ autoRepeat _) => modifiers = 0 ∧ autoRepeat = false
  | .event _ (.mouse _ _ _ _ _ modifiers) => modifiers = 0
  | .event _ (.contextMenu _ _ _ modifiers) => modifiers = 0
  | .event _ (.wheel _ _ _ modifiers _) => modifiers = 0
  | _ => True

/-- A count is written as a number that an `int` holds. -/
theorem toUShort_int_number (count : UInt16) :
    (QVariant.int (QString.number count.toNat).toInt).toUShort = count := by
  have bound : (count.toNat : Int) < 2 ^ 16 := by
    exact_mod_cast count.toNat_lt
  have fits : (Int32.ofInt count.toNat).toInt = count.toNat := by
    have size : Int32.size = 2 ^ 32 := rfl
    rw [Int32.toInt_ofInt, size]
    exact Int.bmod_eq_of_le (by omega) (by omega)
  have read := QString.toInt_number (Int32.ofInt count.toNat)
  rw [fits] at read
  have remainder : ((count.toNat : Int) % 2 ^ 16).toNat = count.toNat := by omega
  rw [read, QVariant.toUShort, fits, UInt16.ofInt, remainder, UInt16.ofNat_toNat]

section

variable (isPrint : QChar → Bool) (keys : KeySequences)

theorem replay_key (receiver : Receiver) (action : KeyAction) (key modifiers : Int32)
    (text : QString) (autoRepeat : Bool) (count : UInt16) :
    Record.replay isPrint keys
        (.event receiver (.key action key modifiers text autoRepeat count)) =
      some [.key action receiver.path key 0 (Logger.safeText isPrint text) false count] := by
  have read : Record.replay isPrint keys
      (.event receiver (.key action key modifiers text autoRepeat count)) =
        some [.key action receiver.path (intText key).toInt 0 (Logger.safeText isPrint text)
          false (QVariant.int (QString.number count.toNat).toInt).toUShort] := by
    cases action <;> rfl
  rw [read, QString.toInt_number, toUShort_int_number]

theorem replay_mouse (receiver : Receiver) (action : MouseAction) (position : Point)
    (globalPosition : Option Point) (button buttons modifiers : Int32) :
    Record.replay isPrint keys
        (.event receiver (.mouse action position globalPosition button buttons modifiers)) =
      some [.mouse action receiver.path position button buttons 0] := by
  have read : Record.replay isPrint keys
      (.event receiver (.mouse action position globalPosition button buttons modifiers)) =
        some [.mouse action receiver.path
          ⟨(intText position.x).toInt, (intText position.y).toInt⟩ (intText button).toInt
          (intText buttons).toInt 0] := by
    cases action <;> rfl
  rw [read]
  simp only [QString.toInt_number]

theorem replay_contextMenu (receiver : Receiver) (reason : Int32)
    (position globalPosition : Point) (modifiers : Int32) :
    Record.replay isPrint keys
        (.event receiver (.contextMenu reason position globalPosition modifiers)) =
      some [.contextMenu receiver.path position globalPosition 0] := by
  have read : Record.replay isPrint keys
      (.event receiver (.contextMenu reason position globalPosition modifiers)) =
        some [.contextMenu receiver.path
          ⟨(intText position.x).toInt, (intText position.y).toInt⟩
          ⟨(intText globalPosition.x).toInt, (intText globalPosition.y).toInt⟩ 0] := rfl
  rw [read]
  simp only [QString.toInt_number]

theorem replay_wheel (receiver : Receiver) (position : Point) (delta buttons modifiers : Int32)
    (orientation : Orientation) :
    Record.replay isPrint keys
        (.event receiver (.wheel position delta buttons modifiers orientation)) =
      some [.wheel receiver.path position delta buttons 0 orientation] := by
  have read : Record.replay isPrint keys
      (.event receiver (.wheel position delta buttons modifiers orientation)) =
        some [.wheel receiver.path ⟨(intText position.x).toInt, (intText position.y).toInt⟩
          (intText delta).toInt (intText buttons).toInt 0 orientation] := by
    cases orientation <;> rfl
  rw [read]
  simp only [QString.toInt_number]

theorem replay_shortcut (receiver : Receiver) (sequence : keys.Sequence) (id : Int32)
    (ambiguous : Bool) :
    Record.replay isPrint keys (.event receiver (.shortcut sequence id ambiguous)) =
      some [.shortcut receiver.path sequence id ambiguous] := by
  have read : Record.replay isPrint keys (.event receiver (.shortcut sequence id ambiguous)) =
      some [.shortcut receiver.path (keys.fromText (keys.toText sequence)) (intText id).toInt
        ambiguous] := by
    cases ambiguous <;> rfl
  rw [read, keys.fromText_toText, QString.toInt_number]

theorem replay_focusIn (receiver : Receiver) (reason : Int32) :
    Record.replay isPrint keys (.event receiver (.focusIn reason)) =
      some [.setFocus receiver.path reason] := by
  have read : Record.replay isPrint keys (.event receiver (.focusIn reason)) =
      some [.setFocus receiver.path (intText reason).toInt] := rfl
  rw [read, QString.toInt_number]

theorem replay_dragAndDrop (source : QString) (sourcePoint : Point) (target : QString)
    (position : Point) :
    Record.replay isPrint keys (.dragAndDrop source sourcePoint target position) =
      some [.dragAndDrop source sourcePoint target position] := by
  have read : Record.replay isPrint keys (.dragAndDrop source sourcePoint target position) =
      some [.dragAndDrop source ⟨(intText sourcePoint.x).toInt, (intText sourcePoint.y).toInt⟩
        target ⟨(intText position.x).toInt, (intText position.y).toInt⟩] := rfl
  rw [read]
  simp only [QString.toInt_number]

/-- Every record is replayed by one signal, with everything but modifiers and
repetition. -/
theorem replay_eq_stripped (record : Record keys.Sequence) :
    record.replay isPrint keys =
      (record.signal isPrint keys).map fun command => [command.stripped] := by
  cases record with
  | dragAndDrop source sourcePoint target position =>
      exact replay_dragAndDrop isPrint keys source sourcePoint target position
  | event receiver qtEvent =>
      cases qtEvent with
      | close => rfl
      | contextMenu reason position globalPosition modifiers =>
          exact replay_contextMenu isPrint keys receiver reason position globalPosition modifiers
      | drop position => rfl
      | focusIn reason => exact replay_focusIn isPrint keys receiver reason
      | key action code modifiers text autoRepeat count =>
          exact replay_key isPrint keys receiver action code modifiers text autoRepeat count
      | mouse action position globalPosition button buttons modifiers =>
          exact replay_mouse isPrint keys receiver action position globalPosition button buttons
            modifiers
      | shortcut sequence id ambiguous =>
          exact replay_shortcut isPrint keys receiver sequence id ambiguous
      | wheel position delta buttons modifiers orientation =>
          exact replay_wheel isPrint keys receiver position delta buttons modifiers orientation

/-- The signal carries everything that was recorded exactly when no modifier was held
and no key repeated. -/
theorem replay_iff_isPlain (record : Record keys.Sequence) :
    record.replay isPrint keys =
        (record.signal isPrint keys).map (fun command => [command]) ↔ record.IsPlain := by
  rw [replay_eq_stripped]
  cases record with
  | dragAndDrop source sourcePoint target position => exact iff_of_true rfl trivial
  | event receiver qtEvent =>
      cases qtEvent with
      | close | drop | focusIn | shortcut => exact iff_of_true rfl trivial
      | contextMenu | mouse | wheel =>
          simp [Record.signal, Command.stripped, Record.IsPlain, eq_comm]
      | key action code modifiers text autoRepeat count =>
          simp [Record.signal, Command.stripped, Record.IsPlain, eq_comm]

end

/-! ## A click with a modifier -/

/-- A click while Control is held is replayed without it. -/
theorem controlClick_not_replayed :
    ¬∀ record : Record plainSequences.Sequence,
      record.replay (fun _ => true) plainSequences =
        (record.signal (fun _ => true) plainSequences).map fun command => [command] := by
  intro all
  have click := all
    (.event ⟨"window", "QWidget", none⟩ (.mouse .press ⟨3, 4⟩ none 1 1 0x04000000))
  rw [replay_mouse] at click
  simp [Record.signal] at click

end Hooq
