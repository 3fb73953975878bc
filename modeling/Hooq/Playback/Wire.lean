import Hooq.Playback.Decoder
import Hooq.Playback.Encoder

/-!
# From the interpreter to the player's queue

Which commands of a script arrive in the player's queue with the arguments that
they were sent with.
-/

namespace Hooq

variable {Object : Type} [DecidableEq Object]

namespace Command

variable {Sequence : Type} (application : Application Object)

/-- The entries say what the command says, with all its arguments. -/
def Delivers : Command Sequence → List (Event Sequence) → Prop
  | .key action path code modifiers text autoRepeat count, events =>
      events = [.new (.object path (.key action code modifiers text autoRepeat count))]
  | .mouse action path position button buttons modifiers, events =>
      events = [.new (.object path (.mouse action position none button buttons modifiers))]
  | .contextMenu path position globalPosition modifiers, events =>
      ∃ reason, events =
        [.new (.object path (.contextMenu reason position globalPosition modifiers))]
  | .wheel path position delta buttons modifiers orientation, events =>
      events = [.new (.object path (.wheel position delta buttons modifiers orientation))]
  | .shortcut path sequence id ambiguous, events =>
      events = [.new (.object path (.shortcut sequence id ambiguous))]
  | .setFocus path reason, events => events = [.new (.focus path reason)]
  | .close path, events => events = [.new (.close path)]
  | .dragAndDrop sourcePath sourcePoint targetPath targetPoint, events =>
      ∃ widget, application.findWidget targetPath = some widget ∧
        events = Player.dragSteps application sourcePath sourcePoint targetPath targetPoint
          (application.mapToGlobal widget targetPoint)
  | .sleep msec, events => events = [.new (.sleep msec)]

/-- Nothing of the command is lost on the way: keys do not repeat by themselves,
wheels are horizontal, and what is dropped on is a widget. -/
def Survives : Command Sequence → Prop
  | .key _ _ _ _ _ autoRepeat _ => autoRepeat = false
  | .wheel _ _ _ _ _ orientation => orientation = .horizontal
  | .dragAndDrop _ _ targetPath _ => (application.findWidget targetPath).isSome = true
  | _ => True

end Command

namespace Player

open Interpreter

variable {keys : KeySequences} (application : Application Object)

/-! ## What arrives -/

/-- The attribute that says whether a key repeats is read under another name. -/
theorem postKeyEvent_writeKeyAttributes {Sequence : Type} (action : KeyAction) (path : QString)
    (key modifiers : Int32) (text : QString) (autorepeat : Bool) (count : UInt16) :
    postKeyEvent action (writeKeyAttributes path key modifiers text autorepeat count) =
      (.new (.object path (.key action key modifiers text false count)) : Event Sequence) := by
  have read : postKeyEvent action (writeKeyAttributes path key modifiers text autorepeat count) =
      (.new (.object path (.key action (intText key).toInt (intText modifiers).toInt text false
        (QString.number count.toNat).toUShort)) : Event Sequence) := rfl
  rw [read, QString.toInt_number, QString.toInt_number, QString.toUShort_number]

theorem postMouseEvent_writeMouseAttributes {Sequence : Type} (action : MouseAction)
    (path : QString) (position : Point) (button buttons modifiers : Int32) :
    postMouseEvent action (writeMouseAttributes path position button buttons modifiers) =
      (.new (.object path (.mouse action position none button buttons modifiers)) :
        Event Sequence) := by
  have read : postMouseEvent action
      (writeMouseAttributes path position button buttons modifiers) =
        (.new (.object path (.mouse action ⟨(intText position.x).toInt, (intText position.y).toInt⟩
          none (intText button).toInt (intText buttons).toInt (intText modifiers).toInt)) :
            Event Sequence) := rfl
  rw [read]
  simp only [QString.toInt_number]

theorem decode_writeContextMenuEvent (path : QString) (position globalPosition : Point)
    (modifiers : Int32) :
    decode keys application (writeContextMenuEvent path position globalPosition modifiers) =
      some [.new (.object path (.contextMenu 0 position globalPosition modifiers))] := by
  have read : decode keys application
      (writeContextMenuEvent path position globalPosition modifiers) =
        some [.new (.object path (.contextMenu 0
          ⟨(intText position.x).toInt, (intText position.y).toInt⟩
          ⟨(intText globalPosition.x).toInt, (intText globalPosition.y).toInt⟩
          (intText modifiers).toInt))] := rfl
  rw [read]
  simp only [QString.toInt_number]

/-- The orientation is written as a number, which is never the word that the player
looks for. -/
theorem decode_writeWheelEvent (path : QString) (position : Point)
    (delta buttons modifiers : Int32) (orientation : Orientation) :
    decode keys application
        (writeWheelEvent path position delta buttons modifiers orientation) =
      some [.new (.object path (.wheel position delta buttons modifiers .horizontal))] := by
  have read : decode keys application
      (writeWheelEvent path position delta buttons modifiers orientation) =
        some [.new (.object path (.wheel ⟨(intText position.x).toInt, (intText position.y).toInt⟩
          (intText delta).toInt (intText buttons).toInt (intText modifiers).toInt
          (if intText orientation.toInt32 = QString.ofString "vertical" then .vertical
            else .horizontal)))] := rfl
  have number : intText orientation.toInt32 ≠ QString.ofString "vertical" := by
    cases orientation <;> decide +kernel
  rw [read, if_neg number]
  simp only [QString.toInt_number]

theorem decode_writeShortcutEvent (path : QString) (sequence : keys.Sequence) (id : Int32)
    (ambiguous : Bool) :
    decode keys application (writeShortcutEvent keys path sequence id ambiguous) =
      some [.new (.object path (.shortcut sequence id ambiguous))] := by
  have read : decode keys application (writeShortcutEvent keys path sequence id ambiguous) =
      some [.new (.object path (.shortcut (keys.fromText (keys.toText sequence))
        (intText id).toInt (boolText ambiguous = QString.ofString "true")))] := rfl
  rw [read, keys.fromText_toText, QString.toInt_number]
  simp only [boolText_eq_true, Bool.decide_eq_true]

theorem decode_writeSetFocusEvent (path : QString) (reason : Int32) :
    decode keys application (writeSetFocusEvent path reason) =
      some [.new (.focus path reason)] := by
  have read : decode keys application (writeSetFocusEvent path reason) =
      some [.new (.focus path (intText reason).toInt)] := rfl
  rw [read, QString.toInt_number]

theorem decode_writeSleep (msec : Int32) :
    decode keys application (writeSleep msec) = some [.new (.sleep msec)] := by
  have read : decode keys application (writeSleep msec) =
      some [.new (.sleep (intText msec).toInt)] := rfl
  rw [read, QString.toInt_number]

theorem decode_writeDragAndDropEvent (sourcePath : QString) (sourcePoint : Point)
    (targetPath : QString) (targetPoint : Point) :
    decode keys application
        (writeDragAndDropEvent sourcePath sourcePoint targetPath targetPoint) =
      (application.findWidget targetPath).map fun widget =>
        dragSteps application sourcePath sourcePoint targetPath targetPoint
          (application.mapToGlobal widget targetPoint) := by
  have read : decode keys application
      (writeDragAndDropEvent sourcePath sourcePoint targetPath targetPoint) =
        (application.findWidget targetPath).map fun widget =>
          dragSteps application sourcePath
            ⟨(intText sourcePoint.x).toInt, (intText sourcePoint.y).toInt⟩ targetPath
            ⟨(intText targetPoint.x).toInt, (intText targetPoint.y).toInt⟩
            (application.mapToGlobal widget
              ⟨(intText targetPoint.x).toInt, (intText targetPoint.y).toInt⟩) := rfl
  rw [read]
  simp only [QString.toInt_number]

/-! ## The commands that arrive intact -/

/-- A command is delivered if what arrives delivers it. -/
theorem exists_decoded_iff {element : Element} {arrived : List (Event keys.Sequence)}
    (decoded : decode keys application element = some arrived)
    (command : Command keys.Sequence) :
    (∃ events, decode keys application element = some events ∧
        command.Delivers application events) ↔ command.Delivers application arrived := by
  constructor
  · rintro ⟨events, isDecoded, delivers⟩
    rw [decoded] at isDecoded
    cases isDecoded
    exact delivers
  · intro delivers
    exact ⟨arrived, decoded, delivers⟩

theorem decode_writeKey (action : KeyAction) (path : QString) (key modifiers : Int32)
    (text : QString) (autorepeat : Bool) (count : UInt16) :
    decode keys application (write keys (.key action path key modifiers text autorepeat count)) =
      some [.new (.object path (.key action key modifiers text false count))] := by
  cases action with
  | press =>
      exact congrArg (fun event => some [event])
        (postKeyEvent_writeKeyAttributes .press path key modifiers text autorepeat count)
  | release =>
      exact congrArg (fun event => some [event])
        (postKeyEvent_writeKeyAttributes .release path key modifiers text autorepeat count)

theorem decode_writeMouse (action : MouseAction) (path : QString) (position : Point)
    (button buttons modifiers : Int32) :
    decode keys application (write keys (.mouse action path position button buttons modifiers)) =
      some [.new (.object path (.mouse action position none button buttons modifiers))] := by
  have posted : postMouseEvent action
      (writeMouseAttributes path position button buttons modifiers) =
        (.new (.object path (.mouse action position none button buttons modifiers)) :
          Event keys.Sequence) :=
    postMouseEvent_writeMouseAttributes action path position button buttons modifiers
  cases action <;> exact congrArg (fun event => some [event]) posted

/-- A command arrives with its arguments exactly when it survives the wire. -/
theorem decode_write_iff (keys : KeySequences) (application : Application Object)
    (command : Command keys.Sequence) :
    (∃ events, decode keys application (write keys command) = some events ∧
        command.Delivers application events) ↔
      command.Survives application := by
  cases command with
  | key action path code modifiers text autoRepeat count =>
      refine Iff.trans (exists_decoded_iff application (decode_writeKey application action path code modifiers
        text autoRepeat count) _) ?_
      simp [Command.Delivers, Command.Survives, Event.new, eq_comm]
  | mouse action path position button buttons modifiers =>
      refine Iff.trans (exists_decoded_iff application (decode_writeMouse application action path position
        button buttons modifiers) _) ?_
      simp [Command.Delivers, Command.Survives]
  | contextMenu path position globalPosition modifiers =>
      refine Iff.trans (exists_decoded_iff application (decode_writeContextMenuEvent application path position
        globalPosition modifiers) _) ?_
      exact iff_of_true ⟨0, rfl⟩ trivial
  | wheel path position delta buttons modifiers orientation =>
      refine Iff.trans (exists_decoded_iff application (decode_writeWheelEvent application path position delta
        buttons modifiers orientation) _) ?_
      simp [Command.Delivers, Command.Survives, Event.new, eq_comm]
  | shortcut path sequence id ambiguous =>
      refine Iff.trans (exists_decoded_iff application (decode_writeShortcutEvent application path sequence id
        ambiguous) _) ?_
      exact iff_of_true rfl trivial
  | setFocus path reason =>
      refine Iff.trans (exists_decoded_iff application (decode_writeSetFocusEvent application path reason) _) ?_
      exact iff_of_true rfl trivial
  | close path => exact iff_of_true ⟨_, rfl, rfl⟩ trivial
  | sleep msec =>
      refine Iff.trans (exists_decoded_iff application (decode_writeSleep application msec) _) ?_
      exact iff_of_true rfl trivial
  | dragAndDrop sourcePath sourcePoint targetPath targetPoint =>
      rw [Command.Survives, write, decode_writeDragAndDropEvent]
      cases found : application.findWidget targetPath with
      | none => simp
      | some widget =>
          exact iff_of_true ⟨_, rfl, widget, found, rfl⟩ rfl

end Player

/-! ## A key that repeats -/

def buttonApplication : Application (Fin 3) :=
  ⟨ObjectTree.buttonWindow, fun _ point => point, 500, 10⟩

/-- A repeating key does not arrive as one. -/
theorem repeatingKey_not_delivered :
    ¬∀ command : Command plainSequences.Sequence,
      ∃ events, Player.decode plainSequences buttonApplication
          (Interpreter.write plainSequences command) = some events ∧
        command.Delivers buttonApplication events := by
  intro all
  rcases all (.key .press "window" 65 0 "a" true 1) with ⟨events, decoded, delivered⟩
  rw [Player.decode_writeKey] at decoded
  cases decoded
  simp [Command.Delivers, Event.new] at delivered

end Hooq
