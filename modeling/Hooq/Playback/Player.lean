import Hooq.Playback.Decoder
import Hooq.Qt.XmlReader

/-!
# The player

The player reads elements from the socket, queues events for them and works through
the queue.  Its calls nest: a flush runs the event loop of the application, which may
call the player again.  The calls that are active are a stack of frames, and a step
runs the innermost one up to its next test.  Assertions are those of a debug build.
-/

namespace Hooq

/-- What the player writes to the socket.  An object is written as its properties. -/
inductive Reply (Object : Type) where
  | ack
  | notFound (objectPath : QString)
  | dumped (object : Object)
  | picked (object : Object)
  deriving DecidableEq, Repr

/-- What the player does to the application. -/
inductive Effect (Object Sequence : Type) where
  | post (receiver : Object) (qtEvent : QtEvent Sequence)
  | setFocus (widget : Object) (reason : Int32)
  | close (widget : Object)
  deriving DecidableEq, Repr

/-- A call that is active, by the test that it makes next. -/
inductive Frame where
  /-- `readNext`, before `atEnd`. -/
  | reading
  /-- `readNext`, after the call of `processEvents` for a start tag. -/
  | readElement
  /-- `processEvents`, before the test for an empty queue. -/
  | processing
  /-- `QApplication::processEvents`, for a flush. -/
  | flushing
  deriving DecidableEq, Repr

inductive Mode where
  | playback
  | pick
  deriving DecidableEq, Repr

/-- `Player`, with its end of the socket, the sleep timers that are running, what it
did to the application and how often it emitted `finished`. -/
structure Player (Object Sequence : Type) where
  reader : XmlReader
  device : Bool
  connected : Bool
  unread : List Token
  written : List (Reply Object)
  processingEvents : Bool
  eventQueue : List (Event Sequence)
  ackNext : Bool
  mode : Mode
  timers : Nat
  stack : List Frame
  effects : List (Effect Object Sequence)
  finished : Nat
  failed : Bool
  deriving DecidableEq

namespace Player

section

variable {Object Sequence : Type}

/-- The constructor, which leaves one member as it is, and the call of `run`. -/
def new (ackNext : Bool) : Player Object Sequence where
  reader := .clear
  device := true
  connected := true
  unread := []
  written := []
  processingEvents := false
  eventQueue := []
  ackNext := ackNext
  mode := .playback
  timers := 0
  stack := [.reading]
  effects := []
  finished := 0
  failed := false

/-- A failed assertion, or a null pointer that is used. -/
def fail (player : Player Object Sequence) : Player Object Sequence :=
  { player with stack := [], failed := true }

def reply (reply : Reply Object) (player : Player Object Sequence) :
    Player Object Sequence :=
  if player.device then
    { player with written := player.written ++ [reply] }
  else
    player.fail

def affect (effect : Effect Object Sequence) (player : Player Object Sequence) :
    Player Object Sequence :=
  { player with effects := player.effects ++ [effect] }

/-- `Player::ack`. -/
def ack (player : Player Object Sequence) : Player Object Sequence :=
  if player.ackNext then player.reply .ack else player

/-- `notifyNotFound`. -/
def notifyNotFound (objectPath : QString) (player : Player Object Sequence) :
    Player Object Sequence :=
  player.reply (.notFound objectPath)

/-- `Player::sleep`.  Qt starts no timer for a negative interval. -/
def sleep (msec : Int32) (player : Player Object Sequence) : Player Object Sequence :=
  if msec < 0 then player else { player with timers := player.timers + 1 }

def startPick (player : Player Object Sequence) : Player Object Sequence :=
  { player with mode := .pick }

/-- The innermost call returns. -/
def leave (player : Player Object Sequence) : Player Object Sequence :=
  { player with stack := player.stack.tail }

/-- What the reader can read: nothing once its device is taken away. -/
def available (player : Player Object Sequence) : List Token :=
  if player.device then player.unread else []

/-- `QXmlStreamReader::readNext` on the device. -/
def readToken (player : Player Object Sequence) : Player Object Sequence :=
  let (reader, unread) := player.reader.readNext player.available
  { player with reader := reader, unread := if player.device then unread else player.unread }

/-- A call of `processEvents`. -/
def processEvents (player : Player Object Sequence) : Player Object Sequence :=
  if player.processingEvents then
    player
  else
    { player with processingEvents := true, stack := .processing :: player.stack }

/-- The end of `processEvents`: the queue is empty. -/
def endProcessing (player : Player Object Sequence) : Player Object Sequence :=
  if player.reader.tokenType = .endDocument then
    { player with
      reader := .clear, device := false, connected := false,
      finished := player.finished + 1, processingEvents := false }.leave
  else
    { player with processingEvents := false }.leave

/-- The end of the body of the loop in `readNext`, with the test for the end of the
document.  `stack` holds the calls outside of `readNext`. -/
def endElement (stack : List Frame) (player : Player Object Sequence) :
    Player Object Sequence :=
  if player.reader.tokenType = .endDocument then
    ({ player with connected := false, stack := stack }.ack).processEvents
  else
    { player with stack := .reading :: stack }

end

section

variable {Object : Type} [DecidableEq Object] (keys : KeySequences)
  (application : Application Object)

/-- The event that ends a drag for the target. -/
def mouseRelease {Sequence : Type} (position globalPosition : Point) : QtEvent Sequence :=
  .mouse .release position (some globalPosition) leftButton noButton noModifier

/-- The body of the loop in `processEvents`, for the event taken from the queue. -/
def perform {Sequence : Type} (event : Event Sequence) (player : Player Object Sequence) :
    Player Object Sequence :=
  let player := { player with ackNext := event.ack }
  match event.task with
  | .ack => player.ack
  | .dump objectPath =>
      match application.tree.findObject objectPath with
      | some object => player.reply (.dumped object)
      | none => player.fail
  | .flush => { player with stack := .flushing :: player.stack }
  | .focus objectPath reason =>
      match application.findWidget objectPath with
      | some widget => (player.affect (.setFocus widget reason)).ack
      | none => (player.notifyNotFound objectPath).ack
  | .close objectPath =>
      match application.findWidget objectPath with
      | some widget => (player.affect (.close widget)).ack
      | none => player.fail
  | .drop objectPath position globalPosition =>
      match application.tree.findObject objectPath with
      | some object => (player.affect (.post object (mouseRelease position globalPosition))).ack
      | none => (player.notifyNotFound objectPath).ack
  | .object objectPath qtEvent =>
      match application.tree.findObject objectPath with
      | some object => (player.affect (.post object qtEvent)).ack
      | none => (player.notifyNotFound objectPath).ack
  | .pick => player.startPick.leave
  | .sleep msec => (player.sleep msec).leave

/-- The elements whose text is read. -/
def readsText (name : QString) : Bool :=
  name = QString.ofString "msec" || name = QString.ofString "dragAndDrop"

/-- The text that the function for the reader's name reads, with the reader and what is
unread behind it.  Only a start tag has a text. -/
def elementText {Sequence : Type} (player : Player Object Sequence) :
    QString × XmlReader × List Token :=
  if readsText player.reader.name && player.reader.tokenType = .startElement then
    player.reader.readElementText player.unread
  else
    ([], player.reader, player.unread)

/-- A test of `handleElement`, on the name that the reader has by then. -/
def handleName (player : Player Object keys.Sequence) (name : QString) :
    Player Object keys.Sequence :=
  if player.failed = false ∧ player.reader.name = name then
    let (text, reader, unread) := player.elementText
    let read := { player with reader := reader, unread := unread }
    match postElement keys application name player.reader.attributes text with
    | some events => { read with eventQueue := player.eventQueue ++ events }
    | none => read.fail
  else
    player

/-- The names that `handleElement` tests for, in order. -/
def handledNames : List QString :=
  ["msec", "dump", "pick", "dragAndDrop", "windowClosed", "contextMenu", "focusChanged", "keyPress",
    "keyRelease", "mouseMove", "mouseButtonPress", "mouseButtonDoubleClick", "mouseButtonRelease",
    "mouseWheel", "shortcut"].map QString.ofString

/-- `handleElement`: every test is made, whatever the others have found. -/
def handleElement (player : Player Object keys.Sequence) : Player Object keys.Sequence :=
  handledNames.foldl (handleName keys application) player

/-- One step of the innermost call.  Where an event loop is the innermost call, it is
not the player's turn. -/
def step (player : Player Object keys.Sequence) : Player Object keys.Sequence :=
  match player.stack with
  | .reading :: stack =>
      if player.reader.atEnd player.available then
        { player with stack := stack }.processEvents
      else
        let player := player.readToken
        if player.reader.tokenType = .startElement then
          ({ player with stack := .readElement :: stack }.handleElement keys
            application).processEvents
        else
          player.endElement stack
  | .readElement :: stack => player.endElement stack
  | .processing :: _ =>
      match player.eventQueue with
      | event :: rest => { player with eventQueue := rest }.perform application event
      | [] => player.endProcessing
  | .flushing :: _ => player
  | [] => player

end

/-! ## What the event loop of the application calls -/

section

variable {Object Sequence : Type}

/-- An event loop of the application is the innermost call. -/
def InEventLoop (player : Player Object Sequence) : Prop :=
  player.stack = [] ∨ player.stack.head? = some .flushing

instance (player : Player Object Sequence) : Decidable player.InEventLoop :=
  inferInstanceAs (Decidable (_ ∨ _))

/-- Data arrives, and `readyRead` calls `readNext`. -/
def readyRead (arrived : List Token) (player : Player Object Sequence) :
    Player Object Sequence :=
  let player := { player with unread := player.unread ++ arrived }
  if player.connected then { player with stack := .reading :: player.stack } else player

/-- The event loop of a flush returns. -/
def endFlush (player : Player Object Sequence) : Player Object Sequence :=
  player.leave

/-- A sleep timer calls `waitFinished`. -/
def waitFinished (player : Player Object Sequence) : Player Object Sequence :=
  let player := { player with timers := player.timers - 1 }.ack
  { player with processingEvents := false }.processEvents

/-- A mouse button is released while picking: the properties of the object are
written, and `endPick` goes on with the queue. -/
def endPick (object : Object) (player : Player Object Sequence) : Player Object Sequence :=
  let player := player.reply (.picked object)
  { player with mode := .playback, processingEvents := false }.processEvents

end

end Player

end Hooq
