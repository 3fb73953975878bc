import Hooq.Playback.Encoder
import Hooq.Playback.Player

/-!
# A session

The interpreter and the application that it is attached to, with the socket between
them.  The interpreter sends an element only after the wait for the one before has
ended.  At the end it closes the document, so that the player hands the socket back to
the marshall, and tells the marshall to quit.
-/

namespace Hooq

/-- What a script asks for. -/
inductive Request (Sequence : Type) where
  | command (command : Command Sequence)
  | dump (objectPath : QString)
  deriving DecidableEq, Repr

namespace Request

variable (keys : KeySequences)

/-- The element that is written for a request; that of a dump is in `fetchProperty`. -/
def element : Request keys.Sequence → Element
  | .command issued => Interpreter.write keys issued
  | .dump objectPath => ⟨"dump", [("target", objectPath)], []⟩

end Request

/-- What the interpreter sends and waits for: the requests, and the two parts of
`closeApplication`. -/
inductive Order (Sequence : Type) where
  | request (request : Request Sequence)
  | endDocument
  | die
  deriving DecidableEq, Repr

namespace Order

/-- What is written for an order.  The end of a document has a line break behind it. -/
def tokens (keys : KeySequences) : Order keys.Sequence → List Token
  | .request asked => (asked.element keys).tokens
  | .endDocument => .stop :: textTokens "\n"
  | .die => textTokens "DIE\n"

/-- Only a dump waits for something else than an acknowledgement. -/
def waitsForAck {Sequence : Type} : Order Sequence → Bool
  | .request (.dump _) => false
  | _ => true

end Order

/-! ## The marshall -/

/-- What became of `Marshall`: it has given the socket away, it is connected to it, it
has read a command, or it has failed on one that it does not know. -/
inductive Marshall where
  | resting
  | listening
  | recording
  | playing
  | quitting
  | failed
  deriving DecidableEq, Repr

namespace Marshall

def newline : Token := .character 10

/-- `canReadLine` and `readLine`: the first line, with what is behind it. -/
def readLine (unread : List Token) : Option (List Token × List Token) :=
  match unread.dropWhile (· ≠ newline) with
  | [] => none
  | lineBreak :: rest => some (unread.takeWhile (· ≠ newline) ++ [lineBreak], rest)

end Marshall

/-- The state of a session.  `handled` counts the replies that the interpreter has
handled, `sent` are the orders so far. -/
structure Session (Object Sequence : Type) where
  orders : List (Order Sequence)
  sent : List (Order Sequence)
  waiting : Option (Order Sequence)
  pendingAcks : Int
  toPlayer : List Token
  handled : Nat
  player : Player Object Sequence
  marshall : Marshall

namespace Session

section

variable {Object Sequence : Type}

/-- A session that is attached, before its first order.  The start tag of the document
comes with it. -/
def new (ackNext : Bool) (requests : List (Request Sequence)) : Session Object Sequence where
  orders := requests.map .request ++ [.endDocument, .die]
  sent := []
  waiting := none
  pendingAcks := 0
  toPlayer := [.start "hooq" []]
  handled := 0
  player := .new ackNext
  marshall := .resting

/-- The application runs. -/
def IsAlive (session : Session Object Sequence) : Prop :=
  session.player.failed = false ∧ session.marshall ≠ .quitting ∧ session.marshall ≠ .failed

instance (session : Session Object Sequence) : Decidable session.IsAlive :=
  inferInstanceAs (Decidable (_ ∧ _ ∧ _))

/-- `Marshall::readCommand`.  Each command ends the loop. -/
def readCommand (session : Session Object Sequence) : Session Object Sequence :=
  match Marshall.readLine session.player.unread with
  | none => session
  | some (line, rest) =>
      let session := { session with player := { session.player with unread := rest } }
      if line = textTokens "RECORD\n" then
        { session with marshall := .recording }
      else if line = textTokens "PLAY\n" then
        { session with marshall := .playing }
      else if line = textTokens "DIE\n" then
        { session with
          player := { session.player with written := session.player.written ++ [.ack] }
          marshall := .quitting }
      else
        { session with marshall := .failed }

/-- `Marshall::reconnect`. -/
def reconnect (session : Session Object Sequence) : Session Object Sequence :=
  { session with marshall := .listening }.readCommand

/-- `Interpreter::setAck` and the end of the wait for it. -/
def setAck (session : Session Object Sequence) : Session Object Sequence :=
  { session with
    pendingAcks := session.pendingAcks - 1
    waiting := session.waiting.filter fun order =>
      ¬(order.waitsForAck = true ∧ session.pendingAcks - 1 = 0) }

/-- One reply in `Interpreter::processSocketData`.  That of a path with a line break is more
than one line, which this leaves out. -/
def processReply (session : Session Object Sequence) (reply : Reply Object) :
    Session Object Sequence :=
  match reply with
  | .ack => session.setAck
  | .dumped _ => { session with waiting := session.waiting.filter Order.waitsForAck }
  | .notFound _ | .picked _ => session

end

/-! ## Actions -/

/-- What can happen in a session. -/
inductive Action (Object : Type) [DecidableEq Object] where
  /-- The interpreter writes the next order and starts to wait. -/
  | send
  /-- The next tokens arrive at the application. -/
  | deliver (count : Nat)
  /-- The player goes on, with the application in a certain state. -/
  | run (application : Application Object)
  | endFlush
  | waitFinished
  /-- The next reply arrives at the interpreter. -/
  | receive

section

variable {Object : Type} [DecidableEq Object]

def Enabled {Sequence : Type} (session : Session Object Sequence) : Action Object → Prop
  | .send => session.waiting = none ∧ session.orders ≠ []
  | .deliver count =>
      session.IsAlive ∧ session.player.InEventLoop ∧ 0 < count ∧
        count ≤ session.toPlayer.length
  | .run _ => session.IsAlive ∧ ¬session.player.InEventLoop
  | .endFlush => session.IsAlive ∧ session.player.stack.head? = some .flushing
  | .waitFinished =>
      session.IsAlive ∧ session.player.InEventLoop ∧ session.player.timers ≠ 0
  | .receive => session.handled < session.player.written.length

instance {Sequence : Type} (session : Session Object Sequence) (action : Action Object) :
    Decidable (session.Enabled action) := by
  cases action <;> unfold Enabled <;> infer_instance

variable (keys : KeySequences)

def send (session : Session Object keys.Sequence) : Session Object keys.Sequence :=
  match session.orders with
  | [] => session
  | order :: rest =>
      { session with
        orders := rest
        sent := session.sent ++ [order]
        waiting := some order
        pendingAcks := session.pendingAcks + if order.waitsForAck then 1 else 0
        toPlayer := session.toPlayer ++ order.tokens keys }

def deliver {Sequence : Type} (session : Session Object Sequence) (count : Nat) :
    Session Object Sequence :=
  let session :=
    { session with
      toPlayer := session.toPlayer.drop count
      player := session.player.readyRead (session.toPlayer.take count) }
  if session.marshall = .listening then session.readCommand else session

def run (session : Session Object keys.Sequence) (application : Application Object) :
    Session Object keys.Sequence :=
  let player := session.player.step keys application
  if session.player.finished < player.finished then
    { session with player := player }.reconnect
  else
    { session with player := player }

def next (session : Session Object keys.Sequence) : Action Object → Session Object keys.Sequence
  | .send => session.send keys
  | .deliver count => session.deliver count
  | .run application => session.run keys application
  | .endFlush => { session with player := session.player.endFlush }
  | .waitFinished => { session with player := session.player.waitFinished }
  | .receive =>
      match session.player.written[session.handled]? with
      | some reply => { session with handled := session.handled + 1 }.processReply reply
      | none => session

end

end Session

end Hooq
