import Hooq.Library.Run
import Hooq.Playback.Encoder

/-!
# Attaching to applications

The part of the interpreter that starts applications, waits for them, and closes them.
A wait is a loop that processes events, so that everything else can happen inside of
it: the calls that wait are on a stack, the innermost one first, and only that one can
go on.  Applications and application objects are numbered in the order in which they
come about.  An application connects once, and its socket has its number; the number
of an object is its uuid.
-/

namespace Hooq

/-- `Interpreter::AttachState`. -/
inductive AttachState where
  | notAttached
  | waitingForAttach
  | attached
  deriving DecidableEq, Repr

/-- What is written to a socket, as the writer's functions are called. -/
inductive Output where
  | line (text : QString)
  | startDocument
  | startElement (name : QString)
  | element (element : Element)
  | endElement
  | endDocument
  deriving DecidableEq, Repr

/-- What comes behind `waitForAttach`: an element, or the end of
`connectRemoteApplication` for an object. -/
inductive Pending where
  | write (element : Element)
  | connected (uuid : Nat)
  deriving DecidableEq, Repr

/-- A call that waits in a loop.  The two waits of `closeApplication` remember who asked
for it, and whose document it has ended. -/
inductive BlockedCall where
  | waitForAttach (pending : Pending)
  | waitForAck (socket : Nat)
  | waitForDumpedObject
  | waitForEnd (sender : Option Nat) (document : Nat)
  | waitForDeath (sender : Option Nat) (document socket : Nat)
  deriving DecidableEq, Repr

/-- The socket whose document a call to `closeApplication` has ended. -/
def BlockedCall.document : BlockedCall → Option Nat
  | .waitForEnd _ document => some document
  | .waitForDeath _ document _ => some document
  | _ => none

/-- What has happened: something was written, `connectRemoteApplication` has returned for
an object, or `closeApplication` has taken a step to end the session on a socket. -/
inductive Milestone where
  | wrote (attachState : AttachState) (device : Option Nat) (output : Output)
  | returned (uuid : Nat) (applicationUuid device : Option Nat)
  | ended (sender : Option Nat) (socket : Nat)
  deriving DecidableEq, Repr

/-- The interpreter and what it has to do with.  `started` has, for each application,
the object that it was started for; the calls are the stack of those that wait. -/
structure InterpreterState where
  attachState : AttachState
  device : Option Nat
  applicationUuid : Option Nat
  pendingAcks : Int
  dumpedObject : Bool
  calls : List BlockedCall
  evaluating : Bool
  crashed : Bool
  objects : Nat
  closed : List Nat
  started : List (Option Nat)
  accepted : List Nat
  disconnected : List Nat
  history : List Milestone
  deriving DecidableEq, Repr

namespace InterpreterState

/-- The interpreter when its first script starts. -/
def new : InterpreterState where
  attachState := .notAttached
  device := none
  applicationUuid := none
  pendingAcks := 0
  dumpedObject := false
  calls := []
  evaluating := true
  crashed := false
  objects := 0
  closed := []
  started := []
  accepted := []
  disconnected := []
  history := []

/-- The sockets whose documents are ended by calls that have not returned. -/
def closing (interpreter : InterpreterState) : List Nat :=
  interpreter.calls.filterMap BlockedCall.document

def record (interpreter : InterpreterState) (milestone : Milestone) : InterpreterState :=
  { interpreter with history := interpreter.history ++ [milestone] }

/-- Something is written to `device()`; without a device it is lost. -/
def write (interpreter : InterpreterState) (output : Output) : InterpreterState :=
  interpreter.record (.wrote interpreter.attachState interpreter.device output)

/-- A null pointer is followed. -/
def crash (interpreter : InterpreterState) : InterpreterState :=
  { interpreter with crashed := true }

def push (interpreter : InterpreterState) (call : BlockedCall) : InterpreterState :=
  { interpreter with calls := call :: interpreter.calls }

/-! ## Waiting for acknowledgements -/

/-- The condition on which `waitForAck` goes on with its loop. -/
def IsUnanswered (interpreter : InterpreterState) (socket : Nat) : Prop :=
  socket ∉ interpreter.disconnected ∧ interpreter.pendingAcks ≠ 0

instance (interpreter : InterpreterState) (socket : Nat) :
    Decidable (interpreter.IsUnanswered socket) :=
  inferInstanceAs (Decidable (_ ∧ _))

/-- `waitForAck`, as a call on the stack or with what comes behind it. -/
def waitForAck (interpreter : InterpreterState) (call : Nat → BlockedCall)
    (next : InterpreterState → InterpreterState) : InterpreterState :=
  match interpreter.device with
  | none => interpreter.crash
  | some socket =>
      let interpreter := { interpreter with pendingAcks := interpreter.pendingAcks + 1 }
      if interpreter.IsUnanswered socket then interpreter.push (call socket) else next interpreter

/-- What holds if the wait fails, begins, or is over at once. -/
theorem waitForAck_rule (Property : InterpreterState → Prop) {interpreter : InterpreterState}
    {call : Nat → BlockedCall} {next : InterpreterState → InterpreterState}
    (fails : interpreter.device = none → Property interpreter.crash)
    (waits : ∀ socket, interpreter.device = some socket →
      Property ({ interpreter with pendingAcks := interpreter.pendingAcks + 1 }.push (call socket)))
    (passes : ∀ socket, interpreter.device = some socket →
      Property (next { interpreter with pendingAcks := interpreter.pendingAcks + 1 })) :
    Property (interpreter.waitForAck call next) := by
  rw [waitForAck]
  split
  next device => exact fails device
  next socket device =>
    dsimp only
    split
    next => exact waits socket device
    next => exact passes socket device

/-- The end of a slot that writes an element. -/
def writeElement (interpreter : InterpreterState) (element : Element) : InterpreterState :=
  (interpreter.write (.element element)).waitForAck .waitForAck id

/-! ## Attaching -/

def proceed (interpreter : InterpreterState) : Pending → InterpreterState
  | .write element => interpreter.writeElement element
  | .connected uuid =>
      interpreter.record (.returned uuid interpreter.applicationUuid interpreter.device)

/-- `startApplicationAndAttach`. -/
def startApplication (interpreter : InterpreterState) (uuid : Option Nat) : InterpreterState :=
  { interpreter with started := interpreter.started ++ [uuid] }

def waitForAttach (interpreter : InterpreterState) (pending : Pending) : InterpreterState :=
  match interpreter.attachState with
  | .attached => interpreter.proceed pending
  | _ => { interpreter with attachState := .waitingForAttach }.push (.waitForAttach pending)

theorem waitForAttach_of_ne {interpreter : InterpreterState}
    (notYet : interpreter.attachState ≠ .attached) (pending : Pending) :
    interpreter.waitForAttach pending =
      { interpreter with attachState := .waitingForAttach }.push (.waitForAttach pending) := by
  rw [waitForAttach]
  split
  next isAttached => exact absurd isAttached notYet
  next => rfl

def ensureAttached (interpreter : InterpreterState) (pending : Pending) : InterpreterState :=
  match interpreter.attachState with
  | .notAttached => (interpreter.startApplication none).waitForAttach pending
  | .waitingForAttach => interpreter.waitForAttach pending
  | .attached => interpreter.proceed pending

/-- `connectRemoteApplication`, for a new object that uses the defaults: scripts have no
others. -/
def connectRemoteApplication (interpreter : InterpreterState) : InterpreterState :=
  let uuid := interpreter.objects
  let interpreter := { interpreter with objects := uuid + 1, applicationUuid := some uuid }
  (interpreter.startApplication (some uuid)).waitForAttach (.connected uuid)

/-- `setSocket`. -/
def setSocket (interpreter : InterpreterState) (socket : Nat) : InterpreterState :=
  let interpreter :=
    { interpreter with accepted := socket :: interpreter.accepted, pendingAcks := 0 }
  let interpreter :=
    interpreter.record (.wrote interpreter.attachState (some socket) (.line "PLAY\n"))
  let interpreter := { interpreter with device := some socket }
  let interpreter := (interpreter.write .startDocument).write (.startElement "hooq")
  { interpreter with attachState := .attached }

/-! ## Closing -/

/-- The end of `closeApplication`. -/
def detach (interpreter : InterpreterState) : InterpreterState :=
  { interpreter with attachState := .notAttached, device := none, applicationUuid := none }

/-- `closeApplication` behind its first wait. -/
def die (interpreter : InterpreterState) (sender : Option Nat) (document : Nat) :
    InterpreterState :=
  match interpreter.device with
  | none => interpreter.crash
  | some socket =>
      ((interpreter.write (.line "DIE\n")).record (.ended sender socket)).waitForAck
        (.waitForDeath sender document) detach

/-- Only an application object has a uuid to compare. -/
def IsStale (interpreter : InterpreterState) (sender : Option Nat) : Prop :=
  sender ≠ none ∧ sender ≠ interpreter.applicationUuid

instance (interpreter : InterpreterState) (sender : Option Nat) :
    Decidable (interpreter.IsStale sender) :=
  inferInstanceAs (Decidable (_ ∧ _))

def closeApplication (interpreter : InterpreterState) (sender : Option Nat) :
    InterpreterState :=
  if interpreter.IsStale sender then
    interpreter
  else
    match interpreter.device with
    | none => interpreter
    | some socket =>
        (((interpreter.write .endElement).write .endDocument).record
          (.ended sender socket)).waitForAck (.waitForEnd sender) (die · sender socket)

/-- `RemoteApplicationPrototype::close`, which the destructor calls as well. -/
def close (interpreter : InterpreterState) (uuid : Nat) : InterpreterState :=
  if uuid ∈ interpreter.closed then
    interpreter
  else
    { interpreter with closed := uuid :: interpreter.closed }.closeApplication (some uuid)

/-! ## Slots that do not make sure that an application is attached -/

def dumpElement (path : QString) : Element :=
  ⟨"dump", [("target", path)], []⟩

def pickElement : Element :=
  ⟨"pick", [], []⟩

/-- `fetchProperty` up to the wait for the object. -/
def fetchProperty (interpreter : InterpreterState) (path : QString) : InterpreterState :=
  let interpreter := interpreter.write (.element (dumpElement path))
  { interpreter with dumpedObject := false }.push .waitForDumpedObject

def pickObject (interpreter : InterpreterState) : InterpreterState :=
  interpreter.write (.element pickElement)

/-! ## Replies -/

/-- An acknowledgement in `processSocketData`. -/
def setAck (interpreter : InterpreterState) : InterpreterState :=
  match interpreter.device with
  | none => interpreter.crash
  | some _ => { interpreter with pendingAcks := interpreter.pendingAcks - 1 }

/-- A dumped object in `processSocketData`. -/
def setDumpedObject (interpreter : InterpreterState) : InterpreterState :=
  match interpreter.device with
  | none => interpreter.crash
  | some _ => { interpreter with dumpedObject := true }

/-! ## Steps -/

/-- The innermost loop looks at its condition again. -/
def resume (interpreter : InterpreterState) : InterpreterState :=
  match interpreter.calls with
  | [] => interpreter
  | .waitForAttach pending :: calls =>
      if interpreter.attachState = .attached then
        { interpreter with calls := calls }.proceed pending
      else
        interpreter
  | .waitForAck socket :: calls =>
      if interpreter.IsUnanswered socket then interpreter
      else { interpreter with calls := calls }
  | .waitForDumpedObject :: calls =>
      if interpreter.dumpedObject then { interpreter with calls := calls } else interpreter
  | .waitForEnd sender document :: calls =>
      if interpreter.IsUnanswered document then interpreter
      else { interpreter with calls := calls }.die sender document
  | .waitForDeath _ _ socket :: calls =>
      if interpreter.IsUnanswered socket then interpreter
      else { interpreter with calls := calls }.detach

/-- What can happen.  Script functions can be called inside of a wait as well, by
timers. -/
inductive Action (Sequence : Type) where
  /-- A script starts, or has been evaluated. -/
  | run
  | finish
  /-- A slot that a remote object or `msleep` calls. -/
  | write (command : Command Sequence)
  | fetchProperty (path : QString)
  | pickObject
  | spawnDefaultsAndAttach
  /-- An application object is closed or destroyed. -/
  | close (uuid : Nat)
  /-- The connection of an application is accepted, or lost. -/
  | accept (application : Nat)
  | disconnect (socket : Nat)
  | acknowledge
  | dump
  | resume
  deriving DecidableEq, Repr

section

variable {Sequence : Type}

/-- An object is the script's once `connectRemoteApplication` has returned for it. -/
def Enabled (interpreter : InterpreterState) : Action Sequence → Prop
  | .run => interpreter.evaluating = false ∧ interpreter.calls = []
  | .finish => interpreter.evaluating = true ∧ interpreter.calls = []
  | .close uuid =>
      uuid < interpreter.objects ∧ .waitForAttach (.connected uuid) ∉ interpreter.calls
  | .accept application =>
      application < interpreter.started.length ∧ application ∉ interpreter.accepted
  | .disconnect socket => socket ∈ interpreter.accepted
  | _ => True

instance (interpreter : InterpreterState) (action : Action Sequence) :
    Decidable (interpreter.Enabled action) := by
  cases action <;> unfold Enabled <;> infer_instance

end

variable (keys : KeySequences)

def perform (interpreter : InterpreterState) : Action keys.Sequence → InterpreterState
  | .run =>
      { interpreter with
        applicationUuid := none, attachState := .notAttached, evaluating := true }
  | .finish => { interpreter with evaluating := false }.closeApplication none
  | .write command => interpreter.ensureAttached (.write (Interpreter.write keys command))
  | .fetchProperty path => interpreter.fetchProperty path
  | .pickObject => interpreter.pickObject
  | .spawnDefaultsAndAttach => interpreter.connectRemoteApplication
  | .close uuid => interpreter.close uuid
  | .accept application => interpreter.setSocket application
  | .disconnect socket => { interpreter with disconnected := socket :: interpreter.disconnected }
  | .acknowledge => interpreter.setAck
  | .dump => interpreter.setDumpedObject
  | .resume => interpreter.resume

/-- Nothing happens any more after a crash. -/
def next (interpreter : InterpreterState) (action : Action keys.Sequence) : InterpreterState :=
  if interpreter.crashed = false ∧ interpreter.Enabled action then
    interpreter.perform keys action
  else
    interpreter

end InterpreterState

end Hooq
