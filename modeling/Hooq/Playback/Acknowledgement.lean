import Hooq.Control.ReplyStream
import Hooq.Library.Run
import Hooq.Playback.Effort
import Hooq.Playback.LockStep
import Hooq.Playback.Wire

/-!
# Acknowledgements in the runs of a script

Every request of a script is answered once, when the player is done with it, and the
interpreter never counts more than one acknowledgement as pending.  What it takes is
that the player finds the objects that it cannot do without, and that no sleep is
negative: Qt starts no timer for one.
-/

namespace Hooq

namespace Session

/-! ## Replies as lines -/

section

variable {Object Sequence Double : Type} {session : Session Object Sequence}

/-- What becomes of the wait with a line that `processSocketData` has read. -/
def handle (session : Session Object Sequence) : Handling Double → Session Object Sequence
  | .setAck => session.setAck
  | .dumpedObject _ => { session with waiting := session.waiting.filter Order.waitsForAck }
  | .objectNotFound _ | .objectPicked _ => session

variable (describe : Object → ObjectDocument)

/-- What the player writes for a reply: an object stands in it with its document. -/
def described : Reply Object → Reply ObjectDocument
  | .ack => .ack
  | .notFound objectPath => .notFound objectPath
  | .dumped object => .dumped (describe object)
  | .picked object => .picked (describe object)

variable {describe} {toDouble : QString → Double}

theorem handle_eq_processReply {reply : Reply Object} {handling : Handling Double}
    (whole : Replies.HandlesWhole toDouble (described describe reply) handling) :
    session.handle handling = session.processReply reply := by
  cases reply <;> cases handling <;> first | rfl | cases whole

/-- The lines do what the replies do, however their bytes are cut outside of the documents,
if no path of a missing object has a line break. -/
theorem foldl_handle_eq (xml : ObjectXml) {replies : List (Reply Object)}
    {deliveries : List QByteArray}
    (arrives : deliveries.flatten = Replies.wire xml (replies.map (described describe)))
    (reads : ∀ object, .dumped object ∈ replies ∨ .picked object ∈ replies →
      xml.Reads (describe object))
    (noBreak : ∀ path, .notFound path ∈ replies → newlineByte ∉ path.toLatin1)
    (whole : Replies.AllWhole xml (replies.map (described describe)) deliveries) :
    (Replies.receive xml toDouble deliveries).1.foldl handle session =
      replies.foldl processReply session := by
  have handled := Replies.handlesWhole_of_allWhole xml toDouble arrives ?_ ?_ whole
  · rw [List.forall₂_map_left_iff] at handled
    generalize (Replies.receive xml toDouble deliveries).1 = handlings at handled
    clear arrives reads noBreak whole
    induction handled generalizing session with
    | nil => rfl
    | cons first rest ih =>
        rw [List.foldl_cons, List.foldl_cons, handle_eq_processReply first, ih]
  · intro reply member object isDocument
    obtain ⟨original, isReply, rfl⟩ := List.mem_map.mp member
    cases original with
    | ack | notFound => cases isDocument
    | dumped dumped =>
        cases isDocument
        exact reads dumped (.inl isReply)
    | picked picked =>
        cases isDocument
        exact reads picked (.inr isReply)
  · intro path member
    obtain ⟨original, isReply, same⟩ := List.mem_map.mp member
    cases original with
    | notFound objectPath =>
        cases same
        exact noBreak path isReply
    | ack | dumped | picked => cases same

end

/-! ## Counted acknowledgements -/

section

variable {Object Sequence : Type} (session : Session Object Sequence)

/-- What the interpreter can rely on while the script runs: one answer for each order,
the one that it is waiting for last, and given when the player is done. -/
structure Counted : Prop where
  alive : session.player.failed = false
  pendingAcks : session.pendingAcks =
    if session.waiting.map Order.answer = some .ack then 1 else 0
  inOrder : session.player.answers <+: session.sent.map Order.answer
  done : session.player.answers = session.sent.map Order.answer →
    session.player.eventQueue = [] ∧ session.player.timers = 0
  answered : session.waiting = none → session.player.answers = session.sent.map Order.answer

end

section

variable (keys : KeySequences) {Object : Type} [DecidableEq Object]

/-- An action that can happen, with the objects there that the player cannot do without. -/
def Proceeds (session : Session Object keys.Sequence) (action : Action Object) : Prop :=
  session.Enabled action ∧ session.FindsTargets action

variable {keys} {ackNext : Bool} {session : Session Object keys.Sequence}

theorem sent_next (session : Session Object keys.Sequence) (action : Action Object) :
    session.sent ⊆ (session.next keys action).sent := by
  obtain ⟨more, sent, -⟩ := session.orders_next action
  rw [sent]
  exact List.subset_append_left _ _

/-- Until the end of the document is sent, every action keeps in step. -/
theorem InStep.next (inStep : InStep keys ackNext session) {action : Action Object}
    (proceeds : session.Proceeds keys action) :
    InStep keys ackNext (session.next keys action) ∨
      .endDocument ∈ (session.next keys action).sent := by
  obtain ⟨enabled, finds⟩ := proceeds
  cases action with
  | send =>
      obtain ⟨idle, -⟩ := enabled
      obtain ⟨requests, orders, -⟩ := inStep.orders
      cases requests with
      | nil =>
          right
          rw [Session.next, Session.send, orders]
          exact List.mem_append_right _ List.mem_cons_self
      | cons request later => exact .inl (inStep.send idle orders)
  | deliver count => exact .inl (inStep.deliver count)
  | run application => exact .inl (inStep.run finds)
  | endFlush => exact .inl (inStep.endFlush enabled.2)
  | waitFinished => exact .inl (inStep.waitFinished enabled.2.2)
  | receive =>
      left
      rw [Session.next]
      split
      next reply arrives => exact inStep.receive arrives
      next => exact inStep

/-- What has been answered, is owed or has not been read are the answers to the orders. -/
theorem InStep.answers (inStep : InStep keys ackNext session) :
    session.player.answers ++ session.player.due.filterMap id ++ streamAnswers session.stream =
      session.sent.map Order.answer := by
  rw [List.append_assoc]
  exact inStep.underway.owes.answers

theorem InStep.counted (inStep : InStep keys ackNext session) : session.Counted where
  alive := inStep.sound.alive
  pendingAcks := inStep.pendingAcks
  inOrder := ⟨_, by rw [← inStep.answers, List.append_assoc]⟩
  done all := by
    have answers := inStep.answers
    rw [← all, List.append_assoc, List.append_right_eq_self, List.append_eq_nil_iff] at answers
    obtain ⟨queue, timers, -⟩ := Player.settled_of_due (inStep.sound.due_eq_nil answers.1)
    exact ⟨queue, timers⟩
  answered idle := by
    have answers := inStep.answers
    have outstanding := inStep.outstanding
    rw [idle, Session.outstanding, List.append_assoc] at outstanding
    rwa [List.append_assoc, (List.append_eq_nil_iff.mp outstanding).2, List.append_nil] at answers

/-- While the interpreter waits, something can happen. -/
theorem InStep.progress (inStep : InStep keys ackNext session) (waits : session.waiting ≠ none)
    (application : Application Object) :
    ∃ action, action ∈ [.deliver 1, .run application, .endFlush, .waitFinished, .receive] ∧
      session.Enabled action := by
  have alive : session.IsAlive := by
    refine ⟨inStep.sound.alive, ?_, ?_⟩ <;> rw [inStep.resting] <;> decide
  by_cases turn : session.player.InEventLoop
  case neg => exact ⟨.run application, by simp, alive, turn⟩
  case pos =>
    rcases turn with empty | flushing
    case inr => exact ⟨.endFlush, by simp, alive, flushing⟩
    case inl =>
      have inLoop : session.player.InEventLoop := .inl empty
      by_cases sleeping : session.player.timers = 0
      case neg => exact ⟨.waitFinished, by simp, alive, inLoop, sleeping⟩
      case pos =>
        by_cases handled : session.handled < session.player.written.length
        case pos => exact ⟨.receive, by simp, handled⟩
        case neg =>
          refine ⟨.deliver 1, by simp, alive, inLoop, Nat.one_pos, ?_⟩
          obtain ⟨order, waiting⟩ := Option.ne_none_iff_exists'.mp waits
          have outstanding := inStep.outstanding
          have returned : session.returning = [] := by
            rw [Session.returning, List.drop_eq_nil_of_le (Nat.le_of_not_lt handled)]
            rfl
          rw [Session.outstanding, returned, List.nil_append, waiting] at outstanding
          -- The player does not wait for the user, who answers no order.
          have mode : session.player.mode = .playback := by
            cases mode : session.player.mode with
            | playback => rfl
            | pick =>
                have owed : session.player.due.filterMap id = .picked ::
                    (session.player.eventQueue.map Event.answer).filterMap id := by
                  simp [Player.due, Player.suspended, sleeping, mode]
                rw [owed] at outstanding
                have picked : Answer.picked = order.answer := (List.cons.inj outstanding).1
                rw [Order.answer] at picked
                split at picked <;> cases picked
          have idle : session.player.processingEvents = false := by
            have active := inStep.sound.active
            cases working : session.player.processingEvents with
            | false => rfl
            | true => simp [Player.activities, empty, sleeping, mode, working] at active
          have queue : session.player.eventQueue = [] := by
            by_contra pending
            rw [inStep.sound.queued pending] at idle
            cases idle
          have unread : session.player.unread = [] := by
            by_contra pending
            rcases inStep.sound.reads pending with reading | failed
            · rw [Player.IsReading, empty] at reading
              rcases reading with inside | inside <;> cases inside
            · rw [inStep.flat.fine] at failed
              cases failed
          cases pending : session.toPlayer with
          | nil =>
              simp [Player.due, Player.suspended, sleeping, mode, queue, Session.stream, unread,
                pending, streamAnswers] at outstanding
          | cons token rest => exact Nat.succ_le_succ (Nat.zero_le _)

/-- In a script of requests that are not negative sleeps, every order is answered once,
when the player is done with it; and every wait ends, since something can happen in it
and every action leaves less to do. -/
theorem counted_of_proceeds (ackNext : Bool) (requests : List (Request keys.Sequence))
    (timed : ∀ request ∈ requests, request.IsTimed) (actions : List (Action Object))
    (proceeds : Library.Run.StepsMeet (Session.next keys) (Proceeds keys)
      (new ackNext requests) actions)
    (script : .endDocument ∉ (actions.foldl (Session.next keys) (new ackNext requests)).sent) :
    let session : Session Object keys.Sequence :=
      actions.foldl (Session.next keys) (new ackNext requests)
    session.Counted ∧
      (session.waiting ≠ none → ∀ application : Application Object,
        ∃ action, action ∈ [.deliver 1, .run application, .endFlush, .waitFinished, .receive] ∧
          session.Enabled action) ∧
      actions.length + session.effort keys ≤
        (new ackNext requests : Session Object keys.Sequence).effort keys := by
  have kept (session : Session Object keys.Sequence) (action : Action Object)
      (before : InStep keys ackNext session ∨ .endDocument ∈ session.sent)
      (proceeds : session.Proceeds keys action) :
      InStep keys ackNext (session.next keys action) ∨
        .endDocument ∈ (session.next keys action).sent := by
    rcases before with inStep | ended
    · exact inStep.next proceeds
    · exact .inr (sent_next session action ended)
  have reached := Library.Run.invariant_foldl kept (.inl (inStep_new ackNext requests timed))
    proceeds
  have inStep := reached.resolve_right script
  refine ⟨inStep.counted, inStep.progress, ?_⟩
  exact Library.Run.length_add_le (Session.effort keys)
    (fun session action proceeds => session.effort_next_lt action proceeds.1) proceeds

/-- Nothing more can happen. -/
def IsOver {Sequence : Type} (session : Session Object Sequence) : Prop :=
  ∀ action : Action Object, ¬session.Enabled action

/-- What can be tested of a session that is over: neither party has anything to do. -/
def Rests {Sequence : Type} (session : Session Object Sequence) : Prop :=
  (session.waiting ≠ none ∨ session.orders = []) ∧
    session.player.written.length ≤ session.handled ∧
    (¬session.IsAlive ∨
      session.player.stack = [] ∧ session.player.timers = 0 ∧ session.toPlayer = [])

instance {Sequence : Type} (session : Session Object Sequence) : Decidable session.Rests :=
  inferInstanceAs (Decidable (_ ∧ _ ∧ _))

theorem Rests.isOver {Sequence : Type} {session : Session Object Sequence}
    (rests : session.Rests) : session.IsOver := by
  obtain ⟨waits, handled, settled⟩ := rests
  intro action enabled
  cases action with
  | send => exact waits.elim (· enabled.1) enabled.2
  | receive => exact absurd enabled (Nat.not_lt_of_le handled)
  | deliver count =>
      obtain ⟨alive, -, positive, bounded⟩ := enabled
      rcases settled with dead | ⟨-, -, empty⟩
      · exact dead alive
      · rw [empty] at bounded
        exact absurd positive (Nat.not_lt_of_le bounded)
  | run application =>
      obtain ⟨alive, turn⟩ := enabled
      exact settled.elim (· alive) fun rest => turn (.inl rest.1)
  | endFlush =>
      obtain ⟨alive, flushing⟩ := enabled
      rcases settled with dead | ⟨empty, -, -⟩
      · exact dead alive
      · simp [empty] at flushing
  | waitFinished =>
      obtain ⟨alive, -, sleeping⟩ := enabled
      exact settled.elim (· alive) fun rest => sleeping rest.2.1

end

/-! ## A sleep, and requests without an answer -/

section

/-- A sleep, from its element to its acknowledgement. -/
def sleepRun : List (Action (Fin 3)) :=
  List.replicate 3 (.run buttonApplication) ++ [.send, .deliver 4] ++
    List.replicate 8 (.run buttonApplication) ++ [.waitFinished, .receive]

theorem sleepRun_proceeds :
    Library.Run.StepsMeet (next plainSequences) (Proceeds plainSequences)
      (new false [.command (.sleep 0)]) sleepRun := by
  have sleeps : Library.Run.StepsMeet (next plainSequences)
      (fun session action => session.Enabled action ∧
        (session.waiting = none ∨
          session.waiting = some (.request (.command (.sleep 0)))))
      (new false [.command (.sleep 0)]) sleepRun := by decide +kernel
  refine sleeps.mono fun session action step => ⟨step.1, ?_⟩
  cases action with
  | run application =>
      rintro request ⟨waiting, -⟩
      rcases step.2 with idle | sleeping
      · rw [idle] at waiting
        cases waiting
      · rw [sleeping] at waiting
        cases waiting
        trivial
  | _ => trivial

/-- The sleep is acknowledged once. -/
theorem counted_sleepRun :
    (sleepRun.foldl (next plainSequences) (new false [.command (.sleep 0)])).Counted :=
  (counted_of_proceeds false [.command (.sleep 0)] (by simp [Request.IsTimed]) sleepRun
    sleepRun_proceeds (by decide +kernel)).1

/-- A window with an action in it, which is no widget. -/
def actionWindow : ObjectTree (Fin 2) where
  objectName object := if object = 0 then "window" else "save"
  metaObject object := if object = 0 then ⟨0, "QDialog"⟩ else ⟨1, "QAction"⟩
  isWidget object := decide (object = 0)
  parent object := if object = 0 then none else some 0
  children object := if object = 0 then [1] else []
  topLevelWidgets := [0]
  depth object := if object = 0 then 0 else 1
  mem_children := by decide
  children_nodup := by decide
  depth_lt := by decide
  topLevelWidgets_isWidget := by decide

def actionApplication (startDragTime : Int32) : Application (Fin 2) :=
  ⟨actionWindow, fun _ point => point, startDragTime, 10⟩

/-- A request is sent and worked on for a number of steps. -/
def requestRun (application : Application (Fin 2)) (tokens steps : Nat) :
    List (Action (Fin 2)) :=
  List.replicate 3 (.run application) ++ [.send, .deliver tokens] ++
    List.replicate steps (.run application)

/-- A drag is worked on up to its sleep. -/
def dragRun (application : Application (Fin 2)) : List (Action (Fin 2)) :=
  requestRun application 3 5 ++
    [.endFlush, .run application, .run application, .endFlush] ++
    List.replicate 6 (.run application)

/-- What is asked for exists, but it is never acknowledged: an object to close that is no
widget, a sleep that is negative, and a drag in an application with a negative time for
the start of a drag. -/
theorem requests_not_acknowledged :
    (actionWindow.findObject "window::save").isSome = true ∧
      (actionWindow.findObject "window").isSome = true ∧
      ∀ sample ∈ [
          (.close "window::save", requestRun (actionApplication 500) 3 5),
          (.sleep (-1), requestRun (actionApplication 500) 5 8),
          (.dragAndDrop "window" ⟨0, 0⟩ "window" ⟨0, 0⟩, dragRun (actionApplication (-2)))],
        let start : Session (Fin 2) plainSequences.Sequence := new true [.command sample.1]
        let session := sample.2.foldl (next plainSequences) start
        Library.Run.StepsMeet (next plainSequences) Enabled start sample.2 ∧
          session.waiting = some (.request (.command sample.1)) ∧
          session.player.answers = [] ∧ session.IsOver := by
  refine ⟨by decide +kernel, by decide +kernel, ?_⟩
  intro sample member
  simp only [List.mem_cons, List.not_mem_nil, or_false] at member
  rcases member with rfl | rfl | rfl
  all_goals
    refine And.imp_right (And.imp_right (And.imp_right Rests.isOver)) ?_
    decide +kernel

end

end Session

end Hooq
