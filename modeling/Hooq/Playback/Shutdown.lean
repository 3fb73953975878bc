import Hooq.Playback.Acknowledgement
import Hooq.Playback.Closing

/-!
# The shutdown of a session

Once all requests are answered, the interpreter closes the document and then ends the
application.  Both are acknowledged once, and the player gives its socket away in
between, if the player has answered something before, or has found its flag set, and if
the line break behind the document arrives with the end tag.
-/

namespace Hooq

/-- Nothing is waited for once nothing is owed and all replies are handled. -/
theorem Ledger.over {Object Sequence : Type} {written : List (Reply Object)} {handled : Nat}
    {waiting : Option (Order Sequence)} {sent : List (Order Sequence)} {pendingAcks : Int}
    (ledger : Ledger written handled waiting sent pendingAcks []) (all : written.length ≤ handled) :
    waiting = none := by
  have outstanding := ledger.outstanding
  rw [List.drop_eq_nil_of_le all] at outstanding
  cases waiting with
  | none => rfl
  | some order => cases outstanding

/-- There is an application for each kind of objects: one that has none of them. -/
theorem nonempty_application (Object : Type) [DecidableEq Object] :
    Nonempty (Application Object) := by
  refine ⟨⟨⟨fun _ => [], fun _ => ⟨0, []⟩, fun _ => false, fun _ => none, fun _ => [], [],
    fun _ => 0, ?_, ?_, ?_, ?_⟩, fun _ point => point, 0, 0⟩⟩
  all_goals simp

namespace Session

section

variable {Object Sequence : Type}

/-- What a session has come to when it is shut down: every order is answered once, the
document was finished once, and the marshall quits. -/
structure Completed (requests : List (Request Sequence)) (session : Session Object Sequence) :
    Prop where
  sent : session.sent = requests.map .request ++ [.endDocument, .die]
  answers : session.player.answers = session.sent.map Order.answer
  waiting : session.waiting = none
  pendingAcks : session.pendingAcks = 0
  finished : session.player.finished = 1
  quitting : session.marshall = .quitting

variable [DecidableEq Object]

/-- The line break behind the document does not arrive alone. -/
def KeepsLineBreak (session : Session Object Sequence) : Action Object → Prop
  | .deliver count =>
      session.marshall = .resting → session.toPlayer.drop count ≠ [Marshall.newline]
  | _ => True

instance (session : Session Object Sequence) (action : Action Object) :
    Decidable (session.KeepsLineBreak action) :=
  match action with
  | .deliver count =>
      inferInstanceAs (Decidable
        (session.marshall = .resting → session.toPlayer.drop count ≠ [Marshall.newline]))
  | .send | .run _ | .endFlush | .waitFinished | .receive => isTrue trivial

end

/-- How far a session has come. -/
inductive Phase {Object Sequence : Type} (ackNext : Bool) (session : Session Object Sequence) :
    Prop where
  | script (underway : Underway ackNext session) (calls : session.player.Calls)
      (fresh : session.player.finished = 0)
  | stalled (stalled : session.Stalled)
  | closing (closing : session.Closing)
  | closed (closed : session.Closed)
  | handedOver (handedOver : session.HandedOver)
  | quits (quits : session.Quits)

section

variable {keys : KeySequences} {Object : Type} {ackNext : Bool}
  {session : Session Object keys.Sequence}

/-- While the script runs, the end of the document has not been sent. -/
theorem Underway.running (underway : Underway ackNext session)
    {requests : List (Request keys.Sequence)}
    (plan : session.sent ++ session.orders = requests.map .request ++ [.endDocument, .die]) :
    .endDocument ∉ session.sent := by
  obtain ⟨later, orders⟩ := underway.orders
  rw [orders, ← List.append_assoc] at plan
  have script := List.append_cancel_right plan
  intro sent
  have member : Order.endDocument ∈ requests.map .request := by
    rw [← script]
    exact List.mem_append_left _ sent
  obtain ⟨request, -, same⟩ := List.mem_map.mp member
  cases same

/-- The end of the document is sent. -/
theorem Underway.close (underway : Underway ackNext session) (calls : session.player.Calls)
    (fresh : session.player.finished = 0) (idle : session.waiting = none)
    (orders : session.orders = [.endDocument, .die])
    (acks : ackNext = true ∨ session.sent ≠ []) : (session.send keys).Closing := by
  obtain ⟨due, silent⟩ := underway.settled idle
  have owes := underway.owes
  rw [Owes, idle, due, silent] at owes
  have flag : session.player.ackNext = true := by
    by_cases unsent : session.sent = []
    · rw [underway.untouched unsent]
      exact acks.resolve_right (not_not.mpr unsent)
    · apply underway.sound.given due
      intro none
      have answers := owes.answers
      rw [List.append_nil, ← Player.answers, none] at answers
      exact unsent (List.map_eq_nil_iff.mp answers.symm)
  have stream : session.player.unread ++ (session.toPlayer ++ [.stop, Marshall.newline]) =
      session.stream ++ [.stop, Marshall.newline] := by
    rw [Session.stream, List.append_assoc]
  rw [send_eq orders]
  constructor
  · exact underway.sound
  · exact calls
  · exact due
  · exact flag
  · obtain ⟨fine, openRoot, still, depth⟩ := underway.flat
    exact ⟨fine, still, .inl ⟨openRoot, session.stream, stream, depth⟩⟩
  · change streamAnswers (session.player.unread ++
      (session.toPlayer ++ [.stop, Marshall.newline])) = []
    rw [stream, streamAnswers_append, silent]
    rfl
  · intro lone
    have length := congrArg List.length lone
    simp [Order.tokens, textTokens, QString.ofString] at length
  · exact underway.resting
  · exact fresh
  · rfl
  · exact owes.send .endDocument

end

section

variable {keys : KeySequences} {Object : Type} {ackNext : Bool}
  {requests : List (Request keys.Sequence)} {session : Session Object keys.Sequence}

theorem Phase.send (phase : Phase ackNext session)
    (plan : session.sent ++ session.orders = requests.map .request ++ [.endDocument, .die])
    (acks : ackNext = true ∨ requests ≠ []) (idle : session.waiting = none)
    (pending : session.orders ≠ []) : Phase ackNext (session.send keys) := by
  cases phase with
  | script underway calls fresh =>
      obtain ⟨later, orders⟩ := underway.orders
      cases later with
      | nil =>
          refine .closing (underway.close calls fresh idle orders (acks.imp_right fun script => ?_))
          rw [orders] at plan
          rw [List.append_cancel_right plan]
          exact fun none => script (List.map_eq_nil_iff.mp none)
      | cons request later =>
          have sent := (underway.send idle orders).1
          rw [send_eq orders] at sent ⊢
          exact .script sent calls fresh
  | stalled stalled => exact absurd idle stalled.waits
  | closing closing =>
      obtain ⟨order, waiting, -⟩ := closing.owes.of_owed (List.cons_ne_nil _ _)
      rw [idle] at waiting
      cases waiting
  | closed closed => exact .closed (closed.send idle pending)
  | handedOver handedOver => exact .handedOver (handedOver.send idle pending)
  | quits quits => exact absurd quits.orders pending

variable [DecidableEq Object]

theorem Phase.deliver (phase : Phase ackNext session) {count : Nat}
    (enabled : session.Enabled (.deliver count : Action Object))
    (keeps : session.KeepsLineBreak (.deliver count : Action Object)) :
    Phase ackNext (session.deliver count) := by
  obtain ⟨alive, turn, -, -⟩ := id enabled
  cases phase with
  | script underway calls fresh =>
      have callsNext := calls.readyRead turn (session.toPlayer.take count)
      rw [Player.readyRead] at callsNext
      dsimp only at callsNext
      rw [if_pos underway.sound.connected] at callsNext
      have arrived := (underway.deliver count).1
      rw [deliver_eq underway.sound.connected underway.resting] at arrived ⊢
      exact .script arrived callsNext fresh
  | stalled stalled => exact .stalled (stalled.next enabled)
  | closing closing => exact .closing (closing.deliver turn (keeps closing.resting))
  | closed closed =>
      rw [Player.InEventLoop, closed.stack] at turn
      exact absurd turn (by decide)
  | handedOver handedOver =>
      rcases handedOver.deliver count with listens | quits
      · exact .handedOver listens
      · exact .quits quits
  | quits quits => exact absurd quits.quitting alive.2.1

theorem Phase.run (phase : Phase ackNext session)
    (plan : session.sent ++ session.orders = requests.map .request ++ [.endDocument, .die])
    {application : Application Object} (enabled : session.Enabled (.run application)) :
    Phase ackNext (session.run keys application) := by
  cases phase with
  | script underway calls fresh =>
      by_cases safe : session.player.StepsSafely application
      case neg => exact .stalled (underway.stalls (underway.running plan) safe)
      case pos =>
        obtain ⟨quiet, next⟩ := underway.run safe
        have still := underway.flat.still
        have stillNext := next.flat.still
        have steps := underway.sound.steps keys application still safe stillNext next.flat.fine
        rw [quiet]
        refine .script next (calls.step keys application underway.sound still safe stillNext) ?_
        exact steps.finished.trans fresh
  | stalled stalled => exact .stalled (stalled.next enabled)
  | closing closing =>
      rcases closing.run application with goesOn | ended
      · exact .closing goesOn
      · exact .closed ended
  | closed closed => exact .handedOver (closed.run application)
  | handedOver handedOver => exact absurd (.inl handedOver.stack) enabled.2
  | quits quits => exact absurd quits.quitting enabled.1.2.1

/-- A flush or a sleep is over. -/
theorem Phase.resume (phase : Phase ackNext session) {action : Action Object}
    (resumes : action = .endFlush ∨ action = .waitFinished) (enabled : session.Enabled action) :
    Phase ackNext (session.next keys action) := by
  have flushing (head : session.player.stack.head? = some .flushing) :
      .flushing ∈ session.player.stack := List.mem_of_mem_head? head
  cases phase with
  | script underway calls fresh =>
      rcases resumes with rfl | rfl
      · exact .script (underway.endFlush enabled.2) (calls.endFlush enabled.2) fresh
      · obtain ⟨alive, turn, sleeping⟩ := enabled
        obtain ⟨replies, -, shape⟩ := underway.sound.waitFinished_eq sleeping
        obtain ⟨processingEvents, stack, same⟩ := Player.processEvents_eq { session.player with
          timers := 0, processingEvents := false, written := session.player.written ++ replies }
        refine .script (underway.waitFinished sleeping)
          (calls.waitFinished underway.sound turn sleeping) ?_
        change session.player.waitFinished.finished = 0
        rw [shape, same]
        exact fresh
  | stalled stalled => exact .stalled (stalled.next enabled)
  | closing closing =>
      obtain ⟨queue, timers, -⟩ := Player.settled_of_due closing.due
      rcases resumes with rfl | rfl
      · exact absurd queue (closing.calls.flushes (flushing enabled.2))
      · exact absurd timers enabled.2.2
  | closed closed =>
      rcases resumes with rfl | rfl
      · have inside := flushing enabled.2
        rw [closed.stack] at inside
        exact absurd inside (by decide)
      · exact absurd closed.timers enabled.2.2
  | handedOver handedOver =>
      rcases resumes with rfl | rfl
      · have inside := flushing enabled.2
        rw [handedOver.stack] at inside
        cases inside
      · exact absurd handedOver.timers enabled.2.2
  | quits quits =>
      rcases resumes with rfl | rfl
      · exact absurd quits.quitting enabled.1.2.1
      · exact absurd quits.quitting enabled.1.2.1

theorem Phase.receive (phase : Phase ackNext session) {reply : Reply Object}
    (arrives : session.player.written[session.handled]? = some reply) :
    Phase ackNext ({ session with handled := session.handled + 1 }.processReply reply) := by
  cases phase with
  | script underway calls fresh =>
      rcases underway.receive arrives with ⟨same, kept⟩ | ⟨same, -, -, answered⟩
      · rw [same]
        exact .script kept calls fresh
      · rw [same]
        exact .script answered calls fresh
  | stalled stalled =>
      have inBounds : session.Enabled (.receive : Action Object) :=
        (List.getElem?_eq_some_iff.mp arrives).1
      have kept := stalled.next inBounds
      rw [Session.next, arrives] at kept
      exact .stalled kept
  | closing closing => exact .closing (closing.receive arrives)
  | closed closed => exact .closed (closed.receive arrives)
  | handedOver handedOver => exact .handedOver (handedOver.receive arrives)
  | quits quits => exact .quits (quits.receive arrives)

/-- Whatever happens, the session goes on from one phase to the next. -/
theorem Phase.next (phase : Phase ackNext session)
    (plan : session.sent ++ session.orders = requests.map .request ++ [.endDocument, .die])
    (acks : ackNext = true ∨ requests ≠ []) {action : Action Object}
    (enabled : session.Enabled action) (keeps : session.KeepsLineBreak action) :
    Phase ackNext (session.next keys action) := by
  cases action with
  | send => exact phase.send plan acks enabled.1 enabled.2
  | deliver count => exact phase.deliver enabled keeps
  | run application => exact phase.run plan enabled
  | endFlush => exact phase.resume (.inl rfl) enabled
  | waitFinished => exact phase.resume (.inr rfl) enabled
  | receive =>
      rw [Session.next]
      split
      next reply arrives => exact phase.receive arrives
      next => exact phase

/-! ## The end of a run -/

/-- What is on its way arrives. -/
theorem enabled_deliver (alive : session.IsAlive) (turn : session.player.InEventLoop)
    (unread : session.player.unread = []) (pending : session.stream ≠ []) :
    session.Enabled (.deliver 1 : Action Object) := by
  refine ⟨alive, turn, Nat.one_pos, ?_⟩
  rw [Session.stream, unread, List.nil_append] at pending
  exact List.length_pos_of_ne_nil pending

/-- While the end of the document is on its way, something can happen. -/
theorem Closing.not_isOver (closing : session.Closing) : ¬session.IsOver := by
  intro isOver
  have alive : session.IsAlive := by
    refine ⟨closing.sound.alive, ?_, ?_⟩ <;> rw [closing.resting] <;> decide
  by_cases turn : session.player.InEventLoop
  case neg =>
    obtain ⟨application⟩ := nonempty_application Object
    exact isOver (.run application) ⟨alive, turn⟩
  case pos =>
    rcases id turn with empty | flushing
    · have unread : session.player.unread = [] := by
        by_contra pending
        rcases closing.sound.reads pending with reading | failed
        · rw [Player.IsReading, empty] at reading
          rcases reading with inside | inside <;> cases inside
        · rw [closing.closes.fine] at failed
          cases failed
      have pending : session.stream ≠ [] := by
        rcases closing.closes.ends with ⟨-, front, shape, -⟩ | ⟨-, -, shape⟩
        · rw [shape]
          exact List.append_ne_nil_of_right_ne_nil _ (List.cons_ne_nil _ _)
        · rw [shape]
          exact List.cons_ne_nil _ _
      exact isOver (.deliver 1) (enabled_deliver alive turn unread pending)
    · exact isOver .endFlush ⟨alive, flushing⟩

theorem Closed.not_isOver (closed : session.Closed) : ¬session.IsOver := by
  intro isOver
  obtain ⟨application⟩ := nonempty_application Object
  apply isOver (.run application)
  refine ⟨⟨closed.alive, ?_, ?_⟩, ?_⟩
  · rw [closed.resting]
    decide
  · rw [closed.resting]
    decide
  · rw [Player.InEventLoop, closed.stack]
    decide

theorem HandedOver.not_isOver (handedOver : session.HandedOver) : ¬session.IsOver := by
  intro isOver
  have alive : session.IsAlive := by
    refine ⟨handedOver.alive, ?_, ?_⟩ <;> rw [handedOver.listening] <;> decide
  have turn : session.player.InEventLoop := .inl handedOver.stack
  rcases handedOver.dies with ⟨orders, -, owes⟩ | ⟨-, stream, -⟩
  · by_cases arrives : session.handled < session.player.written.length
    · exact isOver .receive arrives
    · have idle := owes.over (Nat.le_of_not_lt arrives)
      refine isOver .send ⟨idle, ?_⟩
      rw [orders]
      exact List.cons_ne_nil _ _
  · apply isOver (.deliver 1)
    refine ⟨alive, turn, Nat.one_pos, ?_⟩
    -- The line break is not there yet.
    by_contra short
    have none : session.toPlayer = [] := List.length_eq_zero_iff.mp (by omega)
    have unread := handedOver.unread
    rw [Session.stream, none, List.append_nil] at stream
    rw [stream] at unread
    exact unread (by decide)

/-- A session that is over once the end of its document is sent is shut down. -/
theorem Phase.completed (phase : Phase ackNext session)
    (plan : session.sent ++ session.orders = requests.map .request ++ [.endDocument, .die])
    (ended : .endDocument ∈ session.sent) (isOver : session.IsOver) :
    session.Completed requests := by
  cases phase with
  | script underway calls fresh => exact absurd ended (underway.running plan)
  | stalled stalled => exact absurd ended stalled.running
  | closing closing => exact absurd isOver closing.not_isOver
  | closed closed => exact absurd isOver closed.not_isOver
  | handedOver handedOver => exact absurd isOver handedOver.not_isOver
  | quits quits =>
      obtain ⟨quitting, finished, orders, owes⟩ := quits
      have handled : session.player.written.length ≤ session.handled :=
        Nat.le_of_not_lt (isOver .receive)
      have waiting := owes.over handled
      have answers := owes.answers
      have counted := owes.counted
      rw [waiting] at counted
      rw [List.append_nil] at answers
      rw [orders, List.append_nil] at plan
      exact ⟨plan, answers, waiting, counted, finished, quitting⟩

end

/-! ## A sleep, and sessions that do not end -/

section

/-- Behind the sleep of `sleepRun`, the session is shut down. -/
def shutdownRun : List (Action (Fin 3)) :=
  sleepRun ++ [.run buttonApplication, .send, .deliver 2] ++
    List.replicate 3 (.run buttonApplication) ++ [.receive, .send, .deliver 4, .receive]

/-- A session without requests: the document is closed, and read in one piece. -/
def idleRun : List (Action (Fin 3)) :=
  List.replicate 3 (.run buttonApplication) ++ [.send, .deliver 3] ++
    List.replicate 6 (.run buttonApplication)

/-- A session without requests where the line break behind the document arrives alone. -/
def lateLineBreakRun : List (Action (Fin 3)) :=
  List.replicate 3 (.run buttonApplication) ++ [.send, .deliver 2] ++
    List.replicate 6 (.run buttonApplication) ++ [.receive, .deliver 1, .send]

/-- The run is one that a session without requests can make, and it ends with nothing left
to do before the session is completed. -/
def StopsShort (ackNext : Bool) (run : List (Action (Fin 3))) : Prop :=
  let start : Session (Fin 3) plainSequences.Sequence := new ackNext []
  let session := run.foldl (next plainSequences) start
  Library.Run.StepsMeet (next plainSequences) Enabled start run ∧
    .endDocument ∈ session.sent ∧ session.IsOver ∧ ¬session.Completed []

end

end Session

end Hooq
