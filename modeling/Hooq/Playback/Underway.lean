import Hooq.Playback.Ledger

/-!
# A script that is under way

While the interpreter sends one request at a time and the player finds what it cannot
do without, everything that the player has to answer, in the stream, in the queue and on
the way back, is the answer to the request that the interpreter waits for.
-/

namespace Hooq

namespace Ledger

variable {Object Sequence : Type} {written : List (Reply Object)} {handled : Nat}
  {waiting : Option (Order Sequence)} {pendingAcks : Int} {owed : List Answer}

/-- Nothing is owed before the first order. -/
theorem unsent (ledger : Ledger written handled waiting [] pendingAcks owed) : owed = [] := by
  have told := ledger.told
  have outstanding := ledger.outstanding
  rw [(List.append_eq_nil_iff.mp told).2] at outstanding
  exact (List.append_eq_nil_iff.mp outstanding).2

end Ledger

namespace Player

variable {Object Sequence : Type} {player next : Player Object Sequence}

/-- What keeps what is promised writes what is owed. -/
theorem pays_of_promised {replies : List (Reply Object)}
    (written : next.written = player.written ++ replies)
    (promised : next.promised ++ streamAnswers next.unread =
      player.promised ++ streamAnswers player.unread) (rest : List Token) :
    replies.filterMap Reply.answer ++
        (next.due.filterMap id ++ streamAnswers (next.unread ++ rest)) =
      player.due.filterMap id ++ streamAnswers (player.unread ++ rest) := by
  have answers : next.answers = player.answers ++ replies.filterMap Reply.answer := by
    rw [Player.answers, written, List.filterMap_append, Player.answers]
  rw [Player.promised, Player.promised, answers, List.append_assoc, List.append_assoc,
    List.append_assoc] at promised
  have owed := List.append_cancel_left promised
  rw [streamAnswers_append, streamAnswers_append, ← List.append_assoc (player.due.filterMap id),
    ← owed]
  simp only [List.append_assoc]

end Player

section

variable (keys : KeySequences)

/-- A request is one known element, with text only for a sleep. -/
theorem streamAnswers_request (request : Request keys.Sequence) :
    streamAnswers (request.element keys).tokens = [(Order.request request).answer] := by
  have single (name : String) (attributes : Attributes) (text : QString) (answer : Answer)
      (known : elementAnswer (QString.ofString name) = some answer) :
      streamAnswers (Element.tokens ⟨name, attributes, text⟩) = [answer] := by
    rw [Element.tokens, streamAnswers_start, streamAnswers_append, streamAnswers_textTokens]
    simp [known, streamAnswers]
  cases request with
  | dump objectPath => exact single _ _ _ _ rfl
  | command command =>
      cases command with
      | key action => cases action <;> exact single _ _ _ _ rfl
      | mouse action => cases action <;> exact single _ _ _ _ rfl
      | _ => exact single _ _ _ _ rfl

end

namespace Session

/-- While the script runs, only the request that is waited for is owed an answer. -/
structure Underway {Object Sequence : Type} (ackNext : Bool) (session : Session Object Sequence) :
    Prop where
  sound : session.player.Sound
  flat : session.player.reader.Flat session.stream
  resting : session.marshall = .resting
  owes : session.Owes (session.player.due.filterMap id ++ streamAnswers session.stream)
  script : ∀ order, session.waiting = some order → ∃ request, order = .request request
  orders : ∃ requests : List (Request Sequence),
    session.orders = requests.map .request ++ [.endDocument, .die]
  untouched : session.sent = [] → session.player.ackNext = ackNext

section

variable {Object Sequence : Type} {ackNext : Bool} {session : Session Object Sequence}

theorem underway_new (ackNext : Bool) (requests : List (Request Sequence)) :
    Underway ackNext (new ackNext requests : Session Object Sequence) where
  sound := Player.sound_new ackNext
  flat := ⟨rfl, rfl, nofun, rfl⟩
  resting := rfl
  owes := ⟨Nat.zero_le _, rfl, rfl, rfl⟩
  script := nofun
  orders := ⟨requests, rfl⟩
  untouched _ := rfl

/-- Before the first request the player has nothing to do. -/
theorem Underway.unsent (underway : Underway ackNext session) (unsent : session.sent = []) :
    session.player.due = [] := by
  have owes := underway.owes
  rw [Owes, unsent] at owes
  exact underway.sound.due_eq_nil (List.append_eq_nil_iff.mp owes.unsent).1

/-- An interpreter that does not wait has been told everything. -/
theorem Underway.settled (underway : Underway ackNext session) (idle : session.waiting = none) :
    session.player.due = [] ∧ streamAnswers session.stream = [] := by
  have owes := underway.owes
  rw [Owes, idle] at owes
  obtain ⟨owed, silent⟩ := List.append_eq_nil_iff.mp owes.settled
  exact ⟨underway.sound.due_eq_nil owed, silent⟩

/-- A call of the player that reads nothing. -/
theorem Underway.of_call (underway : Underway ackNext session) {player : Player Object Sequence}
    (replies : List (Reply Object)) (sound : player.Sound)
    (written : player.written = session.player.written ++ replies)
    (promised : player.promised = session.player.promised)
    (unread : player.unread = session.player.unread)
    (reader : player.reader = session.player.reader)
    (flag : player.ackNext = session.player.ackNext) :
    Underway ackNext { session with player := player } := by
  have pays := Player.pays_of_promised written (by rw [promised, unread]) session.toPlayer
  constructor
  · exact sound
  · rw [stream, unread, reader]
    exact underway.flat
  · exact underway.resting
  · rw [Owes, written]
    exact underway.owes.write pays
  · exact underway.script
  · exact underway.orders
  · rw [flag]
    exact underway.untouched

theorem Underway.endFlush (underway : Underway ackNext session)
    (flushing : session.player.stack.head? = some .flushing) :
    Underway ackNext { session with player := session.player.endFlush } :=
  underway.of_call [] (underway.sound.endFlush flushing) (List.append_nil _).symm rfl rfl rfl rfl

theorem Underway.waitFinished (underway : Underway ackNext session)
    (sleeping : session.player.timers ≠ 0) :
    Underway ackNext { session with player := session.player.waitFinished } := by
  obtain ⟨sound, promised⟩ := underway.sound.waitFinished sleeping
  obtain ⟨replies, -, shape⟩ := underway.sound.waitFinished_eq sleeping
  obtain ⟨processingEvents, stack, same⟩ := Player.processEvents_eq { session.player with
    timers := 0, processingEvents := false, written := session.player.written ++ replies }
  rw [same] at shape
  apply underway.of_call replies sound
  · rw [shape]
  · exact promised
  · rw [shape]
  · rw [shape]
  · rw [shape]

/-- Tokens arrive while the document is open. -/
theorem deliver_eq (connected : session.player.connected = true)
    (resting : session.marshall = .resting) (count : Nat) :
    session.deliver count =
      { session with
        toPlayer := session.toPlayer.drop count
        player := { session.player with
          unread := session.player.unread ++ session.toPlayer.take count
          stack := .reading :: session.player.stack } } := by
  rw [deliver, Player.readyRead]
  dsimp only
  rw [if_pos connected, resting, if_neg (by decide)]

theorem Underway.deliver (underway : Underway ackNext session) (count : Nat) :
    Underway ackNext (session.deliver count) ∧
      (session.deliver count).stream = session.stream := by
  have sound := underway.sound.readyRead (session.toPlayer.take count)
  rw [Player.readyRead] at sound
  dsimp only at sound
  rw [if_pos underway.sound.connected] at sound
  have whole : session.player.unread ++ session.toPlayer.take count ++
      session.toPlayer.drop count = session.stream := by
    rw [List.append_assoc, List.take_append_drop, stream]
  rw [deliver_eq underway.sound.connected underway.resting count, stream]
  refine ⟨?_, whole⟩
  constructor
  · exact sound
  · rw [stream, whole]
    exact underway.flat
  · exact underway.resting
  · rw [stream, whole]
    exact underway.owes
  · exact underway.script
  · exact underway.orders
  · exact underway.untouched

/-- A reply arrives.  It answers nothing, or the request that is waited for. -/
theorem Underway.receive (underway : Underway ackNext session) {reply : Reply Object}
    (arrives : session.player.written[session.handled]? = some reply) :
    { session with handled := session.handled + 1 }.processReply reply =
        { session with handled := session.handled + 1 } ∧
      Underway ackNext { session with handled := session.handled + 1 } ∨
    { session with handled := session.handled + 1 }.processReply reply =
        { session with handled := session.handled + 1, pendingAcks := 0, waiting := none } ∧
      session.player.due = [] ∧ streamAnswers session.stream = [] ∧
      Underway ackNext
        { session with handled := session.handled + 1, pendingAcks := 0, waiting := none } := by
  obtain ⟨sound, flat, resting, owes, script, orders, untouched⟩ := underway
  rcases owes.receive arrives with ⟨same, kept⟩ | ⟨same, settled, paid⟩
  · exact .inl ⟨same, sound, flat, resting, kept, script, orders, untouched⟩
  · obtain ⟨owed, silent⟩ := List.append_eq_nil_iff.mp settled
    refine .inr ⟨same, sound.due_eq_nil owed, silent, sound, flat, resting, ?_, nofun, orders,
      untouched⟩
    change Owes _ (session.player.due.filterMap id ++ streamAnswers session.stream)
    rw [settled]
    exact paid

end

section

variable {keys : KeySequences} {Object : Type} {ackNext : Bool}
  {session : Session Object keys.Sequence}

theorem send_eq {order : Order keys.Sequence} {rest : List (Order keys.Sequence)}
    (orders : session.orders = order :: rest) :
    session.send keys =
      { session with
        orders := rest
        sent := session.sent ++ [order]
        waiting := some order
        pendingAcks := session.pendingAcks + if order.waitsForAck then 1 else 0
        toPlayer := session.toPlayer ++ order.tokens keys } := by
  rw [send, orders]

/-- The next request is sent. -/
theorem Underway.send (underway : Underway ackNext session) (idle : session.waiting = none)
    {request : Request keys.Sequence} {rest : List (Order keys.Sequence)}
    (orders : session.orders = .request request :: rest) :
    Underway ackNext (session.send keys) ∧
      (session.send keys).stream = session.stream ++ (request.element keys).tokens := by
  obtain ⟨settled, silent⟩ := underway.settled idle
  have owes := underway.owes
  rw [Owes, idle] at owes
  rw [send_eq orders]
  have whole : session.player.unread ++ (session.toPlayer ++ (request.element keys).tokens) =
      session.stream ++ (request.element keys).tokens := by
    rw [stream, List.append_assoc]
  refine ⟨?_, whole⟩
  constructor
  · exact underway.sound
  · obtain ⟨fine, openRoot, still, depth⟩ := underway.flat
    refine ⟨fine, openRoot, still, ?_⟩
    change flatDepth session.player.reader.depth
      (session.player.unread ++ (session.toPlayer ++ (request.element keys).tokens)) = _
    rw [whole, flatDepth_append, depth]
    exact (List.append_nil (request.element keys).tokens) ▸ flatDepth_tokens _ []
  · exact underway.resting
  · change Owes _ (session.player.due.filterMap id ++ streamAnswers
      (session.player.unread ++ (session.toPlayer ++ (request.element keys).tokens)))
    rw [whole, streamAnswers_append, silent, settled, streamAnswers_request]
    exact owes.send (.request request)
  · exact fun order waiting => ⟨request, (Option.some.inj waiting).symm⟩
  · obtain ⟨requests, shape⟩ := underway.orders
    rw [orders] at shape
    cases requests with
    | nil => cases shape
    | cons first later =>
        obtain ⟨-, rest⟩ := List.cons.inj shape
        exact ⟨later, rest⟩
  · intro unsent
    exact absurd unsent (List.append_ne_nil_of_right_ne_nil _ (List.cons_ne_nil _ _))

end

section

variable {keys : KeySequences} {Object : Type} [DecidableEq Object] {ackNext : Bool}
  {session : Session Object keys.Sequence}

/-- The player goes on, and finds what it needs. -/
theorem Underway.run (underway : Underway ackNext session) {application : Application Object}
    (safe : session.player.StepsSafely application) :
    session.run keys application =
        { session with player := session.player.step keys application } ∧
      Underway ackNext { session with player := session.player.step keys application } := by
  have flat := underway.sound.step_flat keys application underway.flat safe
  obtain ⟨sound, promised⟩ := underway.sound.step keys application underway.flat.still safe
    flat.still flat.fine
  have steps := underway.sound.steps keys application underway.flat.still safe flat.still flat.fine
  obtain ⟨replies, written⟩ := steps.written
  have pays := Player.pays_of_promised written promised session.toPlayer
  constructor
  · rw [Session.run, steps.finished, if_neg (Nat.lt_irrefl _)]
  · constructor
    · exact sound
    · exact flat
    · exact underway.resting
    · rw [Owes, written]
      exact underway.owes.write pays
    · exact underway.script
    · exact underway.orders
    · intro unsent
      have settled := (Player.settled_of_due (underway.unsent unsent)).1
      rw [steps.ackNext settled]
      exact underway.untouched unsent

end

end Session

end Hooq
