import Hooq.Playback.Session
import Hooq.Playback.Stream

/-!
# The ledger of a session

The answers that the interpreter has handled, those that are on their way to it, and
those that it is still owed.  Together they are the answers to the orders that it has
sent, and but for the last order it has handled them all.
-/

namespace Hooq

/-- The answer that an order waits for. -/
def Order.answer {Sequence : Type} (order : Order Sequence) : Answer :=
  if order.waitsForAck then .ack else .dumped

theorem Order.answer_ne_picked {Sequence : Type} (order : Order Sequence) :
    order.answer ≠ .picked := by
  rw [answer]
  split <;> nofun

/-- The replies, how many of them are handled, and the orders, beside what is owed. -/
structure Ledger {Object Sequence : Type} (written : List (Reply Object)) (handled : Nat)
    (waiting : Option (Order Sequence)) (sent : List (Order Sequence)) (pendingAcks : Int)
    (owed : List Answer) : Prop where
  bounded : handled ≤ written.length
  outstanding : (written.drop handled).filterMap Reply.answer ++ owed =
    (waiting.map Order.answer).toList
  told : (written.take handled).filterMap Reply.answer ++ (waiting.map Order.answer).toList =
    sent.map Order.answer
  counted : pendingAcks = if waiting.map Order.answer = some .ack then 1 else 0

namespace Ledger

variable {Object Sequence : Type} {written : List (Reply Object)} {handled : Nat}
  {waiting : Option (Order Sequence)} {sent : List (Order Sequence)} {pendingAcks : Int}
  {owed : List Answer}

/-- The player writes what it owes. -/
theorem write (ledger : Ledger written handled waiting sent pendingAcks owed)
    {replies : List (Reply Object)} {later : List Answer}
    (pays : replies.filterMap Reply.answer ++ later = owed) :
    Ledger (written ++ replies) handled waiting sent pendingAcks later where
  bounded := by
    rw [List.length_append]
    exact Nat.le_add_right_of_le ledger.bounded
  outstanding := by
    rw [List.drop_append_of_le_length ledger.bounded, List.filterMap_append, List.append_assoc,
      pays]
    exact ledger.outstanding
  told := by
    rw [List.take_append_of_le_length ledger.bounded]
    exact ledger.told
  counted := ledger.counted

/-- Nothing is owed to an interpreter that does not wait. -/
theorem settled (ledger : Ledger written handled none sent pendingAcks owed) : owed = [] :=
  (List.append_eq_nil_iff.mp ledger.outstanding).2

/-- The next order is sent, and owed. -/
theorem send (ledger : Ledger written handled none sent pendingAcks owed)
    (order : Order Sequence) :
    Ledger written handled (some order) (sent ++ [order])
      (pendingAcks + if order.waitsForAck then 1 else 0) [order.answer] where
  bounded := ledger.bounded
  outstanding := congrArg (· ++ [order.answer]) (List.append_eq_nil_iff.mp ledger.outstanding).1
  told := by
    rw [List.map_append, ← ledger.told]
    exact congrArg (· ++ [order.answer]) (List.append_nil _).symm
  counted := by
    rw [ledger.counted]
    cases waits : order.waitsForAck <;> simp [Order.answer, waits]

/-- A reply that answers nothing leaves the wait as it is. -/
theorem unrelated (ledger : Ledger written handled waiting sent pendingAcks owed)
    {reply : Reply Object} (arrives : written[handled]? = some reply)
    (silent : reply.answer = none) :
    Ledger written (handled + 1) waiting sent pendingAcks owed := by
  obtain ⟨inBounds, found⟩ := List.getElem?_eq_some_iff.mp arrives
  have outstanding := ledger.outstanding
  rw [List.drop_eq_getElem_cons inBounds, found, List.filterMap_cons, silent] at outstanding
  refine ⟨inBounds, outstanding, ?_, ledger.counted⟩
  rw [← ledger.told, ← List.take_append_getElem inBounds, found, List.filterMap_append]
  simp [silent]

/-- A reply that answers ends the wait. -/
theorem answered (ledger : Ledger written handled waiting sent pendingAcks owed)
    {reply : Reply Object} (arrives : written[handled]? = some reply) {answer : Answer}
    (leads : reply.answer = some answer) :
    waiting.map Order.answer = some answer ∧ owed = [] ∧
      Ledger written (handled + 1) (none : Option (Order Sequence)) sent 0 [] := by
  obtain ⟨inBounds, found⟩ := List.getElem?_eq_some_iff.mp arrives
  have outstanding := ledger.outstanding
  have told := ledger.told
  rw [List.drop_eq_getElem_cons inBounds, found, List.filterMap_cons, leads] at outstanding
  cases waiting with
  | none => cases outstanding
  | some order =>
      obtain ⟨same, rest⟩ := List.cons.inj outstanding
      obtain ⟨later, none⟩ := List.append_eq_nil_iff.mp rest
      refine ⟨congrArg some same.symm, none, inBounds, ?_, ?_, rfl⟩
      · rw [later]
        rfl
      · rw [← told, ← List.take_append_getElem inBounds, found, List.filterMap_append]
        simp [leads, same]

/-- The answers given and owed are those to the orders sent. -/
theorem answers (ledger : Ledger written handled waiting sent pendingAcks owed) :
    written.filterMap Reply.answer ++ owed = sent.map Order.answer := by
  have split : written.filterMap Reply.answer = (written.take handled).filterMap Reply.answer ++
      (written.drop handled).filterMap Reply.answer := by
    rw [← List.filterMap_append, List.take_append_drop]
  rw [split, List.append_assoc, ledger.outstanding, ledger.told]

/-- What is owed is all that is waited for. -/
theorem of_owed (ledger : Ledger written handled waiting sent pendingAcks owed)
    (owes : owed ≠ []) :
    ∃ order, waiting = some order ∧ (written.drop handled).filterMap Reply.answer = [] := by
  have outstanding := ledger.outstanding
  cases waiting with
  | none => exact absurd (List.append_eq_nil_iff.mp outstanding).2 owes
  | some order =>
      refine ⟨order, rfl, ?_⟩
      cases returning : (written.drop handled).filterMap Reply.answer with
      | nil => rfl
      | cons answer rest =>
          rw [returning] at outstanding
          exact absurd (List.append_eq_nil_iff.mp (List.cons.inj outstanding).2).2 owes

end Ledger

namespace Session

section

variable {Object Sequence : Type} (session : Session Object Sequence)

/-- The stream from the reader of the player to what the interpreter has written last. -/
def stream : List Token :=
  session.player.unread ++ session.toPlayer

/-- The answers that the interpreter has handled. -/
def handledAnswers : List Answer :=
  (session.player.written.take session.handled).filterMap Reply.answer

/-- The answers on their way to the interpreter. -/
def returning : List Answer :=
  (session.player.written.drop session.handled).filterMap Reply.answer

/-- What is answered, owed or not yet read, of what has not been handled. -/
def outstanding : List Answer :=
  session.returning ++ session.player.due.filterMap id ++ streamAnswers session.stream

/-- What the interpreter is owed. -/
def Owes (owed : List Answer) : Prop :=
  Ledger session.player.written session.handled session.waiting session.sent
    session.pendingAcks owed

variable {session} {owed : List Answer}

/-- A reply that arrives answers nothing, or is all that was waited for. -/
theorem Owes.receive (owes : session.Owes owed) {reply : Reply Object}
    (arrives : session.player.written[session.handled]? = some reply) :
    { session with handled := session.handled + 1 }.processReply reply =
        { session with handled := session.handled + 1 } ∧
      { session with handled := session.handled + 1 }.Owes owed ∨
    { session with handled := session.handled + 1 }.processReply reply =
        { session with handled := session.handled + 1, pendingAcks := 0, waiting := none } ∧
      owed = [] ∧
      ({ session with handled := session.handled + 1, pendingAcks := 0, waiting := none } :
        Session Object Sequence).Owes [] := by
  cases reply with
  | notFound objectPath => exact .inl ⟨rfl, owes.unrelated arrives rfl⟩
  | ack =>
      obtain ⟨expected, none, answered⟩ := owes.answered arrives rfl
      have pending := owes.counted
      rw [if_pos expected] at pending
      obtain ⟨order, waiting, isAck⟩ := Option.map_eq_some_iff.mp expected
      have waits : order.waitsForAck = true := by
        by_contra other
        rw [Order.answer, if_neg other] at isAck
        cases isAck
      refine .inr ⟨?_, none, answered⟩
      simp [processReply, setAck, waiting, pending, waits]
  | dumped object =>
      obtain ⟨expected, none, answered⟩ := owes.answered arrives rfl
      have pending := owes.counted
      rw [expected, if_neg (by decide)] at pending
      obtain ⟨order, waiting, isDump⟩ := Option.map_eq_some_iff.mp expected
      have waits : order.waitsForAck = false := by
        by_contra other
        rw [Order.answer, if_pos (by simpa using other)] at isDump
        cases isDump
      refine .inr ⟨?_, none, answered⟩
      simp [processReply, waiting, pending, waits]
  | picked object =>
      obtain ⟨expected, -, -⟩ := owes.answered arrives rfl
      obtain ⟨order, -, picked⟩ := Option.map_eq_some_iff.mp expected
      exact absurd picked order.answer_ne_picked

end

section

variable {keys : KeySequences} {Object : Type}

theorem readCommand_orders (session : Session Object keys.Sequence) :
    session.readCommand.sent = session.sent ∧ session.readCommand.orders = session.orders := by
  rw [readCommand]
  split
  · exact ⟨rfl, rfl⟩
  · dsimp only
    split_ifs <;> exact ⟨rfl, rfl⟩

/-- What is sent are the orders that come next. -/
theorem orders_next [DecidableEq Object] (session : Session Object keys.Sequence)
    (action : Action Object) :
    ∃ more, (session.next keys action).sent = session.sent ++ more ∧
      session.orders = more ++ (session.next keys action).orders := by
  have kept {next : Session Object keys.Sequence}
      (same : next.sent = session.sent ∧ next.orders = session.orders) :
      ∃ more, next.sent = session.sent ++ more ∧ session.orders = more ++ next.orders :=
    ⟨[], by rw [same.1, List.append_nil], by rw [same.2, List.nil_append]⟩
  cases action with
  | send =>
      rw [next, send]
      split
      next => exact kept ⟨rfl, rfl⟩
      next order rest shape => exact ⟨[order], rfl, shape⟩
  | deliver count =>
      rw [next, deliver]
      split
      · exact kept (readCommand_orders _)
      · exact kept ⟨rfl, rfl⟩
  | run application =>
      rw [next, run]
      split
      · exact kept (readCommand_orders _)
      · exact kept ⟨rfl, rfl⟩
  | endFlush => exact kept ⟨rfl, rfl⟩
  | waitFinished => exact kept ⟨rfl, rfl⟩
  | receive =>
      rw [next]
      split
      next reply _ => cases reply <;> exact kept ⟨rfl, rfl⟩
      next => exact kept ⟨rfl, rfl⟩

end

end Session

end Hooq
