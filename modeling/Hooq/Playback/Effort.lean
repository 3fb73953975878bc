import Hooq.Playback.Conservation
import Hooq.Playback.Session

/-!
# What a session has left to do

Every action of a session lowers a count of what is left: the tokens that are not read,
the entries of the queue, the calls that are active, the timer, and the replies that
have not arrived.  A session therefore comes to rest, whatever happens in it.
-/

namespace Hooq

def Frame.effort : Frame → Nat
  | .flushing => 1
  | .processing => 3
  | .reading => 6
  | .readElement => 7

namespace XmlReader

/-- A reader that has met an error or the end of its data can still go on to a token. -/
def effort (reader : XmlReader) : Nat :=
  (if reader.tokenType = .invalid ∨ reader.tokenType = .endDocument then 0 else 1) +
    if reader.error then 0 else 1

theorem effort_le (reader : XmlReader) : reader.effort ≤ 2 := by
  rw [effort]
  split <;> split <;> decide

theorem readNext_length_le (reader : XmlReader) (tokens : List Token) :
    (reader.readNext tokens).2.length ≤ tokens.length := by
  fun_induction XmlReader.readNext reader tokens with
  | case7 character rest _ _ _ ih => exact Nat.le_succ_of_le ih
  | _ => simp

theorem readElementText_length_le (reader : XmlReader) (tokens : List Token) :
    (reader.readElementText tokens).2.2.length ≤ tokens.length := by
  induction tokens with
  | nil => exact Nat.le_refl _
  | cons token rest ih =>
      cases token with
      | character character => exact Nat.le_succ_of_le ih
      | start name attributes => exact Nat.le_succ _
      | stop => exact Nat.le_succ _

/-- A child that ends a text is read. -/
theorem readElementText_length_lt {reader : XmlReader} {tokens : List Token}
    (child : (reader.readElementText tokens).2.1.name ≠ reader.name) :
    (reader.readElementText tokens).2.2.length < tokens.length := by
  induction tokens with
  | nil => exact absurd rfl child
  | cons token rest ih =>
      cases token with
      | character character => exact Nat.lt_succ_of_lt (ih child)
      | start name attributes => exact Nat.lt_succ_self _
      | stop => exact absurd rfl child

/-- Reading takes a token, or finds out that there is none to take. -/
theorem readNext_effort (reader : XmlReader) (tokens : List Token)
    (more : ¬reader.atEnd tokens = true) :
    (reader.readNext tokens).2.length < tokens.length ∨
      (reader.readNext tokens).2.length = tokens.length ∧
        (reader.readNext tokens).1.effort < reader.effort ∧
        (reader.readNext tokens).1.tokenType ≠ .startElement := by
  simp only [atEnd, Bool.or_eq_true, Bool.and_eq_true, decide_eq_true_eq, not_or] at more
  obtain ⟨fine, more⟩ := more
  have fine : reader.error = false := Bool.eq_false_of_not_eq_true fine
  have failing : reader.raiseError.effort < reader.effort := by
    simp [effort, raiseError, fine]
  have other : reader.raiseError.tokenType ≠ .startElement := fun starts => by cases starts
  cases tokens with
  | nil =>
      simp only [List.isEmpty_nil, and_true] at more
      right
      rw [readNext]
      split
      next failed => simp [fine] at failed
      split <;> simp [effort, fine, more]
  | cons token rest =>
      cases token with
      | start name attributes =>
          rw [readNext]
          split
          next => exact .inr ⟨rfl, failing, other⟩
          next => exact .inl (Nat.lt_succ_self _)
      | character character =>
          rw [readNext]
          split
          next failed => simp [fine] at failed
          split
          next =>
              split
              next => exact .inl (Nat.lt_succ_of_le (reader.readNext_length_le rest))
              next => exact .inr ⟨rfl, failing, other⟩
          next => exact .inl (Nat.lt_succ_self _)
      | stop =>
          rw [readNext]
          split
          next => exact .inr ⟨rfl, failing, other⟩
          next => exact .inl (Nat.lt_succ_self _)

end XmlReader

namespace Player

section

variable {Object Sequence : Type}

/-- What a player has left to do.  An element is worth more than the entries for it. -/
def effort (player : Player Object Sequence) : Nat :=
  (player.stack.map Frame.effort).sum + 6 * player.eventQueue.length + 5 * player.timers +
    80 * player.unread.length + player.reader.effort

/-- A token that is read, or the discovery that there is none. -/
theorem readToken_effort (player : Player Object Sequence)
    (more : ¬player.reader.atEnd player.available = true) :
    player.readToken.effort < player.effort ∧
      (player.readToken.reader.tokenType = .startElement →
        player.readToken.effort + 78 ≤ player.effort) := by
  have read := player.reader.readNext_effort player.available more
  have bounded := (player.reader.readNext player.available).1.effort_le
  have unread : player.readToken.unread.length + player.available.length =
      (player.reader.readNext player.available).2.length + player.unread.length := by
    cases device : player.device with
    | true => simp [readToken, available, device]
    | false =>
        have nothing := player.reader.readNext_length_le player.available
        simp only [readToken, available, device, Bool.false_eq_true, if_false, List.length_nil,
          Nat.le_zero] at nothing ⊢
        rw [nothing, Nat.add_comm]
  have rest : player.readToken.effort + 80 * player.unread.length + player.reader.effort =
      player.effort + 80 * player.readToken.unread.length +
        (player.reader.readNext player.available).1.effort := by
    simp only [effort, readToken]
    omega
  constructor
  · rcases read with taken | ⟨same, lower, -⟩ <;> omega
  · intro starts
    rcases read with taken | ⟨-, -, other⟩
    · omega
    · exact absurd starts other

/-- A change that adds so much effort at most, replies included. -/
structure Adds (amount : Nat) (player next : Player Object Sequence) : Prop where
  total : next.effort + next.written.length ≤ player.effort + player.written.length + amount
  written : player.written.length ≤ next.written.length

theorem Adds.trans {first second : Nat} {player middle next : Player Object Sequence}
    (front : Adds first player middle) (back : Adds second middle next) :
    Adds (first + second) player next where
  total := by
    have front := front.total
    have back := back.total
    omega
  written := front.written.trans back.written

theorem Adds.mono {few many : Nat} {player next : Player Object Sequence}
    (adds : Adds few player next) (bound : few ≤ many) : Adds many player next where
  total := adds.total.trans (Nat.add_le_add_left bound _)
  written := adds.written

theorem adds_fail (player : Player Object Sequence) : Adds 0 player player.fail where
  total := by simp [effort, fail]
  written := Nat.le_refl _

theorem adds_reply (reply : Reply Object) (player : Player Object Sequence) :
    Adds 1 player (player.reply reply) := by
  rw [Player.reply]
  split
  · exact ⟨by simp [effort, Nat.add_assoc], by simp⟩
  · exact (adds_fail player).mono (Nat.zero_le _)

theorem adds_ack (player : Player Object Sequence) : Adds 1 player player.ack := by
  rw [ack]
  split
  · exact adds_reply .ack player
  · exact ⟨Nat.le_succ _, Nat.le_refl _⟩

theorem adds_leave (player : Player Object Sequence) : Adds 0 player player.leave where
  total := by
    cases shape : player.stack with
    | nil => simp [effort, leave, shape]
    | cons frame stack => simp [effort, leave, shape]
  written := Nat.le_refl _

theorem adds_processEvents (player : Player Object Sequence) :
    Adds 3 player player.processEvents := by
  rw [processEvents]
  split
  · exact ⟨Nat.le_add_right _ _, Nat.le_refl _⟩
  · exact ⟨by simp [effort, Frame.effort]; omega, Nat.le_refl _⟩

/-- The end of a sleep leaves less to do. -/
theorem waitFinished_effort (player : Player Object Sequence) (sleeping : player.timers ≠ 0) :
    player.waitFinished.effort + player.waitFinished.written.length <
        player.effort + player.written.length ∧
      player.written.length ≤ player.waitFinished.written.length := by
  have acked := adds_ack { player with timers := player.timers - 1 }
  have idle : Adds 0 ({ player with timers := player.timers - 1 }).ack
      { ({ player with timers := player.timers - 1 }).ack with processingEvents := false } :=
    ⟨Nat.le_refl _, Nat.le_refl _⟩
  have adds := (acked.trans idle).trans (adds_processEvents _)
  refine ⟨Nat.lt_of_le_of_lt adds.total ?_, adds.written⟩
  simp only [effort]
  omega

/-- Two elements are handled at once only if one of them is read for the text of the
other. -/
theorem handledElements_length (player : Player Object Sequence) :
    player.handledElements.length ≤ 1 ∨
      player.handledElements.length ≤ 2 ∧
        player.elementText.2.2.length < player.unread.length := by
  rw [handledElements, childElement]
  split
  next child =>
      refine .inr ⟨Nat.le_refl 2, ?_⟩
      have other : player.elementText.2.1.name ≠ player.reader.name :=
        fun same => notMem_testedAfter _ (same ▸ child)
      rw [elementText] at other ⊢
      split at other
      next isText =>
          rw [if_pos isText]
          exact XmlReader.readElementText_length_lt other
      next noText => exact absurd rfl other
  next => exact .inl (Nat.le_refl 1)

/-- The end of the loop's body, with the call in it. -/
theorem adds_endElement (stack : List Frame) (player : Player Object Sequence)
    (active : 6 + (stack.map Frame.effort).sum ≤ (player.stack.map Frame.effort).sum) :
    Adds 0 player (player.endElement stack) := by
  rw [endElement]
  split
  next ended =>
      have adds := (adds_ack { player with connected := false, stack := stack }).trans
        (adds_processEvents _)
      refine ⟨?_, adds.written⟩
      have total := adds.total
      simp only [effort] at total ⊢
      omega
  next goesOn => exact ⟨by simp [effort, Frame.effort]; omega, Nat.le_refl _⟩

end

section

variable {Object : Type} [DecidableEq Object] (keys : KeySequences)
  (application : Application Object)

/-- An entry of the queue leads to less than it is worth. -/
theorem adds_perform {Sequence : Type} (event : Event Sequence) (player : Player Object Sequence) :
    Adds 5 player (player.perform application event) := by
  have answered (reply : Option (Reply Object)) (effects : List (Effect Object Sequence)) :
      Adds 5 player (reply.elim ({ player with ackNext := event.ack, effects := effects }).ack
        fun reply => (({ player with ackNext := event.ack, effects := effects }).reply reply).ack) := by
    have same : Adds 0 player { player with ackNext := event.ack, effects := effects } :=
      ⟨Nat.le_refl _, Nat.le_refl _⟩
    cases reply with
    | none => exact (same.trans (adds_ack _)).mono (by decide)
    | some reply =>
        exact ((same.trans (adds_reply reply _)).trans (adds_ack _)).mono (by decide)
  have marked : Adds 0 player { player with ackNext := event.ack } :=
    ⟨Nat.le_refl _, Nat.le_refl _⟩
  rw [perform]
  cases event.task with
  | ack => exact answered none player.effects
  | dump objectPath =>
      dsimp only
      split
      · exact (marked.trans (adds_reply _ _)).mono (by decide)
      · exact (marked.trans (adds_fail _)).mono (by decide)
  | flush => exact ⟨by simp [effort, Frame.effort]; omega, Nat.le_refl _⟩
  | focus objectPath reason =>
      dsimp only
      split
      next widget found => exact answered none (player.effects ++ [.setFocus widget reason])
      next missing => exact answered (some (.notFound objectPath)) player.effects
  | close objectPath =>
      dsimp only
      split
      next widget found => exact answered none (player.effects ++ [.close widget])
      next missing => exact (marked.trans (adds_fail _)).mono (by decide)
  | drop objectPath position globalPosition =>
      dsimp only
      split
      next object found => exact answered none (player.effects ++ [.post object _])
      next missing => exact answered (some (.notFound objectPath)) player.effects
  | object objectPath qtEvent =>
      dsimp only
      split
      next object found => exact answered none (player.effects ++ [.post object qtEvent])
      next missing => exact answered (some (.notFound objectPath)) player.effects
  | pick =>
      have picking : Adds 0 player ({ player with ackNext := event.ack }).startPick :=
        ⟨Nat.le_refl _, Nat.le_refl _⟩
      exact (picking.trans (adds_leave _)).mono (by decide)
  | sleep msec =>
      have sleeping : Adds 5 player (({ player with ackNext := event.ack }).sleep msec) := by
        rw [sleep]
        split
        · exact marked.mono (by decide)
        · exact ⟨by simp [effort]; omega, Nat.le_refl _⟩
      exact sleeping.trans (adds_leave _)

/-- No element has more entries than a drag. -/
theorem elementEntries_length_le (element : Element) :
    (elementEntries keys application element).length ≤ 11 := by
  have choose {condition : Prop} [Decidable condition]
      {first rest : Option (List (Event keys.Sequence))}
      (here : (first.getD []).length ≤ 11) (there : (rest.getD []).length ≤ 11) :
      ((if condition then first else rest).getD []).length ≤ 11 := by
    split
    · exact here
    · exact there
  have single (entry : Event keys.Sequence) : ((some [entry]).getD []).length ≤ 11 :=
    Nat.succ_le_succ (Nat.zero_le 10)
  rw [elementEntries, decode, postElement]
  iterate 3 refine choose (single _) ?_
  refine choose ?_ ?_
  · rw [postDragAndDrop]
    cases application.findWidget (element.attributes.value "target") with
    | none => exact Nat.zero_le 11
    | some widget => exact Nat.le_refl 11
  iterate 11 refine choose (single _) ?_
  exact Nat.zero_le 11

theorem length_flatMap_entries_le (elements : List Element) :
    (elements.flatMap (elementEntries keys application)).length ≤ 11 * elements.length := by
  induction elements with
  | nil => exact Nat.le_refl 0
  | cons element rest ih =>
      have first := elementEntries_length_le keys application element
      rw [List.flatMap_cons, List.length_append, List.length_cons]
      omega

theorem adds_handleElement (player : Player Object keys.Sequence) :
    Adds 68 player (player.handleElement keys application) := by
  cases failed : player.failed with
  | true =>
      rw [handleElement, foldl_handleName_of_failed keys application failed]
      exact ⟨Nat.le_add_right _ _, Nat.le_refl _⟩
  | false =>
      have length : player.elementText.2.2.length ≤ player.unread.length := by
        rw [elementText]
        split
        · exact player.reader.readElementText_length_le player.unread
        · exact Nat.le_refl _
      have reader := player.elementText.2.1.effort_le
      have handled := player.handledElements_length
      have few := (isPrefix_untilFailure keys application player.handledElements).length_le
      have entries := length_flatMap_entries_le keys application
        (untilFailure keys application player.handledElements)
      have queued : Adds 68 player
          { player.behindText with
            eventQueue := player.eventQueue ++
              (untilFailure keys application player.handledElements).flatMap
                (elementEntries keys application) } := by
        refine ⟨?_, Nat.le_refl _⟩
        simp only [effort, behindText, List.length_append]
        omega
      rw [handleElement_eq keys application failed]
      dsimp only
      split
      · exact queued
      · exact queued.trans (adds_fail _)

/-- A step of the player leaves less to do. -/
theorem step_effort (player : Player Object keys.Sequence) (turn : ¬player.InEventLoop) :
    (player.step keys application).effort + (player.step keys application).written.length <
        player.effort + player.written.length ∧
      player.written.length ≤ (player.step keys application).written.length := by
  have weight {frame : Frame} {stack : List Frame} (shape : player.stack = frame :: stack) :
      (player.stack.map Frame.effort).sum = frame.effort + (stack.map Frame.effort).sum := by
    rw [shape, List.map_cons, List.sum_cons]
  cases player.stepCase keys application with
  | idle loops step => exact absurd loops turn
  | performs stack event rest shape queue step =>
      rw [step]
      have adds := adds_perform application event { player with eventQueue := rest }
      refine ⟨Nat.lt_of_le_of_lt adds.total ?_, adds.written⟩
      simp only [effort, queue, List.length_cons]
      omega
  | settles stack shape queue step =>
      have cleared : XmlReader.clear.effort ≤ 2 := XmlReader.clear.effort_le
      rw [step, endProcessing]
      split <;>
        exact ⟨by
          simp only [effort, leave, shape, List.tail_cons, List.map_cons, List.sum_cons,
            Frame.effort]
          omega, Nat.le_refl _⟩
  | closes stack shape step =>
      rw [step]
      have entered : Adds 0 { player with stack := .reading :: stack }
          (player.endElement stack) := by
        have adds := adds_endElement stack { player with stack := .reading :: stack } (by simp; rfl)
        exact adds
      refine ⟨Nat.lt_of_le_of_lt entered.total ?_, entered.written⟩
      simp only [effort, weight shape, List.map_cons, List.sum_cons, Frame.effort]
      omega
  | stops stack shape ending step =>
      rw [step]
      have adds := adds_processEvents { player with stack := stack }
      refine ⟨Nat.lt_of_le_of_lt adds.total ?_, adds.written⟩
      simp only [effort, weight shape, Frame.effort]
      omega
  | parses stack shape more starts step =>
      rw [step]
      have adds := (adds_handleElement keys application
        { player.readToken with stack := .readElement :: stack }).trans (adds_processEvents _)
      have lower := (player.readToken_effort more).2 starts
      have written : player.readToken.written = player.written := rfl
      have entered :
          { player.readToken with stack := .readElement :: stack }.effort =
            player.readToken.effort + 1 := by
        have same : player.readToken.stack = .reading :: stack := shape
        simp only [effort, same, List.map_cons, List.sum_cons, Frame.effort]
        omega
      refine ⟨Nat.lt_of_le_of_lt adds.total ?_, adds.written⟩
      rw [entered, written]
      omega
  | passes stack shape more other step =>
      rw [step]
      have lower := (player.readToken_effort more).1
      have adds := adds_endElement stack player.readToken (Nat.le_of_eq (weight shape).symm)
      exact ⟨Nat.lt_of_le_of_lt adds.total (Nat.add_lt_add_right lower _), adds.written⟩

end

end Player

namespace Marshall

/-- A line that is read is taken from the stream. -/
theorem readLine_length {unread line rest : List Token}
    (found : readLine unread = some (line, rest)) : rest.length < unread.length := by
  rw [readLine] at found
  split at found
  · cases found
  next lineBreak later shape =>
      cases found
      have bound := (List.dropWhile_sublist (l := unread) (· ≠ newline)).length_le
      rw [shape] at bound
      exact bound

end Marshall

namespace Session

/-- What the orders that have not been sent lead to. -/
def ordersEffort (keys : KeySequences) (orders : List (Order keys.Sequence)) : Nat :=
  (orders.map fun order => 87 * (order.tokens keys).length + 1).sum

section

variable (keys : KeySequences) {Object : Type}

/-- What a session has left to do. -/
def effort (session : Session Object keys.Sequence) : Nat :=
  session.player.effort + (session.player.written.length - session.handled) +
    87 * session.toPlayer.length + ordersEffort keys session.orders

variable {keys} in
/-- A command that is read leaves no more to do. -/
theorem effort_readCommand (session : Session Object keys.Sequence) :
    session.readCommand.effort keys ≤ session.effort keys := by
  rw [readCommand]
  split
  next => exact Nat.le_refl _
  next line rest found =>
      have shorter := Marshall.readLine_length found
      dsimp only
      split_ifs <;> simp only [effort, Player.effort, List.length_append, List.length_singleton] <;>
        omega

variable {keys} in
/-- Whatever happens, less is left to do. -/
theorem effort_next_lt [DecidableEq Object] (session : Session Object keys.Sequence)
    (action : Action Object) (enabled : session.Enabled action) :
    (session.next keys action).effort keys < session.effort keys := by
  cases action with
  | send =>
      obtain ⟨-, pending⟩ := enabled
      obtain ⟨order, rest, shape⟩ := List.exists_cons_of_ne_nil pending
      simp only [next, send, shape, effort, ordersEffort, List.map_cons, List.sum_cons,
        List.length_append]
      omega
  | deliver count =>
      obtain ⟨-, -, positive, bounded⟩ := enabled
      rw [next, deliver]
      have arrived : ({ session with
          toPlayer := session.toPlayer.drop count
          player := session.player.readyRead (session.toPlayer.take count) } :
            Session Object keys.Sequence).effort keys < session.effort keys := by
        simp only [effort, Player.effort, Player.readyRead]
        split <;> simp [Frame.effort] <;> omega
      split
      · exact Nat.lt_of_le_of_lt (effort_readCommand _) arrived
      · exact arrived
  | run application =>
      obtain ⟨-, turn⟩ := enabled
      obtain ⟨lower, written⟩ := session.player.step_effort keys application turn
      have stepped : ({ session with player := session.player.step keys application } :
          Session Object keys.Sequence).effort keys < session.effort keys := by
        simp only [effort]
        omega
      rw [next, run]
      split
      · exact Nat.lt_of_le_of_lt (effort_readCommand _) stepped
      · exact stepped
  | endFlush =>
      obtain ⟨-, flushing⟩ := enabled
      obtain ⟨stack, shape⟩ := List.head?_eq_some_iff.mp flushing
      simp only [next, effort, Player.endFlush, Player.leave, Player.effort, shape, List.tail_cons,
        List.map_cons, List.sum_cons, Frame.effort]
      omega
  | waitFinished =>
      obtain ⟨-, -, sleeping⟩ := enabled
      have adds := session.player.waitFinished_effort sleeping
      have total := adds.1
      have written := adds.2
      simp only [next, effort]
      omega
  | receive =>
      obtain ⟨reply, arrives⟩ : ∃ reply, session.player.written[session.handled]? = some reply :=
        ⟨_, List.getElem?_eq_getElem enabled⟩
      have handled : (session.next keys .receive : Session Object keys.Sequence).effort keys =
          ({ session with handled := session.handled + 1 } :
            Session Object keys.Sequence).effort keys := by
        simp only [next, arrives]
        cases reply <;> rfl
      rw [handled]
      have enabled : session.handled < session.player.written.length := enabled
      simp only [effort]
      omega

end

end Session

end Hooq
