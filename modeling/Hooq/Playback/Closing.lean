import Hooq.Library.Lines
import Hooq.Playback.Stalling

/-!
# The end of the document

Behind the last answer the interpreter writes the end tag of the root and a line break.
The player reads them, acknowledges the end of the document, and gives its socket away.
-/

namespace Hooq

theorem Marshall.readLine_eq (unread : List Token) :
    Marshall.readLine unread = Library.Lines.readLine Marshall.newline unread := by
  rw [Marshall.readLine, Library.Lines.readLine]
  cases unread.dropWhile (· ≠ Marshall.newline) <;> rfl

/-- What the reader still meets of a document whose end has been sent. -/
structure XmlReader.Closes (reader : XmlReader) (stream : List Token) : Prop where
  fine : reader.error = false
  still : reader.tokenType ≠ .endDocument
  ends : (reader.rootClosed = false ∧ ∃ front, stream = front ++ [.stop, Marshall.newline] ∧
      flatDepth reader.depth front = some 1) ∨
    reader.rootClosed = true ∧ reader.depth = 0 ∧ stream = [Marshall.newline]

namespace XmlReader

/-- An element that nothing answers has no text that is read. -/
theorem readsText_of_silent {name : QString} (silent : elementAnswer name = none) :
    Player.readsText name = false := by
  by_contra text
  rw [Bool.not_eq_false, Player.readsText, Bool.or_eq_true, decide_eq_true_eq,
    decide_eq_true_eq] at text
  rcases text with rfl | rfl
  · rw [Player.elementAnswer_known "msec" (by decide)] at silent
    cases silent
  · rw [Player.elementAnswer_known "dragAndDrop" (by decide)] at silent
    cases silent

/-- Reading goes on to the end of the document, unless the line break is missing. -/
theorem Closes.readNext {reader : XmlReader} {tokens later : List Token}
    (closes : reader.Closes (tokens ++ later)) (whole : later ≠ [Marshall.newline]) :
    (reader.readNext tokens).1.Closes ((reader.readNext tokens).2 ++ later) ∨
      (reader.readNext tokens).1.tokenType = .endDocument ∧ (reader.readNext tokens).2 = [] ∧
        later = [] := by
  obtain ⟨tokenType, name, attributes, depth, rootClosed, error⟩ := reader
  obtain ⟨fine, still, ends⟩ := closes
  dsimp only at fine still ends
  subst fine
  rcases ends with ⟨rfl, front, shape, depths⟩ | ⟨rfl, rfl, shape⟩
  · cases tokens with
    | nil => exact .inl ⟨rfl, (fun ended => by cases ended), .inl ⟨rfl, front, shape, depths⟩⟩
    | cons token rest =>
        cases front with
        | nil =>
            cases depths
            obtain ⟨rfl, rest⟩ := List.cons.inj shape
            exact .inl ⟨rfl, (fun ended => by cases ended), .inr ⟨rfl, rfl, rest⟩⟩
        | cons first front =>
            obtain ⟨rfl, rest⟩ := List.cons.inj shape
            cases token with
            | start starting startAttributes =>
                rcases depth with _ | _ | depth
                · rw [flatDepth] at depths
                  split at depths
                  next => cases depths
                  next =>
                    exact .inl ⟨rfl, (fun ended => by cases ended), .inl ⟨rfl, front, rest, depths⟩⟩
                · exact .inl ⟨rfl, (fun ended => by cases ended), .inl ⟨rfl, front, rest, depths⟩⟩
                · cases depths
            | character character =>
                rcases depth with _ | depth
                · cases depths
                · exact .inl ⟨rfl, (fun ended => by cases ended), .inl ⟨rfl, front, rest, depths⟩⟩
            | stop =>
                rcases depth with _ | _ | _ | depth
                · cases depths
                · cases depths
                · exact .inl ⟨rfl, (fun ended => by cases ended), .inl ⟨rfl, front, rest, depths⟩⟩
                · cases depths
  · cases tokens with
    | nil => exact absurd shape whole
    | cons token rest =>
        obtain ⟨rfl, none⟩ := List.cons.inj shape
        obtain ⟨rfl, rfl⟩ := List.append_eq_nil_iff.mp none
        exact .inr ⟨rfl, rfl, rfl⟩

end XmlReader

namespace Player

section

variable {Object : Type} [DecidableEq Object] {keys : KeySequences}
  {application : Application Object} {player : Player Object keys.Sequence}

/-- Where nothing is owed and no element is answered, nothing is missed. -/
theorem stepsSafely_of_silent (device : player.device = true) (queue : player.eventQueue = [])
    (silent : streamAnswers player.unread = []) : player.StepsSafely application := by
  apply stepsSafely_of keys application device
  · intro attributes member
    have unknown := elementAnswer_eq_none silent member
    rw [elementAnswer_known "dragAndDrop" (by decide)] at unknown
    cases unknown
  · rw [queue]
    exact nofun

/-- A step that queues nothing. -/
theorem Steps.idle {next : Player Object keys.Sequence} (steps : Steps keys application player next)
    (queue : player.eventQueue = []) (silent : streamAnswers player.unread = []) :
    ∃ reader unread processingEvents stack, unread ⊆ player.unread ∧
      next = { player with
        reader := reader, unread := unread, processingEvents := processingEvents,
        stack := stack } := by
  cases steps with
  | performed event rest _ shape =>
      rw [queue] at shape
      cases shape
  | moved reader unread processingEvents stack events consumes source =>
      have none : events = [] := by
        rcases source with none | ⟨name, attributes, text, parsed, -, found⟩
        · exact none
        · have answers := postElement_answers keys application name attributes text found
          rw [elementAnswer_eq_none silent parsed] at answers
          exact answers.eq_nil
      refine ⟨reader, unread, processingEvents, stack, consumes, ?_⟩
      rw [none, List.append_nil]

variable (application) in
/-- A step goes on to the end of the document, or reads it. -/
theorem Sound.step_closes (sound : player.Sound) {later : List Token}
    (queue : player.eventQueue = []) (silent : streamAnswers player.unread = [])
    (whole : later ≠ [Marshall.newline]) (closes : player.reader.Closes (player.unread ++ later)) :
    (player.step keys application).reader.Closes
        ((player.step keys application).unread ++ later) ∨
      later = [] ∧ ∃ reader stack, player.stack = .reading :: stack ∧
        reader.tokenType = .endDocument ∧
        player.step keys application =
          { player with reader := reader, unread := [] }.endElement stack := by
  cases player.stepCase keys application with
  | idle turn step =>
      rw [step]
      exact .inl closes
  | performs stack event rest shape entries step =>
      rw [queue] at entries
      cases entries
  | settles stack shape entries step =>
      rw [step, Player.endProcessing, if_neg closes.still]
      exact .inl closes
  | closes stack shape step =>
      rw [step, endElement_eq closes.still]
      exact .inl closes
  | stops stack shape ending step =>
      rw [step, processEvents_reader, processEvents_unread]
      exact .inl closes
  | parses stack shape more starts step =>
      have alive : { player.readToken with stack := .readElement :: stack }.failed = false :=
        sound.alive
      rw [readToken_eq sound.device] at alive starts step
      have parsed := player.reader.mem_of_readNext_start player.unread starts
      have noText := XmlReader.readsText_of_silent (elementAnswer_eq_none silent parsed)
      rcases closes.readNext whole with goesOn | ⟨ended, -, -⟩
      · left
        rw [step, processEvents_reader, processEvents_unread,
          handleElement_reader keys application alive, handleElement_unread keys application alive,
          elementText, if_neg (by simp [noText])]
        exact goesOn
      · cases ended.symm.trans starts
  | passes stack shape more other step =>
      rw [readToken_eq sound.device] at step
      rcases closes.readNext whole with goesOn | ⟨ended, none, last⟩
      · rw [step, endElement_eq goesOn.still]
        exact .inl goesOn
      · exact .inr ⟨last, (player.reader.readNext player.unread).1, stack, shape, ended,
          by rw [step, none]⟩

end

end Player

namespace Session

section

variable {Object Sequence : Type}

/-- The end of the document is sent, and the reader has not come to it. -/
structure Closing (session : Session Object Sequence) : Prop where
  sound : session.player.Sound
  calls : session.player.Calls
  due : session.player.due = []
  flag : session.player.ackNext = true
  closes : session.player.reader.Closes session.stream
  silent : streamAnswers session.stream = []
  whole : session.toPlayer ≠ [Marshall.newline]
  resting : session.marshall = .resting
  fresh : session.player.finished = 0
  orders : session.orders = [.die]
  owes : session.Owes [.ack]

/-- What follows the end of the document: nothing yet, or the line that ends the
application. -/
def Dies (session : Session Object Sequence) : Prop :=
  session.orders = [.die] ∧ session.stream = [] ∧ session.Owes [] ∨
    session.orders = [] ∧ session.stream = textTokens "DIE\n" ∧ session.Owes [.ack]

/-- The end of the document has been read, and acknowledged. -/
structure Closed (session : Session Object Sequence) : Prop where
  ended : session.player.reader.tokenType = .endDocument
  alive : session.player.failed = false
  stack : session.player.stack = [.processing]
  queue : session.player.eventQueue = []
  timers : session.player.timers = 0
  unread : session.player.unread = []
  connected : session.player.connected = false
  resting : session.marshall = .resting
  fresh : session.player.finished = 0
  dies : session.Dies

/-- The marshall has the socket. -/
structure HandedOver (session : Session Object Sequence) : Prop where
  alive : session.player.failed = false
  stack : session.player.stack = []
  timers : session.player.timers = 0
  unread : Marshall.newline ∉ session.player.unread
  connected : session.player.connected = false
  listening : session.marshall = .listening
  finished : session.player.finished = 1
  dies : session.Dies

/-- The marshall has acknowledged the last line, and the application quits. -/
structure Quits (session : Session Object Sequence) : Prop where
  quitting : session.marshall = .quitting
  finished : session.player.finished = 1
  orders : session.orders = []
  owes : session.Owes []

variable {session : Session Object Sequence}

/-- A reply that arrives is the one that is waited for, or the wait goes on. -/
theorem Dies.receive (dies : session.Dies) {reply : Reply Object}
    (arrives : session.player.written[session.handled]? = some reply) :
    (({ session with handled := session.handled + 1 }.processReply reply).Dies) := by
  rcases dies with ⟨orders, stream, owes⟩ | ⟨orders, stream, owes⟩
  · rcases owes.receive arrives with ⟨same, kept⟩ | ⟨same, -, paid⟩
    · rw [same]
      exact .inl ⟨orders, stream, kept⟩
    · rw [same]
      exact .inl ⟨orders, stream, paid⟩
  · rcases owes.receive arrives with ⟨same, kept⟩ | ⟨-, none, -⟩
    · rw [same]
      exact .inr ⟨orders, stream, kept⟩
    · cases none

theorem processReply_eq (session : Session Object Sequence) (reply : Reply Object) :
    ∃ waiting pendingAcks, session.processReply reply =
      { session with waiting := waiting, pendingAcks := pendingAcks } := by
  cases reply <;> exact ⟨_, _, rfl⟩

theorem Quits.receive (quits : session.Quits) {reply : Reply Object}
    (arrives : session.player.written[session.handled]? = some reply) :
    ({ session with handled := session.handled + 1 }.processReply reply).Quits := by
  obtain ⟨quitting, finished, orders, owes⟩ := quits
  rcases owes.receive arrives with ⟨same, kept⟩ | ⟨same, -, paid⟩
  · rw [same]
    exact ⟨quitting, finished, orders, kept⟩
  · rw [same]
    exact ⟨quitting, finished, orders, paid⟩

theorem Closed.receive (closed : session.Closed) {reply : Reply Object}
    (arrives : session.player.written[session.handled]? = some reply) :
    ({ session with handled := session.handled + 1 }.processReply reply).Closed := by
  have dies := closed.dies.receive arrives
  obtain ⟨waiting, pendingAcks, same⟩ :=
    processReply_eq { session with handled := session.handled + 1 } reply
  rw [same] at dies ⊢
  obtain ⟨ended, alive, stack, queue, timers, unread, connected, resting, fresh, -⟩ := closed
  exact ⟨ended, alive, stack, queue, timers, unread, connected, resting, fresh, dies⟩

theorem HandedOver.receive (handedOver : session.HandedOver) {reply : Reply Object}
    (arrives : session.player.written[session.handled]? = some reply) :
    ({ session with handled := session.handled + 1 }.processReply reply).HandedOver := by
  have dies := handedOver.dies.receive arrives
  obtain ⟨waiting, pendingAcks, same⟩ :=
    processReply_eq { session with handled := session.handled + 1 } reply
  rw [same] at dies ⊢
  obtain ⟨alive, stack, timers, unread, connected, listening, finished, -⟩ := handedOver
  exact ⟨alive, stack, timers, unread, connected, listening, finished, dies⟩

theorem Closing.receive (closing : session.Closing) {reply : Reply Object}
    (arrives : session.player.written[session.handled]? = some reply) :
    ({ session with handled := session.handled + 1 }.processReply reply).Closing := by
  obtain ⟨sound, calls, due, flag, closes, silent, whole, resting, fresh, orders, owes⟩ := closing
  rcases owes.receive arrives with ⟨same, kept⟩ | ⟨-, none, -⟩
  · rw [same]
    exact ⟨sound, calls, due, flag, closes, silent, whole, resting, fresh, orders, kept⟩
  · cases none

/-- The rest of the document arrives, with the line break behind it. -/
theorem Closing.deliver (closing : session.Closing) (turn : session.player.InEventLoop)
    {count : Nat} (whole : session.toPlayer.drop count ≠ [Marshall.newline]) :
    (session.deliver count).Closing := by
  have sound := closing.sound.readyRead (session.toPlayer.take count)
  have calls := closing.calls.readyRead turn (session.toPlayer.take count)
  have connected := closing.sound.connected
  have stream : session.player.unread ++ session.toPlayer.take count ++
      session.toPlayer.drop count = session.stream := by
    rw [List.append_assoc, List.take_append_drop, Session.stream]
  rw [Player.readyRead] at sound calls
  dsimp only at sound calls
  rw [if_pos connected] at sound calls
  rw [deliver_eq connected closing.resting]
  constructor
  · exact sound
  · exact calls
  · exact closing.due
  · exact closing.flag
  · rw [Session.stream, stream]
    exact closing.closes
  · rw [Session.stream, stream]
    exact closing.silent
  · exact whole
  · exact closing.resting
  · exact closing.fresh
  · exact closing.orders
  · exact closing.owes

end

section

variable {keys : KeySequences} {Object : Type} {session : Session Object keys.Sequence}

/-- The line that ends the application is sent once the end of the document is
acknowledged. -/
theorem Dies.send (dies : session.Dies) (idle : session.waiting = none)
    (pending : session.orders ≠ []) : (session.send keys).Dies := by
  rcases dies with ⟨orders, stream, owes⟩ | ⟨orders, -, -⟩
  · rw [send_eq orders]
    rw [Owes, idle] at owes
    refine .inr ⟨rfl, ?_, owes.send .die⟩
    change session.player.unread ++ (session.toPlayer ++ textTokens "DIE\n") = _
    rw [← List.append_assoc, ← Session.stream, stream, List.nil_append]
  · exact absurd orders pending

theorem Closed.send (closed : session.Closed) (idle : session.waiting = none)
    (pending : session.orders ≠ []) : (session.send keys).Closed := by
  have dies := closed.dies.send idle pending
  obtain ⟨order, rest, orders⟩ := List.exists_cons_of_ne_nil pending
  obtain ⟨ended, alive, stack, queue, timers, unread, connected, resting, fresh, -⟩ := closed
  rw [send_eq orders] at dies ⊢
  exact ⟨ended, alive, stack, queue, timers, unread, connected, resting, fresh, dies⟩

theorem HandedOver.send (handedOver : session.HandedOver) (idle : session.waiting = none)
    (pending : session.orders ≠ []) : (session.send keys).HandedOver := by
  have dies := handedOver.dies.send idle pending
  obtain ⟨order, rest, orders⟩ := List.exists_cons_of_ne_nil pending
  obtain ⟨alive, stack, timers, unread, connected, listening, finished, -⟩ := handedOver
  rw [send_eq orders] at dies ⊢
  exact ⟨alive, stack, timers, unread, connected, listening, finished, dies⟩

/-- What the marshall reads of the last line. -/
theorem Dies.line (dies : session.Dies) (arrived : Marshall.newline ∈ session.player.unread) :
    session.player.unread = textTokens "DIE\n" ∧ session.orders = [] ∧ session.Owes [.ack] := by
  rcases dies with ⟨-, stream, -⟩ | ⟨orders, stream, owes⟩
  · rw [Session.stream, List.append_eq_nil_iff] at stream
    rw [stream.1] at arrived
    cases arrived
  · have noBreak : Marshall.newline ∉ textTokens "DIE" := by decide
    obtain ⟨behind, line, rest⟩ := Library.Lines.exists_behind noBreak stream arrived
    rw [line, (List.append_eq_nil_iff.mp rest).1]
    exact ⟨rfl, orders, owes⟩

/-- The last line is read by the marshall once all of it is there. -/
theorem HandedOver.deliver (handedOver : session.HandedOver) (count : Nat) :
    (session.deliver count).HandedOver ∨ (session.deliver count).Quits := by
  obtain ⟨alive, stack, timers, -, connected, listening, finished, dies⟩ := handedOver
  have shape : session.deliver count =
      ({ session with
        toPlayer := session.toPlayer.drop count
        player := { session.player with
          unread := session.player.unread ++ session.toPlayer.take count } } :
            Session Object keys.Sequence).readCommand := by
    rw [Session.deliver, Player.readyRead]
    dsimp only
    rw [if_pos listening, connected]
    rfl
  have stream : session.player.unread ++ session.toPlayer.take count ++
      session.toPlayer.drop count = session.stream := by
    rw [List.append_assoc, List.take_append_drop, Session.stream]
  have arrived : ({ session with
      toPlayer := session.toPlayer.drop count
      player := { session.player with
        unread := session.player.unread ++ session.toPlayer.take count } } :
          Session Object keys.Sequence).Dies := by
    rw [Dies, Session.stream, stream]
    exact dies
  rw [shape, readCommand]
  by_cases complete : Marshall.newline ∈ session.player.unread ++ session.toPlayer.take count
  case neg =>
    left
    rw [Marshall.readLine_eq, Library.Lines.readLine_eq_none complete]
    exact ⟨alive, stack, timers, complete, connected, listening, finished, arrived⟩
  case pos =>
    right
    obtain ⟨line, orders, owes⟩ := arrived.line complete
    dsimp only at line
    have read : Marshall.readLine (textTokens "DIE\n") = some (textTokens "DIE\n", []) := by
      decide
    have noRecord : textTokens "DIE\n" ≠ textTokens "RECORD\n" := by decide
    have noPlay : textTokens "DIE\n" ≠ textTokens "PLAY\n" := by decide
    rw [line, read]
    dsimp only
    rw [if_neg noRecord, if_neg noPlay, if_pos rfl]
    exact ⟨rfl, finished, orders, owes.write rfl⟩

end

section

variable {keys : KeySequences} {Object : Type} [DecidableEq Object]
  {session : Session Object keys.Sequence}

/-- The player goes on to the end of the document, or acknowledges it. -/
theorem Closing.run (closing : session.Closing) (application : Application Object) :
    (session.run keys application).Closing ∨ (session.run keys application).Closed := by
  obtain ⟨sound, calls, due, flag, closes, silent, whole, resting, fresh, orders, owes⟩ := closing
  obtain ⟨queue, timers, mode⟩ := Player.settled_of_due due
  have silentUnread : streamAnswers session.player.unread = [] := by
    rw [Session.stream, streamAnswers_append] at silent
    exact (List.append_eq_nil_iff.mp silent).1
  have safe : session.player.StepsSafely application :=
    Player.stepsSafely_of_silent sound.device queue silentUnread
  rcases sound.step_closes application queue silentUnread whole closes with
    goesOn | ⟨last, reader, stack, shape, ended, step⟩
  · left
    have soundNext := (sound.step keys application closes.still safe goesOn.still goesOn.fine).1
    have callsNext := calls.step keys application sound closes.still safe goesOn.still
    have steps := sound.steps keys application closes.still safe goesOn.still goesOn.fine
    have quiet : session.run keys application =
        { session with player := session.player.step keys application } := by
      rw [Session.run, steps.finished, if_neg (Nat.lt_irrefl _)]
    rw [quiet]
    obtain ⟨reader, unread, processingEvents, stack, consumes, same⟩ :=
      steps.idle queue silentUnread
    rw [same] at soundNext callsNext goesOn ⊢
    refine ⟨soundNext, callsNext, due, flag, goesOn, ?_, whole, resting, fresh, orders, owes⟩
    rw [Session.stream, streamAnswers_append] at silent ⊢
    rw [(List.append_eq_nil_iff.mp silent).2, List.append_nil]
    exact streamAnswers_of_subset consumes silentUnread
  · right
    -- No call is active outside of the one that reads the end of the document.
    have noFlush : .flushing ∉ session.player.stack := fun member => calls.flushes member queue
    have bottom : stack = [] := by
      rw [shape] at noFlush
      rcases (shape ▸ calls.nested).shape noFlush with none | ⟨frame, single⟩ | both
      · cases none
      · exact (List.cons.inj single).2
      · cases both
    have idle : session.player.processingEvents = false := by
      have active := sound.active
      rw [Player.activities, shape, bottom, timers, mode] at active
      cases working : session.player.processingEvents with
      | false => rfl
      | true =>
          rw [working] at active
          cases active
    have next : session.player.step keys application =
        { session.player with
          reader := reader, unread := [], connected := false, processingEvents := true,
          written := session.player.written ++ [.ack], stack := [.processing] } := by
      rw [step, Player.endElement, if_pos ended, Player.ack]
      dsimp only
      rw [if_pos flag, Player.reply]
      dsimp only
      rw [if_pos sound.device, Player.processEvents]
      dsimp only
      rw [idle, if_neg (by decide), bottom]
    have quiet : session.run keys application =
        { session with player := session.player.step keys application } := by
      rw [Session.run, next, if_neg (Nat.lt_irrefl _)]
    rw [quiet, next]
    exact ⟨ended, sound.alive, rfl, queue, timers, rfl, rfl, resting, fresh,
      .inl ⟨orders, last, owes.write rfl⟩⟩

/-- The player gives its socket away. -/
theorem Closed.run (closed : session.Closed) (application : Application Object) :
    (session.run keys application).HandedOver := by
  obtain ⟨ended, alive, stack, queue, timers, unread, connected, resting, fresh, dies⟩ := closed
  have next : session.player.step keys application =
      { session.player with
        reader := .clear, device := false, connected := false,
        finished := session.player.finished + 1, processingEvents := false, stack := [] } := by
    rw [Player.step_processing keys application stack, queue]
    dsimp only
    rw [Player.endProcessing, if_pos ended, Player.leave]
    dsimp only
    rw [stack]
    rfl
  have nothing : Marshall.readLine session.player.unread = none := by
    rw [unread]
    rfl
  rw [Session.run, next, if_pos (Nat.lt_succ_self _), reconnect, readCommand, nothing]
  dsimp only
  refine ⟨alive, rfl, timers, ?_, rfl, rfl, ?_, dies⟩
  · rw [unread]
    exact List.not_mem_nil
  · exact congrArg (· + 1) fresh

end

end Session

end Hooq
