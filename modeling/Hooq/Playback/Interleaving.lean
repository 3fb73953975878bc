import Hooq.Playback.Stream

/-!
# The player in any event loop

Data arrives, timers expire and the user clicks in any order, also while a flush runs a
nested event loop.  A history records what the player has parsed and executed on the
way.  What cannot happen in a state leaves the history as it is.
-/

namespace Hooq

/-- What can happen to the player. -/
inductive Occurrence (Object : Type) [DecidableEq Object] where
  /-- The player goes on, with the application in a certain state. -/
  | run (application : Application Object)
  | readyRead (arrived : List Token)
  | endFlush
  | waitFinished
  | endPick (object : Object)

/-- The data that arrives. -/
def Occurrence.arrived {Object : Type} [DecidableEq Object] : Occurrence Object → List Token
  | .readyRead arrived => arrived
  | _ => []

/-- An element that the player has parsed. -/
structure Parsing (Object : Type) [DecidableEq Object] where
  application : Application Object
  name : QString
  attributes : Attributes
  text : QString

/-- An event that the player has taken from its queue, with what it wrote for it. -/
structure Execution (Object Sequence : Type) [DecidableEq Object] where
  application : Application Object
  event : Event Sequence
  replies : List (Reply Object)

namespace Parsing

variable {Object : Type} [DecidableEq Object] (keys : KeySequences)

def new (application : Application Object) (element : Element) : Parsing Object :=
  ⟨application, element.name, element.attributes, element.text⟩

/-- The entries for an element, none if the player fails on it. -/
def events (parsing : Parsing Object) : List (Event keys.Sequence) :=
  Player.elementEntries keys parsing.application ⟨parsing.name, parsing.attributes, parsing.text⟩

def tag (parsing : Parsing Object) : QString × Attributes :=
  (parsing.name, parsing.attributes)

end Parsing

namespace Player

section

variable {Object : Type} [DecidableEq Object]

/-- What can happen in a state.  An application that has failed is gone. -/
def Allows {Sequence : Type} (player : Player Object Sequence)
    (occurrence : Occurrence Object) : Prop :=
  player.failed = false ∧
    match occurrence with
    | .run _ => ¬player.InEventLoop
    | .readyRead _ => player.InEventLoop
    | .endFlush => player.stack.head? = some .flushing
    | .waitFinished => player.InEventLoop ∧ player.timers ≠ 0
    | .endPick _ => player.InEventLoop ∧ player.mode = .pick

instance {Sequence : Type} (player : Player Object Sequence) (occurrence : Occurrence Object) :
    Decidable (player.Allows occurrence) := by
  cases occurrence <;> unfold Allows <;> infer_instance

/-- An occurrence cannot happen, is a call from an event loop, or lets the player go on. -/
inductive Occurs {Sequence : Type} (player : Player Object Sequence) : Occurrence Object → Prop where
  | refused (occurrence : Occurrence Object) (impossible : ¬player.Allows occurrence) :
      Occurs player occurrence
  | call (occurrence : Occurrence Object) (allowed : player.Allows occurrence)
      (calls : ∀ application, occurrence ≠ .run application) : Occurs player occurrence
  | run (application : Application Object) (allowed : player.Allows (.run application)) :
      Occurs player (.run application)

theorem occurs {Sequence : Type} (player : Player Object Sequence)
    (occurrence : Occurrence Object) : player.Occurs occurrence := by
  by_cases allowed : player.Allows occurrence
  case neg => exact .refused occurrence allowed
  case pos =>
    cases occurrence with
    | run application => exact .run application allowed
    | _ => exact .call _ allowed nofun

variable (keys : KeySequences)

def meet (player : Player Object keys.Sequence) : Occurrence Object → Player Object keys.Sequence
  | .run application => player.step keys application
  | .readyRead arrived => player.readyRead arrived
  | .endFlush => player.endFlush
  | .waitFinished => player.waitFinished
  | .endPick object => player.endPick object

/-- The event that the player executes next. -/
def nextEvent {Sequence : Type} (player : Player Object Sequence) : Option (Event Sequence) :=
  if player.stack.head? = some .processing then player.eventQueue.head? else none

/-- The elements that the player parses next. -/
def nextElements {Sequence : Type} (player : Player Object Sequence) : List Element :=
  if player.stack.head? = some .reading ∧ ¬player.reader.atEnd player.available = true ∧
      player.readToken.reader.tokenType = .startElement then
    player.readToken.handledElements
  else
    []

/-- The elements that the player parses next, up to one on which it fails. -/
def nextParsings (application : Application Object) (player : Player Object keys.Sequence) :
    List (Parsing Object) :=
  (untilFailure keys application player.nextElements).map (Parsing.new application)

end

end Player

/-- A player with what has arrived, what it has parsed and what it has executed. -/
structure Player.History (Object Sequence : Type) [DecidableEq Object] where
  player : Player Object Sequence
  arrived : List Token
  parsed : List (Parsing Object)
  executed : List (Execution Object Sequence)

namespace Player.History

variable {Object : Type} [DecidableEq Object]

/-- A player that has been made and runs. -/
def new {Sequence : Type} (ackNext : Bool) : Player.History Object Sequence :=
  ⟨.new ackNext, [], [], []⟩

variable (keys : KeySequences)

def next (history : Player.History Object keys.Sequence) (occurrence : Occurrence Object) :
    Player.History Object keys.Sequence :=
  if history.player.Allows occurrence then
    let player := history.player.meet keys occurrence
    match occurrence with
    | .run application =>
        { player := player
          arrived := history.arrived
          parsed := history.parsed ++ history.player.nextParsings keys application
          executed := history.executed ++
            history.player.nextEvent.toList.map fun event =>
              ⟨application, event, player.written.drop history.player.written.length⟩ }
    | .readyRead arrived =>
        { history with player := player, arrived := history.arrived ++ arrived }
    | _ => { history with player := player }
  else
    history

end Player.History

/-! ## What a step of the queue loop leads to -/

namespace Event

section

variable {Object Sequence : Type} [DecidableEq Object] (application : Application Object)
  (event : Event Sequence)

/-- The target of an event that can do without it, with whether it is there. -/
def target : Option (QString × Bool) :=
  match event.task with
  | .focus objectPath _ => some (objectPath, (application.findWidget objectPath).isSome)
  | .drop objectPath _ _ | .object objectPath _ =>
      some (objectPath, (application.tree.findObject objectPath).isSome)
  | _ => none

/-- What is written for an event at once. -/
def replies : List (Reply Object) :=
  match event.task with
  | .dump objectPath => (application.tree.findObject objectPath).toList.map .dumped
  | .flush | .pick | .sleep _ => []
  | _ =>
      (match event.target application with
        | some (objectPath, false) => [.notFound objectPath]
        | _ => []) ++
        if event.ack then [.ack] else []

/-- What an event cannot do without is there. -/
def FindsTarget : Prop :=
  match event.task with
  | .dump objectPath => (application.tree.findObject objectPath).isSome = true
  | .close objectPath => (application.findWidget objectPath).isSome = true
  | _ => True

end

end Event

namespace Player

/-- The ways to go on after an entry of the queue. -/
inductive Outcome {Object Sequence : Type} [DecidableEq Object] (application : Application Object)
    (event : Event Sequence) (player : Player Object Sequence) :
    Player Object Sequence → Prop where
  | answered (replies : List (Reply Object)) (effects : List (Effect Object Sequence))
      (tells : player.device = true → replies = event.replies application) :
      Outcome application event player
        { player with
          ackNext := event.ack, written := player.written ++ replies, effects := effects }
  | failing (written : List (Reply Object)) (effects : List (Effect Object Sequence))
      (reason : player.device = false ∨ ¬event.FindsTarget application) :
      Outcome application event player
        { player with
          ackNext := event.ack, written := written, effects := effects }.fail
  | flushing (silent : event.replies application = []) :
      Outcome application event player
        { player with ackNext := event.ack, stack := .flushing :: player.stack }
  | picking (silent : event.replies application = []) :
      Outcome application event player
        { player with ackNext := event.ack, mode := .pick, stack := player.stack.tail }
  | sleeping (msec : Int32) (task : event.task = .sleep msec) :
      Outcome application event player
        { player with
          ackNext := event.ack,
          timers := if msec < 0 then player.timers else player.timers + 1,
          stack := player.stack.tail }

section

variable {Object Sequence : Type} [DecidableEq Object] {application : Application Object}
  {event : Event Sequence} {player : Player Object Sequence}

/-- An acknowledgement behind what has been written. -/
theorem outcome_ack (written : List (Reply Object)) (effects : List (Effect Object Sequence))
    (tells : player.device = true →
      written ++ (if event.ack then [.ack] else []) =
        player.written ++ event.replies application)
    (silent : player.device = false → written = player.written) :
    Outcome application event player
      ({ player with ackNext := event.ack, written := written, effects := effects }).ack := by
  have same (replies : List (Reply Object)) (shape : written = player.written ++ replies)
      (quiet : event.ack = false)
      (tells : player.device = true → replies = event.replies application) :
      Outcome application event player
        ({ player with ackNext := event.ack, written := written, effects := effects }).ack := by
    have unchanged :
        ({ player with ackNext := event.ack, written := written, effects := effects }).ack =
          { player with ackNext := event.ack, written := written, effects := effects } :=
      if_neg (by simp [quiet])
    rw [unchanged, shape]
    exact .answered replies effects tells
  by_cases device : player.device = true
  case neg =>
    have shape := silent (Bool.eq_false_of_not_eq_true device)
    by_cases acks : event.ack = true
    case neg =>
      exact same [] (by rw [shape, List.append_nil]) (Bool.eq_false_of_not_eq_true acks)
        fun connected => absurd connected device
    case pos =>
      have failing : Outcome application event player _ :=
        .failing written effects (.inl (Bool.eq_false_of_not_eq_true device))
      simpa [ack, reply, device, acks] using failing
  case pos =>
    have told := tells device
    by_cases acks : event.ack = true
    case neg =>
      rw [if_neg acks, List.append_nil] at told
      exact same _ told (Bool.eq_false_of_not_eq_true acks) fun _ => rfl
    case pos =>
      rw [if_pos acks] at told
      have answered : Outcome application event player _ :=
        .answered (event.replies application) effects fun _ => rfl
      simpa [ack, reply, device, acks, told] using answered

/-- A target that is missing is reported, and the event acknowledged. -/
theorem outcome_notFound (objectPath : QString)
    (missing : event.replies application =
      .notFound objectPath :: if event.ack then [.ack] else []) :
    Outcome application event player
      (({ player with ackNext := event.ack }).notifyNotFound objectPath).ack := by
  cases device : player.device with
  | true =>
      have told : Outcome application event player _ := outcome_ack
        (player.written ++ [.notFound objectPath]) player.effects
        (fun _ => by rw [missing, List.append_assoc]; rfl)
        (fun gone => absurd gone (by simp [device]))
      simpa [notifyNotFound, reply, device] using told
  | false =>
      have failing : Outcome application event player _ :=
        .failing player.written player.effects (.inl device)
      cases acks : event.ack <;>
        simpa [notifyNotFound, reply, device, ack, fail, acks] using failing

/-- What a step of the queue loop leads to. -/
theorem perform_outcome (application : Application Object) (event : Event Sequence)
    (player : Player Object Sequence) :
    Outcome application event player (player.perform application event) := by
  have affected (effects : List (Effect Object Sequence))
      (replies : event.replies application = if event.ack then [.ack] else []) :
      Outcome application event player
        ({ player with ackNext := event.ack, effects := effects }).ack :=
    outcome_ack player.written effects (fun _ => by rw [replies]) fun _ => rfl
  rw [perform]
  cases task : event.task with
  | ack => exact affected player.effects (by simp [Event.replies, Event.target, task])
  | dump objectPath =>
      dsimp only
      split
      next object found =>
          cases device : player.device with
          | true =>
              have answered : Outcome application event player _ :=
                .answered [.dumped object] player.effects
                  fun _ => by simp [Event.replies, task, found]
              simpa [reply, device] using answered
          | false =>
              have failing : Outcome application event player _ :=
                .failing player.written player.effects (.inl device)
              simpa [reply, device] using failing
      next missing =>
          exact .failing player.written player.effects
            (.inr (by simp [Event.FindsTarget, task, missing]))
  | flush => exact .flushing (by simp [Event.replies, task])
  | focus objectPath reason =>
      dsimp only
      split
      next widget found =>
          exact affected _ (by simp [Event.replies, Event.target, task, found])
      next missing =>
          exact outcome_notFound objectPath
            (by simp [Event.replies, Event.target, task, missing])
  | close objectPath =>
      dsimp only
      split
      next widget found =>
          exact affected _ (by simp [Event.replies, Event.target, task])
      next missing =>
          exact .failing player.written player.effects
            (.inr (by simp [Event.FindsTarget, task, missing]))
  | drop objectPath position globalPosition =>
      dsimp only
      split
      next object found =>
          exact affected _ (by simp [Event.replies, Event.target, task, found])
      next missing =>
          exact outcome_notFound objectPath
            (by simp [Event.replies, Event.target, task, missing])
  | object objectPath qtEvent =>
      dsimp only
      split
      next object found =>
          exact affected _ (by simp [Event.replies, Event.target, task, found])
      next missing =>
          exact outcome_notFound objectPath
            (by simp [Event.replies, Event.target, task, missing])
  | pick => exact .picking (by simp [Event.replies, task])
  | sleep msec =>
      have sleeping : Outcome application event player _ := .sleeping msec task
      simp only [sleep, leave]
      split
      next negative => simpa [negative] using sleeping
      next timed => simpa [timed] using sleeping

end

/-! ## The order of execution -/

section

variable {Object Sequence : Type} (player : Player Object Sequence)

theorem ack_eq :
    (∃ written, player.ack = { player with written := written }) ∨
      player.device = false ∧ player.ack = player.fail := by
  rw [ack, reply]
  split
  next =>
      split
      next => exact .inl ⟨_, rfl⟩
      next gone => exact .inr ⟨Bool.eq_false_of_not_eq_true gone, rfl⟩
  next => exact .inl ⟨player.written, rfl⟩

@[simp] theorem ack_eventQueue : player.ack.eventQueue = player.eventQueue := by
  rcases player.ack_eq with ⟨_, same⟩ | ⟨-, same⟩ <;> rw [same]
  rfl

@[simp] theorem processEvents_eventQueue :
    player.processEvents.eventQueue = player.eventQueue := by
  obtain ⟨_, _, same⟩ := player.processEvents_eq
  rw [same]

theorem endElement_eventQueue (stack : List Frame) :
    (player.endElement stack).eventQueue = player.eventQueue := by
  rw [endElement]
  split
  · rw [processEvents_eventQueue, ack_eventQueue]
  · rfl

theorem endProcessing_eventQueue : player.endProcessing.eventQueue = player.eventQueue := by
  rw [endProcessing]
  split <;> rfl

variable {player}

/-! What is executed or parsed next, by the call that the player is in. -/

theorem InEventLoop.head?_ne (turn : player.InEventLoop) {frame : Frame}
    (other : frame ≠ .flushing) : player.stack.head? ≠ some frame := by
  rcases turn with empty | first
  · rw [empty]
    nofun
  · rw [first]
    exact fun same => other (Option.some.inj same).symm

theorem InEventLoop.nextEvent (turn : player.InEventLoop) : player.nextEvent = none :=
  if_neg (turn.head?_ne (by decide))

theorem InEventLoop.nextElements (turn : player.InEventLoop) : player.nextElements = [] :=
  if_neg fun holds => turn.head?_ne (by decide) holds.1

variable {frame : Frame} {stack : List Frame}

theorem head?_of_shape (shape : player.stack = frame :: stack) :
    player.stack.head? = some frame := by
  rw [shape, List.head?_cons]

theorem nextEvent_of_processing (shape : player.stack = .processing :: stack) :
    player.nextEvent = player.eventQueue.head? :=
  if_pos (head?_of_shape shape)

theorem nextEvent_of_ne (shape : player.stack = frame :: stack) (other : frame ≠ .processing) :
    player.nextEvent = none :=
  if_neg (by simpa [head?_of_shape shape] using other)

theorem nextElements_of_ne (shape : player.stack = frame :: stack) (other : frame ≠ .reading) :
    player.nextElements = [] :=
  if_neg fun holds => other (Option.some.inj ((head?_of_shape shape).symm.trans holds.1))

theorem nextElements_of_atEnd (ending : player.reader.atEnd player.available = true) :
    player.nextElements = [] :=
  if_neg fun holds => holds.2.1 ending

theorem nextElements_of_other (other : player.readToken.reader.tokenType ≠ .startElement) :
    player.nextElements = [] :=
  if_neg fun holds => other holds.2.2

theorem nextElements_of_starts (shape : player.stack = .reading :: stack)
    (more : ¬player.reader.atEnd player.available = true)
    (starts : player.readToken.reader.tokenType = .startElement) :
    player.nextElements = player.readToken.handledElements :=
  if_pos ⟨head?_of_shape shape, more, starts⟩

end

section

variable {Object : Type} [DecidableEq Object] (keys : KeySequences)
  (application : Application Object) (player : Player Object keys.Sequence)

theorem nextParsings_of_none {player : Player Object keys.Sequence}
    (noElement : player.nextElements = []) : player.nextParsings keys application = [] := by
  rw [nextParsings, noElement]
  rfl

theorem flatMap_nextParsings :
    (player.nextParsings keys application).flatMap (Parsing.events keys) =
      (untilFailure keys application player.nextElements).flatMap
        (elementEntries keys application) := by
  rw [nextParsings, List.flatMap_map]
  rfl

theorem Outcome.eventQueue {event : Event keys.Sequence} {next : Player Object keys.Sequence}
    (outcome : Outcome application event player next) :
    next.eventQueue = player.eventQueue := by
  cases outcome <;> rfl

theorem Outcome.reader {event : Event keys.Sequence} {next : Player Object keys.Sequence}
    (outcome : Outcome application event player next) : next.reader = player.reader := by
  cases outcome <;> rfl

theorem Outcome.unread {event : Event keys.Sequence} {next : Player Object keys.Sequence}
    (outcome : Outcome application event player next) : next.unread = player.unread := by
  cases outcome <;> rfl

/-- A step takes the first event from the queue, or puts the events of the elements that
it parses behind the others. -/
theorem step_eventQueue (alive : player.failed = false) :
    player.nextEvent.toList ++ (player.step keys application).eventQueue =
      player.eventQueue ++ (player.nextParsings keys application).flatMap
        (Parsing.events keys) := by
  cases player.stepCase keys application with
  | idle turn step =>
      rw [turn.nextEvent, nextParsings_of_none keys application turn.nextElements, step]
      simp
  | performs stack event rest shape queue step =>
      have outcome := perform_outcome application event { player with eventQueue := rest }
      rw [nextEvent_of_processing shape,
        nextParsings_of_none keys application (nextElements_of_ne shape (by decide)), step]
      simp [queue, outcome.eventQueue]
  | settles stack shape queue step =>
      rw [nextEvent_of_processing shape,
        nextParsings_of_none keys application (nextElements_of_ne shape (by decide)), step]
      simpa [queue] using player.endProcessing_eventQueue.trans queue
  | closes stack shape step =>
      rw [nextEvent_of_ne shape (by decide),
        nextParsings_of_none keys application (nextElements_of_ne shape (by decide)), step,
        endElement_eventQueue]
      simp
  | stops stack shape ending step =>
      rw [nextEvent_of_ne shape (by decide),
        nextParsings_of_none keys application (nextElements_of_atEnd ending), step]
      simp
  | parses stack shape more starts step =>
      have entered : { player.readToken with stack := .readElement :: stack }.failed = false :=
        alive
      rw [nextEvent_of_ne shape (by decide), flatMap_nextParsings,
        nextElements_of_starts shape more starts, step, processEvents_eventQueue,
        handleElement_eventQueue keys application entered]
      rfl
  | passes stack shape more other step =>
      rw [nextEvent_of_ne shape (by decide),
        nextParsings_of_none keys application (nextElements_of_other other), step]
      simp [endElement_eventQueue, readToken]

end

end Player

/-! ## The order of parsing -/

def Element.tag (element : Element) : QString × Attributes :=
  (element.name, element.attributes)

/-- The start tags in a stream. -/
def startTags (tokens : List Token) : List (QString × Attributes) :=
  tokens.filterMap fun
    | .start name attributes => some (name, attributes)
    | _ => none

@[simp] theorem startTags_append (front back : List Token) :
    startTags (front ++ back) = startTags front ++ startTags back :=
  List.filterMap_append

namespace XmlReader

/-- Reading a token takes it, with the white space before it, from the stream. -/
theorem readNext_consumes (reader : XmlReader) (tokens : List Token) :
    ∃ consumed, tokens = consumed ++ (reader.readNext tokens).2 ∧
      startTags consumed =
        if (reader.readNext tokens).1.tokenType = .startElement then
          [((reader.readNext tokens).1.name, (reader.readNext tokens).1.attributes)]
        else [] := by
  fun_induction XmlReader.readNext reader tokens with
  | case5 name attributes rest => exact ⟨[.start name attributes], rfl, rfl⟩
  | case7 character rest _ _ _ ih =>
      obtain ⟨consumed, shape, tags⟩ := ih
      exact ⟨.character character :: consumed, congrArg (.character character :: ·) shape, tags⟩
  | case9 character rest => exact ⟨[.character character], rfl, rfl⟩
  | case11 rest => exact ⟨[.stop], rfl, rfl⟩
  | _ => exact ⟨[], rfl, rfl⟩

/-- Reading a text takes no other start tag than that of a child, which is an error. -/
theorem readElementText_consumes {reader : XmlReader} (fine : reader.error = false)
    (tokens : List Token) :
    ∃ consumed, tokens = consumed ++ (reader.readElementText tokens).2.2 ∧
      startTags consumed =
        if (reader.readElementText tokens).2.1.error then
          [((reader.readElementText tokens).2.1.name,
            (reader.readElementText tokens).2.1.attributes)]
        else [] := by
  induction tokens with
  | nil => exact ⟨[], rfl, by simp [readElementText, fine, startTags]⟩
  | cons token rest ih =>
      cases token with
      | start name attributes => exact ⟨[.start name attributes], rfl, rfl⟩
      | character character =>
          obtain ⟨consumed, shape, tags⟩ := ih
          exact ⟨.character character :: consumed, congrArg (.character character :: ·) shape,
            tags⟩
      | stop => exact ⟨[.stop], rfl, by simp [readElementText, fine, startTags]⟩

/-- An error leaves no other token. -/
def Stopped (reader : XmlReader) : Prop :=
  reader.error = true → reader.tokenType = .invalid

theorem Stopped.readNext {reader : XmlReader} (fine : reader.error = false)
    (tokens : List Token) : (reader.readNext tokens).1.Stopped := by
  fun_induction XmlReader.readNext reader tokens with
  | case7 character rest _ _ _ ih => exact ih
  | case5 => exact fun failed => absurd failed (by simp [fine])
  | case9 => exact fun failed => absurd failed (by simp [fine])
  | case11 => exact fun failed => absurd failed (by simp [fine])
  | case2 => exact fun failed => absurd failed (by simp [fine])
  | _ => exact fun _ => rfl

/-- At a start tag there has been no error. -/
theorem Stopped.fine {reader : XmlReader} (stopped : reader.Stopped)
    (starts : reader.tokenType = .startElement) : reader.error = false := by
  by_contra failed
  have invalid := stopped (Bool.eq_true_of_not_eq_false failed)
  rw [starts] at invalid
  cases invalid

theorem Stopped.readElementText {reader : XmlReader} (stopped : reader.Stopped)
    (starts : reader.tokenType = .startElement) (tokens : List Token) :
    (reader.readElementText tokens).2.1.Stopped := by
  have fine := stopped.fine starts
  induction tokens with
  | nil => exact fun _ => rfl
  | cons token rest ih =>
      cases token with
      | start name attributes => exact fun _ => rfl
      | character character => exact ih
      | stop => exact fun failed => absurd failed (by simp [XmlReader.readElementText, fine])

end XmlReader

namespace Player

section

variable {Object Sequence : Type} (player : Player Object Sequence)

theorem ack_unread : player.ack.unread = player.unread := by
  rcases player.ack_eq with ⟨_, same⟩ | ⟨-, same⟩ <;> rw [same]
  rfl

theorem endElement_unread (stack : List Frame) :
    (player.endElement stack).unread = player.unread := by
  rw [endElement]
  split
  · rw [processEvents_unread, ack_unread]
  · rfl

variable {player}

/-- A reader with more to read takes a token from the stream. -/
theorem readToken_consumes (more : ¬player.reader.atEnd player.available = true) :
    player.reader.error = false ∧ player.readToken.reader.Stopped ∧
      ∃ consumed, player.unread = consumed ++ player.readToken.unread ∧
        startTags consumed =
          if player.readToken.reader.tokenType = .startElement then
            [(player.readToken.reader.name, player.readToken.reader.attributes)]
          else [] := by
  have fine : player.reader.error = false := by
    cases failed : player.reader.error with
    | false => rfl
    | true => simp [XmlReader.atEnd, failed] at more
  obtain ⟨consumed, tokens, tags⟩ := player.reader.readNext_consumes player.available
  refine ⟨fine, .readNext fine _, consumed, ?_, tags⟩
  cases device : player.device with
  | true => simpa [readToken, available, device] using tokens
  | false =>
      rw [available, device, if_neg Bool.false_ne_true] at tokens
      have none : consumed = [] := (List.append_eq_nil_iff.mp tokens.symm).1
      simp [readToken, device, none]

/-- Behind a start tag, a text takes the start tags of the other elements that are handled,
and at most one more. -/
theorem elementText_consumes (stopped : player.reader.Stopped)
    (starts : player.reader.tokenType = .startElement) :
    ∃ inside, player.unread = inside ++ player.elementText.2.2 ∧
      player.elementText.2.1.Stopped ∧
      player.handledElements.map Element.tag <+:
        (player.reader.name, player.reader.attributes) :: startTags inside ∧
      (player.elementText.2.1.error = false →
        player.handledElements.map Element.tag =
          (player.reader.name, player.reader.attributes) :: startTags inside) := by
  by_cases isText : readsText player.reader.name && player.reader.tokenType = .startElement
  case pos =>
    have text : player.elementText = player.reader.readElementText player.unread := if_pos isText
    obtain ⟨inside, tokens, tags⟩ :=
      XmlReader.readElementText_consumes (stopped.fine starts) player.unread
    rw [← text] at tokens tags
    refine ⟨inside, tokens, text ▸ stopped.readElementText starts _, ?_, fun fine => ?_⟩
    · refine (List.prefix_cons_inj _).mpr ?_
      rw [childElement]
      split
      next child =>
          have failed : player.elementText.2.1.error = true := by
            by_contra fine
            have alone := handledElements_of_fine (Bool.eq_false_of_not_eq_true fine)
            rw [handledElements, childElement, if_pos child] at alone
            cases alone
          rw [tags, if_pos failed]
          exact List.prefix_rfl
      next => exact List.nil_prefix
    · rw [handledElements_of_fine fine, tags, if_neg (by simp [fine])]
      rfl
  case neg =>
    have text : player.elementText = ([], player.reader, player.unread) := if_neg isText
    have alone : player.handledElements.map Element.tag =
        [(player.reader.name, player.reader.attributes)] := by
      rw [handledElements, text, childElement_self]
      rfl
    refine ⟨[], by rw [text]; rfl, by rwa [text], ?_, fun _ => alone⟩
    rw [alone]
    exact List.prefix_rfl

end

section

variable {Object : Type} [DecidableEq Object] (keys : KeySequences)
  (application : Application Object) (player : Player Object keys.Sequence)

/-- What a step reads from the stream, and the element that it parses. -/
structure Consumes (player next : Player Object keys.Sequence) (parsed : List (Parsing Object))
    (consumed : List Token) : Prop where
  unread : player.unread = consumed ++ next.unread
  stopped : next.reader.Stopped
  parses : player.reader.error = false → parsed.map Parsing.tag <+: startTags consumed
  all : player.reader.error = false → next.reader.error = false →
    parsed.map Parsing.tag = startTags consumed
  none : player.reader.error = true →
    parsed = [] ∧ consumed = [] ∧ next.reader.error = true

theorem Consumes.nothing {player next : Player Object keys.Sequence}
    (stopped : player.reader.Stopped) (unread : next.unread = player.unread)
    (reader : next.reader = player.reader) : Consumes keys player next [] [] where
  unread := unread.symm
  stopped := reader ▸ stopped
  parses _ := List.prefix_rfl
  all _ _ := rfl
  none failed := ⟨rfl, rfl, reader ▸ failed⟩

theorem nextParsings_tags :
    (player.nextParsings keys application).map Parsing.tag <+:
      player.nextElements.map Element.tag := by
  rw [nextParsings, List.map_map]
  exact (isPrefix_untilFailure keys application player.nextElements).map Element.tag

/-- A step reads tokens from the stream, and parses the element of a start tag. -/
theorem step_consumes (alive : player.failed = false) (stopped : player.reader.Stopped) :
    ∃ consumed, Consumes keys player (player.step keys application)
      (player.nextParsings keys application) consumed := by
  have quiet (noElement : player.nextElements = []) :
      player.nextParsings keys application = [] :=
    nextParsings_of_none keys application noElement
  cases player.stepCase keys application with
  | idle turn step =>
      rw [quiet turn.nextElements, step]
      exact ⟨[], .nothing keys stopped rfl rfl⟩
  | performs stack event rest shape queue step =>
      have outcome := perform_outcome application event { player with eventQueue := rest }
      rw [quiet (nextElements_of_ne shape (by decide)), step]
      exact ⟨[], .nothing keys stopped outcome.unread outcome.reader⟩
  | settles stack shape queue step =>
      rw [quiet (nextElements_of_ne shape (by decide)), step, endProcessing]
      split
      next ended =>
          have fine : player.reader.error ≠ true := fun failed => by
            have invalid := stopped failed
            rw [ended] at invalid
            cases invalid
          exact ⟨[], rfl, (fun wrong => by cases wrong), fun _ => List.prefix_rfl, fun _ _ => rfl,
            fun failed => absurd failed fine⟩
      next => exact ⟨[], .nothing keys stopped rfl rfl⟩
  | closes stack shape step =>
      rw [quiet (nextElements_of_ne shape (by decide)), step]
      exact ⟨[], .nothing keys stopped (player.endElement_unread stack)
        (player.endElement_reader stack)⟩
  | stops stack shape ending step =>
      rw [quiet (nextElements_of_atEnd ending), step]
      exact ⟨[], .nothing keys stopped (processEvents_unread _) (processEvents_reader _)⟩
  | parses stack shape more starts step =>
      have entered : { player.readToken with stack := .readElement :: stack }.failed = false :=
        alive
      obtain ⟨fine, stoppedNext, consumed, unread, tags⟩ := readToken_consumes more
      obtain ⟨inside, rest, stoppedText, parses, all⟩ := elementText_consumes stoppedNext starts
      have parsed := nextElements_of_starts shape more starts
      have started := player.nextParsings_tags keys application
      rw [if_pos starts] at tags
      rw [parsed] at started
      rw [step]
      refine ⟨consumed ++ inside, ?_, ?_, fun _ => ?_, fun _ fineNext => ?_,
        fun failed => absurd failed (by simp [fine])⟩
      · rw [processEvents_unread, handleElement_unread keys application entered, unread, rest,
          List.append_assoc]
        rfl
      · rw [processEvents_reader, handleElement_reader keys application entered]
        exact stoppedText
      · rw [startTags_append, tags]
        exact started.trans parses
      · rw [processEvents_reader, handleElement_reader keys application entered] at fineNext
        have fineText : player.readToken.elementText.2.1.error = false := fineNext
        have whole := all fineText
        rw [handledElements_of_fine fineText] at whole
        rw [startTags_append, tags, List.singleton_append, nextParsings, parsed,
          handledElements_of_fine fineText, untilFailure_single]
        exact whole
  | passes stack shape more other step =>
      obtain ⟨fine, stoppedNext, consumed, unread, tags⟩ := readToken_consumes more
      rw [if_neg other] at tags
      rw [quiet (nextElements_of_other other), step]
      refine ⟨consumed, ?_, ?_, fun _ => ?_, fun _ _ => ?_,
        fun failed => absurd failed (by simp [fine])⟩
      · rw [endElement_unread]
        exact unread
      · rw [endElement_reader]
        exact stoppedNext
      · exact List.nil_prefix
      · exact tags.symm

end

end Player

end Hooq
