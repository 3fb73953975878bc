import Hooq.Playback.Answers
import Hooq.Playback.Handling

/-!
# No answer is lost

Each call of the player keeps the answers that it has given and still owes, taken
together with those of the elements that it has not read.  The flag
`processingEvents` is set exactly while the queue is worked through, a sleep timer
runs or the user picks an object.
-/

namespace Hooq

namespace Player

section

variable {Object Sequence : Type} (player : Player Object Sequence)

/-- What a running sleep timer and the pick mode lead to. -/
def suspended : List (Option Answer) :=
  List.replicate player.timers (if player.ackNext then some .ack else none) ++
    if player.mode = .pick then [some .picked] else []

/-- What the player still owes, in order. -/
def due : List (Option Answer) :=
  player.suspended ++ player.eventQueue.map Event.answer

/-- The answers given so far. -/
def answers : List Answer :=
  player.written.filterMap Reply.answer

/-- The answers given and owed. -/
def promised : List Answer :=
  player.answers ++ player.due.filterMap id

/-- How often the queue is worked on or waited for. -/
def activities : Nat :=
  player.stack.count .processing + player.timers + if player.mode = .pick then 1 else 0

/-- `readNext` is active. -/
def IsReading : Prop :=
  .reading ∈ player.stack ∨ .readElement ∈ player.stack

/-- What holds while the document is open and no assertion has failed, also in the
middle of a step. -/
structure Steady : Prop where
  alive : player.failed = false
  device : player.device = true
  connected : player.connected = true
  active : player.activities = player.processingEvents.toNat
  reads : player.unread ≠ [] → player.IsReading ∨ player.reader.error = true
  ends : ∀ last ∈ player.due.getLast?, last.isSome = true
  acks : ∀ event ∈ player.eventQueue, event.answer.isSome = true → event.ack = true
  given : player.due = [] → player.answers ≠ [] → player.ackNext = true

/-- What holds between two steps: the queue is not left alone. -/
structure Sound : Prop extends player.Steady where
  queued : player.eventQueue ≠ [] → player.processingEvents = true

end

section

variable {Object Sequence : Type} {player : Player Object Sequence}

/-- While the queue is worked on, neither a timer nor the user is waited for. -/
theorem Steady.working (steady : player.Steady) (working : .processing ∈ player.stack) :
    player.timers = 0 ∧ player.mode = .playback ∧ player.stack.count .processing = 1 := by
  have active := steady.active
  have bounded := player.processingEvents.toNat_le
  have counted := List.count_pos_iff.mpr working
  rw [activities] at active
  cases mode : player.mode with
  | playback => exact ⟨by omega, rfl, by omega⟩
  | pick =>
      simp only [mode, if_true] at active
      omega

/-- What is owed ends in an answer. -/
theorem Steady.due_eq_nil (steady : player.Steady) (settled : player.due.filterMap id = []) :
    player.due = [] := by
  cases last : player.due.getLast? with
  | none => exact List.getLast?_eq_none_iff.mp last
  | some final =>
      obtain ⟨answer, isAnswer⟩ := Option.isSome_iff_exists.mp (steady.ends final last)
      have member : answer ∈ player.due.filterMap id :=
        List.mem_filterMap.mpr ⟨final, List.mem_of_getLast? last, isAnswer⟩
      rw [settled] at member
      cases member

/-- Once nothing is owed, nothing is queued and nothing is waited for. -/
theorem settled_of_due (settled : player.due = []) :
    player.eventQueue = [] ∧ player.timers = 0 ∧ player.mode = .playback := by
  simp only [due, suspended, List.append_eq_nil_iff, List.map_eq_nil_iff,
    List.replicate_eq_nil_iff] at settled
  refine ⟨settled.2, settled.1.1, ?_⟩
  cases mode : player.mode with
  | playback => rfl
  | pick => simp [mode] at settled

/-- A timer that runs is the only thing that is waited for. -/
theorem Steady.sleeping (steady : player.Steady) (sleeping : player.timers ≠ 0) :
    player.timers = 1 ∧ player.mode = .playback ∧ player.stack.count .processing = 0 := by
  have active := steady.active
  have bounded := player.processingEvents.toNat_le
  rw [activities] at active
  cases mode : player.mode with
  | playback => exact ⟨by omega, rfl, by omega⟩
  | pick =>
      simp only [mode, if_true] at active
      omega

theorem sound_new (ackNext : Bool) : (new ackNext : Player Object Sequence).Sound where
  alive := rfl
  device := rfl
  connected := rfl
  active := rfl
  reads pending := absurd rfl pending
  ends := nofun
  acks := nofun
  given _ answered := absurd rfl answered
  queued pending := absurd rfl pending

/-- A call of `processEvents` sees to the queue. -/
theorem Steady.processEvents (steady : player.Steady) : player.processEvents.Sound := by
  rw [Player.processEvents]
  split
  next working => exact ⟨steady, fun _ => working⟩
  next idle =>
      have active := steady.active
      rw [activities, Bool.eq_false_of_not_eq_true idle, Bool.toNat_false] at active
      refine ⟨⟨steady.alive, steady.device, steady.connected, ?_, ?_, steady.ends, steady.acks,
        steady.given⟩, fun _ => rfl⟩
      · simp only [activities, List.count_cons_self, Bool.toNat_true]
        omega
      · intro pending
        exact (steady.reads pending).imp_left fun reading =>
          reading.imp (List.mem_cons_of_mem _) (List.mem_cons_of_mem _)

/-- A call of `processEvents` is a new frame at most. -/
theorem processEvents_eq (player : Player Object Sequence) : ∃ processingEvents stack,
    player.processEvents =
      { player with processingEvents := processingEvents, stack := stack } := by
  rw [Player.processEvents]
  split
  · exact ⟨_, _, rfl⟩
  · exact ⟨_, _, rfl⟩

@[simp] theorem processEvents_promised (player : Player Object Sequence) :
    player.processEvents.promised = player.promised := by
  obtain ⟨_, _, same⟩ := player.processEvents_eq
  rw [same]
  rfl

@[simp] theorem processEvents_unread (player : Player Object Sequence) :
    player.processEvents.unread = player.unread := by
  obtain ⟨_, _, same⟩ := player.processEvents_eq
  rw [same]

@[simp] theorem processEvents_reader (player : Player Object Sequence) :
    player.processEvents.reader = player.reader := by
  obtain ⟨_, _, same⟩ := player.processEvents_eq
  rw [same]

end

/-! ## Working through the queue -/

/-- The four ways to go on after an entry of the queue. -/
inductive Performs {Object Sequence : Type} (event : Event Sequence) (player : Player Object Sequence) :
    Player Object Sequence → Prop where
  | answered (replies : List (Reply Object)) (effects : List (Effect Object Sequence))
      (leads : replies.filterMap Reply.answer = event.answer.toList) :
      Performs event player
        { player with
          ackNext := event.ack, written := player.written ++ replies, effects := effects }
  | flushing (leads : event.answer = none) :
      Performs event player
        { player with ackNext := event.ack, stack := .flushing :: player.stack }
  | picking (leads : event.answer = some .picked) :
      Performs event player
        { player with ackNext := event.ack, mode := .pick, stack := player.stack.tail }
  | sleeping (leads : event.answer = if event.ack then some .ack else none) :
      Performs event player
        { player with
          ackNext := event.ack, timers := player.timers + 1, stack := player.stack.tail }

section

variable {Object Sequence : Type} (event : Event Sequence) (player : Player Object Sequence)

theorem Performs.unread {Object Sequence : Type} {event : Event Sequence}
    {player next : Player Object Sequence} (performs : Performs event player next) :
    next.unread = player.unread := by
  cases performs <;> rfl

/-- An entry that is done, behind which `ack` is called. -/
theorem performs_ack (device : player.device = true) (replies : List (Reply Object))
    (effects : List (Effect Object Sequence))
    (silent : replies.filterMap Reply.answer = [])
    (leads : event.answer = if event.ack then some .ack else none) :
    Performs event player
      ({ player with
        ackNext := event.ack, written := player.written ++ replies,
        effects := effects }.ack) := by
  cases acks : event.ack with
  | true =>
      have answered : Performs event player _ :=
        .answered (replies ++ [.ack]) effects (by simp [silent, leads, acks, Reply.answer])
      simpa [ack, reply, device, acks] using answered
  | false =>
      have answered : Performs event player _ :=
        .answered replies effects (by simp [silent, leads, acks])
      simpa [ack, acks] using answered

theorem performs_affect (device : player.device = true) (effect : Effect Object Sequence)
    (leads : event.answer = if event.ack then some .ack else none) :
    Performs event player (({ player with ackNext := event.ack }.affect effect).ack) := by
  simpa [affect] using performs_ack event player device [] (player.effects ++ [effect]) rfl leads

theorem performs_notFound (device : player.device = true) (objectPath : QString)
    (leads : event.answer = if event.ack then some .ack else none) :
    Performs event player
      (({ player with ackNext := event.ack }.notifyNotFound objectPath).ack) := by
  simpa [notifyNotFound, reply, device] using
    performs_ack event player device [.notFound objectPath] player.effects rfl leads

end

section

variable {Object : Type} [DecidableEq Object] (application : Application Object)
  {Sequence : Type}

/-- The targets that an entry cannot do without are there. -/
def IsSafe (event : Event Sequence) : Prop :=
  match event.task with
  | .dump objectPath => (application.tree.findObject objectPath).isSome = true
  | .close objectPath => (application.findWidget objectPath).isSome = true
  | .sleep msec => ¬msec < 0
  | _ => True

theorem perform_performs (event : Event Sequence) (player : Player Object Sequence)
    (device : player.device = true) (safe : IsSafe application event) :
    Performs event player (player.perform application event) := by
  rw [perform]
  rw [IsSafe] at safe
  have acked (notDump : ∀ objectPath, event.task ≠ .dump objectPath)
      (notPick : event.task ≠ .pick) (notFlush : event.task ≠ .flush) :
      event.answer = if event.ack then some .ack else none := by
    rw [Event.answer]
    split
    next task => exact absurd task (notDump _)
    next task => exact absurd task notPick
    next task => exact absurd task notFlush
    next => rfl
  cases task : event.task with
  | ack =>
      simpa using performs_ack event player device [] player.effects rfl
        (acked (by simp [task]) (by simp [task]) (by simp [task]))
  | dump objectPath =>
      simp only [task] at safe
      obtain ⟨object, found⟩ := Option.isSome_iff_exists.mp safe
      have answered : Performs event player _ :=
        .answered [.dumped object] player.effects (by simp [Event.answer, task, Reply.answer])
      simpa [found, reply, device] using answered
  | flush => exact .flushing (by simp [Event.answer, task])
  | focus objectPath reason =>
      have leads := acked (by simp [task]) (by simp [task]) (by simp [task])
      dsimp only
      split
      next widget found => exact performs_affect event player device _ leads
      next missing => exact performs_notFound event player device _ leads
  | close objectPath =>
      simp only [task] at safe
      obtain ⟨widget, found⟩ := Option.isSome_iff_exists.mp safe
      simp only [found]
      exact performs_affect event player device _
        (acked (by simp [task]) (by simp [task]) (by simp [task]))
  | drop objectPath position globalPosition =>
      have leads := acked (by simp [task]) (by simp [task]) (by simp [task])
      dsimp only
      split
      next object found => exact performs_affect event player device _ leads
      next missing => exact performs_notFound event player device _ leads
  | object objectPath qtEvent =>
      have leads := acked (by simp [task]) (by simp [task]) (by simp [task])
      dsimp only
      split
      next object found => exact performs_affect event player device _ leads
      next missing => exact performs_notFound event player device _ leads
  | pick => exact .picking (by simp [Event.answer, task])
  | sleep msec =>
      simp only [task] at safe
      simp only [sleep, if_neg safe]
      exact .sleeping (acked (by simp [task]) (by simp [task]) (by simp [task]))

end

section

variable {Object Sequence : Type} {player next : Player Object Sequence}

/-- While the queue is worked on, what is owed is what the queue leads to. -/
theorem Steady.due_of_working (steady : player.Steady) (working : .processing ∈ player.stack) :
    player.due = player.eventQueue.map Event.answer := by
  obtain ⟨asleep, mode, -⟩ := steady.working working
  simp [due, suspended, asleep, mode]

theorem ends_of_cons {answer : Option Answer} {rest : List (Option Answer)}
    (ends : ∀ last ∈ (answer :: rest).getLast?, last.isSome = true) :
    ∀ last ∈ rest.getLast?, last.isSome = true := by
  intro last isLast
  apply ends
  rw [List.getLast?_cons, isLast]
  rfl

/-- Going on with an entry keeps what is promised. -/
theorem Sound.performs (sound : player.Sound) {stack : List Frame}
    (working : player.stack = .processing :: stack) {event : Event Sequence}
    {rest : List (Event Sequence)} (queue : player.eventQueue = event :: rest)
    (performs : Performs event { player with eventQueue := rest } next) :
    next.Sound ∧ next.promised = player.promised := by
  have member : Frame.processing ∈ player.stack := by simp [working]
  obtain ⟨asleep, mode, once⟩ := sound.working member
  have due : player.due = event.answer :: rest.map Event.answer := by
    rw [sound.due_of_working member, queue, List.map_cons]
  have flag : player.processingEvents = true := sound.queued (by simp [queue])
  have ends := sound.ends
  have acks (entry : Event Sequence) (entryMember : entry ∈ rest) :=
    sound.acks entry (by rw [queue]; exact List.mem_cons_of_mem _ entryMember)
  have reads : player.unread ≠ [] →
      (.reading ∈ stack ∨ .readElement ∈ stack) ∨ player.reader.error = true := by
    have reads := sound.reads
    simpa [IsReading, working] using reads
  have idle : stack.count .processing = 0 := by
    rw [working, List.count_cons_self] at once
    omega
  rw [due] at ends
  cases performs with
  | answered replies effects leads =>
      refine ⟨⟨⟨sound.alive, sound.device, sound.connected, sound.active, sound.reads, ?_, acks,
        ?_⟩, fun _ => flag⟩, ?_⟩
      · simpa [Player.due, suspended, asleep, mode] using ends_of_cons ends
      · intro done _
        have last : rest = [] := by simpa [Player.due, suspended, asleep, mode] using done
        exact sound.acks event (by simp [queue]) (ends _ (by simp [last]))
      · rw [promised, promised, due]
        cases answer : event.answer <;>
          simp_all [answers, Player.due, suspended]
  | flushing leads =>
      refine ⟨⟨⟨sound.alive, sound.device, sound.connected, ?_, ?_, ?_, acks, ?_⟩,
        fun _ => flag⟩, ?_⟩
      · simpa [activities] using sound.active
      · simpa [IsReading] using sound.reads
      · simpa [Player.due, suspended, asleep, mode] using ends_of_cons ends
      · intro done _
        have last : rest = [] := by simpa [Player.due, suspended, asleep, mode] using done
        exact sound.acks event (by simp [queue]) (ends _ (by simp [last]))
      · rw [promised, promised, due, leads]
        simp [answers, Player.due, suspended, asleep, mode]
  | picking leads =>
      rw [leads] at due ends
      refine ⟨⟨⟨sound.alive, sound.device, sound.connected, ?_, ?_, ?_, acks, ?_⟩,
        fun _ => flag⟩, ?_⟩
      · simp [activities, working, idle, asleep, flag]
      · simpa [IsReading, working] using reads
      · simpa [Player.due, suspended, asleep] using ends
      · simp [Player.due, suspended]
      · rw [promised, promised, due]
        simp [answers, Player.due, suspended, asleep]
  | sleeping leads =>
      rw [leads] at due ends
      refine ⟨⟨⟨sound.alive, sound.device, sound.connected, ?_, ?_, ?_, acks, ?_⟩,
        fun _ => flag⟩, ?_⟩
      · simp [activities, working, idle, asleep, mode, flag]
      · simpa [IsReading, working] using reads
      · simpa [Player.due, suspended, asleep, mode] using ends
      · simp [Player.due, suspended, List.replicate_succ]
      · rw [promised, promised, due]
        simp [answers, Player.due, suspended, asleep, mode]

/-- The end of `processEvents` while the document is open. -/
theorem Sound.endProcessing (sound : player.Sound) {stack : List Frame}
    (working : player.stack = .processing :: stack) (queue : player.eventQueue = [])
    (still : player.reader.tokenType ≠ .endDocument) :
    player.endProcessing.Sound ∧ player.endProcessing.promised = player.promised ∧
      player.endProcessing.unread = player.unread := by
  obtain ⟨asleep, mode, once⟩ := sound.working (by simp [working])
  have reads := sound.reads
  rw [working, List.count_cons_self] at once
  rw [IsReading, working] at reads
  rw [Player.endProcessing, if_neg still]
  refine ⟨⟨⟨sound.alive, sound.device, sound.connected, ?_, ?_, sound.ends, sound.acks,
    sound.given⟩, ?_⟩, rfl, rfl⟩
  · simp only [activities, leave, working, List.tail_cons, asleep, mode, Bool.toNat_false]
    simpa using once
  · simpa [IsReading, leave, working] using reads
  · exact fun pending => absurd queue pending

end

/-! ## Reading elements -/

section

variable {Object : Type} [DecidableEq Object] (keys : KeySequences)
  (application : Application Object) {player : Player Object keys.Sequence}

/-- The targets of drags are there. -/
def ParsesSafely (tokens : List Token) : Prop :=
  ∀ attributes, .start "dragAndDrop" attributes ∈ tokens →
    (application.findWidget (attributes.value "target")).isSome = true

/-- The next step finds what it cannot do without, and a sleep gets its timer. -/
structure StepsSafely {Sequence : Type} (player : Player Object Sequence) : Prop where
  performs : ∀ event, player.stack.head? = some .processing →
    player.eventQueue.head? = some event → IsSafe application event
  parses : player.stack.head? = some .reading → ¬player.reader.atEnd player.available = true →
    player.readToken.reader.tokenType = .startElement →
      player.readToken.reader.name = QString.ofString "dragAndDrop" →
        (application.findWidget (player.readToken.reader.attributes.value "target")).isSome = true

/-- An element without a child is handled by itself. -/
theorem handleElement_of_fine (alive : player.failed = false)
    (fine : player.elementText.2.1.error = false) {events : List (Event keys.Sequence)}
    (found : decode keys application player.currentElement = some events) :
    player.handleElement keys application =
      { player with
        reader := player.elementText.2.1
        unread := player.elementText.2.2
        eventQueue := player.eventQueue ++ events } := by
  rw [handleElement_eq_foldl keys application alive, handledElements_of_fine fine]
  have behind : player.behindText.failed = false := alive
  exact enqueueElement_of_decode keys application behind found

/-- An element that is read is answered. -/
theorem Steady.handleElement (steady : player.Steady) (reading : player.IsReading)
    (safe : player.reader.name = QString.ofString "dragAndDrop" →
      (application.findWidget (player.reader.attributes.value "target")).isSome = true)
    (fine : (player.handleElement keys application).reader.error = false) :
    (player.handleElement keys application).Steady ∧
      (player.handleElement keys application).promised ++
          streamAnswers (player.handleElement keys application).unread =
        player.promised ++ (elementAnswer player.reader.name).toList ++
          streamAnswers player.unread := by
  obtain ⟨events, found⟩ := Option.isSome_iff_exists.mp (isSome_postElement keys application
    player.reader.name player.reader.attributes player.elementText.1 safe)
  have entries := postElement_answers keys application _ _ _ found
  rw [handleElement_reader keys application steady.alive] at fine
  rw [handleElement_of_fine keys application steady.alive fine found]
  have consumed : streamAnswers player.unread = streamAnswers player.elementText.2.2 := by
    rw [elementText] at fine ⊢
    split at fine
    next isText =>
        rw [if_pos isText]
        exact player.reader.readElementText_answers player.unread fine
    next noText => rw [if_neg noText]
  have due : ({ player with
      reader := player.elementText.2.1, unread := player.elementText.2.2,
      eventQueue := player.eventQueue ++ events } : Player Object keys.Sequence).due =
        player.due ++ events.map Event.answer := by
    simp [Player.due, suspended]
  refine ⟨⟨steady.alive, steady.device, steady.connected, steady.active,
    fun _ => .inl reading, ?_, ?_, ?_⟩, ?_⟩
  · rw [due]
    intro last isLast
    cases shape : events.map Event.answer with
    | nil =>
        rw [shape, List.append_nil] at isLast
        exact steady.ends last isLast
    | cons first others =>
        apply entries.ends
        rwa [List.getLast?_append_of_ne_nil _ (by simp [shape])] at isLast
  · intro event member
    exact (List.mem_append.mp member).elim (steady.acks event) (entries.acks event)
  · rw [due]
    intro done
    exact steady.given (List.append_eq_nil_iff.mp done).1
  · rw [promised, due, List.filterMap_append, entries.answers, promised, consumed]
    simp [Player.answers]

end

section

variable {Object Sequence : Type} {player : Player Object Sequence}

theorem readToken_eq (device : player.device = true) :
    player.readToken =
      { player with
        reader := (player.reader.readNext player.unread).1
        unread := (player.reader.readNext player.unread).2 } := by
  simp [readToken, available, device]

/-- The end of the loop's body while the document is open. -/
theorem endElement_eq {stack : List Frame} (still : player.reader.tokenType ≠ .endDocument) :
    player.endElement stack = { player with stack := .reading :: stack } :=
  if_neg still

theorem ack_reader (player : Player Object Sequence) : player.ack.reader = player.reader := by
  rw [ack, reply]
  split
  · split <;> rfl
  · rfl

theorem endElement_reader (player : Player Object Sequence) (stack : List Frame) :
    (player.endElement stack).reader = player.reader := by
  rw [endElement]
  split
  · rw [processEvents_reader, ack_reader]
  · rfl

/-- The loop of `readNext` goes on. -/
theorem Sound.reading (sound : player.Sound) {stack : List Frame}
    (counted : stack.count .processing = player.stack.count .processing)
    (reading : .reading ∈ stack ∨ .readElement ∈ stack) (reader : XmlReader)
    (unread : List Token) :
    { player with reader := reader, unread := unread, stack := stack }.Sound where
  alive := sound.alive
  device := sound.device
  connected := sound.connected
  active := by simpa [activities, counted] using sound.active
  reads _ := .inl reading
  ends := sound.ends
  acks := sound.acks
  given := sound.given
  queued := sound.queued

end

/-! ## Steps -/

section

variable {Object : Type} [DecidableEq Object] (keys : KeySequences)
  (application : Application Object) {player : Player Object keys.Sequence}

/-- Where all targets are there, the next step finds its own. -/
theorem stepsSafely_of (device : player.device = true)
    (parses : ParsesSafely application player.unread)
    (performs : ∀ event ∈ player.eventQueue, IsSafe application event) :
    player.StepsSafely application where
  performs event _ first := performs event (List.mem_of_mem_head? first)
  parses _ _ := by
    rw [readToken_eq device]
    intro starts drag
    have parsed := player.reader.mem_of_readNext_start player.unread starts
    exact parses _ (by rw [← drag]; exact parsed)

theorem step_of_inEventLoop (turn : player.InEventLoop) :
    player.step keys application = player := by
  rcases turn with none | flushing
  · rw [step, none]
  · obtain ⟨stack, shape⟩ := List.head?_eq_some_iff.mp flushing
    rw [step, shape]

theorem step_processing {stack : List Frame} (shape : player.stack = .processing :: stack) :
    player.step keys application =
      match player.eventQueue with
      | event :: rest => { player with eventQueue := rest }.perform application event
      | [] => player.endProcessing := by
  cases player
  cases shape
  rfl

theorem step_readElement {stack : List Frame} (shape : player.stack = .readElement :: stack) :
    player.step keys application = player.endElement stack := by
  rw [step, shape]

theorem step_reading {stack : List Frame} (shape : player.stack = .reading :: stack) :
    player.step keys application =
      if player.reader.atEnd player.available then
        { player with stack := stack }.processEvents
      else if player.readToken.reader.tokenType = .startElement then
        ({ player.readToken with stack := .readElement :: stack }.handleElement keys
          application).processEvents
      else
        player.readToken.endElement stack := by
  rw [step, shape]

/-- What a step is, by the innermost call and the tests that it makes. -/
inductive StepCase (player : Player Object keys.Sequence) : Prop where
  | idle (turn : player.InEventLoop) (step : player.step keys application = player)
  | performs (stack : List Frame) (event : Event keys.Sequence)
      (rest : List (Event keys.Sequence)) (shape : player.stack = .processing :: stack)
      (queue : player.eventQueue = event :: rest)
      (step : player.step keys application =
        { player with eventQueue := rest }.perform application event)
  | settles (stack : List Frame) (shape : player.stack = .processing :: stack)
      (queue : player.eventQueue = []) (step : player.step keys application = player.endProcessing)
  | closes (stack : List Frame) (shape : player.stack = .readElement :: stack)
      (step : player.step keys application = player.endElement stack)
  | stops (stack : List Frame) (shape : player.stack = .reading :: stack)
      (ending : player.reader.atEnd player.available = true)
      (step : player.step keys application = { player with stack := stack }.processEvents)
  | parses (stack : List Frame) (shape : player.stack = .reading :: stack)
      (more : ¬player.reader.atEnd player.available = true)
      (starts : player.readToken.reader.tokenType = .startElement)
      (step : player.step keys application =
        ({ player.readToken with stack := .readElement :: stack }.handleElement keys
          application).processEvents)
  | passes (stack : List Frame) (shape : player.stack = .reading :: stack)
      (more : ¬player.reader.atEnd player.available = true)
      (other : player.readToken.reader.tokenType ≠ .startElement)
      (step : player.step keys application = player.readToken.endElement stack)

theorem stepCase (player : Player Object keys.Sequence) : StepCase keys application player := by
  cases shape : player.stack with
  | nil => exact .idle (.inl shape) (step_of_inEventLoop keys application (.inl shape))
  | cons frame stack =>
      cases frame with
      | flushing =>
          have turn : player.InEventLoop := .inr (by rw [shape]; rfl)
          exact .idle turn (step_of_inEventLoop keys application turn)
      | readElement => exact .closes stack shape (step_readElement keys application shape)
      | processing =>
          have step := step_processing keys application shape
          cases queue : player.eventQueue with
          | nil => exact .settles stack shape queue (by rw [step, queue])
          | cons event rest => exact .performs stack event rest shape queue (by rw [step, queue])
      | reading =>
          have step := step_reading keys application shape
          by_cases ending : player.reader.atEnd player.available = true
          case pos => exact .stops stack shape ending (step.trans (if_pos ending))
          case neg =>
            rw [if_neg ending] at step
            by_cases starts : player.readToken.reader.tokenType = .startElement
            case pos => exact .parses stack shape ending starts (step.trans (if_pos starts))
            case neg => exact .passes stack shape ending starts (step.trans (if_neg starts))

/-- A step while the document is open keeps what is promised, together with the answers
to what is unread. -/
theorem Sound.step (sound : player.Sound) (still : player.reader.tokenType ≠ .endDocument)
    (safe : player.StepsSafely application)
    (stillNext : (player.step keys application).reader.tokenType ≠ .endDocument)
    (fineNext : (player.step keys application).reader.error = false) :
    (player.step keys application).Sound ∧
      (player.step keys application).promised ++
          streamAnswers (player.step keys application).unread =
        player.promised ++ streamAnswers player.unread := by
  have available : player.available = player.unread := if_pos sound.device
  have consumed := player.reader.readNext_answers player.unread
  cases player.stepCase keys application with
  | idle turn step =>
      rw [step]
      exact ⟨sound, rfl⟩
  | performs stack event rest shape queue step =>
      have performed := perform_performs application event
        { player with eventQueue := rest } sound.device
        (safe.performs event (by rw [shape]; rfl) (by rw [queue]; rfl))
      have unread := performed.unread
      obtain ⟨soundNext, promised⟩ := sound.performs shape queue performed
      rw [step]
      exact ⟨soundNext, by rw [promised, unread]⟩
  | settles stack shape queue step =>
      obtain ⟨soundNext, promised, unread⟩ := sound.endProcessing shape queue still
      rw [step]
      exact ⟨soundNext, by rw [promised, unread]⟩
  | closes stack shape step =>
      rw [step, endElement_eq still]
      exact ⟨sound.reading (by simp [shape]) (.inl (by simp)) _ _, rfl⟩
  | stops stack shape ending step =>
      have steady : { player with stack := stack }.Steady := by
        refine ⟨sound.alive, sound.device, sound.connected, ?_, ?_, sound.ends, sound.acks,
          sound.given⟩
        · simpa [activities, shape] using sound.active
        · intro pending
          right
          simpa [XmlReader.atEnd, pending, available] using ending
      rw [step]
      exact ⟨steady.processEvents, by simp; rfl⟩
  | parses stack shape more starts step =>
      have safeText := safe.parses (by rw [shape]; rfl) more
      rw [step, processEvents_reader] at fineNext
      rw [step]
      rw [readToken_eq sound.device] at starts fineNext safeText ⊢
      rw [if_pos starts] at consumed
      have reading := sound.reading (by simp [shape])
        (.inr (List.mem_cons_self (a := Frame.readElement) (l := stack)))
        (player.reader.readNext player.unread).1 (player.reader.readNext player.unread).2
      obtain ⟨steady, promised⟩ := reading.handleElement keys application
        (.inr (List.mem_cons_self ..)) (safeText starts) fineNext
      refine ⟨steady.processEvents, ?_⟩
      rw [processEvents_promised, processEvents_unread, promised, consumed, ← List.append_assoc]
      rfl
  | passes stack shape more other step =>
      rw [step, endElement_reader] at stillNext
      rw [step, endElement_eq stillNext]
      rw [readToken_eq sound.device] at other ⊢
      rw [if_neg other, List.nil_append] at consumed
      refine ⟨sound.reading (by simp [shape]) (.inl (by simp)) _ _, ?_⟩
      exact congrArg (player.promised ++ ·) consumed.symm

end

/-! ## The calls of the event loop -/

section

variable {Object Sequence : Type} {player : Player Object Sequence}

theorem Sound.readyRead (sound : player.Sound) (arrived : List Token) :
    (player.readyRead arrived).Sound := by
  have shape : player.readyRead arrived =
      { player with unread := player.unread ++ arrived, stack := .reading :: player.stack } := by
    simp [Player.readyRead, sound.connected]
  rw [shape]
  exact sound.reading (by simp) (.inl (by simp)) player.reader (player.unread ++ arrived)

theorem Sound.endFlush (sound : player.Sound) (flushing : player.stack.head? = some .flushing) :
    player.endFlush.Sound := by
  obtain ⟨stack, shape⟩ := List.head?_eq_some_iff.mp flushing
  have active := sound.active
  have reads := sound.reads
  refine ⟨⟨sound.alive, sound.device, sound.connected, ?_, ?_, sound.ends, sound.acks,
    sound.given⟩, sound.queued⟩
  · simpa [activities, Player.endFlush, leave, shape] using active
  · simpa [IsReading, Player.endFlush, leave, shape] using reads

/-- A sleep is over: the answer that it leads to is given. -/
theorem Sound.waitFinished_eq (sound : player.Sound) (sleeping : player.timers ≠ 0) :
    ∃ replies : List (Reply Object),
      replies.filterMap Reply.answer =
          (if player.ackNext then some Answer.ack else none).toList ∧
        player.waitFinished =
          { player with
            timers := 0, processingEvents := false,
            written := player.written ++ replies }.processEvents := by
  obtain ⟨once, -, -⟩ := sound.sleeping sleeping
  cases acks : player.ackNext with
  | true =>
      refine ⟨[.ack], rfl, ?_⟩
      simp [Player.waitFinished, ack, acks, reply, sound.device, once]
  | false =>
      refine ⟨[], rfl, ?_⟩
      simp [Player.waitFinished, ack, acks, once]

theorem Sound.waitFinished (sound : player.Sound) (sleeping : player.timers ≠ 0) :
    player.waitFinished.Sound ∧ player.waitFinished.promised = player.promised := by
  obtain ⟨once, mode, idle⟩ := sound.sleeping sleeping
  have due : player.due =
      (if player.ackNext then some .ack else none) :: player.eventQueue.map Event.answer := by
    simp [Player.due, suspended, once, mode]
  have ends := sound.ends
  rw [due] at ends
  obtain ⟨replies, leads, shape⟩ := sound.waitFinished_eq sleeping
  rw [shape]
  have steady : ({ player with
      timers := 0, processingEvents := false, written := player.written ++ replies } :
        Player Object Sequence).Steady := by
    refine ⟨sound.alive, sound.device, sound.connected, ?_, sound.reads, ?_, sound.acks, ?_⟩
    · simp [activities, idle, mode]
    · simpa [Player.due, suspended, mode] using ends_of_cons ends
    · intro done _
      have last : player.eventQueue = [] := by
        simpa [Player.due, suspended, mode] using done
      have answered := ends _ (by rw [last]; rfl)
      simpa using answered
  refine ⟨steady.processEvents, ?_⟩
  rw [processEvents_promised, promised, promised, due, answers, List.filterMap_append, leads]
  cases acks : player.ackNext <;> simp [answers, Player.due, suspended, mode]

end

end Player

end Hooq
