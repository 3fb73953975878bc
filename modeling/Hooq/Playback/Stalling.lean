import Hooq.Playback.Nesting
import Hooq.Playback.Targets
import Hooq.Playback.Underway

/-!
# Scripts that stall

Where the player does not find what it cannot do without, it fails, and where a sleep is
negative, nothing wakes it up.  The interpreter then waits for the request for good.
-/

namespace Hooq

namespace Player

section

variable {Object Sequence : Type}

/-- Calls nest, and a flush has entries of the queue behind it. -/
structure Calls (player : Player Object Sequence) : Prop where
  nested : Nested player.stack
  flushes : .flushing ∈ player.stack → player.eventQueue ≠ []

/-- Nothing goes on with the queue, while an open document is read. -/
structure Asleep (player : Player Object Sequence) (later : List Token) : Prop where
  device : player.device = true
  connected : player.connected = true
  flag : player.processingEvents = true
  idle : .processing ∉ player.stack
  timers : player.timers = 0
  flat : player.reader.Flat (player.unread ++ later)

/-- What a step leaves alone that does not write. -/
structure Silent (player next : Player Object Sequence) : Prop where
  written : next.written = player.written
  finished : next.finished = player.finished

variable {player : Player Object Sequence}

theorem Silent.failed {next : Player Object Sequence} (silent : Silent player next) :
    Silent player (next.fail).processEvents := by
  obtain ⟨processingEvents, stack, same⟩ := next.fail.processEvents_eq
  rw [same]
  exact ⟨silent.written, silent.finished⟩

/-- A flush is not inside of another call of the queue loop. -/
theorem Calls.flushing_not_mem (calls : player.Calls) (sound : player.Sound) {stack : List Frame}
    (shape : player.stack = .processing :: stack) : .flushing ∉ stack := by
  intro member
  have nested := calls.nested
  rw [shape] at nested
  have inside := List.count_pos_iff.mpr (nested.tail.processing_mem member)
  obtain ⟨-, -, once⟩ := sound.working (by rw [shape]; exact List.mem_cons_self)
  rw [shape, List.count_cons_self] at once
  exact absurd inside (by omega)

theorem Calls.readyRead (calls : player.Calls) (turn : player.InEventLoop)
    (arrived : List Token) : (player.readyRead arrived).Calls := by
  refine ⟨nested_readyRead calls.nested turn arrived, ?_⟩
  simp only [Player.readyRead]
  split
  · simpa using calls.flushes
  · exact calls.flushes

theorem Calls.endFlush (calls : player.Calls) (flushing : player.stack.head? = some .flushing) :
    player.endFlush.Calls :=
  ⟨nested_endFlush calls.nested flushing, fun member => calls.flushes (List.mem_of_mem_tail member)⟩

theorem Calls.waitFinished (calls : player.Calls) (sound : player.Sound)
    (turn : player.InEventLoop) (sleeping : player.timers ≠ 0) : player.waitFinished.Calls := by
  refine ⟨nested_waitFinished calls.nested turn, fun member => ?_⟩
  obtain ⟨-, -, idle⟩ := sound.sleeping sleeping
  have none : .flushing ∉ player.stack := fun flushing =>
    absurd (List.count_pos_iff.mpr (calls.nested.processing_mem flushing)) (by omega)
  obtain ⟨replies, -, shape⟩ := sound.waitFinished_eq sleeping
  rw [shape, processEvents] at member
  simp at member
  exact absurd member none

/-- A call that waits for the events of the queue is not made on the last entry. -/
theorem Calls.perform_flushes (calls : player.Calls) (sound : player.Sound) {stack : List Frame}
    (shape : player.stack = .processing :: stack) {event : Event Sequence}
    {rest : List (Event Sequence)} (queue : player.eventQueue = event :: rest)
    {next : Player Object Sequence}
    (performed : Performs event { player with eventQueue := rest } next)
    (member : .flushing ∈ next.stack) : next.eventQueue ≠ [] := by
  have noFlush := calls.flushing_not_mem sound shape
  have ends := sound.ends
  rw [sound.due_of_working (by rw [shape]; exact List.mem_cons_self), queue,
    List.map_cons] at ends
  cases performed with
  | answered =>
      rw [shape] at member
      exact absurd (List.mem_of_ne_of_mem (by decide) member) noFlush
  | flushing leads =>
      rintro rfl
      rw [leads] at ends
      cases ends none rfl
  | picking =>
      rw [shape] at member
      exact absurd member noFlush
  | sleeping =>
      rw [shape] at member
      exact absurd member noFlush

/-- The queue loop is not a call that waits for the events of the queue. -/
theorem flushing_mem_of_processEvents (member : .flushing ∈ player.processEvents.stack) :
    .flushing ∈ player.stack := by
  rw [processEvents] at member
  split at member
  · exact member
  · exact List.mem_of_ne_of_mem (by decide) member

end

section

variable {Object : Type} [DecidableEq Object] (keys : KeySequences)
  (application : Application Object) {player : Player Object keys.Sequence}

theorem Calls.step (calls : player.Calls) (sound : player.Sound)
    (still : player.reader.tokenType ≠ .endDocument) (safe : player.StepsSafely application)
    (stillNext : (player.step keys application).reader.tokenType ≠ .endDocument) :
    (player.step keys application).Calls := by
  refine ⟨nested_step keys application calls.nested, ?_⟩
  -- A step that does not work on the queue leaves its entries where they are.
  have grows (noEvent : player.nextEvent = none) (flushing : .flushing ∈ player.stack) :
      (player.step keys application).eventQueue ≠ [] := by
    have queue := step_eventQueue keys application player sound.alive
    rw [noEvent] at queue
    intro none
    rw [none] at queue
    exact calls.flushes flushing (List.append_eq_nil_iff.mp queue.symm).1
  cases player.stepCase keys application with
  | idle turn step =>
      rw [step]
      exact calls.flushes
  | performs stack event rest shape queue step =>
      rw [step]
      exact calls.perform_flushes sound shape queue
        (perform_performs application event _ sound.device
          (safe.performs event (by rw [shape]; rfl) (by rw [queue]; rfl)))
  | settles stack shape queue step =>
      intro member
      rw [step, endProcessing_stack, shape] at member
      exact absurd member (calls.flushing_not_mem sound shape)
  | closes stack shape step =>
      intro member
      apply grows (nextEvent_of_ne shape (by decide))
      rw [step, endElement_eq still] at member
      rw [shape]
      simpa using member
  | stops stack shape ending step =>
      intro member
      apply grows (nextEvent_of_ne shape (by decide))
      rw [step] at member
      rw [shape]
      exact List.mem_cons_of_mem _ (flushing_mem_of_processEvents member)
  | parses stack shape more starts step =>
      intro member
      apply grows (nextEvent_of_ne shape (by decide))
      rw [step] at member
      have entered := flushing_mem_of_processEvents member
      rw [shape]
      apply List.mem_cons_of_mem
      rcases handleElement_stack keys application
        { player.readToken with stack := .readElement :: stack } with same | none
      · rw [same] at entered
        exact List.mem_of_ne_of_mem (by decide) entered
      · rw [none] at entered
        cases entered
  | passes stack shape more other step =>
      intro member
      apply grows (nextEvent_of_ne shape (by decide))
      rw [step, endElement_reader] at stillNext
      rw [step, endElement_eq stillNext] at member
      rw [shape]
      exact List.mem_cons_of_mem _ (List.mem_of_ne_of_mem (by decide) member)

variable {keys application}

/-- Handling an element writes nothing. -/
theorem Silent.handleElement (application : Application Object)
    {next : Player Object keys.Sequence} (silent : Silent player next) :
    Silent player (next.handleElement keys application).processEvents := by
  obtain ⟨processingEvents, stack, same⟩ := (next.handleElement keys application).processEvents_eq
  rw [same]
  rcases next.handleElement_cases keys application with handled | ⟨eventQueue, handled | handled⟩
    <;> rw [handled] <;> exact ⟨silent.written, silent.finished⟩

/-- A player fails on an element without entries. -/
theorem handleElement_missing (alive : player.failed = false)
    (missing : decode keys application player.currentElement = none) :
    (player.handleElement keys application).failed = true := by
  by_contra running
  have found := (handleElement_failed keys application alive).mp
    (Bool.eq_false_of_not_eq_true running) _ List.mem_cons_self
  rw [missing] at found
  cases found

variable (application) in
/-- Nothing wakes up a player that is asleep. -/
theorem Asleep.step {later : List Token} (asleep : player.Asleep later) :
    Silent player (player.step keys application) ∧
      ((player.step keys application).failed = true ∨
        (player.step keys application).Asleep later) := by
  obtain ⟨device, connected, flag, idle, timers, flat⟩ := asleep
  cases player.stepCase keys application with
  | idle turn step =>
      rw [step]
      exact ⟨⟨rfl, rfl⟩, .inr ⟨device, connected, flag, idle, timers, flat⟩⟩
  | performs stack event rest shape queue step =>
      exact absurd (shape ▸ List.mem_cons_self) idle
  | settles stack shape queue step => exact absurd (shape ▸ List.mem_cons_self) idle
  | closes stack shape step =>
      rw [shape, List.mem_cons, not_or] at idle
      rw [step, endElement_eq flat.still]
      exact ⟨⟨rfl, rfl⟩, .inr ⟨device, connected, flag, by simpa using idle.2, timers, flat⟩⟩
  | stops stack shape ending step =>
      rw [shape, List.mem_cons, not_or] at idle
      rw [step, processEvents, if_pos flag]
      exact ⟨⟨rfl, rfl⟩, .inr ⟨device, connected, flag, idle.2, timers, flat⟩⟩
  | parses stack shape more starts step =>
      rw [shape, List.mem_cons, not_or] at idle
      have read := flat.readNext
      rw [readToken_eq device] at starts step
      rw [step]
      refine ⟨Silent.handleElement application ⟨rfl, rfl⟩, ?_⟩
      have entered : Frame.processing ∉ .readElement :: stack := by simpa using idle.2
      rcases handleElement_cases keys application { player with
        reader := (player.reader.readNext player.unread).1
        unread := (player.reader.readNext player.unread).2
        stack := .readElement :: stack } with same | ⟨eventQueue, same | same⟩
      · rw [same, processEvents, if_pos flag]
        exact .inr ⟨device, connected, flag, entered, timers, read.1⟩
      · rw [same, processEvents, if_pos (by exact flag)]
        exact .inr ⟨device, connected, flag, entered, timers, elementText_flat read.1 read.2⟩
      · left
        rw [same, processEvents_failed]
        rfl
  | passes stack shape more other step =>
      rw [shape, List.mem_cons, not_or] at idle
      have read := flat.readNext
      rw [readToken_eq device] at step
      rw [step, endElement_eq read.1.still]
      exact ⟨⟨rfl, rfl⟩, .inr ⟨device, connected, flag, by simpa using idle.2, timers, read.1⟩⟩

/-- A step that misses what it needs answers nothing, and is the last one that could have:
the player fails, or nothing wakes it up. -/
theorem Sound.stalls (sound : player.Sound) {later : List Token}
    (flat : player.reader.Flat (player.unread ++ later))
    (misses : ¬player.StepsSafely application) :
    player.due.filterMap id ++ streamAnswers player.unread ≠ [] ∧
      Silent player (player.step keys application) ∧
      ((player.step keys application).failed = true ∨
        (player.step keys application).Asleep later) := by
  by_cases performs : ∀ event, player.stack.head? = some .processing →
    player.eventQueue.head? = some event → IsSafe application event
  case neg =>
    push Not at performs
    obtain ⟨event, working, first, missing⟩ := performs
    obtain ⟨stack, shape⟩ := List.head?_eq_some_iff.mp working
    obtain ⟨rest, queue⟩ := List.head?_eq_some_iff.mp first
    have owed : player.due.filterMap id ≠ [] := by
      intro none
      have settled := (settled_of_due (sound.due_eq_nil none)).1
      rw [queue] at settled
      cases settled
    refine ⟨List.append_ne_nil_of_left_ne_nil owed _, ?_⟩
    rw [step_processing keys application shape, queue]
    dsimp only
    rw [IsSafe] at missing
    rw [perform]
    cases task : event.task with
    | dump objectPath =>
        simp only [task, Option.not_isSome_iff_eq_none] at missing
        dsimp only
        rw [missing]
        exact ⟨⟨rfl, rfl⟩, .inl rfl⟩
    | close objectPath =>
        simp only [task, Option.not_isSome_iff_eq_none] at missing
        dsimp only
        rw [missing]
        exact ⟨⟨rfl, rfl⟩, .inl rfl⟩
    | sleep msec =>
        simp only [task, not_not] at missing
        obtain ⟨timers, -, once⟩ := sound.working (by rw [shape]; exact List.mem_cons_self)
        rw [shape, List.count_cons_self, Nat.succ.injEq] at once
        dsimp only
        rw [Player.sleep, if_pos missing, leave]
        refine ⟨⟨rfl, rfl⟩, .inr ⟨sound.device, sound.connected, ?_, ?_, timers, flat⟩⟩
        · exact sound.queued (by rw [queue]; exact List.cons_ne_nil _ _)
        · rw [shape]
          exact List.count_eq_zero.mp once
    | _ => simp [task] at missing
  case pos =>
    have parses := mt (StepsSafely.mk performs) misses
    push Not at parses
    obtain ⟨reading, more, starts, drag, missing⟩ := parses
    obtain ⟨stack, shape⟩ := List.head?_eq_some_iff.mp reading
    have available : player.available = player.unread := if_pos sound.device
    rw [available] at more
    rw [step_reading keys application shape, available, if_neg more, if_pos starts]
    rw [readToken_eq sound.device] at starts drag missing ⊢
    have parsed := player.reader.mem_of_readNext_start player.unread starts
    have known : elementAnswer (player.reader.readNext player.unread).1.name ≠ none := by
      rw [drag, elementAnswer_known "dragAndDrop" (by decide)]
      exact Option.some_ne_none _
    refine ⟨List.append_ne_nil_of_right_ne_nil _ (streamAnswers_ne_nil parsed known), ?_⟩
    refine ⟨Silent.handleElement application ⟨rfl, rfl⟩, .inl ?_⟩
    rw [processEvents_failed]
    apply handleElement_missing (by exact sound.alive)
    rw [← Option.not_isSome_iff_eq_none, decode_isSome_iff]
    exact fun finds => missing (finds drag)

end

end Player

namespace Session

section

variable {Object Sequence : Type}

/-- A request that is waited for in vain. -/
structure Stalled (session : Session Object Sequence) : Prop where
  waits : session.waiting ≠ none
  running : .endDocument ∉ session.sent
  quiet : session.returning = []
  resting : session.marshall = .resting
  stuck : session.player.failed = true ∨ session.player.Asleep session.toPlayer

/-- A reply on its way that answers nothing. -/
theorem silent_of_returning {session : Session Object Sequence} (quiet : session.returning = [])
    {reply : Reply Object} (arrives : session.player.written[session.handled]? = some reply) :
    reply.answer = none ∧
      ({ session with handled := session.handled + 1 } : Session Object Sequence).returning = [] := by
  obtain ⟨inBounds, found⟩ := List.getElem?_eq_some_iff.mp arrives
  rw [returning, List.drop_eq_getElem_cons inBounds, found, List.filterMap_cons] at quiet
  cases answer : reply.answer with
  | none =>
      rw [answer] at quiet
      exact ⟨rfl, quiet⟩
  | some given =>
      rw [answer] at quiet
      cases quiet

end

section

variable {keys : KeySequences} {Object : Type} [DecidableEq Object] {ackNext : Bool}
  {session : Session Object keys.Sequence}

/-- A session that has stalled goes on in vain. -/
theorem Stalled.next (stalled : session.Stalled) {action : Action Object}
    (enabled : session.Enabled action) : (session.next keys action).Stalled := by
  obtain ⟨waits, running, quiet, resting, stuck⟩ := stalled
  have asleep (alive : session.IsAlive) : session.player.Asleep session.toPlayer := by
    refine stuck.resolve_left fun failed => ?_
    rw [alive.1] at failed
    cases failed
  cases action with
  | send => exact absurd enabled.1 waits
  | deliver count =>
      obtain ⟨device, connected, flag, idle, timers, flat⟩ := asleep enabled.1
      rw [Session.next, deliver_eq connected resting]
      refine ⟨waits, running, quiet, resting, .inr ⟨device, connected, flag, ?_, timers, ?_⟩⟩
      · simpa using idle
      · rw [List.append_assoc, List.take_append_drop]
        exact flat
  | run application =>
      obtain ⟨silent, stuck⟩ := (asleep enabled.1).step application
      have same : session.run keys application =
          { session with player := session.player.step keys application } := by
        rw [Session.run, silent.finished, if_neg (Nat.lt_irrefl _)]
      rw [Session.next, same]
      refine ⟨waits, running, ?_, resting, stuck⟩
      rw [returning, silent.written]
      exact quiet
  | endFlush =>
      obtain ⟨device, connected, flag, idle, timers, flat⟩ := asleep enabled.1
      exact ⟨waits, running, quiet, resting,
        .inr ⟨device, connected, flag, fun member => idle (List.mem_of_mem_tail member), timers,
          flat⟩⟩
  | waitFinished => exact absurd (asleep enabled.1).timers enabled.2.2
  | receive =>
      rw [Session.next]
      split
      next reply arrives =>
          obtain ⟨silent, later⟩ := silent_of_returning quiet arrives
          cases reply with
          | notFound objectPath => exact ⟨waits, running, later, resting, stuck⟩
          | _ => cases silent
      next => exact ⟨waits, running, quiet, resting, stuck⟩

/-- A script stalls where the player misses what it needs. -/
theorem Underway.stalls (underway : Underway ackNext session) (running : .endDocument ∉ session.sent)
    {application : Application Object} (misses : ¬session.player.StepsSafely application) :
    (session.run keys application).Stalled := by
  obtain ⟨owed, silent, stuck⟩ := underway.sound.stalls underway.flat misses
  have same : session.run keys application =
      { session with player := session.player.step keys application } := by
    rw [Session.run, silent.finished, if_neg (Nat.lt_irrefl _)]
  have owes := underway.owes
  rw [stream, streamAnswers_append, ← List.append_assoc] at owes
  obtain ⟨order, waiting, quiet⟩ := owes.of_owed (List.append_ne_nil_of_left_ne_nil owed _)
  rw [same]
  refine ⟨?_, running, ?_, underway.resting, stuck⟩
  · rw [waiting]
    exact Option.some_ne_none order
  · rw [returning, silent.written]
    exact quiet

end

end Session

end Hooq
