import Hooq.Playback.Advances

/-!
# A player that is not reading has read

Each piece of data that arrives makes the player read.  Where no call of it reads, it
has come to all elements in what has arrived, in whatever order its calls began.
-/

namespace Hooq

namespace Player

section

variable {Object Sequence : Type}

/-- Without a call that reads, nothing is ahead in what has arrived.  A player that is no
longer told about data has nothing ahead at all. -/
structure CaughtUp (player : Player Object Sequence) : Prop where
  idle : player.failed = false → ¬player.IsReading → player.ahead [] = []
  deaf : player.connected = false → ∀ later, player.ahead later = []

variable {player : Player Object Sequence}

theorem caughtUp_new (ackNext : Bool) : (new ackNext : Player Object Sequence).CaughtUp where
  idle _ resting := absurd (.inl List.mem_cons_self) resting
  deaf gone := by cases gone

theorem processEvents_isReading : player.processEvents.IsReading ↔ player.IsReading := by
  rw [processEvents]
  split
  · exact Iff.rfl
  · simp [IsReading]

theorem processEvents_connected : player.processEvents.connected = player.connected := by
  obtain ⟨_, _, same⟩ := player.processEvents_eq
  rw [same]

theorem ahead_of_rootClosed (closed : player.reader.rootClosed = true) (later : List Token) :
    player.ahead later = [] := by
  rw [ahead]
  split
  · exact XmlReader.ahead_of_stopped (by rw [closed, Bool.or_true]) _
  · rfl

/-- Behind all data that has arrived nothing is ahead. -/
theorem ahead_of_atEnd (atEnd : player.reader.atEnd player.available = true) :
    player.ahead [] = [] := by
  by_cases device : player.device = true
  · rw [available, if_pos device, XmlReader.atEnd, Bool.or_eq_true, Bool.and_eq_true,
      List.isEmpty_iff] at atEnd
    rw [ahead_of_device device, List.append_nil]
    rcases atEnd with failed | ⟨-, empty⟩
    · exact XmlReader.ahead_of_stopped (by rw [failed]; rfl) _
    · rw [empty, XmlReader.ahead_nil]
  · exact ahead_of_detached (Bool.eq_false_of_not_eq_true device) _

/-- What leaves the reader, its data and the connection alone keeps a player up. -/
theorem CaughtUp.of_still (caughtUp : player.CaughtUp) {next : Player Object Sequence}
    (ahead : ∀ later, next.ahead later = player.ahead later)
    (connected : next.connected = player.connected)
    (reads : next.failed = false → player.IsReading → next.IsReading)
    (alive : next.failed = false → player.failed = false) : next.CaughtUp where
  idle running resting := by
    rw [ahead]
    exact caughtUp.idle (alive running) fun reading => resting (reads running reading)
  deaf gone later := by
    rw [ahead]
    exact caughtUp.deaf (connected ▸ gone) later

/-- The end of the loop's body goes on reading, or is behind the end of the document. -/
theorem caughtUp_endElement (grounded : player.reader.Grounded) {stack : List Frame}
    (deaf : player.connected = false → ∀ later, player.ahead later = []) :
    (player.endElement stack).CaughtUp := by
  have ahead (later : List Token) : (player.endElement stack).ahead later = player.ahead later :=
    ahead_congr (endElement_device stack) (player.endElement_reader stack)
      (player.endElement_unread stack) later
  by_cases ended : player.reader.tokenType = .endDocument
  · have nothing (later : List Token) : (player.endElement stack).ahead later = [] :=
      (ahead later).trans (ahead_of_rootClosed (grounded.ended ended) later)
    exact ⟨fun _ _ => nothing [], fun _ => nothing⟩
  · rw [endElement_eq ended] at ahead ⊢
    exact ⟨fun _ resting => absurd (.inl List.mem_cons_self) resting,
      fun gone later => (ahead later).trans (deaf gone later)⟩

/-- A step comes to an element that was ahead. -/
theorem Comes.ahead_ne_nil {later : List Token} {next : Player Object Sequence}
    {parsed : List Element} (comes : Comes player later next parsed) :
    player.ahead later ≠ [] := by
  cases comes with
  | plain name attributes noText here =>
      rw [here]
      exact List.cons_ne_nil _ _
  | text name attributes reads here =>
      rw [here]
      exact List.cons_ne_nil _ _

theorem CaughtUp.readyRead (caughtUp : player.CaughtUp) (arrived : List Token) :
    (player.readyRead arrived).CaughtUp := by
  have ahead (later : List Token) :
      ({ player with unread := player.unread ++ arrived } : Player Object Sequence).ahead
        later = player.ahead (arrived ++ later) := by
    rw [Player.ahead, Player.ahead, List.append_assoc]
  rw [Player.readyRead]
  dsimp only
  split
  next => exact ⟨fun _ resting => absurd (.inl List.mem_cons_self) resting,
    fun gone later => (ahead later).trans (caughtUp.deaf gone _)⟩
  next gone =>
    have nothing (later : List Token) := (ahead later).trans
      (caughtUp.deaf (Bool.eq_false_of_not_eq_true gone) _)
    exact ⟨fun _ _ => nothing [], fun _ => nothing⟩

end

section

variable {Object : Type} [DecidableEq Object] {keys : KeySequences}
  {player : Player Object keys.Sequence}

theorem Outcome.connected {application : Application Object} {event : Event keys.Sequence}
    {next : Player Object keys.Sequence} (outcome : Outcome application event player next) :
    next.connected = player.connected := by
  cases outcome <;> rfl

/-- Executing an event leaves the calls outside of the queue loop where they are. -/
theorem Outcome.isReading {application : Application Object} {event : Event keys.Sequence}
    {next : Player Object keys.Sequence} (outcome : Outcome application event player next)
    {stack : List Frame} (shape : player.stack = .processing :: stack)
    (running : next.failed = false) (reading : player.IsReading) : next.IsReading := by
  have outer : .reading ∈ stack ∨ .readElement ∈ stack := by
    simpa [IsReading, shape] using reading
  cases outcome with
  | answered => exact reading
  | failing => cases running
  | flushing => exact reading.imp (List.mem_cons_of_mem _) (List.mem_cons_of_mem _)
  | picking =>
      rw [IsReading, shape]
      exact outer
  | sleeping =>
      rw [IsReading, shape]
      exact outer

theorem Outcome.alive {application : Application Object} {event : Event keys.Sequence}
    {next : Player Object keys.Sequence} (outcome : Outcome application event player next)
    (running : next.failed = false) : player.failed = false := by
  cases outcome with
  | failing => cases running
  | _ => exact running

theorem handleElement_connected (application : Application Object) :
    (player.handleElement keys application).connected = player.connected := by
  rcases player.handleElement_cases keys application with same | ⟨eventQueue, same | same⟩ <;>
    rw [same] <;> rfl

theorem stack_handleElement {application : Application Object}
    (running : (player.handleElement keys application).failed = false) :
    (player.handleElement keys application).stack = player.stack := by
  rcases player.handleElement_cases keys application with same | ⟨eventQueue, same | same⟩
  · rw [same]
  · rw [same]
    rfl
  · rw [same] at running
    cases running

theorem CaughtUp.step (caughtUp : player.CaughtUp) (alive : player.failed = false)
    (grounded : player.reader.Grounded) (application : Application Object) :
    (player.step keys application).CaughtUp := by
  have advances : Advances player (player.step keys application) :=
    player.step_advances application alive grounded
  cases player.stepCase keys application with
  | idle turn step =>
      rw [step]
      exact caughtUp
  | performs stack event rest shape queue step =>
      have outcome := perform_outcome application event { player with eventQueue := rest }
      have ahead (later : List Token) :=
        advances.passes later (nextElements_of_ne shape (by decide))
      rw [step] at ahead ⊢
      exact caughtUp.of_still ahead outcome.connected (outcome.isReading shape) outcome.alive
  | settles stack shape queue step =>
      rw [step, endProcessing]
      split
      next => exact ⟨fun _ _ => ahead_of_detached rfl _, fun _ => ahead_of_detached rfl⟩
      next =>
        refine caughtUp.of_still (ahead_congr rfl rfl rfl) rfl (fun _ reading => ?_) id
        simpa [IsReading, leave, shape] using reading
  | closes stack shape step =>
      rw [step]
      exact caughtUp_endElement grounded caughtUp.deaf
  | stops stack shape ending step =>
      have nothing := player.ahead_of_atEnd ending
      have ahead (later : List Token) :
          (player.step keys application).ahead later = player.ahead later :=
        advances.passes later (nextElements_of_atEnd ending)
      refine ⟨fun _ _ => (ahead []).trans nothing, fun gone later => (ahead later).trans ?_⟩
      rw [step, processEvents_connected] at gone
      exact caughtUp.deaf gone later
  | parses stack shape more starts step =>
      have element := nextElements_of_starts shape more starts
      constructor
      · intro running resting
        rw [step, processEvents_failed] at running
        rw [step, processEvents_isReading, IsReading, stack_handleElement running] at resting
        exact absurd (.inr List.mem_cons_self) resting
      · intro gone later
        have listening : player.connected = false := by
          rw [step, processEvents_connected, handleElement_connected] at gone
          exact gone
        have parses : player.nextElements ≠ [] := by
          rw [element]
          exact List.cons_ne_nil _ _
        exact absurd (caughtUp.deaf listening later) (advances.comes later parses).ahead_ne_nil
  | passes stack shape more other step =>
      rw [step]
      apply caughtUp_endElement (grounded.readNext player.available)
      intro gone later
      rw [ahead_readToken grounded other]
      exact caughtUp.deaf gone later

theorem CaughtUp.meet (caughtUp : player.CaughtUp) (grounded : player.reader.Grounded)
    {occurrence : Occurrence Object} (allowed : player.Allows occurrence) :
    (player.meet keys occurrence).CaughtUp := by
  cases occurrence with
  | run application => exact caughtUp.step allowed.1 grounded application
  | readyRead arrived => exact caughtUp.readyRead arrived
  | endFlush =>
      refine caughtUp.of_still (ahead_congr rfl rfl rfl) rfl (fun _ reading => ?_) id
      obtain ⟨stack, shape⟩ := List.head?_eq_some_iff.mp allowed.2
      simpa [IsReading, Player.meet, endFlush, leave, shape] using reading
  | waitFinished =>
      have acked := ({ player with timers := player.timers - 1 } :
        Player Object keys.Sequence).ack_eq
      rw [Player.meet, Player.waitFinished]
      rcases acked with ⟨written, same⟩ | ⟨-, same⟩
      · rw [same]
        refine caughtUp.of_still (ahead_congr processEvents_device (processEvents_reader _)
          (processEvents_unread _)) processEvents_connected (fun _ reading => ?_) ?_
        · exact processEvents_isReading.mpr reading
        · rw [processEvents_failed]
          exact id
      · rw [same]
        refine caughtUp.of_still (ahead_congr processEvents_device (processEvents_reader _)
          (processEvents_unread _)) processEvents_connected (fun running => ?_)
          (fun running => ?_)
        · rw [processEvents_failed] at running
          cases running
        · rw [processEvents_failed] at running
          cases running
  | endPick object =>
      rw [Player.meet, Player.endPick, Player.reply]
      split
      · refine caughtUp.of_still (ahead_congr processEvents_device (processEvents_reader _)
          (processEvents_unread _)) processEvents_connected (fun _ reading => ?_) ?_
        · exact processEvents_isReading.mpr reading
        · rw [processEvents_failed]
          exact id
      · refine caughtUp.of_still (ahead_congr processEvents_device (processEvents_reader _)
          (processEvents_unread _)) processEvents_connected (fun running => ?_)
          (fun running => ?_)
        · rw [processEvents_failed] at running
          cases running
        · rw [processEvents_failed] at running
          cases running

end

end Player

end Hooq
