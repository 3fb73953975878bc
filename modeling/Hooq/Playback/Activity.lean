import Hooq.Playback.Interleaving

/-!
# One activity at a time

The flag `processingEvents` stands for at most one of three things: the queue loop is
active, a sleep timer runs, or the user picks an object.  It stands for one of them as
long as no negative sleep is executed.
-/

namespace Hooq

namespace Player

section

variable {Object Sequence : Type} (player : Player Object Sequence)

/-- At most one of the queue loop, a timer and the user is what the flag stands for. -/
structure Guarded : Prop where
  bounded : player.activities ≤ player.processingEvents.toNat
  queued : player.eventQueue ≠ [] → player.processingEvents = true
  detached : player.device = false →
    player.eventQueue = [] ∧ player.timers = 0 ∧ player.mode = .playback ∧
      player.reader.rootClosed = false ∧ player.reader.tokenType ≠ .endDocument

/-- The flag stands for something. -/
def Awake : Prop :=
  player.failed = false → player.processingEvents = true → player.activities ≠ 0

variable {player}

theorem guarded_new (ackNext : Bool) : (new ackNext : Player Object Sequence).Guarded where
  bounded := Nat.le_refl _
  queued pending := absurd rfl pending
  detached gone := nomatch gone

theorem awake_new (ackNext : Bool) : (new ackNext : Player Object Sequence).Awake :=
  fun _ working => nomatch working

/-- While the queue is worked on, neither a timer nor the user is waited for. -/
theorem Guarded.working (guarded : player.Guarded) (working : .processing ∈ player.stack) :
    player.processingEvents = true ∧ player.timers = 0 ∧ player.mode = .playback ∧
      player.stack.count .processing = 1 := by
  have bounded := guarded.bounded
  have counted := List.count_pos_iff.mpr working
  rw [activities] at bounded
  cases flag : player.processingEvents with
  | false =>
      rw [flag, Bool.toNat_false] at bounded
      omega
  | true =>
      rw [flag, Bool.toNat_true] at bounded
      cases mode : player.mode with
      | playback => exact ⟨rfl, by omega, rfl, by omega⟩
      | pick =>
          simp only [mode, if_true] at bounded
          omega

/-- A call of `processEvents` sees to the queue. -/
theorem processEvents_guarded (bounded : player.activities ≤ player.processingEvents.toNat)
    (detached : player.device = false →
      player.eventQueue = [] ∧ player.timers = 0 ∧ player.mode = .playback ∧
        player.reader.rootClosed = false ∧ player.reader.tokenType ≠ .endDocument) :
    player.processEvents.Guarded := by
  rw [processEvents]
  split
  next working => exact ⟨bounded, fun _ => working, detached⟩
  next idle =>
      rw [Bool.eq_false_of_not_eq_true idle, Bool.toNat_false, Nat.le_zero, activities] at bounded
      refine ⟨?_, fun _ => rfl, detached⟩
      simp only [activities, List.count_cons_self, Bool.toNat_true]
      omega

theorem processEvents_awake (awake : player.Awake) : player.processEvents.Awake := by
  rw [processEvents]
  split
  · exact awake
  · intro _ _
    simp [activities]

/-- A change of the calls that are not the queue loop's, and of the reader. -/
theorem Guarded.reading (guarded : player.Guarded) {stack : List Frame}
    (counted : stack.count .processing = player.stack.count .processing) (reader : XmlReader)
    (unread : List Token)
    (detached : player.device = false →
      reader.rootClosed = false ∧ reader.tokenType ≠ .endDocument) :
    { player with reader := reader, unread := unread, stack := stack }.Guarded where
  bounded := by simpa [activities, counted] using guarded.bounded
  queued := guarded.queued
  detached gone := by
    obtain ⟨queue, timers, mode, -, -⟩ := guarded.detached gone
    exact ⟨queue, timers, mode, detached gone⟩

theorem Awake.reading (awake : player.Awake) {stack : List Frame}
    (counted : stack.count .processing = player.stack.count .processing) (reader : XmlReader)
    (unread : List Token) :
    { player with reader := reader, unread := unread, stack := stack }.Awake := by
  intro alive working
  simpa [activities, counted] using awake alive working

/-- Without a device there is nothing to read but the end of the data. -/
theorem Guarded.readToken_detached (guarded : player.Guarded) (gone : player.device = false) :
    player.readToken.reader.rootClosed = false ∧
      player.readToken.reader.tokenType = .invalid := by
  obtain ⟨-, -, -, openRoot, -⟩ := guarded.detached gone
  simp only [readToken, available, gone, Bool.false_eq_true, if_false, XmlReader.readNext,
    openRoot]
  split <;> simp [XmlReader.raiseError, openRoot]

/-- An acknowledgement keeps the activities, or fails. -/
theorem Guarded.ack (guarded : player.Guarded) : player.ack.Guarded := by
  rcases player.ack_eq with ⟨_, same⟩ | ⟨gone, same⟩
  · rw [same]
    exact ⟨guarded.bounded, guarded.queued, guarded.detached⟩
  · rw [same]
    obtain ⟨queue, timers, mode, -⟩ := guarded.detached gone
    refine ⟨?_, guarded.queued, guarded.detached⟩
    simp [activities, fail, timers, mode]

theorem Awake.ack (awake : player.Awake) : player.ack.Awake := by
  rcases player.ack_eq with ⟨_, same⟩ | ⟨-, same⟩
  · rw [same]
    exact awake
  · rw [same]
    exact fun alive => nomatch alive

/-- The end of the loop's body in `readNext`. -/
theorem Guarded.endElement (guarded : player.Guarded) {stack : List Frame}
    (counted : stack.count .processing = player.stack.count .processing) :
    (player.endElement stack).Guarded := by
  have still := fun gone => (guarded.detached gone).2.2.2
  rw [Player.endElement]
  split
  next ended =>
      have entered : { player with connected := false, stack := stack }.Guarded := by
        obtain ⟨bounded, queued, detached⟩ :=
          guarded.reading counted player.reader player.unread still
        exact ⟨bounded, queued, detached⟩
      exact processEvents_guarded entered.ack.bounded entered.ack.detached
  next goesOn => exact guarded.reading (by simpa using counted) player.reader player.unread still

theorem Awake.endElement (awake : player.Awake) {stack : List Frame}
    (counted : stack.count .processing = player.stack.count .processing) :
    (player.endElement stack).Awake := by
  rw [Player.endElement]
  split
  next ended =>
      have entered : { player with connected := false, stack := stack }.Awake :=
        awake.reading counted player.reader player.unread
      exact processEvents_awake entered.ack
  next goesOn => exact awake.reading (by simpa using counted) player.reader player.unread

/-- The end of `processEvents`. -/
theorem Guarded.endProcessing (guarded : player.Guarded) {stack : List Frame}
    (working : player.stack = .processing :: stack) (queue : player.eventQueue = []) :
    player.endProcessing.Guarded ∧ player.endProcessing.Awake := by
  obtain ⟨-, timers, mode, once⟩ := guarded.working (by simp [working])
  rw [working, List.count_cons_self, Nat.succ.injEq] at once
  have idle : stack.count .processing + player.timers +
      (if player.mode = .pick then 1 else 0) = 0 := by
    simp [once, timers, mode]
  rw [Player.endProcessing]
  split
  next ended =>
      refine ⟨⟨?_, fun pending => absurd queue pending, fun _ => ?_⟩,
        fun _ idle => by cases idle⟩
      · simp only [activities, leave, working, List.tail_cons]
        exact Nat.le_of_eq idle
      · exact ⟨queue, timers, mode, rfl, fun ended => by cases ended⟩
  next goesOn =>
      refine ⟨⟨?_, fun pending => absurd queue pending, guarded.detached⟩,
        fun _ idle => by cases idle⟩
      simp only [activities, leave, working, List.tail_cons]
      exact Nat.le_of_eq idle

end

section

variable {Object Sequence : Type} [DecidableEq Object] {application : Application Object}
  {event : Event Sequence} {player next : Player Object Sequence} {stack : List Frame}
  {rest : List (Event Sequence)}

/-- Executing an event passes the activity on, or keeps it. -/
theorem Guarded.outcome (guarded : player.Guarded) (working : player.stack = .processing :: stack)
    (queue : player.eventQueue = event :: rest)
    (outcome : Outcome application event { player with eventQueue := rest } next) :
    next.Guarded := by
  obtain ⟨flag, timers, mode, once⟩ := guarded.working (by simp [working])
  have idle : stack.count .processing = 0 := by
    rw [working, List.count_cons_self, Nat.succ.injEq] at once
    exact once
  have connected : player.device = true := by
    by_contra gone
    have empty := (guarded.detached (Bool.eq_false_of_not_eq_true gone)).1
    rw [queue] at empty
    cases empty
  have attached {conclusion : Prop} (gone : player.device = false) : conclusion := by
    rw [connected] at gone
    cases gone
  cases outcome with
  | answered => exact ⟨guarded.bounded, fun _ => flag, attached⟩
  | failing =>
      refine ⟨?_, fun _ => flag, attached⟩
      simp [activities, fail, timers, mode]
  | flushing =>
      refine ⟨?_, fun _ => flag, attached⟩
      simpa [activities] using guarded.bounded
  | picking =>
      refine ⟨?_, fun _ => flag, attached⟩
      simp [activities, working, idle, timers, flag]
  | sleeping msec =>
      refine ⟨?_, fun _ => flag, attached⟩
      simp only [activities, working, List.tail_cons, idle, timers, mode, flag]
      split <;> decide

/-- Only a sleep that is negative leaves nothing to wait for. -/
theorem Guarded.awake_perform_iff (guarded : player.Guarded)
    (working : player.stack = .processing :: stack) (alive : player.failed = false) :
    ({ player with eventQueue := rest }.perform application event).Awake ↔
      ∀ msec, event.task = .sleep msec → ¬msec < 0 := by
  obtain ⟨flag, timers, mode, once⟩ := guarded.working (by simp [working])
  rw [working, List.count_cons_self, Nat.succ.injEq] at once
  constructor
  · intro awake msec task negative
    have stalled : { player with eventQueue := rest }.perform application event =
        { player with
          eventQueue := rest, ackNext := event.ack, stack := player.stack.tail } := by
      simp [perform, task, sleep, negative, leave]
    rw [stalled] at awake
    refine awake alive flag ?_
    simp [activities, working, once, timers, mode]
  · intro timed
    have outcome := perform_outcome application event { player with eventQueue := rest }
    revert outcome
    generalize { player with eventQueue := rest }.perform application event = next
    intro outcome _ _
    cases outcome with
    | answered => simp [activities, working]
    | failing => contradiction
    | flushing => simp [activities, working]
    | picking => simp [activities]
    | sleeping msec task =>
        rw [if_neg (timed msec task)]
        simp [activities]

end

section

variable {Object : Type} [DecidableEq Object] (keys : KeySequences)
  (application : Application Object) {player : Player Object keys.Sequence}

/-- No negative sleep is executed next. -/
def SleepsInTime {Sequence : Type} (player : Player Object Sequence) : Prop :=
  ∀ event ∈ player.nextEvent, ∀ msec, event.task = .sleep msec → ¬msec < 0

theorem Guarded.handleElement (guarded : player.Guarded) (attached : player.device = true) :
    (player.handleElement keys application).processEvents.Guarded := by
  rcases player.handleElement_cases keys application with same | ⟨eventQueue, same | same⟩
  · rw [same]
    exact processEvents_guarded guarded.bounded guarded.detached
  · rw [same]
    exact processEvents_guarded guarded.bounded fun gone => by simp [behindText, attached] at gone
  · rw [same]
    refine processEvents_guarded ?_ fun gone => by simp [behindText, fail, attached] at gone
    refine Nat.le_trans ?_ guarded.bounded
    simp only [activities, fail, behindText, List.count_nil, Nat.zero_add, Nat.add_assoc]
    exact Nat.le_add_left _ _

theorem Awake.handleElement (awake : player.Awake) :
    (player.handleElement keys application).processEvents.Awake := by
  rcases player.handleElement_cases keys application with same | ⟨eventQueue, same | same⟩
  · rw [same]
    exact processEvents_awake awake
  · rw [same]
    exact processEvents_awake awake
  · rw [same]
    exact processEvents_awake fun alive => by cases alive

/-- A step keeps one activity at a time, and the flag stands for something unless a
negative sleep is executed. -/
theorem Guarded.step (guarded : player.Guarded) :
    (player.step keys application).Guarded ∧
      (player.Awake → player.failed = false →
        ((player.step keys application).Awake ↔ player.SleepsInTime)) := by
  have quiet {next : Player Object keys.Sequence} (kept : next.Guarded)
      (awake : player.Awake → next.Awake) (noEvent : player.nextEvent = none) :
      next.Guarded ∧
        (player.Awake → player.failed = false → (next.Awake ↔ player.SleepsInTime)) :=
    ⟨kept, fun before _ => ⟨fun _ => by simp [SleepsInTime, noEvent], fun _ => awake before⟩⟩
  have counted {frame : Frame} {stack : List Frame} (shape : player.stack = frame :: stack)
      (other : frame ≠ .processing) :
      stack.count .processing = player.stack.count .processing := by
    rw [shape, List.count_cons_of_ne other]
  have detached := guarded.readToken_detached
  have read : player.readToken.Guarded :=
    guarded.reading rfl player.readToken.reader player.readToken.unread
      fun gone => ⟨(detached gone).1, by rw [(detached gone).2]; nofun⟩
  have awakeRead : player.Awake → player.readToken.Awake := fun awake =>
    awake.reading rfl player.readToken.reader player.readToken.unread
  cases player.stepCase keys application with
  | idle turn step =>
      rw [step]
      exact quiet guarded id turn.nextEvent
  | performs stack event rest shape queue step =>
      rw [step]
      refine ⟨guarded.outcome shape queue (perform_outcome application event _),
        fun _ alive => (guarded.awake_perform_iff shape alive).trans ?_⟩
      simp [SleepsInTime, nextEvent_of_processing shape, queue]
  | settles stack shape queue step =>
      obtain ⟨kept, awake⟩ := guarded.endProcessing shape queue
      rw [step]
      exact quiet kept (fun _ => awake) (by rw [nextEvent_of_processing shape, queue]; rfl)
  | closes stack shape step =>
      have counted := counted shape (by decide)
      rw [step]
      exact quiet (guarded.endElement counted) (fun awake => awake.endElement counted)
        (nextEvent_of_ne shape (by decide))
  | stops stack shape ending step =>
      have counted := counted shape (by decide)
      have entered : { player with stack := stack }.Guarded :=
        guarded.reading counted player.reader player.unread
          fun gone => (guarded.detached gone).2.2.2
      rw [step]
      exact quiet (processEvents_guarded entered.bounded entered.detached)
        (fun awake => processEvents_awake (awake.reading counted player.reader player.unread))
        (nextEvent_of_ne shape (by decide))
  | parses stack shape more starts step =>
      have attached : player.device = true := by
        by_contra gone
        rw [(detached (Bool.eq_false_of_not_eq_true gone)).2] at starts
        cases starts
      have counted : (Frame.readElement :: stack).count .processing =
          player.readToken.stack.count .processing := by
        rw [List.count_cons_of_ne (by decide)]
        exact counted shape (by decide)
      have entered : { player.readToken with stack := .readElement :: stack }.Guarded :=
        read.reading counted _ _ fun gone => by simp [readToken, attached] at gone
      rw [step]
      refine quiet (entered.handleElement keys application attached) (fun awake => ?_)
        (nextEvent_of_ne shape (by decide))
      have awakeEntered : { player.readToken with stack := .readElement :: stack }.Awake :=
        (awakeRead awake).reading counted _ _
      exact awakeEntered.handleElement keys application
  | passes stack shape more other step =>
      have counted := counted shape (by decide)
      rw [step]
      exact quiet (read.endElement counted) (fun awake => (awakeRead awake).endElement counted)
        (nextEvent_of_ne shape (by decide))

end

/-! ### Calls from an event loop -/

section

variable {Object Sequence : Type} {player : Player Object Sequence}

theorem Guarded.readyRead (guarded : player.Guarded) (arrived : List Token) :
    (player.readyRead arrived).Guarded := by
  have detached := fun gone => (guarded.detached gone).2.2.2
  simp only [Player.readyRead]
  split
  · exact guarded.reading (by simp) player.reader _ detached
  · exact guarded.reading rfl player.reader _ detached

theorem Awake.readyRead (awake : player.Awake) (arrived : List Token) :
    (player.readyRead arrived).Awake := by
  simp only [Player.readyRead]
  split
  · exact awake.reading (by simp) player.reader _
  · exact awake.reading rfl player.reader _

theorem count_tail_of_flushing (flushing : player.stack.head? = some .flushing) :
    player.stack.tail.count .processing = player.stack.count .processing := by
  obtain ⟨stack, shape⟩ := List.head?_eq_some_iff.mp flushing
  simp [shape]

theorem Guarded.endFlush (guarded : player.Guarded)
    (flushing : player.stack.head? = some .flushing) : player.endFlush.Guarded :=
  guarded.reading (count_tail_of_flushing flushing) player.reader player.unread
    fun gone => (guarded.detached gone).2.2.2

theorem Awake.endFlush (awake : player.Awake)
    (flushing : player.stack.head? = some .flushing) : player.endFlush.Awake :=
  awake.reading (count_tail_of_flushing flushing) player.reader player.unread

/-- What is waited for is over, and the queue goes on. -/
theorem guarded_resume (idle : player.activities = 0) (attached : player.device = true) :
    ({ player with processingEvents := false }).processEvents.Guarded ∧
      ({ player with processingEvents := false }).processEvents.Awake :=
  ⟨processEvents_guarded (Nat.le_of_eq idle) fun gone => by simp [attached] at gone,
    processEvents_awake fun _ working => nomatch working⟩

theorem Guarded.waitFinished (guarded : player.Guarded) (sleeping : player.timers ≠ 0) :
    player.waitFinished.Guarded ∧ player.waitFinished.Awake := by
  have attached : player.device = true := by
    by_contra gone
    exact sleeping (guarded.detached (Bool.eq_false_of_not_eq_true gone)).2.1
  have bounded := guarded.bounded.trans player.processingEvents.toNat_le
  rw [activities] at bounded
  have idle (written : List (Reply Object)) :
      { player with timers := player.timers - 1, written := written }.activities = 0 := by
    simp only [activities]
    omega
  rw [Player.waitFinished]
  rcases ack_eq { player with timers := player.timers - 1 } with ⟨written, same⟩ | ⟨gone, -⟩
  · simp only [same]
    exact guarded_resume (idle written) attached
  · rw [attached] at gone
    cases gone

theorem Guarded.endPick (guarded : player.Guarded) (picking : player.mode = .pick)
    (object : Object) : (player.endPick object).Guarded ∧ (player.endPick object).Awake := by
  have attached : player.device = true := by
    by_contra gone
    have mode := (guarded.detached (Bool.eq_false_of_not_eq_true gone)).2.2.1
    rw [picking] at mode
    cases mode
  have bounded := guarded.bounded.trans player.processingEvents.toNat_le
  simp only [activities, picking, if_true] at bounded
  have idle (written : List (Reply Object)) :
      { player with mode := .playback, written := written }.activities = 0 := by
    simp only [activities, reduceCtorEq, if_false]
    omega
  have told : player.reply (.picked object) =
      { player with written := player.written ++ [.picked object] } := if_pos attached
  simp only [Player.endPick, told]
  exact guarded_resume (idle (player.written ++ [.picked object])) attached

end

end Player

end Hooq
