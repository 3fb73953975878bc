import Hooq.Library.Run
import Hooq.Playback.Activity
import Hooq.Playback.Wire

/-!
# Events in order

In every history the player executes the events of the elements that it has parsed,
each once and in their order, and the elements are those of the stream.  No event is
left in the queue with nothing to wait for, unless a sleep is negative.
-/

namespace Hooq

namespace Player.History

section

variable (keys : KeySequences) {Object : Type} [DecidableEq Object]

/-- What the player has queued, whether it has executed it by now or not. -/
def enqueued {Sequence : Type} (history : Player.History Object Sequence) :
    List (Event Sequence) :=
  history.executed.map Execution.event ++ history.player.eventQueue

/-- Events are executed in the order of their elements, each once. -/
structure InOrder (history : Player.History Object keys.Sequence) : Prop where
  executes : history.executed.map Execution.event ++ history.player.eventQueue =
    history.parsed.flatMap (Parsing.events keys)
  parses : history.parsed.map Parsing.tag <+: startTags history.arrived

/-- What holds in a history: the order, and that the flag stands for exactly one of the
queue loop, a timer and the user, so that no event is left alone in the queue. -/
structure Orderly (history : Player.History Object keys.Sequence) : Prop
    extends history.InOrder keys where
  oneActivity : history.player.failed = false →
    history.player.activities = history.player.processingEvents.toNat
  waits : history.player.failed = false → history.player.stack = [] →
    history.player.eventQueue ≠ [] →
      history.player.timers = 1 ∧ history.player.mode = .playback ∨
        history.player.timers = 0 ∧ history.player.mode = .pick

/-- If a sleep is executed, it is not negative. -/
def SleepsInTime {Sequence : Type} (history : Player.History Object Sequence)
    (occurrence : Occurrence Object) : Prop :=
  match occurrence with
  | .run _ => history.player.Allows occurrence → history.player.SleepsInTime
  | _ => True

/-- What has been read of what has arrived. -/
structure Reads (history : Player.History Object keys.Sequence) (consumed : List Token) :
    Prop where
  arrived : history.arrived = consumed ++ history.player.unread
  parses : history.parsed.map Parsing.tag <+: startTags consumed
  all : history.player.reader.error = false →
    history.parsed.map Parsing.tag = startTags consumed
  stopped : history.player.reader.Stopped

/-- The invariant of a history. -/
structure Consistent (history : Player.History Object keys.Sequence) : Prop where
  executes : history.executed.map Execution.event ++ history.player.eventQueue =
    history.parsed.flatMap (Parsing.events keys)
  reads : ∃ consumed, history.Reads keys consumed
  guarded : history.player.Guarded

theorem consistent_new (ackNext : Bool) :
    (new ackNext : Player.History Object keys.Sequence).Consistent keys where
  executes := rfl
  reads := ⟨[], rfl, List.prefix_rfl, fun _ => rfl, nofun⟩
  guarded := guarded_new ackNext

variable {keys}

/-- What does not read keeps what has been read. -/
theorem Reads.of_still {history next : Player.History Object keys.Sequence}
    {consumed later : List Token} (reads : history.Reads keys consumed)
    (arrived : next.arrived = history.arrived ++ later)
    (unread : next.player.unread = history.player.unread ++ later)
    (reader : next.player.reader = history.player.reader) (parsed : next.parsed = history.parsed) :
    next.Reads keys consumed where
  arrived := by rw [arrived, reads.arrived, unread, List.append_assoc]
  parses := parsed ▸ reads.parses
  all fine := by
    rw [parsed]
    exact reads.all (reader ▸ fine)
  stopped := reader ▸ reads.stopped

/-- A step reads on, in an open stream. -/
theorem Reads.step {history : Player.History Object keys.Sequence} {consumed taken : List Token}
    (reads : history.Reads keys consumed) {player : Player Object keys.Sequence}
    {parsed : List (Parsing Object)} (consumes : Consumes keys history.player player parsed taken)
    (executed : List (Execution Object keys.Sequence)) :
    (⟨player, history.arrived, history.parsed ++ parsed, executed⟩ :
      Player.History Object keys.Sequence).Reads keys (consumed ++ taken) := by
  refine ⟨?_, ?_, fun fine => ?_, consumes.stopped⟩
  · rw [List.append_assoc, ← consumes.unread]
    exact reads.arrived
  · rw [List.map_append, startTags_append]
    cases failed : history.player.reader.error with
    | false =>
        rw [reads.all failed]
        exact (List.prefix_append_right_inj _).mpr (consumes.parses failed)
    | true =>
        obtain ⟨nothing, none, -⟩ := consumes.none failed
        rw [nothing, none]
        simpa [startTags] using reads.parses
  · rw [List.map_append, startTags_append]
    cases failed : history.player.reader.error with
    | false => rw [reads.all failed, consumes.all failed fine]
    | true =>
        obtain ⟨-, -, still⟩ := consumes.none failed
        rw [still] at fine
        cases fine

/-- A step of the player in a history. -/
theorem next_run {history : Player.History Object keys.Sequence}
    {application : Application Object} (allowed : history.player.Allows (.run application)) :
    history.next keys (.run application) =
      { player := history.player.step keys application
        arrived := history.arrived
        parsed := history.parsed ++ history.player.nextParsings keys application
        executed := history.executed ++ history.player.nextEvent.toList.map fun event =>
          ⟨application, event, (history.player.step keys application).written.drop
            history.player.written.length⟩ } := by
  rw [History.next, if_pos allowed]
  rfl

theorem next_call {history : Player.History Object keys.Sequence}
    {occurrence : Occurrence Object} (allowed : history.player.Allows occurrence)
    (calls : ∀ application, occurrence ≠ .run application) :
    history.next keys occurrence =
      { history with
        player := history.player.meet keys occurrence
        arrived := history.arrived ++ occurrence.arrived } := by
  rw [Player.History.next, if_pos allowed]
  cases occurrence with
  | run application => exact absurd rfl (calls application)
  | readyRead arrived => rfl
  | _ => simp [Occurrence.arrived]

/-- A call from an event loop reads nothing, queues nothing and executes nothing. -/
theorem meet_call (player : Player Object keys.Sequence) {occurrence : Occurrence Object}
    (calls : ∀ application, occurrence ≠ .run application) :
    (player.meet keys occurrence).eventQueue = player.eventQueue ∧
      (player.meet keys occurrence).unread = player.unread ++ occurrence.arrived ∧
      (player.meet keys occurrence).reader = player.reader := by
  cases occurrence with
  | run application => exact absurd rfl (calls application)
  | readyRead arrived =>
      simp only [meet, Player.readyRead, Occurrence.arrived]
      split <;> exact ⟨rfl, rfl, rfl⟩
  | endFlush => exact ⟨rfl, (List.append_nil _).symm, rfl⟩
  | waitFinished =>
      simp only [meet, Player.waitFinished, processEvents_eventQueue, processEvents_unread,
        processEvents_reader, ack_eventQueue, ack_unread, ack_reader, Occurrence.arrived,
        List.append_nil, and_self]
  | endPick object =>
      simp only [meet, Player.endPick, processEvents_eventQueue, processEvents_unread,
        processEvents_reader, Occurrence.arrived, List.append_nil, reply]
      split <;> exact ⟨rfl, rfl, rfl⟩

/-- A step queues the entries of the elements that it parses. -/
theorem enqueued_run {history : Player.History Object keys.Sequence}
    {other : Application Object} (allowed : history.player.Allows (.run other)) :
    (history.next keys (.run other)).enqueued = history.enqueued ++
      (history.player.nextParsings keys other).flatMap (Parsing.events keys) := by
  have queue := history.player.step_eventQueue keys other allowed.1
  have events := List.map_id history.player.nextEvent.toList
  rw [next_run allowed, enqueued, enqueued, List.append_assoc, ← queue, List.map_append,
    List.append_assoc, List.map_map]
  exact congrArg (fun executed => history.executed.map Execution.event ++
    (executed ++ (history.player.step keys other).eventQueue)) events

theorem enqueued_call {history : Player.History Object keys.Sequence}
    {occurrence : Occurrence Object} (allowed : history.player.Allows occurrence)
    (calls : ∀ application, occurrence ≠ .run application) :
    (history.next keys occurrence).enqueued = history.enqueued := by
  rw [next_call allowed calls, enqueued, enqueued, (meet_call history.player calls).1]

/-- A call from an event loop keeps one activity at a time. -/
theorem guarded_call {player : Player Object keys.Sequence} (guarded : player.Guarded)
    {occurrence : Occurrence Object} (allowed : player.Allows occurrence)
    (calls : ∀ application, occurrence ≠ .run application) :
    (player.meet keys occurrence).Guarded ∧
      (player.Awake → (player.meet keys occurrence).Awake) := by
  obtain ⟨-, allows⟩ := allowed
  cases occurrence with
  | run application => exact absurd rfl (calls application)
  | readyRead arrived => exact ⟨guarded.readyRead arrived, fun awake => awake.readyRead arrived⟩
  | endFlush => exact ⟨guarded.endFlush allows, fun awake => awake.endFlush allows⟩
  | waitFinished =>
      obtain ⟨kept, awake⟩ := guarded.waitFinished allows.2
      exact ⟨kept, fun _ => awake⟩
  | endPick object =>
      obtain ⟨kept, awake⟩ := guarded.endPick allows.2 object
      exact ⟨kept, fun _ => awake⟩

/-- Whatever happens, a history stays consistent; only a negative sleep leaves the flag
without a meaning. -/
theorem Consistent.next {history : Player.History Object keys.Sequence}
    (consistent : history.Consistent keys) (occurrence : Occurrence Object) :
    (history.next keys occurrence).Consistent keys ∧
      (history.player.Awake →
        ((history.next keys occurrence).player.Awake ↔ history.SleepsInTime occurrence)) := by
  obtain ⟨executes, ⟨consumed, reads⟩, guarded⟩ := consistent
  cases history.player.occurs occurrence with
  | refused _ impossible =>
      rw [Player.History.next, if_neg impossible]
      refine ⟨⟨executes, ⟨consumed, reads⟩, guarded⟩, fun awake => ⟨fun _ => ?_, fun _ => awake⟩⟩
      cases occurrence with
      | run application => exact fun allows => absurd allows impossible
      | _ => trivial
  | call _ allowed calls =>
      obtain ⟨queue, unread, reader⟩ := meet_call history.player calls
      obtain ⟨kept, awake⟩ := guarded_call guarded allowed calls
      rw [next_call allowed calls]
      refine ⟨⟨queue ▸ executes, ⟨consumed, reads.of_still rfl unread reader rfl⟩, kept⟩,
        fun before => ⟨fun _ => ?_, fun _ => awake before⟩⟩
      cases occurrence with
      | run application => exact absurd rfl (calls application)
      | _ => trivial
  | run application allowed =>
      obtain ⟨kept, awake⟩ := guarded.step keys application
      obtain ⟨taken, consumes⟩ := history.player.step_consumes keys application allowed.1 reads.stopped
      have queue := enqueued_run allowed
      rw [next_run allowed] at queue ⊢
      refine ⟨⟨?_, ⟨consumed ++ taken, reads.step consumes _⟩, kept⟩, fun before => ?_⟩
      · rw [List.flatMap_append, ← executes]
        exact queue
      · exact (awake before allowed.1).trans
          ⟨fun timed _ => timed, fun timed => timed allowed⟩

/-- A consistent history whose flag has a meaning is orderly. -/
theorem Consistent.orderly {history : Player.History Object keys.Sequence}
    (consistent : history.Consistent keys) (awake : history.player.Awake) :
    history.Orderly keys := by
  obtain ⟨executes, ⟨consumed, reads⟩, guarded⟩ := consistent
  have oneActivity (alive : history.player.failed = false) :
      history.player.activities = history.player.processingEvents.toNat := by
    have bounded := guarded.bounded
    cases flag : history.player.processingEvents with
    | false =>
        rw [flag] at bounded
        exact Nat.le_antisymm bounded (Nat.zero_le _)
    | true =>
        rw [flag] at bounded
        exact Nat.le_antisymm bounded (Nat.pos_of_ne_zero (awake alive flag))
  refine ⟨⟨executes, ?_⟩, oneActivity, fun alive empty pending => ?_⟩
  · rw [reads.arrived, startTags_append]
    exact List.prefix_append_of_prefix reads.parses
  · have active := oneActivity alive
    rw [guarded.queued pending, Player.activities, empty] at active
    cases mode : history.player.mode with
    | playback =>
        simp only [List.count_nil, mode, reduceCtorEq, if_false, Bool.toNat_true] at active
        exact .inl ⟨by omega, rfl⟩
    | pick =>
        simp only [List.count_nil, mode, if_true, Bool.toNat_true] at active
        exact .inr ⟨by omega, rfl⟩

theorem Orderly.awake {history : Player.History Object keys.Sequence}
    (orderly : history.Orderly keys) : history.player.Awake := by
  intro alive flag idle
  have active := orderly.oneActivity alive
  rw [idle, flag] at active
  cases active

/-- Whatever happens, a history is orderly as long as no negative sleep is executed. -/
theorem orderly_iff_sleepsInTime (ackNext : Bool) (occurrences : List (Occurrence Object)) :
    (∀ before after, occurrences = before ++ after →
        (before.foldl (Player.History.next keys) (new ackNext)).Orderly keys) ↔
      Library.Run.StepsMeet (Player.History.next keys) SleepsInTime (new ackNext)
        occurrences := by
  refine Library.Run.always_iff_stepsMeet (Player.History.next keys) SleepsInTime
    (fun history => history.Consistent keys ∧ history.player.Awake)
    (fun history => history.Orderly keys) (new ackNext) ?_ ?_ ?_ ?_ occurrences
  · intro history occurrence ⟨consistent, awake⟩ timed
    obtain ⟨kept, awakeNext⟩ := consistent.next occurrence
    exact ⟨kept, (awakeNext awake).mpr timed⟩
  · exact fun history ⟨consistent, awake⟩ => consistent.orderly awake
  · intro history occurrence ⟨consistent, awake⟩ untimed orderly
    exact untimed (((consistent.next occurrence).2 awake).mp orderly.awake)
  · exact ⟨consistent_new keys ackNext, awake_new ackNext⟩

end

/-! ## A sleep that never ends -/

section

/-- A document with a negative sleep and a change of the focus behind it. -/
def negativeSleepTokens : List Token :=
  .start "hooq" [] ::
    ((Interpreter.write plainSequences (.sleep (-1))).tokens ++
      (Interpreter.write plainSequences (.setFocus "window" 0)).tokens)

def negativeSleep : List (Occurrence (Fin 3)) :=
  List.replicate 3 (.run buttonApplication) ++ [.readyRead negativeSleepTokens] ++
    List.replicate 11 (.run buttonApplication)

/-- Behind a negative sleep the change of the focus stays in the queue. -/
theorem negativeSleep_not_orderly :
    ¬∀ occurrences : List (Occurrence (Fin 3)),
      (occurrences.foldl (Player.History.next plainSequences) (new true)).Orderly
        plainSequences := by
  intro all
  have waits := (all negativeSleep).waits (by decide +kernel) (by decide +kernel)
    (by decide +kernel)
  exact absurd waits (by decide +kernel)

end

end Player.History

end Hooq
