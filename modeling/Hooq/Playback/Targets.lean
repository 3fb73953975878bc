import Hooq.Library.Run
import Hooq.Playback.Orderly

/-!
# Missing targets

An event whose target is missing is answered with a report and its acknowledgement.
The player cannot do without three targets: the object to dump, the window to close, and
the widget to drop on, which is looked up when the element is parsed.
-/

namespace Hooq

namespace Player

section

variable {Object Sequence : Type} [DecidableEq Object] {application : Application Object}
  {event : Event Sequence} {player next : Player Object Sequence}

/-- What is written for an event with a missing target. -/
theorem replies_of_missing {objectPath : QString}
    (missing : event.target application = some (objectPath, false)) :
    event.replies application =
      .notFound objectPath :: if event.ack then [.ack] else [] := by
  rw [Event.replies, missing]
  rw [Event.target] at missing
  cases task : event.task with
  | dump => simp [task] at missing
  | flush => simp [task] at missing
  | pick => simp [task] at missing
  | sleep => simp [task] at missing
  | _ => rfl

/-- An event that does not fail writes its replies. -/
theorem Outcome.written (outcome : Outcome application event player next)
    (attached : player.device = true) (alive : next.failed = false) :
    next.written = player.written ++ event.replies application := by
  cases outcome with
  | answered replies effects tells => rw [tells attached]
  | failing => cases alive
  | flushing silent => rw [silent, List.append_nil]
  | picking silent => rw [silent, List.append_nil]
  | sleeping msec task => simp [Event.replies, task]

/-- An event fails if and only if what it cannot do without is missing. -/
theorem perform_failed_iff (attached : player.device = true) (alive : player.failed = false) :
    (player.perform application event).failed = false ↔ event.FindsTarget application := by
  constructor
  · intro fine
    rw [Event.FindsTarget]
    cases task : event.task with
    | dump objectPath =>
        by_contra missing
        have none := Option.not_isSome_iff_eq_none.mp missing
        simp [perform, task, none, fail] at fine
    | close objectPath =>
        by_contra missing
        have none := Option.not_isSome_iff_eq_none.mp missing
        simp [perform, task, none, fail] at fine
    | _ => trivial
  · intro finds
    have outcome := perform_outcome application event player
    revert outcome
    generalize player.perform application event = next
    intro outcome
    cases outcome with
    | failing written effects reason =>
        rcases reason with gone | missing
        · rw [attached] at gone
          cases gone
        · exact absurd finds missing
    | _ => exact alive

end

section

variable {Object Sequence : Type} {player : Player Object Sequence}

theorem ack_failed (attached : player.device = true) : player.ack.failed = player.failed := by
  rcases player.ack_eq with ⟨_, same⟩ | ⟨gone, -⟩
  · rw [same]
  · rw [attached] at gone
    cases gone

theorem processEvents_failed (player : Player Object Sequence) :
    player.processEvents.failed = player.failed := by
  obtain ⟨_, _, same⟩ := player.processEvents_eq
  rw [same]

theorem endElement_failed {stack : List Frame}
    (attached : player.reader.tokenType = .endDocument → player.device = true) :
    (player.endElement stack).failed = player.failed := by
  rw [endElement]
  split
  next ended =>
      have attached : { player with connected := false, stack := stack }.device = true :=
        attached ended
      rw [processEvents_failed, ack_failed attached]
  next => rfl

theorem endProcessing_failed (player : Player Object Sequence) :
    player.endProcessing.failed = player.failed := by
  rw [endProcessing]
  split <;> rfl

theorem Guarded.attached_of_ended (guarded : player.Guarded)
    (ended : player.reader.tokenType = .endDocument) : player.device = true := by
  by_contra gone
  exact (guarded.detached (Bool.eq_false_of_not_eq_true gone)).2.2.2.2 ended

/-- The event that is executed is the first of the queue. -/
theorem shape_of_nextEvent {event : Event Sequence} (executes : event ∈ player.nextEvent) :
    ∃ stack rest, player.stack = .processing :: stack ∧ player.eventQueue = event :: rest := by
  rw [nextEvent] at executes
  split at executes
  next working =>
      obtain ⟨stack, shape⟩ := List.head?_eq_some_iff.mp working
      obtain ⟨rest, queue⟩ := List.head?_eq_some_iff.mp executes
      exact ⟨stack, rest, shape, queue⟩
  next => cases executes

theorem Guarded.attached_of_queued (guarded : player.Guarded) (queued : player.eventQueue ≠ []) :
    player.device = true := by
  by_contra gone
  exact queued (guarded.detached (Bool.eq_false_of_not_eq_true gone)).1

end

section

variable (keys : KeySequences) {Object : Type} [DecidableEq Object]
  (application : Application Object)

/-- Only a drag whose target is no widget has no entries. -/
theorem decode_isSome_iff (element : Element) :
    (decode keys application element).isSome = true ↔
      (element.name = QString.ofString "dragAndDrop" →
        (application.findWidget (element.attributes.value "target")).isSome = true) := by
  obtain ⟨name, attributes, text⟩ := element
  constructor
  · rintro parsed rfl
    have drag : (postDragAndDrop application attributes :
        Option (List (Event keys.Sequence))).isSome = true := parsed
    rwa [postDragAndDrop, Option.isSome_map] at drag
  · exact isSome_postElement keys application name attributes text

/-- What the next step cannot do without is there. -/
structure FindsTargets {Sequence : Type} (player : Player Object Sequence) : Prop where
  executes : ∀ event ∈ player.nextEvent, event.FindsTarget application
  parses : ∀ element ∈ player.nextElements, element.name = QString.ofString "dragAndDrop" →
    (application.findWidget (element.attributes.value "target")).isSome = true

variable {keys application} {player : Player Object keys.Sequence}

/-- A step that executes an event writes its replies. -/
theorem Guarded.step_written (guarded : player.Guarded) {event : Event keys.Sequence}
    (executes : event ∈ player.nextEvent)
    (alive : (player.step keys application).failed = false) :
    (player.step keys application).written =
      player.written ++ event.replies application := by
  obtain ⟨stack, rest, shape, queue⟩ := shape_of_nextEvent executes
  have attached := guarded.attached_of_queued (by simp [queue])
  rw [step_processing keys application shape, queue] at alive ⊢
  exact (perform_outcome application event { player with eventQueue := rest }).written attached
    alive

variable (application) in
/-- A step fails if and only if what it cannot do without is missing. -/
theorem Guarded.step_failed_iff (guarded : player.Guarded) (alive : player.failed = false) :
    (player.step keys application).failed = false ↔ player.FindsTargets application := by
  have quiet {next : Player Object keys.Sequence} (same : next.failed = player.failed)
      (noEvent : player.nextEvent = none) (noElement : player.nextElements = []) :
      next.failed = false ↔ player.FindsTargets application := by
    rw [same]
    refine ⟨fun _ => ⟨?_, ?_⟩, fun _ => alive⟩
    · simp [noEvent]
    · simp [noElement]
  cases player.stepCase keys application with
  | idle turn step =>
      rw [step]
      exact quiet rfl turn.nextEvent turn.nextElements
  | performs stack event rest shape queue step =>
      have attached : { player with eventQueue := rest }.device = true :=
        guarded.attached_of_queued (by simp [queue])
      have executes : player.nextEvent = some event := by
        rw [nextEvent_of_processing shape, queue, List.head?_cons]
      rw [step]
      refine (perform_failed_iff attached alive).trans ⟨fun finds => ⟨?_, ?_⟩, fun finds => ?_⟩
      · simpa [executes] using finds
      · simp [nextElements_of_ne shape]
      · exact finds.executes event executes
  | settles stack shape queue step =>
      rw [step]
      exact quiet player.endProcessing_failed (by rw [nextEvent_of_processing shape, queue]; rfl)
        (nextElements_of_ne shape (by decide))
  | closes stack shape step =>
      rw [step]
      exact quiet (endElement_failed guarded.attached_of_ended) (nextEvent_of_ne shape (by decide))
        (nextElements_of_ne shape (by decide))
  | stops stack shape ending step =>
      rw [step]
      exact quiet (processEvents_failed _) (nextEvent_of_ne shape (by decide))
        (nextElements_of_atEnd ending)
  | parses stack shape more starts step =>
      have element := nextElements_of_starts shape more starts
      have noEvent := nextEvent_of_ne shape (by decide)
      have entered : { player.readToken with stack := .readElement :: stack }.failed = false :=
        alive
      rw [step, processEvents_failed, handleElement_failed keys application entered]
      simp only [decode_isSome_iff]
      refine ⟨fun finds => ⟨by simp [noEvent], ?_⟩, fun finds => ?_⟩
      · rw [element]
        exact finds
      · have parses := finds.parses
        rwa [element] at parses
  | passes stack shape more other step =>
      have attached : player.readToken.reader.tokenType = .endDocument →
          player.readToken.device = true := by
        intro ended
        by_contra gone
        have invalid := (guarded.readToken_detached (Bool.eq_false_of_not_eq_true gone)).2
        rw [ended] at invalid
        cases invalid
      rw [step]
      exact quiet (endElement_failed attached) (nextEvent_of_ne shape (by decide))
        (nextElements_of_other other)

/-- A call from an event loop does not fail. -/
theorem call_failed (guarded : player.Guarded) {occurrence : Occurrence Object}
    (allowed : player.Allows occurrence)
    (calls : ∀ application, occurrence ≠ .run application) :
    (player.meet keys occurrence).failed = false := by
  obtain ⟨alive, allows⟩ := allowed
  have attached (busy : player.timers ≠ 0 ∨ player.mode = .pick) : player.device = true := by
    by_contra gone
    obtain ⟨-, timers, mode, -⟩ := guarded.detached (Bool.eq_false_of_not_eq_true gone)
    rcases busy with sleeping | picking
    · exact sleeping timers
    · rw [mode] at picking
      cases picking
  cases occurrence with
  | run application => exact absurd rfl (calls application)
  | readyRead arrived =>
      simp only [meet, Player.readyRead]
      split <;> exact alive
  | endFlush => exact alive
  | waitFinished =>
      have connected : { player with timers := player.timers - 1 }.device = true :=
        attached (.inl allows.2)
      simp only [meet, Player.waitFinished, processEvents_failed, ack_failed connected]
      exact alive
  | endPick object =>
      have connected := attached (.inr allows.2)
      simp only [meet, Player.endPick, processEvents_failed, reply, connected, if_true]
      exact alive

end

namespace History

variable (keys : KeySequences) {Object : Type} [DecidableEq Object]

/-- The player has not failed, and has reported each missing target. -/
structure Reports {Sequence : Type} (history : Player.History Object Sequence) : Prop where
  alive : history.player.failed = false
  missing : ∀ execution ∈ history.executed, ∀ objectPath,
    execution.event.target execution.application = some (objectPath, false) →
      execution.replies = .notFound objectPath :: if execution.event.ack then [.ack] else []

/-- What a step cannot do without is there. -/
def FindsTargets {Sequence : Type} (history : Player.History Object Sequence) :
    Occurrence Object → Prop
  | .run application =>
      history.player.Allows (.run application) → history.player.FindsTargets application
  | _ => True

variable {keys}

/-- A step that does not fail reports the target that is missing. -/
theorem Reports.next {history : Player.History Object keys.Sequence}
    (consistent : history.Consistent keys) (reports : history.Reports)
    (occurrence : Occurrence Object) :
    (history.next keys occurrence).Reports ↔ history.FindsTargets occurrence := by
  cases history.player.occurs occurrence with
  | refused _ impossible =>
      rw [Player.History.next, if_neg impossible]
      refine ⟨fun _ => ?_, fun _ => reports⟩
      cases occurrence with
      | run application => exact fun allows => absurd allows impossible
      | _ => trivial
  | call _ allowed calls =>
      rw [next_call allowed calls]
      refine ⟨fun _ => ?_, fun _ => ⟨call_failed consistent.guarded allowed calls, reports.missing⟩⟩
      cases occurrence with
      | run application => exact absurd rfl (calls application)
      | _ => trivial
  | run application allowed =>
      have finds := consistent.guarded.step_failed_iff application reports.alive
      rw [next_run allowed]
      refine ⟨fun kept _ => finds.mp kept.alive, fun there => ⟨finds.mpr (there allowed), ?_⟩⟩
      intro execution member objectPath missing
      rcases List.mem_append.mp member with before | new
      · exact reports.missing execution before objectPath missing
      · obtain ⟨event, executes, rfl⟩ := List.mem_map.mp new
        have written := consistent.guarded.step_written (Option.mem_toList.mp executes)
          (finds.mpr (there allowed))
        rw [written, List.drop_left, replies_of_missing missing]

/-- In every history the player neither fails nor leaves a missing target unreported, as
long as it finds what it cannot do without. -/
theorem reports_iff_findsTargets (ackNext : Bool) (occurrences : List (Occurrence Object)) :
    (∀ before after, occurrences = before ++ after →
        (before.foldl (Player.History.next keys) (new ackNext)).Reports) ↔
      Library.Run.StepsMeet (Player.History.next keys) FindsTargets (new ackNext)
        occurrences := by
  refine Library.Run.always_iff_stepsMeet (Player.History.next keys) FindsTargets
    (fun history => history.Consistent keys ∧ history.Reports) Reports (new ackNext)
    ?_ ?_ ?_ ?_ occurrences
  · intro history occurrence ⟨consistent, reports⟩ finds
    exact ⟨(consistent.next occurrence).1, (reports.next consistent occurrence).mpr finds⟩
  · exact fun history ⟨_, reports⟩ => reports
  · intro history occurrence ⟨consistent, reports⟩ misses kept
    exact misses ((reports.next consistent occurrence).mp kept)
  · exact ⟨consistent_new keys ackNext, rfl, nofun⟩

/-! ## A drop on nothing -/

/-- A drag to a path that leads nowhere. -/
def dropOnNothing : List (Occurrence (Fin 3)) :=
  List.replicate 3 (.run buttonApplication) ++
    [.readyRead (.start "hooq" [] :: (Interpreter.write plainSequences
      (.dragAndDrop "window" ⟨1, 2⟩ "nowhere" ⟨3, 4⟩)).tokens)] ++
    List.replicate 4 (.run buttonApplication)

/-- The player uses the widget to drop on without a test. -/
theorem dropOnNothing_not_reported :
    ¬∀ occurrences : List (Occurrence (Fin 3)),
      (occurrences.foldl (Player.History.next plainSequences) (new true)).Reports := by
  intro all
  exact absurd (all dropOnNothing).alive (by decide +kernel)

end History

end Player

end Hooq
