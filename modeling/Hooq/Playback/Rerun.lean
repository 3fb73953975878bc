import Hooq.Playback.CatchingUp
import Hooq.Playback.Entries
import Hooq.Playback.LockStep
import Hooq.Recording.Account

/-!
# A recording is played back

The file that a recorder leaves behind is sent to a player as it is.  Whatever happens
in between, what the player has executed when it comes to rest is what the account of
the recording holds, event for event.
-/

namespace Hooq

open Library.Run

/-! ## The file as it is read -/

/-- What `QXmlStreamReader` makes of the tokens of a file.  A start tag is a token once
its bracket is there. -/
def receivedFrom : Option (QString × Attributes) →
    List (Library.Tags.Token QString QString) → List Token
  | tag, .declaration :: rest => receivedFrom tag rest
  | none, .opening name :: rest => receivedFrom (some (name, [])) rest
  | some (name, attributes), .attribute given value :: rest =>
      receivedFrom (some (name, attributes ++ [(given, value)])) rest
  | some (name, attributes), .closing :: rest =>
      .start name attributes :: receivedFrom none rest
  | none, .text text :: rest => textTokens text ++ receivedFrom none rest
  | none, .ending _ :: rest => .stop :: receivedFrom none rest
  | _, _ => []

/-- What a player reads of the pieces of a log. -/
def Markup.received (pieces : List Markup) : List Token :=
  receivedFrom none (pieces.flatMap Markup.tagTokens)

theorem receivedFrom_attributes (name : QString) (seen attributes : Attributes)
    (rest : List (Library.Tags.Token QString QString)) :
    receivedFrom (some (name, seen))
        (attributes.map (fun given => .attribute given.1 given.2) ++ rest) =
      receivedFrom (some (name, seen ++ attributes)) rest := by
  induction attributes generalizing seen with
  | nil => rw [List.append_nil, List.map_nil, List.nil_append]
  | cons given attributes ih =>
      rw [List.map_cons, List.cons_append, receivedFrom, ih, List.append_assoc]
      rfl

theorem receivedFrom_tagTokens (element : Element)
    (rest : List (Library.Tags.Token QString QString)) :
    receivedFrom none (element.tagTokens ++ rest) = element.tokens ++ receivedFrom none rest := by
  rw [Element.tagTokens, Library.Tags.element, Element.tokens]
  simp only [List.cons_append, List.append_assoc, List.nil_append]
  rw [receivedFrom, receivedFrom_attributes, receivedFrom, List.nil_append]
  split
  next empty =>
    rw [empty]
    rfl
  next =>
    rw [List.singleton_append, receivedFrom, receivedFrom]

/-- The two elements of an entry. -/
def LogEntry.elements (logged : LogEntry) : List Element :=
  [logged.msec, logged.event]

theorem receivedFrom_entries (entries : List LogEntry)
    (rest : List (Library.Tags.Token QString QString)) :
    receivedFrom none ((entries.map Markup.entry).flatMap Markup.tagTokens ++ rest) =
      (entries.flatMap LogEntry.elements).flatMap Element.tokens ++ receivedFrom none rest := by
  induction entries with
  | nil => rfl
  | cons logged entries ih =>
      rw [List.map_cons, List.flatMap_cons, Markup.tagTokens, LogEntry.tagTokens,
        List.append_assoc, List.append_assoc, receivedFrom_tagTokens, receivedFrom_tagTokens, ih]
      simp [LogEntry.elements]

/-- A log that is complete is read as a document of its entries. -/
theorem Markup.received_log (entries : List LogEntry) :
    Markup.received (Markup.log true entries ++ [Markup.documentEnd]) =
      hooqDocument (entries.flatMap LogEntry.elements) := by
  have pieces : (Markup.log true entries ++ [Markup.documentEnd]).flatMap Markup.tagTokens =
      [.declaration, .opening (QString.ofString "hooq"), .closing] ++
        ((entries.map Markup.entry).flatMap Markup.tagTokens ++
          [.ending (QString.ofString "hooq")]) := by
    simp [Markup.log, Markup.tagTokens]
  rw [Markup.received, pieces]
  simp only [List.cons_append, List.nil_append, receivedFrom]
  rw [receivedFrom_entries]
  rfl

theorem Markup.entries_log (ended : Bool) (entries : List LogEntry) :
    Markup.entries (Markup.log ended entries ++ [Markup.documentEnd]) = entries := by
  have kept : Markup.entries (entries.map Markup.entry) = entries := by
    rw [Markup.entries, List.filterMap_map]
    exact List.filterMap_some
  rw [Markup.log, Markup.entries_append, ← List.singleton_append, Markup.entries_append,
    Markup.entries_append, kept]
  cases ended <;> exact List.append_nil _

/-! ## What an account asks for -/

namespace Take

variable (isPrint : QChar → Bool) {keys : KeySequences} {Object : Type} [DecidableEq Object]
  (application : Application Object)

/-- What the player is to do for a take: wait, and then do what the user did. -/
def events {Sequence : Type} (take : Take Sequence) : List (Event Sequence) :=
  .new (.sleep (Int32.ofNat take.elapsed)) ::
    match take.record with
    | .event receiver qtEvent =>
        [.new ((qtEvent.printable isPrint).withoutScreen.task receiver.path)]
    | .dragAndDrop source sourcePoint target position =>
        ((application.findWidget target).map fun widget =>
          Player.dragSteps application source sourcePoint target position
            (application.mapToGlobal widget position)).getD []

theorem toInt_number_elapsed {elapsed : Nat} (timely : elapsed < 2 ^ 31) :
    (QString.number elapsed).toInt = Int32.ofNat elapsed := by
  have fits : (Int32.ofNat elapsed).toInt = elapsed := Int32.toInt_ofNat_of_lt timely
  have read := QString.toInt_number (Int32.ofNat elapsed)
  rwa [fits] at read

/-- The element of an event is read as the event, without its place on the screen. -/
theorem decode_record {receiver : Receiver} {qtEvent : QtEvent keys.Sequence}
    {element : Element} (recorded : Logger.record isPrint keys receiver qtEvent = some element) :
    Player.decode keys application element =
      some [.new ((qtEvent.printable isPrint).withoutScreen.task receiver.path)] := by
  have numbers (value : Int32) : (intText value).toInt = value := QString.toInt_number value
  have single {posted expected : Event keys.Sequence} (same : posted = expected) :
      some [posted] = some [expected] := by rw [same]
  cases qtEvent with
  | close =>
      cases recorded
      rfl
  | contextMenu reason position globalPosition modifiers =>
      cases recorded
      change some [Event.new (.object receiver.path (.contextMenu (intText reason).toInt
        ⟨(intText position.x).toInt, (intText position.y).toInt⟩
        ⟨(intText globalPosition.x).toInt, (intText globalPosition.y).toInt⟩
        (intText modifiers).toInt))] = _
      simp only [numbers]
      rfl
  | drop position => cases recorded
  | focusIn reason =>
      cases recorded
      change some [Event.new (.focus receiver.path (intText reason).toInt)] = _
      rw [numbers]
      rfl
  | key action code modifiers text autoRepeat count =>
      have posted := Player.postKeyEvent_keyEventAttributes isPrint keys action receiver code
        modifiers text autoRepeat count
      cases action <;>
        · cases recorded
          exact single posted
  | mouse action position globalPosition button buttons modifiers =>
      have posted := Player.postMouseEvent_mouseEventAttributes keys action receiver position
        button buttons modifiers
      cases action <;>
        · cases recorded
          exact single posted
  | shortcut sequence id ambiguous =>
      cases recorded
      change some [Event.new (.object receiver.path (.shortcut
        (keys.fromText (keys.toText sequence)) (intText id).toInt
        (boolText ambiguous = QString.ofString "true")))] = _
      rw [keys.fromText_toText, numbers]
      simp only [boolText_eq_true, Bool.decide_eq_true]
      rfl
  | wheel position delta buttons modifiers orientation =>
      cases recorded
      cases orientation <;>
        · change some [Event.new (.object receiver.path (.wheel
            ⟨(intText position.x).toInt, (intText position.y).toInt⟩ (intText delta).toInt
            (intText buttons).toInt (intText modifiers).toInt _))] = _
          simp only [numbers]
          rfl

/-- The two elements of a take are read as what the player is to do for it. -/
theorem decode_entry {take : Take keys.Sequence} (timely : take.elapsed < 2 ^ 31)
    {logged : LogEntry} (isEntry : take.entry isPrint keys = some logged) :
    logged.elements.flatMap (Player.elementEntries keys application) =
      take.events isPrint application := by
  obtain ⟨elapsed, record⟩ := take
  obtain ⟨element, recorded, rfl⟩ := Option.map_eq_some_iff.mp isEntry
  have waits : Player.elementEntries keys application (Logger.entryOf elapsed element).msec =
      [.new (.sleep (Int32.ofNat elapsed))] := by
    rw [← toInt_number_elapsed timely]
    rfl
  have acts : Player.elementEntries keys application element =
      (Take.events isPrint application ⟨elapsed, record⟩).tail := by
    cases record with
    | event receiver qtEvent =>
        rw [Player.elementEntries, decode_record isPrint application recorded]
        rfl
    | dragAndDrop source sourcePoint target position =>
        cases recorded
        change ((application.findWidget target).map fun widget =>
          (Player.dragSteps application source
            ⟨(intText sourcePoint.x).toInt, (intText sourcePoint.y).toInt⟩ target
            ⟨(intText position.x).toInt, (intText position.y).toInt⟩
            (application.mapToGlobal widget
              ⟨(intText position.x).toInt, (intText position.y).toInt⟩) :
            List (Event keys.Sequence))).getD [] = _
        simp only [intText, QString.toInt_number]
        rfl
  rw [LogEntry.elements, List.flatMap_cons, waits, List.flatMap_singleton]
  change _ :: Player.elementEntries keys application element = _
  rw [acts]
  rfl

/-- What is done for a take waits for no negative time. -/
theorem sleeps_in_time {take : Take keys.Sequence} (timely : take.elapsed < 2 ^ 31)
    (patient : ¬application.startDragTime + 1 < 0) {event : Event keys.Sequence}
    (member : event ∈ take.events isPrint application) {msec : Int32}
    (sleeps : event.task = .sleep msec) : ¬msec < 0 := by
  rcases List.mem_cons.mp member with rfl | member
  · cases sleeps
    have natural : (Int32.ofNat take.elapsed).toInt = take.elapsed :=
      Int32.toInt_ofNat_of_lt timely
    rw [Int32.lt_iff_toInt_lt, natural]
    exact not_lt_of_ge (Int.natCast_nonneg _)
  · cases shape : take.record with
    | event receiver qtEvent =>
        rw [shape, List.mem_singleton] at member
        subst member
        cases qtEvent with
        | key action => cases action <;> cases sleeps
        | mouse action => cases action <;> cases sleeps
        | _ => cases sleeps
    | dragAndDrop source sourcePoint target position =>
        rw [shape] at member
        dsimp only at member
        cases found : application.findWidget target with
        | none =>
            rw [found] at member
            cases member
        | some widget =>
            rw [found] at member
            change event ∈ Player.dragSteps application _ _ _ _ _ at member
            simp only [Player.dragSteps, List.mem_cons, List.not_mem_nil, or_false] at member
            rcases member with rfl | rfl | rfl | rfl | rfl | rfl | rfl | rfl | rfl | rfl | rfl
            case inr.inr.inr.inr.inr.inl =>
              cases sleeps
              exact patient
            all_goals cases sleeps

end Take

/-! ## A player at rest -/

namespace Player.History

section

variable {keys : KeySequences} {Object : Type} [DecidableEq Object]
  {application : Application Object}

/-- A document has arrived, and the player waits for nothing: no call of it is active, no
timer runs and no object is to be picked. -/
structure AtRest {Sequence : Type} (document : List Token)
    (history : Player.History Object Sequence) : Prop where
  arrived : history.arrived = document
  alive : history.player.failed = false
  stack : history.player.stack = []
  timers : history.player.timers = 0
  mode : history.player.mode = .playback

theorem caughtUp_foldl (ackNext : Bool) (occurrences : List (Occurrence Object)) :
    let final := occurrences.foldl (Player.History.next keys) (new ackNext)
    final.player.reader.Grounded ∧ final.player.CaughtUp := by
  induction occurrences using List.reverseRecOn with
  | nil => exact ⟨⟨nofun, nofun⟩, Player.caughtUp_new ackNext⟩
  | append_singleton occurrences last ih =>
      obtain ⟨grounded, caughtUp⟩ := ih
      rw [List.foldl_append, List.foldl_cons, List.foldl_nil]
      refine ⟨grounded_next grounded, ?_⟩
      cases (occurrences.foldl (Player.History.next keys) (new ackNext)).player.occurs last with
      | refused _ impossible => rwa [Player.History.next, if_neg impossible]
      | call _ allowed calls =>
          rw [next_call allowed calls]
          exact caughtUp.meet grounded allowed
      | run other allowed =>
          rw [next_run allowed]
          exact caughtUp.meet grounded allowed

theorem arrived_foldl (history : Player.History Object keys.Sequence)
    (occurrences : List (Occurrence Object)) :
    history.arrived <+: (occurrences.foldl (Player.History.next keys) history).arrived := by
  induction occurrences generalizing history with
  | nil => exact List.prefix_rfl
  | cons first rest ih => exact (history.arrived_next first).trans (ih _)

/-- As long as enough of each text is there when it is read, the queue is on its way to
that of the whole document. -/
theorem follows_foldl {document : List Token} {ackNext : Bool}
    {occurrences : List (Occurrence Object)}
    (drops : StepsMeet (Player.History.next keys) (DropsLike keys application) (new ackNext)
      occurrences)
    (reads : StepsMeet (Player.History.next keys) (ReadsAlike document) (new ackNext)
      occurrences) :
    Follows keys application document
      (occurrences.foldl (Player.History.next keys) (new ackNext)) := by
  rcases follows_or_strays (Player.History.next keys) (ReadsAlike document)
    (Follows keys application document) (Strays keys application document)
    (DropsLike keys application) (new ackNext)
    (fun _ _ alike follows reads => follows.next alike reads)
    (fun _ _ alike follows misreads => follows.strays alike misreads)
    (fun _ _ alike strays => strays.next alike) (follows_new ackNext) occurrences drops with
    ⟨-, follows⟩ | ⟨misses, -⟩
  · exact follows
  · exact absurd reads misses

/-- A player that executes a document without a negative sleep never sleeps for one. -/
theorem sleepsInTime_foldl {document : List Token} {ackNext : Bool}
    {occurrences : List (Occurrence Object)}
    (drops : StepsMeet (Player.History.next keys) (DropsLike keys application) (new ackNext)
      occurrences)
    (reads : StepsMeet (Player.History.next keys) (ReadsAlike document) (new ackNext)
      occurrences)
    (arrives : (occurrences.foldl (Player.History.next keys) (new ackNext)).arrived <+: document)
    (patient : ∀ event ∈ entries keys application (elementsFrom 0 none document), ∀ msec,
      event.task = .sleep msec → ¬msec < 0) :
    StepsMeet (Player.History.next keys) SleepsInTime (new ackNext) occurrences := by
  intro before occurrence after shape
  cases occurrence with
  | run other =>
      intro allowed event isNext
      subst shape
      rw [List.foldl_append] at arrives
      have follows := follows_foldl drops.prefix reads.prefix
      have queues := (follows.queues ((arrived_foldl _ _).trans arrives)).resolve_left
        (by simp [allowed.1])
      apply patient event
      rw [← queues, enqueued]
      apply List.mem_append_left
      apply List.mem_append_right
      rw [Player.nextEvent] at isNext
      split at isNext
      · exact List.mem_of_mem_head? isNext
      · cases isNext
  | _ => trivial

theorem orderly_foldl {ackNext : Bool} {occurrences : List (Occurrence Object)}
    (inTime : StepsMeet (Player.History.next keys) SleepsInTime (new ackNext) occurrences) :
    (occurrences.foldl (Player.History.next keys) (new ackNext)).Orderly keys := by
  have kept : (occurrences.foldl (Player.History.next keys) (new ackNext)).player.Awake := by
    induction occurrences using List.reverseRecOn with
    | nil => exact awake_new ackNext
    | append_singleton occurrences last ih =>
        rw [List.foldl_append, List.foldl_cons, List.foldl_nil]
        exact (((consistent_foldl ackNext occurrences).next last).2 (ih inTime.prefix)).mpr
          inTime.last
  exact (consistent_foldl ackNext occurrences).orderly kept

/-- However a document arrived, a player that is at rest has executed what the document
asks for, all of it and nothing else. -/
theorem AtRest.executed {document : List Token} {ackNext : Bool}
    {occurrences : List (Occurrence Object)}
    (rests : AtRest document (occurrences.foldl (Player.History.next keys) (new ackNext)))
    (drops : StepsMeet (Player.History.next keys) (DropsLike keys application) (new ackNext)
      occurrences)
    (reads : StepsMeet (Player.History.next keys) (ReadsAlike document) (new ackNext)
      occurrences)
    (patient : ∀ event ∈ entries keys application (elementsFrom 0 none document), ∀ msec,
      event.task = .sleep msec → ¬msec < 0) :
    (occurrences.foldl (Player.History.next keys) (new ackNext)).executed.map Execution.event =
      entries keys application (elementsFrom 0 none document) := by
  have arrives : (occurrences.foldl (Player.History.next keys) (new ackNext)).arrived <+:
      document := rests.arrived ▸ List.prefix_rfl
  have orderly := orderly_foldl (sleepsInTime_foldl drops reads arrives patient)
  have empty : (occurrences.foldl (Player.History.next keys)
      (new ackNext)).player.eventQueue = [] := by
    by_contra pending
    rcases orderly.waits rests.alive rests.stack pending with ⟨waits, -⟩ | ⟨-, picks⟩
    · exact absurd (rests.timers.symm.trans waits) (by decide)
    · exact absurd (rests.mode.symm.trans picks) (by decide)
  have nothing : (occurrences.foldl (Player.History.next keys) (new ackNext)).player.ahead
      ((occurrences.foldl (Player.History.next keys) (new ackNext)).missing document) = [] := by
    rw [missing, rests.arrived, List.drop_length]
    apply (caughtUp_foldl ackNext occurrences).2.idle rests.alive
    rw [IsReading, rests.stack]
    simp
  have queues := ((follows_foldl drops reads).queues arrives).resolve_left
    (by simp [rests.alive])
  rw [nothing, enqueued, empty, List.append_nil] at queues
  exact (List.append_nil _).symm.trans queues

end

end Player.History

/-! ## From the recorder to the player -/

namespace Logger

section

variable {Object : Type} [DecidableEq Object] (isPrint : QChar → Bool) (keys : KeySequences)
  (lastEvent : EventType) (origin : Option Object) (originPoint : Point)
  (inputs : List (Input Object keys.Sequence))

/-- What a player reads of the file that a recorder leaves behind. -/
def recorded : List Token :=
  Markup.received
    (inputs.foldl (Logger.step isPrint keys) (new lastEvent origin originPoint)).destroy.device

variable {isPrint keys lastEvent origin originPoint inputs}

theorem holds_foldl
    (keeps : StepsMeet (Logger.step isPrint keys) KeepsStartTag
      (new lastEvent origin originPoint) inputs) :
    ∃ entries, (inputs.foldl (Logger.step isPrint keys)
      (new lastEvent origin originPoint)).Holds true entries := by
  induction inputs using List.reverseRecOn with
  | nil => exact ⟨[], holds_new lastEvent origin originPoint⟩
  | append_singleton inputs last ih =>
      obtain ⟨entries, holds⟩ := ih keeps.prefix
      rw [List.foldl_append]
      exact holds.step isPrint keys last fun _ => keeps.last

theorem follows_foldl
    (finds : ∀ before input after, inputs = before ++ input :: after →
      FindsBuffer (before.foldl (Logger.step isPrint keys) (new lastEvent origin originPoint))
        (before.foldl (History.step isPrint keys) (History.new origin originPoint)) input) :
    (inputs.foldl (Logger.step isPrint keys) (new lastEvent origin originPoint)).Follows
      (inputs.foldl (History.step isPrint keys) (History.new origin originPoint)) := by
  induction inputs using List.reverseRecOn with
  | nil => exact follows_new lastEvent origin originPoint
  | append_singleton inputs last ih =>
      have front := ih fun before input after shape =>
        finds before input (after ++ [last]) (by rw [shape, List.append_assoc, List.cons_append])
      rw [List.foldl_append, List.foldl_append]
      exact front.step isPrint keys last (finds inputs last [] rfl)

/-- What a recorder leaves behind is the log of what the user did, if it keeps its start
tag. -/
theorem device_eq
    (finds : ∀ before input after, inputs = before ++ input :: after →
      FindsBuffer (before.foldl (Logger.step isPrint keys) (new lastEvent origin originPoint))
        (before.foldl (History.step isPrint keys) (History.new origin originPoint)) input)
    (keeps : StepsMeet (Logger.step isPrint keys) KeepsStartTag
      (new lastEvent origin originPoint) inputs) :
    (inputs.foldl (Logger.step isPrint keys)
        (new lastEvent origin originPoint)).destroy.device =
      Markup.log true (inputs.foldl (History.step isPrint keys)
        (History.new origin originPoint)).entries ++ [Markup.documentEnd] := by
  obtain ⟨entries, holds⟩ := holds_foldl keeps
  have follows := follows_foldl finds
  have same := (entries_destroy _).trans follows.placed.entries_eq
  rw [holds.destroy, Markup.entries_log] at same
  rw [holds.destroy, same]

/-- A file with its start tag and what the user did is read as a document of the takes. -/
theorem recorded_eq
    (finds : ∀ before input after, inputs = before ++ input :: after →
      FindsBuffer (before.foldl (Logger.step isPrint keys) (new lastEvent origin originPoint))
        (before.foldl (History.step isPrint keys) (History.new origin originPoint)) input)
    (keeps : StepsMeet (Logger.step isPrint keys) KeepsStartTag
      (new lastEvent origin originPoint) inputs) :
    recorded isPrint keys lastEvent origin originPoint inputs =
      hooqDocument ((inputs.foldl (History.step isPrint keys)
        (History.new origin originPoint)).entries.flatMap LogEntry.elements) := by
  rw [recorded, device_eq finds keeps, Markup.received_log]

/-- The elements of the log that an account tells are decoded as what its takes ask
for. -/
theorem decode_entries (application : Application Object) {entries : List LogEntry}
    {takes : List (Take keys.Sequence)}
    (tells : entries.map some = takes.map (Take.entry isPrint keys))
    (timely : ∀ take ∈ takes, take.elapsed < 2 ^ 31) :
    (entries.flatMap LogEntry.elements).flatMap (Player.elementEntries keys application) =
      takes.flatMap (Take.events isPrint application) := by
  induction takes generalizing entries with
  | nil =>
      rw [List.map_eq_nil_iff.mp tells]
      rfl
  | cons take takes ih =>
      cases entries with
      | nil => cases tells
      | cons logged entries =>
          rw [List.map_cons, List.map_cons, List.cons.injEq] at tells
          rw [List.forall_mem_cons] at timely
          rw [List.flatMap_cons, List.flatMap_append, List.flatMap_cons,
            Take.decode_entry isPrint application timely.1 tells.1.symm, ih tells.2 timely.2]

/-- The file asks for what the takes ask for. -/
theorem entries_recorded (timely : ∀ input ∈ inputs, IsTimely input)
    (finds : ∀ before input after, inputs = before ++ input :: after →
      FindsBuffer (before.foldl (Logger.step isPrint keys) (new lastEvent origin originPoint))
        (before.foldl (History.step isPrint keys) (History.new origin originPoint)) input)
    (keeps : StepsMeet (Logger.step isPrint keys) KeepsStartTag
      (new lastEvent origin originPoint) inputs) {application : Application Object} :
    Player.History.entries keys application
        (elementsFrom 0 none (recorded isPrint keys lastEvent origin originPoint inputs)) =
      (inputs.foldl Account.step (Account.new origin originPoint)).takes.flatMap
        (Take.events isPrint application) := by
  have tells := @Account.tells_foldl _ _ isPrint _ origin originPoint inputs
  have within := @Account.timely_foldl _ _ _ origin originPoint _ timely
  rw [recorded_eq finds keeps, entries_hooqDocument,
    decode_entries application tells.entries within]

/-- The file asks for no negative sleep. -/
theorem sleeps_recorded (timely : ∀ input ∈ inputs, IsTimely input)
    (finds : ∀ before input after, inputs = before ++ input :: after →
      FindsBuffer (before.foldl (Logger.step isPrint keys) (new lastEvent origin originPoint))
        (before.foldl (History.step isPrint keys) (History.new origin originPoint)) input)
    (keeps : StepsMeet (Logger.step isPrint keys) KeepsStartTag
      (new lastEvent origin originPoint) inputs) {application : Application Object}
    (patient : ¬application.startDragTime + 1 < 0) :
    ∀ event ∈ Player.History.entries keys application
        (elementsFrom 0 none (recorded isPrint keys lastEvent origin originPoint inputs)),
      ∀ msec, event.task = .sleep msec → ¬msec < 0 := by
  have within := @Account.timely_foldl _ _ _ origin originPoint _ timely
  intro event member msec sleeps
  rw [entries_recorded timely finds keeps] at member
  obtain ⟨take, isTake, member⟩ := List.mem_flatMap.mp member
  exact Take.sleeps_in_time isPrint application (within take isTake) patient member sleeps

end

open Player.History in
/-- What a recorder has heard is what a player has executed once it is at rest: for every
event that counts the player has waited as long as the user had, and then done what the
user did, also for a drag. -/
theorem executed_recorded (isPrint : QChar → Bool) {keys : KeySequences} {Object : Type}
    [DecidableEq Object] (lastEvent : EventType) (origin : Option Object) (originPoint : Point)
    (inputs : List (Input Object keys.Sequence)) (timely : ∀ input ∈ inputs, IsTimely input)
    (finds : ∀ before input after, inputs = before ++ input :: after →
      FindsBuffer (before.foldl (Logger.step isPrint keys) (new lastEvent origin originPoint))
        (before.foldl (History.step isPrint keys) (History.new origin originPoint)) input)
    (keeps : StepsMeet (Logger.step isPrint keys) KeepsStartTag
      (new lastEvent origin originPoint) inputs)
    (application : Application Object) (patient : ¬application.startDragTime + 1 < 0)
    (ackNext : Bool) (occurrences : List (Occurrence Object))
    (drops : StepsMeet (Player.History.next keys) (DropsLike keys application)
      (Player.History.new ackNext) occurrences)
    (reads : StepsMeet (Player.History.next keys)
      (ReadsAlike (recorded isPrint keys lastEvent origin originPoint inputs))
      (Player.History.new ackNext) occurrences)
    (rests : AtRest (recorded isPrint keys lastEvent origin originPoint inputs)
      (occurrences.foldl (Player.History.next keys) (Player.History.new ackNext))) :
    (occurrences.foldl (Player.History.next keys)
        (Player.History.new ackNext)).executed.map Execution.event =
      (inputs.foldl Account.step (Account.new origin originPoint)).takes.flatMap
        (Take.events isPrint application) := by
  rw [rests.executed drops reads (sleeps_recorded timely finds keeps patient),
    entries_recorded timely finds keeps]

/-! ## A key and a drag -/

instance {Object Sequence : Type} [DecidableEq Object] (logger : Logger Object)
    (history : History Object) :
    (input : Input Object Sequence) → Decidable (FindsBuffer logger history input)
  | .event _ _ _ (.known (.mouse .press _ _ _ _ _)) =>
      inferInstanceAs (Decidable (history.canaryPending = false →
        logger.writer = .dragAndDropBuffer → logger.lastEvent = .mouseButtonRelease))
  | .event _ _ _ (.known (.drop _)) =>
      inferInstanceAs (Decidable (history.released = true → history.groupStart ≠ none →
        logger.writer = .dragAndDropBuffer))
  | .event _ _ _ (.known (.mouse .release _ _ _ _ _))
  | .event _ _ _ (.known (.mouse .move _ _ _ _ _))
  | .event _ _ _ (.known (.mouse .doubleClick _ _ _ _ _))
  | .event _ _ _ (.known .close) | .event _ _ _ (.known (.contextMenu _ _ _ _))
  | .event _ _ _ (.known (.focusIn _)) | .event _ _ _ (.known (.key _ _ _ _ _ _))
  | .event _ _ _ (.known (.shortcut _ _ _)) | .event _ _ _ (.known (.wheel _ _ _ _ _))
  | .event _ _ _ (.other _) | .canary => isTrue trivial

instance {Object Sequence : Type} [DecidableEq Object] (logger : Logger Object) :
    (input : Input Object Sequence) → Decidable (Discards logger input)
  | .event _ _ _ (.known (.mouse .press _ _ _ _ _)) =>
      inferInstanceAs (Decidable (logger.ignoreEvents = false ∧
        logger.writer = .dragAndDropBuffer ∧ logger.lastEvent ≠ .mouseButtonRelease))
  | .event _ _ _ (.known (.drop _)) =>
      inferInstanceAs (Decidable (logger.writer = .dragAndDropBuffer ∧
        logger.lastEvent = .mouseButtonRelease))
  | .event _ _ _ (.known (.mouse .release _ _ _ _ _))
  | .event _ _ _ (.known (.mouse .move _ _ _ _ _))
  | .event _ _ _ (.known (.mouse .doubleClick _ _ _ _ _))
  | .event _ _ _ (.known .close) | .event _ _ _ (.known (.contextMenu _ _ _ _))
  | .event _ _ _ (.known (.focusIn _)) | .event _ _ _ (.known (.key _ _ _ _ _ _))
  | .event _ _ _ (.known (.shortcut _ _ _)) | .event _ _ _ (.known (.wheel _ _ _ _ _))
  | .event _ _ _ (.other _) | .canary => isFalse id

instance {Object Sequence : Type} [DecidableEq Object] (logger : Logger Object)
    (input : Input Object Sequence) : Decidable (KeepsStartTag logger input) :=
  inferInstanceAs (Decidable (_ → _))

/-- A key is pressed at a button, and the button is dragged. -/
def keyAndDrag : List (Input (Fin 3) plainSequences.Sequence) :=
  [.event ⟨ObjectTree.buttonWindow, fun _ => none⟩ 10 ObjectTree.firstButton
      (.known (.key .press 65 0 "a" false 1)), .canary] ++ firstDrag

/-- Their file, as a player reads it. -/
def keyAndDragFile : List Token :=
  recorded (fun _ => true) plainSequences (.other 0) none ⟨0, 0⟩ keyAndDrag

/-- The file arrives, and the player goes on until it is at rest. -/
def keyAndDragRun : List (Occurrence (Fin 3)) :=
  List.replicate 3 (.run buttonApplication) ++ [.readyRead keyAndDragFile] ++
    (List.replicate 30 [.run buttonApplication, .endFlush, .waitFinished]).flatten

theorem keyAndDrag_findsBuffer :
    ∀ before input after, keyAndDrag = before ++ input :: after →
      FindsBuffer (before.foldl (Logger.step (fun _ => true) plainSequences)
          (new (.other 0) none ⟨0, 0⟩))
        (before.foldl (History.step (fun _ => true) plainSequences) (History.new none ⟨0, 0⟩))
        input := by
  have meets : StepsMeet
      (fun (both : Logger (Fin 3) × History (Fin 3)) input =>
        (both.1.step (fun _ => true) plainSequences input,
          both.2.step (fun _ => true) plainSequences input))
      (fun both input => FindsBuffer both.1 both.2 input)
      (new (.other 0) none ⟨0, 0⟩, History.new none ⟨0, 0⟩) keyAndDrag := by
    decide +kernel
  intro before input after shape
  have met := meets before input after shape
  rwa [foldl_prod] at met

theorem keyAndDragRun_readsAlike :
    StepsMeet (Player.History.next plainSequences)
      (Player.History.ReadsAlike keyAndDragFile) (Player.History.new true) keyAndDragRun := by
  apply Player.History.readsAlike_of_atOnce
  decide +kernel

theorem keyAndDragRun_dropsLike :
    StepsMeet (Player.History.next plainSequences)
      (Player.History.DropsLike plainSequences buttonApplication) (Player.History.new true)
      keyAndDragRun := by
  intro before occurrence after shape
  have member : occurrence ∈ keyAndDragRun := by simp [shape]
  cases occurrence with
  | run other =>
      have same : other = buttonApplication := by
        simpa [keyAndDragRun, List.mem_replicate] using member
      rw [same]
      exact fun _ _ _ _ => rfl
  | _ => trivial

theorem keyAndDragRun_atRest :
    Player.History.AtRest keyAndDragFile (Player.History.historyOf keyAndDragRun) := by
  have rests : (Player.History.historyOf keyAndDragRun).arrived = keyAndDragFile ∧
      (Player.History.historyOf keyAndDragRun).player.failed = false ∧
      (Player.History.historyOf keyAndDragRun).player.stack = [] ∧
      (Player.History.historyOf keyAndDragRun).player.timers = 0 ∧
      (Player.History.historyOf keyAndDragRun).player.mode = .playback := by
    decide +kernel
  exact ⟨rests.1, rests.2.1, rests.2.2.1, rests.2.2.2.1, rests.2.2.2.2⟩

/-- The player has executed the key and the steps of the drag, each behind its sleep. -/
theorem keyAndDrag_executed :
    (Player.History.historyOf keyAndDragRun).executed.map Execution.event =
      (keyAndDrag.foldl Account.step (Account.new none ⟨0, 0⟩)).takes.flatMap
        (Take.events (fun _ => true) buttonApplication) :=
  executed_recorded (fun _ => true) (.other 0) none ⟨0, 0⟩ keyAndDrag
    (by decide) keyAndDrag_findsBuffer (by decide +kernel) buttonApplication (by decide) true
    keyAndDragRun keyAndDragRun_dropsLike keyAndDragRun_readsAlike keyAndDragRun_atRest

end Logger

end Hooq
