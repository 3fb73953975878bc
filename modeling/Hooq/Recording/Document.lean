import Hooq.Library.Tags
import Hooq.Recording.DragBuffer

/-!
# The document on the device

The device is to hold one document: a start tag, the records, and an end tag.  The
bracket that closes the start tag is written together with the first record, to
whichever device the writer has then.  If that is the buffer, and the buffer is
discarded, the start tag stays open for good.
-/

namespace Hooq

open Library.Run Library.Tags

/-! ## Tokens -/

/-- What `QXmlStreamWriter` leaves of an element, without the white space between
elements. -/
def Element.tagTokens (element : Element) : List (Library.Tags.Token QString QString) :=
  Library.Tags.element element.name element.attributes
    (if element.text = [] then [] else [.text element.text])

def LogEntry.tagTokens (logged : LogEntry) : List (Library.Tags.Token QString QString) :=
  logged.msec.tagTokens ++ logged.event.tagTokens

def Markup.tagTokens : Markup → List (Library.Tags.Token QString QString)
  | .startTag => [.declaration, .opening "hooq"]
  | .startTagEnd => [.closing]
  | .entry logged => logged.tagTokens
  | .documentEnd => [.ending "hooq"]

/-- No attribute is given twice. -/
structure LogEntry.IsSound (logged : LogEntry) : Prop where
  msec : (logged.msec.attributes.map Prod.fst).Nodup
  event : (logged.event.attributes.map Prod.fst).Nodup

theorem Element.read_tagTokens (above : QString) (outer : List QString) {element : Element}
    (distinct : (element.attributes.map Prod.fst).Nodup) :
    (Reading.content above outer).read element.tagTokens = .content above outer := by
  apply Reading.read_element above outer element.name distinct
  split <;> rfl

/-- An element cannot begin in a start tag. -/
theorem Element.read_startTag (name : QString) (outer seen : List QString) (element : Element)
    (rest : List (Library.Tags.Token QString QString)) :
    (Reading.startTag name outer seen).read (element.tagTokens ++ rest) = .malformed :=
  Reading.read_malformed _

theorem LogEntry.read_tagTokens (above : QString) (outer : List QString) {logged : LogEntry}
    (sound : logged.IsSound) :
    (Reading.content above outer).read logged.tagTokens = .content above outer := by
  rw [LogEntry.tagTokens, Reading.read_append, Element.read_tagTokens above outer sound.msec,
    Element.read_tagTokens above outer sound.event]

/-- A start tag, its bracket if that is there, and records behind it. -/
def Markup.log (ended : Bool) (entries : List LogEntry) : List Markup :=
  .startTag :: ((if ended then [.startTagEnd] else []) ++ entries.map .entry)

theorem Markup.read_log (ended : Bool) (entries : List LogEntry) (rest : List Markup) :
    Reading.start.read ((log ended entries ++ rest).flatMap tagTokens) =
      (Reading.startTag (QString.ofString "hooq") [] []).read
        (((if ended then [.startTagEnd] else []) ++ (entries.map .entry ++ rest) :
          List Markup).flatMap tagTokens) := by
  rw [log, List.cons_append, List.append_assoc]
  rfl

/-- With the end tag behind it a log is a document exactly if the bracket is there. -/
theorem Markup.isDocument_log_iff (ended : Bool) {entries : List LogEntry}
    (sound : ∀ logged ∈ entries, logged.IsSound) :
    IsDocument ((log ended entries ++ [Markup.documentEnd]).flatMap tagTokens) ↔ ended = true := by
  rw [IsDocument, read_log]
  cases ended with
  | true =>
      have records : (Reading.content (QString.ofString "hooq") []).read
          ((entries.map Markup.entry).flatMap tagTokens) = .content "hooq" [] := by
        apply Reading.read_flatMap
        intro piece member
        rcases List.mem_map.mp member with ⟨logged, isLogged, rfl⟩
        exact LogEntry.read_tagTokens _ _ (sound logged isLogged)
      apply iff_of_true _ rfl
      change (Reading.content (QString.ofString "hooq") []).read
        ((entries.map Markup.entry ++ [Markup.documentEnd]).flatMap tagTokens) = _
      rw [List.flatMap_append, Reading.read_append, records]
      rfl
  | false =>
      apply iff_of_false _ Bool.false_ne_true
      cases entries with
      | nil =>
          intro document
          change (Reading.malformed : Reading QString) = .finished at document
          cases document
      | cons logged entries =>
          intro document
          change Reading.read _ (LogEntry.tagTokens logged ++ _) = _ at document
          rw [LogEntry.tagTokens, List.append_assoc, Element.read_startTag] at document
          cases document

/-! ## Records -/

namespace Logger

theorem isSound_outputEvent (receiver : Receiver) (event : QString) {attributes : Attributes}
    (names : List QString) (isNames : attributes.map Prod.fst = names)
    (distinct : (names ++ (["target", "targetClass", "originalTarget"] : List QString)).Nodup) :
    ((outputEvent receiver event attributes).attributes.map Prod.fst).Nodup := by
  apply List.Nodup.sublist _ distinct
  rw [outputEvent, ← isNames]
  simp only [List.map_append, List.append_assoc]
  apply List.Sublist.append (List.Sublist.refl _)
  cases receiver.original with
  | none => exact List.sublist_append_left _ [_]
  | some original => exact List.Sublist.refl _

theorem isSound_record {isPrint : QChar → Bool} {keys : KeySequences} {receiver : Receiver}
    {qtEvent : QtEvent keys.Sequence} {element : Element}
    (recorded : record isPrint keys receiver qtEvent = some element) :
    (element.attributes.map Prod.fst).Nodup := by
  cases qtEvent with
  | close =>
      cases recorded
      exact isSound_outputEvent receiver _ [] rfl (by decide)
  | contextMenu reason position globalPosition modifiers =>
      cases recorded
      exact isSound_outputEvent receiver _
        ["x", "y", "globalX", "globalY", "reason", "modifiers"] rfl (by decide)
  | drop position => cases recorded
  | focusIn reason =>
      cases recorded
      exact isSound_outputEvent receiver _ ["reason"] rfl (by decide)
  | key action =>
      cases action <;>
        · cases recorded
          exact isSound_outputEvent receiver _
            ["key", "modifiers", "text", "isAutoRepeat", "count"] rfl (by decide)
  | mouse action =>
      cases action <;>
        · cases recorded
          exact isSound_outputEvent receiver _ ["x", "y", "button", "buttons", "modifiers"] rfl
            (by decide)
  | shortcut sequence id ambiguous =>
      cases recorded
      exact isSound_outputEvent receiver _ ["string", "id", "ambiguous"] rfl (by decide)
  | wheel position delta buttons modifiers orientation =>
      cases recorded
      exact isSound_outputEvent receiver _
        ["x", "y", "delta", "buttons", "modifiers", "orientation"] rfl (by decide)

theorem isSound_dragAndDrop (elapsed : Nat) (source : QString) (sourcePoint : Point)
    (target : QString) (position : Point) :
    (entryOf elapsed (outputDragAndDropEvent source sourcePoint target position)).IsSound := by
  constructor
  · exact List.nodup_nil
  · have distinct : (["source", "sourceX", "sourceY", "target", "targetX", "targetY"] :
        List QString).Nodup := by decide
    exact distinct

theorem isSound_entryFor {Object : Type} [DecidableEq Object] {isPrint : QChar → Bool}
    {keys : KeySequences} {scene : Scene Object} {elapsed : Nat} {receiver : Object}
    {qtEvent : QtEvent keys.Sequence} {logged : LogEntry}
    (recorded : entryFor isPrint keys scene elapsed receiver qtEvent = some logged) :
    logged.IsSound := by
  rw [entryFor] at recorded
  rcases Option.bind_eq_some_iff.mp recorded with ⟨found, _, recorded⟩
  rcases Option.bind_eq_some_iff.mp recorded with ⟨element, isRecord, same⟩
  cases same
  exact ⟨List.nodup_nil, isSound_record isRecord⟩

/-! ## The state of a log -/

/-- The bracket that the writer still owes the start tag. -/
def pending (startTagOpen : Bool) : List Markup :=
  if startTagOpen then [.startTagEnd] else []

theorem behindStartTag_eq (startTagOpen : Bool) (piece : Markup) :
    Markup.behindStartTag startTagOpen piece = pending startTagOpen ++ [piece] := by
  cases startTagOpen <;> rfl

theorem log_concat (ended : Bool) (entries : List LogEntry) (logged : LogEntry) :
    Markup.log ended (entries ++ [logged]) = Markup.log ended entries ++ [Markup.entry logged] := by
  rw [Markup.log, Markup.log, List.map_append, List.cons_append, List.append_assoc]
  rfl

section

variable {Object : Type} {logger : Logger Object}

/-- The device, the buffer and what the writer owes make up a log. -/
structure Holds (logger : Logger Object) (ended : Bool) (entries : List LogEntry) : Prop where
  started : logger.device ≠ []
  unused : logger.writer = .socket → logger.dragAndDropBuffer = []
  closed : logger.writer = .dragAndDropBuffer → logger.startTagOpen = false
  pieces : logger.device ++ (logger.dragAndDropBuffer ++ pending logger.startTagOpen) =
    Markup.log ended entries
  sound : ∀ logged ∈ entries, logged.IsSound

theorem holds_new (lastEvent : EventType) (origin : Option Object) (originPoint : Point) :
    (new lastEvent origin originPoint).Holds true [] := by
  constructor
  · exact List.cons_ne_nil _ _
  · intro _
    rfl
  · nofun
  · rfl
  · intro logged impossible
    cases impossible

namespace Holds

variable {ended : Bool} {entries : List LogEntry}

theorem on_socket (holds : logger.Holds ended entries) (onSocket : logger.writer = .socket) :
    logger.device ++ pending logger.startTagOpen = Markup.log ended entries := by
  have pieces := holds.pieces
  rw [holds.unused onSocket] at pieces
  exact pieces

theorem on_buffer (holds : logger.Holds ended entries)
    (onBuffer : logger.writer = .dragAndDropBuffer) :
    logger.device ++ logger.dragAndDropBuffer = Markup.log ended entries := by
  have pieces := holds.pieces
  rw [holds.closed onBuffer] at pieces
  change logger.device ++ (logger.dragAndDropBuffer ++ []) = _ at pieces
  rw [List.append_nil] at pieces
  exact pieces

theorem sound_concat (holds : logger.Holds ended entries) {logged : LogEntry}
    (sound : logged.IsSound) : ∀ other ∈ entries ++ [logged], other.IsSound := by
  intro other member
  rcases List.mem_append.mp member with old | isNew
  · exact holds.sound other old
  · rw [List.mem_singleton.mp isNew]
    exact sound

/-- The other members do not matter. -/
theorem transport (holds : logger.Holds ended entries) {other : Logger Object}
    (startTagOpen : other.startTagOpen = logger.startTagOpen)
    (device : other.device = logger.device)
    (buffer : other.dragAndDropBuffer = logger.dragAndDropBuffer)
    (writer : other.writer = logger.writer) : other.Holds ended entries := by
  constructor
  · rw [device]
    exact holds.started
  · rw [writer, buffer]
    exact holds.unused
  · rw [writer, startTagOpen]
    exact holds.closed
  · rw [device, buffer, startTagOpen]
    exact holds.pieces
  · exact holds.sound

theorem write (holds : logger.Holds ended entries) {logged : LogEntry}
    (sound : logged.IsSound) :
    (logger.write (.entry logged)).Holds ended (entries ++ [logged]) := by
  cases target : logger.writer with
  | socket =>
      rw [write_of_socket target, behindStartTag_eq]
      constructor
      · exact List.append_ne_nil_of_left_ne_nil holds.started _
      · exact holds.unused
      · intro _
        rfl
      · change logger.device ++ (pending logger.startTagOpen ++ [Markup.entry logged]) ++
          (logger.dragAndDropBuffer ++ []) = _
        rw [holds.unused target, List.append_nil, List.append_nil, ← List.append_assoc,
          holds.on_socket target, log_concat]
      · exact holds.sound_concat sound
  | dragAndDropBuffer =>
      rw [write_of_buffer target, behindStartTag_eq, holds.closed target]
      constructor
      · exact holds.started
      · intro onSocket
        exact nomatch target.symm.trans onSocket
      · intro _
        rfl
      · change logger.device ++ ((logger.dragAndDropBuffer ++ [Markup.entry logged]) ++ []) = _
        rw [List.append_nil, ← List.append_assoc, holds.on_buffer target, log_concat]
      · exact holds.sound_concat sound

theorem flush (holds : logger.Holds ended entries) :
    logger.flushDragAndDropBuffer.stopDragAndDropBuffer.Holds ended entries := by
  constructor
  · exact List.append_ne_nil_of_left_ne_nil holds.started _
  · intro _
    rfl
  · nofun
  · change (logger.device ++ logger.dragAndDropBuffer) ++ pending logger.startTagOpen = _
    rw [List.append_assoc]
    exact holds.pieces
  · exact holds.sound

/-- Behind an event other than a drop nothing is lost. -/
theorem leave (holds : logger.Holds ended entries) {type : EventType} (notDrop : type ≠ .drop) :
    (logger.leaveDragAndDropBuffer type).Holds ended entries := by
  rw [leaveDragAndDropBuffer, if_neg notDrop]
  split
  · exact holds.flush
  · exact holds

/-- The device holds the front of the log, if the bracket has reached it. -/
theorem exists_device_eq (holds : logger.Holds ended entries)
    (onBuffer : logger.writer = .dragAndDropBuffer)
    (reached : ended = true → logger.device ≠ [.startTag]) :
    ∃ kept : List LogEntry, (∀ logged ∈ kept, logged.IsSound) ∧
      logger.device = Markup.log ended kept := by
  have front : ∀ {rest back : List Markup}, rest ++ back = entries.map Markup.entry →
      ∃ kept : List LogEntry, (∀ logged ∈ kept, logged.IsSound) ∧
        rest = kept.map Markup.entry := by
    intro rest back split
    rcases List.map_eq_append_iff.mp split.symm with ⟨kept, lost, whole, isRest, _⟩
    refine ⟨kept, ?_, isRest.symm⟩
    intro logged member
    apply holds.sound logged
    rw [whole]
    exact List.mem_append_left _ member
  have pieces := holds.on_buffer onBuffer
  cases shape : logger.device with
  | nil => exact absurd shape holds.started
  | cons first rest =>
      rw [shape, Markup.log, List.cons_append, List.cons.injEq] at pieces
      rcases pieces with ⟨isStart, pieces⟩
      rw [isStart]
      cases ended with
      | false =>
          rcases front pieces with ⟨kept, sound, isRest⟩
          exact ⟨kept, sound, by rw [isRest]; rfl⟩
      | true =>
          cases rest with
          | nil => exact absurd (by rw [shape, isStart]) (reached rfl)
          | cons second rest =>
              rw [if_pos rfl, List.singleton_append, List.cons_append, List.cons.injEq] at pieces
              rcases front pieces.2 with ⟨kept, sound, isRest⟩
              exact ⟨kept, sound, by rw [isRest, pieces.1]; rfl⟩

theorem stop_of_socket (holds : logger.Holds ended entries)
    (onSocket : logger.writer = .socket) : logger.stopDragAndDropBuffer.Holds ended entries :=
  holds.transport rfl rfl (holds.unused onSocket).symm onSocket.symm

/-- With the buffer given up, what is on the device is the log. -/
theorem stop_of_device {kept : List LogEntry} (closed : logger.startTagOpen = false)
    (device : logger.device = Markup.log ended kept) (sound : ∀ logged ∈ kept, logged.IsSound) :
    logger.stopDragAndDropBuffer.Holds ended kept := by
  constructor
  · change logger.device ≠ []
    rw [device]
    exact List.cons_ne_nil _ _
  · intro _
    rfl
  · nofun
  · change logger.device ++ ([] ++ pending logger.startTagOpen) = _
    rw [closed, device]
    exact List.append_nil _
  · exact sound

theorem beginDrag_of_socket (holds : logger.Holds ended entries)
    (onSocket : logger.writer = .socket) (receiver : Object) {logged : LogEntry}
    (sound : logged.IsSound) (position : Point) :
    (logger.beginDrag receiver logged position).Holds ended (entries ++ [logged]) := by
  rw [beginDrag_eq, behindStartTag_eq]
  constructor
  · exact holds.started
  · nofun
  · intro _
    rfl
  · change logger.device ++ ((pending logger.startTagOpen ++ [Markup.entry logged]) ++ []) = _
    rw [List.append_nil, ← List.append_assoc, holds.on_socket onSocket, log_concat]
  · exact holds.sound_concat sound

/-- A press throws away what the buffer holds. -/
theorem beginDrag_of_device {kept : List LogEntry} (closed : logger.startTagOpen = false)
    (device : logger.device = Markup.log ended kept) (receiver : Object) {logged : LogEntry}
    (sounds : ∀ other ∈ kept ++ [logged], other.IsSound) (position : Point) :
    (logger.beginDrag receiver logged position).Holds ended (kept ++ [logged]) := by
  rw [beginDrag_eq, behindStartTag_eq, closed]
  constructor
  · change logger.device ≠ []
    rw [device]
    exact List.cons_ne_nil _ _
  · nofun
  · intro _
    rfl
  · change logger.device ++ [Markup.entry logged] = _
    rw [device, log_concat]
  · exact sounds

theorem leave_drop (holds : logger.Holds ended entries)
    (reached : ended = true → logger.writer = .dragAndDropBuffer →
      logger.lastEvent = .mouseButtonRelease → logger.device ≠ [.startTag]) :
    ∃ kept, (logger.leaveDragAndDropBuffer .drop).Holds ended kept := by
  rw [leaveDragAndDropBuffer, if_pos rfl]
  split
  next released =>
    cases target : logger.writer with
    | socket => exact ⟨_, holds.stop_of_socket target⟩
    | dragAndDropBuffer =>
        rcases holds.exists_device_eq target fun isEnded => reached isEnded target released with
          ⟨kept, sound, device⟩
        exact ⟨kept, stop_of_device (holds.closed target) device sound⟩
  next => exact ⟨_, holds⟩

theorem endDrag (holds : logger.Holds ended entries) {logged : LogEntry}
    (sound : logged.IsSound) :
    (logger.endDrag logged).Holds ended (entries ++ [logged]) :=
  (holds.write sound).transport rfl rfl rfl rfl

theorem noteEvent (holds : logger.Holds ended entries) (type : EventType) :
    (logger.noteEvent type).Holds ended entries :=
  holds.transport rfl rfl rfl rfl

/-- Destruction ends the log. -/
theorem destroy (holds : logger.Holds ended entries) :
    logger.destroy.device = Markup.log ended entries ++ [Markup.documentEnd] := by
  rw [Logger.destroy]
  cases target : logger.writer with
  | socket =>
      rw [write_of_socket target, behindStartTag_eq]
      change logger.device ++ (pending logger.startTagOpen ++ [Markup.documentEnd]) ++
        logger.dragAndDropBuffer = _
      rw [holds.unused target, List.append_nil, ← List.append_assoc, holds.on_socket target]
  | dragAndDropBuffer =>
      rw [write_of_buffer target, behindStartTag_eq]
      change logger.device ++ (logger.dragAndDropBuffer ++
        (pending logger.startTagOpen ++ [Markup.documentEnd])) = _
      rw [← List.append_assoc logger.dragAndDropBuffer, ← List.append_assoc, holds.pieces]

end Holds

end

/-! ## Steps -/

/-- The step throws away the buffer while it is in use: a drop directly behind a button
release, or another press that is not directly behind one. -/
def Discards {Object Sequence : Type} [DecidableEq Object] (logger : Logger Object) :
    Input Object Sequence → Prop
  | .event _ _ _ (.known (.mouse .press _ _ _ _ _)) =>
      logger.ignoreEvents = false ∧ logger.writer = .dragAndDropBuffer ∧
        logger.lastEvent ≠ .mouseButtonRelease
  | .event _ _ _ (.known (.drop _)) =>
      logger.writer = .dragAndDropBuffer ∧ logger.lastEvent = .mouseButtonRelease
  | _ => False

/-- The buffer is not thrown away while nothing is behind the start tag on the device. -/
def KeepsStartTag {Object Sequence : Type} [DecidableEq Object] (logger : Logger Object)
    (input : Input Object Sequence) : Prop :=
  logger.Discards input → logger.device ≠ [.startTag]

section

variable {Object : Type} [DecidableEq Object] (isPrint : QChar → Bool) (keys : KeySequences)
  {logger : Logger Object} {ended : Bool} {entries : List LogEntry}

theorem Holds.logEvent (holds : logger.Holds ended entries) (scene : Scene Object)
    (elapsed : Nat) (receiver : Object) (qtEvent : QtEvent keys.Sequence) :
    ∃ kept, (logger.logEvent isPrint keys scene elapsed receiver qtEvent).Holds ended kept := by
  rw [Logger.logEvent]
  split
  next logged recorded => exact ⟨_, holds.write (isSound_entryFor recorded)⟩
  next => exact ⟨_, holds⟩

/-- A step keeps a log.  If the bracket is to stay in it, the step must not throw it
away. -/
theorem Holds.step (holds : logger.Holds ended entries) (input : Input Object keys.Sequence)
    (keeps : ended = true → logger.KeepsStartTag input) :
    ∃ kept, (logger.step isPrint keys input).Holds ended kept := by
  cases input with
  | canary =>
      refine ⟨entries, ?_⟩
      rw [Logger.step, deliverCanary]
      split
      · exact holds
      · exact holds.transport rfl rfl rfl rfl
  | event scene elapsed receiver event =>
      have heardOr := Bool.eq_false_or_eq_true logger.ignoreEvents
      induction event using event_cases with
      | drop position =>
          rw [Logger.step, eventFilter_drop]
          rcases holds.leave_drop fun isEnded target released =>
            keeps isEnded ⟨target, released⟩ with ⟨kept, left⟩
          exact ⟨_, left.endDrag (isSound_dragAndDrop _ _ _ _ _)⟩
      | press position globalPosition button buttons modifiers =>
          rw [Logger.step]
          rcases heardOr with ignored | heard
          · rw [eventFilter_ignored _ _ _ _ _ _ _ ignored (by simp [AppEvent.type])]
            exact ⟨entries, holds⟩
          · rcases logger.eventFilter_press isPrint keys scene elapsed receiver position
              globalPosition button buttons modifiers heard with ⟨logged, recorded, filtered⟩
            rw [filtered]
            have left := holds.leave (show EventType.mouseButtonPress ≠ .drop by decide)
            have sound := isSound_entryFor recorded
            cases target : (logger.leaveDragAndDropBuffer .mouseButtonPress).writer with
            | socket => exact ⟨_, left.beginDrag_of_socket target receiver sound position⟩
            | dragAndDropBuffer =>
                have stayed := leaveDragAndDropBuffer_of_buffer target
                rw [stayed.2] at target left ⊢
                rcases left.exists_device_eq target fun isEnded =>
                  keeps isEnded ⟨heard, target, stayed.1⟩ with ⟨kept, sounds, device⟩
                refine ⟨_, beginDrag_of_device (left.closed target) device receiver ?_ position⟩
                intro other member
                rcases List.mem_append.mp member with old | isNew
                · exact sounds other old
                · rw [List.mem_singleton.mp isNew]
                  exact sound
      | ordinary qtEvent ordinary =>
          rw [Logger.step]
          rcases heardOr with ignored | heard
          · rw [eventFilter_ignored _ _ _ _ _ _ _ ignored ordinary.1]
            exact ⟨entries, holds⟩
          · rw [eventFilter_ordinary _ _ _ _ _ _ _ ordinary heard]
            rcases (holds.leave ordinary.1).logEvent isPrint keys scene elapsed receiver qtEvent
              with ⟨kept, logged⟩
            exact ⟨kept, logged.noteEvent _⟩
      | other type =>
          rw [Logger.step]
          rcases heardOr with ignored | heard
          · rw [eventFilter_ignored _ _ _ _ _ _ _ ignored (by simp [AppEvent.type])]
            exact ⟨entries, holds⟩
          · rw [eventFilter_other _ _ _ _ _ _ _ heard]
            exact ⟨entries, (holds.leave (by simp)).noteEvent _⟩

/-- A step that throws the bracket away leaves a log without it. -/
theorem Holds.cut (holds : logger.Holds true entries) (input : Input Object keys.Sequence)
    (loses : ¬logger.KeepsStartTag input) :
    ∃ kept, (logger.step isPrint keys input).Holds false kept := by
  rw [KeepsStartTag, Classical.not_imp, not_not] at loses
  rcases loses with ⟨discards, device⟩
  have device : logger.device = Markup.log false [] := device
  cases input with
  | canary => cases discards
  | event scene elapsed receiver event =>
      induction event using event_cases with
      | drop position =>
          rcases discards with ⟨target, released⟩
          rw [Logger.step, eventFilter_drop, leaveDragAndDropBuffer, if_pos released, if_pos rfl]
          have stopped : logger.stopDragAndDropBuffer.Holds false [] :=
            stop_of_device (holds.closed target) device (List.forall_mem_nil _)
          exact ⟨_, stopped.endDrag (isSound_dragAndDrop _ _ _ _ _)⟩
      | press position globalPosition button buttons modifiers =>
          rcases discards with ⟨heard, target, notReleased⟩
          rcases logger.eventFilter_press isPrint keys scene elapsed receiver position
            globalPosition button buttons modifiers heard with ⟨logged, recorded, filtered⟩
          have began : (logger.beginDrag receiver logged position).Holds false ([] ++ [logged]) :=
            beginDrag_of_device (holds.closed target) device receiver (by
              intro other member
              rw [List.mem_singleton.mp member]
              exact isSound_entryFor recorded) position
          rw [Logger.step, filtered, leaveDragAndDropBuffer, if_neg notReleased]
          exact ⟨_, began⟩
      | ordinary qtEvent ordinary =>
          exfalso
          rw [Discards.eq_def] at discards
          split at discards
          next same => cases same; exact ordinary.2 rfl
          next same => cases same; exact ordinary.1 rfl
          next => exact discards
      | other type => cases discards

/-! ## Runs -/

theorem not_document_of_cut (holds : logger.Holds false entries)
    (inputs : List (Input Object keys.Sequence)) :
    ¬IsDocument ((inputs.foldl (Logger.step isPrint keys) logger).destroy.device.flatMap
      Markup.tagTokens) := by
  induction inputs generalizing logger entries with
  | nil =>
      rw [List.foldl_nil, holds.destroy, Markup.isDocument_log_iff false holds.sound]
      exact Bool.false_ne_true
  | cons input inputs ih =>
      rcases holds.step isPrint keys input fun impossible => nomatch impossible with ⟨kept, next⟩
      exact ih next

theorem isDocument_iff_of_holds (holds : logger.Holds true entries)
    (inputs : List (Input Object keys.Sequence)) :
    IsDocument ((inputs.foldl (Logger.step isPrint keys) logger).destroy.device.flatMap
        Markup.tagTokens) ↔
      StepsMeet (Logger.step isPrint keys) KeepsStartTag logger inputs := by
  induction inputs generalizing logger entries with
  | nil =>
      rw [List.foldl_nil, holds.destroy, Markup.isDocument_log_iff true holds.sound]
      exact iff_of_true rfl .nil
  | cons input inputs ih =>
      rw [stepsMeet_cons, List.foldl_cons]
      by_cases keeps : logger.KeepsStartTag input
      · rcases holds.step isPrint keys input fun _ => keeps with ⟨kept, next⟩
        rw [ih next]
        exact ⟨fun later => ⟨keeps, later⟩, fun both => both.2⟩
      · rcases holds.cut isPrint keys input keeps with ⟨kept, next⟩
        apply iff_of_false
        · exact not_document_of_cut isPrint keys next inputs
        · exact fun both => keeps both.1

/-- However long a recorder ran, its destruction leaves a document on the device exactly
if no step threw the buffer away while nothing was behind the start tag on the
device. -/
theorem isDocument_iff_keepsStartTag (lastEvent : EventType) (origin : Option Object)
    (originPoint : Point) (inputs : List (Input Object keys.Sequence)) :
    IsDocument ((inputs.foldl (Logger.step isPrint keys)
        (new lastEvent origin originPoint)).destroy.device.flatMap Markup.tagTokens) ↔
      ∀ before input after, inputs = before ++ input :: after →
        KeepsStartTag (before.foldl (Logger.step isPrint keys)
          (new lastEvent origin originPoint)) input :=
  isDocument_iff_of_holds isPrint keys (holds_new lastEvent origin originPoint) inputs

end

/-- A drag from a button as the first thing that is recorded. -/
def firstDrag : List (Input (Fin 3) plainSequences.Sequence) :=
  buttonEvent .press 1 ++ buttonEvent .release 1 ++
    [.event ⟨ObjectTree.buttonWindow, fun _ => none⟩ 10 ObjectTree.firstButton
      (.known (.drop ⟨3, 4⟩))]

/-- The bracket of the start tag is thrown away with the drag. -/
theorem firstDrag_leaves_startTag_open :
    ¬∀ inputs : List (Input (Fin 3) plainSequences.Sequence),
      IsDocument ((inputs.foldl (Logger.step (fun _ => true) plainSequences)
        (new (.other 0) none ⟨0, 0⟩)).destroy.device.flatMap Markup.tagTokens) := by
  intro documents
  have document := documents firstDrag
  revert document
  decide +kernel

end Logger

end Hooq
