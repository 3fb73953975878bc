import Hooq.Playback.Rerun
import Hooq.Playback.Transcript
import Hooq.Script.Pipeline
import Hooq.Script.Replay
import Hooq.Script.ScriptText

/-!
# A recording is replayed by its script

The file that a recorder leaves behind is translated to a script, and the script is run
in a session.  It can be run if its text is read as the calls of its items.  What the player
has executed by then is what the account of the recording holds, but for what the script does
not say; so the two ways to replay a recording are compared.
-/

namespace Hooq

open Library.Run

/-! ## The file as it is translated -/

/-- What `QXmlStreamReader` makes of the tokens of a file, in elements that are open and
maybe in a start tag. -/
def fileTokens : List QString → Option (QString × Attributes) →
    List (Library.Tags.Token QString QString) → List XmlToken
  | [], none, [] => [.endDocument]
  | outer, none, .declaration :: rest => .startDocument :: fileTokens outer none rest
  | outer, none, .opening name :: rest => fileTokens outer (some (name, [])) rest
  | outer, some (name, attributes), .attribute given value :: rest =>
      fileTokens outer (some (name, attributes ++ [(given, value)])) rest
  | outer, some (name, attributes), .closing :: rest =>
      .startElement name attributes :: fileTokens (name :: outer) none rest
  | outer, none, .text text :: rest => .characters text :: fileTokens outer none rest
  | above :: outer, none, .ending name :: rest =>
      if above = name then .endElement name :: fileTokens outer none rest else [.invalid]
  | _, _, _ => [.invalid]

/-- What the translator reads of the pieces of a log. -/
def Markup.file (pieces : List Markup) : List XmlToken :=
  fileTokens [] none (pieces.flatMap Markup.tagTokens)

/-- Elements one behind the other, each with its text. -/
def XmlContent.ofElements : List Element → XmlContent
  | [] => .nil
  | first :: rest =>
      .element first.name first.attributes
        (if first.text = [] then .nil else .leaf (.characters first.text) .nil)
        (ofElements rest)

namespace XmlContent

theorem elements_ofElements (elements : List Element) :
    (ofElements elements).elements = elements := by
  induction elements with
  | nil => rfl
  | cons element rest ih =>
      rw [ofElements, XmlContent.elements, ih]
      congr 1
      obtain ⟨name, attributes, text⟩ := element
      dsimp only
      split
      next empty => rw [empty]; rfl
      next => simp [XmlContent.text, XmlPiece.text]

theorem isFlat_ofElements (chosen : Element → Bool) (elements : List Element) :
    (ofElements elements).isFlat chosen = true := by
  induction elements with
  | nil => rfl
  | cons element rest ih =>
      rw [ofElements, isFlat, ih, Bool.and_true]
      split <;> rfl

end XmlContent

theorem fileTokens_attributes (outer : List QString) (name : QString)
    (seen attributes : Attributes) (rest : List (Library.Tags.Token QString QString)) :
    fileTokens outer (some (name, seen))
        (attributes.map (fun given => .attribute given.1 given.2) ++ rest) =
      fileTokens outer (some (name, seen ++ attributes)) rest := by
  induction attributes generalizing seen with
  | nil => rw [List.append_nil, List.map_nil, List.nil_append]
  | cons given attributes ih =>
      rw [List.map_cons, List.cons_append, fileTokens, ih, List.append_assoc]
      rfl

/-- The elements of a file are read as the tree that they are. -/
theorem fileTokens_elements (outer : List QString) (elements : List Element)
    (rest : List (Library.Tags.Token QString QString)) :
    fileTokens outer none (elements.flatMap Element.tagTokens ++ rest) =
      (XmlContent.ofElements elements).tokens ++ fileTokens outer none rest := by
  induction elements with
  | nil => rfl
  | cons first elements ih =>
      rw [List.flatMap_cons, Element.tagTokens, Library.Tags.element, XmlContent.ofElements]
      simp only [List.cons_append, List.append_assoc, List.nil_append]
      rw [fileTokens, fileTokens_attributes, List.nil_append, fileTokens, XmlContent.tokens]
      split
      next =>
        rw [List.nil_append, fileTokens, if_pos rfl, ih]
        simp [XmlContent.tokens]
      next =>
        rw [List.singleton_append, fileTokens, fileTokens, if_pos rfl, ih]
        simp [XmlContent.tokens, XmlPiece.token]

/-- The document of the elements of a log. -/
def logDocument (elements : List Element) : XmlDocument :=
  ⟨[.declaration], "hooq", [], .ofElements elements, []⟩

/-- A log that is complete is read as a document of its elements. -/
theorem Markup.file_log (entries : List LogEntry) :
    Markup.file (Markup.log true entries ++ [Markup.documentEnd]) =
      (logDocument (entries.flatMap LogEntry.elements)).tokens := by
  have records : (entries.map Markup.entry).flatMap Markup.tagTokens =
      (entries.flatMap LogEntry.elements).flatMap Element.tagTokens := by
    induction entries with
    | nil => rfl
    | cons logged entries ih =>
        rw [List.map_cons, List.flatMap_cons, ih, List.flatMap_cons, List.flatMap_append]
        simp [Markup.tagTokens, LogEntry.tagTokens, LogEntry.elements]
  have pieces : (Markup.log true entries ++ [Markup.documentEnd]).flatMap Markup.tagTokens =
      [.declaration, .opening (QString.ofString "hooq"), .closing] ++
        ((entries.flatMap LogEntry.elements).flatMap Element.tagTokens ++
          [.ending (QString.ofString "hooq")]) := by
    rw [← records]
    simp [Markup.log, Markup.tagTokens]
  rw [Markup.file, pieces]
  simp only [List.cons_append, List.nil_append, fileTokens]
  rw [fileTokens_elements, fileTokens, if_pos rfl]
  rfl

namespace XmlToQtScript

open XmlFileReader in
/-- The items of the document of a log. -/
theorem parseDocument_log (elements : List Element) :
    parseDocument (logDocument elements).tokens =
      some (elements.filterMap parseElement, true) := by
  obtain ⟨last, underway, behind⟩ := documentLoop_misc [.declaration]
    (0 + ((XmlContent.ofElements elements).tokens.length + 1) + 3)
    isUnderway_noToken
    (.startElement (QString.ofString "hooq") [] :: ((XmlContent.ofElements elements).tokens ++
      [.endElement (QString.ofString "hooq"), .endDocument]))
  have flat : QString.ofString "hooq" = QString.ofString "hooq" →
      (XmlContent.ofElements elements).isFlat isRecognised = true :=
    fun _ => XmlContent.isFlat_ofElements isRecognised elements
  have root := @documentLoop_root _ [] _ flat []
    ((XmlContent.ofElements elements).tokens.length + 1) _ underway
  rw [if_pos rfl, XmlContent.elements_ofElements] at root
  have fuel : (logDocument elements).tokens.length + 1 =
      [XmlMisc.declaration].length +
        (0 + ((XmlContent.ofElements elements).tokens.length + 1) + 3) := by
    simp only [logDocument, XmlDocument.tokens, List.length_append, List.length_cons,
      List.length_map, List.length_nil]
    omega
  rw [parseDocument, fuel, XmlFileReader.ofTokens, ← root]
  exact behind

end XmlToQtScript

/-! ## The commands of a script -/

/-- `ScriptInterface::scriptMsleep`, whose signal is connected to `writeSleep`. -/
def ScriptInterface.scriptMsleep {Sequence : Type} (argument : QVariant) :
    List (Command Sequence) :=
  [.sleep argument.toInt]

/-- The commands of a statement: `msleep` is a function of the global object, and the
other functions are those of remote objects. -/
def statement (keys : KeySequences) (item : Item) : List (Command keys.Sequence) :=
  if item.target = .null ∧ item.method = QString.ofString "msleep" then
    ScriptInterface.scriptMsleep item.parameters
  else
    execute keys item

/-- `XmlToQtScript::NoOptions`. -/
def Options.noOptions : Options :=
  ⟨false, false, false, false, false, false⟩

namespace XmlToQtScript

/-- The items of the script for a file, if there is one and no post-processor fails. -/
def items (isLetterOrNumber : QChar → Bool) (options : Options) (file : List XmlToken) :
    Option (List Item) :=
  (parseDocument file).bind fun parsed =>
    (postProcess isLetterOrNumber options parsed.1).toOption

/-- The commands of the script for a file, if the script engine reads in its text the calls
that its items stand for.  The bindings of Qt hand each value over with its type. -/
def commands (tables : CharacterTables) (qt : QtNamespace) (keys : KeySequences)
    (options : Options) (file : List XmlToken) : Option (List (Command keys.Sequence)) := do
  let items ← items tables.isLetterOrNumber options file
  let text ← (parse tables qt options file).toOption
  if scriptCalls tables qt text =
      some ([versionCall] :: (items.filter Item.isValid).map calls) then
    some (items.flatMap (Hooq.statement keys))
  else
    none

/-- A recording that ends properly has the commands of its items exactly if the parts of each
item are kept. -/
theorem commands_eq_some_iff {tables : CharacterTables} {qt : QtNamespace}
    {keys : KeySequences} {options : Options} (noObjects : options.objectVariables = false)
    (noStrings : options.stringVariables = false) {file : List XmlToken}
    {parsed output : List Item} (complete : parseDocument file = some (parsed, true))
    (processed : postProcess tables.isLetterOrNumber options parsed = .ok output)
    (sent : List (Command keys.Sequence)) :
    commands tables qt keys options file = some sent ↔
      (∀ item ∈ output, item.isValid = true → IsKept tables qt item) ∧
        sent = output.flatMap (Hooq.statement keys) := by
  have isItems : items tables.isLetterOrNumber options file = some output := by
    rw [items, complete, Option.bind_some, processed]
    rfl
  have kept := @scriptCalls_iff tables qt output
    (isWritten_output noObjects noStrings complete processed)
  rw [commands, isItems, parse_complete complete processed, ← kept]
  simp only [Option.bind_eq_bind, Option.bind_some, Except.toOption,
    Option.ite_none_right_eq_some, Option.some.injEq]
  exact and_congr_right' eq_comm

end XmlToQtScript

/-- The parts of the statement for a record come out of its text. -/
def Record.IsKept (tables : CharacterTables) (qt : QtNamespace) (isPrint : QChar → Bool)
    (keys : KeySequences) (record : Record keys.Sequence) : Prop :=
  ∀ item ∈ (record.element isPrint keys).bind XmlToQtScript.parseElement,
    XmlToQtScript.IsKept tables qt item

theorem execute_unnamed {keys : KeySequences} {item : Item} (unnamed : item.method = []) :
    execute keys item = [] := by
  rw [execute, unnamed]
  split <;> rfl

namespace QtEvent

variable {Sequence : Type}

/-- The event without what a script does not say: modifiers, whether a key repeats, the
reason for a context menu, and which wheel was turned. -/
def bare : QtEvent Sequence → QtEvent Sequence
  | .key action code _ text _ count => .key action code 0 text false count
  | .mouse action position globalPosition button buttons _ =>
      .mouse action position globalPosition button buttons 0
  | .contextMenu _ position globalPosition _ => .contextMenu 0 position globalPosition 0
  | .wheel position delta buttons _ _ => .wheel position delta buttons 0 .horizontal
  | event => event

/-- There is nothing else to say of the event. -/
def IsBare : QtEvent Sequence → Prop
  | .key _ _ modifiers _ autoRepeat _ => modifiers = 0 ∧ autoRepeat = false
  | .mouse _ _ _ _ _ modifiers => modifiers = 0
  | .contextMenu reason _ _ modifiers => reason = 0 ∧ modifiers = 0
  | .wheel _ _ _ modifiers orientation => modifiers = 0 ∧ orientation = .horizontal
  | _ => True

instance : (event : QtEvent Sequence) → Decidable event.IsBare
  | .key _ _ _ _ _ _ | .contextMenu _ _ _ _ | .wheel _ _ _ _ _ =>
      inferInstanceAs (Decidable (_ ∧ _))
  | .mouse _ _ _ _ _ _ => inferInstanceAs (Decidable (_ = _))
  | .close | .drop _ | .focusIn _ | .shortcut _ _ _ => isTrue trivial

end QtEvent

namespace Take

section

variable (isPrint : QChar → Bool) {keys : KeySequences} {Object : Type} [DecidableEq Object]
  (application : Application Object)

/-- What a script makes the player do for a take. -/
def scripted {Sequence : Type} (take : Take Sequence) : List (Event Sequence) :=
  match take.record with
  | .event receiver qtEvent =>
      [.new (.sleep (Int32.ofNat take.elapsed)),
        .new ((qtEvent.printable isPrint).withoutScreen.bare.task receiver.path)]
  | .dragAndDrop _ _ _ _ => take.events isPrint application

/-- The script says everything that there is to say of the take. -/
def IsBare {Sequence : Type} (take : Take Sequence) : Prop :=
  match take.record with
  | .event _ qtEvent => qtEvent.IsBare
  | .dragAndDrop _ _ _ _ => True

instance {Sequence : Type} : (take : Take Sequence) → Decidable take.IsBare
  | ⟨_, .event _ qtEvent⟩ => inferInstanceAs (Decidable qtEvent.IsBare)
  | ⟨_, .dragAndDrop _ _ _ _⟩ => isTrue trivial

theorem exists_signal {record : Record keys.Sequence} {element : Element}
    (recorded : record.element isPrint keys = some element) :
    ∃ command, record.signal isPrint keys = some command := by
  cases record with
  | dragAndDrop source sourcePoint target position => exact ⟨_, rfl⟩
  | event receiver qtEvent =>
      cases qtEvent with
      | drop position => cases recorded
      | _ => exact ⟨_, rfl⟩

/-- The commands for a take. -/
def commands (take : Take keys.Sequence) : List (Command keys.Sequence) :=
  .sleep (Int32.ofNat take.elapsed) ::
    ((take.record.signal isPrint keys).map Command.stripped).toList

/-- The items of an entry: a sleep, and the statement that replays the record. -/
theorem items_entry {take : Take keys.Sequence} (timely : take.elapsed < 2 ^ 31)
    {logged : LogEntry} (isEntry : take.entry isPrint keys = some logged) :
    ∃ command item, take.record.signal isPrint keys = some command ∧
      (take.record.element isPrint keys).bind XmlToQtScript.parseElement = some item ∧
      logged.elements.filterMap XmlToQtScript.parseElement =
        [.ofMethod "msleep" (.int (Int32.ofNat take.elapsed)), item] ∧
      item.isValid = true ∧ statement keys item = [command.stripped] := by
  obtain ⟨element, recorded, rfl⟩ := Option.map_eq_some_iff.mp isEntry
  obtain ⟨command, signal⟩ := exists_signal isPrint recorded
  have replayed := replay_eq_stripped isPrint keys take.record
  rw [Record.replay, recorded, Option.bind_eq_bind, Option.bind_some, signal] at replayed
  obtain ⟨item, parsed, executes⟩ := Option.bind_eq_some_iff.mp replayed
  have executed : execute keys item = [command.stripped] := Option.some.inj executes
  refine ⟨command, item, signal, by rw [recorded, Option.bind_some, parsed], ?_, ?_, ?_⟩
  · have msec : XmlToQtScript.parseElement (Logger.entryOf take.elapsed element).msec =
        some (.ofMethod "msleep" (.int (Int32.ofNat take.elapsed))) := by
      rw [← toInt_number_elapsed timely]
      rfl
    have event : XmlToQtScript.parseElement (Logger.entryOf take.elapsed element).event =
        some item := parsed
    rw [LogEntry.elements, List.filterMap_cons_some msec, List.filterMap_cons_some event,
      List.filterMap_nil]
  · rw [Item.isValid, decide_eq_true_iff]
    intro unnamed
    rw [execute_unnamed unnamed] at executed
    cases executed
  · have isObject : item.target ≠ .null := by
      intro noTarget
      rw [execute, noTarget] at executed
      cases executed
    rw [statement, if_neg fun both => isObject both.1, executed]

/-- The commands of the statements for an entry: a sleep, and the signal. -/
theorem statements_entry {take : Take keys.Sequence} (timely : take.elapsed < 2 ^ 31)
    {logged : LogEntry} (isEntry : take.entry isPrint keys = some logged) :
    (logged.elements.filterMap XmlToQtScript.parseElement).flatMap (statement keys) =
      take.commands isPrint := by
  obtain ⟨command, item, signal, -, items, -, executed⟩ := items_entry isPrint timely isEntry
  rw [items, List.flatMap_cons, List.flatMap_singleton, executed, commands, signal]
  rfl

/-- The statements for an entry are kept exactly if the one for its record is. -/
theorem isKept_entry {tables : CharacterTables} {qt : QtNamespace} {take : Take keys.Sequence}
    (timely : take.elapsed < 2 ^ 31) {logged : LogEntry}
    (isEntry : take.entry isPrint keys = some logged) :
    (∀ item ∈ logged.elements.filterMap XmlToQtScript.parseElement,
        item.isValid = true → XmlToQtScript.IsKept tables qt item) ↔
      take.record.IsKept tables qt isPrint keys := by
  obtain ⟨command, item, -, parsed, items, valid, -⟩ := items_entry isPrint timely isEntry
  have known : QString.ofString "msleep" ∈ scriptFunctions := by decide
  have sleep : XmlToQtScript.IsKept tables qt
      (.ofMethod "msleep" (.int (Int32.ofNat take.elapsed))) :=
    ⟨known, trivial⟩
  rw [items, Record.IsKept, parsed]
  simp [sleep, valid]

/-- What the player is sent for a signal it reads as the bare event. -/
theorem decode_stripped {take : Take keys.Sequence} {command : Command keys.Sequence}
    (signal : take.record.signal isPrint keys = some command) :
    Event.new (.sleep (Int32.ofNat take.elapsed)) ::
        Player.elementEntries keys application (Interpreter.write keys command.stripped) =
      take.scripted isPrint application := by
  obtain ⟨elapsed, record⟩ := take
  have sent {element : Element} {decoded : Option (List (Event keys.Sequence))}
      (same : Player.decode keys application element = decoded) :
      Event.new (.sleep (Int32.ofNat elapsed)) ::
          (Player.decode keys application element).getD [] =
        Event.new (.sleep (Int32.ofNat elapsed)) :: decoded.getD [] := by
    rw [same]
  cases record with
  | dragAndDrop source sourcePoint target position =>
      cases signal
      exact sent (Player.decode_writeDragAndDropEvent application source sourcePoint target
        position)
  | event receiver qtEvent =>
      cases qtEvent with
      | drop position => cases signal
      | close =>
          cases signal
          rfl
      | contextMenu reason position globalPosition modifiers =>
          cases signal
          exact sent (Player.decode_writeContextMenuEvent application receiver.path position
            globalPosition 0)
      | focusIn reason =>
          cases signal
          exact sent (Player.decode_writeSetFocusEvent application receiver.path reason)
      | key action code modifiers text autoRepeat count =>
          cases signal
          exact sent (Player.decode_writeKey application action receiver.path code 0
            (Logger.safeText isPrint text) false count)
      | mouse action position globalPosition button buttons modifiers =>
          cases signal
          exact sent (Player.decode_writeMouse application action receiver.path position button
            buttons 0)
      | shortcut sequence id ambiguous =>
          cases signal
          exact sent (Player.decode_writeShortcutEvent application receiver.path sequence id
            ambiguous)
      | wheel position delta buttons modifiers orientation =>
          cases signal
          exact sent (Player.decode_writeWheelEvent application receiver.path position delta
            buttons 0 orientation)

/-- What the player executes for the commands for a take. -/
theorem decode_commands {take : Take keys.Sequence} {logged : LogEntry}
    (isEntry : take.entry isPrint keys = some logged) :
    (take.commands isPrint).flatMap (fun command =>
        (Player.decode keys application (Interpreter.write keys command)).getD []) =
      take.scripted isPrint application := by
  obtain ⟨element, recorded, -⟩ := Option.map_eq_some_iff.mp isEntry
  obtain ⟨command, signal⟩ := exists_signal isPrint recorded
  rw [commands, signal, ← decode_stripped isPrint application signal, List.flatMap_cons,
    Interpreter.write, Player.decode_writeSleep, Option.map_some, Option.toList_some,
    List.flatMap_singleton]
  rfl

/-- A take is replayed in the same way by both exactly if it is bare. -/
theorem events_eq_scripted_iff {Sequence : Type} (take : Take Sequence) :
    take.events isPrint application = take.scripted isPrint application ↔ take.IsBare := by
  obtain ⟨elapsed, record⟩ := take
  cases record with
  | dragAndDrop source sourcePoint target position => exact iff_of_true rfl trivial
  | event receiver qtEvent =>
      cases qtEvent with
      | close | drop | focusIn | shortcut => exact iff_of_true rfl trivial
      | contextMenu | key | mouse | wheel =>
          simp [events, scripted, IsBare, QtEvent.IsBare, QtEvent.bare, QtEvent.printable,
            QtEvent.withoutScreen, QtEvent.task, Event.new]

theorem length_scripted {Sequence : Type} (take : Take Sequence) :
    (take.events isPrint application).length = (take.scripted isPrint application).length := by
  obtain ⟨elapsed, record⟩ := take
  cases record <;> rfl

/-- No command for a take is a negative sleep. -/
theorem isTimed_commands {take : Take keys.Sequence} (timely : take.elapsed < 2 ^ 31)
    {command : Command keys.Sequence} (member : command ∈ take.commands isPrint) :
    (Request.command command).IsTimed := by
  rcases List.mem_cons.mp member with rfl | isSignal
  · have natural : (Int32.ofNat take.elapsed).toInt = take.elapsed :=
      Int32.toInt_ofNat_of_lt timely
    rw [Request.IsTimed, Int32.lt_iff_toInt_lt, natural]
    exact not_lt_of_ge (Int.natCast_nonneg _)
  · obtain ⟨issued, signal, rfl⟩ := Option.map_eq_some_iff.mp (Option.mem_toList.mp isSignal)
    obtain ⟨elapsed, record⟩ := take
    cases record with
    | dragAndDrop source sourcePoint target position =>
        cases signal
        trivial
    | event receiver qtEvent => cases qtEvent <;> cases signal <;> trivial

end

end Take

/-- Where both images of each entry are of the same length, the images of a list are the
same exactly if those of its entries are. -/
theorem flatMap_eq_flatMap_iff {α β : Type} {front back : α → List β}
    (lengths : ∀ entry, (front entry).length = (back entry).length) (entries : List α) :
    entries.flatMap front = entries.flatMap back ↔
      ∀ entry ∈ entries, front entry = back entry := by
  induction entries with
  | nil => exact iff_of_true rfl (List.forall_mem_nil _)
  | cons first rest ih =>
      rw [List.flatMap_cons, List.flatMap_cons, List.forall_mem_cons, ← ih]
      constructor
      · exact fun same => List.append_inj same (lengths first)
      · rintro ⟨here, later⟩
        rw [here, later]

/-! ## A session that gets to its end -/

namespace Transcript

section

variable {keys : KeySequences} {Object : Type} [DecidableEq Object]

/-- A run of a script in which every request has been sent and the last one answered.  The
player finds what it cannot do without and reads every sleep as a whole. -/
structure Finishes (application : Application Object) (ackNext : Bool)
    (requests : List (Request keys.Sequence)) (actions : List (Session.Action Object)) :
    Prop where
  drops : StepsMeet (Session.next keys) (Session.DropsLike keys application)
    (Session.new ackNext requests) actions
  proceeds : StepsMeet (Session.next keys) (Session.Proceeds keys)
    (Session.new ackNext requests) actions
  reads : StepsMeet (Session.next keys) Session.ReadsTime (Session.new ackNext requests) actions
  orders : (actions.foldl (Session.next keys) (Session.new ackNext requests)).orders =
    [.endDocument, .die]
  idle : (actions.foldl (Session.next keys) (Session.new ackNext requests)).waiting = none

theorem sent_append_orders (session : Session Object keys.Sequence)
    (actions : List (Session.Action Object)) :
    (actions.foldl (Session.next keys) session).sent ++
        (actions.foldl (Session.next keys) session).orders =
      session.sent ++ session.orders := by
  induction actions generalizing session with
  | nil => rfl
  | cons first actions ih =>
      obtain ⟨more, sent, orders⟩ := session.orders_next first
      rw [List.foldl_cons, ih, sent, orders, List.append_assoc]

variable {application : Application Object} {ackNext : Bool}
  {requests : List (Request keys.Sequence)} {actions : List (Session.Action Object)}

theorem Finishes.sent (finishes : Finishes application ackNext requests actions) :
    (actions.foldl (Session.next keys) (Session.new ackNext requests)).sent =
      requests.map .request := by
  have all := sent_append_orders (Session.new ackNext requests) actions
  rw [finishes.orders] at all
  have start : (Session.new ackNext requests : Session Object keys.Sequence).sent ++
      (Session.new ackNext requests : Session Object keys.Sequence).orders =
        requests.map .request ++ [.endDocument, .die] := rfl
  exact (List.append_inj' (all.trans start) rfl).1

/-- The player has executed what the requests ask for. -/
theorem Finishes.executed (finishes : Finishes application ackNext requests actions)
    (timed : ∀ request ∈ requests, request.IsTimed) :
    (actions.foldl (Transcript.next keys)
        (new ackNext requests)).history.executed.map Execution.event =
      requests.flatMap fun request =>
        (Player.decode keys application (request.element keys)).getD [] := by
  have sent := finishes.sent
  have script : .endDocument ∉
      (actions.foldl (Session.next keys) (Session.new ackNext requests)).sent := by
    rw [sent]
    simp
  have corresponds := corresponds_foldl timed finishes.proceeds script
  rcases follows_or_strays_foldl timed finishes.drops finishes.proceeds script with
    ⟨-, follows⟩ | ⟨misreads, -⟩
  · rw [corresponds.executed (by rw [session_foldl, finishes.idle]) follows, session_foldl, sent,
      List.flatMap_map]
    rfl
  · exact absurd finishes.reads misreads

end

end Transcript

/-! ## From the recorder to the player, by a script -/

namespace Logger

section

variable {Object : Type} [DecidableEq Object] (tables : CharacterTables) (qt : QtNamespace)
  (isPrint : QChar → Bool) (keys : KeySequences) (lastEvent : EventType)
  (origin : Option Object) (originPoint : Point) (inputs : List (Input Object keys.Sequence))

/-- The file that a recorder leaves behind, as it is translated. -/
def recordedFile : List XmlToken :=
  Markup.file
    (inputs.foldl (Logger.step isPrint keys) (new lastEvent origin originPoint)).destroy.device

/-- The commands of the script for the file that a recorder leaves behind, without any
post-processing. -/
def script : Option (List (Command keys.Sequence)) :=
  XmlToQtScript.commands tables qt keys .noOptions
    (recordedFile isPrint keys lastEvent origin originPoint inputs)

variable {tables qt isPrint keys lastEvent origin originPoint inputs}

/-- The statements of the entries that an account tells have the commands for its takes. -/
theorem statements_entries {entries : List LogEntry} {takes : List (Take keys.Sequence)}
    (tells : entries.map some = takes.map (Take.entry isPrint keys))
    (timely : ∀ take ∈ takes, take.elapsed < 2 ^ 31) :
    ((entries.flatMap LogEntry.elements).filterMap XmlToQtScript.parseElement).flatMap
        (statement keys) =
      takes.flatMap (Take.commands isPrint) := by
  induction takes generalizing entries with
  | nil =>
      rw [List.map_eq_nil_iff.mp tells]
      rfl
  | cons take takes ih =>
      cases entries with
      | nil => cases tells
      | cons logged entries =>
          rw [List.map_cons, List.map_cons, List.cons.injEq] at tells
          rw [List.forall_mem_cons] at timely
          rw [List.flatMap_cons, List.filterMap_append, List.flatMap_append,
            Take.statements_entry isPrint timely.1 tells.1.symm, ih tells.2 timely.2,
            List.flatMap_cons]

/-- The takes that a log tells all have entries. -/
theorem exists_entry {entries : List LogEntry} {takes : List (Take keys.Sequence)}
    (tells : entries.map some = takes.map (Take.entry isPrint keys)) {take : Take keys.Sequence}
    (member : take ∈ takes) : ∃ logged, take.entry isPrint keys = some logged := by
  have isSome : take.entry isPrint keys ∈ entries.map some := by
    rw [tells]
    exact List.mem_map_of_mem member
  obtain ⟨logged, -, same⟩ := List.mem_map.mp isSome
  exact ⟨logged, same.symm⟩

/-- The statements of the entries that an account tells are kept exactly if those for its
takes are. -/
theorem isKept_entries {entries : List LogEntry} {takes : List (Take keys.Sequence)}
    (tells : entries.map some = takes.map (Take.entry isPrint keys))
    (timely : ∀ take ∈ takes, take.elapsed < 2 ^ 31) :
    (∀ item ∈ (entries.flatMap LogEntry.elements).filterMap XmlToQtScript.parseElement,
        item.isValid = true → XmlToQtScript.IsKept tables qt item) ↔
      ∀ take ∈ takes, take.record.IsKept tables qt isPrint keys := by
  induction takes generalizing entries with
  | nil =>
      rw [List.map_eq_nil_iff.mp tells]
      exact iff_of_true (List.forall_mem_nil _) (List.forall_mem_nil _)
  | cons take takes ih =>
      cases entries with
      | nil => cases tells
      | cons logged entries =>
          rw [List.map_cons, List.map_cons, List.cons.injEq] at tells
          rw [List.forall_mem_cons] at timely
          rw [List.flatMap_cons, List.filterMap_append, List.forall_mem_append,
            Take.isKept_entry isPrint timely.1 tells.1.symm, ih tells.2 timely.2,
            List.forall_mem_cons]

/-- A recording has a script exactly if the statements for its takes are kept.  The script
has the commands for the takes, in order. -/
theorem script_eq_some_iff (timely : ∀ input ∈ inputs, IsTimely input)
    (finds : ∀ before input after, inputs = before ++ input :: after →
      FindsBuffer (before.foldl (Logger.step isPrint keys) (new lastEvent origin originPoint))
        (before.foldl (History.step isPrint keys) (History.new origin originPoint)) input)
    (keeps : StepsMeet (Logger.step isPrint keys) KeepsStartTag
      (new lastEvent origin originPoint) inputs)
    (commands : List (Command keys.Sequence)) :
    script tables qt isPrint keys lastEvent origin originPoint inputs = some commands ↔
      (∀ take ∈ (inputs.foldl Account.step (Account.new origin originPoint)).takes,
        take.record.IsKept tables qt isPrint keys) ∧
      commands = (inputs.foldl Account.step (Account.new origin originPoint)).takes.flatMap
        (Take.commands isPrint) := by
  have tells := @Account.tells_foldl _ _ isPrint _ origin originPoint inputs
  have within := @Account.timely_foldl _ _ _ origin originPoint _ timely
  have parsed := XmlToQtScript.parseDocument_log ((inputs.foldl (History.step isPrint keys)
    (History.new origin originPoint)).entries.flatMap LogEntry.elements)
  rw [← Markup.file_log, ← device_eq finds keeps] at parsed
  have translated := @XmlToQtScript.commands_eq_some_iff tables qt keys .noOptions rfl rfl _ _ _
    parsed rfl commands
  rw [isKept_entries tells.entries within, statements_entries tells.entries within] at translated
  exact translated

/-- A session with the commands for the takes of a recording. -/
theorem executed_commands (timely : ∀ input ∈ inputs, IsTimely input)
    {application : Application Object} {ackNext : Bool} {actions : List (Session.Action Object)}
    (finishes : Transcript.Finishes application ackNext
      (((inputs.foldl Account.step (Account.new origin originPoint)).takes.flatMap
        (Take.commands isPrint)).map .command) actions) :
    (actions.foldl (Transcript.next keys) (.new ackNext
        (((inputs.foldl Account.step (Account.new origin originPoint)).takes.flatMap
          (Take.commands isPrint)).map .command))).history.executed.map Execution.event =
      (inputs.foldl Account.step (Account.new origin originPoint)).takes.flatMap
        (Take.scripted isPrint application) := by
  have tells := @Account.tells_foldl _ _ isPrint _ origin originPoint inputs
  have within := @Account.timely_foldl _ _ _ origin originPoint _ timely
  have timed : ∀ request ∈ ((inputs.foldl Account.step
      (Account.new origin originPoint)).takes.flatMap (Take.commands isPrint)).map
        Request.command, request.IsTimed := by
    intro request member
    obtain ⟨command, isCommand, rfl⟩ := List.mem_map.mp member
    obtain ⟨take, isTake, isCommand⟩ := List.mem_flatMap.mp isCommand
    exact Take.isTimed_commands isPrint (within take isTake) isCommand
  rw [finishes.executed timed, List.flatMap_map, List.flatMap_assoc]
  apply List.flatMap_congr
  intro take member
  obtain ⟨logged, isEntry⟩ := exists_entry tells.entries member
  exact Take.decode_commands isPrint application isEntry

end

/-! ## The script of a key and a drag -/

/-- The commands of the script for the key and the drag. -/
def keyAndDragCommands : List (Command plainSequences.Sequence) :=
  (keyAndDrag.foldl Account.step (Account.new none ⟨0, 0⟩)).takes.flatMap
    (Take.commands fun _ => true)

/-- Whatever can happen first: replies arrive before the player goes on, and a request is
sent when nothing else is left. -/
def nextAction (session : Session (Fin 3) plainSequences.Sequence) : Session.Action (Fin 3) :=
  if session.handled < session.player.written.length then .receive
  else if ¬session.player.InEventLoop then .run buttonApplication
  else if session.player.stack.head? = some .flushing then .endFlush
  else if session.player.timers ≠ 0 then .waitFinished
  else if session.toPlayer ≠ [] then .deliver session.toPlayer.length
  else .send

/-- A script is run until its last request is answered. -/
def scriptActions : Nat → Session (Fin 3) plainSequences.Sequence → List (Session.Action (Fin 3))
  | 0, _ => []
  | fuel + 1, session =>
      if session.orders.length ≤ 2 ∧ session.waiting = none then
        []
      else
        nextAction session ::
          scriptActions fuel (session.next plainSequences (nextAction session))

def keyAndDragActions : List (Session.Action (Fin 3)) :=
  scriptActions 200 (.new true (keyAndDragCommands.map .command))

theorem application_of_scriptActions {fuel : Nat}
    {session : Session (Fin 3) plainSequences.Sequence} {application : Application (Fin 3)}
    (member : .run application ∈ scriptActions fuel session) :
    application = buttonApplication := by
  induction fuel generalizing session with
  | zero => cases member
  | succ fuel ih =>
      rw [scriptActions] at member
      split at member
      · cases member
      · rcases List.mem_cons.mp member with isNext | later
        · rw [nextAction] at isNext
          split_ifs at isNext
          cases isNext
          rfl
        · exact ih later

theorem keyAndDragCommands_eq :
    keyAndDragCommands =
      [.sleep 10, .key .press "window::ok" 65 0 "a" false 1, .sleep 10,
        .dragAndDrop "window::ok" ⟨3, 4⟩ "window::ok" ⟨3, 4⟩] := by
  decide +kernel

/-- If the player goes on, then with the widget to drop on there. -/
def findsButton : Session.Action (Fin 3) → Bool
  | .run application =>
      (application.findWidget "window::ok").isSome && !decide (application.startDragTime + 1 < 0)
  | _ => true

theorem answerable_keyAndDragCommands {application : Application (Fin 3)}
    (finds : findsButton (.run application) = true) :
    ∀ command ∈ keyAndDragCommands, (Request.command command).Answerable application := by
  obtain ⟨widget, patient⟩ := Bool.and_eq_true_iff.mp finds
  have bound : 0 ≤ application.startDragTime + 1 := by simpa using patient
  rw [keyAndDragCommands_eq]
  simp [Request.Answerable, widget, bound]

theorem keyAndDrag_finishes :
    Transcript.Finishes buttonApplication true (keyAndDragCommands.map .command)
      keyAndDragActions where
  drops := by
    intro before action after shape
    cases action with
    | run application =>
        have same : application = buttonApplication := by
          apply application_of_scriptActions
          rw [← keyAndDragActions, shape]
          exact List.mem_append_right _ List.mem_cons_self
        rw [same]
        exact fun _ _ _ _ => rfl
    | _ => trivial
  proceeds := by
    have asks : StepsMeet (Session.next plainSequences)
        (fun session action => session.Enabled action ∧ findsButton action = true ∧
          (session.waiting = none ∨ session.waiting ∈ keyAndDragCommands.map fun command =>
            some (.request (.command command))))
        (Session.new true (keyAndDragCommands.map .command)) keyAndDragActions := by
      decide +kernel
    refine asks.mono fun session action step => ⟨step.1, ?_⟩
    cases action with
    | run application =>
        rintro request ⟨waiting, -⟩
        rcases step.2.2 with idle | member
        · rw [idle] at waiting
          cases waiting
        · obtain ⟨command, isCommand, same⟩ := List.mem_map.mp member
          rw [waiting] at same
          cases same
          exact answerable_keyAndDragCommands step.2.1 command isCommand
    | _ => trivial
  reads := by decide +kernel
  orders := by decide +kernel
  idle := by decide +kernel

open XmlToQtScript in
/-- The statements for the key and the drag are kept. -/
theorem keyAndDrag_isKept :
    ∀ take ∈ (keyAndDrag.foldl Account.step (Account.new none ⟨0, 0⟩)).takes,
      take.record.IsKept separatorTables smallNamespace (fun _ => true) plainSequences := by
  have items : (keyAndDrag.foldl Account.step (Account.new none ⟨0, 0⟩)).takes.map
      (fun take => (take.record.element (fun _ => true) plainSequences).bind parseElement) =
        [some ⟨.path "window::ok", "QPushButton", "pressKey", .map
            (.entry "autoRepeat" (.bool false) (.entry "count" (.int 1) (.entry "key" (.key 65)
              (.entry "modifiers" (.keyboardModifiers 0) (.entry "text" (.string "a")
                .empty)))))⟩,
          some ⟨.path "window::ok", [], "drop", .map
            (.entry "dragged" (.item (.path "window::ok") [] "drag"
              (.map (.entry "x" (.int 3) (.entry "y" (.int 4) .empty))))
              (.entry "x" (.int 3) (.entry "y" (.int 4) .empty)))⟩] := by
    decide +kernel
  have copied {method : QString} (noMarker : separatorTables.markers method = []) :
      IsCopied separatorTables "window::ok" method := by
    refine ⟨List.all_eq_true.mp (by decide), by decide, ?_⟩
    rw [noMarker]
    exact List.forall_mem_nil _
  have named : (smallNamespace.keyName 65).isSome := by decide
  have modifiers : (0 : Int32) &&& modifierMask = 0 := by decide
  have text : ∀ character ∈ QString.ofString "a", separatorTables.keeps character = true :=
    List.all_eq_true.mp (by decide)
  intro take member item isItem
  have listed := List.mem_map_of_mem (f := fun take : Take plainSequences.Sequence =>
    (take.record.element (fun _ => true) plainSequences).bind parseElement) member
  rw [items, Option.mem_def.mp isItem] at listed
  rcases List.mem_pair.mp listed with isKey | isDrag
  · cases isKey
    exact ⟨copied (by decide), .inr ⟨trivial, trivial, named, modifiers, text, trivial⟩⟩
  · cases isDrag
    exact ⟨copied (by decide), .inr ⟨⟨copied (by decide), trivial, trivial, trivial⟩, trivial,
      trivial, trivial⟩⟩

theorem keyAndDrag_script :
    script separatorTables XmlToQtScript.smallNamespace (fun _ => true) plainSequences (.other 0)
      none ⟨0, 0⟩ keyAndDrag = some keyAndDragCommands :=
  (script_eq_some_iff (by decide) keyAndDrag_findsBuffer (by decide +kernel) _).mpr
    ⟨keyAndDrag_isKept, rfl⟩

end Logger

end Hooq
