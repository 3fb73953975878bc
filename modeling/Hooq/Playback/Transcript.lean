import Hooq.Playback.Acknowledgement
import Hooq.Playback.Entries

/-!
# What a script makes the player do

A session with the history of its player.  Whenever the interpreter does not wait, the
player has executed what the orders ask for, in their order, however the tokens arrived
and whatever else happened: unless it has read a part of the number of a sleep.
-/

namespace Hooq

open Library.Run

/-! ## Reading the element of a request -/

/-- A start tag that is read is the first thing that is left of the stream, but for white
space. -/
theorem XmlReader.readNext_start (reader : XmlReader) (tokens : List Token)
    (starts : (reader.readNext tokens).1.tokenType = .startElement) :
    ∃ before, tokens = before ++ .start (reader.readNext tokens).1.name
      (reader.readNext tokens).1.attributes :: (reader.readNext tokens).2 := by
  fun_induction XmlReader.readNext reader tokens with
  | case5 name attributes rest => exact ⟨[], rfl⟩
  | case7 character rest _ _ _ ih =>
      obtain ⟨before, split⟩ := ih starts
      exact ⟨.character character :: before, congrArg (.character character :: ·) split⟩
  | _ => cases starts

/-- A text with its end tag is read as a whole, whatever is behind it. -/
theorem XmlReader.readElementText_whole (reader : XmlReader) (text : QString)
    (rest : List Token) :
    reader.readElementText (textTokens text ++ .stop :: rest) =
      (text, { reader with
        tokenType := .endElement, depth := reader.depth - 1,
        rootClosed := reader.depth = 1 }, rest) := by
  induction text with
  | nil => rfl
  | cons character text ih =>
      change reader.readElementText (.character character :: (textTokens text ++ _)) = _
      rw [readElementText, ih]

/-- What stands in the stream for the element that is parsed next. -/
theorem Player.unread_of_nextElements {Object Sequence : Type}
    {player : Player Object Sequence} {element : Element}
    (isNext : element ∈ player.nextElements.head?) :
    ∃ before, player.unread =
      before ++ .start element.name element.attributes :: player.readToken.unread ∧
        player.readToken.reader.error = false ∧
        element.text = if readsText element.name then (player.readText []).1 else [] := by
  rw [nextElements] at isNext
  split at isNext
  next parses =>
    cases isNext
    have starts := parses.2.2
    have opens := readToken_opens starts []
    have read : ∃ before, player.unread = before ++ .start player.readToken.reader.name
        player.readToken.reader.attributes :: player.readToken.unread := by
      have device := device_of_starts starts
      rw [readToken_eq device] at starts ⊢
      exact player.reader.readNext_start player.unread starts
    obtain ⟨before, split⟩ := read
    refine ⟨before, split, opens.fine, ?_⟩
    by_cases reads : readsText player.readToken.reader.name = true
    · rw [currentElement, readText_nil reads starts, if_pos reads]
    · rw [currentElement, elementText, if_neg (by simp [reads]), if_neg reads]
  next => cases isNext

namespace Order

variable {Sequence : Type}

/-- How long the player is to sleep for an order. -/
def duration : Order Sequence → Option Int32
  | .request (.command (.sleep msec)) => some msec
  | _ => none

/-- What the player is to do for an order. -/
def events (keys : KeySequences) {Object : Type} [DecidableEq Object]
    (application : Application Object) : Order keys.Sequence → List (Event keys.Sequence)
  | .request asked => Player.elementEntries keys application (asked.element keys)
  | .endDocument | .die => []

/-- Only a sleep is written as one. -/
theorem duration_of_name (keys : KeySequences) {request : Request keys.Sequence}
    (isSleep : (request.element keys).name = QString.ofString "msec") :
    ∃ msec, (Order.request request).duration = some msec ∧
      (request.element keys).text = intText msec := by
  have other {conclusion : Prop} (name : String)
      (different : QString.ofString name ≠ QString.ofString "msec")
      (same : QString.ofString name = QString.ofString "msec") : conclusion :=
    absurd same different
  cases request with
  | dump objectPath => exact other "dump" (by decide) isSleep
  | command command =>
      cases command with
      | sleep msec => exact ⟨msec, rfl, rfl⟩
      | key action =>
          cases action with
          | press => exact other "keyPress" (by decide) isSleep
          | release => exact other "keyRelease" (by decide) isSleep
      | mouse action =>
          cases action with
          | move => exact other "mouseMove" (by decide) isSleep
          | press => exact other "mouseButtonPress" (by decide) isSleep
          | release => exact other "mouseButtonRelease" (by decide) isSleep
          | doubleClick => exact other "mouseButtonDoubleClick" (by decide) isSleep
      | contextMenu => exact other "contextMenu" (by decide) isSleep
      | wheel => exact other "mouseWheel" (by decide) isSleep
      | shortcut => exact other "shortcut" (by decide) isSleep
      | setFocus => exact other "focusChanged" (by decide) isSleep
      | close => exact other "windowClosed" (by decide) isSleep
      | dragAndDrop => exact other "dragAndDrop" (by decide) isSleep

end Order

/-! ## A session with a history -/

namespace Session

section

variable {Object : Type} [DecidableEq Object]

/-- What an action is for the player. -/
def occurrence {Sequence : Type} (session : Session Object Sequence) :
    Action Object → Option (Occurrence Object)
  | .deliver count => some (.readyRead (session.toPlayer.take count))
  | .run application => some (.run application)
  | .endFlush => some .endFlush
  | .waitFinished => some .waitFinished
  | .send | .receive => none

/-- All that has been sent: the start tag, and the orders. -/
def written (keys : KeySequences) (session : Session Object keys.Sequence) : List Token :=
  .start "hooq" [] :: session.sent.flatMap (Order.tokens keys)

/-- A number that the player reads next is that of the sleep. -/
def ReadsNumber {Sequence : Type} (session : Session Object Sequence) (msec : Int32) : Prop :=
  ∀ element ∈ session.player.nextElements.head?, element.name = QString.ofString "msec" →
    element.text.toInt = msec

instance {Sequence : Type} (session : Session Object Sequence) (msec : Int32) :
    Decidable (session.ReadsNumber msec) :=
  inferInstanceAs (Decidable (∀ element ∈ session.player.nextElements.head?, _))

/-- The number of a sleep among the orders is read. -/
def ReadsDuration {Sequence : Type} (session : Session Object Sequence) (order : Order Sequence) :
    Prop :=
  ∀ msec ∈ order.duration, session.ReadsNumber msec

-- Only the number of the order is tried.
instance {Sequence : Type} (session : Session Object Sequence) (order : Order Sequence) :
    Decidable (session.ReadsDuration order) :=
  @Option.decidableForallMem _ session.ReadsNumber inferInstance order.duration

/-- The player reads the number of the sleep that it is asked for. -/
def ReadsTime {Sequence : Type} (session : Session Object Sequence) : Action Object → Prop
  | .run _ => ∀ order ∈ session.waiting, session.ReadsDuration order
  | _ => True

instance {Sequence : Type} (session : Session Object Sequence) :
    (action : Action Object) → Decidable (session.ReadsTime action)
  | .run _ => @Option.decidableForallMem _ session.ReadsDuration inferInstance session.waiting
  | .send | .deliver _ | .endFlush | .waitFinished | .receive => isTrue trivial

/-- The application answers the drags that the player parses in the same way. -/
def DropsLike (keys : KeySequences) (application : Application Object)
    (session : Session Object keys.Sequence) : Action Object → Prop
  | .run other => session.player.DropsLike keys application (.run other)
  | _ => True

end

/-! ## What is left of the stream -/

/-- Each element of a known kind that the player has not read is that of the request that
the interpreter waits for, with all that belongs to it. -/
def IsWhole {Object : Type} (keys : KeySequences) (session : Session Object keys.Sequence) : Prop :=
  ∀ before name attributes rest, session.stream = before ++ .start name attributes :: rest →
    elementAnswer name ≠ none → ∃ request, session.waiting = some (.request request) ∧
      .start name attributes :: rest = (request.element keys).tokens

section

variable {Object : Type} {keys : KeySequences} {session : Session Object keys.Sequence}

/-- What is behind in the stream is as whole as the stream. -/
theorem IsWhole.of_suffix (whole : session.IsWhole keys) {next : Session Object keys.Sequence}
    {taken : List Token} (stream : session.stream = taken ++ next.stream)
    (waiting : next.waiting = session.waiting) : IsWhole keys next := by
  intro before name attributes rest split known
  rw [waiting]
  apply whole (taken ++ before) name attributes rest _ known
  rw [stream, split, List.append_assoc]

/-- Where nothing is to be answered no element of a known kind is left. -/
theorem isWhole_of_silent (silent : streamAnswers session.stream = []) :
    IsWhole keys session := by
  intro before name attributes rest split known
  have member : .start name attributes ∈ session.stream := by
    rw [split]
    exact List.mem_append_right _ List.mem_cons_self
  exact absurd (elementAnswer_eq_none silent member) known

/-- Behind a stream in which nothing is to be answered comes the element of a request. -/
theorem isWhole_of_request {earlier : List Token} (silent : streamAnswers earlier = [])
    {request : Request keys.Sequence} (waiting : session.waiting = some (.request request))
    (stream : session.stream = earlier ++ (request.element keys).tokens) :
    IsWhole keys session := by
  intro before name attributes rest split known
  refine ⟨request, waiting, ?_⟩
  rw [stream] at split
  rcases List.append_eq_append_iff.mp split with ⟨inside, shape, tokens⟩ | ⟨inside, shape, tokens⟩
  · -- The start tag is in the request, and only its first token is one.
    cases inside with
    | nil =>
        rw [List.nil_append] at tokens
        exact tokens.symm
    | cons first inside =>
        have member :
            .start name attributes ∈ textTokens (request.element keys).text ++ [.stop] := by
          rw [Element.tokens, List.cons_append, List.cons.injEq] at tokens
          rw [tokens.2]
          exact List.mem_append_right _ List.mem_cons_self
        simp [textTokens] at member
  · cases inside with
    | nil =>
        rw [List.nil_append] at tokens
        exact tokens
    | cons first inside =>
        rw [List.cons_append, List.cons.injEq] at tokens
        have member : .start name attributes ∈ earlier := by
          rw [shape, ← tokens.1]
          exact List.mem_append_right _ List.mem_cons_self
        exact absurd (elementAnswer_eq_none silent member) known

end

end Session

/-! ## Transcripts -/

/-- A session and what its player has parsed and executed. -/
structure Transcript (Object Sequence : Type) [DecidableEq Object] where
  session : Session Object Sequence
  history : Player.History Object Sequence

namespace Transcript

variable {Object : Type} [DecidableEq Object]

def new {Sequence : Type} (ackNext : Bool) (requests : List (Request Sequence)) :
    Transcript Object Sequence :=
  ⟨.new ackNext requests, .new ackNext⟩

def next (keys : KeySequences) (transcript : Transcript Object keys.Sequence)
    (action : Session.Action Object) : Transcript Object keys.Sequence :=
  { session := transcript.session.next keys action
    history :=
      match transcript.session.occurrence action with
      | some occurrence => transcript.history.next keys occurrence
      | none => transcript.history }

section

variable (keys : KeySequences)

/-- The two sides of a transcript, as long as the document is open. -/
structure Corresponds (ackNext : Bool) (transcript : Transcript Object keys.Sequence) :
    Prop where
  inStep : transcript.session.InStep keys ackNext
  player : transcript.history.player = transcript.session.player
  arrived : transcript.history.arrived ++ transcript.session.toPlayer =
    transcript.session.written keys
  consistent : transcript.history.Consistent keys
  asked : ∃ requests : List (Request keys.Sequence), transcript.session.sent = requests.map .request
  whole : transcript.session.IsWhole keys

variable {keys} {ackNext : Bool} {transcript : Transcript Object keys.Sequence}

theorem corresponds_new (ackNext : Bool) (requests : List (Request keys.Sequence))
    (timed : ∀ request ∈ requests, request.IsTimed) :
    Corresponds keys ackNext (new ackNext requests : Transcript Object keys.Sequence) where
  inStep := Session.inStep_new ackNext requests timed
  player := rfl
  arrived := rfl
  consistent := Player.History.consistent_new keys ackNext
  asked := ⟨[], rfl⟩
  whole := Session.isWhole_of_silent rfl

theorem next_of_allowed {history : Player.History Object keys.Sequence}
    {occurrence : Occurrence Object} (allowed : history.player.Allows occurrence) :
    (history.next keys occurrence).player = history.player.meet keys occurrence ∧
      (history.next keys occurrence).arrived = history.arrived ++ occurrence.arrived := by
  rw [Player.History.next, if_pos allowed]
  cases occurrence with
  | readyRead arrived => exact ⟨rfl, rfl⟩
  | _ => exact ⟨rfl, (List.append_nil _).symm⟩

/-- The player is called, and nothing is sent. -/
theorem Corresponds.call (corresponds : transcript.Corresponds keys ackNext)
    {session : Session Object keys.Sequence} {occurrence : Occurrence Object}
    (inStep : session.InStep keys ackNext)
    (allowed : transcript.session.player.Allows occurrence)
    (player : session.player = transcript.session.player.meet keys occurrence)
    (toPlayer : occurrence.arrived ++ session.toPlayer = transcript.session.toPlayer)
    (sent : session.sent = transcript.session.sent) (whole : session.IsWhole keys) :
    Corresponds keys ackNext ⟨session, transcript.history.next keys occurrence⟩ := by
  obtain ⟨meets, arrived⟩ := next_of_allowed (corresponds.player ▸ allowed)
  constructor
  · exact inStep
  · rw [meets, corresponds.player, player]
  · rw [arrived, List.append_assoc, toPlayer, corresponds.arrived, Session.written,
      Session.written, sent]
  · exact (corresponds.consistent.next occurrence).1
  · rw [sent]
    exact corresponds.asked
  · exact whole

/-- The player has nothing to do with it. -/
theorem Corresponds.receive (corresponds : transcript.Corresponds keys ackNext)
    {reply : Reply Object}
    (arrives : transcript.session.player.written[transcript.session.handled]? = some reply) :
    Corresponds keys ackNext
      ⟨{ transcript.session with
          handled := transcript.session.handled + 1 }.processReply reply, transcript.history⟩ := by
  have inStep := corresponds.inStep.receive arrives
  rcases corresponds.inStep.underway.receive arrives with ⟨same, -⟩ | ⟨same, -, silent, -⟩
  · rw [same] at inStep ⊢
    exact ⟨inStep, corresponds.player, corresponds.arrived, corresponds.consistent,
      corresponds.asked, corresponds.whole⟩
  · rw [same] at inStep ⊢
    exact ⟨inStep, corresponds.player, corresponds.arrived, corresponds.consistent,
      corresponds.asked, Session.isWhole_of_silent silent⟩

theorem Corresponds.send (corresponds : transcript.Corresponds keys ackNext)
    (idle : transcript.session.waiting = none) {request : Request keys.Sequence}
    {rest : List (Order keys.Sequence)}
    (orders : transcript.session.orders = .request request :: rest) :
    Corresponds keys ackNext ⟨transcript.session.send keys, transcript.history⟩ := by
  obtain ⟨-, silent⟩ := corresponds.inStep.underway.settled idle
  obtain ⟨-, stream⟩ := corresponds.inStep.underway.send idle orders
  obtain ⟨requests, asked⟩ := corresponds.asked
  have next := Session.send_eq orders
  have inStep := corresponds.inStep.send idle orders
  constructor
  · exact inStep
  · rw [next]
    exact corresponds.player
  · rw [next, Session.written, List.flatMap_append, ← List.cons_append, ← Session.written,
      ← corresponds.arrived]
    simp
  · exact corresponds.consistent
  · refine ⟨requests ++ [request], ?_⟩
    rw [next, List.map_append, ← asked]
    rfl
  · exact Session.isWhole_of_request silent (by rw [next]) stream

/-- An action on both sides. -/
theorem Corresponds.next (corresponds : transcript.Corresponds keys ackNext)
    {action : Session.Action Object} (proceeds : transcript.session.Proceeds keys action) :
    Corresponds keys ackNext (transcript.next keys action) ∨
      .endDocument ∈ (transcript.next keys action).session.sent := by
  obtain ⟨enabled, finds⟩ := proceeds
  have inStep := corresponds.inStep
  rcases inStep.next ⟨enabled, finds⟩ with stays | ended
  case inr => exact .inr ended
  cases action with
  | send =>
      obtain ⟨idle, -⟩ := enabled
      obtain ⟨requests, orders, -⟩ := inStep.orders
      cases requests with
      | nil =>
          right
          rw [Transcript.next, Session.next, Session.send, orders]
          exact List.mem_append_right _ List.mem_cons_self
      | cons request later => exact .inl (corresponds.send idle orders)
  | receive =>
      left
      rw [Transcript.next, Session.next]
      split
      next reply arrives => exact corresponds.receive arrives
      next => exact corresponds
  | deliver count =>
      have same := Session.deliver_eq inStep.sound.connected inStep.resting count
      obtain ⟨-, stream⟩ := inStep.underway.deliver count
      left
      apply corresponds.call stays ⟨enabled.1.1, enabled.2.1⟩
      · rw [Session.next, same, Player.meet, Player.readyRead, if_pos inStep.sound.connected]
      · rw [Session.next, same]
        exact List.take_append_drop _ _
      · rw [Session.next, same]
      · apply corresponds.whole.of_suffix (stream.symm.trans (List.nil_append _).symm)
        rw [same]
  | run application =>
      obtain ⟨parses, performs⟩ := inStep.findsTargets finds
      obtain ⟨same, -⟩ := inStep.underway.run
        (Player.stepsSafely_of keys application inStep.sound.device parses performs)
      obtain ⟨consumed, reads⟩ := corresponds.consistent.reads
      have stopped := reads.stopped
      rw [corresponds.player] at stopped
      obtain ⟨taken, consumes⟩ :=
        Player.step_consumes keys application transcript.session.player enabled.1.1 stopped
      left
      apply corresponds.call stays ⟨enabled.1.1, enabled.2⟩
      · rw [Session.next, same]
        rfl
      · rw [Session.next, same]
        rfl
      · rw [Session.next, same]
      · apply corresponds.whole.of_suffix
        · rw [Session.next, same, Session.stream, Session.stream, consumes.unread,
            List.append_assoc]
        · rw [Session.next, same]
  | endFlush =>
      left
      exact corresponds.call stays ⟨enabled.1.1, enabled.2⟩ rfl rfl rfl corresponds.whole
  | waitFinished =>
      obtain ⟨replies, -, shape⟩ := inStep.sound.waitFinished_eq enabled.2.2
      obtain ⟨processingEvents, stack, unread⟩ := Player.processEvents_eq
        { transcript.session.player with
          timers := 0, processingEvents := false,
          written := transcript.session.player.written ++ replies }
      rw [unread] at shape
      left
      apply corresponds.call stays ⟨enabled.1.1, enabled.2⟩ rfl rfl rfl
      have stream : ({ transcript.session with
          player := transcript.session.player.waitFinished } : Session Object _).stream =
            transcript.session.stream := by
        rw [Session.stream, Session.stream, shape]
      exact corresponds.whole.of_suffix (stream.symm.trans (List.nil_append _).symm) rfl

/-! ## What is read -/

/-- An element whose text is read is that of the request, of which the player has a part. -/
theorem Corresponds.readText_eq (corresponds : transcript.Corresponds keys ackNext)
    {element : Element} (isNext : element ∈ transcript.session.player.nextElements.head?)
    (isText : Player.readsText element.name = true) (later : List Token) :
    ∃ request, transcript.session.waiting = some (.request request) ∧
      (request.element keys).name = element.name ∧
      (transcript.session.player.readText (transcript.session.toPlayer ++ later)).1 =
        (request.element keys).text ∧
      (transcript.session.player.readText (transcript.session.toPlayer ++ later)).2.1.error =
        false := by
  obtain ⟨before, unread, fine, -⟩ := Player.unread_of_nextElements isNext
  have stream : transcript.session.stream = before ++ .start element.name element.attributes ::
      (transcript.session.player.readToken.unread ++ transcript.session.toPlayer) := by
    rw [Session.stream, unread]
    simp
  obtain ⟨request, waiting, tokens⟩ :=
    corresponds.whole before _ _ _ stream (Player.History.readsText_known isText)
  rw [Element.tokens, List.cons.injEq] at tokens
  obtain ⟨tag, inside⟩ := tokens
  refine ⟨request, waiting, ?_, ?_⟩
  · injection tag with name
    exact name.symm
  · have whole : transcript.session.player.readToken.unread ++
        (transcript.session.toPlayer ++ later) =
          textTokens (request.element keys).text ++ .stop :: later := by
      rw [← List.append_assoc, inside]
      simp
    rw [Player.readText, whole, XmlReader.readElementText_whole]
    exact ⟨rfl, fine⟩

/-- The step sees enough of what it reads if it sees the whole number of a sleep. -/
theorem Corresponds.readsAlike_iff (corresponds : transcript.Corresponds keys ackNext)
    {action : Session.Action Object} (enabled : transcript.session.Enabled action)
    {document later : List Token}
    (isDocument : document = transcript.session.written keys ++ later) :
    (∀ occurrence ∈ transcript.session.occurrence action,
        transcript.history.ReadsAlike document occurrence) ↔
      transcript.session.ReadsTime action := by
  have missing : transcript.history.missing document = transcript.session.toPlayer ++ later := by
    rw [Player.History.missing, isDocument, ← corresponds.arrived, List.append_assoc,
      List.drop_left]
  cases action with
  | run application =>
      have allowed : transcript.history.player.Allows (.run application) := by
        rw [corresponds.player]
        exact ⟨enabled.1.1, enabled.2⟩
      constructor
      · intro reads order waiting msec isSleep element isNext name
        have isText : Player.readsText element.name = true := by
          rw [name]
          rfl
        obtain ⟨-, -, -, read⟩ := Player.unread_of_nextElements isNext
        obtain ⟨request, asked, sameName, sameText, -⟩ :=
          corresponds.readText_eq isNext isText later
        obtain ⟨duration, isDuration, number⟩ :=
          Order.duration_of_name keys (sameName.trans name)
        have enough := reads _ rfl allowed element (by rw [corresponds.player]; exact isNext) isText
        rw [missing, corresponds.player] at enough
        have same := enough.number name
        rw [sameText, number, intText, QString.toInt_number] at same
        rw [waiting] at asked
        cases asked
        rw [isSleep] at isDuration
        cases isDuration
        rw [← same, read, if_pos isText]
      · intro reads occurrence same
        cases same
        intro _ element isNext isText
        rw [corresponds.player] at isNext ⊢
        obtain ⟨-, -, -, read⟩ := Player.unread_of_nextElements isNext
        obtain ⟨request, asked, sameName, sameText, fine⟩ :=
          corresponds.readText_eq isNext isText later
        rw [missing]
        refine ⟨fun isSleep => ?_, fun child => absurd child (by simp [fine])⟩
        obtain ⟨duration, isDuration, number⟩ :=
          Order.duration_of_name keys (sameName.trans isSleep)
        have time := reads _ asked _ isDuration _ isNext isSleep
        rw [sameText, number, intText, QString.toInt_number, ← time, read, if_pos isText]
  | deliver | endFlush | waitFinished =>
      refine iff_of_true (fun occurrence same => ?_) trivial
      cases same
      trivial
  | send | receive =>
      refine iff_of_true (fun occurrence impossible => ?_) trivial
      cases impossible

/-! ## Runs -/

theorem session_foldl (ackNext : Bool) (requests : List (Request keys.Sequence))
    (actions : List (Session.Action Object)) :
    (actions.foldl (Transcript.next keys) (new ackNext requests)).session =
      actions.foldl (Session.next keys) (Session.new ackNext requests) := by
  induction actions using List.reverseRecOn with
  | nil => rfl
  | append_singleton actions last ih =>
      rw [List.foldl_append, List.foldl_append, List.foldl_cons, List.foldl_cons, List.foldl_nil,
        List.foldl_nil, ← ih]
      rfl

theorem sent_foldl (session : Session Object keys.Sequence)
    (actions : List (Session.Action Object)) :
    session.sent <+: (actions.foldl (Session.next keys) session).sent := by
  induction actions generalizing session with
  | nil => exact List.prefix_rfl
  | cons first actions ih =>
      obtain ⟨more, sent, -⟩ := session.orders_next first
      exact List.IsPrefix.trans ⟨more, sent.symm⟩ (ih _)

theorem corresponds_foldl {requests : List (Request keys.Sequence)}
    (timed : ∀ request ∈ requests, request.IsTimed) {actions : List (Session.Action Object)}
    (proceeds : StepsMeet (Session.next keys) (Session.Proceeds keys)
      (Session.new ackNext requests) actions)
    (script : .endDocument ∉
      (actions.foldl (Session.next keys) (Session.new ackNext requests)).sent) :
    Corresponds keys ackNext (actions.foldl (Transcript.next keys) (new ackNext requests)) := by
  induction actions using List.reverseRecOn with
  | nil => exact corresponds_new ackNext requests timed
  | append_singleton actions last ih =>
      have before := session_foldl ackNext requests actions
      have proceedsLast := proceeds.last
      rw [List.foldl_append, List.foldl_cons, List.foldl_nil] at script ⊢
      have corresponds := ih proceeds.prefix
        fun ended => script ((sent_foldl _ [last]).subset ended)
      rw [← before] at script proceedsLast
      exact (corresponds.next proceedsLast).resolve_right script

theorem written_foldl (session : Session Object keys.Sequence)
    (actions : List (Session.Action Object)) :
    ∃ later, (actions.foldl (Session.next keys) session).written keys =
      session.written keys ++ later := by
  obtain ⟨more, sent⟩ := sent_foldl session actions
  exact ⟨more.flatMap (Order.tokens keys), by
    rw [Session.written, Session.written, ← sent, List.flatMap_append, List.cons_append]⟩

/-- What has been written asks for what the orders ask for. -/
theorem Corresponds.entries (corresponds : transcript.Corresponds keys ackNext)
    (application : Application Object) :
    Player.History.entries keys application
        (elementsFrom 0 none (transcript.session.written keys)) =
      transcript.session.sent.flatMap (Order.events keys application) := by
  obtain ⟨requests, asked⟩ := corresponds.asked
  have tokens : transcript.session.written keys = .start "hooq" [] ::
      ((requests.map (Request.element keys)).flatMap Element.tokens ++ []) := by
    rw [Session.written, asked, List.flatMap_map, List.flatMap_map, List.append_nil]
    rfl
  rw [tokens, entries_elements keys application _ rfl, asked, List.flatMap_map, List.flatMap_map]
  rfl

/-- An interpreter that does not wait leaves nothing for the player to do. -/
theorem Corresponds.settled (corresponds : transcript.Corresponds keys ackNext)
    (idle : transcript.session.waiting = none) :
    transcript.history.player.eventQueue = [] ∧
      (∀ element ∈ transcript.history.player.ahead transcript.session.toPlayer,
        elementAnswer element.name = none) := by
  obtain ⟨due, silent⟩ := corresponds.inStep.underway.settled idle
  rw [corresponds.player]
  refine ⟨(Player.settled_of_due due).1, fun element member => ?_⟩
  rw [Player.ahead_of_device corresponds.inStep.sound.device, XmlReader.ahead] at member
  split at member
  · cases member
  · rcases mem_of_elementsFrom member with ⟨attributes, found⟩ | ⟨_, impossible, _⟩
    · exact elementAnswer_eq_none silent found
    · cases impossible

section

variable {application : Application Object} {document : List Token}
  {action : Session.Action Object}

variable (application) in
/-- The player answers the drags in the same way with whatever the action is for it. -/
def DropsLike (transcript : Transcript Object keys.Sequence) (action : Session.Action Object) :
    Prop :=
  ∀ occurrence ∈ transcript.session.occurrence action,
    transcript.history.DropsLike keys application occurrence

theorem Corresponds.dropsLike (corresponds : transcript.Corresponds keys ackNext)
    (alike : transcript.session.DropsLike keys application action) :
    transcript.DropsLike application action := by
  intro occurrence occurs
  rw [Player.History.DropsLike, corresponds.player]
  cases action with
  | run other =>
      cases occurs
      exact alike
  | send | receive => cases occurs
  | deliver | endFlush | waitFinished =>
      cases occurs
      trivial

theorem follows_next (alike : transcript.DropsLike application action)
    (follows : Player.History.Follows keys application document transcript.history)
    (reads : ∀ occurrence ∈ transcript.session.occurrence action,
      transcript.history.ReadsAlike document occurrence) :
    Player.History.Follows keys application document (transcript.next keys action).history := by
  rw [Transcript.next]
  split
  next occurrence occurs =>
    exact follows.next (alike occurrence occurs) (reads occurrence occurs)
  next => exact follows

theorem strays_next (alike : transcript.DropsLike application action)
    (follows : Player.History.Follows keys application document transcript.history)
    (misreads : ¬∀ occurrence ∈ transcript.session.occurrence action,
      transcript.history.ReadsAlike document occurrence) :
    Player.History.Strays keys application document (transcript.next keys action).history := by
  simp only [not_forall] at misreads
  obtain ⟨occurrence, occurs, misreads⟩ := misreads
  have same : (transcript.next keys action).history =
      transcript.history.next keys occurrence := by
    rw [Transcript.next, Option.mem_def.mp occurs]
  rw [same]
  exact follows.strays (alike occurrence occurs) misreads

theorem stays_next (alike : transcript.DropsLike application action)
    (strays : Player.History.Strays keys application document transcript.history) :
    Player.History.Strays keys application document (transcript.next keys action).history := by
  rw [Transcript.next]
  split
  next occurrence occurs => exact strays.next (alike occurrence occurs)
  next => exact strays

end

theorem Corresponds.missing (corresponds : transcript.Corresponds keys ackNext) :
    transcript.history.missing (transcript.session.written keys) =
      transcript.session.toPlayer := by
  rw [Player.History.missing, ← corresponds.arrived, List.drop_left]

/-- Each step of a script reads as it would with all that is ever written exactly if it
reads the time of its sleep. -/
theorem stepsMeet_readsAlike {requests : List (Request keys.Sequence)}
    (timed : ∀ request ∈ requests, request.IsTimed) {actions : List (Session.Action Object)}
    (proceeds : StepsMeet (Session.next keys) (Session.Proceeds keys)
      (Session.new ackNext requests) actions)
    (script : .endDocument ∉
      (actions.foldl (Session.next keys) (Session.new ackNext requests)).sent) :
    StepsMeet (Transcript.next keys)
        (fun transcript action => ∀ occurrence ∈ transcript.session.occurrence action,
          transcript.history.ReadsAlike
            ((actions.foldl (Session.next keys) (Session.new ackNext requests)).written keys)
            occurrence)
        (new ackNext requests) actions ↔
      StepsMeet (Session.next keys) Session.ReadsTime (Session.new ackNext requests) actions := by
  have agree (before : List (Session.Action Object)) (action : Session.Action Object)
      (after : List (Session.Action Object)) (shape : actions = before ++ action :: after) :
      (∀ occurrence ∈ (before.foldl (Transcript.next keys)
            (new ackNext requests)).session.occurrence action,
          (before.foldl (Transcript.next keys) (new ackNext requests)).history.ReadsAlike
            ((actions.foldl (Session.next keys) (Session.new ackNext requests)).written keys)
            occurrence) ↔
        (before.foldl (Session.next keys) (Session.new ackNext requests)).ReadsTime action := by
    have enabled := (proceeds before action after shape).1
    obtain ⟨later, written⟩ := written_foldl
      (before.foldl (Session.next keys) (Session.new ackNext requests)) (action :: after)
    rw [← List.foldl_append, ← shape] at written
    rw [shape] at proceeds
    rw [shape, List.foldl_append] at script
    have reached := corresponds_foldl timed proceeds.prefix
      fun ended => script ((sent_foldl _ _).subset ended)
    rw [← session_foldl ackNext requests before] at enabled written ⊢
    exact reached.readsAlike_iff enabled written
  constructor
  · exact fun meets before action after shape =>
      (agree before action after shape).mp (meets before action after shape)
  · exact fun meets before action after shape =>
      (agree before action after shape).mpr (meets before action after shape)

/-- A script keeps to the queue that its orders ask for as long as it reads the time of
every sleep, and leaves it for good otherwise. -/
theorem follows_or_strays_foldl {application : Application Object}
    {requests : List (Request keys.Sequence)}
    (timed : ∀ request ∈ requests, request.IsTimed) {actions : List (Session.Action Object)}
    (drops : StepsMeet (Session.next keys) (Session.DropsLike keys application)
      (Session.new ackNext requests) actions)
    (proceeds : StepsMeet (Session.next keys) (Session.Proceeds keys)
      (Session.new ackNext requests) actions)
    (script : .endDocument ∉
      (actions.foldl (Session.next keys) (Session.new ackNext requests)).sent) :
    let final := actions.foldl (Transcript.next keys) (new ackNext requests)
    StepsMeet (Session.next keys) Session.ReadsTime (Session.new ackNext requests) actions ∧
        Player.History.Follows keys application (final.session.written keys) final.history ∨
      ¬StepsMeet (Session.next keys) Session.ReadsTime (Session.new ackNext requests) actions ∧
        Player.History.Strays keys application (final.session.written keys) final.history := by
  intro final
  have sameReads := stepsMeet_readsAlike timed proceeds script
  have alike : StepsMeet (Transcript.next keys)
      (fun transcript action => transcript.DropsLike application action)
      (new ackNext requests) actions := by
    intro before action after shape
    have dropsHere := drops before action after shape
    rw [shape] at proceeds
    rw [shape, List.foldl_append] at script
    have reached := corresponds_foldl timed proceeds.prefix
      fun ended => script ((sent_foldl _ _).subset ended)
    rw [← session_foldl ackNext requests before] at dropsHere
    exact reached.dropsLike dropsHere
  rw [← session_foldl] at sameReads
  rw [← sameReads]
  exact follows_or_strays (Transcript.next keys) _
    (fun transcript => Player.History.Follows keys application (final.session.written keys)
      transcript.history)
    (fun transcript => Player.History.Strays keys application (final.session.written keys)
      transcript.history)
    (fun transcript action => transcript.DropsLike application action) (new ackNext requests)
    (fun _ _ alike follows reads => follows_next alike follows reads)
    (fun _ _ alike follows misreads => strays_next alike follows misreads)
    (fun _ _ alike strays => stays_next alike strays)
    (Player.History.follows_new ackNext) actions alike

section

variable {application : Application Object}

theorem Corresponds.enqueued (corresponds : transcript.Corresponds keys ackNext)
    (idle : transcript.session.waiting = none) :
    transcript.history.enqueued = transcript.history.executed.map Execution.event := by
  rw [Player.History.enqueued, (corresponds.settled idle).1, List.append_nil]

/-- A script that keeps to its queue has had it executed when the interpreter does not
wait. -/
theorem Corresponds.executed (corresponds : transcript.Corresponds keys ackNext)
    (idle : transcript.session.waiting = none)
    (follows : Player.History.Follows keys application (transcript.session.written keys)
      transcript.history) :
    transcript.history.executed.map Execution.event =
      transcript.session.sent.flatMap (Order.events keys application) := by
  have alive : transcript.history.player.failed = false := by
    rw [corresponds.player]
    exact corresponds.inStep.sound.alive
  have queues := (follows.queues ⟨_, corresponds.arrived⟩).resolve_left (by simp [alive])
  rwa [corresponds.missing, Player.History.entries_unknown (corresponds.settled idle).2,
    List.append_nil, corresponds.enqueued idle, corresponds.entries] at queues

/-- A script that has left its queue has had something else executed. -/
theorem Corresponds.not_executed (corresponds : transcript.Corresponds keys ackNext)
    (idle : transcript.session.waiting = none)
    (strays : Player.History.Strays keys application (transcript.session.written keys)
      transcript.history) :
    transcript.history.executed.map Execution.event ≠
      transcript.session.sent.flatMap (Order.events keys application) := by
  rw [← corresponds.entries application, ← corresponds.enqueued idle]
  intro same
  rcases strays.leaves ⟨_, corresponds.arrived⟩ with
    failed | gone | ⟨front, rest, ahead, -, element, member, known⟩
  · rw [corresponds.player] at failed
    exact absurd (failed.symm.trans corresponds.inStep.sound.alive) (by decide)
  · exact gone (same ▸ List.prefix_rfl)
  · rw [corresponds.missing] at ahead
    apply known
    apply (corresponds.settled idle).2 element
    rw [ahead]
    exact List.mem_append_right _ member

end

end

/-! ## A key and a sleep -/

section

def keyAndSleep : List (Request plainSequences.Sequence) :=
  [.command (.key .press "window" 65 0 "a" false 1), .command (.sleep 25)]

/-- The player goes on for a number of steps. -/
def steps (count : Nat) : List (Session.Action (Fin 3)) :=
  List.replicate count (.run buttonApplication)

/-- Both are acknowledged.  The end tag of the sleep has not arrived when its number is
read. -/
def keyAndSleepRun : List (Session.Action (Fin 3)) :=
  steps 3 ++ [.deliver 1] ++ steps 6 ++ [.send, .deliver 1] ++ steps 2 ++
    [.receive] ++ steps 5 ++ [.deliver 1] ++ steps 4 ++ [.send, .deliver 3] ++
    steps 4 ++ [.waitFinished, .receive]

theorem keyAndSleepRun_dropsLike :
    StepsMeet (Session.next plainSequences) (Session.DropsLike plainSequences buttonApplication)
      (Session.new false keyAndSleep) keyAndSleepRun := by
  intro before action after shape
  have member : action ∈ keyAndSleepRun := by simp [shape]
  cases action with
  | run other =>
      have same : other = buttonApplication := by
        simpa [keyAndSleepRun, steps, List.mem_replicate] using member
      rw [same]
      exact fun _ _ _ _ => rfl
  | _ => trivial

theorem keyAndSleepRun_proceeds :
    StepsMeet (Session.next plainSequences) (Session.Proceeds plainSequences)
      (Session.new false keyAndSleep) keyAndSleepRun := by
  have asks : StepsMeet (Session.next plainSequences)
      (fun session action => session.Enabled action ∧
        (session.waiting = none ∨ session.waiting ∈ keyAndSleep.map fun asked =>
          some (.request asked)))
      (Session.new false keyAndSleep) keyAndSleepRun := by decide +kernel
  refine asks.mono fun session action step => ⟨step.1, ?_⟩
  cases action with
  | run application =>
      rintro request ⟨waiting, -⟩
      rcases step.2 with idle | member
      · rw [idle] at waiting
        cases waiting
      · simp only [keyAndSleep, List.map_cons, List.map_nil, List.mem_cons, List.not_mem_nil,
          or_false, waiting, Option.some.injEq, Order.request.injEq] at member
        rcases member with rfl | rfl <;> trivial
  | _ => trivial

end

end Transcript

end Hooq
