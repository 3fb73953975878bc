import Hooq.Playback.Underway

/-!
# Acknowledgements in lock-step

While the interpreter sends one order at a time, everything that the player has to
answer, in the stream, in the queue and on the way back, is the answer to the order
that the interpreter waits for.
-/

namespace Hooq

namespace Request

variable {Sequence : Type}

/-- A sleep is not negative. -/
def IsTimed : Request Sequence → Prop
  | .command (.sleep msec) => ¬msec < 0
  | _ => True

variable {Object : Type} [DecidableEq Object] (application : Application Object)

/-- What the player cannot do without is there: the window to close, the widget to drop
on, the object to dump. -/
def Answerable : Request Sequence → Prop
  | .command (.close path) => (application.findWidget path).isSome = true
  | .command (.dragAndDrop _ _ targetPath _) =>
      (application.findWidget targetPath).isSome = true ∧ ¬application.startDragTime + 1 < 0
  | .dump objectPath => (application.tree.findObject objectPath).isSome = true
  | _ => True

end Request

/-! ## The entries for a request -/

section

/-- A text without a sign is not negative. -/
theorem QString.not_toInt_neg {text : QString} (unsigned : QString.minus ∉ text) :
    ¬text.toInt < 0 := by
  have natural (value : Int) (found : text.toInteger = some value) : 0 ≤ value := by
    rw [QString.toInteger] at found
    have kept : ∀ character ∈ text.trimmed, character ∈ text := by
      intro character member
      have first := List.mem_reverse.mp member
      have second := (List.dropWhile_sublist _).subset first
      exact (List.dropWhile_sublist _).subset (List.mem_reverse.mp second)
    split at found
    · cases found
    next first rest shape =>
      have notMinus : first ≠ QString.minus := by
        rintro rfl
        exact unsigned (kept _ (by simp [shape]))
      rw [if_neg notMinus] at found
      split at found
      all_goals
        obtain ⟨magnitude, -, rfl⟩ := Option.map_eq_some_iff.mp found
        exact Int.natCast_nonneg magnitude
  rw [QString.toInt]
  split
  next value found =>
    have nonnegative := natural value found
    split
    next bounds =>
      rw [Int32.not_lt, Int32.le_iff_toInt_le, Int32.toInt_ofInt_of_le bounds.1 bounds.2]
      exact nonnegative
    next => decide
  next => decide

variable (keys : KeySequences) {Object : Type} [DecidableEq Object]

/-- The player finds what it needs for the entries of an answerable request. -/
theorem safe_of_postElement (application : Application Object)
    (request : Request keys.Sequence) (answerable : request.Answerable application)
    {text : QString} (unsigned : QString.minus ∉ text) {events : List (Event keys.Sequence)}
    (found : Player.postElement keys application (request.element keys).name
      (request.element keys).attributes text = some events) (other : Application Object)
    (otherAnswerable : request.Answerable other) :
    ∀ event ∈ events, Player.IsSafe other event := by
  have single {entry : Event keys.Sequence} (same : some [entry] = some events)
      (safe : Player.IsSafe other entry) : ∀ event ∈ events, Player.IsSafe other event := by
    cases same
    simpa using safe
  match request with
  | .command (.key .press ..) => exact single found trivial
  | .command (.key .release ..) => exact single found trivial
  | .command (.mouse .move ..) => exact single found trivial
  | .command (.mouse .press ..) => exact single found trivial
  | .command (.mouse .release ..) => exact single found trivial
  | .command (.mouse .doubleClick ..) => exact single found trivial
  | .command (.contextMenu ..) => exact single found trivial
  | .command (.wheel ..) => exact single found trivial
  | .command (.shortcut ..) => exact single found trivial
  | .command (.setFocus ..) => exact single found trivial
  | .command (.close path) => exact single found otherAnswerable
  | .command (.sleep msec) => exact single found (QString.not_toInt_neg unsigned)
  | .dump objectPath => exact single found otherAnswerable
  | .command (.dragAndDrop sourcePath sourcePoint targetPath targetPoint) =>
      obtain ⟨widget, -, rfl⟩ := Option.map_eq_some_iff.mp
        (show Player.postDragAndDrop application _ = some events from found)
      intro event member
      simp only [Player.dragSteps, List.mem_cons, List.not_mem_nil, or_false] at member
      rcases member with rfl | rfl | rfl | rfl | rfl | rfl | rfl | rfl | rfl | rfl | rfl
      case inr.inr.inr.inr.inr.inl => exact answerable.2
      all_goals exact trivial

/-- The only drags are those of drag requests. -/
theorem findWidget_of_drag (application : Application Object) (request : Request keys.Sequence)
    (answerable : request.Answerable application)
    (drag : (request.element keys).name = QString.ofString "dragAndDrop") :
    (application.findWidget ((request.element keys).attributes.value "target")).isSome = true := by
  have other {conclusion : Prop} (name : String)
      (different : QString.ofString name ≠ QString.ofString "dragAndDrop")
      (same : QString.ofString name = QString.ofString "dragAndDrop") : conclusion :=
    absurd same different
  match request with
  | .command (.dragAndDrop ..) => exact answerable.1
  | .command (.key .press ..) => exact other "keyPress" (by decide) drag
  | .command (.key .release ..) => exact other "keyRelease" (by decide) drag
  | .command (.mouse .move ..) => exact other "mouseMove" (by decide) drag
  | .command (.mouse .press ..) => exact other "mouseButtonPress" (by decide) drag
  | .command (.mouse .release ..) => exact other "mouseButtonRelease" (by decide) drag
  | .command (.mouse .doubleClick ..) => exact other "mouseButtonDoubleClick" (by decide) drag
  | .command (.contextMenu ..) => exact other "contextMenu" (by decide) drag
  | .command (.wheel ..) => exact other "mouseWheel" (by decide) drag
  | .command (.shortcut ..) => exact other "shortcut" (by decide) drag
  | .command (.setFocus ..) => exact other "focusChanged" (by decide) drag
  | .command (.close _) => exact other "windowClosed" (by decide) drag
  | .command (.sleep _) => exact other "msec" (by decide) drag
  | .dump _ => exact other "dump" (by decide) drag

/-- A request that is timed is written without a sign. -/
theorem unsigned_request (request : Request keys.Sequence) (timed : request.IsTimed) :
    QString.minus ∉ (request.element keys).text := by
  match request with
  | .command (.sleep msec) =>
      have nonnegative : ¬msec.toInt < 0 := fun negative => timed (Int32.lt_iff_toInt_lt.mpr negative)
      intro member
      have digits : QString.minus ∈ (Library.Decimal.digits msec.toInt.natAbs).map
          QString.digitOf := by
        simpa [Request.element, Interpreter.write, Interpreter.writeSleep, QString.number,
          nonnegative] using member
      obtain ⟨digit, digitMember, same⟩ := List.mem_map.mp digits
      exact (QString.digitOf_spec (Library.Decimal.digits_lt_ten digitMember)).2.2.2.1 same
  | .command (.key .press ..) => exact List.not_mem_nil
  | .command (.key .release ..) => exact List.not_mem_nil
  | .command (.mouse .move ..) => exact List.not_mem_nil
  | .command (.mouse .press ..) => exact List.not_mem_nil
  | .command (.mouse .release ..) => exact List.not_mem_nil
  | .command (.mouse .doubleClick ..) => exact List.not_mem_nil
  | .command (.contextMenu ..) => exact List.not_mem_nil
  | .command (.wheel ..) => exact List.not_mem_nil
  | .command (.shortcut ..) => exact List.not_mem_nil
  | .command (.setFocus ..) => exact List.not_mem_nil
  | .command (.close _) => exact List.not_mem_nil
  | .command (.dragAndDrop ..) => exact List.not_mem_nil
  | .dump _ => exact List.not_mem_nil

end

/-! ## The invariant of the script -/

namespace Session

section

variable {Object Sequence : Type} (session : Session Object Sequence)

/-- The interpreter waits for a request that has not been answered. -/
def Unanswered (request : Request Sequence) : Prop :=
  session.waiting = some (.request request) ∧ session.returning = []

end

section

variable (keys : KeySequences) {Object : Type} [DecidableEq Object]

/-- While the player works on a request, the objects that it cannot do without are
there. -/
def FindsTargets {Sequence : Type} (session : Session Object Sequence) :
    Action Object → Prop
  | .run application => ∀ request, session.Unanswered request → request.Answerable application
  | _ => True

/-- While the script runs, only the order that is waited for is outstanding. -/
structure InStep (ackNext : Bool) (session : Session Object keys.Sequence) : Prop where
  sound : session.player.Sound
  flat : session.player.reader.Flat session.stream
  resting : session.marshall = .resting
  handled : session.handled ≤ session.player.written.length
  outstanding : session.outstanding = (session.waiting.map Order.answer).toList
  told : session.handledAnswers ++ (session.waiting.map Order.answer).toList =
    session.sent.map Order.answer
  pendingAcks : session.pendingAcks =
    if session.waiting.map Order.answer = some .ack then 1 else 0
  script : ∀ order, session.waiting = some order → ∃ request, order = .request request
  tags : ∀ name attributes, .start name attributes ∈ session.stream →
    elementAnswer name ≠ none → ∃ request, session.waiting = some (.request request) ∧
      (request.element keys).name = name ∧ (request.element keys).attributes = attributes
  safe : ∀ event ∈ session.player.eventQueue, ∃ request,
    session.waiting = some (.request request) ∧
      ∀ application : Application Object, request.Answerable application →
        Player.IsSafe application event
  unsigned : .character QString.minus ∉ session.stream
  orders : ∃ requests : List (Request keys.Sequence),
    session.orders = requests.map .request ++ [.endDocument, .die] ∧
      ∀ request ∈ requests, request.IsTimed
  untouched : session.sent = [] → session.player.ackNext = ackNext

variable {keys} {ackNext : Bool} {session : Session Object keys.Sequence}

theorem InStep.underway (inStep : InStep keys ackNext session) : Underway ackNext session where
  sound := inStep.sound
  flat := inStep.flat
  resting := inStep.resting
  owes := ⟨inStep.handled, by rw [← List.append_assoc]; exact inStep.outstanding, inStep.told,
    inStep.pendingAcks⟩
  script := inStep.script
  orders := by
    obtain ⟨requests, shape, -⟩ := inStep.orders
    exact ⟨requests, shape⟩
  untouched := inStep.untouched

theorem Underway.inStep (underway : Underway ackNext session)
    (tags : ∀ name attributes, .start name attributes ∈ session.stream →
      elementAnswer name ≠ none → ∃ request, session.waiting = some (.request request) ∧
        (request.element keys).name = name ∧ (request.element keys).attributes = attributes)
    (safe : ∀ event ∈ session.player.eventQueue, ∃ request,
      session.waiting = some (.request request) ∧
        ∀ application : Application Object, request.Answerable application →
          Player.IsSafe application event)
    (unsigned : .character QString.minus ∉ session.stream)
    (orders : ∃ requests : List (Request keys.Sequence),
      session.orders = requests.map .request ++ [.endDocument, .die] ∧
        ∀ request ∈ requests, request.IsTimed) :
    InStep keys ackNext session where
  sound := underway.sound
  flat := underway.flat
  resting := underway.resting
  handled := underway.owes.bounded
  outstanding := by
    rw [Session.outstanding, List.append_assoc]
    exact underway.owes.outstanding
  told := underway.owes.told
  pendingAcks := underway.owes.counted
  script := underway.script
  tags := tags
  safe := safe
  unsigned := unsigned
  orders := orders
  untouched := underway.untouched

theorem inStep_new (ackNext : Bool) (requests : List (Request keys.Sequence))
    (timed : ∀ request ∈ requests, request.IsTimed) :
    InStep keys ackNext (new ackNext requests : Session Object keys.Sequence) := by
  refine (underway_new ackNext requests).inStep ?_ nofun ?_ ⟨requests, rfl, timed⟩
  · intro name attributes member known
    have root := List.mem_singleton.mp member
    cases root
    exact absurd rfl known
  · intro member
    cases List.mem_singleton.mp member

/-! ### Calls of the player -/

theorem InStep.deliver (inStep : InStep keys ackNext session) (count : Nat) :
    InStep keys ackNext (session.deliver count) := by
  obtain ⟨underway, stream⟩ := inStep.underway.deliver count
  have shape := deliver_eq inStep.sound.connected inStep.resting count
  apply underway.inStep
  · rw [stream, shape]
    exact inStep.tags
  · rw [shape]
    exact inStep.safe
  · rw [stream]
    exact inStep.unsigned
  · rw [shape]
    exact inStep.orders

theorem InStep.endFlush (inStep : InStep keys ackNext session)
    (flushing : session.player.stack.head? = some .flushing) :
    InStep keys ackNext { session with player := session.player.endFlush } :=
  (inStep.underway.endFlush flushing).inStep inStep.tags inStep.safe inStep.unsigned inStep.orders

theorem InStep.waitFinished (inStep : InStep keys ackNext session)
    (sleeping : session.player.timers ≠ 0) :
    InStep keys ackNext { session with player := session.player.waitFinished } := by
  obtain ⟨replies, -, shape⟩ := inStep.sound.waitFinished_eq sleeping
  obtain ⟨processingEvents, stack, same⟩ := Player.processEvents_eq { session.player with
    timers := 0, processingEvents := false, written := session.player.written ++ replies }
  rw [same] at shape
  have unread : session.player.waitFinished.unread = session.player.unread := by rw [shape]
  have queue : session.player.waitFinished.eventQueue = session.player.eventQueue := by rw [shape]
  apply (inStep.underway.waitFinished sleeping).inStep
  · rw [Session.stream, unread]
    exact inStep.tags
  · rw [queue]
    exact inStep.safe
  · rw [Session.stream, unread]
    exact inStep.unsigned
  · exact inStep.orders

/-- What is owed or not yet read has not been answered. -/
theorem InStep.unanswered (inStep : InStep keys ackNext session) {request : Request keys.Sequence}
    (waiting : session.waiting = some (.request request))
    (owed : session.player.due.filterMap id ++ streamAnswers session.stream ≠ []) :
    session.Unanswered request := by
  refine ⟨waiting, ?_⟩
  have single := inStep.outstanding
  rw [Session.outstanding, waiting, List.append_assoc] at single
  cases returning : session.returning with
  | nil => rfl
  | cons answer rest =>
      rw [returning] at single
      simp only [List.cons_append, Option.map_some, Option.toList_some, List.cons.injEq] at single
      exact absurd (List.append_eq_nil_iff.mp single.2).2 owed

/-- The steps of the player find what they need. -/
theorem InStep.findsTargets (inStep : InStep keys ackNext session)
    {application : Application Object}
    (finds : session.FindsTargets (.run application)) :
    Player.ParsesSafely application session.player.unread ∧
      ∀ event ∈ session.player.eventQueue, Player.IsSafe application event := by
  constructor
  · intro attributes member
    have inStream : .start "dragAndDrop" attributes ∈ session.stream :=
      List.mem_append_left _ member
    have known : elementAnswer (QString.ofString "dragAndDrop") = some .ack :=
      Player.elementAnswer_known "dragAndDrop" (by decide)
    obtain ⟨request, waiting, name, same⟩ := inStep.tags _ _ inStream (by rw [known]; simp)
    rw [← same]
    exact findWidget_of_drag keys application request (finds request (inStep.unanswered waiting
      (List.append_ne_nil_of_right_ne_nil _ (streamAnswers_ne_nil inStream (by rw [known]; simp)))))
      name
  · intro event member
    obtain ⟨request, waiting, safe⟩ := inStep.safe event member
    refine safe application (finds request (inStep.unanswered waiting ?_))
    intro settled
    have due := inStep.sound.due_eq_nil (List.append_eq_nil_iff.mp settled).1
    rw [(Player.settled_of_due due).1] at member
    cases member

theorem InStep.run (inStep : InStep keys ackNext session) {application : Application Object}
    (finds : session.FindsTargets (.run application)) :
    InStep keys ackNext (session.run keys application) := by
  obtain ⟨parses, performs⟩ := inStep.findsTargets finds
  have found := Player.stepsSafely_of keys application inStep.sound.device parses performs
  have flat := inStep.sound.step_flat keys application inStep.flat found
  have steps := inStep.sound.steps keys application inStep.flat.still found flat.still flat.fine
  obtain ⟨quiet, underway⟩ := inStep.underway.run found
  have subset : { session with player := session.player.step keys application }.stream ⊆
      session.stream :=
    List.append_subset.mpr ⟨fun _ member => List.mem_append_left _ (steps.unread member),
      List.subset_append_right _ _⟩
  rw [quiet]
  apply underway.inStep
  · exact fun name attributes member => inStep.tags name attributes (subset member)
  · intro event member
    rcases steps.entries event member with before | read
    · exact inStep.safe event before
    · obtain ⟨name, attributes, text, events, parsed, inText, found, new⟩ := read
      have inStream : .start name attributes ∈ session.stream := List.mem_append_left _ parsed
      have answers := Player.postElement_answers keys application name attributes text found
      have known : elementAnswer name ≠ none := by
        intro silent
        rw [silent] at answers
        rw [answers.eq_nil] at new
        cases new
      obtain ⟨request, waiting, sameName, sameAttributes⟩ :=
        inStep.tags name attributes inStream known
      have answerable := finds request (inStep.unanswered waiting
        (List.append_ne_nil_of_right_ne_nil _ (streamAnswers_ne_nil inStream known)))
      rw [← sameName, ← sameAttributes] at found
      have unsigned : QString.minus ∉ text := fun sign =>
        inStep.unsigned (List.mem_append_left _ (inText (List.mem_map_of_mem sign)))
      exact ⟨request, waiting, fun other otherAnswerable =>
        safe_of_postElement keys application request answerable unsigned found other
          otherAnswerable event new⟩
  · exact fun member => inStep.unsigned (subset member)
  · exact inStep.orders

/-! ### The interpreter -/

theorem InStep.receive (inStep : InStep keys ackNext session) {reply : Reply Object}
    (arrives : session.player.written[session.handled]? = some reply) :
    InStep keys ackNext ({ session with handled := session.handled + 1 }.processReply reply) := by
  rcases inStep.underway.receive arrives with ⟨same, underway⟩ | ⟨same, due, silent, underway⟩
  · rw [same]
    exact underway.inStep inStep.tags inStep.safe inStep.unsigned inStep.orders
  · rw [same]
    apply underway.inStep
    · intro name attributes member known
      exact absurd (elementAnswer_eq_none silent member) known
    · intro event member
      rw [(Player.settled_of_due due).1] at member
      cases member
    · exact inStep.unsigned
    · exact inStep.orders

/-- The next request is sent. -/
theorem InStep.send (inStep : InStep keys ackNext session) (idle : session.waiting = none)
    {request : Request keys.Sequence} {rest : List (Order keys.Sequence)}
    (orders : session.orders = .request request :: rest) :
    InStep keys ackNext (session.send keys) := by
  obtain ⟨due, silent⟩ := inStep.underway.settled idle
  obtain ⟨underway, stream⟩ := inStep.underway.send idle orders
  obtain ⟨requests, shape, timed⟩ := inStep.orders
  obtain ⟨later, sameRequests, sameOrders⟩ : ∃ later, requests = request :: later ∧
      rest = later.map .request ++ [.endDocument, .die] := by
    rw [orders] at shape
    cases requests with
    | nil => cases shape
    | cons first later =>
        obtain ⟨same, rest⟩ := List.cons.inj shape
        cases same
        exact ⟨later, rfl, rest⟩
  have next := send_eq orders
  apply underway.inStep
  · rw [stream, next]
    intro name attributes member known
    refine ⟨request, rfl, ?_⟩
    rcases List.mem_append.mp member with old | new
    · exact absurd (elementAnswer_eq_none silent old) known
    · rw [Element.tokens, List.mem_cons] at new
      rcases new with same | inside
      · cases same
        exact ⟨rfl, rfl⟩
      · simp [textTokens] at inside
  · rw [next]
    intro event member
    rw [(Player.settled_of_due due).1] at member
    cases member
  · rw [stream, List.mem_append, not_or]
    refine ⟨inStep.unsigned, fun member => ?_⟩
    rw [Element.tokens] at member
    have inText : QString.minus ∈ (request.element keys).text := by
      simpa [textTokens] using member
    rw [sameRequests] at timed
    exact unsigned_request keys request (timed request List.mem_cons_self) inText
  · rw [next]
    rw [sameRequests] at timed
    exact ⟨later, sameOrders, fun other member => timed other (List.mem_cons_of_mem _ member)⟩

end

end Session

end Hooq
