import Hooq.Playback.Advances
import Hooq.Playback.Orderly

/-!
# A document in pieces

The player reads whenever data arrives, also in the event loop of a flush.  What it
queues for a document is compared with what it queues if the document arrives at once:
it is the same as long as no text is read before enough of it is there.
-/

namespace Hooq

/-- The application answers the drags that a player parses next in the same way. -/
def Player.DropsLike (keys : KeySequences) {Object : Type} [DecidableEq Object]
    (application : Application Object) (player : Player Object keys.Sequence) :
    Occurrence Object → Prop
  | .run other => player.Allows (.run other) →
      ∀ element ∈ player.nextElements, element.name = QString.ofString "dragAndDrop" →
        (postDragAndDrop other element.attributes : Option (List (Event keys.Sequence))) =
          postDragAndDrop application element.attributes
  | _ => True

namespace Player.History

variable (keys : KeySequences) {Object : Type} [DecidableEq Object]

/-- The entries for elements, none for one that the player fails on. -/
def entries (application : Application Object) (elements : List Element) :
    List (Event keys.Sequence) :=
  elements.flatMap (elementEntries keys application)

/-- The part of a document that has not arrived. -/
def missing {Sequence : Type} (history : Player.History Object Sequence)
    (document : List Token) : List Token :=
  document.drop history.arrived.length

/-- The application answers the drags that are parsed in the same way. -/
def DropsLike (application : Application Object)
    (history : Player.History Object keys.Sequence) (occurrence : Occurrence Object) : Prop :=
  history.player.DropsLike keys application occurrence

/-- What has arrived of a text is enough: it is the same number as the whole text, and it
ends in a child element if the whole text does, unless no element that the player knows
stands behind it, but for a child that is handled together with the whole text. -/
structure Suffices {Sequence : Type} (player : Player Object Sequence) (later : List Token)
    (name : QString) : Prop where
  number : name = QString.ofString "msec" →
    (player.readText []).1.toInt = (player.readText later).1.toInt
  child : (player.readText later).2.1.error = true →
    (player.readText []).2.1.error = true ∨
      ∀ element ∈ ((player.readText []).2.1.ahead ((player.readText []).2.2 ++ later)).drop
          (childElement name (player.readText later).2.1).length,
        elementAnswer element.name = none

/-- If a step reads a text, enough of it is there. -/
def ReadsAlike {Sequence : Type} (document : List Token)
    (history : Player.History Object Sequence) (occurrence : Occurrence Object) : Prop :=
  match occurrence with
  | .run _ => history.player.Allows occurrence → ∀ element ∈ history.player.nextElements.head?,
      readsText element.name = true →
        Suffices history.player (history.missing document) element.name
  | _ => True

variable {keys} {application : Application Object}

theorem entries_cons (element : Element) (rest : List Element) :
    entries keys application (element :: rest) =
      elementEntries keys application element ++ entries keys application rest :=
  List.flatMap_cons

theorem entries_append (front rest : List Element) :
    entries keys application (front ++ rest) =
      entries keys application front ++ entries keys application rest :=
  List.flatMap_append

theorem entries_single (element : Element) :
    entries keys application [element] = elementEntries keys application element :=
  List.flatMap_singleton ..

theorem elementEntries_congr {element other : Element}
    (same : decode keys application element = decode keys application other) :
    elementEntries keys application element = elementEntries keys application other := by
  rw [elementEntries, elementEntries, same]

theorem decode_congr {other : Application Object} {element : Element}
    (alike : element.name = QString.ofString "dragAndDrop" →
      (postDragAndDrop other element.attributes : Option (List (Event keys.Sequence))) =
        postDragAndDrop application element.attributes) :
    decode keys other element = decode keys application element := by
  by_cases isDrag : element.name = QString.ofString "dragAndDrop"
  · rw [decode, decode, postElement, postElement, alike isDrag]
  · rw [decode, decode, postElement, postElement, if_neg isDrag, if_neg isDrag]

/-- Elements that the player does not know add nothing to the queue. -/
theorem decode_unknown {element : Element} (unknown : elementAnswer element.name = none) :
    elementEntries keys application element = [] := by
  rw [elementEntries]
  cases found : decode keys application element with
  | none => rfl
  | some events =>
      have answers := postElement_answers keys application element.name element.attributes
        element.text found
      rw [unknown] at answers
      exact answers.eq_nil

theorem entries_unknown {elements : List Element}
    (unknown : ∀ element ∈ elements, elementAnswer element.name = none) :
    entries keys application elements = [] :=
  List.flatMap_eq_nil_iff.mpr fun element member => decode_unknown (unknown element member)

theorem readsText_known {name : QString} (reads : readsText name = true) :
    elementAnswer name ≠ none := by
  simp only [readsText, Bool.or_eq_true, decide_eq_true_eq] at reads
  rcases reads with rfl | rfl
  · decide
  · decide

/-- The text of an element matters as the number of a sleep only. -/
theorem decode_text {name : QString} (attributes : Attributes) {text other : QString}
    (same : name = QString.ofString "msec" → text.toInt = other.toInt) :
    decode keys application ⟨name, attributes, text⟩ =
      decode keys application ⟨name, attributes, other⟩ := by
  by_cases isSleep : name = QString.ofString "msec"
  · simp only [decode, postElement, if_pos isSleep, postSleepEvent, same isSleep]
  · simp only [decode, postElement, if_neg isSleep]

/-- The test for a sleep comes first. -/
theorem msec_notMem_testedAfter (name : QString) :
    QString.ofString "msec" ∉ testedAfter name := by
  have behind : testedAfter name ⊆ handledNames.tail := by
    have first : handledNames = QString.ofString "msec" :: handledNames.tail := rfl
    rw [testedAfter, first, List.dropWhile_cons]
    split
    · exact List.Subset.trans (List.tail_subset _) (List.dropWhile_subset _)
    · exact List.Subset.refl _
  exact fun later => absurd (behind later) (by decide)

/-- A child that is handled together with a text has the same entries with a text of its
own. -/
theorem entries_childElement (name : QString) (reader : XmlReader) (text : QString)
    (rest : List Element) :
    entries keys application
        ((⟨reader.name, reader.attributes, text⟩ :: rest).take (childElement name reader).length) =
      entries keys application (childElement name reader) := by
  rw [childElement]
  split
  next later =>
      have noSleep : reader.name ≠ QString.ofString "msec" :=
        fun same => msec_notMem_testedAfter name (same ▸ later)
      have same : decode keys application ⟨reader.name, reader.attributes, text⟩ =
          decode keys application ⟨reader.name, reader.attributes, []⟩ :=
        decode_text reader.attributes fun isSleep => absurd isSleep noSleep
      simp only [List.length_singleton, List.take_succ_cons, List.take_zero, entries,
        List.flatMap_cons, elementEntries, same]
  next => rfl

/-! ## One step -/

theorem arrived_next (history : Player.History Object keys.Sequence)
    (occurrence : Occurrence Object) :
    history.arrived <+: (history.next keys occurrence).arrived := by
  rw [Player.History.next]
  split
  next =>
    cases occurrence with
    | readyRead arrived => exact List.prefix_append _ _
    | _ => exact List.prefix_rfl
  next => exact List.prefix_rfl

/-- What arrives is no longer missing, but unread. -/
theorem ahead_call {history : Player.History Object keys.Sequence} {document : List Token}
    {occurrence : Occurrence Object} (allowed : history.player.Allows occurrence)
    (calls : ∀ application, occurrence ≠ .run application)
    (arrives : (history.next keys occurrence).arrived <+: document) :
    (history.next keys occurrence).player.ahead
        ((history.next keys occurrence).missing document) =
      history.player.ahead (history.missing document) := by
  obtain ⟨-, unread, reader⟩ := meet_call history.player calls
  have device := meet_device history.player calls
  rw [next_call allowed calls] at arrives ⊢
  obtain ⟨rest, rfl⟩ := arrives
  have before : history.missing (history.arrived ++ occurrence.arrived ++ rest) =
      occurrence.arrived ++ rest := by
    rw [missing, List.append_assoc, List.drop_left]
  have after : (history.arrived ++ occurrence.arrived ++ rest).drop
      (history.arrived ++ occurrence.arrived).length = rest := List.drop_left
  rw [before, missing]
  dsimp only
  rw [after, ahead, ahead, device, reader, unread, List.append_assoc]

/-- Elements are queued alike where the drags among them are. -/
theorem decodes_congr {other : Application Object} {elements : List Element}
    (alike : ∀ element ∈ elements, element.name = QString.ofString "dragAndDrop" →
      (postDragAndDrop other element.attributes : Option (List (Event keys.Sequence))) =
        postDragAndDrop application element.attributes) :
    ∀ element ∈ elements, decode keys other element = decode keys application element :=
  fun element member => decode_congr (alike element member)

/-- A step that does not fail queues the entries of all elements that it comes to. -/
theorem flatMap_untilFailure {other : Application Object} {elements : List Element}
    (found : ∀ element ∈ elements, (decode keys other element).isSome = true)
    (same : ∀ element ∈ elements, decode keys other element = decode keys application element) :
    (untilFailure keys other elements).flatMap (elementEntries keys other) =
      entries keys application elements := by
  rw [untilFailure_of_found keys other found, entries]
  exact List.flatMap_congr fun element member => by
    rw [elementEntries, elementEntries, same element member]

/-- A step passes on, fails, or queues the entries of the elements that it comes to. -/
theorem run_cases {history : Player.History Object keys.Sequence} {other : Application Object}
    (allowed : history.player.Allows (.run other))
    (alike : DropsLike keys application history (.run other))
    (grounded : history.player.reader.Grounded) (later : List Token) :
    history.player.nextElements = [] ∧
        (history.next keys (.run other)).enqueued = history.enqueued ∧
        (history.next keys (.run other)).player.ahead later = history.player.ahead later ∨
      history.player.nextElements ≠ [] ∧
        ((history.next keys (.run other)).player.failed = true ∨
          (∀ element ∈ history.player.nextElements,
              (decode keys application element).isSome = true) ∧
            (history.next keys (.run other)).enqueued =
              history.enqueued ++ entries keys application history.player.nextElements) ∧
        Comes history.player later (history.next keys (.run other)).player
          history.player.nextElements := by
  have player : (history.next keys (.run other)).player = history.player.step keys other := by
    rw [next_run allowed]
  have advances := @step_advances keys _ _ _ other allowed.1 grounded
  have same := decodes_congr (alike allowed)
  rw [enqueued_run allowed, player, flatMap_nextParsings]
  by_cases parses : history.player.nextElements = []
  case pos =>
    left
    refine ⟨parses, ?_, advances.passes later parses⟩
    rw [parses]
    exact List.append_nil _
  case neg =>
    right
    refine ⟨parses, ?_, advances.comes later parses⟩
    by_cases found : ∀ element ∈ history.player.nextElements,
        (decode keys other element).isSome = true
    case pos =>
      right
      refine ⟨fun element member => same element member ▸ found element member, ?_⟩
      rw [flatMap_untilFailure found same]
    case neg =>
      left
      simp only [not_forall, Bool.not_eq_true, Option.isSome_eq_false_iff,
        Option.isNone_iff_eq_none] at found
      obtain ⟨element, member, missing⟩ := found
      exact step_failed allowed.1 member missing

variable (keys application)

/-- The queue is on its way to that of the whole document, or the player has failed. -/
structure Follows (document : List Token) (history : Player.History Object keys.Sequence) :
    Prop where
  grounded : history.player.reader.Grounded
  queues : history.arrived <+: document → history.player.failed = true ∨
    history.enqueued ++ entries keys application
        (history.player.ahead (history.missing document)) =
      entries keys application (elementsFrom 0 none document)

/-- The queue has left the way to that of the whole document, or will leave it: elements
that still belong to the document may be ahead, but a known one is behind them. -/
structure Strays (document : List Token) (history : Player.History Object keys.Sequence) :
    Prop where
  grounded : history.player.reader.Grounded
  leaves : history.arrived <+: document → history.player.failed = true ∨
    ¬(history.enqueued <+: entries keys application (elementsFrom 0 none document)) ∨
      ∃ front rest, history.player.ahead (history.missing document) = front ++ rest ∧
        history.enqueued ++ entries keys application front =
          entries keys application (elementsFrom 0 none document) ∧
        ∃ element ∈ rest, elementAnswer element.name ≠ none

variable {keys application} {document : List Token}
  {history : Player.History Object keys.Sequence} {occurrence : Occurrence Object}

theorem follows_new (ackNext : Bool) :
    Follows keys application document (new ackNext) where
  grounded := ⟨nofun, nofun⟩
  queues _ := .inr rfl

theorem grounded_next (grounded : history.player.reader.Grounded) :
    (history.next keys occurrence).player.reader.Grounded := by
  cases history.player.occurs occurrence with
  | refused _ impossible => rwa [Player.History.next, if_neg impossible]
  | call _ allowed calls =>
      rw [next_call allowed calls, (meet_call history.player calls).2.2]
      exact grounded
  | run other allowed =>
      rw [next_run allowed]
      exact (step_advances other allowed.1 grounded).grounded

theorem missing_run {other : Application Object}
    (allowed : history.player.Allows (.run other)) (document : List Token) :
    (history.next keys (.run other)).missing document = history.missing document := by
  rw [next_run allowed]
  rfl

/-! ## What a step takes -/

variable (keys application) in
/-- What a step takes from the elements ahead: all that it parses; a sleep with the wrong
number; or a text without the child that the whole text ends in, to which the player
comes by itself. -/
inductive Takes (player : Player Object keys.Sequence) (later : List Token)
    (next : Player Object keys.Sequence) (parsed : List Element) : Prop where
  | all (element whole : Element) (behind : List Element) (isParsed : parsed = element :: behind)
      (here : player.ahead later = whole :: behind ++ next.ahead later)
      (name : whole.name = element.name)
      (same : decode keys application element = decode keys application whole)
      (enough : readsText element.name = true → Suffices player later element.name) :
      Takes player later next parsed
  | misread (attributes : Attributes) (text other : QString) (behind rest : List Element)
      (isParsed : parsed = ⟨"msec", attributes, text⟩ :: behind)
      (here : player.ahead later = ⟨"msec", attributes, other⟩ :: rest)
      (differs : text.toInt ≠ other.toInt)
      (tooLittle : ¬Suffices player later (QString.ofString "msec")) :
      Takes player later next parsed
  | cut (element whole : Element) (reader : XmlReader) (text : QString) (rest : List Element)
      (isParsed : parsed = [element])
      (here : player.ahead later = whole :: childElement element.name reader)
      (reads : readsText element.name = true)
      (same : decode keys application element = decode keys application whole)
      (comes : next.ahead later = ⟨reader.name, reader.attributes, text⟩ :: rest)
      (enough : Suffices player later element.name ↔
        ∀ other ∈ (next.ahead later).drop (childElement element.name reader).length,
          elementAnswer other.name = none) :
      Takes player later next parsed

theorem takes_of_comes {player next : Player Object keys.Sequence} {later : List Token}
    {parsed : List Element} (comes : Comes player later next parsed) :
    Takes keys application player later next parsed := by
  cases comes with
  | plain name attributes noText here =>
      refine .all _ _ [] rfl here rfl rfl fun reads => ?_
      rw [noText] at reads
      cases reads
  | text name attributes reads here behind alone rejoins cut =>
      by_cases number : name = QString.ofString "msec" →
          (player.readText []).1.toInt = (player.readText later).1.toInt
      case neg =>
        simp only [Classical.not_imp] at number
        obtain ⟨rfl, differs⟩ := number
        exact .misread attributes _ _ _ _ rfl here differs fun enough =>
          differs (enough.number rfl)
      case pos =>
        have same : decode keys application ⟨name, attributes, (player.readText []).1⟩ =
            decode keys application ⟨name, attributes, (player.readText later).1⟩ :=
          decode_text attributes number
        by_cases stops : (player.readText later).2.1.error = true →
            (player.readText []).2.1.error = true
        case pos =>
          obtain ⟨child, ahead⟩ := rejoins stops
          refine .all _ ⟨name, attributes, (player.readText later).1⟩ _ rfl ?_ rfl same
            fun _ => ⟨number, fun child => .inl (stops child)⟩
          rw [here, child, ahead]
          rfl
        case neg =>
          simp only [Classical.not_imp, Bool.not_eq_true] at stops
          obtain ⟨child, arrived⟩ := stops
          obtain ⟨text, rest, comes⟩ := cut child arrived
          rw [alone arrived]
          refine .cut _ ⟨name, attributes, (player.readText later).1⟩
            (player.readText later).2.1 text rest rfl ?_ reads same comes ⟨?_, ?_⟩
          · rw [here, XmlReader.ahead_of_stopped (by rw [child]; rfl), List.append_nil]
          · intro enough
            rw [behind]
            exact (enough.child child).resolve_left (by simp [arrived])
          · intro unknown
            rw [behind] at unknown
            exact ⟨number, fun _ => .inr unknown⟩

/-- An element that the player knows has entries, unless the player fails on it. -/
theorem ne_nil_of_known {element : Element} (known : elementAnswer element.name ≠ none)
    (decoded : (decode keys application element).isSome = true) :
    elementEntries keys application element ≠ [] := by
  obtain ⟨events, found⟩ := Option.isSome_iff_exists.mp decoded
  rw [elementEntries, found, Option.getD_some]
  rintro rfl
  have answers := (postElement_answers keys application element.name element.attributes
    element.text found).answers
  exact known (Option.toList_eq_nil_iff.mp answers.symm)

theorem entries_ne_nil {elements : List Element} {element : Element} (member : element ∈ elements)
    (known : elementAnswer element.name ≠ none)
    (decoded : (decode keys application element).isSome = true) :
    entries keys application elements ≠ [] := by
  intro none
  exact ne_nil_of_known known decoded (List.flatMap_eq_nil_iff.mp none element member)

/-- More entries than there are is no beginning. -/
theorem not_prefix_of_ne_nil {whole more : List (Event keys.Sequence)} (some : more ≠ []) :
    ¬(whole ++ more <+: whole) := by
  intro isPrefix
  have shorter := isPrefix.length_le
  rw [List.length_append] at shorter
  exact some (List.length_eq_zero_iff.mp (by omega))

/-- Sleeps for different times lead to different queues. -/
theorem not_prefix_of_toInt_ne {front more rest : List (Event keys.Sequence)}
    {attributes : Attributes} {text other : QString} (differs : text.toInt ≠ other.toInt) :
    ¬(front ++ (elementEntries keys application ⟨"msec", attributes, text⟩ ++ more) <+:
      front ++ (elementEntries keys application ⟨"msec", attributes, other⟩ ++ rest)) := by
  intro isPrefix
  have entry (text : QString) : elementEntries keys application ⟨"msec", attributes, text⟩ =
      [postSleepEvent text] := rfl
  rw [entry, entry] at isPrefix
  have event := (List.cons_prefix_cons.mp ((List.prefix_append_right_inj _).mp isPrefix)).1
  rw [postSleepEvent, postSleepEvent] at event
  injection event with task
  injection task with same
  exact differs same

/-- A child to which the player comes by itself has the entries that it has together with
the text. -/
theorem entries_take_child {next : Player Object keys.Sequence} {later : List Token}
    {name : QString} {reader : XmlReader} {text : QString} {rest : List Element}
    (comes : next.ahead later = ⟨reader.name, reader.attributes, text⟩ :: rest) :
    entries keys application ((next.ahead later).take (childElement name reader).length) =
      entries keys application (childElement name reader) := by
  rw [comes]
  exact entries_childElement name reader text rest

/-- A step that reads enough keeps to the queue of the whole document. -/
theorem Follows.next (follows : Follows keys application document history)
    (alike : DropsLike keys application history occurrence)
    (reads : ReadsAlike document history occurrence) :
    Follows keys application document (history.next keys occurrence) := by
  refine ⟨grounded_next follows.grounded, fun arrives => ?_⟩
  have before := follows.queues ((history.arrived_next occurrence).trans arrives)
  cases history.player.occurs occurrence with
  | refused _ impossible => rwa [Player.History.next, if_neg impossible]
  | call _ allowed calls =>
      rw [enqueued_call allowed calls, ahead_call allowed calls arrives]
      exact before.imp_left fun failed => absurd (failed.symm.trans allowed.1) (by decide)
  | run other allowed =>
      have before := before.resolve_left (by simp [allowed.1])
      rw [missing_run allowed]
      rcases run_cases allowed alike follows.grounded (history.missing document) with
        ⟨-, queue, same⟩ | ⟨-, failed | ⟨-, queue⟩, comes⟩
      · rw [queue, same]
        exact .inr before
      · exact .inl failed
      · right
        rw [← before, queue, List.append_assoc]
        refine congrArg (history.enqueued ++ ·) ?_
        have takes : Takes keys application _ _ _ _ := takes_of_comes comes
        cases takes with
        | all element whole behind isParsed here name same =>
            rw [here, entries_append, isParsed, entries_cons, entries_cons,
              elementEntries_congr same]
        | misread attributes text other behind rest isParsed here differs tooLittle =>
            refine absurd (reads allowed ⟨"msec", attributes, text⟩ ?_ rfl) tooLittle
            rw [isParsed]
            rfl
        | cut element whole reader text rest isParsed here isText same comes enough =>
            have unknown := enough.mp (reads allowed element (by rw [isParsed]; rfl) isText)
            have split := List.take_append_drop (childElement element.name reader).length
              ((history.next keys (.run other)).player.ahead (history.missing document))
            rw [here, isParsed, entries_single, entries_cons, elementEntries_congr same, ← split,
              entries_append, entries_take_child comes, entries_unknown unknown, List.append_nil]

/-- A step that reads too little leaves the way to the queue of the whole document. -/
theorem Follows.strays (follows : Follows keys application document history)
    (alike : DropsLike keys application history occurrence)
    (misreads : ¬ReadsAlike document history occurrence) :
    Strays keys application document (history.next keys occurrence) := by
  refine ⟨grounded_next follows.grounded, fun arrives => ?_⟩
  have before := follows.queues ((history.arrived_next occurrence).trans arrives)
  cases occurrence with
  | run other =>
      simp only [ReadsAlike, not_forall] at misreads
      obtain ⟨allowed, element, first, isText, tooLittle⟩ := misreads
      have before := before.resolve_left (by simp [allowed.1])
      rw [missing_run allowed]
      rcases run_cases allowed alike follows.grounded (history.missing document) with
        ⟨none, -, -⟩ | ⟨-, failed | ⟨-, queue⟩, comes⟩
      · rw [none] at first
        cases first
      · exact .inl failed
      · right
        rw [← before, queue]
        have takes : Takes keys application _ _ _ _ := takes_of_comes comes
        cases takes with
        | all parsed whole behind isParsed here name same enough =>
            rw [isParsed] at first
            cases first
            exact absurd (enough isText) tooLittle
        | misread attributes text other behind rest isParsed here differs =>
            left
            rw [here, isParsed, entries_cons, entries_cons]
            exact not_prefix_of_toInt_ne differs
        | cut parsed whole reader text rest isParsed here _ same comes enough =>
            right
            rw [isParsed] at first
            cases first
            rw [enough] at tooLittle
            simp only [not_forall] at tooLittle
            obtain ⟨other, member, known⟩ := tooLittle
            refine ⟨_, _, (List.take_append_drop _ _).symm, ?_, other, member, known⟩
            rw [entries_take_child comes, here, isParsed, entries_single, entries_cons,
              elementEntries_congr same, List.append_assoc]
  | readyRead arrived => exact absurd trivial misreads
  | endFlush => exact absurd trivial misreads
  | waitFinished => exact absurd trivial misreads
  | endPick object => exact absurd trivial misreads

/-- Elements with a known one among them make the queue longer than that of the whole
document. -/
theorem leaves_of_known {whole : List (Event keys.Sequence)} {elements : List Element}
    {element : Element} (member : element ∈ elements) (known : elementAnswer element.name ≠ none)
    (decoded : ∀ element ∈ elements, (decode keys application element).isSome = true) :
    ¬(whole ++ entries keys application elements <+: whole) :=
  not_prefix_of_ne_nil (entries_ne_nil member known (decoded element member))

/-- Behind what still belongs to the document a known element is ahead: a step takes from
the one or makes the queue too long with the other. -/
theorem strays_of_takes {player next : Player Object keys.Sequence} {later : List Token}
    {parsed front rest : List Element} {queue document : List (Event keys.Sequence)}
    (takes : Takes keys application player later next parsed)
    (decoded : ∀ element ∈ parsed, (decode keys application element).isSome = true)
    (ahead : player.ahead later = front ++ rest)
    (whole : queue ++ entries keys application front = document)
    (known : ∃ element ∈ rest, elementAnswer element.name ≠ none) :
    ¬(queue ++ entries keys application parsed <+: document) ∨
      ∃ front rest, next.ahead later = front ++ rest ∧
        queue ++ entries keys application parsed ++ entries keys application front = document ∧
        ∃ element ∈ rest, elementAnswer element.name ≠ none := by
  subst whole
  obtain ⟨other, member, isKnown⟩ := known
  cases takes with
  | all element complete behind isParsed here name same =>
      subst isParsed
      have entries_same : entries keys application (element :: behind) =
          entries keys application (complete :: behind) := by
        rw [entries_cons, entries_cons, elementEntries_congr same]
      have completeDecoded : ∀ element ∈ complete :: behind,
          (decode keys application element).isSome = true := by
        intro element member
        rcases List.mem_cons.mp member with rfl | member
        · exact same ▸ decoded _ List.mem_cons_self
        · exact decoded element (List.mem_cons_of_mem _ member)
      rw [entries_same]
      rcases List.append_eq_append_iff.mp (here.symm.trans ahead) with
        ⟨more, rfl, shape⟩ | ⟨more, shape, rfl⟩
      · right
        refine ⟨more, rest, shape, ?_, other, member, isKnown⟩
        rw [entries_append, List.append_assoc]
      · rw [shape] at completeDecoded ⊢
        rw [entries_append, ← List.append_assoc]
        rcases List.mem_append.mp member with taken | later
        · left
          exact leaves_of_known taken isKnown fun element member =>
            completeDecoded element (List.mem_append_right _ member)
        · by_cases silent : entries keys application more = []
          · right
            refine ⟨[], _, rfl, ?_, other, later, isKnown⟩
            rw [silent, List.append_nil]
            exact List.append_nil _
          · exact .inl (not_prefix_of_ne_nil silent)
  | misread attributes text given behind others isParsed here differs =>
      subst isParsed
      left
      rw [here] at ahead
      cases front with
      | nil =>
          have known : elementAnswer (QString.ofString "msec") ≠ none := by decide
          have leaves : ¬(queue ++ entries keys application [] ++
              entries keys application (⟨"msec", attributes, text⟩ :: behind) <+:
                queue ++ entries keys application []) :=
            leaves_of_known List.mem_cons_self known decoded
          have empty : queue ++ entries keys application [] = queue := List.append_nil queue
          rwa [empty] at leaves ⊢
      | cons first front =>
          have same := (List.cons.inj ahead).1
          subst same
          rw [entries_cons, entries_cons]
          exact not_prefix_of_toInt_ne differs
  | cut element complete reader text others isParsed here reads same comes =>
      subst isParsed
      rw [here] at ahead
      cases front with
      | nil =>
          left
          have leaves : ¬(queue ++ entries keys application [] ++
              entries keys application [element] <+: queue ++ entries keys application []) :=
            leaves_of_known List.mem_cons_self (readsText_known reads) decoded
          have empty : queue ++ entries keys application [] = queue := List.append_nil queue
          rwa [empty] at leaves ⊢
      | cons first front =>
          right
          obtain ⟨rfl, handled⟩ := List.cons.inj ahead
          have rest_ne : rest ≠ [] := List.ne_nil_of_mem member
          have alone : front = [] ∧ rest = [⟨reader.name, reader.attributes, []⟩] := by
            rw [childElement] at handled
            split at handled
            · exact (List.singleton_eq_append_iff.mp handled).resolve_right fun both =>
                absurd both.2 rest_ne
            · exact absurd (List.append_eq_nil_iff.mp handled.symm).2 rest_ne
          obtain ⟨rfl, rfl⟩ := alone
          rw [List.mem_singleton.mp member] at isKnown
          have found : (⟨reader.name, reader.attributes, text⟩ : Element) ∈ next.ahead later := by
            rw [comes]
            exact List.mem_cons_self
          refine ⟨[], _, rfl, ?_, _, found, isKnown⟩
          rw [entries_single, entries_single, elementEntries_congr same]
          exact List.append_nil _

/-- What has left the way does not find back. -/
theorem Strays.next (strays : Strays keys application document history)
    (alike : DropsLike keys application history occurrence) :
    Strays keys application document (history.next keys occurrence) := by
  refine ⟨grounded_next strays.grounded, fun arrives => ?_⟩
  have before := strays.leaves ((history.arrived_next occurrence).trans arrives)
  cases history.player.occurs occurrence with
  | refused _ impossible => rwa [Player.History.next, if_neg impossible]
  | call _ allowed calls =>
      rw [enqueued_call allowed calls, ahead_call allowed calls arrives]
      exact before.imp_left fun failed => absurd (failed.symm.trans allowed.1) (by decide)
  | run other allowed =>
      rw [missing_run allowed]
      rcases before with failed | gone | ⟨front, rest, ahead, whole, known⟩
      · exact absurd (failed.symm.trans allowed.1) (by decide)
      · right
        left
        intro isPrefix
        rw [enqueued_run allowed] at isPrefix
        exact gone ((List.prefix_append _ _).trans isPrefix)
      · rcases run_cases allowed alike strays.grounded (history.missing document) with
          ⟨-, queue, same⟩ | ⟨-, failed | ⟨decoded, queue⟩, comes⟩
        · rw [queue, same]
          exact .inr (.inr ⟨front, rest, ahead, whole, known⟩)
        · exact .inl failed
        · right
          rw [queue]
          exact strays_of_takes (takes_of_comes comes) decoded ahead whole known

/-! ## Runs -/

/-- A document has arrived, and the player has read it as far as it can. -/
structure HasRead {Sequence : Type} (document : List Token)
    (history : Player.History Object Sequence) : Prop where
  arrived : history.arrived = document
  alive : history.player.failed = false
  atEnd : history.player.reader.atEnd history.player.available = true

/-- A document arrives at once: no step sees a part of it. -/
def AtOnce {Sequence : Type} (document : List Token) (history : Player.History Object Sequence) :
    Occurrence Object → Prop
  | .run _ => history.arrived = [] ∨ history.arrived = document
  | _ => True

instance {Sequence : Type} (document : List Token) (history : Player.History Object Sequence)
    (occurrence : Occurrence Object) : Decidable (AtOnce document history occurrence) :=
  match occurrence with
  | .run _ => inferInstanceAs (Decidable (_ ∨ _))
  | .readyRead _ | .endFlush | .waitFinished | .endPick _ => isTrue trivial

theorem HasRead.ahead (read : HasRead document history) :
    history.player.ahead (history.missing document) = [] := by
  have nothing : history.missing document = [] := by
    rw [missing, read.arrived, List.drop_length]
  rw [nothing]
  by_cases device : history.player.device = true
  · have atEnd := read.atEnd
    rw [available, if_pos device, XmlReader.atEnd, Bool.or_eq_true, Bool.and_eq_true,
      List.isEmpty_iff] at atEnd
    rw [ahead_of_device device, List.append_nil]
    rcases atEnd with failed | ⟨-, empty⟩
    · exact XmlReader.ahead_of_stopped (by rw [failed]; rfl) _
    · rw [empty, XmlReader.ahead_nil]
  · exact ahead_of_detached (Bool.eq_false_of_not_eq_true device) _

/-- A document that has been read has filled the queue as it does at once, or never will. -/
theorem HasRead.enqueued_iff {ackNext : Bool} {occurrences : List (Occurrence Object)}
    (drops : Library.Run.StepsMeet (Player.History.next keys) (DropsLike keys application)
      (new ackNext) occurrences)
    (read : HasRead document (occurrences.foldl (Player.History.next keys) (new ackNext))) :
    (occurrences.foldl (Player.History.next keys) (new ackNext)).enqueued =
        entries keys application (elementsFrom 0 none document) ↔
      Library.Run.StepsMeet (Player.History.next keys) (ReadsAlike document) (new ackNext)
        occurrences := by
  have arrives : (occurrences.foldl (Player.History.next keys) (new ackNext)).arrived <+:
      document := read.arrived ▸ List.prefix_rfl
  rcases Library.Run.follows_or_strays (Player.History.next keys) (ReadsAlike document)
    (Follows keys application document) (Strays keys application document)
    (DropsLike keys application) (new ackNext) (fun _ _ alike follows reads => follows.next alike reads)
    (fun _ _ alike follows misreads => follows.strays alike misreads)
    (fun _ _ alike strays => strays.next alike) (follows_new ackNext) occurrences drops with
    ⟨meets, follows⟩ | ⟨misses, strays⟩
  · have queues := (follows.queues arrives).resolve_left (by simp [read.alive])
    rw [read.ahead] at queues
    exact iff_of_true ((List.append_nil _).symm.trans queues) meets
  · refine iff_of_false (fun same => ?_) misses
    rcases strays.leaves arrives with failed | gone | ⟨front, rest, ahead, -, element, member, -⟩
    · exact absurd (failed.symm.trans read.alive) (by decide)
    · exact gone (same ▸ List.prefix_rfl)
    · rw [read.ahead] at ahead
      rw [(List.append_eq_nil_iff.mp ahead.symm).2] at member
      cases member

theorem consistent_foldl (ackNext : Bool) (occurrences : List (Occurrence Object)) :
    (occurrences.foldl (Player.History.next keys) (new ackNext)).Consistent keys := by
  have all : Library.Run.StepsMeet (Player.History.next keys) (fun _ _ => True) (new ackNext)
      occurrences := fun _ _ _ _ => trivial
  exact Library.Run.invariant_foldl
    (fun _ occurrence consistent _ => (consistent.next occurrence).1) (consistent_new keys ackNext)
    all

/-- What arrives at once is read as a whole. -/
theorem readsAlike_of_atOnce {ackNext : Bool} {occurrences : List (Occurrence Object)}
    (atOnce : Library.Run.StepsMeet (Player.History.next keys) (AtOnce document) (new ackNext)
      occurrences) :
    Library.Run.StepsMeet (Player.History.next keys) (ReadsAlike document) (new ackNext)
      occurrences := by
  intro before occurrence after shape
  have arrives := atOnce before occurrence after shape
  obtain ⟨-, ⟨consumed, reads⟩, -⟩ := @consistent_foldl keys _ _ ackNext before
  cases occurrence with
  | run other =>
      intro _ element first isText
      rcases arrives with none | whole
      · have unread := (List.append_eq_nil_iff.mp (reads.arrived.symm.trans none)).2
        rw [nextElements] at first
        split at first
        next parses =>
          refine absurd ?_ (available_ne_nil parses.2.2)
          rw [available, unread, ite_self]
        next => cases first
      · have nothing : (before.foldl (Player.History.next keys) (new ackNext)).missing document =
            [] := by
          rw [missing, whole, List.drop_length]
        rw [nothing]
        exact ⟨fun _ => rfl, .inl⟩
  | _ => trivial

/-- Where a document arrives in pieces, the queue is the same as where it arrives at once
if and only if enough of each text is there when it is read. -/
theorem enqueued_eq_iff (application : Application Object) (document : List Token)
    (ackNext : Bool) (pieces once : List (Occurrence Object))
    (piecesDrop : Library.Run.StepsMeet (Player.History.next keys) (DropsLike keys application)
      (new ackNext) pieces)
    (onceDrop : Library.Run.StepsMeet (Player.History.next keys) (DropsLike keys application)
      (new ackNext) once)
    (piecesRead : HasRead document (pieces.foldl (Player.History.next keys) (new ackNext)))
    (onceRead : HasRead document (once.foldl (Player.History.next keys) (new ackNext)))
    (atOnce : Library.Run.StepsMeet (Player.History.next keys) (AtOnce document) (new ackNext)
      once) :
    (pieces.foldl (Player.History.next keys) (new ackNext)).enqueued =
        (once.foldl (Player.History.next keys) (new ackNext)).enqueued ↔
      Library.Run.StepsMeet (Player.History.next keys) (ReadsAlike document) (new ackNext)
        pieces := by
  have whole := (onceRead.enqueued_iff onceDrop).mpr (readsAlike_of_atOnce atOnce)
  rw [whole]
  exact piecesRead.enqueued_iff piecesDrop

/-! ## A sleep that is cut in two -/

section

/-- A document with one sleep. -/
def sleepDocument : List Token :=
  .start "hooq" [] :: ((Interpreter.write plainSequences (.sleep 10)).tokens ++ [.stop])

/-- The document arrives in two pieces, and the player reads what it can of each. -/
def cutAt (position : Nat) : List (Occurrence (Fin 3)) :=
  List.replicate 3 (.run buttonApplication) ++ [.readyRead (sleepDocument.take position)] ++
    List.replicate 12 (.run buttonApplication) ++ [.readyRead (sleepDocument.drop position)] ++
    List.replicate 12 (.run buttonApplication)

theorem cutAt_drops (position : Nat) :
    Library.Run.StepsMeet (Player.History.next plainSequences)
      (DropsLike plainSequences buttonApplication) (new true) (cutAt position) := by
  intro before occurrence after shape
  have member : occurrence ∈ cutAt position := by simp [shape]
  cases occurrence with
  | run other =>
      have same : other = buttonApplication := by
        simpa [cutAt, List.mem_replicate] using member
      rw [same]
      exact fun _ _ _ _ => rfl
  | _ => trivial

def historyOf (occurrences : List (Occurrence (Fin 3))) :
    Player.History (Fin 3) plainSequences.Sequence :=
  occurrences.foldl (Player.History.next plainSequences) (new true)

theorem cutAt_hasRead :
    ∀ position ∈ [1, 3, 6], HasRead sleepDocument (historyOf (cutAt position)) := by
  intro position member
  have arrived : ∀ position ∈ [1, 3, 6], (historyOf (cutAt position)).arrived = sleepDocument := by
    decide +kernel
  have alive : ∀ position ∈ [1, 3, 6], (historyOf (cutAt position)).player.failed = false := by
    decide +kernel
  have atEnd : ∀ position ∈ [1, 3, 6], (historyOf (cutAt position)).player.reader.atEnd
      (historyOf (cutAt position)).player.available = true := by
    decide +kernel
  exact ⟨arrived position member, alive position member, atEnd position member⟩

theorem cutAt_atOnce :
    Library.Run.StepsMeet (Player.History.next plainSequences) (AtOnce sleepDocument) (new true)
      (cutAt 6) := by
  decide +kernel

/-- Between two tags the document can be cut. -/
theorem cutAt_readsAlike :
    Library.Run.StepsMeet (Player.History.next plainSequences) (ReadsAlike sleepDocument)
      (new true) (cutAt 1) := by
  have same : (historyOf (cutAt 1)).enqueued = (historyOf (cutAt 6)).enqueued := by
    decide +kernel
  exact (enqueued_eq_iff buttonApplication sleepDocument true (cutAt 1) (cutAt 6)
    (cutAt_drops 1) (cutAt_drops 6) (cutAt_hasRead 1 (by decide)) (cutAt_hasRead 6 (by decide)) cutAt_atOnce).mp same

/-- Where the number of a sleep is cut, the player sleeps for the part that is there. -/
theorem cutSleep_differs :
    ¬∀ (document : List Token) (pieces once : List (Occurrence (Fin 3))),
      Library.Run.StepsMeet (Player.History.next plainSequences)
        (DropsLike plainSequences buttonApplication) (new true) pieces →
      Library.Run.StepsMeet (Player.History.next plainSequences)
        (DropsLike plainSequences buttonApplication) (new true) once →
      HasRead document (historyOf pieces) → HasRead document (historyOf once) →
      Library.Run.StepsMeet (Player.History.next plainSequences) (AtOnce document) (new true)
        once →
      (historyOf pieces).enqueued = (historyOf once).enqueued := by
  intro always
  have same := always sleepDocument (cutAt 3) (cutAt 6) (cutAt_drops 3) (cutAt_drops 6)
    (cutAt_hasRead 3 (by decide)) (cutAt_hasRead 6 (by decide)) cutAt_atOnce
  exact absurd same (by decide +kernel)

end

end Player.History

end Hooq
