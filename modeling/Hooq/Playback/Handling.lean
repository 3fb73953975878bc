import Hooq.Playback.Player

/-!
# The elements that one call handles

The tests of `handleElement` ask for the name of the reader anew.  Where a child ends
the text of an element, the reader is at the child from then on: if the test for its
name is still to come, the child is handled in the same call.
-/

namespace Hooq

namespace XmlReader

/-- The reader is at the same element behind its text, unless a child ends that. -/
theorem readElementText_name {reader : XmlReader} (tokens : List Token)
    (fine : (reader.readElementText tokens).2.1.error = false) :
    (reader.readElementText tokens).2.1.name = reader.name := by
  induction tokens with
  | nil => rfl
  | cons token rest ih =>
      cases token with
      | start name attributes => simp [readElementText, raiseError] at fine
      | character character => exact ih fine
      | stop => rfl

theorem readElementText_tokenType (reader : XmlReader) (tokens : List Token) :
    (reader.readElementText tokens).2.1.tokenType ≠ .startElement := by
  induction tokens with
  | nil => simp [readElementText]
  | cons token rest ih =>
      cases token with
      | start name attributes => simp [readElementText, raiseError]
      | character character => exact ih
      | stop => simp [readElementText]

end XmlReader

namespace Player

/-! ## The tests -/

/-- The names that are tested for after a name. -/
def testedAfter (name : QString) : List QString :=
  (handledNames.dropWhile fun tested => decide (tested ≠ name)).tail

theorem handledNames_nodup : handledNames.Nodup := by
  decide

/-- A name that is tested for stands behind others. -/
theorem handledNames_split {name : QString} (tested : name ∈ handledNames) :
    ∃ before, handledNames = before ++ name :: testedAfter name ∧ name ∉ before := by
  obtain ⟨before, after, shape, fresh⟩ := List.eq_append_cons_of_mem tested
  have passed : ∀ other ∈ before, decide (other ≠ name) = true := by
    intro other member
    exact decide_eq_true fun same => fresh (same ▸ member)
  have later : testedAfter name = after := by
    rw [testedAfter, shape, List.dropWhile_append_of_pos passed,
      List.dropWhile_cons_of_neg (by simp), List.tail_cons]
  exact ⟨before, later ▸ shape, fresh⟩

theorem notMem_testedAfter (name : QString) : name ∉ testedAfter name := by
  by_cases tested : name ∈ handledNames
  case pos =>
    obtain ⟨before, shape, -⟩ := handledNames_split tested
    have distinct := handledNames_nodup
    rw [shape] at distinct
    exact (List.nodup_cons.mp (List.nodup_append.mp distinct).2.1).1
  case neg =>
    intro member
    exact tested (List.dropWhile_subset _ (List.mem_of_mem_tail member))

theorem testedAfter_nodup (name : QString) : (testedAfter name).Nodup :=
  ((handledNames_nodup.sublist (List.dropWhile_sublist _)).sublist (List.tail_sublist _))

section

variable {Object Sequence : Type}

/-- The element that the reader is at, with its text. -/
def currentElement (player : Player Object Sequence) : Element :=
  ⟨player.reader.name, player.reader.attributes, player.elementText.1⟩

/-- The child that ends the text of an element, if the test for its name is to come. -/
def childElement (name : QString) (reader : XmlReader) : List Element :=
  if reader.name ∈ testedAfter name then [⟨reader.name, reader.attributes, []⟩] else []

/-- The elements that a call of `handleElement` handles. -/
def handledElements (player : Player Object Sequence) : List Element :=
  player.currentElement :: childElement player.reader.name player.elementText.2.1

/-- A player whose reader has gone on behind the text. -/
def behindText (player : Player Object Sequence) : Player Object Sequence :=
  { player with reader := player.elementText.2.1, unread := player.elementText.2.2 }

variable {player : Player Object Sequence}

theorem elementText_of_ne (ended : player.reader.tokenType ≠ .startElement) :
    player.elementText = ([], player.reader, player.unread) :=
  if_neg (by simp [ended])

theorem behindText_of_ne (ended : player.reader.tokenType ≠ .startElement) :
    player.behindText = player := by
  rw [behindText, elementText_of_ne ended]

/-- The player reads the texts of elements that it knows only. -/
theorem elementText_of_notMem (unknown : player.reader.name ∉ handledNames) :
    player.elementText = ([], player.reader, player.unread) := by
  have silent : readsText player.reader.name = false := by
    by_contra text
    have named := Bool.eq_true_of_not_eq_false text
    simp only [readsText, Bool.or_eq_true, decide_eq_true_eq] at named
    rcases named with msec | drag
    · exact unknown (msec ▸ by decide)
    · exact unknown (drag ▸ by decide)
  exact if_neg (by simp [silent])

theorem childElement_self (reader : XmlReader) : childElement reader.name reader = [] :=
  if_neg (notMem_testedAfter reader.name)

/-- A text that ends without an error has no child. -/
theorem childElement_of_fine {reader : XmlReader} (tokens : List Token)
    (fine : (reader.readElementText tokens).2.1.error = false) :
    childElement reader.name (reader.readElementText tokens).2.1 = [] := by
  rw [← XmlReader.readElementText_name tokens fine]
  exact childElement_self _

theorem handledElements_of_fine (fine : player.elementText.2.1.error = false) :
    player.handledElements = [player.currentElement] := by
  have none : childElement player.reader.name player.elementText.2.1 = [] := by
    rw [elementText] at fine ⊢
    split at fine
    next isText =>
        rw [if_pos isText]
        exact childElement_of_fine _ fine
    next noText =>
        rw [if_neg noText]
        exact childElement_self _
  rw [handledElements, none]

/-- Where a child is handled, the reader has left the start tag. -/
theorem tokenType_of_testedAfter
    (later : player.elementText.2.1.name ∈ testedAfter player.reader.name) :
    player.elementText.2.1.tokenType ≠ .startElement := by
  rw [elementText] at later ⊢
  split at later
  next isText =>
      rw [if_pos isText]
      exact player.reader.readElementText_tokenType _
  next noText => exact absurd later (notMem_testedAfter _)

end

/-! ## The call -/

section

variable {Object : Type} [DecidableEq Object] (keys : KeySequences)
  (application : Application Object) {player : Player Object keys.Sequence}

/-- The entries for an element go to the queue, unless a call before has failed. -/
def enqueueElement (player : Player Object keys.Sequence) (element : Element) :
    Player Object keys.Sequence :=
  if player.failed then
    player
  else
    match decode keys application element with
    | some events => { player with eventQueue := player.eventQueue ++ events }
    | none => player.fail

theorem foldl_handleName_of_failed (failed : player.failed = true) (names : List QString) :
    names.foldl (handleName keys application) player = player := by
  induction names with
  | nil => rfl
  | cons name rest ih => rwa [List.foldl_cons, handleName, if_neg (by simp [failed])]

theorem foldl_handleName_of_notMem {names : List QString}
    (absent : player.reader.name ∉ names) :
    names.foldl (handleName keys application) player = player := by
  induction names with
  | nil => rfl
  | cons name rest ih =>
      rw [List.mem_cons, not_or] at absent
      rw [List.foldl_cons, handleName, if_neg fun test => absent.1 test.2]
      exact ih absent.2

theorem handleName_self :
    handleName keys application player player.reader.name =
      if player.failed then
        player
      else
        player.behindText.enqueueElement keys application player.currentElement := by
  cases failed : player.failed with
  | true => simp [handleName, failed]
  | false =>
      simp only [handleName, enqueueElement, behindText, currentElement, decode, failed]
      rfl

theorem enqueueElement_of_decode (alive : player.failed = false) {element : Element}
    {events : List (Event keys.Sequence)} (decoded : decode keys application element = some events) :
    player.enqueueElement keys application element =
      { player with eventQueue := player.eventQueue ++ events } := by
  rw [enqueueElement, if_neg (by simp [alive]), decoded]

theorem enqueueElement_reader (element : Element) :
    (player.enqueueElement keys application element).reader = player.reader := by
  rw [enqueueElement]
  split
  · rfl
  · split <;> rfl

/-- Behind its start tag, an element is handled by the one test for its name. -/
theorem foldl_handleName_of_ended (ended : player.reader.tokenType ≠ .startElement)
    {names : List QString} (distinct : names.Nodup) :
    names.foldl (handleName keys application) player =
      if player.reader.name ∈ names then
        player.enqueueElement keys application ⟨player.reader.name, player.reader.attributes, []⟩
      else
        player := by
  split
  next tested =>
      obtain ⟨before, after, shape, fresh⟩ := List.eq_append_cons_of_mem tested
      have current : player.currentElement =
          ⟨player.reader.name, player.reader.attributes, []⟩ := by
        rw [currentElement, elementText_of_ne ended]
      rw [shape] at distinct
      have other := (List.nodup_cons.mp (List.nodup_append.mp distinct).2.1).1
      rw [shape, List.foldl_append, foldl_handleName_of_notMem keys application fresh,
        List.foldl_cons, handleName_self, behindText_of_ne ended, current]
      split
      next failed =>
          rw [foldl_handleName_of_failed keys application failed, enqueueElement, if_pos failed]
      next =>
          apply foldl_handleName_of_notMem
          rwa [enqueueElement_reader]
  next absent => exact foldl_handleName_of_notMem keys application absent

/-- An element that the player does not know adds nothing. -/
theorem decode_of_notMem {element : Element} (unknown : element.name ∉ handledNames) :
    decode keys application element = some [] := by
  simp only [handledNames, List.map_cons, List.map_nil, List.mem_cons, List.not_mem_nil, or_false,
    not_or] at unknown
  obtain ⟨msec, dump, pick, drag, close, menu, focus, press, release, move, down, double, up, wheel,
    shortcut⟩ := unknown
  simp only [decode, postElement, if_neg msec, if_neg dump, if_neg pick, if_neg drag, if_neg close,
    if_neg menu, if_neg focus, if_neg press, if_neg release, if_neg move, if_neg down,
    if_neg double, if_neg up, if_neg wheel, if_neg shortcut]

/-- A call of `handleElement` reads the text of the element and queues the entries for
the elements that it handles. -/
theorem handleElement_eq_foldl (alive : player.failed = false) :
    player.handleElement keys application =
      player.handledElements.foldl (enqueueElement keys application) player.behindText := by
  by_cases known : player.reader.name ∈ handledNames
  case pos =>
    obtain ⟨before, shape, fresh⟩ := handledNames_split known
    rw [handleElement, shape, List.foldl_append,
      foldl_handleName_of_notMem keys application fresh, List.foldl_cons, handleName_self,
      if_neg (by simp [alive]), handledElements, List.foldl_cons, childElement]
    by_cases child : player.elementText.2.1.name ∈ testedAfter player.reader.name
    case pos =>
      have ended : (player.behindText.enqueueElement keys application
          player.currentElement).reader.tokenType ≠ .startElement := by
        rw [enqueueElement_reader]
        exact tokenType_of_testedAfter child
      rw [foldl_handleName_of_ended keys application ended (testedAfter_nodup _),
        enqueueElement_reader, if_pos child]
      exact if_pos child
    case neg =>
      rw [if_neg child, List.foldl_nil]
      apply foldl_handleName_of_notMem
      rwa [enqueueElement_reader]
  case neg =>
    have noText := elementText_of_notMem known
    have none : childElement player.reader.name player.elementText.2.1 = [] := by
      rw [noText, childElement_self]
    have still : player.behindText = player := by rw [behindText, noText]
    rw [handleElement, foldl_handleName_of_notMem keys application known, handledElements, none,
      List.foldl_cons, List.foldl_nil, still, enqueueElement_of_decode keys application alive
        (decode_of_notMem keys application known), List.append_nil]

/-! ## What is queued -/

/-- The entries for an element, none if the player fails on it. -/
def elementEntries (element : Element) : List (Event keys.Sequence) :=
  (decode keys application element).getD []

/-- The elements up to the first on which the player fails. -/
def untilFailure : List Element → List Element
  | [] => []
  | element :: rest =>
      element :: if (decode keys application element).isSome then untilFailure rest else []

theorem isPrefix_untilFailure (elements : List Element) :
    untilFailure keys application elements <+: elements := by
  induction elements with
  | nil => exact List.prefix_rfl
  | cons element rest ih =>
      rw [untilFailure]
      split
      · exact (List.prefix_cons_inj element).mpr ih
      · exact (List.prefix_cons_inj element).mpr List.nil_prefix

theorem untilFailure_single (element : Element) :
    untilFailure keys application [element] = [element] := by
  rw [untilFailure, untilFailure, ite_self]

theorem untilFailure_of_found {elements : List Element}
    (found : ∀ element ∈ elements, (decode keys application element).isSome = true) :
    untilFailure keys application elements = elements := by
  induction elements with
  | nil => rfl
  | cons element rest ih =>
      rw [untilFailure, if_pos (found element (List.mem_cons_self ..)),
        ih fun other member => found other (List.mem_cons_of_mem _ member)]

theorem foldl_enqueueElement_of_failed (failed : player.failed = true) (elements : List Element) :
    elements.foldl (enqueueElement keys application) player = player := by
  induction elements with
  | nil => rfl
  | cons element rest ih => rwa [List.foldl_cons, enqueueElement, if_pos failed]

theorem foldl_enqueueElement (alive : player.failed = false) (elements : List Element) :
    elements.foldl (enqueueElement keys application) player =
      let queued := { player with
        eventQueue := player.eventQueue ++
          (untilFailure keys application elements).flatMap (elementEntries keys application) }
      if ∀ element ∈ elements, (decode keys application element).isSome = true then
        queued
      else
        queued.fail := by
  induction elements generalizing player with
  | nil => simp [untilFailure]
  | cons element rest ih =>
      rw [List.foldl_cons, untilFailure]
      cases found : decode keys application element with
      | none =>
          have failed : player.enqueueElement keys application element = player.fail := by
            rw [enqueueElement, if_neg (by simp [alive]), found]
          rw [failed, foldl_enqueueElement_of_failed keys application rfl]
          simp [elementEntries, found]
      | some events =>
          have kept : { player with eventQueue := player.eventQueue ++ events }.failed = false :=
            alive
          rw [enqueueElement_of_decode keys application alive found, ih kept]
          simp [elementEntries, found, List.append_assoc]

/-- What a call of `handleElement` does: the reader goes on behind the text, and the
entries are queued up to an element on which the player fails. -/
theorem handleElement_eq (alive : player.failed = false) :
    player.handleElement keys application =
      let queued := { player.behindText with
        eventQueue := player.eventQueue ++
          (untilFailure keys application player.handledElements).flatMap
            (elementEntries keys application) }
      if ∀ element ∈ player.handledElements, (decode keys application element).isSome = true then
        queued
      else
        queued.fail := by
  have kept : player.behindText.failed = false := alive
  rw [handleElement_eq_foldl keys application alive]
  exact foldl_enqueueElement keys application kept player.handledElements

/-- A call leaves a player that has failed as it is; otherwise entries are queued, and the
player may fail. -/
theorem handleElement_cases (player : Player Object keys.Sequence) :
    player.handleElement keys application = player ∨
      ∃ eventQueue,
        player.handleElement keys application =
            { player.behindText with eventQueue := eventQueue } ∨
          player.handleElement keys application =
            { player.behindText with eventQueue := eventQueue }.fail := by
  cases failed : player.failed with
  | true => exact .inl (foldl_handleName_of_failed keys application failed handledNames)
  | false =>
      rw [handleElement_eq keys application failed]
      dsimp only
      split
      · exact .inr ⟨_, .inl rfl⟩
      · exact .inr ⟨_, .inr rfl⟩

theorem handleElement_reader (alive : player.failed = false) :
    (player.handleElement keys application).reader = player.elementText.2.1 := by
  rw [handleElement_eq keys application alive]
  dsimp only
  split <;> rfl

theorem handleElement_unread (alive : player.failed = false) :
    (player.handleElement keys application).unread = player.elementText.2.2 := by
  rw [handleElement_eq keys application alive]
  dsimp only
  split <;> rfl

theorem handleElement_eventQueue (alive : player.failed = false) :
    (player.handleElement keys application).eventQueue = player.eventQueue ++
      (untilFailure keys application player.handledElements).flatMap
        (elementEntries keys application) := by
  rw [handleElement_eq keys application alive]
  dsimp only
  split <;> rfl

/-- The calls go on as they were, unless the player fails. -/
theorem handleElement_stack (player : Player Object keys.Sequence) :
    (player.handleElement keys application).stack = player.stack ∨
      (player.handleElement keys application).stack = [] := by
  rcases player.handleElement_cases keys application with same | ⟨eventQueue, same | same⟩
  · exact .inl (by rw [same])
  · exact .inl (by rw [same]; rfl)
  · exact .inr (by rw [same]; rfl)

theorem handleElement_failed (alive : player.failed = false) :
    (player.handleElement keys application).failed = false ↔
      ∀ element ∈ player.handledElements, (decode keys application element).isSome = true := by
  rw [handleElement_eq keys application alive]
  dsimp only
  split
  next found => exact iff_of_true alive found
  next missing => exact iff_of_false (by simp [fail]) missing

end

end Player

end Hooq
