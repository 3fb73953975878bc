import Hooq.Playback.Elements
import Hooq.Playback.Targets

/-!
# From element to element

What a step of the player takes from the elements that are ahead of it, in what has
arrived and in what will.
-/

namespace Hooq

namespace Player

section

variable {Object Sequence : Type} (player : Player Object Sequence)

/-- The elements that the player will come to in what is unread and what arrives later. -/
def ahead (later : List Token) : List Element :=
  if player.device then player.reader.ahead (player.unread ++ later) else []

/-- The text of the element that is parsed next, if more had arrived, and the reader behind
it. -/
def readText (more : List Token) : QString × XmlReader × List Token :=
  player.readToken.reader.readElementText (player.readToken.unread ++ more)

variable {player}

/-- What is ahead is a matter of the reader, the device and the unread data. -/
theorem ahead_congr {next : Player Object Sequence} (device : next.device = player.device)
    (reader : next.reader = player.reader) (unread : next.unread = player.unread)
    (later : List Token) : next.ahead later = player.ahead later := by
  rw [ahead, ahead, device, reader, unread]

theorem ahead_of_device (device : player.device = true) (later : List Token) :
    player.ahead later = player.reader.ahead (player.unread ++ later) :=
  if_pos device

theorem ahead_of_detached (gone : player.device = false) (later : List Token) :
    player.ahead later = [] :=
  if_neg (ne_true_of_eq_false gone)

theorem ack_device : player.ack.device = player.device := by
  rcases player.ack_eq with ⟨_, same⟩ | ⟨-, same⟩ <;> rw [same]
  rfl

theorem processEvents_device : player.processEvents.device = player.device := by
  obtain ⟨_, _, same⟩ := player.processEvents_eq
  rw [same]

theorem endElement_device (stack : List Frame) :
    (player.endElement stack).device = player.device := by
  rw [endElement]
  split
  · rw [processEvents_device, ack_device]
  · rfl

/-- The elements that a step comes to.  The text is what has arrived of it; behind the text
go the elements behind the whole text, unless only the whole text ends in a child: then
the player comes to that by itself. -/
inductive Comes (player : Player Object Sequence) (later : List Token) (next : Player Object Sequence) :
    List Element → Prop where
  | plain (name : QString) (attributes : Attributes) (noText : readsText name = false)
      (here : player.ahead later = ⟨name, attributes, []⟩ :: next.ahead later) :
      Comes player later next [⟨name, attributes, []⟩]
  | text (name : QString) (attributes : Attributes) (reads : readsText name = true)
      (here : player.ahead later = ⟨name, attributes, (player.readText later).1⟩ ::
        (childElement name (player.readText later).2.1 ++
          (player.readText later).2.1.ahead (player.readText later).2.2))
      (behind : next.ahead later =
        (player.readText []).2.1.ahead ((player.readText []).2.2 ++ later))
      (alone : (player.readText []).2.1.error = false →
        childElement name (player.readText []).2.1 = [])
      (rejoins : ((player.readText later).2.1.error = true →
          (player.readText []).2.1.error = true) →
        childElement name (player.readText []).2.1 = childElement name (player.readText later).2.1 ∧
          next.ahead later = (player.readText later).2.1.ahead (player.readText later).2.2)
      (cut : (player.readText later).2.1.error = true →
        (player.readText []).2.1.error = false →
          ∃ text rest, next.ahead later =
            ⟨(player.readText later).2.1.name, (player.readText later).2.1.attributes, text⟩ ::
              rest) :
      Comes player later next
        (⟨name, attributes, (player.readText []).1⟩ :: childElement name (player.readText []).2.1)

/-- A step comes to the elements that it parses, and else to none. -/
structure Advances (player next : Player Object Sequence) : Prop where
  grounded : next.reader.Grounded
  passes (later : List Token) : player.nextElements = [] → next.ahead later = player.ahead later
  comes (later : List Token) : player.nextElements ≠ [] →
    Comes player later next player.nextElements

theorem Advances.of_still (grounded : player.reader.Grounded)
    (noElement : player.nextElements = []) {next : Player Object Sequence}
    (device : next.device = player.device) (reader : next.reader = player.reader)
    (unread : next.unread = player.unread) : Advances player next where
  grounded := reader ▸ grounded
  passes later _ := ahead_congr device reader unread later
  comes _ parses := absurd noElement parses

/-- A start tag is read from data that is there. -/
theorem available_ne_nil (starts : player.readToken.reader.tokenType = .startElement) :
    player.available ≠ [] := by
  intro none
  have reader : player.readToken.reader = (player.reader.readNext []).1 := by
    rw [readToken, none]
  rw [reader] at starts
  exact player.reader.readNext_nil_ne_start starts

theorem device_of_starts (starts : player.readToken.reader.tokenType = .startElement) :
    player.device = true := by
  by_contra gone
  exact available_ne_nil starts (if_neg gone)

/-- A start tag that is read, and what stands behind it. -/
theorem readToken_opens (starts : player.readToken.reader.tokenType = .startElement)
    (later : List Token) :
    XmlReader.Opens player.reader player.readToken.reader (player.unread ++ later)
      (player.readToken.unread ++ later) := by
  have device := device_of_starts starts
  rw [readToken_eq device] at starts ⊢
  exact player.reader.readNext_opens player.unread later starts

/-- What is read without a start tag holds no element. -/
theorem ahead_readToken (grounded : player.reader.Grounded)
    (other : player.readToken.reader.tokenType ≠ .startElement) (later : List Token) :
    player.readToken.ahead later = player.ahead later := by
  by_cases device : player.device = true
  · have attached : player.readToken.device = true := device
    rw [readToken_eq device] at other
    rw [ahead_of_device attached, ahead_of_device device, readToken_eq device]
    exact (grounded.readNext_ahead player.unread later other).symm
  · have gone := Bool.eq_false_of_not_eq_true device
    have detached : player.readToken.device = false := gone
    rw [ahead_of_detached gone, ahead_of_detached detached]

theorem grounded_elementText (grounded : player.reader.Grounded) :
    player.readToken.elementText.2.1.Grounded := by
  have read : player.readToken.reader.Grounded := grounded.readNext player.available
  rw [elementText]
  split
  · exact read.readElementText _
  · exact read

theorem readText_nil (reads : readsText player.readToken.reader.name = true)
    (starts : player.readToken.reader.tokenType = .startElement) :
    player.readToken.elementText = player.readText [] := by
  rw [elementText, if_pos (by simp [reads, starts]), readText, List.append_nil]

/-- What comes to an element reads its text at once. -/
theorem comes_of_starts (starts : player.readToken.reader.tokenType = .startElement)
    {next : Player Object Sequence} (device : next.device = true)
    (reader : next.reader = player.readToken.elementText.2.1)
    (unread : next.unread = player.readToken.elementText.2.2) (later : List Token) :
    Comes player later next player.readToken.handledElements := by
  have opens := readToken_opens starts later
  have here := opens.ahead
  rw [← ahead_of_device (device_of_starts starts)] at here
  by_cases reads : readsText player.readToken.reader.name = true
  · have text := readText_nil reads starts
    rw [if_pos reads, XmlReader.elementsFrom_text opens.fine rfl, List.nil_append] at here
    rw [text] at reader unread
    have behind : next.ahead later =
        (player.readText []).2.1.ahead ((player.readText []).2.2 ++ later) := by
      rw [ahead_of_device device, reader, unread]
    have shape : player.readToken.handledElements =
        ⟨player.readToken.reader.name, player.readToken.reader.attributes,
          (player.readText []).1⟩ ::
            childElement player.readToken.reader.name (player.readText []).2.1 := by
      rw [handledElements, currentElement, text]
    rw [shape]
    have whole : player.readText [] =
        player.readToken.reader.readElementText player.readToken.unread := by
      rw [readText, List.append_nil]
    have alone : (player.readText []).2.1.error = false →
        childElement player.readToken.reader.name (player.readText []).2.1 = [] := by
      rw [whole]
      exact childElement_of_fine _
    refine .text _ _ reads here behind alone ?_ ?_
    · rw [behind, whole]
      intro stops
      exact ⟨XmlReader.childElement_append opens.fine _ later stops,
        XmlReader.readElementText_ahead opens.fine opens.openRoot opens.inside _ later stops⟩
    · rw [behind, whole]
      intro child cut
      exact XmlReader.readElementText_comes opens.fine opens.openRoot opens.inside _ later child cut
  · have text : player.readToken.elementText =
        ([], player.readToken.reader, player.readToken.unread) := if_neg (by simp [reads])
    have shape : player.readToken.handledElements =
        [⟨player.readToken.reader.name, player.readToken.reader.attributes, []⟩] := by
      rw [handledElements, currentElement, text, childElement_self]
    rw [if_neg reads] at here
    rw [text] at reader unread
    rw [shape]
    refine .plain _ _ (Bool.eq_false_of_not_eq_true reads) ?_
    rw [here, ahead_of_device device, reader, unread]

end

section

variable (keys : KeySequences) {Object : Type} [DecidableEq Object]
  (application : Application Object) (player : Player Object keys.Sequence)

theorem handleElement_device :
    (player.handleElement keys application).device = player.device := by
  rcases player.handleElement_cases keys application with same | ⟨eventQueue, same | same⟩ <;>
    rw [same] <;> rfl

theorem Outcome.device {event : Event keys.Sequence} {next : Player Object keys.Sequence}
    (outcome : Outcome application event player next) : next.device = player.device := by
  cases outcome <;> rfl

variable {keys application player}

theorem step_advances (application : Application Object) (alive : player.failed = false)
    (grounded : player.reader.Grounded) : Advances player (player.step keys application) := by
  cases player.stepCase keys application with
  | idle turn step =>
      rw [step]
      exact .of_still grounded turn.nextElements rfl rfl rfl
  | performs stack event rest shape queue step =>
      have outcome := perform_outcome application event { player with eventQueue := rest }
      rw [step]
      exact .of_still grounded (nextElements_of_ne shape (by decide)) outcome.device outcome.reader
        outcome.unread
  | settles stack shape queue step =>
      have noElement := nextElements_of_ne shape (by decide)
      rw [step, endProcessing]
      split
      next ended =>
        refine ⟨⟨(fun reading => by cases reading), fun reading => by cases reading⟩,
          fun later _ => ?_, fun later parses => absurd noElement parses⟩
        have stopped : (player.reader.error || player.reader.rootClosed) = true := by
          rw [grounded.ended ended, Bool.or_true]
        rw [ahead_of_detached rfl, ahead]
        split
        next => exact (XmlReader.ahead_of_stopped stopped _).symm
        next => rfl
      next => exact .of_still grounded noElement rfl rfl rfl
  | closes stack shape step =>
      rw [step]
      exact .of_still grounded (nextElements_of_ne shape (by decide)) (endElement_device stack)
        (player.endElement_reader stack) (player.endElement_unread stack)
  | stops stack shape ending step =>
      rw [step]
      exact .of_still grounded (nextElements_of_atEnd ending) processEvents_device
        (processEvents_reader _) (processEvents_unread _)
  | parses stack shape more starts step =>
      have element := nextElements_of_starts shape more starts
      have entered : { player.readToken with stack := .readElement :: stack }.failed = false :=
        alive
      rw [step]
      have reader : (({ player.readToken with stack := .readElement :: stack }.handleElement keys
          application).processEvents).reader = player.readToken.elementText.2.1 := by
        rw [processEvents_reader, handleElement_reader keys application entered]
        rfl
      refine ⟨?_, fun later none => ?_, fun later _ => ?_⟩
      · rw [reader]
        exact grounded_elementText grounded
      · rw [element] at none
        cases none
      · rw [element]
        refine comes_of_starts starts ?_ reader ?_ later
        · have attached : player.device = true := device_of_starts starts
          rw [processEvents_device, handleElement_device]
          exact attached
        · rw [processEvents_unread, handleElement_unread keys application entered]
          rfl
  | passes stack shape more other step =>
      rw [step]
      refine ⟨?_, fun later _ => ?_, fun later parses => absurd (nextElements_of_other other) parses⟩
      · rw [endElement_reader]
        exact grounded.readNext player.available
      · exact (ahead_congr (endElement_device stack) (endElement_reader _ stack)
          (endElement_unread _ stack) later).trans (ahead_readToken grounded other later)

/-- Calls from an event loop leave the device where it is. -/
theorem meet_device (player : Player Object keys.Sequence) {occurrence : Occurrence Object}
    (calls : ∀ application, occurrence ≠ .run application) :
    (player.meet keys occurrence).device = player.device := by
  cases occurrence with
  | run application => exact absurd rfl (calls application)
  | readyRead arrived =>
      simp only [meet, Player.readyRead]
      split <;> rfl
  | endFlush => rfl
  | waitFinished => simp only [meet, Player.waitFinished, processEvents_device, ack_device]
  | endPick object =>
      simp only [meet, Player.endPick, processEvents_device, reply]
      split <;> rfl

/-- The player fails where it cannot queue the entries of an element. -/
theorem step_failed (alive : player.failed = false) {element : Element}
    (parses : element ∈ player.nextElements)
    (missing : decode keys application element = none) :
    (player.step keys application).failed = true := by
  by_contra fine
  have running := Bool.eq_false_of_not_eq_true fine
  rw [nextElements] at parses
  split at parses
  next reads =>
    obtain ⟨stack, shape⟩ := List.head?_eq_some_iff.mp reads.1
    have entered : { player.readToken with stack := .readElement :: stack }.failed = false := alive
    rw [step_reading keys application shape, if_neg reads.2.1, if_pos reads.2.2,
      processEvents_failed, handleElement_failed keys application entered] at running
    have found := running element parses
    rw [missing] at found
    cases found
  next => cases parses

end

end Player

end Hooq
