import Hooq.Playback.Stream

/-!
# The elements of a stream

Which elements the player finds in a stream is a matter of the stream alone.  It comes
to them one by one, and at most the text that it reads for one depends on what has
arrived: `readElementText` is content with what is there.
-/

namespace Hooq

/-- The elements that the player finds in a stream, up to where its reader stops.  The
stream starts at a depth, and in the text of an element if there is one.  A child stops
the reader at such a text, and is found if the test for its name is to come. -/
def elementsFrom : Nat → Option Element → List Token → List Element
  | _, none, [] => []
  | _, some element, [] => [element]
  | depth, some element, .character character :: rest =>
      elementsFrom depth (some { element with text := element.text ++ [character] }) rest
  | depth, some element, .stop :: rest =>
      element :: if depth = 1 then [] else elementsFrom (depth - 1) none rest
  | _, some element, .start name attributes :: _ =>
      element :: if name ∈ Player.testedAfter element.name then [⟨name, attributes, []⟩] else []
  | depth, none, .start name attributes :: rest =>
      if Player.readsText name then
        elementsFrom (depth + 1) (some ⟨name, attributes, []⟩) rest
      else
        ⟨name, attributes, []⟩ :: elementsFrom (depth + 1) none rest
  | depth, none, .character character :: rest =>
      if depth = 0 ∧ ¬QString.isSpace character then [] else elementsFrom depth none rest
  | depth, none, .stop :: rest =>
      if depth ≤ 1 then [] else elementsFrom (depth - 1) none rest

namespace XmlReader

variable {reader : XmlReader}

/-- The elements that a reader will come to in a stream. -/
def ahead (reader : XmlReader) (tokens : List Token) : List Element :=
  if reader.error || reader.rootClosed then [] else elementsFrom reader.depth none tokens

/-- Behind its root element, a reader is in no element and may report the end. -/
structure Grounded (reader : XmlReader) : Prop where
  closed : reader.rootClosed = true → reader.depth = 0
  ended : reader.tokenType = .endDocument → reader.rootClosed = true

theorem ahead_nil (reader : XmlReader) : reader.ahead [] = [] := by
  rw [ahead]
  split <;> rfl

theorem ahead_of_stopped (stopped : (reader.error || reader.rootClosed) = true)
    (tokens : List Token) : reader.ahead tokens = [] :=
  if_pos stopped

theorem ahead_raiseError (reader : XmlReader) (tokens : List Token) :
    reader.raiseError.ahead tokens = [] :=
  rfl

theorem ahead_of_open (fine : reader.error = false) (openRoot : reader.rootClosed = false)
    (tokens : List Token) : reader.ahead tokens = elementsFrom reader.depth none tokens := by
  rw [ahead, fine, openRoot]
  rfl

/-- Text is passed over, and white space outside of the root element. -/
theorem ahead_character {character : QChar}
    (passed : ¬(reader.depth = 0 ∧ ¬QString.isSpace character)) (tokens : List Token) :
    reader.ahead (.character character :: tokens) = reader.ahead tokens := by
  rw [ahead, ahead, elementsFrom, if_neg passed]

/-- Behind an end tag the elements of the outer element go on, if there is one. -/
theorem ahead_stop (fine : reader.error = false) (tokens : List Token) :
    ({ reader with
      tokenType := .endElement, depth := reader.depth - 1,
      rootClosed := reader.depth = 1 } : XmlReader).ahead tokens =
        if reader.depth = 1 then [] else elementsFrom (reader.depth - 1) none tokens := by
  by_cases root : reader.depth = 1
  · rw [if_pos root]
    apply ahead_of_stopped
    simp [root]
  · rw [if_neg root]
    apply ahead_of_open
    · exact fine
    · exact decide_eq_false root

/-- A start tag that has been read, with the stream that it was read from. -/
structure Opens (reader next : XmlReader) (tokens rest : List Token) : Prop where
  fine : next.error = false
  openRoot : next.rootClosed = false
  inside : next.depth ≠ 0
  ahead : reader.ahead tokens =
    if Player.readsText next.name then
      elementsFrom next.depth (some ⟨next.name, next.attributes, []⟩) rest
    else
      ⟨next.name, next.attributes, []⟩ :: next.ahead rest

theorem readNext_nil_ne_start (reader : XmlReader) :
    (reader.readNext []).1.tokenType ≠ .startElement := by
  rw [readNext]
  split
  next => exact nofun
  next => split <;> exact nofun

theorem Grounded.readNext (grounded : reader.Grounded) (tokens : List Token) :
    (reader.readNext tokens).1.Grounded := by
  fun_induction XmlReader.readNext reader tokens with
  | case7 character rest _ _ _ ih => exact ih
  | case2 fine closed => exact ⟨grounded.closed, fun _ => closed⟩
  | case5 name attributes rest may =>
      simp only [Bool.or_eq_true, not_or] at may
      exact ⟨fun closed => absurd closed may.2, fun ended => by cases ended⟩
  | case11 rest may =>
      refine ⟨fun closed => ?_, fun ended => by cases ended⟩
      have root := of_decide_eq_true closed
      dsimp only
      rw [root]
  | _ => exact ⟨grounded.closed, fun ended => by cases ended⟩

/-- A reader that comes to a start tag comes to it as well if more has arrived. -/
theorem readNext_opens (reader : XmlReader) (tokens later : List Token)
    (starts : (reader.readNext tokens).1.tokenType = .startElement) :
    Opens reader (reader.readNext tokens).1 (tokens ++ later)
      ((reader.readNext tokens).2 ++ later) := by
  fun_induction XmlReader.readNext reader tokens with
  | case5 name attributes rest may =>
      simp only [Bool.or_eq_true, not_or, Bool.not_eq_true] at may
      refine ⟨may.1, may.2, Nat.succ_ne_zero _, ?_⟩
      rw [ahead_of_open may.1 may.2, List.cons_append, elementsFrom]
      split
      · rfl
      · rw [ahead_of_open]
        · exact may.1
        · exact may.2
  | case7 character rest fine outside space ih =>
      obtain ⟨fineNext, openRoot, inside, same⟩ := ih starts
      refine ⟨fineNext, openRoot, inside, ?_⟩
      rw [← same]
      exact ahead_character (fun both => both.2 space) _
  | _ => cases starts

/-- What a reader passes over holds no element. -/
theorem Grounded.readNext_ahead (grounded : reader.Grounded) (tokens later : List Token)
    (other : (reader.readNext tokens).1.tokenType ≠ .startElement) :
    reader.ahead (tokens ++ later) =
      (reader.readNext tokens).1.ahead ((reader.readNext tokens).2 ++ later) := by
  fun_induction XmlReader.readNext reader tokens with
  | case1 failed => exact ahead_of_stopped (by simp [failed]) _
  | case2 => rfl
  | case3 => rfl
  | case4 name attributes rest stopped => exact ahead_of_stopped stopped _
  | case5 => exact absurd rfl other
  | case6 character rest failed => exact ahead_of_stopped (by simp [failed]) _
  | case7 character rest fine outside space ih =>
      rw [← ih other]
      exact ahead_character (fun both => both.2 space) _
  | case8 character rest fine outside visible =>
      rw [ahead_raiseError, ahead]
      split
      · rfl
      · rw [List.cons_append, elementsFrom, if_pos ⟨outside, visible⟩]
  | case9 character rest fine inside =>
      exact ahead_character (fun both => inside both.1) _
  | case10 rest stopped =>
      rw [ahead_raiseError]
      simp only [Bool.or_eq_true, decide_eq_true_eq] at stopped
      rcases stopped with failed | outside
      · exact ahead_of_stopped (by simp [failed]) _
      · rw [ahead]
        split
        · rfl
        · rw [List.cons_append, elementsFrom, if_pos (by omega)]
  | case11 rest may =>
      simp only [Bool.or_eq_true, decide_eq_true_eq, not_or, Bool.not_eq_true] at may
      have openRoot : reader.rootClosed = false := by
        by_contra closed
        exact may.2 (grounded.closed (Bool.eq_true_of_not_eq_false closed))
      rw [ahead_of_open may.1 openRoot, ahead_stop may.1, List.cons_append, elementsFrom]
      have same : reader.depth ≤ 1 ↔ reader.depth = 1 := by omega
      rw [if_congr same rfl rfl]

theorem Grounded.readElementText (grounded : reader.Grounded) (tokens : List Token) :
    (reader.readElementText tokens).2.1.Grounded := by
  induction tokens with
  | nil => exact ⟨grounded.closed, nofun⟩
  | cons token rest ih =>
      cases token with
      | start name attributes => exact ⟨grounded.closed, nofun⟩
      | character character => exact ih
      | stop =>
          refine ⟨fun closed => ?_, nofun⟩
          have root : reader.depth = 1 := of_decide_eq_true closed
          show reader.depth - 1 = 0
          rw [root]

/-- The text of an element is read at once, with a child that is handled together with it,
then the elements behind it. -/
theorem elementsFrom_text (fine : reader.error = false) {element : Element}
    (named : element.name = reader.name) (tokens : List Token) :
    elementsFrom reader.depth (some element) tokens =
      { element with text := element.text ++ (reader.readElementText tokens).1 } ::
        (Player.childElement element.name (reader.readElementText tokens).2.1 ++
          (reader.readElementText tokens).2.1.ahead (reader.readElementText tokens).2.2) := by
  have own : reader.name ∉ Player.testedAfter element.name :=
    named ▸ Player.notMem_testedAfter element.name
  induction tokens generalizing element with
  | nil =>
      rw [XmlReader.readElementText, ahead_nil, elementsFrom, List.append_nil,
        Player.childElement, if_neg own]
      rfl
  | cons token rest ih =>
      cases token with
      | start name attributes =>
          rw [XmlReader.readElementText, elementsFrom, List.append_nil, ahead_raiseError,
            List.append_nil]
          rfl
      | character character =>
          rw [elementsFrom, ih, XmlReader.readElementText]
          · simp only [List.append_assoc, List.singleton_append]
          · exact named
          · exact own
      | stop =>
          rw [XmlReader.readElementText, elementsFrom, List.append_nil, ahead_stop fine,
            Player.childElement, if_neg own]
          rfl

/-- The element whose text goes on in a stream is found first. -/
theorem elementsFrom_some (depth : Nat) (element : Element) (tokens : List Token) :
    ∃ text rest, elementsFrom depth (some element) tokens = { element with text := text } :: rest := by
  induction tokens generalizing element with
  | nil => exact ⟨element.text, [], rfl⟩
  | cons token tokens ih =>
      cases token with
      | start name attributes => exact ⟨element.text, _, rfl⟩
      | character character => exact ih { element with text := element.text ++ [character] }
      | stop => exact ⟨element.text, _, rfl⟩

/-- Where the text is not read, the child that it runs into is found as an element. -/
theorem elementsFrom_child (fine : reader.error = false) (inside : reader.depth ≠ 0)
    (tokens : List Token) (child : (reader.readElementText tokens).2.1.error = true) :
    ∃ text rest, elementsFrom reader.depth none tokens =
      ⟨(reader.readElementText tokens).2.1.name,
        (reader.readElementText tokens).2.1.attributes, text⟩ :: rest := by
  induction tokens with
  | nil => exact absurd (child.symm.trans fine) (by decide)
  | cons token rest ih =>
      cases token with
      | start name attributes =>
          rw [elementsFrom]
          split
          next isText => exact elementsFrom_some _ ⟨name, attributes, []⟩ rest
          next noText => exact ⟨[], _, rfl⟩
      | character character =>
          rw [elementsFrom, if_neg fun both => inside both.1]
          exact ih child
      | stop => exact absurd (child.symm.trans fine) (by decide)

/-- Without a child element, the elements behind a text are those that the reader comes to
if it does not read the text. -/
theorem readElementText_skip (fine : reader.error = false) (inside : reader.depth ≠ 0)
    (tokens : List Token) (noChild : (reader.readElementText tokens).2.1.error = false) :
    elementsFrom reader.depth none tokens =
      (reader.readElementText tokens).2.1.ahead (reader.readElementText tokens).2.2 := by
  induction tokens with
  | nil => rw [XmlReader.readElementText, ahead_nil, elementsFrom]
  | cons token rest ih =>
      cases token with
      | start name attributes => cases noChild
      | character character =>
          rw [elementsFrom, if_neg fun both => inside both.1]
          exact ih noChild
      | stop =>
          rw [XmlReader.readElementText, elementsFrom, ahead_stop fine]
          have same : reader.depth ≤ 1 ↔ reader.depth = 1 := by omega
          rw [if_congr same rfl rfl]

/-- What has arrived of a text: where it ends, with or without a child, the reader is as
behind the whole text; where it is cut, all tokens are read and the reader goes on. -/
theorem readElementText_append (reader : XmlReader) (tokens later : List Token) :
    (reader.readElementText (tokens ++ later)).2 =
        ((reader.readElementText tokens).2.1, (reader.readElementText tokens).2.2 ++ later) ∨
      (reader.readElementText tokens).2 = ({ reader with tokenType := .invalid }, []) ∧
        (reader.readElementText (tokens ++ later)).2 = (reader.readElementText later).2 := by
  induction tokens with
  | nil => exact .inr ⟨rfl, rfl⟩
  | cons token rest ih =>
      cases token with
      | start name attributes => exact .inl rfl
      | character character => exact ih
      | stop => exact .inl rfl

/-- Behind the text that has arrived, the reader comes to the same elements as behind the
whole text, unless only the whole text ends in a child element. -/
theorem readElementText_ahead (fine : reader.error = false)
    (openRoot : reader.rootClosed = false) (inside : reader.depth ≠ 0)
    (tokens later : List Token)
    (stops : (reader.readElementText (tokens ++ later)).2.1.error = true →
      (reader.readElementText tokens).2.1.error = true) :
    (reader.readElementText tokens).2.1.ahead ((reader.readElementText tokens).2.2 ++ later) =
      (reader.readElementText (tokens ++ later)).2.1.ahead
        (reader.readElementText (tokens ++ later)).2.2 := by
  rcases reader.readElementText_append tokens later with whole | ⟨part, whole⟩
  · rw [whole]
  · rw [part, whole] at stops
    have noChild : (reader.readElementText later).2.1.error = false := by
      by_contra child
      exact absurd ((stops (Bool.eq_true_of_not_eq_false child)).symm.trans fine) (by decide)
    rw [part, whole]
    have same : ({ reader with tokenType := .invalid } : XmlReader).ahead later =
        reader.ahead later := rfl
    refine same.trans ?_
    rw [ahead_of_open fine openRoot]
    exact readElementText_skip fine inside later noChild

/-- Unless only the whole text ends in a child element, the same child is handled together
with what has arrived of the text. -/
theorem childElement_append (fine : reader.error = false) (tokens later : List Token)
    (stops : (reader.readElementText (tokens ++ later)).2.1.error = true →
      (reader.readElementText tokens).2.1.error = true) :
    Player.childElement reader.name (reader.readElementText tokens).2.1 =
      Player.childElement reader.name (reader.readElementText (tokens ++ later)).2.1 := by
  rcases reader.readElementText_append tokens later with whole | ⟨part, whole⟩
  · rw [whole]
  · have cut : (reader.readElementText tokens).2.1.error = false := by
      rw [part]
      exact fine
    have noChild : (reader.readElementText (tokens ++ later)).2.1.error = false := by
      by_contra child
      exact absurd ((stops (Bool.eq_true_of_not_eq_false child)).symm.trans cut) (by decide)
    rw [Player.childElement_of_fine _ cut, Player.childElement_of_fine _ noChild]

/-- Where only the whole text ends in a child element, the reader comes to that behind the
text that has arrived. -/
theorem readElementText_comes (fine : reader.error = false)
    (openRoot : reader.rootClosed = false) (inside : reader.depth ≠ 0)
    (tokens later : List Token)
    (child : (reader.readElementText (tokens ++ later)).2.1.error = true)
    (cut : (reader.readElementText tokens).2.1.error = false) :
    ∃ text rest, (reader.readElementText tokens).2.1.ahead
        ((reader.readElementText tokens).2.2 ++ later) =
      ⟨(reader.readElementText (tokens ++ later)).2.1.name,
        (reader.readElementText (tokens ++ later)).2.1.attributes, text⟩ :: rest := by
  rcases reader.readElementText_append tokens later with whole | ⟨part, whole⟩
  · rw [whole] at child
    exact absurd (child.symm.trans cut) (by decide)
  · rw [whole] at child
    rw [part, whole]
    have same : ({ reader with tokenType := .invalid } : XmlReader).ahead later =
        reader.ahead later := rfl
    have found := elementsFrom_child fine inside later child
    rwa [List.nil_append, same, ahead_of_open fine openRoot]

end XmlReader

end Hooq
