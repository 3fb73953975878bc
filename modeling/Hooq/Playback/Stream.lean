import Hooq.Playback.Conservation

/-!
# The stream of an open document

While the interpreter has not closed the document, the stream has its root element and
below it elements that hold nothing but text.  The reader then meets neither an error
nor the end of the document.
-/

namespace Hooq

/-- The open elements behind a stream that starts at a depth, if the stream is one of
elements with text in a root that stays open.  The root is none of which the text is
read. -/
def flatDepth : Nat → List Token → Option Nat
  | depth, [] => some depth
  | 0, .start name _ :: rest => if Player.readsText name then none else flatDepth 1 rest
  | 1, .start _ _ :: rest => flatDepth 2 rest
  | _ + 2, .start _ _ :: _ => none
  | 0, .character _ :: _ => none
  | depth + 1, .character _ :: rest => flatDepth (depth + 1) rest
  | 2, .stop :: rest => flatDepth 1 rest
  | _, .stop :: _ => none

theorem flatDepth_append (depth : Nat) (front back : List Token) :
    flatDepth depth (front ++ back) = (flatDepth depth front).bind (flatDepth · back) := by
  fun_induction flatDepth depth front <;> simp_all [flatDepth]

theorem flatDepth_text (depth : Nat) (text : QString) (rest : List Token) :
    flatDepth (depth + 1) (textTokens text ++ rest) = flatDepth (depth + 1) rest := by
  induction text with
  | nil => rfl
  | cons character text ih => exact ih

/-- Below the root an element leaves the depth as it is. -/
theorem flatDepth_tokens (element : Element) (rest : List Token) :
    flatDepth 1 (element.tokens ++ rest) = flatDepth 1 rest := by
  rw [Element.tokens, List.cons_append, List.append_assoc, flatDepth, flatDepth_text]
  rfl

namespace XmlReader

/-- The reader is in the open document that goes on with a stream. -/
structure Flat (reader : XmlReader) (stream : List Token) : Prop where
  fine : reader.error = false
  openRoot : reader.rootClosed = false
  still : reader.tokenType ≠ .endDocument
  depth : flatDepth reader.depth stream = some 1

/-- Reading a token stays in the document; an element with text is below the root. -/
theorem Flat.readNext {reader : XmlReader} {tokens later : List Token}
    (flat : reader.Flat (tokens ++ later)) :
    (reader.readNext tokens).1.Flat ((reader.readNext tokens).2 ++ later) ∧
      ((reader.readNext tokens).1.tokenType = .startElement →
        Player.readsText (reader.readNext tokens).1.name = true →
          (reader.readNext tokens).1.depth = 2) := by
  obtain ⟨tokenType, name, attributes, depth, rootClosed, error⟩ := reader
  obtain ⟨fine, openRoot, still, flatRest⟩ := flat
  dsimp only at fine openRoot flatRest
  subst fine openRoot
  cases tokens with
  | nil => exact ⟨⟨rfl, rfl, nofun, flatRest⟩, nofun⟩
  | cons token rest =>
      rw [List.cons_append] at flatRest
      cases token with
      | start starting startAttributes =>
          match depth with
          | 0 =>
              rw [flatDepth] at flatRest
              split at flatRest
              next isText => cases flatRest
              next noText => exact ⟨⟨rfl, rfl, nofun, flatRest⟩, fun _ isText => absurd isText noText⟩
          | 1 => exact ⟨⟨rfl, rfl, nofun, flatRest⟩, fun _ _ => rfl⟩
          | _ + 2 => cases flatRest
      | character character =>
          match depth with
          | 0 => cases flatRest
          | 1 => exact ⟨⟨rfl, rfl, nofun, flatRest⟩, nofun⟩
          | _ + 2 => exact ⟨⟨rfl, rfl, nofun, flatRest⟩, nofun⟩
      | stop =>
          match depth with
          | 0 => cases flatRest
          | 1 => cases flatRest
          | 2 => exact ⟨⟨rfl, rfl, nofun, flatRest⟩, nofun⟩
          | _ + 3 => cases flatRest

/-- Reading the text of an element stays in the document. -/
theorem Flat.readElementText {reader : XmlReader} {tokens later : List Token}
    (flat : reader.Flat (tokens ++ later)) (inElement : reader.depth = 2) :
    (reader.readElementText tokens).2.1.Flat
      ((reader.readElementText tokens).2.2 ++ later) := by
  obtain ⟨tokenType, name, attributes, depth, rootClosed, error⟩ := reader
  dsimp only at inElement
  subst inElement
  induction tokens with
  | nil => exact ⟨flat.fine, flat.openRoot, nofun, flat.depth⟩
  | cons token rest ih =>
      have depth := flat.depth
      cases token with
      | start starting startAttributes => cases depth
      | character character => exact ih ⟨flat.fine, flat.openRoot, flat.still, depth⟩
      | stop => exact ⟨flat.fine, rfl, nofun, depth⟩

theorem readNext_subset (reader : XmlReader) (tokens : List Token) :
    (reader.readNext tokens).2 ⊆ tokens := by
  fun_induction XmlReader.readNext reader tokens with
  | case7 character rest _ _ _ ih => exact fun token member => List.mem_cons_of_mem _ (ih member)
  | _ => simp

theorem readElementText_subset (reader : XmlReader) (tokens : List Token) :
    (reader.readElementText tokens).2.2 ⊆ tokens ∧
      textTokens (reader.readElementText tokens).1 ⊆ tokens := by
  induction tokens with
  | nil => exact ⟨List.Subset.refl _, List.Subset.refl _⟩
  | cons token rest ih =>
      cases token with
      | start name attributes => simp [XmlReader.readElementText, textTokens]
      | character character =>
          constructor
          · exact fun token member => List.mem_cons_of_mem _ (ih.1 member)
          · exact List.cons_subset_cons _ ih.2
      | stop => simp [XmlReader.readElementText, textTokens]

end XmlReader

namespace Player

variable {Object : Type} [DecidableEq Object] (keys : KeySequences)
  (application : Application Object) {player : Player Object keys.Sequence}

theorem Performs.reader {Object Sequence : Type} {event : Event Sequence}
    {player next : Player Object Sequence} (performs : Performs event player next) :
    next.reader = player.reader := by
  cases performs <;> rfl

/-- Reading the text of an element leaves the reader in the open document. -/
theorem elementText_flat {Object Sequence : Type} {player : Player Object Sequence}
    {later : List Token} (flat : player.reader.Flat (player.unread ++ later))
    (inElement : player.reader.tokenType = .startElement →
      readsText player.reader.name = true → player.reader.depth = 2) :
    player.elementText.2.1.Flat (player.elementText.2.2 ++ later) := by
  rw [elementText]
  split
  next isText =>
      rw [Bool.and_eq_true, decide_eq_true_eq] at isText
      exact flat.readElementText (inElement isText.2 isText.1)
  next noText => exact flat

/-- The reader of a player stays in an open document. -/
theorem Sound.step_flat (sound : player.Sound) {later : List Token}
    (flat : player.reader.Flat (player.unread ++ later))
    (safe : player.StepsSafely application) :
    (player.step keys application).reader.Flat
      ((player.step keys application).unread ++ later) := by
  have read := flat.readNext
  cases player.stepCase keys application with
  | idle turn step => rwa [step]
  | performs stack event rest shape queue step =>
      have performed := perform_performs application event
        { player with eventQueue := rest } sound.device
        (safe.performs event (by rw [shape]; rfl) (by rw [queue]; rfl))
      rw [step, performed.reader, performed.unread]
      exact flat
  | settles stack shape queue step =>
      have ended : player.endProcessing = { player with processingEvents := false }.leave :=
        if_neg flat.still
      rw [step, ended]
      exact flat
  | closes stack shape step =>
      rw [step, endElement_eq flat.still]
      exact flat
  | stops stack shape ending step =>
      rw [step, processEvents_reader, processEvents_unread]
      exact flat
  | parses stack shape more starts step =>
      have alive : { player.readToken with stack := .readElement :: stack }.failed = false :=
        sound.alive
      rw [step, processEvents_reader, processEvents_unread,
        handleElement_reader keys application alive, handleElement_unread keys application alive]
      rw [readToken_eq sound.device]
      exact elementText_flat read.1 read.2
  | passes stack shape more other step =>
      rw [step, readToken_eq sound.device, endElement_eq read.1.still]
      exact read.1

/-- What a step can do while the document is open: go on with an entry of the queue, or
move its calls and its reader on, with the entries for an element that is read. -/
inductive Steps (player : Player Object keys.Sequence) : Player Object keys.Sequence → Prop where
  | performed (event : Event keys.Sequence) (rest : List (Event keys.Sequence))
      (next : Player Object keys.Sequence) (queue : player.eventQueue = event :: rest)
      (performs : Performs event { player with eventQueue := rest } next) : Steps player next
  | moved (reader : XmlReader) (unread : List Token) (processingEvents : Bool)
      (stack : List Frame) (events : List (Event keys.Sequence)) (consumes : unread ⊆ player.unread)
      (source : events = [] ∨
        ∃ name attributes text, .start name attributes ∈ player.unread ∧
          textTokens text ⊆ player.unread ∧
          postElement keys application name attributes text = some events) :
      Steps player
        { player with
          reader := reader, unread := unread, processingEvents := processingEvents,
          stack := stack, eventQueue := player.eventQueue ++ events }

theorem Steps.of_moved {player : Player Object keys.Sequence} {reader : XmlReader}
    {unread : List Token} {processingEvents : Bool} {stack : List Frame}
    (consumes : unread ⊆ player.unread) :
    Steps keys application player
      { player with
        reader := reader, unread := unread, processingEvents := processingEvents,
        stack := stack } := by
  have moved : Steps keys application player _ :=
    .moved reader unread processingEvents stack [] consumes (.inl rfl)
  rwa [List.append_nil] at moved

section

variable {keys application} {player next : Player Object keys.Sequence}

theorem Steps.written (steps : Steps keys application player next) :
    ∃ replies, next.written = player.written ++ replies := by
  cases steps with
  | performed event rest _ queue performs =>
      cases performs with
      | answered replies => exact ⟨replies, rfl⟩
      | _ => exact ⟨[], (List.append_nil _).symm⟩
  | moved => exact ⟨[], (List.append_nil _).symm⟩

theorem Steps.finished (steps : Steps keys application player next) :
    next.finished = player.finished := by
  cases steps with
  | performed event rest _ queue performs => cases performs <;> rfl
  | moved => rfl

theorem Steps.unread (steps : Steps keys application player next) :
    next.unread ⊆ player.unread := by
  cases steps with
  | performed event rest _ queue performs =>
      rw [performs.unread]
      exact List.Subset.refl _
  | moved reader unread processingEvents stack events consumes => exact consumes

theorem Steps.ackNext (steps : Steps keys application player next)
    (settled : player.eventQueue = []) : next.ackNext = player.ackNext := by
  cases steps with
  | performed event rest _ queue performs => simp [settled] at queue
  | moved => rfl

/-- A queued entry was queued before or is one for an element that is read. -/
theorem Steps.entries (steps : Steps keys application player next) (event : Event keys.Sequence)
    (member : event ∈ next.eventQueue) :
    event ∈ player.eventQueue ∨
      ∃ name attributes text events, .start name attributes ∈ player.unread ∧
        textTokens text ⊆ player.unread ∧
        postElement keys application name attributes text = some events ∧ event ∈ events := by
  cases steps with
  | performed other rest _ queue performs =>
      left
      have kept : next.eventQueue = rest := by cases performs <;> rfl
      rw [queue, ← kept]
      exact List.mem_cons_of_mem _ member
  | moved reader unread processingEvents stack events consumes source =>
      refine (List.mem_append.mp member).imp_right fun new => ?_
      rcases source with rfl | ⟨name, attributes, text, parsed, inText, found⟩
      · cases new
      · exact ⟨name, attributes, text, events, parsed, inText, found, new⟩

end

theorem Sound.steps (sound : player.Sound) (still : player.reader.tokenType ≠ .endDocument)
    (safe : player.StepsSafely application)
    (stillNext : (player.step keys application).reader.tokenType ≠ .endDocument)
    (fineNext : (player.step keys application).reader.error = false) :
    Steps keys application player (player.step keys application) := by
  have subset := player.reader.readNext_subset player.unread
  cases player.stepCase keys application with
  | idle turn step =>
      rw [step]
      exact .of_moved keys application (List.Subset.refl _)
  | performs stack event rest shape queue step =>
      rw [step]
      exact .performed event rest _ queue (perform_performs application event
        { player with eventQueue := rest } sound.device
        (safe.performs event (by rw [shape]; rfl) (by rw [queue]; rfl)))
  | settles stack shape queue step =>
      have ended : player.endProcessing = { player with processingEvents := false }.leave :=
        if_neg still
      rw [step, ended]
      exact .of_moved keys application (List.Subset.refl _)
  | closes stack shape step =>
      rw [step, endElement_eq still]
      exact .of_moved keys application (List.Subset.refl _)
  | stops stack shape ending step =>
      obtain ⟨processingEvents, newStack, same⟩ := processEvents_eq { player with stack := stack }
      rw [step, same]
      exact .of_moved keys application (List.Subset.refl _)
  | parses stack shape more starts step =>
      have safeText := safe.parses (by rw [shape]; rfl) more
      have alive : { player.readToken with stack := .readElement :: stack }.failed = false :=
        sound.alive
      rw [step, processEvents_reader, handleElement_reader keys application alive] at fineNext
      rw [step]
      rw [readToken_eq sound.device] at alive starts safeText fineNext ⊢
      have parsed := player.reader.mem_of_readNext_start player.unread starts
      have text := XmlReader.readElementText_subset
        (player.reader.readNext player.unread).1 (player.reader.readNext player.unread).2
      obtain ⟨events, found⟩ := Option.isSome_iff_exists.mp (isSome_postElement keys
        application (player.reader.readNext player.unread).1.name
        (player.reader.readNext player.unread).1.attributes
        (elementText { player with
          reader := (player.reader.readNext player.unread).1
          unread := (player.reader.readNext player.unread).2
          stack := .readElement :: stack }).1
        (safeText starts))
      rw [handleElement_of_fine keys application alive fineNext found]
      obtain ⟨processingEvents, newStack, same⟩ := processEvents_eq _
      rw [same]
      refine .moved _ _ _ _ _ ?_ (.inr ⟨_, _, _, parsed, ?_, found⟩)
      · rw [elementText]
        split
        · exact List.Subset.trans text.1 subset
        · exact subset
      · rw [elementText]
        split
        · exact List.Subset.trans text.2 subset
        · exact List.nil_subset _
  | passes stack shape more other step =>
      rw [step, endElement_reader] at stillNext
      rw [step, endElement_eq stillNext, readToken_eq sound.device]
      exact .of_moved keys application subset

end Player

end Hooq
