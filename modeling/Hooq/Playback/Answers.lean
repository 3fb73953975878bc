import Hooq.Playback.Player

/-!
# The answers to the elements

Every element that the player knows is answered once: by an acknowledgement, by the
properties of an object, or by those of the object that the user picks.  However the
calls of the player nest, the answers that it has given and those that it still owes
are together the answers to the elements read, in their order.
-/

namespace Hooq

inductive Answer where
  | ack
  | dumped
  | picked
  deriving DecidableEq, Repr

/-- The answer that an entry of the queue leads to. -/
def Event.answer {Sequence : Type} (event : Event Sequence) : Option Answer :=
  match event.task with
  | .dump _ => some .dumped
  | .pick => some .picked
  | .flush => none
  | _ => if event.ack then some .ack else none

def Reply.answer {Object : Type} : Reply Object → Option Answer
  | .ack => some .ack
  | .notFound _ => none
  | .dumped _ => some .dumped
  | .picked _ => some .picked

/-- The elements that are acknowledged. -/
def acknowledgedNames : List String :=
  ["msec", "dragAndDrop", "windowClosed", "contextMenu", "focusChanged", "keyPress", "keyRelease",
    "mouseMove", "mouseButtonPress", "mouseButtonDoubleClick", "mouseButtonRelease", "mouseWheel",
    "shortcut"]

/-- The answer to an element. -/
def elementAnswer (name : QString) : Option Answer :=
  if name = QString.ofString "dump" then
    some .dumped
  else if name = QString.ofString "pick" then
    some .picked
  else if name ∈ acknowledgedNames.map QString.ofString then
    some .ack
  else
    none

/-- The answers to the elements in a stream. -/
def streamAnswers (tokens : List Token) : List Answer :=
  tokens.filterMap fun
    | .start name _ => elementAnswer name
    | _ => none

@[simp] theorem streamAnswers_append (front back : List Token) :
    streamAnswers (front ++ back) = streamAnswers front ++ streamAnswers back :=
  List.filterMap_append

@[simp] theorem streamAnswers_textTokens (text : QString) :
    streamAnswers (textTokens text) = [] := by
  simp [streamAnswers, textTokens]

theorem streamAnswers_start (name : QString) (attributes : Attributes) (rest : List Token) :
    streamAnswers (.start name attributes :: rest) =
      (elementAnswer name).toList ++ streamAnswers rest := by
  cases found : elementAnswer name <;> simp [streamAnswers, found]

theorem streamAnswers_ne_nil {tokens : List Token} {name : QString} {attributes : Attributes}
    (member : .start name attributes ∈ tokens) (known : elementAnswer name ≠ none) :
    streamAnswers tokens ≠ [] := by
  obtain ⟨answer, isAnswer⟩ := Option.ne_none_iff_exists'.mp known
  exact List.ne_nil_of_mem (List.mem_filterMap.mpr ⟨_, member, isAnswer⟩)

/-- A stream in which nothing is answered has no element that the player knows. -/
theorem elementAnswer_eq_none {tokens : List Token} (silent : streamAnswers tokens = [])
    {name : QString} {attributes : Attributes} (member : .start name attributes ∈ tokens) :
    elementAnswer name = none := by
  by_contra known
  exact streamAnswers_ne_nil member known silent

/-- A part of such a stream has none either. -/
theorem streamAnswers_of_subset {tokens rest : List Token} (part : rest ⊆ tokens)
    (silent : streamAnswers tokens = []) : streamAnswers rest = [] := by
  apply List.filterMap_eq_nil_iff.mpr
  intro token member
  cases token with
  | start name attributes => exact elementAnswer_eq_none silent (part member)
  | character character => rfl
  | stop => rfl

/-- The entries for one element: the last one leads to its answer. -/
structure Answers {Sequence : Type} (events : List (Event Sequence)) (answer : Option Answer) :
    Prop where
  answers : (events.map Event.answer).filterMap id = answer.toList
  ends : ∀ last ∈ (events.map Event.answer).getLast?, last.isSome = true
  acks : ∀ event ∈ events, event.answer.isSome = true → event.ack = true

/-- Entries that lead to no answer are none. -/
theorem Answers.eq_nil {Sequence : Type} {events : List (Event Sequence)}
    (silent : Answers events none) : events = [] := by
  cases last : (events.map Event.answer).getLast? with
  | none => exact List.map_eq_nil_iff.mp (List.getLast?_eq_none_iff.mp last)
  | some final =>
      obtain ⟨answer, isAnswer⟩ := Option.isSome_iff_exists.mp (silent.ends final last)
      have member : answer ∈ (events.map Event.answer).filterMap id :=
        List.mem_filterMap.mpr ⟨final, List.mem_of_getLast? last, isAnswer⟩
      rw [silent.answers] at member
      cases member

namespace Player

theorem answers_single {Sequence : Type} {event : Event Sequence} {answer : Answer}
    (leads : event.answer = some answer) (acks : event.ack = true) :
    Answers [event] (some answer) where
  answers := by simp [leads]
  ends := by simp [leads]
  acks := by simp [acks]

theorem answers_dragSteps {Object Sequence : Type} [DecidableEq Object]
    (application : Application Object) (sourcePath : QString) (sourcePoint : Point)
    (targetPath : QString) (targetPoint globalPoint : Point) :
    Answers (dragSteps application sourcePath sourcePoint targetPath targetPoint globalPoint :
      List (Event Sequence)) (some .ack) where
  answers := rfl
  ends := by
    intro last isLast
    cases isLast
    rfl
  acks := by
    simp [dragSteps, dragMove, Event.answer, Event.new, Event.withoutAck, Event.addTag]

theorem elementAnswer_known :
    ∀ known ∈ acknowledgedNames, elementAnswer (QString.ofString known) = some .ack := by
  decide

/-- An element with one entry. -/
theorem answers_known {Sequence : Type} {name : QString} {known : String}
    (same : name = QString.ofString known) (listed : known ∈ acknowledgedNames)
    {event : Event Sequence} (leads : event.answer = some .ack) (acks : event.ack = true)
    {events : List (Event Sequence)} (found : some [event] = some events) :
    Answers events (elementAnswer name) := by
  rw [same, elementAnswer_known known listed]
  cases found
  exact answers_single leads acks

/-- The choice between the element of one test and those of the rest. -/
theorem answers_ite {Sequence : Type} {events : List (Event Sequence)} {answer : Option Answer}
    {condition : Prop} [Decidable condition] {first rest : Option (List (Event Sequence))}
    (here : condition → first = some events → Answers events answer)
    (there : ¬condition → rest = some events → Answers events answer)
    (found : (if condition then first else rest) = some events) : Answers events answer := by
  split at found
  next holds => exact here holds found
  next fails => exact there fails found

/-- The entries for an element answer it. -/
theorem postElement_answers (keys : KeySequences) {Object : Type} [DecidableEq Object]
    (application : Application Object) (name : QString) (attributes : Attributes)
    (text : QString) {events : List (Event keys.Sequence)}
    (found : postElement keys application name attributes text = some events) :
    Answers events (elementAnswer name) := by
  revert found
  refine answers_ite (fun same => answers_known same (by decide) rfl rfl) fun msec => ?_
  refine answers_ite (fun same found => ?_) fun dump => ?_
  · subst same
    cases found
    exact answers_single rfl rfl
  refine answers_ite (fun same found => ?_) fun pick => ?_
  · subst same
    cases found
    exact answers_single rfl rfl
  refine answers_ite (fun same found => ?_) fun drag => ?_
  · rw [same, elementAnswer_known "dragAndDrop" (by decide)]
    obtain ⟨widget, -, rfl⟩ := Option.map_eq_some_iff.mp found
    exact answers_dragSteps ..
  refine answers_ite (fun same => answers_known same (by decide) rfl rfl) fun close => ?_
  refine answers_ite (fun same => answers_known same (by decide) rfl rfl) fun menu => ?_
  refine answers_ite (fun same => answers_known same (by decide) rfl rfl) fun focus => ?_
  refine answers_ite (fun same => answers_known same (by decide) rfl rfl) fun press => ?_
  refine answers_ite (fun same => answers_known same (by decide) rfl rfl) fun release => ?_
  refine answers_ite (fun same => answers_known same (by decide) rfl rfl) fun move => ?_
  refine answers_ite (fun same => answers_known same (by decide) rfl rfl) fun down => ?_
  refine answers_ite (fun same => answers_known same (by decide) rfl rfl) fun double => ?_
  refine answers_ite (fun same => answers_known same (by decide) rfl rfl) fun up => ?_
  refine answers_ite (fun same => answers_known same (by decide) rfl rfl) fun wheel => ?_
  refine answers_ite (fun same => answers_known same (by decide) rfl rfl) fun shortcut => ?_
  intro found
  have unlisted : name ∉ acknowledgedNames.map QString.ofString := by
    simp only [acknowledgedNames, List.map_cons, List.map_nil, List.mem_cons, List.not_mem_nil,
      or_false, not_or]
    exact ⟨msec, drag, close, menu, focus, press, release, move, down, double, up, wheel,
      shortcut⟩
  rw [elementAnswer, if_neg dump, if_neg pick, if_neg unlisted]
  cases found
  exact ⟨rfl, nofun, nofun⟩

theorem isSome_ite {α : Type} {condition : Prop} [Decidable condition] {first rest : Option α}
    (here : condition → first.isSome = true) (there : ¬condition → rest.isSome = true) :
    (if condition then first else rest).isSome = true := by
  split
  next holds => exact here holds
  next fails => exact there fails

/-- Only a drag needs an object when its element is read. -/
theorem isSome_postElement (keys : KeySequences) {Object : Type} [DecidableEq Object]
    (application : Application Object) (name : QString) (attributes : Attributes)
    (text : QString)
    (found : name = QString.ofString "dragAndDrop" →
      (application.findWidget (attributes.value "target")).isSome = true) :
    (postElement keys application name attributes text).isSome = true := by
  iterate 3 refine isSome_ite (fun _ => rfl) fun _ => ?_
  refine isSome_ite (fun drag => ?_) fun _ => ?_
  · rw [postDragAndDrop, Option.isSome_map]
    exact found drag
  iterate 11 refine isSome_ite (fun _ => rfl) fun _ => ?_
  rfl

end Player

/-! ## Reading -/

namespace XmlReader

/-- Reading a token takes it from the stream, with the answer to a start tag. -/
theorem readNext_answers (reader : XmlReader) (tokens : List Token) :
    streamAnswers tokens =
      (if (reader.readNext tokens).1.tokenType = .startElement then
          (elementAnswer (reader.readNext tokens).1.name).toList
        else []) ++ streamAnswers (reader.readNext tokens).2 := by
  fun_induction readNext reader tokens with
  | case1 => simp [raiseError]
  | case2 => simp
  | case3 => simp
  | case4 => simp [raiseError]
  | case5 name attributes rest => simp [streamAnswers_start]
  | case6 => simp [raiseError]
  | case7 character rest _ _ _ ih => simpa [streamAnswers] using ih
  | case8 => simp [raiseError]
  | case9 => simp [streamAnswers]
  | case10 => simp [raiseError]
  | case11 => simp [streamAnswers]

/-- A start tag that is read comes from the stream. -/
theorem mem_of_readNext_start (reader : XmlReader) (tokens : List Token)
    (starts : (reader.readNext tokens).1.tokenType = .startElement) :
    .start (reader.readNext tokens).1.name (reader.readNext tokens).1.attributes ∈ tokens := by
  fun_induction readNext reader tokens with
  | case1 => simp [raiseError] at starts
  | case2 => simp at starts
  | case3 => simp at starts
  | case4 => simp [raiseError] at starts
  | case5 name attributes rest => simp
  | case6 => simp [raiseError] at starts
  | case7 character rest _ _ _ ih => exact List.mem_cons_of_mem _ (ih starts)
  | case8 => simp [raiseError] at starts
  | case9 => simp at starts
  | case10 => simp [raiseError] at starts
  | case11 => simp at starts

/-- Reading a text takes no element from the stream, unless it finds a child. -/
theorem readElementText_answers (reader : XmlReader) (tokens : List Token)
    (fine : (reader.readElementText tokens).2.1.error = false) :
    streamAnswers tokens = streamAnswers (reader.readElementText tokens).2.2 := by
  induction tokens with
  | nil => rfl
  | cons token rest ih =>
      cases token with
      | start name attributes => simp [readElementText, raiseError] at fine
      | character character =>
          rw [readElementText] at fine ⊢
          simpa [streamAnswers] using ih fine
      | stop => simp [readElementText, streamAnswers]

end XmlReader

end Hooq
