import Hooq.Library.Spacing
import Hooq.Script.Pipeline

/-!
# Recordings and their frame

The items that a recorder's file compiles to: sleeps and events in turn.  The
frame of a list of items is what no post-processor is there to change: everything
but sleeps, mouse movements, typed keys and declarations.
-/

namespace Hooq

open Library.Spacing

/-! ## Kinds of items -/

/-- The methods that the post-processors rewrite. -/
def passingMethods : List QString :=
  ["msleep", "moveMouse", "pressKey", "releaseKey", "sendText"]

def frameMethods : List QString :=
  ["close", "setFocus", "pressMouseButton", "releaseMouseButton", "doubleClickMouseButton",
    "mouseWheel", "shortcut", "contextMenu", "drop"]

/-- The methods that recorded events compile to. -/
def eventMethods : List QString :=
  frameMethods ++ (["moveMouse", "pressKey", "releaseKey"] : List QString)

namespace Item

def isSleep (item : Item) : Bool :=
  item.method = QString.ofString "msleep"

def isKey (item : Item) : Bool :=
  SimplifyStrings.isPress item || SimplifyStrings.isRelease item

/-- A declaration that a post-processor inserted. -/
def isDeclaration (item : Item) : Bool :=
  (QString.ofString "var ").isPrefixOf item.method

/-- The item belongs to the frame. -/
def isFrame (item : Item) : Bool :=
  item.method ∉ passingMethods && !item.isDeclaration

/-- The item calls a method that a script can have before variables are declared. -/
def IsScripted (item : Item) : Prop :=
  item.method ∈ frameMethods ++ passingMethods

theorem IsScripted.isValid {item : Item} (scripted : item.IsScripted) : item.isValid = true := by
  have named : ∀ method ∈ frameMethods ++ passingMethods, method ≠ [] := by decide
  exact decide_eq_true (named item.method scripted)

theorem IsScripted.isDeclaration {item : Item} (scripted : item.IsScripted) :
    item.isDeclaration = false := by
  have plain : ∀ method ∈ frameMethods ++ passingMethods,
      (QString.ofString "var ").isPrefixOf method = false := by decide
  exact plain item.method scripted

theorem isFrame_of_passing {item : Item} (passing : item.method ∈ passingMethods) :
    item.isFrame = false := by
  simp [isFrame, passing]

theorem isFrame_of_isDeclaration {item : Item} (declares : item.isDeclaration = true) :
    item.isFrame = false := by
  simp [isFrame, declares]

theorem isFrame_of_isSleep {item : Item} (isSleep : item.isSleep = true) :
    item.isFrame = false := by
  apply isFrame_of_passing
  rw [of_decide_eq_true isSleep]
  decide

theorem isFrame_of_isKey {item : Item} (isKey : item.isKey = true) : item.isFrame = false := by
  apply isFrame_of_passing
  rcases Bool.or_eq_true_iff.mp isKey with isPress | isRelease
  · rw [of_decide_eq_true isPress]
    decide
  · rw [of_decide_eq_true isRelease]
    decide

theorem isSleep_of_isKey {item : Item} (isKey : item.isKey = true) : item.isSleep = false := by
  rcases Bool.or_eq_true_iff.mp isKey with isPress | isRelease
  · rw [isSleep, of_decide_eq_true isPress]
    decide
  · rw [isSleep, of_decide_eq_true isRelease]
    decide

end Item

/-- The frame of a list of items. -/
def frame (items : List Item) : List Item :=
  items.filter Item.isFrame

@[simp] theorem frame_nil : frame [] = [] := rfl

@[simp] theorem frame_append (front back : List Item) :
    frame (front ++ back) = frame front ++ frame back :=
  List.filter_append ..

theorem frame_cons_of_not {item : Item} (notFrame : item.isFrame = false) (items : List Item) :
    frame (item :: items) = frame items := by
  rw [frame, List.filter_cons_of_neg (by simp [notFrame]), frame]

/-! ## Recordings -/

/-- An event of a recording: it is raised on an object. -/
structure IsEvent (item : Item) : Prop where
  method : item.method ∈ eventMethods
  target : ∃ path, item.target = .path path

/-- Pairs of a sleep and an event, as the recorder writes them. -/
inductive IsRecording : List Item → Prop where
  | nil : IsRecording []
  | pair (duration : Int32) {event : Item} {rest : List Item} (isEvent : IsEvent event)
      (isRecording : IsRecording rest) :
      IsRecording (.ofMethod "msleep" (.int duration) :: event :: rest)

/-- Sleeps are the quiet items. -/
abbrev IsSpaced (items : List Item) : Prop :=
  Spaced (fun item => item.isSleep = true) items

/-- No key event stands directly before an item of the frame. -/
abbrev IsGuarded (items : List Item) : Prop :=
  Guarded (fun item => item.isKey = true) (fun item => item.isFrame = true) items

theorem IsSpaced.isGuarded {items : List Item} (spaced : IsSpaced items) : IsGuarded items := by
  apply Spaced.guarded spaced
  · intro item isKey
    rw [Item.isSleep_of_isKey isKey]
    exact Bool.false_ne_true
  · intro item isFrame isSleep
    rw [Item.isFrame_of_isSleep isSleep] at isFrame
    cases isFrame

namespace IsRecording

variable {items : List Item}

theorem isScripted (isRecording : IsRecording items) : ∀ item ∈ items, item.IsScripted := by
  have events : ∀ method ∈ eventMethods, method ∈ frameMethods ++ passingMethods := by decide
  induction isRecording with
  | nil =>
      intro item member
      cases member
  | pair duration isEvent isRecording ih =>
      intro item member
      rcases List.mem_cons.mp member with isFirst | member
      · rw [isFirst, Item.IsScripted]
        change QString.ofString "msleep" ∈ frameMethods ++ passingMethods
        decide
      · rcases List.mem_cons.mp member with isSecond | member
        · rw [isSecond]
          exact events _ isEvent.method
        · exact ih item member

theorem isSpaced (isRecording : IsRecording items) : IsSpaced items := by
  induction isRecording with
  | nil => exact List.IsChain.nil
  | pair duration isEvent isRecording ih =>
      apply List.IsChain.cons_cons
      · left
        rfl
      · cases isRecording with
        | nil => exact List.isChain_singleton _
        | pair duration isEvent isRecording =>
            apply List.IsChain.cons_cons
            · right
              rfl
            · exact ih

/-- Nothing in a recording refers to a variable. -/
theorem not_variable (isRecording : IsRecording items) :
    ∀ item ∈ items, ∀ name, item.target ≠ .variable name := by
  induction isRecording with
  | nil =>
      intro item member
      cases member
  | pair duration isEvent isRecording ih =>
      intro item member name isVariable
      rcases List.mem_cons.mp member with isFirst | member
      · rw [isFirst] at isVariable
        cases isVariable
      · rcases List.mem_cons.mp member with isSecond | member
        · rcases isEvent.target with ⟨path, isPath⟩
          rw [isSecond, isPath] at isVariable
          cases isVariable
        · exact ih item member name isVariable

end IsRecording

/-! ## Invariants of a pass -/

/-- What the driver appends after a call. -/
def Outcome.emitted (outcome : Outcome) : List Item :=
  if outcome.iterator.isValid then [outcome.iterator] else []

theorem Outcome.rootList_perform (outcome : Outcome) (inserter : Inserter Item) :
    (outcome.perform inserter).rootList =
      (inserter.insertAll outcome.insertions).rootList ++ outcome.emitted := by
  rw [perform, emitted]
  cases outcome.iterator.isValid <;> simp [Inserter.append, Inserter.next]

/-- What survives the insertion of each item survives all insertions of a call. -/
theorem Inserter.insertAll_keeps {α : Type} (property : List α → Prop)
    {insertions : List (α × Position)} {inserter : Inserter α}
    (keeps : ∀ insertion ∈ insertions, ∀ list index, property list →
      property (insertAt list index insertion.1))
    (start : property inserter.rootList) :
    property (inserter.insertAll insertions).rootList := by
  induction insertions generalizing inserter with
  | nil => exact start
  | cons insertion rest ih =>
      apply ih
      · intro other member
        exact keeps other (List.mem_cons_of_mem _ member)
      · rcases insertion with ⟨value, position⟩
        cases position with
        | beginning => exact keeps (value, .beginning) List.mem_cons_self _ _ start
        | beforeCurrentItem =>
            exact keeps (value, .beforeCurrentItem) List.mem_cons_self _ _ start

/-- What every call of a run keeps holds at its end. -/
theorem PostProcessor.run_invariant (processor : PostProcessor)
    (Invariant : processor.State → Inserter Item → List Item → Prop)
    (step : ∀ state inserter item input next outcome,
      processor.process state item input = .ok (next, outcome) →
      Invariant state inserter (item :: input) →
      Invariant next (outcome.perform inserter) outcome.rest)
    {state : processor.State} {input : List Item} {inserter final : Inserter Item}
    (start : Invariant state inserter input)
    (completes : processor.run state input inserter = .ok final) :
    ∃ last, Invariant last final [] := by
  refine processor.runInduction
    (motive := fun state input inserter => Invariant state inserter input →
      ∃ last, Invariant last final []) ?_ ?_ completes start
  · intro state start
    exact ⟨state, start⟩
  · intro state item following next outcome inserter processed _ ih start
    exact ih (step state inserter item following next outcome processed start)

/-- A run completes if its invariant rules out that a call fails. -/
theorem PostProcessor.exists_run (processor : PostProcessor) (state : processor.State)
    (input : List Item) (inserter : Inserter Item)
    (Invariant : processor.State → Inserter Item → List Item → Prop)
    (step : ∀ state inserter item input, Invariant state inserter (item :: input) →
      ∃ next outcome, processor.process state item input = .ok (next, outcome) ∧
        Invariant next (outcome.perform inserter) outcome.rest)
    (start : Invariant state inserter input) :
    ∃ last final, processor.run state input inserter = .ok final ∧ Invariant last final [] := by
  induction size : input.length using Nat.strong_induction_on
    generalizing state input inserter with
  | _ size ih =>
      subst size
      cases input with
      | nil => exact ⟨state, inserter, processor.run_nil state inserter, start⟩
      | cons item following =>
          rcases step state inserter item following start with
            ⟨next, outcome, processed, kept⟩
          have shorter := (processor.process_suffix processed).length_le
          rw [processor.run_cons_ok inserter processed]
          exact ih _ (Nat.lt_succ_of_le shorter) next outcome.rest _ kept rfl

end Hooq
