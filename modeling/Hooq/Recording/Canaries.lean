import Hooq.Recording.DragBuffer

/-!
# Canaries one by one

The constructor of a canary sets the flag by which the recorder ignores events, and the
destructor clears it.  Both assert what the flag was, and so does the filter when a
canary reaches it.  Here a canary is taken from the queue and destroyed in two steps,
with whatever the event loops deliver in between.
-/

namespace Hooq

open Library.Run

namespace CanaryEvent

/-- The flag behind the constructor; nothing where the assertion fails. -/
def construct (ignoreFlag : Bool) : Option Bool :=
  if ignoreFlag = false then some true else none

/-- The flag behind the destructor. -/
def destruct (ignoreFlag : Bool) : Option Bool :=
  if ignoreFlag = true then some false else none

end CanaryEvent

namespace Logger

section

variable {Object : Type}

/-- The end of `eventFilter`, with the assertion of the canary's constructor. -/
def postCanary (type : EventType) (logger : Logger Object) : Option (Logger Object) := do
  let ignoreEvents ← CanaryEvent.construct logger.ignoreEvents
  return { logger with
    lastEvent := type, canaries := logger.canaries + 1, ignoreEvents := ignoreEvents }

theorem postCanary_of_heard {logger : Logger Object} (heard : logger.ignoreEvents = false)
    (type : EventType) : logger.postCanary type = some (logger.noteEvent type) := by
  rw [postCanary, heard]
  rfl

theorem leave_flag (logger : Logger Object) (type : EventType) :
    (logger.leaveDragAndDropBuffer type).ignoreEvents = logger.ignoreEvents ∧
      (logger.leaveDragAndDropBuffer type).canaries = logger.canaries := by
  have left := logger.leave_members type
  simp only [members, Prod.mk.injEq] at left
  exact ⟨left.1, left.2.1⟩

/-- `eventFilter` with a canary: it must not arrive unannounced, and is then ignored. -/
def filterCanary (logger : Logger Object) : Option (Logger Object) :=
  if logger.ignoreEvents = true then some logger else none

end

section

variable {Object : Type} [DecidableEq Object] (isPrint : QChar → Bool) (keys : KeySequences)
  (scene : Scene Object) (elapsed : Nat) (receiver : Object)

/-- `eventFilter` with an event of the application, and the assertion on its way. -/
def checkedFilter (event : AppEvent keys.Sequence) (logger : Logger Object) :
    Option (Logger Object) :=
  if logger.ignoreEvents ∧ event.type ≠ .drop then
    some logger
  else
    let logger := logger.leaveDragAndDropBuffer event.type
    match event with
    | .known (.drop position) => some (logger.logDragAndDrop scene elapsed receiver position)
    | .known (.mouse .press position globalPosition button buttons modifiers) =>
        ({ logger.startDragAndDropBuffer with
            dragOriginWidget := some receiver, dragOriginPoint := position }
          |>.logEvent isPrint keys scene elapsed receiver
            (.mouse .press position globalPosition button buttons modifiers))
          |>.postCanary .mouseButtonPress
    | .known qtEvent =>
        (logger.logEvent isPrint keys scene elapsed receiver qtEvent).postCanary
          (AppEvent.known qtEvent).type
    | .other type => logger.postCanary (.other type)

variable {logger : Logger Object}

/-- The flag and the number of canaries after an event: a canary is posted only while
none is about. -/
inductive Posts (before after : Logger Object) : Prop where
  | nothing (flag : after.ignoreEvents = before.ignoreEvents)
      (canaries : after.canaries = before.canaries)
  | one (heard : before.ignoreEvents = false) (flag : after.ignoreEvents = true)
      (canaries : after.canaries = before.canaries + 1)

/-- Nothing on the way through the filter touches the flag or the queue. -/
theorem leave_logEvent_flag (type : EventType) (qtEvent : QtEvent keys.Sequence) :
    ((logger.leaveDragAndDropBuffer type).logEvent isPrint keys scene elapsed receiver
        qtEvent).ignoreEvents = logger.ignoreEvents ∧
      ((logger.leaveDragAndDropBuffer type).logEvent isPrint keys scene elapsed receiver
        qtEvent).canaries = logger.canaries := by
  have written := (logger.leaveDragAndDropBuffer type).logEvent_members isPrint keys scene
    elapsed receiver qtEvent
  rw [leave_members] at written
  simp only [members, Prod.mk.injEq] at written
  exact ⟨written.1, written.2.1⟩

theorem checkedFilter_ordinary (qtEvent : QtEvent keys.Sequence)
    (ordinary : IsOrdinary qtEvent) (heard : logger.ignoreEvents = false) :
    logger.checkedFilter isPrint keys scene elapsed receiver (.known qtEvent) =
      ((logger.leaveDragAndDropBuffer (AppEvent.known qtEvent).type).logEvent isPrint keys scene
        elapsed receiver qtEvent).postCanary (AppEvent.known qtEvent).type := by
  rw [checkedFilter, if_neg (by simp [heard])]
  split
  next position same => cases same; exact absurd rfl ordinary.1
  next same => cases same; exact absurd rfl ordinary.2
  next same => cases same; rfl
  next same => cases same

/-- No event of the application makes an assertion fail, whatever the state. -/
theorem checkedFilter_eq (logger : Logger Object) (event : AppEvent keys.Sequence) :
    logger.checkedFilter isPrint keys scene elapsed receiver event =
      some (logger.eventFilter isPrint keys scene elapsed receiver event) := by
  by_cases passed : logger.ignoreEvents ∧ event.type ≠ .drop
  · rw [checkedFilter, if_pos passed, eventFilter, if_pos passed]
  · induction event using event_cases with
    | drop position =>
        rw [checkedFilter, if_neg passed, eventFilter, if_neg passed]
    | press position globalPosition button buttons modifiers =>
        have heard : logger.ignoreEvents = false := by simpa [AppEvent.type] using passed
        rw [checkedFilter, if_neg passed, eventFilter, if_neg passed]
        apply postCanary_of_heard
        have kept := logEvent_members isPrint keys scene elapsed receiver
          { (logger.leaveDragAndDropBuffer .mouseButtonPress).startDragAndDropBuffer with
            dragOriginWidget := some receiver, dragOriginPoint := position }
          (.mouse .press position globalPosition button buttons modifiers)
        simp only [members, Prod.mk.injEq] at kept
        exact kept.1.trans ((leave_flag logger .mouseButtonPress).1.trans heard)
    | ordinary qtEvent ordinary =>
        have heard : logger.ignoreEvents = false := by simpa [ordinary.1] using passed
        rw [checkedFilter_ordinary isPrint keys scene elapsed receiver qtEvent ordinary heard,
          eventFilter_ordinary isPrint keys scene elapsed receiver logger qtEvent ordinary heard]
        apply postCanary_of_heard
        exact (leave_logEvent_flag isPrint keys scene elapsed receiver _ qtEvent).1.trans heard
    | other type =>
        have heard : logger.ignoreEvents = false := by simpa [AppEvent.type] using passed
        rw [checkedFilter, if_neg passed, eventFilter_other isPrint keys scene elapsed receiver
          logger type heard]
        apply postCanary_of_heard
        exact (leave_flag logger _).1.trans heard

/-- An event that is ignored posts no canary and a drop posts none either. -/
theorem eventFilter_posts (logger : Logger Object) (event : AppEvent keys.Sequence) :
    logger.Posts (logger.eventFilter isPrint keys scene elapsed receiver event) := by
  by_cases passed : logger.ignoreEvents ∧ event.type ≠ .drop
  · rw [eventFilter_ignored isPrint keys scene elapsed receiver logger event passed.1 passed.2]
    exact .nothing rfl rfl
  · induction event using event_cases with
    | drop position =>
        rw [eventFilter_drop]
        have kept := logger.leave_endDrag
          (entryOf elapsed (outputDragAndDropEvent (scene.pathOf logger.dragOriginWidget)
            logger.dragOriginPoint (scene.tree.objectPath receiver) position))
        exact .nothing kept.1 kept.2.1
    | press position globalPosition button buttons modifiers =>
        have heard : logger.ignoreEvents = false := by simpa [AppEvent.type] using passed
        obtain ⟨entry, -, filtered⟩ := logger.eventFilter_press isPrint keys scene elapsed
          receiver position globalPosition button buttons modifiers heard
        rw [filtered, beginDrag_eq]
        exact .one heard rfl (congrArg (· + 1) (leave_flag logger .mouseButtonPress).2)
    | ordinary qtEvent ordinary =>
        have heard : logger.ignoreEvents = false := by simpa [ordinary.1] using passed
        rw [eventFilter_ordinary isPrint keys scene elapsed receiver logger qtEvent ordinary heard]
        exact .one heard rfl
          (congrArg (· + 1)
            (leave_logEvent_flag isPrint keys scene elapsed receiver _ qtEvent).2)
    | other type =>
        have heard : logger.ignoreEvents = false := by simpa [AppEvent.type] using passed
        rw [eventFilter_other isPrint keys scene elapsed receiver logger type heard]
        exact .one heard rfl (congrArg (· + 1) (leave_flag logger _).2)

end

end Logger

/-- A recorder and the canaries that have left the event queue for it, but are not yet
destroyed. -/
structure CanaryWatch (Object : Type) where
  logger : Logger Object
  leaving : Nat
  deriving DecidableEq

namespace CanaryWatch

/-- What the event loops do next. -/
inductive Moment (Object : Type) [DecidableEq Object] (Sequence : Type) where
  | event (scene : Scene Object) (elapsed : Nat) (receiver : Object)
      (event : AppEvent Sequence)
  | deliver
  | destroy

section

variable {Object : Type}

def start (lastEvent : EventType) (origin : Option Object) (originPoint : Point) :
    CanaryWatch Object :=
  ⟨.new lastEvent origin originPoint, 0⟩

/-- A canary leaves the queue and passes the filter. -/
def deliver (watch : CanaryWatch Object) : Option (CanaryWatch Object) :=
  if watch.logger.canaries = 0 then
    some watch
  else do
    let logger ← watch.logger.filterCanary
    return ⟨{ logger with canaries := logger.canaries - 1 }, watch.leaving + 1⟩

/-- A canary that has left the queue is destroyed. -/
def destroy (watch : CanaryWatch Object) : Option (CanaryWatch Object) :=
  if watch.leaving = 0 then
    some watch
  else do
    let ignoreEvents ← CanaryEvent.destruct watch.logger.ignoreEvents
    return ⟨{ watch.logger with ignoreEvents := ignoreEvents }, watch.leaving - 1⟩

/-- The canaries that exist. -/
def canaries (watch : CanaryWatch Object) : Nat :=
  watch.logger.canaries + watch.leaving

/-- The flag tells whether there is a canary, and there is never a second one. -/
structure Guarded (watch : CanaryWatch Object) : Prop where
  flag : watch.logger.ignoreEvents = true ↔ watch.canaries = 1
  single : watch.canaries ≤ 1

theorem guarded_start (lastEvent : EventType) (origin : Option Object) (originPoint : Point) :
    (start lastEvent origin originPoint).Guarded :=
  ⟨⟨nofun, nofun⟩, Nat.zero_le 1⟩

variable {watch : CanaryWatch Object}

theorem Guarded.deliver (guarded : watch.Guarded) :
    ∃ next, watch.deliver = some next ∧ next.Guarded := by
  by_cases empty : watch.logger.canaries = 0
  · exact ⟨watch, if_pos empty, guarded⟩
  · rcases guarded with ⟨flag, single⟩
    simp only [canaries] at flag single
    have raised : watch.logger.ignoreEvents = true := flag.mpr (by omega)
    refine ⟨⟨{ watch.logger with canaries := watch.logger.canaries - 1 }, watch.leaving + 1⟩,
      ?_, ?_⟩
    · rw [CanaryWatch.deliver, if_neg empty, Logger.filterCanary, if_pos raised]
      rfl
    · constructor <;> simp only [canaries, raised, true_iff] <;> omega

theorem Guarded.destroy (guarded : watch.Guarded) :
    ∃ next, watch.destroy = some next ∧ next.Guarded := by
  by_cases absent : watch.leaving = 0
  · exact ⟨watch, if_pos absent, guarded⟩
  · rcases guarded with ⟨flag, single⟩
    simp only [canaries] at flag single
    have raised : watch.logger.ignoreEvents = true := flag.mpr (by omega)
    refine ⟨⟨{ watch.logger with ignoreEvents := false }, watch.leaving - 1⟩, ?_, ?_⟩
    · rw [CanaryWatch.destroy, if_neg absent, CanaryEvent.destruct, if_pos raised]
      rfl
    · constructor <;> simp only [canaries, Bool.false_eq_true, false_iff] <;> omega

end

section

variable {Object : Type} [DecidableEq Object] (isPrint : QChar → Bool) (keys : KeySequences)

/-- The next moment; nothing where an assertion fails. -/
def step (watch : CanaryWatch Object) : Moment Object keys.Sequence → Option (CanaryWatch Object)
  | .event scene elapsed receiver event => do
      let logger ← watch.logger.checkedFilter isPrint keys scene elapsed receiver event
      return { watch with logger := logger }
  | .deliver => watch.deliver
  | .destroy => watch.destroy

variable {watch : CanaryWatch Object}

theorem Guarded.event (guarded : watch.Guarded) (scene : Scene Object) (elapsed : Nat)
    (receiver : Object) (event : AppEvent keys.Sequence) :
    ∃ next, watch.step isPrint keys (.event scene elapsed receiver event) = some next ∧
      next.Guarded := by
  refine ⟨{ watch with
    logger := watch.logger.eventFilter isPrint keys scene elapsed receiver event }, ?_, ?_⟩
  · rw [step, Logger.checkedFilter_eq]
    rfl
  · rcases guarded with ⟨flag, single⟩
    simp only [canaries] at flag single
    cases watch.logger.eventFilter_posts isPrint keys scene elapsed receiver event with
    | nothing sameFlag same =>
        constructor
        · simpa only [canaries, sameFlag, same] using flag
        · simpa only [canaries, same] using single
    | one heard raised more =>
        -- The flag is down, so there was no canary before this one.
        have none : watch.logger.canaries + watch.leaving ≠ 1 := by
          rw [Ne, ← flag, heard]
          exact Bool.false_ne_true
        constructor <;> simp only [canaries, raised, more, true_iff] <;> omega

theorem Guarded.step (guarded : watch.Guarded) (moment : Moment Object keys.Sequence) :
    ∃ next, watch.step isPrint keys moment = some next ∧ next.Guarded := by
  cases moment with
  | event scene elapsed receiver event =>
      exact guarded.event isPrint keys scene elapsed receiver event
  | deliver => exact guarded.deliver
  | destroy => exact guarded.destroy

/-- In every order of events and canaries the flag tells whether there is a canary,
there is never a second one, and no assertion fails. -/
theorem guarded_always (lastEvent : EventType) (origin : Option Object) (originPoint : Point)
    (moments : List (Moment Object keys.Sequence)) :
    ∃ watch, moments.foldlM (step isPrint keys) (start lastEvent origin originPoint) =
        some watch ∧ watch.Guarded :=
  invariant_foldlM (fun _ moment guarded => guarded.step isPrint keys moment)
    (guarded_start lastEvent origin originPoint) moments

/-! ## Canaries that are destroyed at once -/

/-- The moments of an input of the recorder, whose canaries go without a delay. -/
def momentsOf : Logger.Input Object keys.Sequence → List (Moment Object keys.Sequence)
  | .event scene elapsed receiver event => [.event scene elapsed receiver event]
  | .canary => [.deliver, .destroy]

/-- A canary that is destroyed as soon as it has passed the filter. -/
theorem foldlM_canary {logger : Logger Object} (guarded : Guarded ⟨logger, 0⟩) :
    (momentsOf keys .canary).foldlM (step isPrint keys) ⟨logger, 0⟩ =
      some ⟨logger.deliverCanary, 0⟩ := by
  by_cases empty : logger.canaries = 0
  · simp [momentsOf, step, CanaryWatch.deliver, CanaryWatch.destroy, Logger.deliverCanary, empty]
  · have raised : logger.ignoreEvents = true := by
      have single := guarded.single
      refine guarded.flag.mpr ?_
      simp only [canaries] at single ⊢
      omega
    simp [momentsOf, step, CanaryWatch.deliver, CanaryWatch.destroy, Logger.deliverCanary, empty,
      Logger.filterCanary, CanaryEvent.destruct, raised]

theorem foldlM_momentsOf {logger : Logger Object} (guarded : Guarded ⟨logger, 0⟩)
    (input : Logger.Input Object keys.Sequence) :
    (momentsOf keys input).foldlM (step isPrint keys) ⟨logger, 0⟩ =
      some ⟨logger.step isPrint keys input, 0⟩ := by
  cases input with
  | event scene elapsed receiver event =>
      simp [momentsOf, step, Logger.checkedFilter_eq, Logger.step]
  | canary => exact foldlM_canary isPrint keys guarded

/-- The recorder's own runs are among these. -/
theorem foldlM_flatMap_momentsOf {logger : Logger Object} (guarded : Guarded ⟨logger, 0⟩)
    (inputs : List (Logger.Input Object keys.Sequence)) :
    (inputs.flatMap (momentsOf keys)).foldlM (step isPrint keys) ⟨logger, 0⟩ =
      some ⟨inputs.foldl (Logger.step isPrint keys) logger, 0⟩ := by
  induction inputs generalizing logger with
  | nil => rfl
  | cons input rest ih =>
      have stepped := foldlM_momentsOf isPrint keys guarded input
      obtain ⟨watch, run, next⟩ := invariant_foldlM
        (fun _ moment guarded => guarded.step isPrint keys moment) guarded (momentsOf keys input)
      obtain rfl : watch = ⟨logger.step isPrint keys input, 0⟩ := by
        simpa [stepped] using run.symm
      rw [List.flatMap_cons, List.foldlM_append, stepped]
      exact ih next

end

end CanaryWatch

end Hooq
