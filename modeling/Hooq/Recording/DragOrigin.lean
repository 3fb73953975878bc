import Hooq.Recording.DragBuffer

/-!
# Where a drag started

A drop is recorded with the widget and the point of the latest button press.  The two
members are set by a press that is logged and cleared by a drop, and the constructor
does not set them at all, so a drop without such a press is recorded with whatever
they hold.
-/

namespace Hooq

open Library.Run

/-- What the events tell about drags: whether a canary is pending, and the latest button
press that was logged since the latest drop. -/
structure Presses (Object : Type) where
  canaryPending : Bool
  sinceDrop : Option (Object × Point)
  deriving DecidableEq

namespace Presses

section

variable {Object : Type}

def new : Presses Object :=
  ⟨false, none⟩

/-- A press is logged unless a canary is pending. -/
def press (receiver : Object) (position : Point) (presses : Presses Object) : Presses Object :=
  if presses.canaryPending then presses else ⟨true, some (receiver, position)⟩

end

variable {Object : Type} [DecidableEq Object] {Sequence : Type}

def step (presses : Presses Object) : Logger.Input Object Sequence → Presses Object
  | .canary => { presses with canaryPending := false }
  | .event _ _ _ (.known (.drop _)) => { presses with sinceDrop := none }
  | .event _ _ receiver (.known (.mouse .press position _ _ _ _)) =>
      presses.press receiver position
  | .event _ _ _ _ => { presses with canaryPending := true }

/-- A drop finds a press that was logged since the drop before it. -/
def BehindPress (presses : Presses Object) : Logger.Input Object Sequence → Prop
  | .event _ _ _ (.known (.drop _)) => presses.sinceDrop.isSome
  | _ => True

instance (presses : Presses Object) (input : Logger.Input Object Sequence) :
    Decidable (presses.BehindPress input) := by
  unfold BehindPress
  split <;> infer_instance

theorem step_ordinary (presses : Presses Object) (scene : Scene Object) (elapsed : Nat)
    (receiver : Object) (qtEvent : QtEvent Sequence) (ordinary : Logger.IsOrdinary qtEvent) :
    presses.step (.event scene elapsed receiver (.known qtEvent)) =
      { presses with canaryPending := true } := by
  rw [step.eq_def]
  split
  next same => cases same
  next same => cases same; exact absurd rfl ordinary.1
  next same => cases same; exact absurd rfl ordinary.2
  next same => cases same; rfl

end Presses

namespace Logger

section

variable {Object : Type}

/-- The members hold the receiver and the position of a press. -/
def HoldsOrigin (logger : Logger Object) (press : Object × Point) : Prop :=
  logger.dragOriginWidget = some press.1 ∧ logger.dragOriginPoint = press.2

/-- The members hold the latest press since the latest drop, if there is one. -/
structure Traces (logger : Logger Object) (presses : Presses Object) : Prop where
  ignoreEvents : logger.ignoreEvents = presses.canaryPending
  canaries : logger.canaries = 0 → presses.canaryPending = false
  origin : ∀ press, presses.sinceDrop = some press → logger.HoldsOrigin press

theorem traces_new (lastEvent : EventType) (origin : Option Object) (originPoint : Point) :
    (new lastEvent origin originPoint).Traces .new :=
  ⟨rfl, fun _ => rfl, nofun⟩

theorem Traces.deliverCanary {logger : Logger Object} {presses : Presses Object}
    (traces : logger.Traces presses) :
    logger.deliverCanary.Traces { presses with canaryPending := false } := by
  rw [Logger.deliverCanary]
  split
  next none => exact ⟨traces.ignoreEvents.trans (traces.canaries none), fun _ => rfl, traces.origin⟩
  next => exact ⟨rfl, fun _ => rfl, traces.origin⟩

/-- What is neither a press nor a drop leaves the members alone. -/
theorem Traces.noteEvent {logger : Logger Object} {presses : Presses Object}
    (traces : logger.Traces presses) {passed : Logger Object}
    (kept : passed.members = logger.members) (type : EventType) :
    (passed.noteEvent type).Traces { presses with canaryPending := true } := by
  simp only [members, Prod.mk.injEq] at kept
  refine ⟨rfl, (fun none => by cases none), ?_⟩
  intro press found
  have held := traces.origin press found
  exact ⟨kept.2.2.2.1.trans held.1, kept.2.2.2.2.trans held.2⟩

theorem Traces.ignored {logger : Logger Object} {presses : Presses Object}
    (traces : logger.Traces presses) (ignored : logger.ignoreEvents = true) :
    logger.Traces { presses with canaryPending := true } := by
  have pending : presses.canaryPending = true := traces.ignoreEvents.symm.trans ignored
  simpa [← pending] using traces

end

section

variable {Object : Type} [DecidableEq Object] (isPrint : QChar → Bool) (keys : KeySequences)
  {logger : Logger Object} {presses : Presses Object}

/-- A drop finds the members with the press that it belongs to. -/
def HasSource {Sequence : Type} (logger : Logger Object) (presses : Presses Object) :
    Input Object Sequence → Prop
  | .event _ _ _ (.known (.drop _)) =>
      ∃ press, presses.sinceDrop = some press ∧ logger.HoldsOrigin press
  | _ => True

theorem Traces.drop (traces : logger.Traces presses) (scene : Scene Object) (elapsed : Nat)
    (receiver : Object) (position : Point) :
    (logger.eventFilter isPrint keys scene elapsed receiver (.known (.drop position))).Traces
      { presses with sinceDrop := none } := by
  rw [eventFilter_drop]
  have kept := logger.leave_endDrag
    (entryOf elapsed (outputDragAndDropEvent (scene.pathOf logger.dragOriginWidget)
      logger.dragOriginPoint (scene.tree.objectPath receiver) position))
  refine ⟨kept.1.trans traces.ignoreEvents, ?_, nofun⟩
  intro none
  exact traces.canaries (kept.2.1.symm.trans none)

theorem Traces.press (traces : logger.Traces presses) (scene : Scene Object) (elapsed : Nat)
    (receiver : Object) (position : Point) (globalPosition : Option Point)
    (button buttons modifiers : Int32) :
    (logger.eventFilter isPrint keys scene elapsed receiver
        (.known (.mouse .press position globalPosition button buttons modifiers))).Traces
      (presses.press receiver position) := by
  cases heard : logger.ignoreEvents with
  | true =>
      rw [eventFilter_ignored _ _ _ _ _ _ _ heard (by simp [AppEvent.type]), Presses.press,
        if_pos (traces.ignoreEvents.symm.trans heard)]
      exact traces
  | false =>
      obtain ⟨entry, -, filtered⟩ := logger.eventFilter_press isPrint keys scene elapsed
        receiver position globalPosition button buttons modifiers heard
      have quiet : presses.canaryPending = false := traces.ignoreEvents.symm.trans heard
      rw [filtered, beginDrag_eq, Presses.press, if_neg (by simp [quiet])]
      refine ⟨rfl, (fun none => by cases none), ?_⟩
      rintro press ⟨⟩
      exact ⟨rfl, rfl⟩

theorem Traces.step (traces : logger.Traces presses) (input : Input Object keys.Sequence) :
    (logger.step isPrint keys input).Traces (presses.step input) := by
  cases input with
  | canary => exact traces.deliverCanary
  | event scene elapsed receiver event =>
      rw [Logger.step]
      induction event using event_cases with
      | drop position => exact traces.drop isPrint keys scene elapsed receiver position
      | press position globalPosition button buttons modifiers =>
          exact traces.press isPrint keys scene elapsed receiver position globalPosition button
            buttons modifiers
      | ordinary qtEvent ordinary =>
          rw [Presses.step_ordinary presses scene elapsed receiver qtEvent ordinary]
          cases heard : logger.ignoreEvents with
          | true =>
              rw [eventFilter_ignored _ _ _ _ _ _ _ heard ordinary.1]
              exact traces.ignored heard
          | false =>
              rw [eventFilter_ordinary _ _ _ _ _ _ _ ordinary heard]
              exact traces.noteEvent ((logEvent_members isPrint keys scene elapsed receiver _
                qtEvent).trans (logger.leave_members _)) _
      | other type =>
          rw [Presses.step]
          · cases heard : logger.ignoreEvents with
            | true =>
                rw [eventFilter_ignored _ _ _ _ _ _ _ heard (by simp [AppEvent.type])]
                exact traces.ignored heard
            | false =>
                rw [eventFilter_other _ _ _ _ _ _ _ heard]
                exact traces.noteEvent (logger.leave_members _) _
          all_goals
            intros
            contradiction

/-- A drop finds its source in the members exactly when a press was logged since the
drop before it. -/
theorem Traces.hasSource_iff {Sequence : Type} (traces : logger.Traces presses)
    (input : Input Object Sequence) :
    logger.HasSource presses input ↔ presses.BehindPress input := by
  rw [HasSource.eq_def, Presses.BehindPress.eq_def]
  split
  · constructor
    · rintro ⟨press, found, -⟩
      simp [found]
    · intro found
      obtain ⟨press, found⟩ := Option.isSome_iff_exists.mp found
      exact ⟨press, found, traces.origin press found⟩
  · rfl

/-! ## Runs -/

theorem Traces.foldl (traces : logger.Traces presses)
    (inputs : List (Input Object keys.Sequence)) :
    (inputs.foldl (Logger.step isPrint keys) logger).Traces
      (inputs.foldl Presses.step presses) := by
  induction inputs generalizing logger presses with
  | nil => exact traces
  | cons input rest ih => exact ih (traces.step isPrint keys input)

/-- Every drop of a run is recorded with the latest logged press since the drop before
it exactly when each has such a press. -/
theorem hasSource_iff_behindPress (lastEvent : EventType) (origin : Option Object)
    (originPoint : Point) (inputs : List (Input Object keys.Sequence)) :
    (∀ before input after, inputs = before ++ input :: after →
        HasSource (before.foldl (Logger.step isPrint keys) (new lastEvent origin originPoint))
          (before.foldl Presses.step .new) input) ↔
      StepsMeet Presses.step Presses.BehindPress .new inputs := by
  have traces := (traces_new lastEvent origin originPoint).foldl isPrint keys
  constructor
  · intro sourced before input after shape
    exact ((traces before).hasSource_iff input).mp (sourced before input after shape)
  · intro behind before input after shape
    exact ((traces before).hasSource_iff input).mpr (behind before input after shape)

end

/-- The first event is a drop, whose drag another program has started: the source is
what the members happened to hold. -/
theorem firstDrop_withoutSource :
    ¬∀ (origin : Option (Fin 3)) (inputs : List (Input (Fin 3) plainSequences.Sequence)),
      ∀ before input after, inputs = before ++ input :: after →
        HasSource (before.foldl (Logger.step (fun _ => true) plainSequences)
            (new (.other 0) origin ⟨0, 0⟩))
          (before.foldl Presses.step .new) input := by
  intro sourced
  have held := sourced (some 2)
    [.event ⟨ObjectTree.buttonWindow, fun _ => none⟩ 10 1 (.known (.drop ⟨3, 4⟩))] [] _ [] rfl
  obtain ⟨press, found, -⟩ := held
  exact nomatch found

end Logger

end Hooq
