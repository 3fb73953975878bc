import Mathlib.Data.List.DropRight
import Hooq.Script.Frame
import Hooq.Script.Movements

/-!
# What the two removing passes leave

One pass removes the mouse movements of a recording, the other the events on internal
widgets.  Each should take one of the sleeps next to an event along with it, so that
sleeps and events are left in turn.
-/

namespace Hooq

/-! ## Sleeps and events in turn -/

/-- Sleeps and events in turn, a sleep first. -/
inductive Alternates : List Item → Prop where
  | nil : Alternates []
  | sleep {item : Item} (isSleep : item.isSleep = true) : Alternates [item]
  | pair {item event : Item} {rest : List Item} (isSleep : item.isSleep = true)
      (isEvent : event.isSleep = false) (alternates : Alternates rest) :
      Alternates (item :: event :: rest)

/-- Directly before every event stands exactly one sleep. -/
def HasOneSleepBefore (items : List Item) : Prop :=
  ∀ front event back, items = front ++ event :: back → event.isSleep = false →
    ∃ before sleep, front = before ++ [sleep] ∧ sleep.isSleep = true ∧
      ∀ last ∈ before.getLast?, last.isSleep = false

theorem Alternates.hasOneSleepBefore {items : List Item} (alternates : Alternates items) :
    HasOneSleepBefore items := by
  induction alternates with
  | nil =>
      intro front event back shape
      simp at shape
  | sleep isSleep =>
      intro front event back shape isEvent
      rcases List.singleton_eq_append_iff.mp shape with ⟨_, same⟩ | ⟨_, impossible⟩
      · cases same
        rw [isSleep] at isEvent
        cases isEvent
      · cases impossible
  | @pair sleep first rest isSleep isFirst _ ih =>
      intro front event back shape isEvent
      match front with
      | [] =>
          cases shape
          rw [isSleep] at isEvent
          cases isEvent
      | [_] =>
          cases shape
          exact ⟨[], sleep, rfl, isSleep, nofun⟩
      | _ :: _ :: front =>
          cases shape
          rcases ih front event back rfl isEvent with ⟨before, other, rfl, isOther, loud⟩
          refine ⟨sleep :: first :: before, other, rfl, isOther, ?_⟩
          intro last isLast
          cases before with
          | nil =>
              cases isLast
              exact isFirst
          | cons item before => exact loud last isLast

theorem IsRecording.alternates {items : List Item} (isRecording : IsRecording items) :
    Alternates items := by
  induction isRecording with
  | nil => exact .nil
  | pair duration isEvent _ ih => exact .pair rfl isEvent.isSleep ih

/-! ## Removing items with a sleep -/

/-- Removes items of a kind, each with the sleep directly behind it.  `behind` says whether
an item of the kind stands directly before the list. -/
def removeWithSleep (removes : Item → Bool) : (behind : Bool) → List Item → List Item
  | _, [] => []
  | behind, item :: rest =>
      if removes item then
        removeWithSleep removes true rest
      else if behind && item.isSleep then
        removeWithSleep removes false rest
      else
        item :: removeWithSleep removes false rest

section

variable {removes : Item → Bool}

theorem removeWithSleep_sleep {sleep : Item} (isSleep : sleep.isSleep = true)
    (stays : removes sleep = false) (rest : List Item) :
    removeWithSleep removes true (sleep :: rest) = removeWithSleep removes false rest := by
  rw [removeWithSleep, stays, isSleep]
  rfl

theorem removeWithSleep_keep {item : Item} (stays : removes item = false) (rest : List Item) :
    removeWithSleep removes false (item :: rest) = item :: removeWithSleep removes false rest := by
  rw [removeWithSleep, stays]
  rfl

theorem removeWithSleep_remove {item : Item} (goes : removes item = true) (behind : Bool)
    (rest : List Item) :
    removeWithSleep removes behind (item :: rest) = removeWithSleep removes true rest := by
  rw [removeWithSleep, if_pos goes]

theorem not_removes_of_mem {items : List Item} {behind : Bool} {item : Item}
    (member : item ∈ removeWithSleep removes behind items) : removes item = false := by
  fun_induction removeWithSleep removes behind items with
  | case1 => cases member
  | case2 behind other rest goes ih => exact ih member
  | case3 behind other rest stays isSleep ih => exact ih member
  | case4 behind other rest stays isLoud ih =>
      rcases List.mem_cons.mp member with rfl | later
      · exact Bool.eq_false_of_not_eq_true stays
      · exact ih later

/-- Where nothing is of the kind, everything stays. -/
theorem removeWithSleep_of_none {items : List Item} (stay : ∀ item ∈ items, removes item = false) :
    removeWithSleep removes false items = items := by
  induction items with
  | nil => rfl
  | cons item rest ih =>
      rw [removeWithSleep_keep (stay item List.mem_cons_self),
        ih fun other member => stay other (List.mem_cons_of_mem _ member)]

/-- Of a recording, sleeps and events are left in turn. -/
theorem alternates_removeWithSleep {items : List Item} (isRecording : IsRecording items)
    (sleepsStay : ∀ item : Item, item.isSleep = true → item.targetClass = [] →
      removes item = false) :
    Alternates (removeWithSleep removes false items) ∧
      ∀ sleep : Item, sleep.isSleep = true →
        Alternates (sleep :: removeWithSleep removes true items) := by
  induction isRecording with
  | nil => exact ⟨.nil, fun sleep isSleep => .sleep isSleep⟩
  | @pair duration event rest isEvent _ ih =>
      have stays : removes (.ofMethod "msleep" (.int duration)) = false := sleepsStay _ rfl rfl
      have behind (sleep : Item) (isSleep : sleep.isSleep = true) :
          Alternates (sleep :: removeWithSleep removes false (event :: rest)) := by
        cases goes : removes event with
        | true =>
            rw [removeWithSleep_remove goes]
            exact ih.2 sleep isSleep
        | false =>
            rw [removeWithSleep_keep goes]
            exact .pair isSleep isEvent.isSleep ih.1
      constructor
      · rw [removeWithSleep_keep stays]
        exact behind _ rfl
      · intro sleep isSleep
        rw [removeWithSleep_sleep rfl stays]
        exact behind sleep isSleep

end

theorem Outcome.emitted_unchanged {item : Item} (isValid : item.isValid = true)
    (following : List Item) : (Outcome.unchanged item following).emitted = [item] :=
  if_pos isValid

/-! ## SkipMouseMovements -/

namespace StripMouseMovements

/-- A call on an event takes the movements that it starts with, each with the sleep behind
it. -/
theorem process_recording {rest : List Item} (isRecording : IsRecording rest) {event : Item}
    (isEvent : IsEvent event) :
    ∃ outcome, process event rest = .ok outcome ∧ IsRecording outcome.rest ∧
      removeWithSleep Item.isMove false (event :: rest) =
        outcome.emitted ++ removeWithSleep Item.isMove false outcome.rest := by
  induction isRecording generalizing event with
  | nil =>
      cases isMove : event.isMove with
      | true =>
          refine ⟨⟨.empty, [], []⟩, ?_, .nil, ?_⟩
          · rw [process.eq_def, if_pos (of_decide_eq_true isMove)]
          · rw [removeWithSleep_remove isMove]
            rfl
      | false =>
          refine ⟨.unchanged event [], ?_, .nil, ?_⟩
          · rw [process.eq_def, if_neg (of_decide_eq_false isMove)]
          · rw [removeWithSleep_keep isMove, Outcome.emitted_unchanged isEvent.isValid]
            rfl
  | @pair duration next rest isNext isRecording ih =>
      cases isMove : event.isMove with
      | true =>
          rcases ih isNext with ⟨outcome, processed, kept, same⟩
          refine ⟨outcome, ?_, kept, ?_⟩
          · rw [process.eq_def, if_pos (of_decide_eq_true isMove)]
            exact processed
          · rw [removeWithSleep_remove isMove, removeWithSleep_sleep rfl rfl]
            exact same
      | false =>
          refine ⟨.unchanged event _, ?_, .pair duration isNext isRecording, ?_⟩
          · rw [process.eq_def, if_neg (of_decide_eq_false isMove)]
          · rw [removeWithSleep_keep isMove, Outcome.emitted_unchanged isEvent.isValid]
            rfl

/-- How far the pass has come: what is left starts with a sleep, or with an event. -/
structure Strips (expected : List Item) (inserter : Inserter Item) (remaining : List Item) :
    Prop where
  stripped : inserter.rootList ++ removeWithSleep Item.isMove false remaining = expected
  remaining : IsRecording remaining ∨
    ∃ event rest, remaining = event :: rest ∧ IsEvent event ∧ IsRecording rest

theorem Strips.process {expected : List Item} {inserter : Inserter Item} {item : Item}
    {following : List Item} (strips : Strips expected inserter (item :: following)) :
    ∃ outcome, StripMouseMovements.process item following = .ok outcome ∧
      Strips expected (outcome.perform inserter) outcome.rest := by
  have moved {outcome : Outcome} (processed : StripMouseMovements.process item following = .ok outcome)
      (same : removeWithSleep Item.isMove false (item :: following) =
        outcome.emitted ++ removeWithSleep Item.isMove false outcome.rest) :
      (outcome.perform inserter).rootList ++ removeWithSleep Item.isMove false outcome.rest =
        expected := by
    rw [rootList_perform_of_no_insertions (process_insertions processed), List.append_assoc,
      ← same, strips.stripped]
  rcases strips.remaining with isRecording | ⟨event, rest, shape, isEvent, isRecording⟩
  · cases isRecording with
    | @pair duration event rest isEvent isRecording =>
        have processed : StripMouseMovements.process (.ofMethod "msleep" (.int duration))
            (event :: rest) =
              .ok (.unchanged (.ofMethod "msleep" (.int duration)) (event :: rest)) := by
          have other : QString.ofString "msleep" ≠ QString.ofString "moveMouse" := by decide
          rw [StripMouseMovements.process.eq_def]
          exact if_neg other
        exact ⟨_, processed, moved processed rfl, .inr ⟨event, rest, rfl, isEvent, isRecording⟩⟩
  · cases shape
    rcases process_recording isRecording isEvent with ⟨outcome, processed, kept, same⟩
    exact ⟨outcome, processed, moved processed same, .inl kept⟩

/-- Of a recording the pass removes exactly the movements, each with the sleep behind it. -/
theorem run_recording {items : List Item} (isRecording : IsRecording items)
    (list : List Item) :
    ∃ final, stripMouseMovements.run () items (Inserter.new list).clear = .ok final ∧
      final.rootList = removeWithSleep Item.isMove false items ∧
      (∀ item ∈ final.rootList, item.isMove = false) ∧ HasOneSleepBefore final.rootList := by
  have start : Strips (removeWithSleep Item.isMove false items) (Inserter.new list).clear items :=
    ⟨rfl, .inl isRecording⟩
  rcases stripMouseMovements.exists_run () items (Inserter.new list).clear
    (fun _ => Strips (removeWithSleep Item.isMove false items)) (by
      intro _ inserter item following strips
      rcases strips.process with ⟨outcome, processed, kept⟩
      refine ⟨(), outcome, ?_, kept⟩
      change (StripMouseMovements.process item following).map _ = _
      rw [processed]
      rfl) start with ⟨_, final, completes, strips⟩
  have whole : final.rootList = removeWithSleep Item.isMove false items := by
    rw [← strips.stripped, removeWithSleep, List.append_nil]
  have sleepsStay (item : Item) (isSleep : item.isSleep = true) (_ : item.targetClass = []) :
      item.isMove = false := by
    rw [Item.isMove, of_decide_eq_true isSleep]
    decide
  refine ⟨final, completes, whole, ?_, ?_⟩
  · rw [whole]
    exact fun item => not_removes_of_mem
  · rw [whole]
    exact (alternates_removeWithSleep isRecording sleepsStay).1.hasOneSleepBefore

/-- A movement between two clicks. -/
def clickRecording : List Item :=
  [.ofMethod "msleep" (.int 10), ⟨.path "window", "QWidget", "pressMouseButton", .map .empty⟩,
    .ofMethod "msleep" (.int 20), ⟨.path "window", "QWidget", "moveMouse", .map .empty⟩,
    .ofMethod "msleep" (.int 30), ⟨.path "window", "QWidget", "releaseMouseButton", .map .empty⟩]

theorem clickRecording_isRecording : IsRecording clickRecording := by
  apply IsRecording.pair 10 ⟨by decide, _, rfl⟩
  apply IsRecording.pair 20 ⟨by decide, _, rfl⟩
  apply IsRecording.pair 30 ⟨by decide, _, rfl⟩
  exact .nil

theorem run_clickRecording :
    ∃ final, stripMouseMovements.run () clickRecording (Inserter.new []).clear = .ok final ∧
      final.rootList = removeWithSleep Item.isMove false clickRecording ∧
      (∀ item ∈ final.rootList, item.isMove = false) ∧ HasOneSleepBefore final.rootList :=
  run_recording clickRecording_isRecording []

end StripMouseMovements

/-! ## FilterQtInternals -/

namespace FilterQtInternals

/-- The pass takes one sleep along with each internal event: the one behind it, or the one
before if the recording ends with the event. -/
structure Filters (items : List Item) (final : Inserter Item) : Prop where
  removed : final.rootList = (removeWithSleep isInternal false items).rdropWhile Item.isSleep
  alternates : Alternates final.rootList

theorem isInternal_sleep (duration : Int32) :
    isInternal (.ofMethod "msleep" (.int duration)) = false :=
  rfl

/-- On items of a script, what a run leaves is everything that is not internal. -/
theorem rootList_of_run {items list : List Item} {final : Inserter Item}
    (completes : filterQtInternals.run () items (Inserter.new list).clear = .ok final)
    (scripted : AreScripted items) : final.rootList = external items := by
  have start : (Inserter.new list).clear.rootList ++ external items = external items ∧
      AreScripted items := ⟨rfl, scripted⟩
  have invariant := filterQtInternals.run_invariant
    (fun _ inserter remaining => inserter.rootList ++ external remaining = external items ∧
      AreScripted remaining)
    (by
      rintro _ inserter item remaining _ outcome processed ⟨kept, scripted⟩
      have processed := ofProcess_ok processed
      rcases process_cases processed scripted with ⟨effect, rest⟩
      rw [rest, rootList_perform_of_no_insertions (process_insertions processed)]
      refine ⟨?_, fun other member => scripted other (List.mem_cons_of_mem _ member)⟩
      rw [← kept, List.append_assoc]
      rcases effect with ⟨internal, emitted⟩ | ⟨isExternal, emitted⟩
      · rw [emitted, external, external, List.filter_cons_of_neg (by simp [internal])]
        rfl
      · rw [emitted, external, external, List.filter_cons_of_pos (by simp [isExternal])]
        rfl)
    start completes
  rcases invariant with ⟨_, kept, _⟩
  rw [← kept]
  exact (List.append_nil _).symm

/-- Without internal events a run completes. -/
theorem exists_run_of_external {items : List Item} (isExternal : ∀ item ∈ items, isInternal item = false)
    (list : List Item) :
    ∃ final, filterQtInternals.run () items (Inserter.new list).clear = .ok final := by
  rcases filterQtInternals.exists_run () items (Inserter.new list).clear
    (fun _ _ remaining => ∀ item ∈ remaining, isInternal item = false) (by
      intro _ inserter item following isExternal
      refine ⟨(), .unchanged item following, ?_, fun other member =>
        isExternal other (List.mem_cons_of_mem _ member)⟩
      have outside := of_decide_eq_false (isExternal item List.mem_cons_self)
      have processed : process item following = .ok (.unchanged item following) := by
        rw [process.eq_def, if_neg outside]
      change (process item following).map _ = _
      rw [processed]
      rfl) isExternal with ⟨_, final, completes, _⟩
  exact ⟨final, completes⟩

theorem external_of_none {items : List Item} (none : ∀ item ∈ items, isInternal item = false) :
    external items = items :=
  List.filter_eq_self.mpr fun item member => by rw [none item member]; rfl

/-- A recording does not end with a sleep. -/
theorem rdropWhile_recording {items : List Item} (isRecording : IsRecording items) :
    items.rdropWhile Item.isSleep = items := by
  apply List.rdropWhile_eq_self_iff.mpr
  intro nonempty
  induction isRecording with
  | nil => exact absurd rfl nonempty
  | @pair duration event rest isEvent isRecording ih =>
      cases rest with
      | nil =>
          change ¬event.isSleep = true
          rw [isEvent.isSleep]
          exact Bool.false_ne_true
      | cons next rest =>
          have last := ih (List.cons_ne_nil _ _)
          simpa only [List.getLast_cons_cons] using last

/-- Where sleeps and events are left in turn, and no sleep at the end, nothing was taken out
of a recording. -/
theorem none_of_alternates {items : List Item} (isRecording : IsRecording items)
    (alternates : Alternates (external items))
    (ends : ∀ last ∈ (external items).getLast?, last.isSleep = false) :
    ∀ item ∈ items, isInternal item = false := by
  induction isRecording with
  | nil =>
      intro item member
      cases member
  | @pair duration event rest isEvent isRecording ih =>
      have sleepStays : external (.ofMethod "msleep" (.int duration) :: event :: rest) =
          .ofMethod "msleep" (.int duration) :: external (event :: rest) := rfl
      rw [sleepStays] at alternates ends
      have isExternal : isInternal event = false := by
        by_contra internal
        have gone : external (event :: rest) = external rest :=
          List.filter_cons_of_neg (by simp [Bool.eq_true_of_not_eq_false internal])
        rw [gone] at alternates ends
        cases isRecording with
        | nil =>
            have loud : true = false := ends _ rfl
            cases loud
        | pair later _ _ =>
            cases alternates with
            | pair _ impossible _ => cases impossible
      have stays : external (event :: rest) = event :: external rest :=
        List.filter_cons_of_pos (by simp [isExternal])
      rw [stays] at alternates ends
      cases alternates with
      | pair _ _ alternatesRest =>
          have endsRest : ∀ last ∈ (external rest).getLast?, last.isSleep = false := by
            intro last isLast
            apply ends last
            cases shape : external rest with
            | nil =>
                rw [shape] at isLast
                cases isLast
            | cons next others =>
                rw [shape] at isLast
                rw [List.getLast?_cons_cons, List.getLast?_cons_cons]
                exact isLast
          intro item member
          rcases List.mem_cons.mp member with rfl | member
          · exact isInternal_sleep duration
          · rcases List.mem_cons.mp member with rfl | member
            · exact isExternal
            · exact ih alternatesRest endsRest item member

/-- The pass does its part on a recording exactly if the recording has no internal event. -/
theorem filters_iff {items : List Item} (isRecording : IsRecording items) (list : List Item) :
    (∃ final, filterQtInternals.run () items (Inserter.new list).clear = .ok final ∧
      Filters items final) ↔ ∀ item ∈ items, isInternal item = false := by
  constructor
  · rintro ⟨final, completes, filters⟩
    have left := rootList_of_run completes isRecording.isScripted
    apply none_of_alternates isRecording
    · rw [← left]
      exact filters.alternates
    · rw [← left, filters.removed]
      intro last isLast
      obtain ⟨nonempty, rfl⟩ := List.mem_getLast?_eq_getLast isLast
      exact Bool.eq_false_of_not_eq_true (List.rdropWhile_last_not _ _ nonempty)
  · intro none
    rcases exists_run_of_external none list with ⟨final, completes⟩
    have left := rootList_of_run completes isRecording.isScripted
    rw [external_of_none none] at left
    refine ⟨final, completes, ?_, ?_⟩
    · rw [left, removeWithSleep_of_none none, rdropWhile_recording isRecording]
    · rw [left]
      exact isRecording.alternates

theorem clickRecording_filters :
    (∃ final, filterQtInternals.run () StripMouseMovements.clickRecording
        (Inserter.new []).clear = .ok final ∧ Filters StripMouseMovements.clickRecording final) ↔
      ∀ item ∈ StripMouseMovements.clickRecording, isInternal item = false :=
  filters_iff StripMouseMovements.clickRecording_isRecording []

/-- A movement on the widget that shows what is dragged, before a click. -/
def dragRecording : List Item :=
  [.ofMethod "msleep" (.int 10),
    ⟨.path "drag", "QShapedPixmapWidget", "moveMouse", .map .empty⟩,
    .ofMethod "msleep" (.int 20), ⟨.path "window", "QWidget", "pressMouseButton", .map .empty⟩]

/-- The sleep behind the movement is not called what the pass looks for, and stays. -/
theorem dragRecording_not_filtered :
    ¬∀ items, IsRecording items → ∃ final,
      filterQtInternals.run () items (Inserter.new []).clear = .ok final ∧ Filters items final := by
  intro all
  have isRecording : IsRecording dragRecording := by
    apply IsRecording.pair 10 ⟨by decide, _, rfl⟩
    apply IsRecording.pair 20 ⟨by decide, _, rfl⟩
    exact .nil
  rcases all dragRecording isRecording with ⟨final, completes, filters⟩
  have left := rootList_of_run completes isRecording.isScripted
  have alternates := filters.alternates
  rw [left] at alternates
  have sleeps : external dragRecording = [.ofMethod "msleep" (.int 10), .ofMethod "msleep" (.int 20),
      ⟨.path "window", "QWidget", "pressMouseButton", .map .empty⟩] := by decide
  rw [sleeps] at alternates
  cases alternates with
  | pair _ impossible _ => cases impossible

end FilterQtInternals

end Hooq
