import Hooq.Script.Typing

/-!
# Presses and their releases

SimplifyStrings takes presses and releases out of a recording.  This module says when it
takes both or neither of each press and its release.
-/

namespace Hooq

/-- The items that a call took, each with whether the call left it for the output. -/
def Call.presence (call : Call) : List (Item × Bool) :=
  call.consumed.dropLast.map (fun item => (item, false)) ++ [(call.outcome.iterator, true)]

namespace SimplifyStrings

/-- Both items are about one key on one object. -/
def isSameKey (first second : Item) : Bool :=
  first.target = second.target &&
    (first.parameters.toMap.value "key").toKey = (second.parameters.toMap.value "key").toKey

/-- A walk over events that are there or not.  A release releases the last press of its key
on its object that is not released yet, among those seen, the last one first: both must be
there, or neither. -/
def keepsPairs : List (Item × Bool) → List (Item × Bool) → Bool
  | _, [] => true
  | presses, (event, isThere) :: following =>
      if isPress event then
        keepsPairs ((event, isThere) :: presses) following
      else if isRelease event then
        (presses.find? fun press => isSameKey press.1 event).all (fun press => press.2 = isThere) &&
          keepsPairs (presses.eraseP fun press => isSameKey press.1 event) following
      else
        keepsPairs presses following

/-- Whether an event belongs to a run of typing on `run`, if one is in progress: a press
with at most shift held and a key event on that object behind it, which also starts a run on
its own object, or a release in a run with at most shift held that is not the last event. -/
def isTyped (run : Option Target) (event : Item) (following : List Item) : Bool :=
  if isPress event then
    merges (run.getD event.target) event following
  else
    run.isSome && isRelease event && isPlain event.parameters.toMap && !following.isEmpty

/-- The events, each with whether it stands outside of all runs of typing. -/
def outsideTyping : Option Target → List Item → List (Item × Bool)
  | _, [] => []
  | run, event :: following =>
      if isTyped run event following then
        (event, false) :: outsideTyping (some (run.getD event.target)) following
      else
        (event, true) :: outsideTyping none following

/-! ## What matters for pairs -/

/-- Only key events matter. -/
theorem keepsPairs_filter (presses events : List (Item × Bool)) :
    keepsPairs presses (events.filter fun event => event.1.isKey) = keepsPairs presses events := by
  induction events generalizing presses with
  | nil => rfl
  | cons first following ih =>
      rcases first with ⟨event, isThere⟩
      cases press : isPress event with
      | true =>
          have key : event.isKey = true := by simp [Item.isKey, press]
          rw [List.filter_cons_of_pos (by exact key)]
          simp [keepsPairs, press, ih]
      | false =>
          cases release : isRelease event with
          | true =>
              have key : event.isKey = true := by simp [Item.isKey, release]
              rw [List.filter_cons_of_pos (by exact key)]
              simp [keepsPairs, press, release, ih]
          | false =>
              have key : event.isKey = false := by simp [Item.isKey, press, release]
              rw [List.filter_cons_of_neg (by simp [key])]
              simp [keepsPairs, press, release, ih]

/-! ## Runs of typing -/

section

variable {target : Target} {event next : Item} {following : List Item}

theorem outsideTyping_of_typed {run : Option Target} (typed : isTyped run event following = true) :
    outsideTyping run (event :: following) =
      (event, false) :: outsideTyping (some (run.getD event.target)) following := by
  rw [outsideTyping, if_pos typed]

theorem outsideTyping_of_not_typed {run : Option Target}
    (notTyped : isTyped run event following = false) :
    outsideTyping run (event :: following) = (event, true) :: outsideTyping none following := by
  rw [outsideTyping, if_neg (by simp [notTyped])]

theorem isTyped_of_press (press : isPress event = true) :
    isTyped (some target) event following = merges target event following := by
  rw [isTyped, if_pos press]
  rfl

theorem isTyped_of_release (notPress : isPress event = false) (release : isRelease event = true)
    (plain : isPlain event.parameters.toMap = true) :
    isTyped (some target) event (next :: following) = true := by
  simp [isTyped, notPress, release, plain]

theorem isTyped_of_not_plain (run : Option Target)
    (held : isPlain event.parameters.toMap = false) : isTyped run event following = false := by
  simp [isTyped, merges, held]

theorem isTyped_last (run : Option Target) : isTyped run event [] = false := by
  simp [isTyped, merges]

theorem isTyped_of_not_key (run : Option Target) (notKey : event.isKey = false) :
    isTyped run event following = false := by
  rw [Item.isKey, Bool.or_eq_false_iff] at notKey
  simp [isTyped, notKey]

end

theorem isKey_msleep (duration : Int32) :
    (Item.ofMethod "msleep" (.int duration)).isKey = false := by
  cases key : (Item.ofMethod "msleep" (.int duration)).isKey with
  | false => rfl
  | true =>
      have isSleep : (Item.ofMethod "msleep" (.int duration)).isSleep = true := rfl
      rw [Item.isSleep_of_isKey key] at isSleep
      cases isSleep

/-- The key events of a list, all marked alike. -/
def marked (isThere : Bool) (items : List Item) : List (Item × Bool) :=
  (items.filter Item.isKey).map fun item => (item, isThere)

theorem filter_isKey_map (isThere : Bool) (items : List Item) :
    (items.map fun item => (item, isThere)).filter (fun event => event.1.isKey) =
      marked isThere items := by
  rw [List.filter_map]
  rfl

theorem marked_msleep (isThere : Bool) (duration : Int32) :
    marked isThere [.ofMethod "msleep" (.int duration)] = [] := by
  rw [marked, List.filter_cons_of_neg (by simp [isKey_msleep])]
  rfl

/-- The key events outside of runs. -/
def keysOutside (run : Option Target) (events : List Item) : List (Item × Bool) :=
  (outsideTyping run events).filter fun event => event.1.isKey

/-- What the loop takes is a run of typing, and what it stops at is not part of it. -/
structure TakesRun (target : Target) (iterator : Item) (text : QString) (msec : Item)
    (input : List Item) (run : Run) (taken : List Item) : Prop where
  collected : collect target iterator text msec input = .ok run
  split : iterator :: input = taken ++ run.iterator :: run.rest
  outside : keysOutside (some target) (iterator :: eventsOf input) =
    marked false taken ++ (marked true [run.iterator] ++ keysOutside none (eventsOf run.rest))

theorem TakesRun.stop {target : Target} {iterator : Item} {text : QString} {msec : Item}
    {input : List Item}
    (collected : collect target iterator text msec input = .ok ⟨iterator, text, msec, input⟩)
    (notTyped : isTyped (some target) iterator (eventsOf input) = false) :
    TakesRun target iterator text msec input ⟨iterator, text, msec, input⟩ [] := by
  refine ⟨collected, rfl, ?_⟩
  rw [keysOutside, outsideTyping_of_not_typed notTyped]
  cases key : iterator.isKey <;> simp [marked, keysOutside, key]

/-- A typed event makes the run longer. -/
theorem TakesRun.advance {target : Target} {iterator event : Item} {text later : QString}
    {msec : Item} {duration : Int32} {rest : List Item} {run : Run} {taken : List Item}
    (further : TakesRun target event later (.ofMethod "msleep" (.int duration)) rest run taken)
    (isKey : iterator.isKey = true)
    (typed : isTyped (some target) iterator (event :: eventsOf rest) = true)
    (same : collect target iterator text msec (.ofMethod "msleep" (.int duration) :: event :: rest) =
      collect target event later (.ofMethod "msleep" (.int duration)) rest) :
    TakesRun target iterator text msec (.ofMethod "msleep" (.int duration) :: event :: rest) run
      (iterator :: .ofMethod "msleep" (.int duration) :: taken) := by
  refine ⟨same.trans further.collected, ?_, ?_⟩
  · rw [further.split]
    rfl
  · have outside := further.outside
    rw [keysOutside] at outside
    rw [keysOutside, eventsOf, outsideTyping_of_typed typed, Option.getD_some,
      List.filter_cons_of_pos (by exact isKey), outside]
    simp [marked, isKey, isKey_msleep]

theorem exists_takesRun (target : Target) {iterator : Item} (isKey : iterator.isKey = true)
    (text : QString) (msec : Item) {input : List Item} (isRecording : IsRecording input) :
    ∃ run taken, TakesRun target iterator text msec input run taken := by
  induction isRecording generalizing iterator text msec with
  | nil =>
      refine ⟨_, _, TakesRun.stop ?_ (isTyped_last _)⟩
      rw [collect.eq_def]
      simp
  | @pair duration event rest isEvent isRecording ih =>
      cases press : isPress iterator with
      | true =>
          cases merged : merges target iterator (event :: eventsOf rest) with
          | false =>
              exact ⟨_, _, TakesRun.stop (collect_of_not_merges press merged)
                ((isTyped_of_press press).trans merged)⟩
          | true =>
              have eventKey : event.isKey = true := by
                simp only [merges, Bool.and_eq_true] at merged
                exact merged.2.1
              rcases ih eventKey (typeKey iterator.parameters.toMap text)
                (.ofMethod "msleep" (.int duration)) with ⟨run, taken, further⟩
              exact ⟨run, _, further.advance isKey ((isTyped_of_press press).trans merged)
                (collect_of_merges press merged)⟩
      | false =>
          have release : isRelease iterator = true := by
            rw [Item.isKey, press, Bool.false_or] at isKey
            exact isKey
          cases plain : isPlain iterator.parameters.toMap with
          | false =>
              exact ⟨_, _, TakesRun.stop (collect_of_not_plain plain)
                (isTyped_of_not_plain _ plain)⟩
          | true =>
              have typed := @isTyped_of_release target _ event (eventsOf rest) press release plain
              cases eventKey : event.isKey with
              | true =>
                  rcases ih eventKey text (.ofMethod "msleep" (.int duration)) with
                    ⟨run, taken, further⟩
                  exact ⟨run, _, further.advance isKey typed
                    (collect_of_release press plain eventKey)⟩
              | false =>
                  -- The loop takes the event behind the release before it stops.
                  refine ⟨⟨event, text, .ofMethod "msleep" (.int duration), rest⟩,
                    [iterator, .ofMethod "msleep" (.int duration)],
                    collect_of_other press plain eventKey, rfl, ?_⟩
                  rw [keysOutside, eventsOf, outsideTyping_of_typed typed,
                    outsideTyping_of_not_typed (isTyped_of_not_key _ eventKey)]
                  simp [marked, keysOutside, isKey, isKey_msleep, eventKey]

/-- The same for the run of a call. -/
theorem takesRun_of_collects {item : Item} {following : List Item} {run : Run}
    {taken : List Item} (press : isPress item = true) (isRecording : IsRecording following)
    (collects : Collects item.target item [] .empty following run taken) :
    TakesRun item.target item [] .empty following run taken := by
  have isKey : item.isKey = true := by simp [Item.isKey, press]
  rcases exists_takesRun item.target isKey [] .empty isRecording with ⟨other, others, takes⟩
  have same : other = run := Except.ok.inj (takes.collected.symm.trans collects.collected)
  subst same
  have taken := List.append_cancel_right (takes.split.symm.trans collects.split)
  rw [← taken]
  exact takes

/-! ## The calls of the pass -/

theorem presence_runCall {item : Item} {following : List Item} {run : Run} {taken : List Item}
    (collects : Collects item.target item [] .empty following run taken) :
    (runCall item following run).presence =
      taken.map (fun item => (item, false)) ++ [run.iterator].map fun item => (item, true) := by
  rw [Call.presence, consumed_runCall collects, List.dropLast_concat]
  rfl

theorem presence_unchanged (item : Item) (following : List Item) :
    (Call.unchanged item following).presence = [item].map fun item => (item, true) := by
  rw [Call.presence, Call.consumed_unchanged]
  rfl

/-- The calls take the items of the recording in order, and leave the key events that stand
outside of the runs of typing. -/
structure LeavesOutside (items : List Item) (calls : List Call) : Prop where
  whole : (calls.flatMap Call.presence).map Prod.fst = items
  keys : (calls.flatMap Call.presence).filter (fun event => event.1.isKey) =
    keysOutside none (eventsOf items)

theorem keysOutside_of_press {event : Item} (press : isPress event = true)
    (following : List Item) :
    keysOutside none (event :: following) = keysOutside (some event.target) (event :: following) := by
  have same : isTyped none event following = isTyped (some event.target) event following := by
    rw [isTyped, isTyped, if_pos press, if_pos press]
    rfl
  rw [keysOutside, keysOutside, outsideTyping, outsideTyping, same]
  rfl

theorem keysOutside_of_not_press {event : Item} (notPress : isPress event = false)
    (following : List Item) :
    keysOutside none (event :: following) =
      marked true [event] ++ keysOutside none following := by
  have notTyped : isTyped none event following = false := by simp [isTyped, notPress]
  rw [keysOutside, outsideTyping_of_not_typed notTyped]
  cases key : event.isKey <;> simp [marked, keysOutside, key]

theorem RecordedCalls.leavesOutside {items : List Item} {calls : List Call}
    (recorded : RecordedCalls items calls) (isRecording : IsRecording items) :
    LeavesOutside items calls := by
  induction recorded with
  | nil => exact ⟨rfl, rfl⟩
  | @press duration event rest run taken calls press collects _ ih =>
      cases isRecording with
      | pair _ isEvent isRecording =>
          have leaves := ih collects.isRecording
          have outside := (takesRun_of_collects press isRecording collects).outside
          constructor
          · rw [List.flatMap_cons, List.flatMap_cons, presence_unchanged,
              presence_runCall collects, List.map_append, List.map_append, leaves.whole,
              collects.split, List.map_append, List.map_map]
            simp [Function.comp_def]
          · rw [List.flatMap_cons, List.flatMap_cons, presence_unchanged,
              presence_runCall collects, List.filter_append, List.filter_append,
              List.filter_append, leaves.keys, filter_isKey_map, filter_isKey_map,
              filter_isKey_map, marked_msleep, eventsOf, keysOutside_of_press press, outside,
              List.append_assoc]
            rfl
  | @other duration event rest calls isEvent notPress _ ih =>
      cases isRecording with
      | pair _ isEvent isRecording =>
          have leaves := ih isRecording
          constructor
          · rw [List.flatMap_cons, List.flatMap_cons, presence_unchanged, presence_unchanged,
              List.map_append, List.map_append, leaves.whole]
            rfl
          · rw [List.flatMap_cons, List.flatMap_cons, presence_unchanged, presence_unchanged,
              List.filter_append, List.filter_append, leaves.keys, filter_isKey_map,
              filter_isKey_map, marked_msleep, eventsOf, keysOutside_of_not_press notPress]
            rfl

/-! ## The output of the pass -/

/-- What a filter keeps of the output is what it keeps of the items that the calls leave, if
it keeps nothing that they insert. -/
theorem filter_perform {keep : Item → Bool} {calls : List Call}
    (rejects : ∀ call ∈ calls, ∀ insertion ∈ call.outcome.insertions, keep insertion.1 = false)
    (inserter : Inserter Item) :
    (calls.foldl (fun inserter call => call.outcome.perform inserter)
      inserter).rootList.filter keep =
      inserter.rootList.filter keep ++
        (calls.flatMap fun call => call.outcome.emitted).filter keep := by
  induction calls generalizing inserter with
  | nil => simp
  | cons call later ih =>
      have rejected := rejects call List.mem_cons_self
      have inserted : (inserter.insertAll call.outcome.insertions).rootList.filter keep =
          inserter.rootList.filter keep := by
        apply Inserter.insertAll_keeps
          (fun list => list.filter keep = inserter.rootList.filter keep)
        · intro insertion member list index same
          rw [filter_insertAt_of_rejected (rejected insertion member), same]
        · rfl
      rw [List.foldl_cons, ih (fun other member => rejects other (List.mem_cons_of_mem _ member)),
        call.outcome.rootList_perform, List.filter_append, inserted, List.flatMap_cons,
        List.filter_append, List.append_assoc]

theorem isValid_of_isKey {item : Item} (isKey : item.isKey = true) : item.isValid = true := by
  rw [Item.isValid, decide_eq_true_iff]
  intro isEmpty
  rw [Item.isKey, isPress, isRelease, isEmpty] at isKey
  exact absurd isKey (by decide)

theorem isKey_sendText (item : Item) (text : QString) : (sendText item text).isKey = false := by
  have names : QString.ofString "sendText" ≠ QString.ofString "pressKey" ∧
      QString.ofString "sendText" ≠ QString.ofString "releaseKey" := by decide
  change (decide _ || decide _) = false
  rw [Bool.or_eq_false_iff, decide_eq_false_iff_not, decide_eq_false_iff_not]
  exact names

/-- The pass inserts no key events. -/
theorem RecordedCalls.rejects {items : List Item} {calls : List Call}
    (recorded : RecordedCalls items calls) :
    ∀ call ∈ calls, ∀ insertion ∈ call.outcome.insertions, insertion.1.isKey = false := by
  induction recorded with
  | nil => simp
  | @press duration event rest run taken calls press collects _ ih =>
      rw [List.forall_mem_cons, List.forall_mem_cons]
      refine ⟨by simp [Call.unchanged, Outcome.unchanged], ?_, ih⟩
      intro insertion member
      by_cases hasText : run.text = []
      · simp [runCall, hasText] at member
      · have isSleep := collects.atHand (fun impossible => absurd rfl impossible) hasText
        simp only [runCall, hasText, ne_eq, not_false_eq_true, if_true, List.mem_cons,
          List.not_mem_nil, or_false] at member
        rcases member with rfl | rfl
        · exact isKey_sendText event run.text
        · rw [Bool.eq_false_iff]
          intro key
          rw [Item.isSleep_of_isKey key] at isSleep
          cases isSleep
  | other duration _ _ _ ih =>
      rw [List.forall_mem_cons, List.forall_mem_cons]
      exact ⟨by simp [Call.unchanged, Outcome.unchanged],
        by simp [Call.unchanged, Outcome.unchanged], ih⟩

/-- What a call leaves of its items is the item that it returns. -/
theorem filter_emitted (call : Call) :
    call.outcome.emitted.filter Item.isKey =
      ((call.presence.filter Prod.snd).map Prod.fst).filter Item.isKey := by
  have left : (call.presence.filter Prod.snd).map Prod.fst = [call.outcome.iterator] := by
    rw [Call.presence, List.filter_append, List.filter_eq_nil_iff.mpr]
    · rfl
    · intro event member
      rcases List.mem_map.mp member with ⟨item, _, rfl⟩
      simp
  rw [left, Outcome.emitted]
  cases key : call.outcome.iterator.isKey with
  | true => rw [if_pos (isValid_of_isKey key)]
  | false => split <;> simp [key]

/-- The key events of the output are the ones that the calls left. -/
theorem RecordedCalls.output {items : List Item} {calls : List Call}
    (recorded : RecordedCalls items calls) (list : List Item) :
    ∃ final, simplifyStrings.run () items (Inserter.new list).clear = .ok final ∧
      final.rootList.filter Item.isKey =
        (((calls.flatMap Call.presence).filter Prod.snd).map Prod.fst).filter Item.isKey := by
  have completes := simplifyStrings.run_eq_calls () items (Inserter.new list).clear
  rw [recorded.accounted.completes] at completes
  refine ⟨_, completes, ?_⟩
  rw [filter_perform recorded.rejects]
  change [] ++ _ = _
  rw [List.nil_append]
  clear completes recorded
  induction calls with
  | nil => rfl
  | cons call later ih =>
      rw [List.flatMap_cons, List.flatMap_cons, List.filter_append, List.filter_append,
        List.map_append, List.filter_append, ih, filter_emitted]

/-- The pass leaves both or neither of each press and its release exactly when both or
neither stand in a run of typing. -/
theorem keepsPairs_iff {items : List Item} (isRecording : IsRecording items)
    (list : List Item) :
    ∃ calls final, simplifyStrings.calls () items = .ok calls ∧
      simplifyStrings.run () items (Inserter.new list).clear = .ok final ∧
      (calls.flatMap Call.presence).map Prod.fst = items ∧
      final.rootList.filter Item.isKey =
        (((calls.flatMap Call.presence).filter Prod.snd).map Prod.fst).filter Item.isKey ∧
      (keepsPairs [] (calls.flatMap Call.presence) = true ↔
        keepsPairs [] (outsideTyping none (eventsOf items)) = true) := by
  rcases exists_recordedCalls isRecording with ⟨calls, recorded⟩
  rcases recorded.output list with ⟨final, completes, output⟩
  have leaves := recorded.leavesOutside isRecording
  refine ⟨calls, final, recorded.accounted.completes, completes, leaves.whole, output, ?_⟩
  rw [← keepsPairs_filter, leaves.keys, keysOutside, keepsPairs_filter]

/-- A letter and a click behind it. -/
def letterThenClick : List Item :=
  letterRecording ++
    [.ofMethod "msleep" (.int 10), ⟨.path "window", "QWidget", "pressMouseButton", .map .empty⟩]

theorem letterThenClick_keepsPairs :
    ∃ calls, simplifyStrings.calls () letterThenClick = .ok calls ∧
      keepsPairs [] (calls.flatMap Call.presence) = true := by
  have isRecording : IsRecording letterThenClick := by
    apply IsRecording.pair 10 ⟨by decide, _, rfl⟩
    apply IsRecording.pair 10 ⟨by decide, _, rfl⟩
    apply IsRecording.pair 10 ⟨by decide, _, rfl⟩
    exact .nil
  rcases keepsPairs_iff isRecording [] with ⟨calls, final, completes, _, _, _, pairs⟩
  exact ⟨calls, completes, pairs.mpr (by decide +kernel)⟩

/-- At the end of the recording the release is left, and its press is not. -/
theorem letterRecording_not_keepsPairs :
    ∃ calls, simplifyStrings.calls () letterRecording = .ok calls ∧
      keepsPairs [] (calls.flatMap Call.presence) = false ∧
      (simplifyStrings.run () letterRecording (Inserter.new []).clear).toOption.map
        (fun final => final.rootList.filter Item.isKey) =
        some [keyEvent "releaseKey" 0x41 "a"] := by
  refine ⟨(simplifyStrings.calls () letterRecording).toOption.getD [], ?_, ?_, ?_⟩
  · decide +kernel
  · decide +kernel
  · decide +kernel

end SimplifyStrings

end Hooq
