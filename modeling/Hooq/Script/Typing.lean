import Hooq.Script.Variables

/-!
# What becomes of a recorded key press

SimplifyStrings merges runs of key events into one text.  For each press of a
recording this module says what the pass makes of it, and for which recordings
every press is accounted for.
-/

namespace Hooq

namespace Call

/-- The items that a call took from the list, its own included. -/
def consumed (call : Call) : List Item :=
  call.item :: call.following.take (call.following.length - call.outcome.rest.length)

/-- The presses that a call took and did not leave behind. -/
def absorbed (call : Call) : List Item :=
  call.consumed.dropLast.filter SimplifyStrings.isPress

theorem consumed_of_eq {call : Call} (taken : List Item)
    (shape : call.item :: call.following =
      taken ++ call.outcome.iterator :: call.outcome.rest) :
    call.consumed = taken ++ [call.outcome.iterator] := by
  rw [consumed]
  cases taken with
  | nil =>
      rw [List.nil_append, List.cons.injEq] at shape
      rw [shape.1, shape.2, Nat.sub_self]
      rfl
  | cons first taken =>
      rw [List.cons_append, List.cons.injEq] at shape
      rcases shape with ⟨isFirst, shape⟩
      rw [isFirst, shape]
      have split : (taken ++ call.outcome.iterator :: call.outcome.rest).length -
          call.outcome.rest.length = taken.length + 1 := by
        rw [List.length_append, List.length_cons]
        omega
      rw [split, List.cons_append, List.take_append]
      simp

/-- A call that changes nothing. -/
def unchanged (item : Item) (following : List Item) : Call :=
  ⟨item, following, .unchanged item following⟩

@[simp] theorem consumed_unchanged (item : Item) (following : List Item) :
    (unchanged item following).consumed = [item] :=
  consumed_of_eq [] rfl

@[simp] theorem absorbed_unchanged (item : Item) (following : List Item) :
    (unchanged item following).absorbed = [] := by
  rw [absorbed, consumed_unchanged]
  rfl

end Call

namespace SimplifyStrings

/-! ## Presses that are accounted for -/

def isShift (press : Item) : Bool :=
  (press.parameters.toMap.value "key").toKey = shiftKey

/-- The text that a run of absorbed presses leaves in the field. -/
def typedText (presses : List Item) : QString :=
  presses.foldl (fun text press => typeKey press.parameters.toMap text) []

/-- A press is accounted for on a field that holds `before`: it is a lone shift, or
it was meant for the field and leaves a trace there. -/
def LeavesTrace (target : Target) (before : QString) (press : Item) : Prop :=
  isShift press = true ∨
    press.target = target ∧ typeKey press.parameters.toMap before ≠ before

/-- A call accounts for the presses that it takes: what it leaves behind is the last
of them, what it sends is the text of the others, and each of those has left its
trace in that text. -/
structure AccountsFor (call : Call) : Prop where
  kept : call.consumed.getLast? = some call.outcome.iterator
  sent : (call.outcome.insertions.map Prod.fst).filter
      (fun item => item.method = QString.ofString "sendText") =
    if typedText call.absorbed = [] then [] else [sendText call.item (typedText call.absorbed)]
  traces : ∀ front press back, call.absorbed = front ++ press :: back →
    LeavesTrace call.item.target (typedText front) press

/-! ## Recordings that type cleanly -/

/-- The events of a recording, without the sleeps between them. -/
def eventsOf : List Item → List Item
  | _ :: event :: rest => event :: eventsOf rest
  | _ => []

/-- The press becomes part of a text for `target`: at most shift is held and the next
event is a key event on `target`. -/
def merges (target : Target) (press : Item) (following : List Item) : Bool :=
  isPlain press.parameters.toMap &&
    match following with
    | next :: _ => next.isKey && next.target = target
    | [] => false

/-- Behind `count` typed characters the press does something: it is a backspace with
a character to remove, or it has a text. -/
def types (press : Item) (count : Nat) : Bool :=
  let parameters := press.parameters.toMap
  let key := (parameters.value "key").toKey
  if key = backspaceKey then
    count ≠ 0
  else
    key = returnKey || key = enterKey || (parameters.value "text").toText ≠ []

/-- The number of characters that are left behind a press. -/
def countTyped (press : Item) (count : Nat) : Nat :=
  let parameters := press.parameters.toMap
  let key := (parameters.value "key").toKey
  if key = backspaceKey then
    count - 1
  else if key = shiftKey then
    count
  else if key = returnKey ∨ key = enterKey then
    count + 1
  else
    count + (parameters.value "text").toText.length

/-- Walks over the events with the run of typing that is in progress, if any: where
it types and how many characters are typed.  Every press that becomes part of it is a
shift, or is meant for the same object and types. -/
def TypesCleanly : Option (Target × Nat) → List Item → Prop
  | _, [] => True
  | run, event :: following =>
      if isPress event then
        let (target, count) := run.getD (event.target, 0)
        if merges target event following then
          (isShift event = true ∨ event.target = target ∧ types event count = true) ∧
            TypesCleanly (some (target, countTyped event count)) following
        else
          TypesCleanly none following
      else if isRelease event ∧ isPlain event.parameters.toMap then
        TypesCleanly run following
      else
        TypesCleanly none following

theorem length_typeKey (press : Item) (text : QString) :
    (typeKey press.parameters.toMap text).length = countTyped press text.length := by
  rw [typeKey, countTyped]
  split
  · exact List.length_dropLast
  · split
    · rfl
    · split
      · rw [List.length_append]
        rfl
      · rw [List.length_append]

/-- A press types exactly when it changes the text. -/
theorem leavesTrace_iff (target : Target) (text : QString) (press : Item) :
    LeavesTrace target text press ↔
      isShift press = true ∨ press.target = target ∧ types press text.length = true := by
  rw [LeavesTrace]
  by_cases shift : isShift press = true
  · simp [shift]
  · have otherKey : (press.parameters.toMap.value "key").toKey ≠ shiftKey := by
      simpa [isShift] using shift
    apply or_congr_right
    apply and_congr_right'
    rw [typeKey, types, if_neg otherKey]
    split
    next backspace =>
      rw [decide_eq_true_iff, not_iff_not, List.length_eq_zero_iff]
      cases text with
      | nil => simp
      | cons first rest =>
          have shorter : (first :: rest).dropLast ≠ first :: rest := by
            intro same
            have lengths := congrArg List.length same
            simp at lengths
          simp [shorter]
    next =>
      split
      next newline =>
        have longer : text ++ QString.ofString "\n" ≠ text := by
          intro same
          exact absurd (List.append_right_eq_self.mp same) (by decide)
        simp [longer, newline]
      next other =>
        rcases not_or.mp other with ⟨notReturn, notEnter⟩
        simp [notReturn, notEnter]

/-- Presses that leave their traces one after the other, behind a text that is there
already. -/
def AllLeaveTraces (target : Target) : QString → List Item → Prop
  | _, [] => True
  | text, press :: rest =>
      LeavesTrace target text press ∧
        AllLeaveTraces target (typeKey press.parameters.toMap text) rest

theorem allLeaveTraces_iff (target : Target) (text : QString) (presses : List Item) :
    AllLeaveTraces target text presses ↔ ∀ front press back, presses = front ++ press :: back →
      LeavesTrace target
        (front.foldl (fun text press => typeKey press.parameters.toMap text) text) press := by
  induction presses generalizing text with
  | nil =>
      constructor
      · intro _ front press back impossible
        simp at impossible
      · intro _
        exact trivial
  | cons first rest ih =>
      rw [AllLeaveTraces, ih]
      constructor
      · rintro ⟨isFirst, later⟩ front press back shape
        cases front with
        | nil =>
            cases shape
            exact isFirst
        | cons other front =>
            cases shape
            exact later front press back rfl
      · intro all
        constructor
        · exact all [] first rest rfl
        · intro front press back shape
          exact all (first :: front) press back (by rw [shape]; rfl)

/-! ## One run of typing -/

theorem not_isPress_of_isSleep {item : Item} (isSleep : item.isSleep = true) :
    isPress item = false := by
  rw [isPress, of_decide_eq_true isSleep]
  decide

theorem typesCleanly_of_not_plain {event : Item}
    (held : isPlain event.parameters.toMap = false) (run : Option (Target × Nat))
    (following : List Item) :
    TypesCleanly run (event :: following) ↔ TypesCleanly none following := by
  rw [TypesCleanly]
  simp [merges, held]

theorem typesCleanly_of_not_merges {event : Item} (press : isPress event = true)
    {target : Target} {following : List Item} (kept : merges target event following = false)
    (count : Nat) :
    TypesCleanly (some (target, count)) (event :: following) ↔ TypesCleanly none following := by
  rw [TypesCleanly]
  simp [press, kept]

theorem typesCleanly_of_merges {event : Item} (press : isPress event = true)
    {target : Target} {following : List Item} (merged : merges target event following = true)
    (count : Nat) :
    TypesCleanly (some (target, count)) (event :: following) ↔
      (isShift event = true ∨ event.target = target ∧ types event count = true) ∧
        TypesCleanly (some (target, countTyped event count)) following := by
  rw [TypesCleanly]
  simp [press, merged]

theorem typesCleanly_of_release {event : Item} (notPress : isPress event = false)
    (release : isRelease event = true) (plain : isPlain event.parameters.toMap = true)
    (run : Option (Target × Nat)) (following : List Item) :
    TypesCleanly run (event :: following) ↔ TypesCleanly run following := by
  rw [TypesCleanly]
  simp [notPress, release, plain]

theorem typesCleanly_of_other {event : Item} (notKey : event.isKey = false)
    (run : Option (Target × Nat)) (following : List Item) :
    TypesCleanly run (event :: following) ↔ TypesCleanly none following := by
  rw [Item.isKey, Bool.or_eq_false_iff] at notKey
  rw [TypesCleanly]
  simp [notKey]

/-- A press on its own starts a run on its own target. -/
theorem typesCleanly_none {event : Item} (press : isPress event = true)
    (following : List Item) :
    TypesCleanly none (event :: following) ↔
      TypesCleanly (some (event.target, 0)) (event :: following) := by
  rw [TypesCleanly, TypesCleanly]
  simp [press]

section

variable {target : Target} {iterator sleep next : Item} {text : QString} {msec : Item}
  {input rest : List Item}

theorem collect_of_not_plain (held : isPlain iterator.parameters.toMap = false) :
    collect target iterator text msec input = .ok ⟨iterator, text, msec, input⟩ := by
  rw [collect.eq_def]
  simp [held]

theorem collect_of_not_merges (press : isPress iterator = true) {later : List Item}
    (kept : merges target iterator (next :: later) = false) :
    collect target iterator text msec (sleep :: next :: rest) =
      .ok ⟨iterator, text, msec, sleep :: next :: rest⟩ := by
  cases plain : isPlain iterator.parameters.toMap with
  | false => exact collect_of_not_plain plain
  | true =>
      have other : ¬((isRelease next = true ∨ isPress next = true) ∧ next.target = target) := by
        simp only [merges, plain, Bool.true_and, Item.isKey] at kept
        rintro ⟨key, sameTarget⟩
        rw [← Bool.or_eq_true_iff, Bool.or_comm] at key
        simp [key, sameTarget] at kept
      rw [collect.eq_def]
      simp [plain, press, other]

theorem collect_of_merges (press : isPress iterator = true) {later : List Item}
    (merged : merges target iterator (next :: later) = true) :
    collect target iterator text msec (sleep :: next :: rest) =
      collect target next (typeKey iterator.parameters.toMap text) sleep rest := by
  simp only [merges, Bool.and_eq_true, decide_eq_true_eq] at merged
  rcases merged with ⟨plain, key, sameTarget⟩
  have key : isPress next = true ∨ isRelease next = true := Bool.or_eq_true_iff.mp key
  have swapped : isRelease next = true ∨ isPress next = true := key.symm
  conv_lhs => rw [collect.eq_def]
  simp [plain, press, key, swapped, sameTarget]

theorem collect_of_release (notPress : isPress iterator = false)
    (plain : isPlain iterator.parameters.toMap = true) (key : next.isKey = true) :
    collect target iterator text msec (sleep :: next :: rest) =
      collect target next text sleep rest := by
  have key : isPress next = true ∨ isRelease next = true := Bool.or_eq_true_iff.mp key
  conv_lhs => rw [collect.eq_def]
  simp [plain, notPress, key]

theorem collect_of_other (notPress : isPress iterator = false)
    (plain : isPlain iterator.parameters.toMap = true) (notKey : next.isKey = false) :
    collect target iterator text msec (sleep :: next :: rest) =
      .ok ⟨next, text, sleep, rest⟩ := by
  rw [Item.isKey, Bool.or_eq_false_iff] at notKey
  rw [collect.eq_def]
  simp [plain, notPress, notKey]

end

/-- What the loop makes of a key event and the recording behind it. -/
structure Collects (target : Target) (iterator : Item) (text : QString) (msec : Item)
    (input : List Item) (run : Run) (taken : List Item) : Prop where
  collected : collect target iterator text msec input = .ok run
  isRecording : IsRecording run.rest
  split : iterator :: input = taken ++ run.iterator :: run.rest
  typed : run.text =
    (taken.filter isPress).foldl (fun text press => typeKey press.parameters.toMap text) text
  atHand : (text ≠ [] → msec.isSleep = true) → run.text ≠ [] → run.msec.isSleep = true
  cleanly : TypesCleanly (some (target, text.length)) (iterator :: eventsOf input) ↔
    AllLeaveTraces target text (taken.filter isPress) ∧ TypesCleanly none (eventsOf run.rest)

/-- The loop can end at its first event. -/
theorem Collects.stop {target : Target} {iterator : Item} {text : QString} {msec : Item}
    {input : List Item}
    (collected : collect target iterator text msec input = .ok ⟨iterator, text, msec, input⟩)
    (isRecording : IsRecording input)
    (walk : TypesCleanly (some (target, text.length)) (iterator :: eventsOf input) ↔
      TypesCleanly none (eventsOf input)) :
    Collects target iterator text msec input ⟨iterator, text, msec, input⟩ [] := by
  constructor
  · exact collected
  · exact isRecording
  · rfl
  · rfl
  · intro atHand hasText
    exact atHand hasText
  · rw [walk]
    exact (true_and _).symm.to_iff

section

variable {target : Target} {iterator event : Item} {text : QString} {msec : Item} {duration : Int32}
  {rest : List Item}

theorem isPress_sleep (duration : Int32) : isPress (.ofMethod "msleep" (.int duration)) = false :=
  not_isPress_of_isSleep rfl

/-- A press goes on to the next event, if that is typed too. -/
theorem Collects.press (press : isPress iterator = true)
    (merged : merges target iterator (event :: eventsOf rest) = true) {run : Run}
    {taken : List Item}
    (further : Collects target event (typeKey iterator.parameters.toMap text)
      (.ofMethod "msleep" (.int duration)) rest run taken) :
    Collects target iterator text msec (.ofMethod "msleep" (.int duration) :: event :: rest) run
      (iterator :: .ofMethod "msleep" (.int duration) :: taken) := by
  have presses : (iterator :: .ofMethod "msleep" (.int duration) :: taken).filter isPress =
      iterator :: taken.filter isPress := by
    simp [press, isPress_sleep]
  constructor
  · rw [collect_of_merges press merged]
    exact further.collected
  · exact further.isRecording
  · rw [further.split]
    rfl
  · rw [presses, further.typed, List.foldl_cons]
  · intro _
    exact further.atHand fun _ => rfl
  · rw [presses, eventsOf, typesCleanly_of_merges press merged, ← length_typeKey,
      further.cleanly, AllLeaveTraces, leavesTrace_iff, and_assoc]

/-- A release goes on to the next event, if that is of a key. -/
theorem Collects.release (notPress : isPress iterator = false)
    (release : isRelease iterator = true) (plain : isPlain iterator.parameters.toMap = true)
    (eventKey : event.isKey = true) {run : Run} {taken : List Item}
    (further : Collects target event text (.ofMethod "msleep" (.int duration)) rest run taken) :
    Collects target iterator text msec (.ofMethod "msleep" (.int duration) :: event :: rest) run
      (iterator :: .ofMethod "msleep" (.int duration) :: taken) := by
  have presses : (iterator :: .ofMethod "msleep" (.int duration) :: taken).filter isPress =
      taken.filter isPress := by
    simp [notPress, isPress_sleep]
  constructor
  · rw [collect_of_release notPress plain eventKey]
    exact further.collected
  · exact further.isRecording
  · rw [further.split]
    rfl
  · rw [presses, further.typed]
  · intro _
    exact further.atHand fun _ => rfl
  · rw [presses, eventsOf, typesCleanly_of_release notPress release plain, further.cleanly]

/-- A release ends the loop at the next event, if that is not of a key. -/
theorem Collects.other (notPress : isPress iterator = false)
    (release : isRelease iterator = true) (plain : isPlain iterator.parameters.toMap = true)
    (eventKey : event.isKey = false) (isRecording : IsRecording rest) :
    Collects target iterator text msec (.ofMethod "msleep" (.int duration) :: event :: rest)
      ⟨event, text, .ofMethod "msleep" (.int duration), rest⟩
      [iterator, .ofMethod "msleep" (.int duration)] := by
  have presses : [iterator, .ofMethod "msleep" (.int duration)].filter isPress = [] := by
    simp [notPress, isPress_sleep]
  constructor
  · exact collect_of_other notPress plain eventKey
  · exact isRecording
  · rfl
  · rw [presses, List.foldl_nil]
  · intro _ _
    rfl
  · rw [presses, eventsOf, typesCleanly_of_release notPress release plain,
      typesCleanly_of_other eventKey, AllLeaveTraces, true_and]

end

theorem exists_collects (target : Target) {iterator : Item} (isKey : iterator.isKey = true)
    (text : QString) (msec : Item) {input : List Item} (isRecording : IsRecording input) :
    ∃ run taken, Collects target iterator text msec input run taken := by
  induction isRecording generalizing iterator text msec with
  | nil =>
      refine ⟨_, _, Collects.stop ?_ .nil ?_⟩
      · rw [collect.eq_def]
        simp
      · cases plain : isPlain iterator.parameters.toMap with
        | false => exact typesCleanly_of_not_plain plain _ _
        | true =>
            cases press : isPress iterator with
            | true =>
                exact typesCleanly_of_not_merges press (by simp [merges, eventsOf]) _
            | false =>
                rw [Item.isKey, press, Bool.false_or] at isKey
                rw [typesCleanly_of_release press isKey plain]
                simp [TypesCleanly, eventsOf]
  | @pair duration event rest isEvent isRecording ih =>
      have recorded := IsRecording.pair duration isEvent isRecording
      cases press : isPress iterator with
      | true =>
          cases merged : merges target iterator (event :: eventsOf rest) with
          | false =>
              exact ⟨_, _, Collects.stop (collect_of_not_merges press merged) recorded
                (typesCleanly_of_not_merges press merged _)⟩
          | true =>
              have eventKey : event.isKey = true := by
                simp only [merges, Bool.and_eq_true] at merged
                exact merged.2.1
              rcases ih eventKey (typeKey iterator.parameters.toMap text)
                (.ofMethod "msleep" (.int duration)) with ⟨run, taken, further⟩
              exact ⟨run, _, further.press press merged⟩
      | false =>
          cases plain : isPlain iterator.parameters.toMap with
          | false =>
              exact ⟨_, _, Collects.stop (collect_of_not_plain plain) recorded
                (typesCleanly_of_not_plain plain _ _)⟩
          | true =>
              have release : isRelease iterator = true := by
                rw [Item.isKey, press, Bool.false_or] at isKey
                exact isKey
              cases eventKey : event.isKey with
              | true =>
                  rcases ih eventKey text (.ofMethod "msleep" (.int duration)) with
                    ⟨run, taken, further⟩
                  exact ⟨run, _, further.release press release plain eventKey⟩
              | false =>
                  exact ⟨_, _, Collects.other press release plain eventKey isRecording⟩

/-! ## The calls of the pass -/

theorem accountsFor_unchanged (item : Item) (following : List Item) :
    AccountsFor (.unchanged item following) := by
  constructor
  · rw [Call.consumed_unchanged]
    rfl
  · rw [Call.absorbed_unchanged]
    rfl
  · intro front press back impossible
    rw [Call.absorbed_unchanged] at impossible
    simp at impossible

/-- The call for a press that starts a run. -/
def runCall (item : Item) (following : List Item) (run : Run) : Call :=
  ⟨item, following, ⟨run.iterator, run.rest,
    if run.text ≠ [] then
      [(sendText item run.text, .beforeCurrentItem), (run.msec, .beforeCurrentItem)]
    else
      []⟩⟩

section

variable {item : Item} {following : List Item} {run : Run} {taken : List Item}

theorem consumed_runCall (collects : Collects item.target item [] .empty following run taken) :
    (runCall item following run).consumed = taken ++ [run.iterator] :=
  Call.consumed_of_eq taken collects.split

theorem absorbed_runCall (collects : Collects item.target item [] .empty following run taken) :
    (runCall item following run).absorbed = taken.filter isPress := by
  rw [Call.absorbed, consumed_runCall collects, List.dropLast_concat]

theorem typedText_runCall (collects : Collects item.target item [] .empty following run taken) :
    typedText (runCall item following run).absorbed = run.text := by
  rw [absorbed_runCall collects, collects.typed, typedText]

/-- Such a call always sends what it absorbed; whether each press left its trace is
up to the recording. -/
theorem accountsFor_runCall
    (collects : Collects item.target item [] .empty following run taken) :
    AccountsFor (runCall item following run) ↔
      AllLeaveTraces item.target [] (taken.filter isPress) := by
  have consumed := consumed_runCall collects
  have absorbed := absorbed_runCall collects
  have typed := typedText_runCall collects
  rw [allLeaveTraces_iff]
  constructor
  · intro accounts front press back shape
    exact accounts.traces front press back (absorbed.trans shape)
  · intro traces
    constructor
    · rw [consumed, List.getLast?_concat]
      rfl
    · rw [typed]
      by_cases hasText : run.text = []
      · simp [runCall, hasText]
      · have isSleep := collects.atHand (fun impossible => absurd rfl impossible) hasText
        have other : run.msec.method ≠ QString.ofString "sendText" := by
          rw [of_decide_eq_true isSleep]
          decide
        have isText : (sendText item run.text).method = QString.ofString "sendText" := rfl
        simp [runCall, hasText, other, isText]
    · intro front press back shape
      exact traces front press back (absorbed.symm.trans shape)

theorem process_press (press : isPress item = true)
    (collects : Collects item.target item [] .empty following run taken) :
    process item following = .ok (runCall item following run).outcome := by
  rw [process, if_pos press, collects.collected]
  rfl

end

theorem process_other {item : Item} (notPress : isPress item = false) (following : List Item) :
    process item following = .ok (Call.unchanged item following).outcome := by
  rw [process, if_neg (by simp [notPress])]
  rfl

theorem calls_of_process (call : Call) {later : List Call}
    (processed : process call.item call.following = .ok call.outcome)
    (completes : simplifyStrings.calls () call.outcome.rest = .ok later) :
    simplifyStrings.calls () (call.item :: call.following) = .ok (call :: later) := by
  have processed : simplifyStrings.process () call.item call.following =
      .ok ((), call.outcome) := by
    change (process call.item call.following).map _ = _
    rw [processed]
    rfl
  rw [simplifyStrings.calls_cons_ok processed, completes]
  rfl

/-- The calls of the pass on a recording: it hands over each sleep, and each event that no
run before it took. -/
inductive RecordedCalls : List Item → List Call → Prop where
  | nil : RecordedCalls [] []
  | press (duration : Int32) {event : Item} {rest : List Item} {run : Run} {taken : List Item}
      {calls : List Call} (press : isPress event = true)
      (collects : Collects event.target event [] .empty rest run taken)
      (later : RecordedCalls run.rest calls) :
      RecordedCalls (.ofMethod "msleep" (.int duration) :: event :: rest)
        (.unchanged (.ofMethod "msleep" (.int duration)) (event :: rest) ::
          runCall event rest run :: calls)
  | other (duration : Int32) {event : Item} {rest : List Item} {calls : List Call}
      (isEvent : IsEvent event) (notPress : isPress event = false)
      (later : RecordedCalls rest calls) :
      RecordedCalls (.ofMethod "msleep" (.int duration) :: event :: rest)
        (.unchanged (.ofMethod "msleep" (.int duration)) (event :: rest) ::
          .unchanged event rest :: calls)

/-- On a recording the pass completes. -/
theorem exists_recordedCalls {items : List Item} (isRecording : IsRecording items) :
    ∃ calls, RecordedCalls items calls := by
  induction size : items.length using Nat.strong_induction_on generalizing items with
  | _ size ih =>
      subst size
      cases isRecording with
      | nil => exact ⟨[], .nil⟩
      | @pair duration event rest isEvent isRecording =>
          cases press : isPress event with
          | true =>
              have eventKey : event.isKey = true := by simp [Item.isKey, press]
              rcases exists_collects event.target eventKey [] .empty isRecording with
                ⟨run, taken, collects⟩
              have shorter : run.rest.length < (Item.ofMethod "msleep" (.int duration) ::
                  event :: rest).length := by
                have lengths := congrArg List.length collects.split
                simp only [List.length_cons, List.length_append] at lengths ⊢
                omega
              rcases ih _ shorter collects.isRecording rfl with ⟨calls, later⟩
              exact ⟨_, .press duration press collects later⟩
          | false =>
              have shorter : rest.length < (Item.ofMethod "msleep" (.int duration) ::
                  event :: rest).length := by
                simp only [List.length_cons]
                omega
              rcases ih _ shorter isRecording rfl with ⟨calls, later⟩
              exact ⟨_, .other duration isEvent press later⟩

/-- The calls on a list take its items in order, and they account for all presses
exactly when the events type cleanly. -/
structure Accounted (items : List Item) (events : List Item) (calls : List Call) : Prop where
  completes : simplifyStrings.calls () items = .ok calls
  consumed : calls.flatMap Call.consumed = items
  accounts : (∀ call ∈ calls, AccountsFor call) ↔ TypesCleanly none events

theorem Accounted.unchanged {item : Item} {following events : List Item} {calls : List Call}
    (accounted : Accounted following events calls) (notPress : isPress item = false) :
    Accounted (item :: following) events (.unchanged item following :: calls) := by
  constructor
  · exact calls_of_process (.unchanged item following) (process_other notPress following)
      accounted.completes
  · rw [List.flatMap_cons, Call.consumed_unchanged, accounted.consumed, List.singleton_append]
  · rw [List.forall_mem_cons, accounted.accounts]
    exact and_iff_right (accountsFor_unchanged item following)

theorem Accounted.press {item : Item} {following : List Item} {run : Run}
    {taken : List Item} {calls : List Call}
    (accounted : Accounted run.rest (eventsOf run.rest) calls) (press : isPress item = true)
    (collects : Collects item.target item [] .empty following run taken) :
    Accounted (item :: following) (item :: eventsOf following)
      (runCall item following run :: calls) := by
  have consumed := consumed_runCall collects
  have walk := collects.cleanly
  rw [List.length_nil] at walk
  constructor
  · exact calls_of_process (runCall item following run) (process_press press collects)
      accounted.completes
  · rw [List.flatMap_cons, accounted.consumed, consumed, List.append_assoc,
      List.singleton_append, ← collects.split]
  · rw [List.forall_mem_cons, accounted.accounts, accountsFor_runCall collects,
      typesCleanly_none press, walk]

/-- On a recording the pass accounts for all presses exactly when the recording types
cleanly. -/
theorem RecordedCalls.accounted {items : List Item} {calls : List Call}
    (recorded : RecordedCalls items calls) : Accounted items (eventsOf items) calls := by
  induction recorded with
  | nil => exact ⟨simplifyStrings.calls_nil (), rfl, by simp [eventsOf, TypesCleanly]⟩
  | press duration press collects _ ih =>
      exact (ih.press press collects).unchanged (not_isPress_of_isSleep rfl)
  | @other duration event rest calls isEvent notPress _ ih =>
      have further := ih.unchanged notPress
      have walk : TypesCleanly none (event :: eventsOf rest) ↔
          TypesCleanly none (eventsOf rest) := by
        cases eventKey : event.isKey with
        | false => exact typesCleanly_of_other eventKey none _
        | true =>
            rw [Item.isKey, notPress, Bool.false_or] at eventKey
            cases plain : isPlain event.parameters.toMap with
            | false => exact typesCleanly_of_not_plain plain none _
            | true => exact typesCleanly_of_release notPress eventKey plain none _
      have events : Accounted (event :: rest) (event :: eventsOf rest)
          (.unchanged event rest :: calls) :=
        ⟨further.completes, further.consumed, further.accounts.trans walk.symm⟩
      exact events.unchanged (not_isPress_of_isSleep rfl)

/-- Every press of a recording is accounted for exactly when the recording types
cleanly. -/
theorem accountsFor_iff_typesCleanly {items : List Item} (isRecording : IsRecording items) :
    ∃ calls, simplifyStrings.calls () items = .ok calls ∧
      calls.flatMap Call.consumed = items ∧
      ((∀ call ∈ calls, AccountsFor call) ↔ TypesCleanly none (eventsOf items)) := by
  rcases exists_recordedCalls isRecording with ⟨calls, recorded⟩
  have accounted := recorded.accounted
  exact ⟨calls, accounted.completes, accounted.consumed, accounted.accounts⟩

/-! ## A tabulator that disappears -/

/-- A key event on a line edit, with the text that the recorder writes for it. -/
def keyEvent (method : QString) (key : Int32) (text : QString) : Item :=
  ⟨.path "window::edit", "QLineEdit", method,
    .map (.entry "key" (.key key) (.entry "modifiers" (.keyboardModifiers 0)
      (.entry "text" (.string text) .empty)))⟩

def recordingOf (events : List Item) : List Item :=
  events.flatMap fun event => [.ofMethod "msleep" (.int 10), event]

def tabRecording : List Item :=
  recordingOf [keyEvent "pressKey" 0x01000001 [], keyEvent "releaseKey" 0x01000001 []]

def letterRecording : List Item :=
  recordingOf [keyEvent "pressKey" 0x41 "a", keyEvent "releaseKey" 0x41 "a"]

/-- Every press of a letter is accounted for. -/
theorem letterRecording_accountsFor :
    ∃ calls, simplifyStrings.calls () letterRecording = .ok calls ∧
      calls.flatMap Call.consumed = letterRecording ∧ ∀ call ∈ calls, AccountsFor call := by
  have isRecording : IsRecording letterRecording := by
    apply IsRecording.pair 10 ⟨by decide, _, rfl⟩
    apply IsRecording.pair 10 ⟨by decide, _, rfl⟩
    exact .nil
  rcases accountsFor_iff_typesCleanly isRecording with ⟨calls, completes, consumed, accounts⟩
  refine ⟨calls, completes, consumed, accounts.mpr ?_⟩
  rw [letterRecording, recordingOf]
  simp only [List.flatMap_cons, List.flatMap_nil, List.cons_append, List.nil_append, eventsOf]
  have press : isPress (keyEvent "pressKey" 0x41 "a") = true := by decide
  have merged : merges (keyEvent "pressKey" 0x41 "a").target (keyEvent "pressKey" 0x41 "a")
      [keyEvent "releaseKey" 0x41 "a"] = true := by decide
  rw [typesCleanly_none press, typesCleanly_of_merges press merged]
  constructor
  · right
    decide
  · rw [typesCleanly_of_release (by decide) (by decide) (by decide)]
    trivial

/-- The press of the tabulator is absorbed into no text. -/
theorem tabRecording_not_accountsFor :
    ¬∀ items, IsRecording items →
      ∃ calls, simplifyStrings.calls () items = .ok calls ∧ ∀ call ∈ calls, AccountsFor call := by
  intro all
  have isRecording : IsRecording tabRecording := by
    apply IsRecording.pair 10 ⟨by decide, _, rfl⟩
    apply IsRecording.pair 10 ⟨by decide, _, rfl⟩
    exact .nil
  rcases all tabRecording isRecording with ⟨calls, completes, accounts⟩
  have made : (simplifyStrings.calls () tabRecording).toOption.map
      (List.map fun call => (call.absorbed, call.item.target)) =
        some [([], .null), ([keyEvent "pressKey" 0x01000001 []], .path "window::edit")] := by
    decide +kernel
  rw [completes] at made
  rcases List.map_eq_cons_iff.mp (Option.some.inj made) with ⟨_, later, isCalls, _, rest⟩
  rcases List.map_eq_singleton_iff.mp rest with ⟨call, isLater, absorbed⟩
  have isCall : call ∈ calls := by
    rw [isCalls, isLater]
    exact List.mem_cons_of_mem _ List.mem_cons_self
  have trace := (accounts call isCall).traces [] _ [] (congrArg Prod.fst absorbed)
  rw [leavesTrace_iff] at trace
  rcases trace with shift | ⟨_, typed⟩
  · exact absurd shift (by decide)
  · exact absurd typed (by decide)

end SimplifyStrings

end Hooq
