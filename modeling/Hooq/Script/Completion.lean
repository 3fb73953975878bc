import Hooq.Script.Survival

/-!
# Which recordings compile

Whether the post-processors that a set of options enables get through a recording.
Two of them can run off the end of their list: the first one behind an event on an
internal widget, and the loop over typed keys behind dropped movements.
-/

namespace Hooq

open Library.Spacing

/-! ## Passes and what every item keeps -/

/-- What holds of all items that a call is given holds of those that it emits and
inserts. -/
def PostProcessor.Preserves (processor : PostProcessor) (Good : Item → Prop) : Prop :=
  ∀ state item input next outcome, processor.process state item input = .ok (next, outcome) →
    (∀ other ∈ item :: input, Good other) →
    (∀ other ∈ outcome.emitted, Good other) ∧
      ∀ insertion ∈ outcome.insertions, Good insertion.1

theorem PostProcessor.Preserves.run {processor : PostProcessor} {Good : Item → Prop}
    (preserves : processor.Preserves Good) {state : processor.State} {input list : List Item}
    {final : Inserter Item}
    (completes : processor.run state input (Inserter.new list).clear = .ok final)
    (good : ∀ item ∈ input, Good item) : ∀ item ∈ final.rootList, Good item := by
  have start : (∀ item ∈ (Inserter.new list).clear.rootList, Good item) ∧
      ∀ item ∈ input, Good item :=
    ⟨fun _ impossible => absurd impossible List.not_mem_nil, good⟩
  have invariant := processor.run_invariant
    (fun _ inserter remaining => (∀ item ∈ inserter.rootList, Good item) ∧
      ∀ item ∈ remaining, Good item)
    (by
      rintro state inserter item remaining next outcome processed ⟨emitted, remains⟩
      rcases preserves state item remaining next outcome processed remains with
        ⟨emits, inserts⟩
      constructor
      · rw [outcome.rootList_perform]
        intro other member
        rcases List.mem_append.mp member with old | isNew
        · refine Inserter.insertAll_keeps (fun items => ∀ item ∈ items, Good item) ?_ emitted
            other old
          intro insertion isInsertion items index goods one isOne
          rcases mem_insertAt.mp isOne with isThis | older
          · rw [isThis]
            exact inserts insertion isInsertion
          · exact goods one older
        · exact emits other isNew
      · intro other member
        exact remains other
          (List.mem_cons_of_mem _ ((processor.process_suffix processed).mem member)))
    start completes
  rcases invariant with ⟨_, emitted, _⟩
  exact emitted

/-- A call emits the item that it leaves behind, or nothing. -/
theorem Outcome.mem_emitted {outcome : Outcome} {item : Item}
    (member : item ∈ outcome.emitted) : item = outcome.iterator := by
  rw [emitted] at member
  split at member
  · exact List.mem_singleton.mp member
  · cases member

/-- If the item sends a text, the text is there. -/
def HasText (item : Item) : Prop :=
  item.method = QString.ofString "sendText" → ∃ text, item.parameters = .string text

/-- The item is as it was before variables are introduced. -/
structure IsReady (item : Item) : Prop where
  target : ∀ name, item.target ≠ .variable name
  text : HasText item

theorem IsRecording.isReady {items : List Item} (isRecording : IsRecording items) :
    ∀ item ∈ items, IsReady item := by
  have events : ∀ method ∈ eventMethods, method ≠ QString.ofString "sendText" := by decide
  have noText : ∀ item ∈ items, item.method ≠ QString.ofString "sendText" := by
    induction isRecording with
    | nil =>
        intro item member
        cases member
    | pair duration isEvent isRecording ih =>
        intro item member
        rcases List.mem_cons.mp member with isFirst | member
        · rw [isFirst]
          change QString.ofString "msleep" ≠ QString.ofString "sendText"
          decide
        · rcases List.mem_cons.mp member with isSecond | member
          · rw [isSecond]
            exact events _ isEvent.method
          · exact ih item member
  intro item member
  constructor
  · exact isRecording.not_variable item member
  · intro isText
    exact absurd isText (noText item member)

/-! ## SimplifyMouseMovements -/

theorem SimplifyMouseMovements.collect_iterator_suffix (target : Target) (iterator : Item)
    (parameters : QVariantMap) (duration : Int32) (input : List Item) :
    (collect target iterator parameters duration input).iterator ::
      (collect target iterator parameters duration input).rest <:+ iterator :: input := by
  fun_induction collect target iterator parameters duration input with
  | case1 => exact List.suffix_rfl
  | case2 iterator parameters duration msec => exact List.suffix_cons iterator [msec]
  | case3 iterator parameters duration msec next rest =>
      exact List.suffix_cons iterator (msec :: next :: rest)
  | case4 iterator parameters duration msec next rest _ _ ih =>
      exact ih.trans ⟨[iterator, msec], rfl⟩

/-- A call leaves everything as it is, or inserts a movement and leaves a part of its
list. -/
theorem SimplifyMouseMovements.process_shape (item : Item) (input : List Item) :
    ((process item input).iterator :: (process item input).rest <:+ item :: input) ∧
      (process item input = .unchanged item input ∨
        item.method = QString.ofString "moveMouse" ∧ ∃ simplified : Item,
          (process item input).insertions = [(simplified, .beforeCurrentItem)] ∧
          simplified.target = item.target ∧
          simplified.method = QString.ofString "moveMouse") := by
  rw [process]
  split
  next isMove =>
    constructor
    · exact collect_iterator_suffix _ _ _ _ _
    · right
      exact ⟨isMove, _, rfl, rfl, rfl⟩
  next =>
    constructor
    · exact List.suffix_rfl
    · left
      rfl

/-- What a movement takes over from another one is kept. -/
theorem simplifyMouseMovements_preserves_of {Good : Item → Prop}
    (moves : ∀ item simplified : Item, Good item → simplified.target = item.target →
      simplified.method = QString.ofString "moveMouse" → Good simplified) :
    simplifyMouseMovements.Preserves Good := by
  intro state item input next outcome processed good
  cases processed
  rcases SimplifyMouseMovements.process_shape item input with ⟨suffix, insertions⟩
  constructor
  · intro other member
    rw [Outcome.mem_emitted member]
    exact good _ (suffix.mem List.mem_cons_self)
  · rcases insertions with unchanged | ⟨_, simplified, inserted, sameTarget, isMove⟩
    · rw [unchanged]
      intro insertion impossible
      cases impossible
    · rw [inserted]
      intro insertion member
      rw [List.mem_singleton.mp member]
      exact moves item simplified (good item List.mem_cons_self) sameTarget isMove

theorem simplifyMouseMovements_preserves : simplifyMouseMovements.Preserves IsReady := by
  apply simplifyMouseMovements_preserves_of
  intro item simplified ready sameTarget isMove
  constructor
  · rw [sameTarget]
    exact ready.target
  · intro isText
    rw [isMove] at isText
    exact absurd isText (by decide)

/-! ## SimplifyStrings -/

namespace SimplifyStrings

theorem collect_origin {target : Target} {iterator : Item} {text : QString} {msec : Item}
    {input : List Item} {run : Run}
    (collected : collect target iterator text msec input = .ok run) :
    run.iterator ∈ iterator :: input ∧ (run.msec = msec ∨ run.msec ∈ input) := by
  fun_induction collect target iterator text msec input with
  | case1 | case2 | case3 | case5 =>
      cases collected
      exact ⟨List.mem_cons_self, .inl rfl⟩
  | case4 => cases collected
  | case6 iterator text msec parameters _ sleep next rest _ _ _ ih =>
      rcases ih collected with ⟨isIterator, isMsec⟩
      constructor
      · exact List.mem_cons_of_mem _ (List.mem_cons_of_mem _ isIterator)
      · right
        rcases isMsec with isSleep | later
        · rw [isSleep]
          exact List.mem_cons_self
        · exact List.mem_cons_of_mem _ (List.mem_cons_of_mem _ later)
  | case7 iterator text msec parameters _ sleep next rest =>
      cases collected
      exact ⟨List.mem_cons_of_mem _ (List.mem_cons_of_mem _ List.mem_cons_self),
        .inr List.mem_cons_self⟩

end SimplifyStrings

/-- What a text takes over from the item that begins it is kept. -/
theorem simplifyStrings_preserves_of {Good : Item → Prop} (empty : Good .empty)
    (sends : ∀ item text, Good item → Good (SimplifyStrings.sendText item text)) :
    simplifyStrings.Preserves Good := by
  intro state item input next outcome processed good
  have processed := ofProcess_ok processed
  rcases SimplifyStrings.process_ok processed with ⟨_, rfl⟩ | ⟨_, run, collected, rfl⟩
  · constructor
    · intro other member
      rw [Outcome.mem_emitted member]
      exact good item List.mem_cons_self
    · intro insertion impossible
      cases impossible
  · rcases SimplifyStrings.collect_origin collected with ⟨isIterator, isMsec⟩
    constructor
    · intro other member
      rw [Outcome.mem_emitted member]
      exact good _ isIterator
    · intro insertion member
      simp only at member
      split at member
      · rcases List.mem_cons.mp member with isText | isSleep
        · rw [isText]
          exact sends item run.text (good item List.mem_cons_self)
        · rw [List.mem_singleton.mp isSleep]
          rcases isMsec with isEmpty | later
          · rw [isEmpty]
            exact empty
          · exact good _ (List.mem_cons_of_mem _ later)
      · cases member

theorem simplifyStrings_preserves : simplifyStrings.Preserves IsReady := by
  apply simplifyStrings_preserves_of
  · exact ⟨fun _ => Target.noConfusion, fun isText => absurd isText (by decide)⟩
  · exact fun item text ready => ⟨ready.target, fun _ => ⟨text, rfl⟩⟩

/-- No release stands directly before the last item. -/
def HasRoom (items : List Item) : Prop :=
  ∀ item last, [item, last] <:+ items → SimplifyStrings.isRelease item = false

theorem HasRoom.of_suffix {items part : List Item} (room : HasRoom items)
    (suffix : part <:+ items) : HasRoom part := by
  intro item last ending
  exact room item last (ending.trans suffix)

namespace SimplifyStrings

/-- With room behind every release the loop never runs off the list. -/
theorem exists_collect {target : Target} {iterator : Item} {text : QString} {msec : Item}
    {input : List Item} (room : HasRoom (iterator :: input)) (key : iterator.isKey = true) :
    ∃ run, collect target iterator text msec input = .ok run := by
  fun_induction collect target iterator text msec input with
  | case1 | case2 | case3 | case5 | case7 => exact ⟨_, rfl⟩
  | case4 iterator text msec parameters plain only notPress =>
      have notRelease := room iterator only List.suffix_rfl
      rw [Item.isKey, notRelease, Bool.or_false] at key
      exact absurd key notPress
  | case6 iterator text msec parameters _ sleep next rest _ _ nextKey ih =>
      exact ih (room.of_suffix ⟨[iterator, sleep], rfl⟩) (Bool.or_eq_true_iff.mpr nextKey)

theorem completes_of_hasRoom {items : List Item} (room : HasRoom items) : Completes items := by
  induction size : items.length using Nat.strong_induction_on generalizing items with
  | _ size ih =>
      subst size
      cases items with
      | nil => exact completes_nil
      | cons item rest =>
          cases press : isPress item with
          | false =>
              rw [completes_cons_of_not_press press]
              exact ih _ (Nat.lt_succ_self _) (room.of_suffix (List.suffix_cons item rest)) rfl
          | true =>
              have key : item.isKey = true := by rw [Item.isKey, press, Bool.true_or]
              have found : ∃ run, collect item.target item [] .empty rest = .ok run :=
                exists_collect room key
              rcases found with ⟨run, collected⟩
              have suffix := collect_suffix collected
              rw [completes_cons_of_press press, resumes_of_collect collected]
              exact ih _ (Nat.lt_succ_of_le suffix.length_le)
                (room.of_suffix (suffix.trans (List.suffix_cons item rest))) rfl

end SimplifyStrings

theorem simplifyStrings_run_iff (input list : List Item) :
    (∃ final, simplifyStrings.run () input (Inserter.new list).clear = .ok final) ↔
      SimplifyStrings.Completes input := by
  have ran := simplifyStrings.run_eq_calls () input (Inserter.new list).clear
  rw [ran, SimplifyStrings.Completes]
  cases simplifyStrings.calls () input with
  | error fault => simp [Except.map]
  | ok calls => simp [Except.map]

/-! ## The variables -/

theorem ObjectVariables.exists_process (isLetterOrNumber : QChar → Bool) (known : Variables)
    {item : Item} (plain : ∀ name, item.target ≠ .variable name) (input : List Item) :
    ∃ next outcome, process isLetterOrNumber known item input = .ok (next, outcome) := by
  rw [process]
  cases isTarget : item.target with
  | null => exact ⟨_, _, rfl⟩
  | «variable» name => exact absurd isTarget (plain name)
  | path target =>
      simp only
      split
      · exact ⟨_, _, rfl⟩
      · exact ⟨_, _, rfl⟩

theorem ObjectVariables.hasText_declaration (name path : QString) :
    HasText (declaration name path) := by
  intro isText
  have isDeclaration := isDeclaration_declaration name path
  rw [Item.isDeclaration, isText] at isDeclaration
  exact absurd isDeclaration (by decide)

theorem ObjectVariables.process_keeps {isLetterOrNumber : QChar → Bool}
    {known next : Variables} {item : Item} {input : List Item} {outcome : Outcome}
    (processed : process isLetterOrNumber known item input = .ok (next, outcome))
    (text : HasText item) :
    HasText outcome.iterator ∧ ∀ insertion ∈ outcome.insertions, HasText insertion.1 := by
  rcases process_ok processed with ⟨_, _, rfl⟩ | ⟨path, _, ⟨name, _, _, rfl⟩ | ⟨_, _, rfl⟩⟩
  · exact ⟨text, fun _ impossible => absurd impossible List.not_mem_nil⟩
  · exact ⟨text, fun _ impossible => absurd impossible List.not_mem_nil⟩
  · refine ⟨text, ?_⟩
    intro insertion member
    rw [List.mem_singleton.mp member]
    exact hasText_declaration _ _

theorem StringVariables.exists_process (known : List QString) {item : Item}
    (text : HasText item) (input : List Item) :
    ∃ next outcome, process known item input = .ok (next, outcome) := by
  rw [process]
  split
  next => exact ⟨_, _, rfl⟩
  next isText =>
    have isText : item.method = QString.ofString "sendText" := by simpa using isText
    rcases text isText with ⟨value, isString⟩
    rw [isString]
    simp only
    split
    · exact ⟨_, _, rfl⟩
    · exact ⟨_, _, rfl⟩

theorem objectVariables_preserves (isLetterOrNumber : QChar → Bool) :
    (objectVariables isLetterOrNumber).Preserves HasText := by
  intro known item input next outcome processed texts
  rcases ObjectVariables.process_keeps processed (texts item List.mem_cons_self) with
    ⟨iterator, inserted⟩
  refine ⟨?_, inserted⟩
  intro other member
  rw [Outcome.mem_emitted member]
  exact iterator

theorem exists_objectVariables_run (isLetterOrNumber : QChar → Bool) {items : List Item}
    (plain : ∀ item ∈ items, ∀ name, item.target ≠ .variable name) (list : List Item) :
    ∃ final, (objectVariables isLetterOrNumber).run [] items (Inserter.new list).clear =
      .ok final := by
  have run :=
    (objectVariables isLetterOrNumber).exists_run [] items (Inserter.new list).clear
      (fun _ _ remaining => ∀ item ∈ remaining, ∀ name, item.target ≠ .variable name)
      (by
        intro known inserter item input plain
        rcases ObjectVariables.exists_process isLetterOrNumber known
          (plain item List.mem_cons_self) input with ⟨next, outcome, processed⟩
        refine ⟨next, outcome, processed, ?_⟩
        rw [ObjectVariables.process_rest processed]
        intro other member
        exact plain other (List.mem_cons_of_mem _ member))
      plain
  rcases run with ⟨_, final, completes, _⟩
  exact ⟨final, completes⟩

theorem exists_stringVariables_run {items : List Item} (texts : ∀ item ∈ items, HasText item)
    (list : List Item) :
    ∃ final, stringVariables.run [] items (Inserter.new list).clear = .ok final := by
  have run :=
    stringVariables.exists_run [] items (Inserter.new list).clear
      (fun _ _ remaining => ∀ item ∈ remaining, HasText item)
      (by
        intro known inserter item input texts
        rcases StringVariables.exists_process known (texts item List.mem_cons_self) input with
          ⟨next, outcome, processed⟩
        refine ⟨next, outcome, processed, ?_⟩
        rw [StringVariables.process_rest processed]
        intro other member
        exact texts other (List.mem_cons_of_mem _ member))
      texts
  rcases run with ⟨_, final, completes, _⟩
  exact ⟨final, completes⟩

/-! ## Stages of the pipeline -/

/-- Whether the post-processors get through the list, whichever list they collect in. -/
def Ends (processors : List PostProcessor) (input : List Item) (completes : Bool) : Prop :=
  ∀ list, (runAll processors input (.new list)).isOk = completes

theorem ends_nil (input : List Item) : Ends [] input true :=
  fun _ => rfl

section

variable {enabled : Bool} {processor : PostProcessor} {rest : List PostProcessor}
  {input : List Item} {completes : Bool}

theorem Ends.skip (later : Ends rest input completes) :
    Ends ((if false then [processor] else []) ++ rest) input completes :=
  later

theorem Ends.run (ran : ∀ list, ∃ final,
      processor.run processor.initial input (Inserter.new list).clear = .ok final ∧
      Ends rest final.rootList completes) :
    Ends ((if true then [processor] else []) ++ rest) input completes := by
  intro list
  rcases ran list with ⟨final, completed, later⟩
  simp only [if_true, List.singleton_append, runAll, completed]
  exact later final.rootList

theorem Ends.fail (failed : ∀ list, ∃ fault,
      processor.run processor.initial input (Inserter.new list).clear = .error fault) :
    Ends ((if true then [processor] else []) ++ rest) input false := by
  intro list
  rcases failed list with ⟨fault, failed⟩
  simp only [if_true, List.singleton_append, runAll, failed]
  rfl

end

/-! ## The first three passes -/

/-- Events have a sleep behind them, but for the last one, in which the list ends. -/
structure Settled (items : List Item) : Prop where
  spaced : IsSpaced items
  ends : ∀ last, [last] <:+ items → last.isSleep = false

theorem Settled.of_suffix {items part : List Item} (settled : Settled items)
    (suffix : part <:+ items) : Settled part := by
  constructor
  · exact Spaced.of_suffix settled.spaced suffix
  · intro last ending
    exact settled.ends last (ending.trans suffix)

theorem not_isSleep_of_isRelease {item : Item} (release : SimplifyStrings.isRelease item = true) :
    ¬item.isSleep = true := by
  rw [Item.isSleep, of_decide_eq_true release]
  decide

theorem Settled.hasRoom {items : List Item} (settled : Settled items) : HasRoom items := by
  intro item last ending
  cases release : SimplifyStrings.isRelease item with
  | false => rfl
  | true =>
      have spaced := Spaced.of_suffix settled.spaced ending
      have quiet := Spaced.quiet_of_cons_cons spaced (not_isSleep_of_isRelease release)
      rw [settled.ends last ((List.suffix_cons item [last]).trans ending)] at quiet
      cases quiet

theorem FilterQtInternals.exists_process {item : Item} {input : List Item}
    (notLast : isInternal item = true → input ≠ []) :
    ∃ outcome, process item input = .ok outcome := by
  rw [process.eq_def]
  split
  next internal =>
    cases input with
    | nil => exact absurd rfl (notLast (decide_eq_true internal))
    | cons first rest =>
        simp only
        split
        · exact ⟨_, rfl⟩
        · exact ⟨_, rfl⟩
  next => exact ⟨_, rfl⟩

theorem ofProcess_process {process : Item → List Item → Except Fault Outcome}
    {suffix : ∀ {item input outcome}, process item input = .ok outcome → outcome.rest <:+ input}
    {item : Item} {input : List Item} {outcome : Outcome}
    (processed : process item input = .ok outcome) :
    (PostProcessor.ofProcess process suffix).process () item input = .ok ((), outcome) := by
  change (process item input).map _ = _
  rw [processed]
  rfl

/-- The first pass gets through a list that does not end on an internal widget. -/
theorem exists_filterQtInternals_run {items : List Item} (scripted : AreScripted items)
    (ends : ∀ last, [last] <:+ items → FilterQtInternals.isInternal last = false)
    (list : List Item) :
    ∃ final, filterQtInternals.run () items (Inserter.new list).clear = .ok final ∧
      final.rootList = external items := by
  have start : (Inserter.new list).clear.rootList ++ external items = external items ∧
      AreScripted items ∧
      ∀ last, [last] <:+ items → FilterQtInternals.isInternal last = false :=
    ⟨rfl, scripted, ends⟩
  have run := filterQtInternals.exists_run () items (Inserter.new list).clear
    (fun _ inserter remaining => inserter.rootList ++ external remaining = external items ∧
      AreScripted remaining ∧
      ∀ last, [last] <:+ remaining → FilterQtInternals.isInternal last = false)
    (by
      rintro state inserter item input ⟨kept, scripted, ends⟩
      have notLast : FilterQtInternals.isInternal item = true → input ≠ [] := by
        intro internal isEmpty
        rw [isEmpty] at ends
        rw [ends item List.suffix_rfl] at internal
        cases internal
      rcases FilterQtInternals.exists_process notLast with ⟨outcome, processed⟩
      rcases FilterQtInternals.process_cases processed scripted with ⟨effect, rest⟩
      have performed := rootList_perform_of_no_insertions
        (FilterQtInternals.process_insertions processed) inserter
      refine ⟨(), outcome, ofProcess_process processed, ?_, ?_, ?_⟩
      · rw [performed, rest, ← kept, List.append_assoc]
        rcases effect with ⟨internal, emitted⟩ | ⟨isExternal, emitted⟩
        · rw [emitted, external, external, List.filter_cons_of_neg (by simp [internal])]
          rfl
        · rw [emitted, external, external, List.filter_cons_of_pos (by simp [isExternal])]
          rfl
      · rw [rest]
        intro other member
        exact scripted other (List.mem_cons_of_mem _ member)
      · rw [rest]
        intro last ending
        exact ends last (ending.trans (List.suffix_cons item input)))
    start
  rcases run with ⟨_, final, completes, kept, _⟩
  rw [external, List.filter_nil, List.append_nil] at kept
  exact ⟨final, completes, kept⟩

/-- Behind a last event on an internal widget there is no first item. -/
theorem filterQtInternals_run_fails {front : List Item} {last : Item}
    (scripted : AreScripted (front ++ [last]))
    (internal : FilterQtInternals.isInternal last = true) (inserter : Inserter Item) :
    filterQtInternals.run () (front ++ [last]) inserter = .error .outOfRange := by
  induction front generalizing inserter with
  | nil =>
      apply filterQtInternals.run_cons_error
      change (FilterQtInternals.process last []).map _ = _
      rw [FilterQtInternals.process.eq_def, if_pos (of_decide_eq_true internal)]
      rfl
  | cons item front ih =>
      have notLast : FilterQtInternals.isInternal item = true → front ++ [last] ≠ [] :=
        fun _ => by simp
      rcases FilterQtInternals.exists_process notLast with ⟨outcome, processed⟩
      rcases FilterQtInternals.process_cases processed scripted with ⟨_, rest⟩
      rw [List.cons_append]
      have ran := filterQtInternals.run_cons_ok inserter (ofProcess_process processed)
      rw [ran, rest]
      exact ih (fun other member => scripted other (List.mem_cons_of_mem _ member)) _

/-- On a settled list each dropped movement has its sleep, and an item behind that. -/
theorem StripMouseMovements.exists_process {item : Item} {input : List Item}
    (settled : Settled (item :: input)) (scripted : AreScripted (item :: input)) :
    ∃ outcome, process item input = .ok outcome ∧
      outcome.emitted ++ withoutMoves outcome.rest = withoutMoves (item :: input) := by
  fun_induction process item input with
  | case1 item isMove =>
      refine ⟨_, rfl, ?_⟩
      rw [withoutMoves_cons_of_move isMove]
      rfl
  | case2 item isMove only =>
      have quiet := IsSpaced.isSleep_of_cons_cons settled.spaced isMove
      rw [settled.ends only (List.suffix_cons item [only])] at quiet
      cases quiet
  | case3 item isMove msec following rest isSleep ih =>
      have suffix : following :: rest <:+ item :: msec :: following :: rest :=
        ⟨[item, msec], rfl⟩
      rcases ih (settled.of_suffix suffix) (fun other member => scripted other (suffix.mem member))
        with ⟨outcome, processed, emitted⟩
      refine ⟨outcome, processed, ?_⟩
      rw [emitted, withoutMoves_cons_of_move isMove]
      rfl
  | case4 item isMove msec following rest notSleep =>
      have quiet := IsSpaced.isSleep_of_cons_cons settled.spaced isMove
      exact absurd (of_decide_eq_true quiet) notSleep
  | case5 input item notMove =>
      refine ⟨_, rfl, ?_⟩
      rw [withoutMoves_cons_of_not notMove,
        show (Outcome.unchanged item input).emitted = [item] from
          emitted_of_scripted (scripted item List.mem_cons_self)]
      rfl

theorem exists_stripMouseMovements_run {items : List Item} (settled : Settled items)
    (scripted : AreScripted items) (list : List Item) :
    ∃ final, stripMouseMovements.run () items (Inserter.new list).clear = .ok final ∧
      final.rootList = withoutMoves items := by
  have start : (Inserter.new list).clear.rootList ++ withoutMoves items = withoutMoves items ∧
      Settled items ∧ AreScripted items :=
    ⟨rfl, settled, scripted⟩
  have run := stripMouseMovements.exists_run () items (Inserter.new list).clear
    (fun _ inserter remaining =>
      inserter.rootList ++ withoutMoves remaining = withoutMoves items ∧
      Settled remaining ∧ AreScripted remaining)
    (by
      rintro state inserter item input ⟨kept, settled, scripted⟩
      rcases StripMouseMovements.exists_process settled scripted with
        ⟨outcome, processed, emitted⟩
      have performed := rootList_perform_of_no_insertions
        (StripMouseMovements.process_insertions processed) inserter
      have suffix := (StripMouseMovements.process_suffix processed).trans
        (List.suffix_cons item input)
      refine ⟨(), outcome, ofProcess_process processed, ?_, settled.of_suffix suffix, ?_⟩
      · rw [performed, List.append_assoc, emitted]
        exact kept
      · intro other member
        exact scripted other (suffix.mem member))
    start
  rcases run with ⟨_, final, completes, kept, _⟩
  rw [withoutMoves, List.append_nil] at kept
  exact ⟨final, completes, kept⟩

theorem mem_of_mem_withoutMoves {items : List Item} {item : Item}
    (member : item ∈ withoutMoves items) :
    item ∈ items ∧ item.method ≠ QString.ofString "moveMouse" := by
  fun_induction withoutMoves items with
  | case1 => cases member
  | case2 => cases member
  | case3 only notMove =>
      rw [List.mem_singleton.mp member]
      exact ⟨List.mem_cons_self, notMove⟩
  | case4 first following rest isMove ih =>
      rcases ih member with ⟨later, notMove⟩
      exact ⟨List.mem_cons_of_mem _ (List.mem_cons_of_mem _ later), notMove⟩
  | case5 first following rest notMove ih =>
      rcases List.mem_cons.mp member with isFirst | later
      · rw [isFirst]
        exact ⟨List.mem_cons_self, notMove⟩
      · rcases ih later with ⟨later, notMove⟩
        exact ⟨List.mem_cons_of_mem _ later, notMove⟩

/-- Without movements the third pass changes nothing. -/
theorem exists_simplifyMouseMovements_run_of_no_moves {items : List Item}
    (noMoves : ∀ item ∈ items, item.method ≠ QString.ofString "moveMouse")
    (scripted : AreScripted items) (list : List Item) :
    ∃ final, simplifyMouseMovements.run () items (Inserter.new list).clear = .ok final ∧
      final.rootList = items := by
  have start : (Inserter.new list).clear.rootList ++ items = items ∧
      (∀ item ∈ items, item.method ≠ QString.ofString "moveMouse") ∧ AreScripted items :=
    ⟨rfl, noMoves, scripted⟩
  have run := simplifyMouseMovements.exists_run () items (Inserter.new list).clear
    (fun _ inserter remaining => inserter.rootList ++ remaining = items ∧
      (∀ item ∈ remaining, item.method ≠ QString.ofString "moveMouse") ∧ AreScripted remaining)
    (by
      rintro state inserter item input ⟨kept, noMoves, scripted⟩
      have processed : SimplifyMouseMovements.process item input = .unchanged item input := by
        rw [SimplifyMouseMovements.process, if_neg (noMoves item List.mem_cons_self)]
      refine ⟨(), _, rfl, ?_, ?_, ?_⟩
      · rw [processed, rootList_perform_of_no_insertions rfl, List.append_assoc,
          show (Outcome.unchanged item input).emitted = [item] from
            emitted_of_scripted (scripted item List.mem_cons_self)]
        exact kept
      · rw [processed]
        intro other member
        exact noMoves other (List.mem_cons_of_mem _ member)
      · rw [processed]
        intro other member
        exact scripted other (List.mem_cons_of_mem _ member))
    start
  rcases run with ⟨_, final, completes, kept, _⟩
  rw [List.append_nil] at kept
  exact ⟨final, completes, kept⟩

/-! ### Room behind releases -/

theorem eq_of_singleton_suffix {front : List Item} {last item : Item}
    (ending : [last] <:+ front ++ [item]) : last = item := by
  rcases List.suffix_concat_iff.mp ending with impossible | ⟨before, split, _⟩
  · cases impossible
  · have ends := congrArg List.getLast? split
    rw [List.getLast?_concat] at ends
    cases ends
    rfl

theorem hasRoom_append_of_two_le {front back : List Item} (long : 2 ≤ back.length)
    (room : HasRoom back) : HasRoom (front ++ back) := by
  intro item last ending
  exact room item last (List.suffix_of_suffix_length_le ending (List.suffix_append front back) long)

theorem HasRoom.concat {front : List Item}
    (notReleased : ∀ item, [item] <:+ front → SimplifyStrings.isRelease item = false)
    (last : Item) : HasRoom (front ++ [last]) := by
  intro item other ending
  rcases List.suffix_concat_iff.mp ending with impossible | ⟨before, split, suffix⟩
  · cases impossible
  · have isBefore : before = [item] := by
      have initial := congrArg List.dropLast split
      rw [List.dropLast_concat] at initial
      exact initial.symm
    rw [isBefore] at suffix
    exact notReleased item suffix

/-- What was emitted and what remains, in a pass over a settled list that inserts
movements. -/
structure Roomy (emitted remaining : List Item) : Prop where
  room : HasRoom (emitted ++ remaining)
  spaced : IsSpaced remaining
  junction : ∀ last, [last] <:+ emitted → SimplifyStrings.isRelease last = true →
    ∀ first ∈ remaining.head?, first.isSleep = true
  scripted : AreScripted remaining

/-- Behind a release that a call emits a sleep remains. -/
theorem isSleep_of_isRelease_cons {item : Item} {rest : List Item}
    (spaced : IsSpaced (item :: rest)) (release : SimplifyStrings.isRelease item = true) :
    ∀ first ∈ rest.head?, first.isSleep = true := by
  intro first isFirst
  cases rest with
  | nil => cases isFirst
  | cons second rest =>
      cases isFirst
      have quiet := Spaced.quiet_of_cons_cons spaced (not_isSleep_of_isRelease release)
      exact quiet

namespace Roomy

variable {emitted remaining : List Item}

theorem start {items : List Item} (settled : Settled items) (scripted : AreScripted items) :
    Roomy [] items := by
  constructor
  · exact settled.hasRoom
  · exact settled.spaced
  · intro last impossible
    cases List.suffix_nil.mp impossible
  · exact scripted

theorem emit {item : Item} (roomy : Roomy emitted (item :: remaining)) :
    Roomy (emitted ++ [item]) remaining := by
  constructor
  · rw [List.append_assoc]
    exact roomy.room
  · exact List.IsChain.tail roomy.spaced
  · intro last ending release
    rw [eq_of_singleton_suffix ending] at release
    exact isSleep_of_isRelease_cons roomy.spaced release
  · intro other member
    exact roomy.scripted other (List.mem_cons_of_mem _ member)

/-- A movement gives way to a part of what remains, and another one is inserted. -/
theorem move {item iterator simplified : Item} {rest : List Item}
    (roomy : Roomy emitted (item :: remaining)) (suffix : iterator :: rest <:+ item :: remaining)
    (isMove : item.method = QString.ofString "moveMouse")
    (simplifiedMove : simplified.method = QString.ofString "moveMouse") (index : Int) :
    Roomy (insertAt emitted index simplified) (iterator :: rest) := by
  have notReleased : ∀ last, [last] <:+ insertAt emitted index simplified →
      SimplifyStrings.isRelease last = false := by
    intro last ending
    rw [insertAt] at ending
    cases back_eq : emitted.drop index.toNat with
    | nil =>
        rw [back_eq] at ending
        rw [SimplifyStrings.isRelease, eq_of_singleton_suffix ending, simplifiedMove]
        decide
    | cons first back =>
        cases release : SimplifyStrings.isRelease last with
        | false => rfl
        | true =>
            have inEmitted : [last] <:+ emitted := by
              apply List.IsSuffix.trans _ (List.drop_suffix index.toNat emitted)
              rw [back_eq] at ending ⊢
              apply List.suffix_of_suffix_length_le ending _ (by simp)
              exact ⟨emitted.take index.toNat ++ [simplified], by simp⟩
            have quiet := roomy.junction last inEmitted release item rfl
            exact absurd quiet (isSleep_of_move isMove)
  constructor
  · cases rest with
    | nil => exact HasRoom.concat notReleased iterator
    | cons second rest =>
        apply hasRoom_append_of_two_le (by simp)
        exact roomy.room.of_suffix (suffix.trans (List.suffix_append _ _))
  · exact Spaced.of_suffix roomy.spaced suffix
  · intro last ending release
    rw [notReleased last ending] at release
    cases release
  · intro other member
    exact roomy.scripted other (suffix.mem member)

end Roomy

/-- The third pass leaves room behind releases. -/
theorem exists_simplifyMouseMovements_run {items : List Item} (settled : Settled items)
    (scripted : AreScripted items) (list : List Item) :
    ∃ final, simplifyMouseMovements.run () items (Inserter.new list).clear = .ok final ∧
      HasRoom final.rootList := by
  have start : Roomy (Inserter.new list).clear.rootList items := Roomy.start settled scripted
  have run := simplifyMouseMovements.exists_run () items (Inserter.new list).clear
    (fun _ inserter remaining => Roomy inserter.rootList remaining)
    (by
      intro state inserter item input roomy
      refine ⟨(), SimplifyMouseMovements.process item input, rfl, ?_⟩
      rcases SimplifyMouseMovements.process_shape item input with ⟨suffix, insertions⟩
      have valid := roomy.scripted _ (suffix.mem List.mem_cons_self)
      rw [Outcome.rootList_perform, emitted_of_scripted valid]
      apply Roomy.emit
      rcases insertions with unchanged | ⟨isMove, simplified, inserted, _, simplifiedMove⟩
      · rw [unchanged]
        exact roomy
      · rw [inserted]
        exact roomy.move suffix isMove simplifiedMove inserter.itemIndex)
    start
  rcases run with ⟨_, final, completes, roomy⟩
  have room := roomy.room
  rw [List.append_nil] at room
  exact ⟨final, completes, room⟩

/-! ## The whole pipeline -/

namespace IsRecording

variable {items : List Item}

theorem exists_last (isRecording : IsRecording items) (nonempty : items ≠ []) :
    ∃ front last, items = front ++ [last] ∧
      (SimplifyStrings.eventsOf items).getLast? = some last ∧ IsEvent last := by
  induction isRecording with
  | nil => exact absurd rfl nonempty
  | @pair duration event rest isEvent isRecording ih =>
      cases isRecording with
      | nil => exact ⟨[_], event, rfl, rfl, isEvent⟩
      | @pair nextDuration following later isFollowing isRecording =>
          rcases ih (List.cons_ne_nil _ _) with ⟨front, last, split, isLast, lastEvent⟩
          refine ⟨.ofMethod "msleep" (.int duration) :: event :: front, last, ?_, ?_, lastEvent⟩
          · rw [split]
            rfl
          · exact isLast

theorem not_isSleep (isEvent : IsEvent item) : item.isSleep = false := by
  have events : ∀ method ∈ eventMethods, method ≠ QString.ofString "msleep" := by decide
  exact decide_eq_false (events _ isEvent.method)

theorem mem_keptFrom {drops : Bool} {item : Item} (member : item ∈ keptFrom drops items) :
    item ∈ items := by
  rw [keptFrom] at member
  split at member
  · exact List.mem_of_mem_filter member
  · exact member

theorem settled_keptFrom (isRecording : IsRecording items) {drops : Bool}
    (ends : (drops && (SimplifyStrings.eventsOf items).getLast?.any
      FilterQtInternals.isInternal) = false) : Settled (keptFrom drops items) := by
  constructor
  · rw [keptFrom]
    split
    · apply Spaced.filter isRecording.isSpaced
      intro item member dropped
      apply isRecording.sleepsUnclassed.isLoud member
      simpa using dropped
    · exact isRecording.isSpaced
  · intro item ending
    by_cases nonempty : items = []
    · rw [nonempty] at ending
      cases drops <;> cases List.suffix_nil.mp ending
    · rcases isRecording.exists_last nonempty with ⟨front, last, split, isLast, lastEvent⟩
      rw [isLast] at ends
      have kept : keptFrom drops (front ++ [last]) = keptFrom drops front ++ [last] := by
        cases drops with
        | false => rfl
        | true =>
            rw [keptFrom, if_pos rfl, external, List.filter_append]
            have isExternal : FilterQtInternals.isInternal last = false := ends
            rw [List.filter_cons_of_pos (by simp [isExternal])]
            rfl
      rw [split, kept] at ending
      rw [eq_of_singleton_suffix ending]
      exact not_isSleep lastEvent

/-- Without its movements a recording completes unless it falls off. -/
theorem completes_withoutMoves (isRecording : IsRecording items) {drops : Bool}
    (ends : (drops && (SimplifyStrings.eventsOf items).getLast?.any
      FilterQtInternals.isInternal) = false) :
    SimplifyStrings.Completes (withoutMoves (keptFrom drops items)) ↔
      (!SimplifyStrings.fallsOff drops .idle (SimplifyStrings.eventsOf items)) = true := by
  rw [Bool.not_eq_true']
  cases isRecording with
  | nil =>
      have nothing : withoutMoves (keptFrom drops []) = [] := by cases drops <;> rfl
      rw [nothing]
      exact iff_of_true SimplifyStrings.completes_nil rfl
  | @pair duration event rest isEvent isRecording =>
      have decided := decided_withoutMoves drops (.pair duration isEvent isRecording)
        (List.cons_ne_nil _ _) ends
      rw [withoutMoves_keptFrom_sleep, List.tail_cons] at decided
      rw [withoutMoves_keptFrom_sleep]
      exact decided.idle rfl

end IsRecording

/-- The recording stays clear of both faults: it does not end on an internal widget that
is dropped, nor in dropped movements behind a typed text. -/
def endsSafely (options : Options) (events : List Item) : Bool :=
  !(options.filterQtInternals && events.getLast?.any FilterQtInternals.isInternal) &&
    !(options.skipMouseMovements && options.simplifyStrings &&
      SimplifyStrings.fallsOff options.filterQtInternals .idle events)

section

variable (isLetterOrNumber : QChar → Bool)

theorem ends_variables (objects strings : Bool) {items : List Item}
    (ready : ∀ item ∈ items, IsReady item) :
    Ends ((if objects then [objectVariables isLetterOrNumber] else []) ++
      (if strings then [stringVariables] else [])) items true := by
  have last : ∀ {items : List Item}, (∀ item ∈ items, HasText item) →
      Ends (if strings then [stringVariables] else []) items true := by
    intro items texts
    rw [← List.append_nil (if strings then [stringVariables] else [])]
    cases strings with
    | false => exact Ends.skip (ends_nil items)
    | true =>
        apply Ends.run
        intro list
        rcases exists_stringVariables_run texts list with ⟨final, completes⟩
        exact ⟨final, completes, ends_nil _⟩
  cases objects with
  | false => exact Ends.skip (last fun item member => (ready item member).text)
  | true =>
      apply Ends.run
      intro list
      rcases exists_objectVariables_run isLetterOrNumber
        (fun item member => (ready item member).target) list with ⟨final, completes⟩
      refine ⟨final, completes, last ?_⟩
      exact (objectVariables_preserves isLetterOrNumber).run completes
        fun item member => (ready item member).text

theorem ends_simplifyStrings (enabled objects strings : Bool) {items : List Item}
    (ready : ∀ item ∈ items, IsReady item) {completes : Bool}
    (decided : SimplifyStrings.Completes items ↔ completes = true) :
    Ends ((if enabled then [simplifyStrings] else []) ++
      ((if objects then [objectVariables isLetterOrNumber] else []) ++
        (if strings then [stringVariables] else []))) items (!enabled || completes) := by
  cases enabled with
  | false => exact Ends.skip (ends_variables isLetterOrNumber objects strings ready)
  | true =>
      cases completes with
      | true =>
          apply Ends.run
          intro list
          rcases (simplifyStrings_run_iff items list).mpr (decided.mpr rfl) with
            ⟨final, completed⟩
          refine ⟨final, completed, ends_variables isLetterOrNumber objects strings ?_⟩
          exact simplifyStrings_preserves.run completed ready
      | false =>
          apply Ends.fail
          intro list
          cases ran : simplifyStrings.run () items (Inserter.new list).clear with
          | error fault => exact ⟨fault, ran⟩
          | ok final =>
              have completed := (simplifyStrings_run_iff items list).mp ⟨final, ran⟩
              exact absurd (decided.mp completed) Bool.false_ne_true

/-- The passes behind the first one. -/
theorem ends_behind_filter (options : Options) {items : List Item} {events : List Item}
    (settled : Settled items) (scripted : AreScripted items)
    (ready : ∀ item ∈ items, IsReady item)
    (decided : SimplifyStrings.Completes (withoutMoves items) ↔
      (!SimplifyStrings.fallsOff options.filterQtInternals .idle events) = true) :
    Ends ((if options.skipMouseMovements then [stripMouseMovements] else []) ++
      ((if options.simplifyMouseMovements then [simplifyMouseMovements] else []) ++
        ((if options.simplifyStrings then [simplifyStrings] else []) ++
          ((if options.objectVariables then [objectVariables isLetterOrNumber] else []) ++
            (if options.stringVariables then [stringVariables] else []))))) items
      (!(options.skipMouseMovements && options.simplifyStrings &&
        SimplifyStrings.fallsOff options.filterQtInternals .idle events)) := by
  cases options.skipMouseMovements with
  | false =>
      have ends : ∀ {typed : List Item}, HasRoom typed → (∀ item ∈ typed, IsReady item) →
          Ends ((if options.simplifyStrings then [simplifyStrings] else []) ++
            ((if options.objectVariables then [objectVariables isLetterOrNumber] else []) ++
              (if options.stringVariables then [stringVariables] else []))) typed true := by
        intro typed room ready
        have completes := SimplifyStrings.completes_of_hasRoom room
        have later := ends_simplifyStrings isLetterOrNumber options.simplifyStrings
          options.objectVariables options.stringVariables ready (iff_of_true completes rfl)
        rw [Bool.or_true] at later
        exact later
      apply Ends.skip
      cases options.simplifyMouseMovements with
      | false => exact Ends.skip (ends settled.hasRoom ready)
      | true =>
          apply Ends.run
          intro list
          rcases exists_simplifyMouseMovements_run settled scripted list with
            ⟨final, completes, room⟩
          refine ⟨final, completes, ends room ?_⟩
          exact simplifyMouseMovements_preserves.run completes ready
  | true =>
      have strippedReady : ∀ item ∈ withoutMoves items, IsReady item := fun item member =>
        ready item (mem_of_mem_withoutMoves member).1
      have ends := ends_simplifyStrings isLetterOrNumber options.simplifyStrings
        options.objectVariables options.stringVariables strippedReady decided
      rw [← Bool.not_and] at ends
      apply Ends.run
      intro list
      rcases exists_stripMouseMovements_run settled scripted list with
        ⟨stripped, completes, isStripped⟩
      refine ⟨stripped, completes, ?_⟩
      rw [isStripped]
      cases options.simplifyMouseMovements with
      | false => exact Ends.skip ends
      | true =>
          apply Ends.run
          intro list
          rcases exists_simplifyMouseMovements_run_of_no_moves
            (fun item member => (mem_of_mem_withoutMoves member).2)
            (fun item member => scripted item (mem_of_mem_withoutMoves member).1) list with
            ⟨final, completes, isFinal⟩
          refine ⟨final, completes, ?_⟩
          rw [isFinal]
          exact ends

theorem ends_postProcessors (options : Options) {items : List Item}
    (isRecording : IsRecording items) :
    Ends (postProcessors isLetterOrNumber options) items
      (endsSafely options (SimplifyStrings.eventsOf items)) := by
  simp only [postProcessors, List.append_assoc, endsSafely]
  have scripted := isRecording.isScripted
  cases internalEnd : (options.filterQtInternals && (SimplifyStrings.eventsOf items).getLast?.any
    FilterQtInternals.isInternal) with
  | true =>
      rw [Bool.not_true, Bool.false_and]
      rcases Bool.and_eq_true_iff.mp internalEnd with ⟨enabled, lastInternal⟩
      rw [enabled]
      apply Ends.fail
      intro list
      have nonempty : items ≠ [] := by
        intro isEmpty
        rw [isEmpty] at lastInternal
        cases lastInternal
      rcases isRecording.exists_last nonempty with ⟨front, last, split, isLast, _⟩
      rw [isLast] at lastInternal
      subst split
      exact ⟨_, filterQtInternals_run_fails scripted lastInternal _⟩
  | false =>
      rw [Bool.not_false, Bool.true_and]
      have settled := isRecording.settled_keptFrom internalEnd
      have decided := isRecording.completes_withoutMoves internalEnd
      have keptReady : ∀ item ∈ keptFrom options.filterQtInternals items, IsReady item :=
        fun item member => isRecording.isReady item (IsRecording.mem_keptFrom member)
      have keptScripted : AreScripted (keptFrom options.filterQtInternals items) :=
        fun item member => scripted item (IsRecording.mem_keptFrom member)
      have ends := ends_behind_filter isLetterOrNumber options settled keptScripted keptReady
        decided
      generalize (!(options.skipMouseMovements && options.simplifyStrings &&
        SimplifyStrings.fallsOff options.filterQtInternals .idle
          (SimplifyStrings.eventsOf items))) = verdict at ends ⊢
      cases enabled : options.filterQtInternals with
      | false =>
          rw [enabled] at ends
          exact Ends.skip ends
      | true =>
          rw [enabled] at ends internalEnd settled
          have noInternalEnd : ∀ last, [last] <:+ items →
              FilterQtInternals.isInternal last = false := by
            intro last ending
            have nonempty : items ≠ [] := by
              intro isEmpty
              rw [isEmpty] at ending
              cases List.suffix_nil.mp ending
            rcases isRecording.exists_last nonempty with ⟨front, other, split, isLast, _⟩
            rw [split] at ending
            rw [eq_of_singleton_suffix ending]
            rw [isLast] at internalEnd
            exact internalEnd
          apply Ends.run
          intro list
          rcases exists_filterQtInternals_run scripted noInternalEnd list with
            ⟨final, completes, isFinal⟩
          refine ⟨final, completes, ?_⟩
          rw [isFinal]
          exact ends

/-- A recording compiles, under a set of options, exactly if it ends safely. -/
theorem postProcess_completes_iff (options : Options) {items : List Item}
    (isRecording : IsRecording items) :
    (∃ output, postProcess isLetterOrNumber options items = .ok output) ↔
      endsSafely options (SimplifyStrings.eventsOf items) = true := by
  have ends := ends_postProcessors isLetterOrNumber options isRecording []
  rw [← ends, postProcess]
  cases runAll (postProcessors isLetterOrNumber options) items (.new []) with
  | error fault => simp [Except.isOk, Except.toBool]
  | ok output => simp [Except.isOk, Except.toBool]

end

theorem typeAndDrop_completes :
    (∃ output, postProcess (fun _ => true) everyOption typeAndDrop = .ok output) ↔
      endsSafely everyOption (SimplifyStrings.eventsOf typeAndDrop) = true :=
  postProcess_completes_iff _ everyOption typeAndDrop_isRecording

/-- A letter typed into a line edit, and the mouse on its way to the next window. -/
def typeAndLeave : List Item :=
  let edit : Target := .path "window::edit"
  let letter : QVariant :=
    .map (.entry "key" (.key 65) (.entry "modifiers" (.keyboardModifiers 0)
      (.entry "text" (.string "a") .empty)))
  let position : QVariant := .map (.entry "x" (.int 3) (.entry "y" (.int 4) .empty))
  [.ofMethod "msleep" (.int 10), ⟨edit, "QLineEdit", "pressKey", letter⟩,
    .ofMethod "msleep" (.int 20), ⟨edit, "QLineEdit", "releaseKey", letter⟩,
    .ofMethod "msleep" (.int 30), ⟨.path "window", "QMainWindow", "moveMouse", position⟩]

/-- The mouse over the pixmap of a drag. -/
def dragAway : List Item :=
  [.ofMethod "msleep" (.int 10),
    ⟨.path "pixmap", "QShapedPixmapWidget", "moveMouse", .map .empty⟩]

theorem runs_off_the_list :
    (IsRecording typeAndLeave ∧
      postProcess (fun _ => true) everyOption typeAndLeave = .error .outOfRange) ∧
    IsRecording dragAway ∧
      postProcess (fun _ => true) everyOption dragAway = .error .outOfRange := by
  refine ⟨⟨?_, by decide +kernel⟩, ?_, by decide +kernel⟩
  · apply IsRecording.pair 10 ⟨by decide, _, rfl⟩
    apply IsRecording.pair 20 ⟨by decide, _, rfl⟩
    apply IsRecording.pair 30 ⟨by decide, _, rfl⟩
    exact .nil
  · apply IsRecording.pair 10 ⟨by decide, _, rfl⟩
    exact .nil

end Hooq
