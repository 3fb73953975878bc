import Hooq.Script.Placement

/-!
# Insertions before the current item

Which runs of the whole pipeline put every item that is inserted before the
current one where the inserter promises it.
-/

namespace Hooq

/-- The processor inserts in one kind of place only, `position`. -/
def PostProcessor.InsertsAt (processor : PostProcessor) (position : Position) : Prop :=
  ∀ state item input next outcome, processor.process state item input = .ok (next, outcome) →
    ∀ insertion ∈ outcome.insertions, insertion.2 = position

/-- The processor inserts nothing. -/
def PostProcessor.InsertsNothing (processor : PostProcessor) : Prop :=
  ∀ state item input next outcome, processor.process state item input = .ok (next, outcome) →
    outcome.insertions = []

theorem PostProcessor.InsertsNothing.insertsAt {processor : PostProcessor}
    (nothing : processor.InsertsNothing) (position : Position) :
    processor.InsertsAt position := by
  intro state item input next outcome processed insertion member
  rw [nothing state item input next outcome processed] at member
  cases member

/-! ## The insertions of the six post-processors -/

theorem FilterQtInternals.process_insertions {item : Item} {input : List Item}
    {outcome : Outcome} (processed : process item input = .ok outcome) :
    outcome.insertions = [] := by
  rcases process_ok processed with ⟨_, rfl⟩ | ⟨_, first, rest, rfl, rfl⟩
  · rfl
  · rfl

theorem StripMouseMovements.process_insertions {item : Item} {input : List Item}
    {outcome : Outcome} (processed : process item input = .ok outcome) :
    outcome.insertions = [] := by
  fun_induction process item input with
  | case1 | case5 =>
      cases processed
      rfl
  | case2 | case4 => cases processed
  | case3 item _ msec next rest _ ih => exact ih processed

theorem SimplifyMouseMovements.process_insertions (item : Item) (input : List Item) :
    ∀ insertion ∈ (process item input).insertions, insertion.2 = .beforeCurrentItem := by
  intro insertion member
  rw [process] at member
  split at member
  · rw [List.mem_singleton.mp member]
  · cases member

theorem SimplifyStrings.process_insertions {item : Item} {input : List Item} {outcome : Outcome}
    (processed : process item input = .ok outcome) :
    ∀ insertion ∈ outcome.insertions, insertion.2 = .beforeCurrentItem := by
  intro insertion member
  rcases process_ok processed with ⟨_, rfl⟩ | ⟨_, run, _, rfl⟩
  · cases member
  · simp only at member
    split at member
    · rcases List.mem_cons.mp member with isText | isMsec
      · rw [isText]
      · rw [List.mem_singleton.mp isMsec]
    · cases member

theorem ObjectVariables.process_insertions {isLetterOrNumber : QChar → Bool}
    {known next : Variables} {item : Item} {input : List Item} {outcome : Outcome}
    (processed : process isLetterOrNumber known item input = .ok (next, outcome)) :
    ∀ insertion ∈ outcome.insertions, insertion.2 = .beforeCurrentItem := by
  intro insertion member
  rcases process_ok processed with ⟨_, _, rfl⟩ | ⟨path, _, ⟨name, _, _, rfl⟩ | ⟨_, _, rfl⟩⟩
  · cases member
  · cases member
  · rw [List.mem_singleton.mp member]

theorem StringVariables.process_insertions {known next : List QString} {item : Item}
    {input : List Item} {outcome : Outcome}
    (processed : process known item input = .ok (next, outcome)) :
    ∀ insertion ∈ outcome.insertions, insertion.2 = .beginning := by
  intro insertion member
  rcases process_ok processed with ⟨_, _, rfl⟩ | ⟨_, value, _, ⟨_, _, rfl⟩ | ⟨_, _, rfl⟩⟩
  · cases member
  · cases member
  · rw [List.mem_singleton.mp member]

theorem ofProcess_ok {process : Item → List Item → Except Fault Outcome}
    {suffix : ∀ {item input outcome}, process item input = .ok outcome → outcome.rest <:+ input}
    {state next : Unit} {item : Item} {input : List Item} {outcome : Outcome}
    (processed : (PostProcessor.ofProcess process suffix).process state item input =
      .ok (next, outcome)) : process item input = .ok outcome := by
  simp only [PostProcessor.ofProcess] at processed
  cases result : process item input with
  | error fault =>
      rw [result] at processed
      cases processed
  | ok found =>
      rw [result] at processed
      cases processed
      rfl

theorem filterQtInternals_insertsNothing : filterQtInternals.InsertsNothing := by
  intro state item input next outcome processed
  exact FilterQtInternals.process_insertions (ofProcess_ok processed)

theorem stripMouseMovements_insertsNothing : stripMouseMovements.InsertsNothing := by
  intro state item input next outcome processed
  exact StripMouseMovements.process_insertions (ofProcess_ok processed)

theorem simplifyMouseMovements_insertsAt :
    simplifyMouseMovements.InsertsAt .beforeCurrentItem := by
  intro state item input next outcome processed
  cases processed
  exact SimplifyMouseMovements.process_insertions item input

theorem simplifyStrings_insertsAt : simplifyStrings.InsertsAt .beforeCurrentItem := by
  intro state item input next outcome processed
  exact SimplifyStrings.process_insertions (ofProcess_ok processed)

theorem objectVariables_insertsAt (isLetterOrNumber : QChar → Bool) :
    (objectVariables isLetterOrNumber).InsertsAt .beforeCurrentItem := by
  intro state item input next outcome processed
  exact ObjectVariables.process_insertions processed

theorem stringVariables_insertsAt : stringVariables.InsertsAt .beginning := by
  intro state item input next outcome processed
  exact StringVariables.process_insertions processed

theorem insertsAt_of_mem_postProcessors {isLetterOrNumber : QChar → Bool} {options : Options}
    {processor : PostProcessor} (member : processor ∈ postProcessors isLetterOrNumber options) :
    ∃ position, processor.InsertsAt position := by
  simp only [postProcessors, List.mem_append, List.mem_ite_nil_right, List.mem_singleton] at member
  rcases member with ((((⟨_, isFilter⟩ | ⟨_, isStrip⟩) | ⟨_, isMouse⟩) | ⟨_, isText⟩) |
    ⟨_, isObjects⟩) | ⟨_, isStrings⟩
  · subst isFilter
    exact ⟨.beginning, filterQtInternals_insertsNothing.insertsAt _⟩
  · subst isStrip
    exact ⟨.beginning, stripMouseMovements_insertsNothing.insertsAt _⟩
  · subst isMouse
    exact ⟨_, simplifyMouseMovements_insertsAt⟩
  · subst isText
    exact ⟨_, simplifyStrings_insertsAt⟩
  · subst isObjects
    exact ⟨_, objectVariables_insertsAt isLetterOrNumber⟩
  · subst isStrings
    exact ⟨_, stringVariables_insertsAt⟩

/-! ## The passes -/

/-- Every call of a pass is a call of `process` in some state. -/
theorem PostProcessor.process_of_mem_calls {processor : PostProcessor} {state : processor.State}
    {input : List Item} {calls : List Call} (completes : processor.calls state input = .ok calls)
    {call : Call} (member : call ∈ calls) :
    ∃ before after, processor.process before call.item call.following =
      .ok (after, call.outcome) := by
  induction size : input.length using Nat.strong_induction_on
    generalizing state input calls with
  | _ size ih =>
      subst size
      cases input with
      | nil =>
          rw [processor.calls_nil] at completes
          cases completes
          cases member
      | cons item following =>
          cases processed : processor.process state item following with
          | error fault => simp [processor.calls_cons_error processed] at completes
          | ok result =>
              rcases result with ⟨next, outcome⟩
              rw [processor.calls_cons_ok processed] at completes
              cases later : processor.calls next outcome.rest with
              | error fault =>
                  rw [later] at completes
                  cases completes
              | ok rest =>
                  rw [later] at completes
                  cases completes
                  have shorter := (processor.process_suffix processed).length_le
                  rcases List.mem_cons.mp member with isFirst | inRest
                  · subst isFirst
                    exact ⟨state, next, processed⟩
                  · exact ih _ (Nat.lt_succ_of_le shorter) later inRest rfl

theorem PostProcessor.InsertsAt.uniform {processor : PostProcessor} {position : Position}
    (insertsAt : processor.InsertsAt position) {state : processor.State} {input : List Item}
    {calls : List Call} (completes : processor.calls state input = .ok calls) :
    ∀ outcome ∈ calls.map Call.outcome, outcome.Uniform := by
  intro outcome member
  rcases List.mem_map.mp member with ⟨call, isCall, rfl⟩
  rcases processor.process_of_mem_calls completes isCall with ⟨before, after, processed⟩
  exact ⟨position, insertsAt before call.item call.following after call.outcome processed⟩

/-- A pass that completes leaves behind what its marked run says. -/
theorem PostProcessor.run_new (processor : PostProcessor) (input list : List Item) :
    processor.run processor.initial input (Inserter.new list).clear =
      (processor.calls processor.initial input).map fun calls =>
        (PassRun.placeAll 0 (calls.map Call.outcome)
          ⟨[], 0, (Inserter.new list).itemIndex, 0⟩).map Placed.item := by
  rw [processor.run_eq_calls]
  congr 1
  funext calls
  rw [PassRun.map_placeAll, List.foldl_map]
  rfl

theorem passRuns_cons {processor : PostProcessor} {rest : List PostProcessor}
    {input list : List Item} {calls : List Call}
    (completes : processor.calls processor.initial input = .ok calls) :
    passRuns (processor :: rest) input (.new list) =
      ⟨(Inserter.new list).itemIndex, calls.map Call.outcome⟩ ::
        passRuns rest
          ((PassRun.output ⟨(Inserter.new list).itemIndex, calls.map Call.outcome⟩).map
            Placed.item)
          (.new ((PassRun.output ⟨(Inserter.new list).itemIndex, calls.map Call.outcome⟩).map
            Placed.item)) := by
  rw [passRuns, completes]

/-- The passes of a pipeline that completes are all there, and the last one leaves
behind the output. -/
theorem runAll_eq_passRuns (processors : List PostProcessor) (input list output : List Item) :
    runAll processors input (.new list) = .ok output ↔
      (passRuns processors input (.new list)).length = processors.length ∧
      output = ((passRuns processors input (.new list)).getLast?.map
        fun run => run.output.map Placed.item).getD input := by
  induction processors generalizing input list with
  | nil =>
      simp only [runAll, passRuns, Except.ok.injEq]
      constructor
      · intro same
        exact ⟨rfl, same.symm⟩
      · rintro ⟨_, same⟩
        exact same.symm
  | cons processor rest ih =>
      rw [runAll, processor.run_new]
      cases completes : processor.calls processor.initial input with
      | error fault =>
          constructor
          · intro impossible
            cases impossible
          · rintro ⟨impossible, _⟩
            simp [passRuns, completes] at impossible
      | ok calls =>
          rw [passRuns_cons completes, List.length_cons, List.length_cons, List.getLast?_cons,
            Nat.add_right_cancel_iff]
          have produced := ih
            ((PassRun.output ⟨(Inserter.new list).itemIndex, calls.map Call.outcome⟩).map
              Placed.item)
            ((PassRun.output ⟨(Inserter.new list).itemIndex, calls.map Call.outcome⟩).map
              Placed.item)
          refine Iff.trans produced (and_congr_right' (Eq.congr_right ?_))
          generalize passRuns rest _ _ = runs
          cases runs.getLast? <;> rfl

/-- Passes that start with the index at the end of the previous output arrange
everything they insert. -/
theorem inOrder_of_mem_passRuns {processors : List PostProcessor} {list : List Item}
    {run : PassRun} (member : run ∈ passRuns processors list (.new list)) :
    InOrder run.output := by
  induction processors generalizing list with
  | nil => cases member
  | cons processor rest ih =>
      cases completes : processor.calls processor.initial list with
      | error fault => simp [passRuns, completes] at member
      | ok calls =>
          rw [passRuns_cons completes] at member
          rcases List.mem_cons.mp member with isFirst | later
          · rw [isFirst]
            cases list with
            | nil =>
                rw [processor.calls_nil] at completes
                cases completes
                exact List.Pairwise.nil
            | cons item following =>
                apply PassRun.inOrder_of_nonneg
                simp only [Inserter.new, Inserter.reset, List.length_cons]
                omega
          · exact ih later

section

variable (isLetterOrNumber : QChar → Bool)

/-- The passes that a set of options makes over a list of items. -/
def recordedPasses (options : Options) (items : List Item) : List PassRun :=
  passRuns (postProcessors isLetterOrNumber options) items (.new [])

/-- The output of a pipeline is what its last pass leaves behind. -/
theorem postProcess_eq_recordedPasses {options : Options} {items output : List Item}
    (completes : postProcess isLetterOrNumber options items = .ok output) :
    output = ((recordedPasses isLetterOrNumber options items).getLast?.map
      fun run => run.output.map Placed.item).getD items :=
  ((runAll_eq_passRuns _ _ _ _).mp completes).2

/-- Every pass puts what it inserts before the current item in place exactly when
the first pass asks for no such insertion after the first of its calls, unless an
earlier call dropped its item. -/
theorem inPlace_iff_insertsInTime (options : Options) (items : List Item) :
    (∀ run ∈ recordedPasses isLetterOrNumber options items, InPlace run.output) ↔
      ∀ run ∈ (recordedPasses isLetterOrNumber options items).head?,
        PassRun.InsertsInTime run.outcomes := by
  rw [recordedPasses]
  cases processors : postProcessors isLetterOrNumber options with
  | nil => simp [passRuns]
  | cons processor rest =>
      have enabled : processor ∈ postProcessors isLetterOrNumber options := by
        rw [processors]
        exact List.mem_cons_self
      rcases insertsAt_of_mem_postProcessors enabled with ⟨position, insertsAt⟩
      cases completes : processor.calls processor.initial items with
      | error fault => simp [passRuns, completes]
      | ok calls =>
          rw [passRuns_cons completes, List.head?_cons]
          constructor
          · intro inPlace run isFirst
            cases isFirst
            apply PassRun.insertsInTime_of_inPlace
            · rfl
            · exact inPlace _ List.mem_cons_self
          · intro inTime run member
            apply InOrder.inPlace
            rcases List.mem_cons.mp member with isFirst | later
            · rw [isFirst]
              exact PassRun.inOrder_of_insertsInTime rfl (insertsAt.uniform completes)
                (inTime _ rfl)
            · exact inOrder_of_mem_passRuns later

/-- A pass in front that inserts nothing leaves no room for late insertions. -/
theorem insertsInTime_of_insertsNothing {processor : PostProcessor}
    (nothing : processor.InsertsNothing) {items : List Item} {calls : List Call}
    (completes : processor.calls processor.initial items = .ok calls) :
    PassRun.InsertsInTime (calls.map Call.outcome) := by
  intro earlier outcome later shape inserts
  rcases inserts with ⟨insertion, member, _⟩
  have isOutcome : outcome ∈ calls.map Call.outcome := by
    rw [shape]
    exact List.mem_append_right _ List.mem_cons_self
  rcases List.mem_map.mp isOutcome with ⟨call, isCall, rfl⟩
  rcases processor.process_of_mem_calls completes isCall with ⟨before, after, processed⟩
  rw [nothing before call.item call.following after call.outcome processed] at member
  cases member

theorem insertsInTime_of_removal {options : Options}
    (removes : options.filterQtInternals = true ∨ options.skipMouseMovements = true)
    (items : List Item) :
    ∀ run ∈ (recordedPasses isLetterOrNumber options items).head?,
      PassRun.InsertsInTime run.outcomes := by
  have removal : ∃ processor rest, processor.InsertsNothing ∧
      postProcessors isLetterOrNumber options = processor :: rest := by
    cases filters : options.filterQtInternals with
    | true =>
        rw [postProcessors, filters]
        exact ⟨_, _, filterQtInternals_insertsNothing, rfl⟩
    | false =>
        rcases removes with impossible | strips
        · simp [filters] at impossible
        · rw [postProcessors, filters, strips]
          exact ⟨_, _, stripMouseMovements_insertsNothing, rfl⟩
  rcases removal with ⟨processor, rest, nothing, processors⟩
  intro run isFirst
  rw [recordedPasses, processors] at isFirst
  cases completes : processor.calls processor.initial items with
  | error fault => simp [passRuns, completes] at isFirst
  | ok calls =>
      rw [passRuns_cons completes, List.head?_cons] at isFirst
      cases isFirst
      exact insertsInTime_of_insertsNothing nothing completes

end

/-! ## A movement that overtakes a sleep -/

def onlySimplifyMouse : Options :=
  ⟨false, false, false, false, true, false⟩

/-- A sleep, a movement, another sleep and a press. -/
def moveRecording : List Item :=
  let widget : Target := .path "window"
  let position : QVariantMap := .entry "x" (.int 3) (.entry "y" (.int 4) .empty)
  [.ofMethod "msleep" (.int 10), ⟨widget, "QWidget", "moveMouse", .map position⟩,
    .ofMethod "msleep" (.int 20), ⟨widget, "QWidget", "pressMouseButton", .map position⟩]

/-- The simplified movement is inserted before the sleep that was recorded ahead of
it. -/
theorem moveRecording_overtakes :
    ¬∀ run ∈ recordedPasses (fun _ => true) onlySimplifyMouse moveRecording,
      InPlace run.output := by
  intro inPlace
  have origins : (recordedPasses (fun _ => true) onlySimplifyMouse moveRecording).map
      (fun run => run.output.map Placed.origin) =
        [[.before 1, .emitted 0, .emitted 1, .emitted 2]] := by
    decide +kernel
  rcases List.map_eq_singleton_iff.mp origins with ⟨run, isRun, shape⟩
  rcases List.map_eq_cons_iff.mp shape with ⟨inserted, behind, isOutput, isBefore, rest⟩
  rcases List.map_eq_cons_iff.mp rest with ⟨sleep, further, isBehind, isFirst, _⟩
  have notOvertaken := (inPlace run (by rw [isRun]; exact List.mem_cons_self) [] inserted behind 1
    isOutput isBefore).1 sleep (by rw [isBehind]; exact List.mem_cons_self) 0 isFirst
  exact absurd notOvertaken (by decide)

end Hooq
