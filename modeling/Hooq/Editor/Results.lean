import Hooq.Editor.AllTests
import Hooq.Qt.PlaceMarkers

/-!
# Results of all tests

Running all tests reports one result for each test.  A result starts as passed and is
replaced by each error that is raised, while a test runs below the loops that handle
events.
-/

namespace Hooq

/-- `TestResult`. -/
structure TestResult where
  name : QString
  passed : Bool
  error : QString
  backtrace : List QString
  deriving DecidableEq, Repr

/-- An error that is raised while a test runs. -/
structure Failure where
  text : QString
  backtrace : List QString
  deriving DecidableEq, Repr

namespace TestResult

/-- The result of a test without an error. -/
def ofName (name : QString) : TestResult :=
  ⟨name, true, [], []⟩

/-- The result of a test with an error. -/
def ofError (name error : QString) (backtrace : List QString) : TestResult :=
  ⟨name, false, error, backtrace⟩

end TestResult

/-- What can happen next, with what is said about an error. -/
inductive Occasion where
  | happens (happening : Happening) (other : happening ≠ .notFound)
  | notFound (path : QString) (backtrace : List QString)
  | throws (exception : QString) (backtrace : List QString)
  | exits (backtrace : List QString)
  deriving DecidableEq, Repr

/-- The windows with the results.  `shownResults` are those of the results window. -/
structure Report where
  bench : Workbench
  testResult : TestResult
  testResults : List TestResult
  shownResults : Option (List TestResult)
  deriving DecidableEq, Repr

namespace Report

/-! ## Functions of the program -/

section

variable (tables : CharacterTables) (scriptName : Nat → QString)

/-- The text of `ScriptEditor::objectNotFound`. -/
def notFoundText (path : QString) : QString :=
  tables.arg "Object not found: '<span style='font-family: monospace'>%1</span>'" path

/-- The text of `ScriptEditor::exceptionThrow`. -/
def exceptionText (exception : QString) : QString :=
  tables.arg "Uncaught exception: %1" exception

/-- The text of `ScriptEditor::handleApplicationExit`. -/
def exitText : QString :=
  "Application unexpectedly exit."

/-- `ScriptEditor::raiseError`, with `MainWindow::logException`. -/
def raiseError (report : Report) (text : QString) (backtrace : List QString) : Report :=
  { report with testResult := .ofError report.testResult.name text backtrace }

/-- `ScriptEditor::objectNotFound`, with `ScriptEditor::pause`. -/
def objectNotFound (report : Report) (path : QString) (backtrace : List QString) : Report :=
  let report := report.raiseError (notFoundText tables path) backtrace
  { report with bench := report.bench.pause }

/-- `ScriptEditor::exceptionThrow`, of an exception without a handler. -/
def exceptionThrow (report : Report) (exception : QString) (backtrace : List QString) : Report :=
  report.raiseError (exceptionText tables exception) backtrace

/-- The end of `Interpreter::waitForAck` when the connection is lost, with
`ScriptEditor::handleApplicationExit`. -/
def handleApplicationExit (report : Report) (backtrace : List QString) : Report :=
  let report := report.raiseError exitText backtrace
  { report with bench := report.bench.leave }

/-- `MainWindow::runTestScript`, with the row of the test in the list. -/
def runTestScript (report : Report) (row : Nat) (path : QString) (cancelled : Bool) : Report :=
  let bench := report.bench.runTestScript path cancelled
  if (report.bench.editTestScript path cancelled).1 then
    { report with bench := bench, testResult := .ofName (scriptName row) }
  else
    { report with bench := bench }

/-- `ScriptEditor::run`, with `MainWindow::runEditorTest`. -/
def runEditor (report : Report) : Report :=
  if report.bench.paused then
    { report with bench := { report.bench with paused := false } }
  else
    match report.bench.tests.idxOf? report.bench.filePath with
    | some row => report.runTestScript scriptName row report.bench.filePath false
    | none => report

/-- The loop of `MainWindow::runAllTests`, which shows the results at its end. -/
def runNext (report : Report) (next : Nat) (cancelled : List Bool) : Report :=
  match report.bench.tests[next]? with
  | some path =>
      let report :=
        { report with bench := report.bench.call (.waitForEndOfTest (next + 1) cancelled.tail) }
      report.runTestScript scriptName next path (cancelled.head?.getD false)
  | none =>
      { report with
        bench := { report.bench with testListEnabled := true, interactive := true }
        shownResults := some report.testResults }

/-- `MainWindow::runAllTests`. -/
def runAllTests (report : Report) (cancelled : List Bool) : Report :=
  let bench := { report.bench with interactive := false, testListEnabled := false }
  runNext scriptName { report with bench := bench, testResults := [] } 0 cancelled

/-- The end of `Interpreter::run`, with `MainWindow::testFinished`. -/
def finishRun (report : Report) : Report :=
  { report with
    bench := report.bench.finishRun
    testResults := report.testResults ++ [report.testResult] }

/-- The innermost loop ends, if it may. -/
def leave (report : Report) : Report :=
  match report.bench.stack with
  | .waitForEndOfTest next cancelled :: outer =>
      if report.bench.testRunning then report
      else runNext scriptName { report with bench := { report.bench with stack := outer } } next
        cancelled
  | _ => { report with bench := report.bench.leave }

/-! ## Steps -/

/-- A click on the button of a test that runs it. -/
def runTest (report : Report) (index : Nat) (cancelled : Bool) : Report :=
  if report.bench.testListEnabled then
    match report.bench.tests[index]? with
    | some path => report.runTestScript scriptName index path cancelled
    | none => report
  else
    report

def happen (report : Report) : Happening → Report
  | .run => if report.bench.handlesEvents then report.runEditor scriptName else report
  | .runTest index cancelled =>
      if report.bench.handlesEvents then report.runTest scriptName index cancelled else report
  | .runAllTests cancelled =>
      if report.bench.handlesEvents then report.runAllTests scriptName cancelled else report
  | .finishes => if report.bench.executes then report.finishRun else report
  | .leaves => report.leave scriptName
  | other => { report with bench := report.bench.step other }

/-- Messages are handled with the other events, exceptions come from the script, and the
connection can be lost while an acknowledgement is awaited. -/
def step (report : Report) : Occasion → Report
  | .happens happening _ => report.happen scriptName happening
  | .notFound path backtrace =>
      if report.bench.handlesEvents then report.objectNotFound tables path backtrace else report
  | .throws exception backtrace =>
      if report.bench.executes then report.exceptionThrow tables exception backtrace else report
  | .exits backtrace =>
      if report.bench.stack.head? = some .waitForAck then report.handleApplicationExit backtrace
      else report

end

section

variable {tables : CharacterTables} {scriptName : Nat → QString}

/-! ## The windows below the results -/

/-- A test is started unless the question about changes is cancelled. -/
theorem runTestScript_eq (report : Report) (row : Nat) (path : QString) (cancelled : Bool) :
    report.runTestScript scriptName row path cancelled =
      if path ≠ report.bench.filePath ∧ cancelled = true then
        report
      else
        { report with
          bench := Workbench.startRun { report.bench with
            filePath := path
            testRunning := true
            testListEnabled := false }
          testResult := .ofName (scriptName row) } := by
  rw [runTestScript, Workbench.runTestScript_eq, Workbench.editTestScript]
  by_cases same : path = report.bench.filePath
  · simp [same]
  · cases cancelled <;> simp [same]

theorem bench_runTestScript (report : Report) (row : Nat) (path : QString) (cancelled : Bool) :
    (report.runTestScript scriptName row path cancelled).bench =
      report.bench.runTestScript path cancelled := by
  rw [runTestScript]
  split_ifs <;> rfl

theorem bench_runNext (report : Report) (next : Nat) (cancelled : List Bool) :
    (report.runNext scriptName next cancelled).bench = report.bench.runNext next cancelled := by
  rw [runNext, Workbench.runNext]
  cases report.bench.tests[next]? with
  | some path => exact bench_runTestScript _ _ _ _
  | none => rfl

theorem idxOf?_unlisted {bench : Workbench} (unlisted : bench.filePath ∉ bench.tests) :
    bench.tests.idxOf? bench.filePath = none :=
  List.idxOf?_eq_none_iff.mpr unlisted

theorem bench_runEditor (report : Report) :
    (report.runEditor scriptName).bench = report.bench.runEditor := by
  rw [runEditor, Workbench.runEditor]
  split_ifs with paused listed
  · rfl
  · cases found : report.bench.tests.idxOf? report.bench.filePath with
    | some row => exact bench_runTestScript _ _ _ _
    | none => exact absurd listed (List.idxOf?_eq_none_iff.mp found)
  · rw [idxOf?_unlisted listed]

theorem bench_leave (report : Report) : (report.leave scriptName).bench = report.bench.leave := by
  rw [leave]
  split
  next next cancelled outer shape =>
    rw [Workbench.leave, shape]
    dsimp only
    split_ifs
    · rfl
    · exact bench_runNext _ _ _
  next => rfl

/-- The windows go on as they do without results. -/
theorem bench_happen (report : Report) (happening : Happening) :
    (report.happen scriptName happening).bench = report.bench.step happening := by
  cases happening with
  | run =>
      rw [happen, Workbench.step, Workbench.handle]
      split_ifs
      · exact bench_runEditor report
      · rfl
  | runTest index cancelled =>
      rw [happen, Workbench.step, Workbench.handle]
      split_ifs
      · rw [runTest, Workbench.onTest]
        split_ifs
        · cases report.bench.tests[index]? with
          | some path => exact bench_runTestScript _ _ _ _
          | none => rfl
        · rfl
      · rfl
  | runAllTests cancelled =>
      rw [happen, Workbench.step, Workbench.handle]
      split_ifs
      · exact bench_runNext _ _ _
      · rfl
  | finishes =>
      rw [happen, Workbench.step, Workbench.execute]
      split_ifs <;> rfl
  | leaves => exact bench_leave report
  | _ => rfl

end

/-! ## What is to be reported -/

/-- What is reported about a test after the errors that were raised: the last of them. -/
def verdict (name : QString) (raised : List Failure) : TestResult :=
  match raised.getLast? with
  | none => .ofName name
  | some failure => .ofError name failure.text failure.backtrace

theorem verdict_concat (name : QString) (raised : List Failure) (failure : Failure) :
    verdict name (raised ++ [failure]) = .ofError name failure.text failure.backtrace := by
  rw [verdict, List.getLast?_concat]

theorem name_verdict (name : QString) (raised : List Failure) :
    (verdict name raised).name = name := by
  rw [verdict]
  split <;> rfl

/-- A test passes exactly if no error was raised. -/
theorem passed_verdict_iff (name : QString) (raised : List Failure) :
    (verdict name raised).passed = true ↔ raised = [] := by
  rw [verdict, ← List.getLast?_eq_none_iff]
  cases raised.getLast? <;> simp [TestResult.ofName, TestResult.ofError]

section

variable (tables : CharacterTables) (scriptName : Nat → QString)

/-- The tests that are run, by their names: all from a row on, except those that the editor
is not allowed to show. -/
def agenda (filePath : QString) : Nat → List QString → List Bool → List QString
  | _, [], _ => []
  | row, path :: paths, cancelled =>
      if path ≠ filePath ∧ cancelled.head?.getD false = true then
        agenda filePath (row + 1) paths cancelled.tail
      else
        scriptName row :: agenda path (row + 1) paths cancelled.tail

/-- The errors that a step raises. -/
def raises (report : Report) : Occasion → List Failure
  | .happens _ _ => []
  | .notFound path backtrace =>
      if report.bench.handlesEvents then [⟨notFoundText tables path, backtrace⟩] else []
  | .throws exception backtrace =>
      if report.bench.executes then [⟨exceptionText tables exception, backtrace⟩] else []
  | .exits backtrace =>
      if report.bench.stack.head? = some .waitForAck then [⟨exitText, backtrace⟩] else []

/-- A step ends a test. -/
def ends (report : Report) : Occasion → Bool
  | .happens happening _ => happening = .finishes && report.bench.executes
  | .notFound _ _ | .throws _ _ | .exits _ => false

/-- The errors of a run, test by test. -/
def trials (report : Report) (raised : List Failure) : List Occasion → List (List Failure)
  | [] => []
  | occasion :: occasions =>
      let after := report.step tables scriptName occasion
      if report.ends occasion then
        raised :: trials after [] occasions
      else
        trials after (raised ++ report.raises tables occasion) occasions

end

/-- A step before all tests are done, with one run at a time. -/
def Pending (report : Report) (occasion : Occasion) : Prop :=
  report.bench.stack ≠ [] ∧
    match occasion with
    | .happens happening _ => report.bench.Guarded happening
    | .notFound _ _ | .throws _ _ | .exits _ => True

instance decidablePending (report : Report) (occasion : Occasion) :
    Decidable (report.Pending occasion) :=
  match occasion with
  | .happens happening _ => inferInstanceAs (Decidable (_ ∧ report.bench.Guarded happening))
  | .notFound _ _ | .throws _ _ | .exits _ => inferInstanceAs (Decidable (_ ∧ True))

/-! ## The results of a run -/

variable {tables : CharacterTables} {scriptName : Nat → QString}

/-- What remains to be run, with the errors of the test that is running. -/
inductive Underway (scriptName : Nat → QString) (report : Report) :
    List QString → List Failure → Prop where
  | testing {filePath : QString} {next : Nat} {later : List QString} {cancelled : List Bool}
      (name : QString) (raised : List Failure)
      (testing : report.bench.Testing filePath next later cancelled)
      (result : report.testResult = verdict name raised) :
      Underway scriptName report (name :: agenda scriptName filePath next later cancelled) raised
  | between {filePath : QString} {next : Nat} {later : List QString} {cancelled : List Bool}
      (between : report.bench.Between filePath next later cancelled) :
      Underway scriptName report (agenda scriptName filePath next later cancelled) []
  | finished (stack : report.bench.stack = [])
      (shown : report.shownResults = some report.testResults) :
      Underway scriptName report [] []

/-- The loop over all tests starts one, leaves one out, or ends. -/
theorem underway_runNext {report : Report} (stack : report.bench.stack = [])
    (resting : report.bench.testRunning = false) (headless : report.bench.interactive = false)
    (next : Nat) (cancelled : List Bool) :
    (report.runNext scriptName next cancelled).testResults = report.testResults ∧
      Underway scriptName (report.runNext scriptName next cancelled)
        (agenda scriptName report.bench.filePath next (report.bench.tests.drop next) cancelled)
        [] := by
  cases found : report.bench.tests[next]? with
  | none =>
      have shape : report.runNext scriptName next cancelled = { report with
          bench := { report.bench with testListEnabled := true, interactive := true }
          shownResults := some report.testResults } := by
        rw [runNext, found]
      rw [shape, List.drop_eq_nil_of_le (List.getElem?_eq_none_iff.mp found)]
      exact ⟨rfl, .finished stack rfl⟩
  | some path =>
      obtain ⟨inside, isPath⟩ := List.getElem?_eq_some_iff.mp found
      have later : report.bench.tests.drop next = path :: report.bench.tests.drop (next + 1) := by
        rw [List.drop_eq_getElem_cons inside, isPath]
      rw [later, agenda, runNext, found]
      dsimp only
      rw [runTestScript_eq]
      by_cases cancels : path ≠ report.bench.filePath ∧ cancelled.head?.getD false = true
      · rw [if_pos cancels, if_pos (by exact cancels)]
        exact ⟨rfl, .between ⟨congrArg _ stack, rfl, rfl, headless, resting⟩⟩
      · rw [if_neg cancels, if_neg (by exact cancels)]
        refine ⟨rfl, .testing _ _ ?_ rfl⟩
        refine ⟨⟨[], List.forall_mem_nil _, ?_⟩, rfl, rfl, ?_, headless, rfl, rfl⟩
        · exact congrArg (fun stack => Activation.run :: .waitForEndOfTest _ _ :: stack) stack
        · exact List.ne_nil_of_mem (List.mem_of_getElem? found)

section

variable {report : Report} {filePath : QString} {next : Nat} {later : List QString}
  {cancelled : List Bool}

/-- While a test is running, the results stay as they are, unless the windows are stuck. -/
theorem results_happen (testing : report.bench.Testing filePath next later cancelled)
    {happening : Happening} (guarded : report.bench.Guarded happening)
    (goesOn : happening = .finishes → report.bench.executes = false) :
    (report.bench.step happening).Stuck ∨
      (report.happen scriptName happening).testResult = report.testResult ∧
        (report.happen scriptName happening).testResults = report.testResults := by
  cases happening with
  | run =>
      right
      rw [happen]
      split_ifs with handles
      · have allowed := (guarded.resolve_left testing.runs_ne).resolve_left (by simp [handles])
        rw [runEditor]
        split_ifs with paused
        · exact ⟨rfl, rfl⟩
        · rw [idxOf?_unlisted (allowed.resolve_left paused)]
          exact ⟨rfl, rfl⟩
      · exact ⟨rfl, rfl⟩
  | runTest index answer =>
      right
      rw [happen, runTest, testing.listDisabled, if_neg Bool.false_ne_true, ite_self]
      exact ⟨rfl, rfl⟩
  | runAllTests answers =>
      rw [happen, Workbench.step, Workbench.handle]
      split_ifs with handles
      · left
        have first := (guarded.resolve_left testing.runs_ne).resolve_left (by simp [handles])
        exact testing.runAllTests first
      · exact .inr ⟨rfl, rfl⟩
  | finishes =>
      right
      rw [happen, goesOn rfl]
      exact ⟨rfl, rfl⟩
  | leaves =>
      right
      obtain ⟨loops, waits, shape⟩ := testing.stack
      rw [happen, leave]
      split
      next row answers outer found =>
        cases loops with
        | nil => simp [shape] at found
        | cons loop loops =>
            have waiting := waits loop List.mem_cons_self
            rw [shape, List.cons_append, List.cons.injEq] at found
            rw [found.1] at waiting
            cases waiting
      next => exact ⟨rfl, rfl⟩
  | _ => exact .inr ⟨rfl, rfl⟩

/-- What is raised replaces the result. -/
theorem testResult_raiseError {name : QString} {raised : List Failure}
    (result : report.testResult = verdict name raised) (failure : Failure) :
    (report.raiseError failure.text failure.backtrace).testResult =
      verdict name (raised ++ [failure]) := by
  rw [verdict_concat, raiseError, result, name_verdict]

/-- What a step leads to: the windows are stuck, or the test is done, or it goes on. -/
def Progresses (tables : CharacterTables) (scriptName : Nat → QString) (report : Report)
    (occasion : Occasion) (names : List QString) (raised : List Failure) : Prop :=
  let after := report.step tables scriptName occasion
  after.bench.Stuck ∨
    if report.ends occasion = true then
      ∃ name rest, names = name :: rest ∧
        after.testResults = report.testResults ++ [verdict name raised] ∧
        Underway scriptName after rest []
    else
      after.testResults = report.testResults ∧
        Underway scriptName after names (raised ++ report.raises tables occasion)

/-- A step while a test is running. -/
theorem progresses_testing (testing : report.bench.Testing filePath next later cancelled)
    {name : QString} {raised : List Failure} (result : report.testResult = verdict name raised)
    {occasion : Occasion} (pending : report.Pending occasion) :
    Progresses tables scriptName report occasion
      (name :: agenda scriptName filePath next later cancelled) raised := by
  have same : Underway scriptName report
      (name :: agenda scriptName filePath next later cancelled) (raised ++ []) := by
    rw [List.append_nil]
    exact .testing name raised testing result
  cases occasion with
  | happens happening other =>
      by_cases done : happening = .finishes ∧ report.bench.executes = true
      · obtain ⟨rfl, executes⟩ := done
        right
        rw [ends, executes, if_pos (by decide), step, happen, executes, if_pos rfl]
        refine ⟨name, _, rfl, ?_, .between (testing.finishRun executes)⟩
        rw [finishRun, result]
      · have goesOn (finishes : happening = .finishes) : report.bench.executes = false :=
          Bool.eq_false_of_not_eq_true fun executes => done ⟨finishes, executes⟩
        have staysOpen : report.ends (.happens happening other) = false := by
          rw [ends, Bool.and_eq_false_imp]
          exact fun finishes => goesOn (of_decide_eq_true finishes)
        rw [Progresses, staysOpen, step, bench_happen, if_neg Bool.false_ne_true]
        rcases results_happen testing pending.2 goesOn with stuck | ⟨sameResult, sameResults⟩
        · exact .inl stuck
        rcases testing.step pending.2 goesOn with stays | stuck
        · right
          rw [raises, List.append_nil]
          refine ⟨sameResults, .testing name raised ?_ (sameResult.trans result)⟩
          rw [bench_happen]
          exact stays
        · exact .inl stuck
  | notFound path backtrace =>
      right
      rw [step, raises, ends, if_neg Bool.false_ne_true]
      split_ifs
      · refine ⟨rfl, .testing name _ ?_ (testResult_raiseError result ⟨_, backtrace⟩)⟩
        rw [objectNotFound]
        dsimp only
        rw [raiseError, testing.pause_eq]
        exact testing
      · exact ⟨rfl, same⟩
  | throws exception backtrace =>
      right
      rw [step, raises, ends, if_neg Bool.false_ne_true]
      split_ifs
      · exact ⟨rfl, .testing name _ testing (testResult_raiseError result ⟨_, backtrace⟩)⟩
      · exact ⟨rfl, same⟩
  | exits backtrace =>
      right
      rw [step, raises, ends, if_neg Bool.false_ne_true]
      split_ifs
      · exact ⟨rfl, .testing name _ testing.leave (testResult_raiseError result ⟨_, backtrace⟩)⟩
      · exact ⟨rfl, same⟩

theorem happen_between (between : report.bench.Between filePath next later cancelled)
    {happening : Happening} (other : happening ≠ .leaves) :
    report.happen scriptName happening = report := by
  cases happening with
  | run => rw [happen, between.handlesEvents_eq, if_neg Bool.false_ne_true]
  | runTest index answer => rw [happen, between.handlesEvents_eq, if_neg Bool.false_ne_true]
  | runAllTests answers => rw [happen, between.handlesEvents_eq, if_neg Bool.false_ne_true]
  | finishes => rw [happen, between.executes_eq, if_neg Bool.false_ne_true]
  | leaves => exact absurd rfl other
  | _ => exact congrArg (fun bench => { report with bench := bench }) (between.step_eq other)

/-- The loop that waits between two tests ends, and the loop over all tests goes on. -/
theorem leave_between (between : report.bench.Between filePath next later cancelled) :
    (report.leave scriptName).testResults = report.testResults ∧
      Underway scriptName (report.leave scriptName)
        (agenda scriptName filePath next later cancelled) [] := by
  have resting : ¬report.bench.testRunning = true := by simp [between.testRunning]
  rw [leave, between.stack]
  dsimp only
  rw [if_neg resting, ← between.filePath, ← between.later]
  apply underway_runNext rfl
  · exact between.testRunning
  · exact between.headless

/-- Between two tests only the loop that waits goes on. -/
theorem progresses_between (between : report.bench.Between filePath next later cancelled)
    {occasion : Occasion} :
    Progresses tables scriptName report occasion (agenda scriptName filePath next later cancelled)
      [] := by
  have same : Underway scriptName report (agenda scriptName filePath next later cancelled)
      ([] ++ []) := .between between
  right
  cases occasion with
  | happens happening other =>
      have stays : report.ends (.happens happening other) = false := by
        rw [ends, between.executes_eq, Bool.and_false]
      rw [stays, step, raises, if_neg Bool.false_ne_true, List.append_nil]
      by_cases leaves : happening = .leaves
      · rw [leaves]
        exact leave_between between
      · rw [happen_between between leaves]
        exact ⟨rfl, same⟩
  | notFound path backtrace =>
      rw [step, raises, ends, between.handlesEvents_eq, if_neg Bool.false_ne_true,
        if_neg Bool.false_ne_true]
      exact ⟨rfl, same⟩
  | throws exception backtrace =>
      rw [step, raises, ends, between.executes_eq, if_neg Bool.false_ne_true,
        if_neg Bool.false_ne_true]
      exact ⟨rfl, same⟩
  | exits backtrace =>
      rw [step, raises, ends, between.stack, if_neg Bool.false_ne_true,
        if_neg (by simp), if_neg (by simp)]
      exact ⟨rfl, same⟩

end

/-- A step before all tests are done. -/
theorem Underway.progresses {report : Report} {names : List QString} {raised : List Failure}
    (underway : Underway scriptName report names raised) {occasion : Occasion}
    (pending : report.Pending occasion) :
    Progresses tables scriptName report occasion names raised := by
  cases underway with
  | testing name raised testing result => exact progresses_testing testing result pending
  | between between => exact progresses_between between
  | finished stack shown => exact absurd stack pending.1

theorem stuck_step {report : Report} (stuck : report.bench.Stuck) {occasion : Occasion}
    (pending : report.Pending occasion) :
    (report.step tables scriptName occasion).bench.Stuck := by
  cases occasion with
  | happens happening other =>
      rw [step, bench_happen]
      exact stuck.step pending.2
  | notFound path backtrace =>
      rw [step]
      split_ifs
      · exact stuck.pause
      · exact stuck
  | throws exception backtrace =>
      rw [step]
      split_ifs <;> exact stuck
  | exits backtrace =>
      rw [step]
      split_ifs
      · exact stuck.leave
      · exact stuck

/-- Windows that are stuck are never done. -/
theorem stuck_run (occasions : List Occasion) {report : Report} (stuck : report.bench.Stuck)
    (pending : Library.Run.StepsMeet (step tables scriptName) Pending report occasions) :
    (occasions.foldl (step tables scriptName) report).bench.stack ≠ [] := by
  induction occasions generalizing report with
  | nil => exact stuck.stack_ne
  | cons occasion occasions ih =>
      obtain ⟨here, later⟩ := Library.Run.stepsMeet_cons.mp pending
      exact ih (stuck_step stuck here) later

/-- Once all tests are done, the results are those of the tests that remained, after those
that were there. -/
theorem Underway.run (occasions : List Occasion) {report : Report} {names : List QString}
    {raised : List Failure} (underway : Underway scriptName report names raised)
    (pending : Library.Run.StepsMeet (step tables scriptName) Pending report occasions)
    (done : (occasions.foldl (step tables scriptName) report).bench.stack = []) :
    names.length = (trials tables scriptName report raised occasions).length ∧
      (occasions.foldl (step tables scriptName) report).shownResults =
        some (report.testResults ++
          List.zipWith verdict names (trials tables scriptName report raised occasions)) := by
  induction occasions generalizing report names raised with
  | nil =>
      cases underway with
      | testing name raised testing result => exact absurd done testing.stack_ne
      | between between => exact absurd done (by simp [between.stack])
      | finished stack shown =>
          refine ⟨rfl, ?_⟩
          rw [List.zipWith_nil_left, List.append_nil]
          exact shown
  | cons occasion occasions ih =>
      obtain ⟨here, later⟩ := Library.Run.stepsMeet_cons.mp pending
      rw [List.foldl_cons] at done ⊢
      rw [trials]
      rcases underway.progresses here with stuck | progress
      · exact absurd done (stuck_run occasions stuck later)
      split_ifs at progress ⊢ with ended
      · obtain ⟨name, rest, rfl, results, underway⟩ := progress
        obtain ⟨lengths, shown⟩ := ih underway later done
        refine ⟨congrArg (· + 1) lengths, ?_⟩
        rw [shown, results, List.append_assoc, List.zipWith_cons_cons]
        rfl
      · obtain ⟨results, underway⟩ := progress
        obtain ⟨lengths, shown⟩ := ih underway later done
        refine ⟨lengths, ?_⟩
        rw [shown, results]

/-- In whatever order things happen after a click that runs all tests from idle windows, one
run at a time: when everything is done, the results window shows one result for each test
that was to be run, in the order of the list, and it tells the last error raised while that
test ran, or that there was none. -/
theorem shownResults_runAllTests {report : Report} (idle : report.bench.stack = [])
    (resting : report.bench.testRunning = false) (answers : List Bool)
    (occasions : List Occasion)
    (pending : Library.Run.StepsMeet (step tables scriptName) Pending
      (report.runAllTests scriptName answers) occasions)
    (done : (occasions.foldl (step tables scriptName)
      (report.runAllTests scriptName answers)).bench.stack = []) :
    let names := agenda scriptName report.bench.filePath 0 report.bench.tests answers
    let raised := trials tables scriptName (report.runAllTests scriptName answers) [] occasions
    names.length = raised.length ∧
      (occasions.foldl (step tables scriptName)
        (report.runAllTests scriptName answers)).shownResults =
          some (List.zipWith verdict names raised) := by
  have start : (report.runAllTests scriptName answers).testResults = [] ∧
      Underway scriptName (report.runAllTests scriptName answers)
        (agenda scriptName report.bench.filePath 0 report.bench.tests answers) [] := by
    apply underway_runNext
    · exact idle
    · exact resting
    · rfl
  have shown := start.2.run occasions pending done
  rw [start.1, List.nil_append] at shown
  exact shown

/-- Two tests are run.  In the second one an object is missing, and then the application is
gone. -/
def oneLost : List Occasion :=
  [.happens .needsAttach (by decide), .happens .connected (by decide),
    .happens .leaves (by decide), .happens .awaitsAck (by decide), .happens .leaves (by decide),
    .happens .finishes (by decide), .happens .leaves (by decide),
    .happens .needsAttach (by decide), .happens .connected (by decide),
    .happens .leaves (by decide), .happens .awaitsAck (by decide), .notFound "window" [],
    .exits ["run"], .happens .finishes (by decide), .happens .leaves (by decide)]

/-- The windows before the tests are run. -/
def idleReport : Report :=
  ⟨.idle ["a.qs", "b.qs"] "", ⟨[], false, [], []⟩, [], none⟩

theorem oneLost_shown :
    (oneLost.foldl (step separatorTables (["a", "b"].getD · ""))
      (idleReport.runAllTests (["a", "b"].getD · "") [])).shownResults =
        some [.ofName "a", .ofError "b" exitText ["run"]] := by
  have pending : Library.Run.StepsMeet (step separatorTables (["a", "b"].getD · "")) Pending
      (idleReport.runAllTests (["a", "b"].getD · "") []) oneLost := by
    decide +kernel
  have done : (oneLost.foldl (step separatorTables (["a", "b"].getD · ""))
      (idleReport.runAllTests (["a", "b"].getD · "") [])).bench.stack = [] := by
    decide +kernel
  have results : List.zipWith verdict
      (agenda (["a", "b"].getD · "") idleReport.bench.filePath 0 idleReport.bench.tests [])
      (trials separatorTables (["a", "b"].getD · "")
        (idleReport.runAllTests (["a", "b"].getD · "") []) [] oneLost) =
        [.ofName "a", .ofError "b" exitText ["run"]] := by
    decide +kernel
  have shown := (shownResults_runAllTests rfl rfl [] oneLost pending done).2
  rw [results] at shown
  exact shown

end Report
end Hooq
