import Hooq.Control.Attachment

/-!
# Running tests from the windows

A test is run by a call that only returns when its script is done.  Until then the loops
of the interpreter and of the editor handle whatever the user does, on top of the script
that waits.  The functions that have not returned are on a stack, the innermost one first.
Questions to the user are answered at once.
-/

namespace Hooq

/-- A function that has not returned: `Interpreter::run`, while the script is executed, and
the loops that handle events.  The loop of `waitForEndOfTest` knows how `runAllTests` goes
on: the next test, and which questions about changes are going to be cancelled. -/
inductive Activation where
  | run
  | waitForAck
  | waitForAttach
  | waitForDumpedObject
  | pause
  | waitForEndOfTest (next : Nat) (cancelled : List Bool)
  deriving DecidableEq, Repr

/-- The windows and the interpreter.  `tests` are the paths of the listed tests, and
`filePath` is that of the editor. -/
structure Workbench where
  stack : List Activation
  tests : List QString
  filePath : QString
  paused : Bool
  interactive : Bool
  testListEnabled : Bool
  testRunning : Bool
  attachState : AttachState
  applicationUuid : Option Nat
  deriving DecidableEq, Repr

/-- What can happen next.  The user acts and answers questions about changes; messages
arrive; the script takes a step; and a loop ends. -/
inductive Happening where
  | run
  | stop
  | pick
  | runTest (index : Nat) (cancelled : Bool)
  | editTest (index : Nat) (cancelled : Bool)
  | runAllTests (cancelled : List Bool)
  | notFound
  | connected
  | needsAttach
  | launches (uuid : Nat)
  | awaitsAck
  | awaitsDump
  | closesApplication
  | reachesBreakpoint
  | finishes
  | leaves
  deriving DecidableEq, Repr

namespace Workbench

/-- The windows before anything is run. -/
def idle (tests : List QString) (filePath : QString) : Workbench where
  stack := []
  tests := tests
  filePath := filePath
  paused := false
  interactive := true
  testListEnabled := true
  testRunning := false
  attachState := .notAttached
  applicationUuid := none

/-- Events are handled: by the loop of the application, or by the innermost loop. -/
def handlesEvents (bench : Workbench) : Bool :=
  match bench.stack with
  | [] => true
  | .run :: _ => false
  | .waitForEndOfTest _ _ :: _ => bench.testRunning
  | _ => true

/-- The innermost function executes a script. -/
def executes (bench : Workbench) : Bool :=
  bench.stack.head? = some .run

def call (bench : Workbench) (activation : Activation) : Workbench :=
  { bench with stack := activation :: bench.stack }

/-! ## Functions of the program -/

/-- `MainWindow::editTestScript`: whether the editor shows the test.  It does not ask
about changes when it shows it already. -/
def editTestScript (bench : Workbench) (path : QString) (cancelled : Bool) :
    Bool × Workbench :=
  if path = bench.filePath then
    (true, bench)
  else if cancelled then
    (false, bench)
  else
    (true, { bench with filePath := path })

/-- The start of `Interpreter::run`. -/
def startRun (bench : Workbench) : Workbench :=
  { bench.call .run with applicationUuid := none, attachState := .notAttached }

/-- `MainWindow::runTestScript`. -/
def runTestScript (bench : Workbench) (path : QString) (cancelled : Bool) : Workbench :=
  let (shown, bench) := bench.editTestScript path cancelled
  if shown then
    startRun { bench with testRunning := true, testListEnabled := false }
  else
    bench

/-- `ScriptEditor::run`, with `MainWindow::runEditorTest`. -/
def runEditor (bench : Workbench) : Workbench :=
  if bench.paused then
    { bench with paused := false }
  else if bench.filePath ∈ bench.tests then
    bench.runTestScript bench.filePath false
  else
    bench

/-- The loop of `MainWindow::runAllTests`, which waits after each test. -/
def runNext (bench : Workbench) (next : Nat) (cancelled : List Bool) : Workbench :=
  match bench.tests[next]? with
  | some path =>
      (bench.call (.waitForEndOfTest (next + 1) cancelled.tail)).runTestScript path
        (cancelled.head?.getD false)
  | none => { bench with testListEnabled := true, interactive := true }

/-- `MainWindow::runAllTests`. -/
def runAllTests (bench : Workbench) (cancelled : List Bool) : Workbench :=
  runNext { bench with interactive := false, testListEnabled := false } 0 cancelled

/-- `ScriptEditor::pause`.  Without a user the script is aborted instead. -/
def pause (bench : Workbench) : Workbench :=
  if bench.interactive then
    { bench.call .pause with paused := true }
  else
    bench

/-- `Interpreter::waitForAttach`. -/
def waitForAttach (bench : Workbench) : Workbench :=
  match bench.attachState with
  | .notAttached => { bench.call .waitForAttach with attachState := .waitingForAttach }
  | .waitingForAttach => bench.call .waitForAttach
  | .attached => bench

/-- The end of `Interpreter::closeApplication`. -/
def closeApplication (bench : Workbench) : Workbench :=
  { bench with attachState := .notAttached, applicationUuid := none }

/-- The end of `Interpreter::run`, with `MainWindow::testFinished`. -/
def finishRun (bench : Workbench) : Workbench :=
  { bench.closeApplication with
    stack := bench.stack.tail, testRunning := false, testListEnabled := true }

/-- The innermost loop ends, if it may. -/
def leave (bench : Workbench) : Workbench :=
  match bench.stack with
  | .waitForAck :: outer | .waitForDumpedObject :: outer => { bench with stack := outer }
  | .waitForAttach :: outer =>
      if bench.attachState = .attached then { bench with stack := outer } else bench
  | .pause :: outer => if bench.paused then bench else { bench with stack := outer }
  | .waitForEndOfTest next cancelled :: outer =>
      if bench.testRunning then bench
      else runNext { bench with stack := outer } next cancelled
  | _ => bench

/-! ## Steps -/

/-- An event, when events are handled. -/
def handle (bench : Workbench) (handler : Workbench → Workbench) : Workbench :=
  if bench.handlesEvents then handler bench else bench

/-- A step of a script, when one is executed. -/
def execute (bench : Workbench) (action : Workbench → Workbench) : Workbench :=
  if bench.executes then action bench else bench

/-- The handler of a click on a test, when the list is enabled. -/
def onTest (index : Nat) (action : Workbench → QString → Workbench) (bench : Workbench) :
    Workbench :=
  if bench.testListEnabled then
    match bench.tests[index]? with
    | some path => action bench path
    | none => bench
  else
    bench

def step (bench : Workbench) : Happening → Workbench
  | .run => bench.handle runEditor
  | .stop => bench.handle fun bench => { bench with paused := false }
  | .pick => bench.handle id
  | .runTest index cancelled =>
      bench.handle <| onTest index fun bench path => bench.runTestScript path cancelled
  | .editTest index cancelled =>
      bench.handle <| onTest index fun bench path => (bench.editTestScript path cancelled).2
  | .runAllTests cancelled => bench.handle fun bench => bench.runAllTests cancelled
  | .notFound => bench.handle pause
  | .connected => bench.handle fun bench => { bench with attachState := .attached }
  | .needsAttach => bench.execute waitForAttach
  | .launches uuid =>
      bench.execute fun bench => waitForAttach { bench with applicationUuid := some uuid }
  | .awaitsAck => bench.execute fun bench => bench.call .waitForAck
  | .awaitsDump => bench.execute fun bench => bench.call .waitForDumpedObject
  | .closesApplication => bench.execute closeApplication
  | .reachesBreakpoint => bench.execute pause
  | .finishes => bench.execute finishRun
  | .leaves => bench.leave

/-- How many activations of `Interpreter::run` are on the stack. -/
def runs (bench : Workbench) : Nat :=
  bench.stack.count .run

/-! ## One run at a time -/

variable {bench : Workbench}

/-- While a test is running, the test of the editor is run only when the editor is paused
or shows no listed test, and all tests are run only when the first one is cancelled. -/
def Guarded (bench : Workbench) : Happening → Prop
  | .run =>
      bench.runs = 0 ∨ bench.handlesEvents = false ∨ bench.paused = true ∨
        bench.filePath ∉ bench.tests
  | .runAllTests cancelled =>
      bench.runs = 0 ∨ bench.handlesEvents = false ∨
        ∀ path, bench.tests.head? = some path →
          path ≠ bench.filePath ∧ cancelled.head?.getD false = true
  | _ => True

/-- There is at most one run, and the windows know of it. -/
structure Single (bench : Workbench) : Prop where
  runs_le : bench.runs ≤ 1
  testRunning : bench.testRunning = false → bench.runs = 0
  testListEnabled : bench.testListEnabled = true → bench.runs = 0
  tests : bench.tests = [] → bench.runs = 0

theorem Single.of_idle (idle : bench.runs = 0) : bench.Single :=
  ⟨by rw [idle]; exact Nat.zero_le 1, fun _ => idle, fun _ => idle, fun _ => idle⟩

/-- Only the stack and the state of the windows count. -/
theorem Single.congr (single : bench.Single) {other : Workbench}
    (runs : other.runs = bench.runs) (testRunning : other.testRunning = bench.testRunning)
    (testListEnabled : other.testListEnabled = bench.testListEnabled)
    (tests : other.tests = bench.tests) : other.Single := by
  constructor
  · rw [runs]
    exact single.runs_le
  · rw [runs, testRunning]
    exact single.testRunning
  · rw [runs, testListEnabled]
    exact single.testListEnabled
  · rw [runs, tests]
    exact single.tests

theorem runs_call (activation : Activation) (other : activation ≠ .run) :
    (bench.call activation).runs = bench.runs :=
  List.count_cons_of_ne other

@[simp] theorem runs_startRun : bench.startRun.runs = bench.runs + 1 :=
  List.count_cons_self

/-- A test is started unless the question about changes is cancelled. -/
theorem runTestScript_eq (path : QString) (cancelled : Bool) :
    bench.runTestScript path cancelled =
      if path ≠ bench.filePath ∧ cancelled = true then
        bench
      else
        startRun
          { bench with filePath := path, testRunning := true, testListEnabled := false } := by
  rw [runTestScript, editTestScript]
  by_cases same : path = bench.filePath
  · simp [same]
  · cases cancelled <;> simp [same]

/-- From a bench without a run, starting a test leads to a single run. -/
theorem single_runTestScript (idle : bench.runs = 0) (listed : bench.tests ≠ [])
    (path : QString) (cancelled : Bool) : (bench.runTestScript path cancelled).Single := by
  rw [runTestScript_eq]
  split_ifs
  · exact .of_idle idle
  · have runs : (startRun { bench with
        filePath := path, testRunning := true, testListEnabled := false }).runs = 1 := by
      rw [runs_startRun]
      exact congrArg (· + 1) idle
    exact ⟨Nat.le_of_eq runs, nofun, nofun, fun none => absurd none listed⟩

theorem single_runNext (idle : bench.runs = 0) (next : Nat) (cancelled : List Bool) :
    (bench.runNext next cancelled).Single := by
  rw [runNext]
  split
  next path found =>
    have waiting : (bench.call (.waitForEndOfTest (next + 1) cancelled.tail)).runs = 0 :=
      (runs_call (.waitForEndOfTest _ _) nofun).trans idle
    have listed : bench.tests ≠ [] := List.ne_nil_of_mem (List.mem_of_getElem? found)
    exact single_runTestScript waiting listed _ _
  next => exact .of_idle idle

/-- While a test is running, nothing is started when the question is cancelled. -/
theorem single_runFirst (single : bench.Single) {cancelled : List Bool}
    (first : ∀ path, bench.tests.head? = some path →
      path ≠ bench.filePath ∧ cancelled.head?.getD false = true) :
    (bench.runNext 0 cancelled).Single := by
  rw [runNext]
  split
  next path found =>
    have cancels := first path (List.head?_eq_getElem? ▸ found)
    rw [runTestScript_eq, if_pos (by exact cancels)]
    exact single.congr (runs_call (.waitForEndOfTest _ _) nofun) rfl rfl rfl
  next missing =>
    have none : bench.tests = [] := by simpa using missing
    exact .of_idle (single.tests none)

theorem single_runAllTests (single : bench.Single) {cancelled : List Bool}
    (guarded : bench.runs = 0 ∨ ∀ path, bench.tests.head? = some path →
      path ≠ bench.filePath ∧ cancelled.head?.getD false = true) :
    (bench.runAllTests cancelled).Single := by
  have prepared : Single { bench with interactive := false, testListEnabled := false } :=
    ⟨single.runs_le, single.testRunning, nofun, single.tests⟩
  rw [runAllTests]
  rcases guarded with idle | first
  · apply single_runNext
    exact idle
  · exact single_runFirst prepared first

theorem Single.handle (single : bench.Single) {handler : Workbench → Workbench}
    (kept : bench.handlesEvents = true → (handler bench).Single) :
    (bench.handle handler).Single := by
  rw [Workbench.handle]
  split_ifs with handles
  · exact kept handles
  · exact single

theorem Single.execute (single : bench.Single) {action : Workbench → Workbench}
    (kept : bench.executes = true → (action bench).Single) : (bench.execute action).Single := by
  rw [Workbench.execute]
  split_ifs with executes
  · exact kept executes
  · exact single

theorem Single.onTest (single : bench.Single) {index : Nat}
    {action : Workbench → QString → Workbench}
    (kept : ∀ path ∈ bench.tests, bench.testListEnabled = true → (action bench path).Single) :
    (onTest index action bench).Single := by
  rw [Workbench.onTest]
  split_ifs with enabled
  · split
    next path found => exact kept path (List.mem_of_getElem? found) enabled
    next => exact single
  · exact single

theorem single_pause (single : bench.Single) : bench.pause.Single := by
  rw [pause]
  split_ifs
  · exact single.congr (runs_call .pause nofun) rfl rfl rfl
  · exact single

theorem single_waitForAttach (single : bench.Single) : bench.waitForAttach.Single := by
  rw [waitForAttach]
  split
  · exact single.congr (runs_call .waitForAttach nofun) rfl rfl rfl
  · exact single.congr (runs_call .waitForAttach nofun) rfl rfl rfl
  · exact single

theorem single_editTestScript (single : bench.Single) (path : QString) (cancelled : Bool) :
    (bench.editTestScript path cancelled).2.Single := by
  rw [editTestScript]
  split_ifs
  · exact single
  · exact single
  · exact single.congr rfl rfl rfl rfl

theorem single_runEditor (single : bench.Single)
    (guarded : bench.runs = 0 ∨ bench.paused = true ∨ bench.filePath ∉ bench.tests) :
    bench.runEditor.Single := by
  rw [runEditor]
  split_ifs with paused listed
  · exact single.congr rfl rfl rfl rfl
  · have idle : bench.runs = 0 :=
      guarded.resolve_right fun either => either.elim paused fun unlisted => unlisted listed
    exact single_runTestScript idle (List.ne_nil_of_mem listed) _ _
  · exact single

theorem single_finishRun (single : bench.Single) (executes : bench.executes = true) :
    bench.finishRun.Single := by
  obtain ⟨outer, shape⟩ : ∃ outer, bench.stack = .run :: outer :=
    ⟨bench.stack.tail, (List.cons_head?_tail (of_decide_eq_true executes)).symm⟩
  have runs := single.runs_le
  rw [Workbench.runs, shape, List.count_cons_self] at runs
  apply Single.of_idle
  rw [Workbench.runs, finishRun, shape]
  exact Nat.le_zero.mp (Nat.le_of_succ_le_succ runs)

theorem single_leave (single : bench.Single) : bench.leave.Single := by
  have popped : ∀ activation outer, bench.stack = activation :: outer → activation ≠ .run →
      Single { bench with stack := outer } := by
    intro activation outer shape other
    have runs : Workbench.runs { bench with stack := outer } = bench.runs := by
      rw [Workbench.runs, Workbench.runs, shape, List.count_cons_of_ne other]
    exact single.congr runs rfl rfl rfl
  rw [leave]
  split
  next outer shape => exact popped _ _ shape nofun
  next outer shape => exact popped _ _ shape nofun
  next outer shape =>
    split_ifs
    · exact popped _ _ shape nofun
    · exact single
  next outer shape =>
    split_ifs
    · exact single
    · exact popped _ _ shape nofun
  next next cancelled outer shape =>
    split_ifs with running
    · exact single
    · apply single_runNext
      have idle := (popped _ _ shape nofun).testRunning (Bool.eq_false_of_not_eq_true running)
      exact idle
  next => exact single

/-- Guarded steps keep runs single. -/
theorem single_step (single : bench.Single) {happening : Happening}
    (guarded : bench.Guarded happening) : (bench.step happening).Single := by
  cases happening with
  | run =>
      apply single.handle
      intro handles
      exact single_runEditor single
        (guarded.imp_right fun later => later.resolve_left (by simp [handles]))
  | stop =>
      apply single.handle
      exact fun _ => single.congr rfl rfl rfl rfl
  | pick => exact single.handle fun _ => single
  | runTest index cancelled =>
      refine single.handle fun _ => single.onTest fun path listed enabled => ?_
      exact single_runTestScript (single.testListEnabled enabled) (List.ne_nil_of_mem listed) _ _
  | editTest index cancelled =>
      exact single.handle fun _ => single.onTest fun path _ _ =>
        single_editTestScript single path cancelled
  | runAllTests cancelled =>
      apply single.handle
      intro handles
      exact single_runAllTests single
        (guarded.imp_right fun later => later.resolve_left (by simp [handles]))
  | notFound => exact single.handle fun _ => single_pause single
  | connected =>
      apply single.handle
      exact fun _ => single.congr rfl rfl rfl rfl
  | needsAttach => exact single.execute fun _ => single_waitForAttach single
  | launches uuid =>
      apply single.execute
      intro _
      have launched : Single { bench with applicationUuid := some uuid } :=
        single.congr rfl rfl rfl rfl
      exact single_waitForAttach launched
  | awaitsAck =>
      apply single.execute
      exact fun _ => single.congr (runs_call .waitForAck nofun) rfl rfl rfl
  | awaitsDump =>
      apply single.execute
      exact fun _ => single.congr (runs_call .waitForDumpedObject nofun) rfl rfl rfl
  | closesApplication =>
      apply single.execute
      exact fun _ => single.congr rfl rfl rfl rfl
  | reachesBreakpoint => exact single.execute fun _ => single_pause single
  | finishes => exact single.execute fun executes => single_finishRun single executes
  | leaves => exact single_leave single

theorem runs_runTestScript {path : QString} {cancelled : Bool}
    (starts : ¬(path ≠ bench.filePath ∧ cancelled = true)) :
    (bench.runTestScript path cancelled).runs = bench.runs + 1 := by
  rw [runTestScript_eq, if_neg starts, runs_startRun]
  rfl

theorem runs_runNext (bench : Workbench) {next : Nat} {path : QString}
    (found : bench.tests[next]? = some path) {cancelled : List Bool}
    (starts : ¬(path ≠ bench.filePath ∧ cancelled.head?.getD false = true)) :
    (bench.runNext next cancelled).runs = bench.runs + 1 := by
  have waiting : (bench.call (.waitForEndOfTest (next + 1) cancelled.tail)).runs = bench.runs :=
    runs_call (.waitForEndOfTest _ _) nofun
  rw [runNext, found]
  exact (runs_runTestScript (by exact starts)).trans (congrArg (· + 1) waiting)

/-- A step that is not guarded starts a run on top of another one. -/
theorem runs_of_not_guarded {happening : Happening} (missed : ¬bench.Guarded happening) :
    ¬(bench.step happening).runs ≤ 1 := by
  cases happening with
  | run =>
      simp only [Guarded, not_or, not_not] at missed
      obtain ⟨running, handles, unpaused, listed⟩ := missed
      have step : bench.step .run = bench.runTestScript bench.filePath false := by
        simp [Workbench.step, handle, runEditor, handles, unpaused, listed]
      rw [step, runs_runTestScript fun both => both.1 rfl]
      omega
  | runAllTests cancelled =>
      simp only [Guarded, not_or, not_forall] at missed
      obtain ⟨running, handles, path, found, starts⟩ := missed
      have step : bench.step (.runAllTests cancelled) = bench.runAllTests cancelled := by
        simp [Workbench.step, handle, handles]
      have first : bench.tests[0]? = some path := List.head?_eq_getElem? ▸ found
      have runs : (bench.runAllTests cancelled).runs = bench.runs + 1 := by
        rw [runAllTests]
        exact runs_runNext { bench with interactive := false, testListEnabled := false } first
          starts
      rw [step, runs]
      omega
  | _ => exact absurd trivial missed

/-- There is never more than one run exactly when all steps are guarded. -/
theorem single_run_iff (tests : List QString) (filePath : QString)
    (happenings : List Happening) :
    (∀ before after, happenings = before ++ after →
      (before.foldl step (idle tests filePath)).runs ≤ 1) ↔
    Library.Run.StepsMeet step Guarded (idle tests filePath) happenings :=
  Library.Run.always_iff_stepsMeet step Guarded Single (fun bench => bench.runs ≤ 1)
    (idle tests filePath) (fun _ _ single guarded => single_step single guarded)
    (fun _ single => single.runs_le) (fun _ _ _ missed => runs_of_not_guarded missed)
    (.of_idle rfl) happenings

/-- The user runs the test of the editor, and once more while it waits for an answer. -/
def runTwice : Workbench :=
  [.run, .needsAttach, .connected, .leaves, .awaitsAck, .run].foldl step (idle ["a.qs"] "a.qs")

theorem runTwice_not_single :
    runTwice.stack = [.run, .waitForAck, .run] ∧ runTwice.attachState = .notAttached ∧
      runTwice.applicationUuid = none ∧ ¬runTwice.runs ≤ 1 := by
  decide +kernel

end Workbench

end Hooq
