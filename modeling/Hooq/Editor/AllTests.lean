import Hooq.Editor.Running

/-!
# Running all tests

The loop over all tests starts one test after the other and waits for the end of each.
While one of them runs, the user can do little: the list is disabled and nothing pauses.
What is left is to run all tests once more, which waits for a test that cannot end.
-/

namespace Hooq

/-- A loop of the interpreter inside of a run. -/
def Activation.waits : Activation → Bool
  | .waitForAck | .waitForAttach | .waitForDumpedObject => true
  | _ => false

namespace Workbench

instance decidableGuarded (bench : Workbench) (happening : Happening) :
    Decidable (bench.Guarded happening) :=
  match happening with
  | .run => inferInstanceAs (Decidable (_ ∨ _ ∨ _ ∨ _))
  | .runAllTests cancelled => inferInstanceAs (Decidable (_ ∨ _ ∨
      ∀ path ∈ bench.tests.head?, path ≠ bench.filePath ∧ cancelled.head?.getD false = true))
  | .stop | .pick | .runTest _ _ | .editTest _ _ | .notFound | .connected | .needsAttach
  | .launches _ | .awaitsAck | .awaitsDump | .closesApplication | .reachesBreakpoint | .finishes
  | .leaves => isTrue trivial

/-- One of all tests is running.  `later` are the tests that come after it. -/
structure Testing (bench : Workbench) (filePath : QString) (next : Nat) (later : List QString)
    (cancelled : List Bool) : Prop where
  stack : ∃ loops, (∀ loop ∈ loops, loop.waits = true) ∧
    bench.stack = loops ++ [.run, .waitForEndOfTest next cancelled]
  filePath : bench.filePath = filePath
  later : bench.tests.drop next = later
  listed : bench.tests ≠ []
  headless : bench.interactive = false
  listDisabled : bench.testListEnabled = false
  testRunning : bench.testRunning = true

/-- One of all tests is done, and the loop that waits for it is about to end. -/
structure Between (bench : Workbench) (filePath : QString) (next : Nat) (later : List QString)
    (cancelled : List Bool) : Prop where
  stack : bench.stack = [.waitForEndOfTest next cancelled]
  filePath : bench.filePath = filePath
  later : bench.tests.drop next = later
  headless : bench.interactive = false
  testRunning : bench.testRunning = false

/-- A loop waits for the end of a test below it, which cannot come. -/
structure Stuck (bench : Workbench) : Prop where
  stack : ∃ inner next cancelled outer, .run ∉ inner ∧ .run ∈ outer ∧
    bench.stack = inner ++ .waitForEndOfTest next cancelled :: outer
  listed : bench.tests ≠ []
  listDisabled : bench.testListEnabled = false
  testRunning : bench.testRunning = true

variable {bench : Workbench} {filePath : QString} {next : Nat} {later : List QString}
  {cancelled : List Bool}

/-- When the first question about changes is cancelled, no test is started. -/
theorem runAllTests_of_cancelled (listed : bench.tests ≠ []) {answers : List Bool}
    (first : ∀ path, bench.tests.head? = some path →
      path ≠ bench.filePath ∧ answers.head?.getD false = true) :
    bench.runAllTests answers =
      { bench.call (.waitForEndOfTest 1 answers.tail) with
        interactive := false
        testListEnabled := false } := by
  obtain ⟨path, rest, tests⟩ := List.exists_cons_of_ne_nil listed
  have cancels := first path (by rw [tests]; rfl)
  rw [runAllTests, runNext]
  simp only [tests, List.getElem?_cons_zero]
  rw [runTestScript_eq, if_pos (by exact cancels)]
  simp [call, tests]

/-! ### While a test is running -/

theorem Testing.runs_ne (testing : bench.Testing filePath next later cancelled) :
    bench.runs ≠ 0 := by
  obtain ⟨loops, -, shape⟩ := testing.stack
  rw [runs, shape, ← Nat.pos_iff_ne_zero, List.count_pos_iff]
  simp

theorem Testing.stack_ne (testing : bench.Testing filePath next later cancelled) :
    bench.stack ≠ [] := by
  obtain ⟨loops, -, shape⟩ := testing.stack
  simp [shape]

/-- Only the loops of the run and the state of the application change. -/
theorem Testing.update (testing : bench.Testing filePath next later cancelled)
    {loops : List Activation} (waits : ∀ loop ∈ loops, loop.waits = true) (paused : Bool)
    (attachState : AttachState) (applicationUuid : Option Nat) :
    Testing { bench with
      stack := loops ++ [.run, .waitForEndOfTest next cancelled]
      paused := paused
      attachState := attachState
      applicationUuid := applicationUuid } filePath next later cancelled :=
  ⟨⟨loops, waits, rfl⟩, testing.filePath, testing.later, testing.listed, testing.headless,
    testing.listDisabled, testing.testRunning⟩

/-- What is running when a script is executed. -/
theorem Testing.stack_of_executes (testing : bench.Testing filePath next later cancelled)
    (executes : bench.executes = true) :
    bench.stack = [.run, .waitForEndOfTest next cancelled] := by
  obtain ⟨loops, waits, shape⟩ := testing.stack
  cases loops with
  | nil => exact shape
  | cons loop loops =>
      have isRun : loop = .run := by simpa [Workbench.executes, shape] using executes
      have waiting := waits loop List.mem_cons_self
      rw [isRun] at waiting
      cases waiting

/-- Without a user nothing pauses. -/
theorem Testing.pause_eq (testing : bench.Testing filePath next later cancelled) :
    bench.pause = bench := by
  rw [pause, testing.headless]
  rfl

theorem Testing.call (testing : bench.Testing filePath next later cancelled)
    (activation : Activation) (waits : activation.waits = true) :
    (bench.call activation).Testing filePath next later cancelled := by
  obtain ⟨loops, within, shape⟩ := testing.stack
  have longer : ∀ loop ∈ activation :: loops, loop.waits = true :=
    List.forall_mem_cons.mpr ⟨waits, within⟩
  have updated := testing.update longer bench.paused bench.attachState bench.applicationUuid
  rwa [List.cons_append, ← shape] at updated

theorem Testing.congr (testing : bench.Testing filePath next later cancelled) (paused : Bool)
    (attachState : AttachState) (applicationUuid : Option Nat) :
    Testing { bench with
      paused := paused
      attachState := attachState
      applicationUuid := applicationUuid } filePath next later cancelled :=
  ⟨testing.stack, testing.filePath, testing.later, testing.listed, testing.headless,
    testing.listDisabled, testing.testRunning⟩

theorem Testing.waitForAttach (testing : bench.Testing filePath next later cancelled) :
    bench.waitForAttach.Testing filePath next later cancelled := by
  rw [Workbench.waitForAttach]
  split
  · exact (testing.call .waitForAttach rfl).congr _ _ _
  · exact testing.call .waitForAttach rfl
  · exact testing

/-- The innermost loop of a run ends without any other change. -/
theorem Testing.leave (testing : bench.Testing filePath next later cancelled) :
    bench.leave.Testing filePath next later cancelled := by
  obtain ⟨loops, waits, shape⟩ := testing.stack
  cases loops with
  | nil =>
      rw [Workbench.leave, shape]
      exact testing
  | cons loop loops =>
      obtain ⟨isLoop, within⟩ := List.forall_mem_cons.mp waits
      have popped :=
        testing.update within bench.paused bench.attachState bench.applicationUuid
      rw [Workbench.leave, shape]
      cases loop with
      | waitForAck => exact popped
      | waitForDumpedObject => exact popped
      | waitForAttach =>
          dsimp only [List.cons_append]
          split_ifs
          · exact popped
          · exact testing
      | _ => cases isLoop

theorem Testing.finishRun (testing : bench.Testing filePath next later cancelled)
    (executes : bench.executes = true) :
    bench.finishRun.Between filePath next later cancelled := by
  have stack := testing.stack_of_executes executes
  refine ⟨?_, testing.filePath, testing.later, testing.headless, rfl⟩
  rw [Workbench.finishRun]
  exact congrArg List.tail stack

/-- The test of the editor is not started while a test is running. -/
theorem Testing.runEditor (testing : bench.Testing filePath next later cancelled)
    (allowed : bench.paused = true ∨ bench.filePath ∉ bench.tests) :
    bench.runEditor.Testing filePath next later cancelled := by
  rw [Workbench.runEditor]
  split_ifs with paused listed
  · exact testing.congr _ _ _
  · exact absurd listed (allowed.resolve_left paused)
  · exact testing

/-- When all tests are run once more, the first one is cancelled and waited for. -/
theorem Testing.runAllTests (testing : bench.Testing filePath next later cancelled)
    {answers : List Bool}
    (first : ∀ path, bench.tests.head? = some path →
      path ≠ bench.filePath ∧ answers.head?.getD false = true) :
    (bench.runAllTests answers).Stuck := by
  obtain ⟨loops, waits, shape⟩ := testing.stack
  rw [runAllTests_of_cancelled testing.listed first]
  refine ⟨⟨[], 1, answers.tail, bench.stack, List.not_mem_nil, ?_, rfl⟩, testing.listed, rfl,
    testing.testRunning⟩
  simp [shape]

/-- A step while a test is running, unless the test is done. -/
theorem Testing.step (testing : bench.Testing filePath next later cancelled)
    {happening : Happening} (guarded : bench.Guarded happening)
    (goesOn : happening = .finishes → bench.executes = false) :
    (bench.step happening).Testing filePath next later cancelled ∨
      (bench.step happening).Stuck := by
  have handle {handler : Workbench → Workbench}
      (kept : bench.handlesEvents = true → (handler bench).Testing filePath next later cancelled) :
      (bench.handle handler).Testing filePath next later cancelled := by
    rw [Workbench.handle]
    split_ifs with handles
    · exact kept handles
    · exact testing
  have execute {action : Workbench → Workbench}
      (kept : (action bench).Testing filePath next later cancelled) :
      (bench.execute action).Testing filePath next later cancelled := by
    rw [Workbench.execute]
    split_ifs
    · exact kept
    · exact testing
  have onTest (index : Nat) (action : Workbench → QString → Workbench) :
      (Workbench.onTest index action bench).Testing filePath next later cancelled := by
    rw [Workbench.onTest, testing.listDisabled]
    exact testing
  cases happening with
  | run =>
      left
      apply handle
      intro handles
      have allowed := (guarded.resolve_left testing.runs_ne).resolve_left (by simp [handles])
      exact testing.runEditor allowed
  | runAllTests answers =>
      rw [Workbench.step, Workbench.handle]
      split_ifs with handles
      · right
        have first := (guarded.resolve_left testing.runs_ne).resolve_left (by simp [handles])
        exact testing.runAllTests first
      · exact .inl testing
  | stop =>
      left
      apply handle
      exact fun _ => testing.congr _ _ _
  | pick =>
      left
      exact handle fun _ => testing
  | runTest index answer =>
      left
      exact handle fun _ => onTest _ _
  | editTest index answer =>
      left
      exact handle fun _ => onTest _ _
  | notFound =>
      left
      apply handle
      intro _
      rw [testing.pause_eq]
      exact testing
  | connected =>
      left
      apply handle
      exact fun _ => testing.congr _ _ _
  | needsAttach =>
      left
      exact execute testing.waitForAttach
  | launches uuid =>
      left
      apply execute
      exact (testing.congr _ _ _).waitForAttach
  | awaitsAck =>
      left
      apply execute
      exact testing.call .waitForAck rfl
  | awaitsDump =>
      left
      apply execute
      exact testing.call .waitForDumpedObject rfl
  | closesApplication =>
      left
      apply execute
      exact testing.congr _ _ _
  | reachesBreakpoint =>
      left
      apply execute
      rw [testing.pause_eq]
      exact testing
  | finishes =>
      left
      rw [Workbench.step, Workbench.execute, goesOn rfl]
      exact testing
  | leaves =>
      left
      exact testing.leave

/-! ### While a loop is stuck -/

theorem Stuck.stack_ne (stuck : bench.Stuck) : bench.stack ≠ [] := by
  obtain ⟨inner, next, cancelled, outer, -, -, shape⟩ := stuck.stack
  simp [shape]

theorem Stuck.runs_ne (stuck : bench.Stuck) : bench.runs ≠ 0 := by
  obtain ⟨inner, next, cancelled, outer, -, running, shape⟩ := stuck.stack
  rw [runs, shape, ← Nat.pos_iff_ne_zero, List.count_pos_iff]
  simp [running]

theorem Stuck.executes_eq (stuck : bench.Stuck) : bench.executes = false := by
  obtain ⟨inner, next, cancelled, outer, others, -, shape⟩ := stuck.stack
  rw [executes, shape, decide_eq_false_iff_not]
  cases inner with
  | nil => simp
  | cons loop inner =>
      intro isRun
      have same : loop = .run := by simpa using isRun
      exact others (same ▸ List.mem_cons_self)

theorem Stuck.congr (stuck : bench.Stuck) (paused interactive : Bool)
    (attachState : AttachState) :
    Stuck { bench with
      paused := paused
      interactive := interactive
      attachState := attachState } :=
  ⟨stuck.stack, stuck.listed, stuck.listDisabled, stuck.testRunning⟩

theorem Stuck.call (stuck : bench.Stuck) (activation : Activation) (other : activation ≠ .run) :
    (bench.call activation).Stuck := by
  obtain ⟨inner, next, cancelled, outer, others, running, shape⟩ := stuck.stack
  refine ⟨⟨activation :: inner, next, cancelled, outer, ?_, running, ?_⟩, stuck.listed,
    stuck.listDisabled, stuck.testRunning⟩
  · simp [others, other.symm]
  · rw [Workbench.call, shape]
    rfl

theorem Stuck.leave (stuck : bench.Stuck) : bench.leave.Stuck := by
  obtain ⟨inner, next, cancelled, outer, others, running, shape⟩ := stuck.stack
  cases inner with
  | nil =>
      rw [Workbench.leave, shape]
      simp only [List.nil_append, stuck.testRunning, if_true]
      exact stuck
  | cons loop inner =>
      have popped : Stuck { bench with
          stack := inner ++ .waitForEndOfTest next cancelled :: outer } :=
        ⟨⟨inner, next, cancelled, outer, fun isInner => others (List.mem_cons_of_mem _ isInner),
          running, rfl⟩, stuck.listed, stuck.listDisabled, stuck.testRunning⟩
      rw [Workbench.leave, shape]
      simp only [List.cons_append]
      split
      next shape => cases shape; exact popped
      next shape => cases shape; exact popped
      next shape =>
        cases shape
        split_ifs
        · exact popped
        · exact stuck
      next shape =>
        cases shape
        split_ifs
        · exact stuck
        · exact popped
      next shape =>
        rw [stuck.testRunning, if_pos rfl]
        exact stuck
      next => exact stuck

theorem Stuck.runAllTests (stuck : bench.Stuck) {answers : List Bool}
    (first : ∀ path, bench.tests.head? = some path →
      path ≠ bench.filePath ∧ answers.head?.getD false = true) :
    (bench.runAllTests answers).Stuck := by
  rw [runAllTests_of_cancelled stuck.listed first]
  have called := stuck.call (.waitForEndOfTest 1 answers.tail) (by simp)
  exact ⟨called.stack, stuck.listed, rfl, stuck.testRunning⟩

theorem Stuck.runEditor (stuck : bench.Stuck)
    (allowed : bench.paused = true ∨ bench.filePath ∉ bench.tests) : bench.runEditor.Stuck := by
  rw [Workbench.runEditor]
  split_ifs with paused listed
  · exact stuck.congr _ _ _
  · exact absurd listed (allowed.resolve_left paused)
  · exact stuck

theorem Stuck.pause (stuck : bench.Stuck) : bench.pause.Stuck := by
  rw [Workbench.pause]
  split_ifs
  · exact (stuck.call .pause (by simp)).congr _ _ _
  · exact stuck

/-- A loop that is stuck stays so. -/
theorem Stuck.step (stuck : bench.Stuck) {happening : Happening}
    (guarded : bench.Guarded happening) : (bench.step happening).Stuck := by
  have handle {handler : Workbench → Workbench}
      (kept : bench.handlesEvents = true → (handler bench).Stuck) :
      (bench.handle handler).Stuck := by
    rw [Workbench.handle]
    split_ifs with handles
    · exact kept handles
    · exact stuck
  have execute (action : Workbench → Workbench) : (bench.execute action).Stuck := by
    rw [Workbench.execute, stuck.executes_eq]
    exact stuck
  have onTest (index : Nat) (action : Workbench → QString → Workbench) :
      (Workbench.onTest index action bench).Stuck := by
    rw [Workbench.onTest, stuck.listDisabled]
    exact stuck
  cases happening with
  | run =>
      apply handle
      intro handles
      have allowed := (guarded.resolve_left stuck.runs_ne).resolve_left (by simp [handles])
      exact stuck.runEditor allowed
  | runAllTests answers =>
      apply handle
      intro handles
      have first := (guarded.resolve_left stuck.runs_ne).resolve_left (by simp [handles])
      exact stuck.runAllTests first
  | stop =>
      apply handle
      exact fun _ => stuck.congr _ _ _
  | pick => exact handle fun _ => stuck
  | runTest index answer => exact handle fun _ => onTest _ _
  | editTest index answer => exact handle fun _ => onTest _ _
  | notFound => exact handle fun _ => stuck.pause
  | connected =>
      apply handle
      exact fun _ => stuck.congr _ _ _
  | leaves => exact stuck.leave
  | _ => apply execute

/-! ### Between two tests -/

theorem Between.handlesEvents_eq (between : bench.Between filePath next later cancelled) :
    bench.handlesEvents = false := by
  rw [handlesEvents, between.stack]
  exact between.testRunning

theorem Between.executes_eq (between : bench.Between filePath next later cancelled) :
    bench.executes = false := by
  simp [executes, between.stack]

/-- Nothing happens before the loop that waits ends. -/
theorem Between.step_eq (between : bench.Between filePath next later cancelled)
    {happening : Happening} (other : happening ≠ .leaves) : bench.step happening = bench := by
  have handle (handler : Workbench → Workbench) : bench.handle handler = bench := by
    rw [Workbench.handle, between.handlesEvents_eq]
    rfl
  have execute (action : Workbench → Workbench) : bench.execute action = bench := by
    rw [Workbench.execute, between.executes_eq]
    rfl
  cases happening with
  | needsAttach => apply execute
  | launches uuid => apply execute
  | awaitsAck => apply execute
  | awaitsDump => apply execute
  | closesApplication => apply execute
  | reachesBreakpoint => apply execute
  | finishes => apply execute
  | leaves => exact absurd rfl other
  | _ => apply handle

end Workbench

end Hooq
