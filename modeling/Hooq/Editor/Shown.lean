import Hooq.Editor.Document
import Hooq.Qt.Utf8

/-!
# What runs and what is shown

A test is opened in the editor before it is run, and the script is then read from the file
once more.  The editor does not ask about changes of a test that it shows already, so that
what runs need not be what is shown.
-/

namespace Hooq

open Library.Run

/-- The path of a listed test. -/
abbrev ListedTest := { path : QString // path ≠ [] }

/-- What is done with the windows. -/
inductive WindowOperation where
  | open (test : ListedTest) (answer : Choice)
  | type (text : QString)
  | save
  | revert
  | close (answer : Choice)
  | runTest (test : ListedTest) (answer : Choice)
  | runEditor (tests : List ListedTest) (answer : Choice)
  | pause
  | stop
  deriving DecidableEq

namespace Desk

/-- What `Interpreter::setScriptPath` reads. -/
def readScript (disk : Disk) (path : QString) : QString :=
  QString.fromUtf8 (disk.readAll path)

/-- `MainWindow::runTestScript`: the script that the interpreter evaluates, if any, and the
editor at that time. -/
def runTestScript (desk : Desk) (test : ListedTest) (answer : Choice) : Option QString × Desk :=
  let (shown, desk) := desk.openFile (some test.val) answer
  if shown then (some (readScript desk.disk test.val), desk) else (none, desk)

/-- `MainWindow::runEditorTest`, of the listed test that the editor shows. -/
def runEditorTest (desk : Desk) (tests : List ListedTest) (answer : Choice) :
    Option QString × Desk :=
  match tests.find? fun test => samePath (some test.val) desk.editor.filePath with
  | some test => desk.runTestScript test answer
  | none => (none, desk)

/-- `ScriptEditor::run`. -/
def runEditor (desk : Desk) (tests : List ListedTest) (answer : Choice) :
    Option QString × Desk :=
  let desk := desk.reset runtimeFeatures
  if desk.editor.paused then
    (none, { desk with editor := { desk.editor with paused := false } })
  else
    desk.runEditorTest tests answer

/-- An operation: the script that it starts, and the editor behind it. -/
def perform (desk : Desk) : WindowOperation → Option QString × Desk
  | .open test answer => (none, (desk.openFile (some test.val) answer).2)
  | .type text => (none, desk.type text)
  | .save => (none, desk.save)
  | .revert => (none, desk.revert)
  | .close answer => (none, desk.closeEvent answer)
  | .runTest test answer => desk.runTestScript test answer
  | .runEditor tests answer => desk.runEditor tests answer
  | .pause => (none, desk.setPaused true)
  | .stop => (none, (desk.setPaused false).reset runtimeFeatures)

/-- A script that an operation starts is the text in the editor. -/
def RunsShown (desk : Desk) (operation : WindowOperation) : Prop :=
  ∀ script, (desk.perform operation).1 = some script →
    script = (desk.perform operation).2.editor.text

end Desk

/-! ## Where the shown text is from -/

/-- The text in the editor when the file was last opened or saved, and whether the file held
the same text then. -/
structure Provenance where
  text : QString
  kept : Bool
  deriving DecidableEq, Repr

namespace Disk

/-- The editor shows the file as it is. -/
def IsShown (disk : Disk) (path : QString) : Prop :=
  plainText (Desk.readScript disk path) = Desk.readScript disk path

/-- A text that is saved is read back. -/
def IsStored (disk : Disk) (path text : QString) : Prop :=
  disk.canWrite path = true ∧ disk.readable path = true ∧ text.isPaired = true ∧
    text.HasNoReplaced ∧ text.BeginsUnmarked ∧ 0 ∉ text

instance (disk : Disk) (path : QString) : Decidable (disk.IsShown path) :=
  inferInstanceAs (Decidable (_ = _))

instance (disk : Disk) (path text : QString) : Decidable (disk.IsStored path text) :=
  inferInstanceAs (Decidable (_ ∧ _ ∧ _ ∧ _ ∧ _ ∧ _))

end Disk

namespace Provenance

/-- A test is opened, unless it is shown already or the user cancels. -/
def opened (provenance : Provenance) (desk : Desk) (test : ListedTest) (answer : Choice) :
    Provenance :=
  if Desk.samePath (some test.val) desk.editor.filePath ∨ desk.Asks ∧ answer = .cancel then
    provenance
  else
    ⟨plainText (Desk.readScript desk.disk test.val), decide (desk.disk.IsShown test.val)⟩

def step (provenance : Provenance) (desk : Desk) : WindowOperation → Provenance
  | .open test answer => provenance.opened desk test answer
  | .runTest test answer => provenance.opened desk test answer
  | .save =>
      ⟨desk.editor.text,
        decide (desk.disk.IsStored (desk.editor.filePath.getD []) desk.editor.text)⟩
  | _ => provenance

end Provenance

/-- The editor, and where its text is from. -/
structure TracedDesk where
  desk : Desk
  provenance : Provenance

namespace TracedDesk

def fresh (disk : Disk) : TracedDesk :=
  ⟨⟨disk, ⟨none, [], false, false⟩⟩, ⟨[], false⟩⟩

def step (traced : TracedDesk) (operation : WindowOperation) : TracedDesk :=
  ⟨(traced.desk.perform operation).2, traced.provenance.step traced.desk operation⟩

/-- The shown text has not changed since the file was opened or saved, and was kept then. -/
def IsUnchanged (traced : TracedDesk) : Prop :=
  traced.provenance.kept = true ∧ traced.desk.editor.text = traced.provenance.text

/-- A test that is run is shown without changes, or it is opened and shown as it is. -/
def Ready (traced : TracedDesk) (test : ListedTest) (answer : Choice) : Prop :=
  if Desk.samePath (some test.val) traced.desk.editor.filePath then
    traced.IsUnchanged
  else
    traced.desk.Asks ∧ answer = .cancel ∨ traced.desk.disk.IsShown test.val

/-- What is run is ready. -/
def RunsReady (traced : TracedDesk) : WindowOperation → Prop
  | .runTest test answer => traced.Ready test answer
  | .runEditor tests _ =>
      traced.desk.editor.paused = false →
        (∃ test ∈ tests, Desk.samePath (some test.val) traced.desk.editor.filePath = true) →
          traced.IsUnchanged
  | _ => True

/-- What was kept is still in the file. -/
def Faithful (traced : TracedDesk) : Prop :=
  traced.desk.IsOpen → traced.provenance.kept = true →
    traced.provenance.text =
      Desk.readScript traced.desk.disk (traced.desk.editor.filePath.getD [])

theorem faithful_fresh (disk : Disk) : (fresh disk).Faithful :=
  fun isOpen => absurd rfl isOpen

end TracedDesk

/-! ## What the operations do -/

namespace Desk

variable (desk : Desk)

/-- Saving leaves the scripts of other paths alone. -/
theorem readScript_save {path : QString} (other : path ≠ desk.editor.filePath.getD []) :
    readScript desk.save.disk path = readScript desk.disk path := by
  have contents : desk.save.disk.contents path = desk.disk.contents path := by
    rw [save, reset_dirtyState, Disk.writeAll]
    split_ifs
    · exact if_neg other
    · rfl
  have readable : desk.save.disk.readable = desk.disk.readable := by
    rw [save, reset_dirtyState, Disk.writeAll]
    split_ifs <;> rfl
  rw [readScript, readScript, Disk.readAll, Disk.readAll, contents, readable]

theorem readScript_asked {path : QString} (other : path ≠ desk.editor.filePath.getD [])
    (answer : Choice) :
    readScript (desk.shouldCancelDocumentChange answer).2.disk path =
      readScript desk.disk path := by
  rw [shouldCancelDocumentChange_disk]
  split_ifs
  · exact desk.readScript_save other
  · rfl

/-- What is stored is read back. -/
theorem readScript_save_self
    (stored : desk.disk.IsStored (desk.editor.filePath.getD []) desk.editor.text) :
    readScript desk.save.disk (desk.editor.filePath.getD []) = desk.editor.text := by
  obtain ⟨canWrite, readable, paired, kept, unmarked, solid⟩ := stored
  have written : desk.save.disk.readAll (desk.editor.filePath.getD []) =
      desk.editor.text.toUtf8 := by
    rw [save, reset_dirtyState, Disk.writeAll, if_pos canWrite, Disk.readAll]
    simp [readable]
  rw [readScript, written, QString.fromUtf8_toUtf8 paired kept unmarked solid]

theorem runTestScript_eq (test : ListedTest) (answer : Choice) :
    desk.runTestScript test answer =
      let opened := desk.openFile (some test.val) answer
      if opened.1 then (some (readScript opened.2.disk test.val), opened.2) else (none, opened.2) :=
  rfl

theorem runTestScript_desk (test : ListedTest) (answer : Choice) :
    (desk.runTestScript test answer).2 = (desk.openFile (some test.val) answer).2 := by
  rw [runTestScript_eq]
  dsimp only
  split <;> rfl

/-- The editor behind a run is that of `run`, for the paths of the tests. -/
theorem runEditor_desk (tests : List ListedTest) (answer : Choice) :
    (desk.runEditor tests answer).2 = desk.run (tests.map Subtype.val) answer := by
  rw [runEditor, run, reset_runtimeFeatures]
  dsimp only
  split
  next => rfl
  next =>
      have mapped : (tests.map Subtype.val).find?
          (fun path => samePath (some path) desk.editor.filePath) =
            (tests.find? fun test => samePath (some test.val) desk.editor.filePath).map
              Subtype.val := List.find?_map ..
      rw [runEditorTest, mapped]
      cases tests.find? fun test => samePath (some test.val) desk.editor.filePath with
      | none => rfl
      | some test => exact runTestScript_desk desk test answer

theorem runTestScript_same {test : ListedTest}
    (same : samePath (some test.val) desk.editor.filePath = true) (answer : Choice) :
    desk.runTestScript test answer = (some (readScript desk.disk test.val), desk) := by
  rw [runTestScript_eq, desk.openFile_same same]
  rfl

/-- What the editor starts is the script of the file that it shows. -/
theorem runEditor_script {tests : List ListedTest} {answer : Choice} {script : QString}
    (started : (desk.runEditor tests answer).1 = some script) :
    desk.editor.paused = false ∧
      ∃ test ∈ tests, samePath (some test.val) desk.editor.filePath = true ∧
        desk.runEditor tests answer = (some (readScript desk.disk test.val), desk) := by
  rw [runEditor, reset_runtimeFeatures] at started ⊢
  dsimp only at started ⊢
  split at started
  next => exact nomatch started
  next running =>
      rw [if_neg running]
      rw [runEditorTest] at started ⊢
      split at started
      next test found =>
          have same := List.find?_some found
          exact ⟨by simpa using running, test, List.mem_of_find?_eq_some found, same,
            desk.runTestScript_same same answer⟩
      next => exact nomatch started

end Desk

namespace TracedDesk

variable {traced : TracedDesk}

theorem Faithful.opened (faithful : traced.Faithful) (test : ListedTest) (answer : Choice) :
    Faithful ⟨(traced.desk.openFile (some test.val) answer).2,
      traced.provenance.opened traced.desk test answer⟩ := by
  rw [Provenance.opened]
  cases same : Desk.samePath (some test.val) traced.desk.editor.filePath with
  | true =>
      rw [Desk.openFile_same _ same, if_pos (.inl rfl)]
      exact faithful
  | false =>
      rw [Desk.openFile_other _ same]
      by_cases cancels : traced.desk.Asks ∧ answer = .cancel
      · rw [if_pos cancels, if_pos (.inr cancels), Desk.cancelled_eq _ cancels]
        exact faithful
      · rw [if_neg cancels, if_neg (by simp [cancels])]
        intro isOpen kept
        have shown := of_decide_eq_true kept
        have different : test.val ≠ traced.desk.editor.filePath.getD [] :=
          of_decide_eq_false same
        exact shown.trans (traced.desk.readScript_asked different answer).symm

/-- What is behind an operation that changes neither the file nor its path. -/
theorem Faithful.transport (faithful : traced.Faithful) {desk : Desk}
    (disk : desk.disk = traced.desk.disk)
    (filePath : desk.editor.filePath = traced.desk.editor.filePath) :
    Faithful ⟨desk, traced.provenance⟩ := by
  intro isOpen kept
  simp only [Desk.IsOpen, filePath] at isOpen
  simp only [disk, filePath]
  exact faithful isOpen kept

theorem Faithful.step (faithful : traced.Faithful) (operation : WindowOperation) :
    (traced.step operation).Faithful := by
  cases operation with
  | «open» test answer => exact faithful.opened test answer
  | type text => exact faithful.transport rfl rfl
  | save =>
      intro isOpen kept
      have saved := traced.desk.readScript_save_self (of_decide_eq_true kept)
      exact saved.symm
  | revert =>
      intro isOpen
      exact absurd rfl isOpen
  | close answer =>
      rcases EditorSession.not_isOpen_close ⟨traced.desk, none⟩ answer with ⟨_, same⟩ | ⟨closed, _⟩
      · have disk := congrArg Desk.disk same
        have filePath := congrArg (fun desk : Desk => desk.editor.filePath) same
        exact faithful.transport disk filePath
      · exact fun isOpen => absurd isOpen closed
  | runTest test answer =>
      have opened := faithful.opened test answer
      rw [← Desk.runTestScript_desk] at opened
      exact opened
  | runEditor tests answer =>
      have behind := traced.desk.runEditor_desk tests answer
      obtain ⟨paused, same⟩ := traced.desk.run_eq (tests.map Subtype.val) answer
      rw [same] at behind
      have disk := congrArg Desk.disk behind
      have filePath := congrArg (fun desk : Desk => desk.editor.filePath) behind
      exact faithful.transport disk filePath
  | pause => exact faithful.transport rfl rfl
  | stop =>
      have behind := (traced.desk.setPaused false).reset_runtimeFeatures
      have disk := congrArg Desk.disk behind
      have filePath := congrArg (fun desk : Desk => desk.editor.filePath) behind
      exact faithful.transport disk filePath

/-- Without changes the text is that of the file. -/
theorem Faithful.text_eq (faithful : traced.Faithful) {test : ListedTest}
    (same : Desk.samePath (some test.val) traced.desk.editor.filePath = true)
    (unchanged : traced.IsUnchanged) :
    Desk.readScript traced.desk.disk test.val = traced.desk.editor.text := by
  have path : test.val = traced.desk.editor.filePath.getD [] := of_decide_eq_true same
  have isOpen : traced.desk.IsOpen := fun empty => test.property (path.trans empty)
  rw [path, unchanged.2]
  exact (faithful isOpen unchanged.1).symm

theorem Faithful.runTest (faithful : traced.Faithful) {test : ListedTest} {answer : Choice}
    (ready : traced.Ready test answer) : traced.desk.RunsShown (.runTest test answer) := by
  intro script started
  cases same : Desk.samePath (some test.val) traced.desk.editor.filePath with
  | true =>
      rw [Ready, if_pos same] at ready
      simp only [Desk.perform, Desk.runTestScript_same _ same, Option.some.injEq] at started ⊢
      rw [← started]
      exact faithful.text_eq same ready
  | false =>
      have different : test.val ≠ traced.desk.editor.filePath.getD [] := of_decide_eq_false same
      rw [Ready, if_neg (by simp [same])] at ready
      simp only [Desk.perform, Desk.runTestScript_eq, Desk.openFile_other _ same] at started ⊢
      by_cases cancels : traced.desk.Asks ∧ answer = .cancel
      · simp [cancels] at started
      · have shown := ready.resolve_left cancels
        have script_eq := traced.desk.readScript_asked different answer
        simp only [if_neg cancels, if_true, Option.some.injEq] at started ⊢
        rw [← started]
        simp only [Desk.loaded, Desk.storedText, Option.getD_some]
        rw [← Desk.readScript, script_eq]
        exact shown.symm

theorem Faithful.runsShown (faithful : traced.Faithful) {operation : WindowOperation}
    (ready : traced.RunsReady operation) : traced.desk.RunsShown operation := by
  cases operation with
  | runTest test answer => exact faithful.runTest ready
  | runEditor tests answer =>
      intro script started
      obtain ⟨running, test, listed, same, run⟩ := traced.desk.runEditor_script started
      simp only [Desk.perform, run, Option.some.injEq] at started ⊢
      rw [← started]
      exact faithful.text_eq same (ready running ⟨test, listed, same⟩)
  | _ => exact nofun

/-- In a run of operations that run only what is ready, the script that is run is always the
one that is shown. -/
theorem runsShown_throughout (disk : Disk) {operations : List WindowOperation}
    (ready : StepsMeet step RunsReady (fresh disk) operations) :
    StepsMeet step (fun traced operation => traced.desk.RunsShown operation) (fresh disk)
      operations := by
  intro before operation after shape
  subst shape
  have faithful : (before.foldl step (fresh disk)).Faithful :=
    invariant_foldl (fun _ operation faithful _ => faithful.step operation)
      (faithful_fresh disk) ready.prefix
  exact faithful.runsShown (ready before operation after rfl)

instance (traced : TracedDesk) : Decidable traced.IsUnchanged :=
  inferInstanceAs (Decidable (_ ∧ _))

instance (traced : TracedDesk) (test : ListedTest) (answer : Choice) :
    Decidable (traced.Ready test answer) :=
  inferInstanceAs (Decidable (if _ = true then traced.IsUnchanged
    else traced.desk.Asks ∧ answer = .cancel ∨ traced.desk.disk.IsShown test.val))

instance (traced : TracedDesk) : (operation : WindowOperation) →
    Decidable (traced.RunsReady operation)
  | .runTest test answer => inferInstanceAs (Decidable (traced.Ready test answer))
  | .runEditor _ _ => inferInstanceAs (Decidable (_ → (∃ test ∈ _, _) → _))
  | .open .. | .type _ | .save | .revert | .close _ | .pause | .stop => isTrue trivial

/-! ## A disk with one test -/

def letterTest : ListedTest :=
  ⟨"a.qs", by decide⟩

/-- A test is opened, changed, saved and run. -/
def savedWindowRun : List WindowOperation :=
  [.open letterTest .save, .type "b", .save, .runEditor [letterTest] .save]

theorem savedWindowRun_runsShown :
    StepsMeet step (fun traced operation => traced.desk.RunsShown operation)
      (fresh EditorSession.smallDisk) savedWindowRun :=
  runsShown_throughout EditorSession.smallDisk (by decide +kernel)

/-- A changed test is run without a question, from the file. -/
theorem changed_runs_unshown :
    ¬∀ (disk : Disk) (operations : List WindowOperation),
      StepsMeet step (fun traced operation => traced.desk.RunsShown operation) (fresh disk)
        operations := by
  intro shown
  have here := shown EditorSession.smallDisk
    [.open letterTest .save, .type "b", .runTest letterTest .save]
    [.open letterTest .save, .type "b"] (.runTest letterTest .save) [] rfl "a" (by decide +kernel)
  exact absurd here (by decide +kernel)

end TracedDesk

end Hooq
