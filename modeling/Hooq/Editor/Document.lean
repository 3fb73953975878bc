import Hooq.Library.Run
import Hooq.Qt.Bytes

/-!
# The document of the script editor

The editor shows the text of one file.  Its operations call each other: a change of the
document first asks what to do with the old one, which may save it or discard its
changes, and discarding opens a file in turn.
-/

namespace Hooq

/-! ## Files and texts -/

/-- The files that the editor may come across, and which of them it may open. -/
structure Disk where
  contents : QString → Option QByteArray
  readable : QString → Bool
  writable : QString → Bool

namespace Disk

/-- `QFile::open` for reading and `readAll`: nothing, if the file cannot be opened. -/
def readAll (disk : Disk) (path : QString) : QByteArray :=
  if disk.readable path then (disk.contents path).getD [] else []

/-- A file without a name cannot be opened. -/
def canWrite (disk : Disk) (path : QString) : Bool :=
  path ≠ [] && disk.writable path

/-- `QFile::open` for writing from scratch, and `write`. -/
def writeAll (disk : Disk) (path : QString) (bytes : QByteArray) : Disk :=
  if disk.canWrite path then
    { disk with
      contents := fun other => if other = path then some bytes else disk.contents other }
  else
    disk

end Disk

/-- What `QPlainTextEdit` makes of a character: all line breaks are the same to it. -/
def plainCharacter (character : QChar) : QChar :=
  if character = 0x0D || character = 0x2028 || character = 0x2029 || character = 0xFDD0 ||
      character = 0xFDD1 then
    0x0A
  else if character = 0xA0 then
    0x20
  else
    character

/-- `QPlainTextEdit::toPlainText` behind `setPlainText`. -/
def plainText : QString → QString
  | [] => []
  | character :: rest =>
      if character = 0x0D ∧ rest.head? = some 0x0A then
        plainText rest
      else
        plainCharacter character :: plainText rest

/-! ## The editor -/

/-- `ScriptEditor`, with its text as plain text.  A null path is not an empty one. -/
structure ScriptEditor where
  filePath : Option QString
  text : QString
  dirty : Bool
  paused : Bool
  deriving DecidableEq, Repr

/-- The editor and the files. -/
structure Desk where
  disk : Disk
  editor : ScriptEditor

/-- The buttons of the question what to do with changes. -/
inductive Choice where
  | save
  | discard
  | cancel
  deriving DecidableEq, Repr

/-- The bit for the dirty flag in `ScriptEditor::Features`. -/
def dirtyState : Int32 := 0x10

/-- `ScriptEditor::RuntimeFeatures`. -/
def runtimeFeatures : Int32 := 0x01 ||| 0x04 ||| 0x08

/-- `ScriptEditor::AllFeatures`. -/
def allFeatures : Int32 := ~~~0

namespace Desk

/-- Whether two paths are equal to `QString`. -/
def samePath (first second : Option QString) : Bool :=
  first.getD [] = second.getD []

/-- `reset`, as far as it concerns the document. -/
def reset (desk : Desk) (features : Int32) : Desk :=
  if features &&& dirtyState ≠ 0 then
    { desk with editor := { desk.editor with dirty := false } }
  else
    desk

/-- `markAsDirty`, when the text changes. -/
def type (desk : Desk) (text : QString) : Desk :=
  { desk with editor := { desk.editor with text := text, dirty := true } }

/-- `save`.  Whether the file can be opened is not looked at. -/
def save (desk : Desk) : Desk :=
  reset
    { desk with
      disk := desk.disk.writeAll (desk.editor.filePath.getD []) desk.editor.text.toUtf8 }
    dirtyState

/-- `open`, given what `shouldCancelDocumentChange` does. -/
def openUnless (shouldCancel : Desk → Bool × Desk) (desk : Desk) (filePath : Option QString) :
    Bool × Desk :=
  if samePath filePath desk.editor.filePath then
    (true, desk)
  else
    let (cancelled, desk) := shouldCancel desk
    if cancelled then
      (false, desk)
    else
      let text := plainText (QString.fromUtf8 (desk.disk.readAll (filePath.getD [])))
      (true, reset
        { desk with editor := { desk.editor with filePath := filePath, text := text } }
        allFeatures)

/-- `revert`.  The flag is cleared before the call of `open`, so that there is nothing to
ask. -/
def revert (desk : Desk) : Desk :=
  let desk := desk.reset dirtyState
  let desk := { desk with editor := { desk.editor with filePath := none } }
  (desk.openUnless (fun desk => (false, desk)) desk.editor.filePath).2

/-- `shouldCancelDocumentChange`. -/
def shouldCancelDocumentChange (answer : Choice) (desk : Desk) : Bool × Desk :=
  if !desk.editor.dirty then
    (false, desk)
  else if desk.editor.filePath = none then
    (false, desk.reset dirtyState)
  else
    match answer with
    | .cancel => (true, desk)
    | .discard => (false, desk.revert)
    | .save => (false, desk.save)

/-- `open`: whether the file is the one shown, afterwards. -/
def openFile (desk : Desk) (filePath : Option QString) (answer : Choice) : Bool × Desk :=
  desk.openUnless (shouldCancelDocumentChange answer) filePath

/-- `closeEvent`. -/
def closeEvent (desk : Desk) (answer : Choice) : Desk :=
  let (cancelled, desk) := desk.shouldCancelDocumentChange answer
  if cancelled then
    desk
  else
    { desk with editor := { desk.editor with filePath := none } }

/-- `run`, with `MainWindow::runEditorTest` for the listed tests: the test that is run is
opened once more. -/
def run (desk : Desk) (tests : List QString) (answer : Choice) : Desk :=
  let desk := desk.reset runtimeFeatures
  if desk.editor.paused then
    { desk with editor := { desk.editor with paused := false } }
  else
    match tests.find? fun test => samePath (some test) desk.editor.filePath with
    | some test => (desk.openFile (some test) answer).2
    | none => desk

/-- `setPaused`, from `pause` and `stop`. -/
def setPaused (desk : Desk) (paused : Bool) : Desk :=
  { desk with editor := { desk.editor with paused := paused } }

end Desk

/-! ## Runs -/

/-- What is done with the editor.  The answer is given if it asks. -/
inductive EditorOperation where
  | open (filePath : Option QString) (answer : Choice)
  | type (text : QString)
  | save
  | revert
  | close (answer : Choice)
  | run (tests : List QString) (answer : Choice)
  | pause
  | stop
  deriving DecidableEq, Repr

/-- The editor in use, and the file that was opened last. -/
structure EditorSession where
  desk : Desk
  lastOpened : Option QString

namespace EditorSession

/-- A fresh editor. -/
def fresh (disk : Disk) : EditorSession :=
  ⟨⟨disk, ⟨none, [], false, false⟩⟩, none⟩

def step (session : EditorSession) : EditorOperation → EditorSession
  | .open filePath answer =>
      let (shown, desk) := session.desk.openFile filePath answer
      ⟨desk, if shown then filePath else session.lastOpened⟩
  | .type text => { session with desk := session.desk.type text }
  | .save => { session with desk := session.desk.save }
  | .revert => { session with desk := session.desk.revert }
  | .close answer => { session with desk := session.desk.closeEvent answer }
  | .run tests answer => { session with desk := session.desk.run tests answer }
  | .pause => { session with desk := session.desk.setPaused true }
  | .stop => { session with desk := (session.desk.setPaused false).reset runtimeFeatures }

end EditorSession

/-! ## What the operations do -/

namespace Desk

/-- A document is open. -/
def IsOpen (desk : Desk) : Prop :=
  desk.editor.filePath.getD [] ≠ []

/-- A change of the document asks what to do with the old one. -/
def Asks (desk : Desk) : Prop :=
  desk.editor.dirty = true ∧ desk.editor.filePath ≠ none

instance (desk : Desk) : Decidable desk.IsOpen :=
  inferInstanceAs (Decidable (_ ≠ _))

instance (desk : Desk) : Decidable desk.Asks :=
  inferInstanceAs (Decidable (_ ∧ _))

/-- The text that the editor makes of a file. -/
def storedText (disk : Disk) (path : QString) : QString :=
  plainText (QString.fromUtf8 (disk.readAll path))

variable (desk : Desk)

@[simp] theorem reset_dirtyState :
    desk.reset dirtyState = { desk with editor := { desk.editor with dirty := false } } :=
  if_pos (by decide)

@[simp] theorem reset_allFeatures :
    desk.reset allFeatures = { desk with editor := { desk.editor with dirty := false } } :=
  if_pos (by decide)

@[simp] theorem reset_runtimeFeatures : desk.reset runtimeFeatures = desk :=
  if_neg (by decide)

/-- Discarding changes forgets the file and keeps the text. -/
theorem revert_eq :
    desk.revert =
      { desk with editor := { desk.editor with filePath := none, dirty := false } } := by
  rw [revert, reset_dirtyState]
  rfl

theorem unnamed_of_not_asks (asksNot : ¬desk.Asks) (dirty : desk.editor.dirty = true) :
    desk.editor.filePath = none := by
  by_contra named
  exact asksNot ⟨dirty, named⟩

/-- What the question leaves on the disk. -/
theorem shouldCancelDocumentChange_disk (answer : Choice) :
    (desk.shouldCancelDocumentChange answer).2.disk =
      if desk.Asks ∧ answer = .save then desk.save.disk else desk.disk := by
  by_cases asks : desk.Asks
  · cases answer <;>
      simp [shouldCancelDocumentChange, asks, asks.1, asks.2, revert_eq]
  · rw [if_neg fun both => asks both.1]
    cases dirty : desk.editor.dirty with
    | false => simp [shouldCancelDocumentChange, dirty]
    | true => simp [shouldCancelDocumentChange, dirty, desk.unnamed_of_not_asks asks dirty]

/-- Only the answer to the question cancels a change. -/
theorem shouldCancelDocumentChange_cancelled (answer : Choice) :
    (desk.shouldCancelDocumentChange answer).1 = decide (desk.Asks ∧ answer = .cancel) := by
  by_cases asks : desk.Asks
  · cases answer <;> simp [shouldCancelDocumentChange, asks, asks.1, asks.2]
  · cases dirty : desk.editor.dirty with
    | false => simp [shouldCancelDocumentChange, dirty, asks]
    | true => simp [shouldCancelDocumentChange, dirty, asks, desk.unnamed_of_not_asks asks dirty]

/-- The state of an editor that a file has been read into. -/
def loaded (disk : Disk) (filePath : Option QString) (paused : Bool) : Desk :=
  ⟨disk, ⟨filePath, storedText disk (filePath.getD []), false, paused⟩⟩

theorem shouldCancelDocumentChange_paused (answer : Choice) :
    (desk.shouldCancelDocumentChange answer).2.editor.paused = desk.editor.paused := by
  rw [shouldCancelDocumentChange.eq_def]
  split_ifs
  · rfl
  · rfl
  · cases answer <;> simp [revert_eq, save]

theorem openFile_same {filePath : Option QString}
    (same : samePath filePath desk.editor.filePath = true) (answer : Choice) :
    desk.openFile filePath answer = (true, desk) :=
  if_pos same

/-- Opening another file reads it, unless the question is cancelled. -/
theorem openFile_other {filePath : Option QString}
    (other : samePath filePath desk.editor.filePath = false) (answer : Choice) :
    desk.openFile filePath answer =
      if desk.Asks ∧ answer = .cancel then
        (false, (desk.shouldCancelDocumentChange answer).2)
      else
        (true, loaded (desk.shouldCancelDocumentChange answer).2.disk filePath
          desk.editor.paused) := by
  have cancelled := desk.shouldCancelDocumentChange_cancelled answer
  have paused := desk.shouldCancelDocumentChange_paused answer
  rw [openFile, openUnless, other]
  by_cases cancels : desk.Asks ∧ answer = .cancel
  · have stopped := cancelled.trans (decide_eq_true cancels)
    rw [if_pos cancels]
    simp [stopped]
  · simp [cancelled, cancels, loaded, storedText, paused]

theorem cancelled_eq {answer : Choice} (cancels : desk.Asks ∧ answer = .cancel) :
    (desk.shouldCancelDocumentChange answer).2 = desk := by
  simp [shouldCancelDocumentChange, cancels.1.1, cancels.1.2, cancels.2]

/-- Running a test leaves the document alone. -/
theorem run_eq (tests : List QString) (answer : Choice) :
    ∃ paused, desk.run tests answer = desk.setPaused paused := by
  rw [run, reset_runtimeFeatures]
  split_ifs
  · exact ⟨false, rfl⟩
  · split
    next test found =>
      have same := List.find?_some found
      exact ⟨desk.editor.paused, by rw [openFile_same desk same]; rfl⟩
    next => exact ⟨desk.editor.paused, rfl⟩

end Desk

/-! ## Sound steps -/

/-- A file holds a text. -/
def Disk.Holds (disk : Disk) (path text : QString) : Prop :=
  disk.contents path = some text.toUtf8

/-- A file that the editor may read, and whose text it shows as it is. -/
def Disk.IsKept (disk : Disk) (path : QString) : Prop :=
  disk.Holds path (Desk.storedText disk path)

namespace EditorSession

/-- The operation saves, of its own or because the user wants it to. -/
def Saves (session : EditorSession) : EditorOperation → Prop
  | .save => True
  | .open filePath answer =>
      Desk.samePath filePath session.desk.editor.filePath = false ∧ session.desk.Asks ∧
        answer = .save
  | .close answer => session.desk.Asks ∧ answer = .save
  | _ => False

/-- What the operations of an editor are for. -/
structure Sound (before : EditorSession) (operation : EditorOperation) (after : EditorSession) :
    Prop where
  saved : before.Saves operation → after.desk.editor.dirty = false ∧
    ∃ path, before.lastOpened = some path ∧
      after.desk.disk.Holds path before.desk.editor.text
  reverted : operation = .revert → before.desk.IsOpen →
    after.desk.editor.filePath = before.desk.editor.filePath ∧
      after.desk.editor.text =
        Desk.storedText before.desk.disk (before.desk.editor.filePath.getD [])
  settled : after.desk.IsOpen → after.desk.editor.dirty = false →
    after.desk.disk.Holds (after.desk.editor.filePath.getD []) after.desk.editor.text

/-- There is an open document, and its file can be written. -/
def CanSave (session : EditorSession) : Prop :=
  session.desk.IsOpen ∧
    session.desk.disk.writable (session.desk.editor.filePath.getD []) = true

/-- Changes of an open document are discarded only to show another one, documents are
saved while they are open, and only files that the editor shows as they are get opened. -/
def Safe (session : EditorSession) : EditorOperation → Prop
  | .save => session.CanSave
  | .revert => ¬session.desk.IsOpen
  | .open filePath answer =>
      Desk.samePath filePath session.desk.editor.filePath = true ∨
        (session.desk.Asks ∧ answer = .cancel) ∨
        ((session.desk.Asks ∧ answer = .save → session.CanSave) ∧
          (filePath.getD [] ≠ [] → session.desk.disk.IsKept (filePath.getD [])))
  | .close answer => session.desk.Asks ∧ answer = .save → session.CanSave
  | _ => True

/-- An open document is the last one that was opened, and without changes it is its
file. -/
structure Settled (session : EditorSession) : Prop where
  lastOpened : session.desk.IsOpen → session.lastOpened = session.desk.editor.filePath
  holds : session.desk.IsOpen → session.desk.editor.dirty = false →
    session.desk.disk.Holds (session.desk.editor.filePath.getD []) session.desk.editor.text

theorem settled_fresh (disk : Disk) : (fresh disk).Settled :=
  ⟨fun isOpen => absurd rfl isOpen, fun isOpen => absurd rfl isOpen⟩

/-- Saving while the document is open writes its file. -/
theorem holds_save {session : EditorSession} (canSave : session.CanSave) :
    session.desk.save.disk.Holds (session.desk.editor.filePath.getD [])
      session.desk.editor.text := by
  have canWrite : session.desk.disk.canWrite (session.desk.editor.filePath.getD []) = true := by
    rw [Disk.canWrite, canSave.2, Bool.and_true]
    exact decide_eq_true canSave.1
  rw [Desk.save, Desk.reset_dirtyState, Disk.writeAll, if_pos canWrite]
  exact if_pos rfl

/-- Saving does not change what is stored under other paths. -/
theorem isKept_save {desk : Desk} {path : QString}
    (other : path ≠ desk.editor.filePath.getD []) (kept : desk.disk.IsKept path) :
    desk.save.disk.IsKept path := by
  have contents : desk.save.disk.contents path = desk.disk.contents path := by
    rw [Desk.save, Desk.reset_dirtyState, Disk.writeAll]
    split_ifs
    · exact if_neg other
    · rfl
  have readable : desk.save.disk.readable = desk.disk.readable := by
    rw [Desk.save, Desk.reset_dirtyState, Disk.writeAll]
    split_ifs <;> rfl
  have stored : Desk.storedText desk.save.disk path = Desk.storedText desk.disk path := by
    simp only [Desk.storedText, Disk.readAll, contents, readable]
  rw [Disk.IsKept, Disk.Holds, contents, stored]
  exact kept

/-- The disk behind the question holds the files that are opened next. -/
theorem isKept_asked {desk : Desk} {path : QString} (answer : Choice)
    (other : path ≠ desk.editor.filePath.getD []) (kept : desk.disk.IsKept path) :
    (desk.shouldCancelDocumentChange answer).2.disk.IsKept path := by
  rw [Desk.shouldCancelDocumentChange_disk]
  split_ifs
  · exact isKept_save other kept
  · exact kept

theorem Settled.lastOpened_eq {session : EditorSession} (settled : session.Settled)
    (isOpen : session.desk.IsOpen) :
    session.lastOpened = some (session.desk.editor.filePath.getD []) := by
  rw [settled.lastOpened isOpen]
  cases named : session.desk.editor.filePath with
  | none => simp [Desk.IsOpen, named] at isOpen
  | some path => rfl

variable {session : EditorSession}

theorem settled_open (settled : session.Settled) {filePath : Option QString} {answer : Choice}
    (safe : session.Safe (.open filePath answer)) :
    (session.step (.open filePath answer)).Settled := by
  simp only [step]
  cases same : Desk.samePath filePath session.desk.editor.filePath with
  | true =>
      rw [Desk.openFile_same _ same]
      refine ⟨fun isOpen => ?_, settled.holds⟩
      have path : filePath.getD [] = session.desk.editor.filePath.getD [] := of_decide_eq_true same
      have named : session.desk.editor.filePath.getD [] ≠ [] := isOpen
      cases shown : session.desk.editor.filePath <;> cases filePath <;> simp_all
  | false =>
      have different : filePath.getD [] ≠ session.desk.editor.filePath.getD [] :=
        of_decide_eq_false same
      rw [Desk.openFile_other _ same]
      by_cases cancels : session.desk.Asks ∧ answer = .cancel
      · rw [if_pos cancels, Desk.cancelled_eq _ cancels]
        exact ⟨settled.lastOpened, settled.holds⟩
      · have kept := ((safe.resolve_left (by simp [same])).resolve_left cancels).2
        rw [if_neg cancels]
        exact ⟨fun _ => rfl, fun isOpen _ => isKept_asked answer different (kept isOpen)⟩

theorem settled_save (settled : session.Settled) (safe : session.CanSave) :
    (session.step .save).Settled := by
  have holds := holds_save safe
  rw [step, Desk.save, Desk.reset_dirtyState]
  rw [Desk.save, Desk.reset_dirtyState] at holds
  exact ⟨settled.lastOpened, fun _ _ => holds⟩

theorem not_isOpen_close (session : EditorSession) (answer : Choice) :
    (session.desk.Asks ∧ answer = .cancel) ∧ session.desk.closeEvent answer = session.desk ∨
      ¬(session.desk.closeEvent answer).IsOpen ∧
        (session.desk.closeEvent answer).disk =
          (session.desk.shouldCancelDocumentChange answer).2.disk := by
  have cancelled := session.desk.shouldCancelDocumentChange_cancelled answer
  by_cases cancels : session.desk.Asks ∧ answer = .cancel
  · refine .inl ⟨cancels, ?_⟩
    have stopped := cancelled.trans (decide_eq_true cancels)
    have same := Desk.cancelled_eq _ cancels
    simp [Desk.closeEvent, stopped, same]
  · have going := cancelled.trans (decide_eq_false cancels)
    exact .inr (by simp [Desk.closeEvent, going, Desk.IsOpen])

theorem settled_close (settled : session.Settled) (answer : Choice) :
    (session.step (.close answer)).Settled := by
  rcases session.not_isOpen_close answer with ⟨_, same⟩ | ⟨closed, _⟩
  · rw [step, same]
    exact settled
  · exact ⟨fun isOpen => absurd isOpen closed, fun isOpen => absurd isOpen closed⟩

/-- Safe steps keep a document settled. -/
theorem settled_step (settled : session.Settled) {operation : EditorOperation}
    (safe : session.Safe operation) : (session.step operation).Settled := by
  cases operation with
  | «open» filePath answer => exact settled_open settled safe
  | type text => exact ⟨settled.lastOpened, fun _ clean => Bool.noConfusion clean⟩
  | save => exact settled_save settled safe
  | revert =>
      rw [step, Desk.revert_eq]
      exact ⟨fun isOpen => absurd rfl isOpen, fun isOpen => absurd rfl isOpen⟩
  | close answer => exact settled_close settled answer
  | run tests answer =>
      obtain ⟨paused, same⟩ := session.desk.run_eq tests answer
      rw [step, same]
      exact ⟨settled.lastOpened, settled.holds⟩
  | pause => exact ⟨settled.lastOpened, settled.holds⟩
  | stop =>
      rw [step, Desk.reset_runtimeFeatures]
      exact ⟨settled.lastOpened, settled.holds⟩

/-- Safe steps that save write the open document to its file. -/
theorem saved_step (settled : session.Settled) {operation : EditorOperation}
    (safe : session.Safe operation) (saves : session.Saves operation) :
    (session.step operation).desk.editor.dirty = false ∧
      ∃ path, session.lastOpened = some path ∧
        (session.step operation).desk.disk.Holds path session.desk.editor.text := by
  have asked : ∀ answer, session.desk.Asks ∧ answer = .save →
      (session.desk.shouldCancelDocumentChange answer).2.disk = session.desk.save.disk := by
    intro answer both
    rw [Desk.shouldCancelDocumentChange_disk, if_pos both]
  cases operation with
  | «open» filePath answer =>
      obtain ⟨other, asks, rfl⟩ := saves
      have canSave := ((safe.resolve_left (by simp [other])).resolve_left nofun).1 ⟨asks, rfl⟩
      rw [step, Desk.openFile_other _ other, if_neg nofun]
      refine ⟨rfl, _, settled.lastOpened_eq canSave.1, ?_⟩
      change Disk.Holds (Desk.shouldCancelDocumentChange .save session.desk).2.disk _ _
      rw [asked _ ⟨asks, rfl⟩]
      exact holds_save canSave
  | save =>
      refine ⟨?_, _, settled.lastOpened_eq safe.1, holds_save safe⟩
      rw [step, Desk.save, Desk.reset_dirtyState]
  | close answer =>
      obtain ⟨asks, rfl⟩ := saves
      have canSave := safe ⟨asks, rfl⟩
      rcases session.not_isOpen_close .save with ⟨cancels, _⟩ | ⟨_, disk⟩
      · exact absurd cancels.2 nofun
      · refine ⟨?_, _, settled.lastOpened_eq canSave.1, ?_⟩
        · simp [step, Desk.closeEvent, Desk.shouldCancelDocumentChange, asks.1, asks.2,
            Desk.save]
        · rw [step, disk, asked _ ⟨asks, rfl⟩]
          exact holds_save canSave
  | type | revert | run | pause | stop => exact saves.elim

/-- A document that is only discarded to show another one is neither lost nor thought to be
saved: every safe run of operations on a fresh editor is sound throughout. -/
theorem safe_run_sound (disk : Disk) (operations : List EditorOperation)
    (safe : Library.Run.StepsMeet step Safe (fresh disk) operations) :
    ∀ before operation after, operations = before ++ operation :: after →
      Sound (before.foldl step (fresh disk)) operation
        (step (before.foldl step (fresh disk)) operation) := by
  intro before operation after shape
  subst shape
  have kept : ∀ session operation, Settled session → Safe session operation →
      Settled (step session operation) := fun _ _ settled safe => settled_step settled safe
  have settled := Library.Run.invariant_foldl kept (settled_fresh disk) safe.prefix
  have here := safe before operation after rfl
  have next := settled_step settled here
  refine ⟨saved_step settled here, ?_, next.holds⟩
  rintro rfl isOpen
  exact absurd isOpen here

instance (session : EditorSession) : Decidable session.CanSave :=
  inferInstanceAs (Decidable (_ ∧ _))

instance (disk : Disk) (path : QString) : Decidable (disk.IsKept path) :=
  inferInstanceAs (Decidable (_ = _))

instance (session : EditorSession) : (operation : EditorOperation) →
    Decidable (session.Safe operation)
  | .open _ _ => inferInstanceAs (Decidable (_ ∨ _ ∨ _))
  | .save => inferInstanceAs (Decidable session.CanSave)
  | .revert => inferInstanceAs (Decidable (¬_))
  | .close _ => inferInstanceAs (Decidable (_ → _))
  | .type _ | .run _ _ | .pause | .stop => isTrue trivial

/-- A disk with one file. -/
def smallDisk : Disk where
  contents := fun path => if path = QString.ofString "a.qs" then some [0x61] else none
  readable := fun _ => true
  writable := fun _ => true

/-- Opening a file, changing it, and saving. -/
def savedRun : List EditorOperation :=
  [.open (some "a.qs") .save, .type "b", .save, .close .save]

theorem savedRun_sound :
    Sound ([.open (some "a.qs") .save, .type "b"].foldl step (fresh smallDisk)) .save
      (step ([.open (some "a.qs") .save, .type "b"].foldl step (fresh smallDisk)) .save) :=
  safe_run_sound smallDisk savedRun (by decide +kernel)
    [.open (some "a.qs") .save, .type "b"] .save [.close .save] rfl

/-- Discarding changes keeps the changed text and forgets the file, so that a later save
goes nowhere. -/
theorem discard_not_sound :
    ¬Sound ([.open (some "a.qs") .save, .type "b"].foldl step (fresh smallDisk)) .revert
      (step ([.open (some "a.qs") .save, .type "b"].foldl step (fresh smallDisk)) .revert) ∧
    ¬Sound
      ([.open (some "a.qs") .save, .type "b", .revert, .type "c"].foldl step (fresh smallDisk))
      .save
      (step
        ([.open (some "a.qs") .save, .type "b", .revert, .type "c"].foldl step
          (fresh smallDisk))
        .save) := by
  constructor
  · intro sound
    have stays := (sound.reverted rfl (by decide +kernel)).1
    exact absurd stays (by decide +kernel)
  · intro sound
    obtain ⟨path, last, holds⟩ := (sound.saved trivial).2
    have named : path = QString.ofString "a.qs" := by
      apply Option.some.inj
      rw [← last]
      decide +kernel
    rw [named] at holds
    revert holds
    change ¬_ = _
    decide +kernel

end EditorSession

end Hooq
