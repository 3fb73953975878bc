import Mathlib.Data.Finset.Basic
import Hooq.Editor.Document
import Hooq.Library.Run

/-!
# Breakpoints

The editor pauses at a position of the script when there is a breakpoint on its line and the
line is not the current one.  The current line is not forgotten when a run ends.
-/

namespace Hooq

open Library.Run

/-- `ScriptEditor::Mode`. -/
inductive EditorMode where
  | headless
  | interactive
  deriving DecidableEq, Repr

/-- `ScriptEditor`, as far as it concerns breakpoints.  `positionChange` sets the current line
behind the pause; until then the line is held. -/
structure Debugger where
  breakpoints : Finset Int
  currentLine : Int
  mode : EditorMode
  paused : Bool
  held : Option Int

/-- The bit for the breakpoints in `ScriptEditor::Features`. -/
def breakpointsFeature : Int32 := 0x02

namespace Debugger

/-- `CodeEditor::toggleBreakpoint`. -/
def toggleBreakpoint (editor : Debugger) (lineNumber : Int) : Debugger :=
  if lineNumber ∈ editor.breakpoints then
    { editor with breakpoints := editor.breakpoints.erase lineNumber }
  else
    { editor with breakpoints := insert lineNumber editor.breakpoints }

/-- `reset`, as far as it concerns breakpoints. -/
def reset (editor : Debugger) (features : Int32) : Debugger :=
  if features &&& breakpointsFeature ≠ 0 then { editor with breakpoints := ∅ } else editor

/-- `pause`.  Without a user the script is aborted instead. -/
def pause (editor : Debugger) : Debugger :=
  match editor.mode with
  | .interactive => { editor with paused := true }
  | .headless => editor

/-- The loops of `pause` end, and with them `positionChange`. -/
def unpause (editor : Debugger) : Debugger :=
  { editor with
    paused := false, currentLine := editor.held.getD editor.currentLine, held := none }

def positionChange (editor : Debugger) (lineNumber : Int) : Debugger :=
  let editor := editor.reset runtimeFeatures
  if editor.currentLine ≠ lineNumber ∧ lineNumber ∈ editor.breakpoints ∧
      editor.mode = .interactive then
    { editor.pause with held := some lineNumber }
  else
    { editor with currentLine := lineNumber }

/-- `run`, when the editor is paused.  When it is not, the test is started. -/
def run (editor : Debugger) : Debugger :=
  let editor := editor.reset runtimeFeatures
  if editor.paused then editor.unpause else editor

def stop (editor : Debugger) : Debugger :=
  editor.unpause.reset runtimeFeatures

@[simp] theorem reset_runtimeFeatures (editor : Debugger) :
    editor.reset runtimeFeatures = editor := rfl

theorem positionChange_eq (editor : Debugger) (lineNumber : Int) :
    editor.positionChange lineNumber =
      if editor.currentLine ≠ lineNumber ∧ lineNumber ∈ editor.breakpoints ∧
          editor.mode = .interactive then
        { editor with paused := true, held := some lineNumber }
      else
        { editor with currentLine := lineNumber } := by
  rw [positionChange, reset_runtimeFeatures]
  split_ifs with pauses
  · rw [pause, pauses.2.2]
  · rfl

end Debugger

/-- What happens to the editor.  A run is an evaluation of the script, and the script is
aborted at any time. -/
inductive DebugEvent where
  | toggleBreakpoint (lineNumber : Int)
  | open
  | setMode (mode : EditorMode)
  | startEvaluation
  | positionChange (lineNumber : Int)
  | objectNotFound
  | run
  | stop
  | endEvaluation
  deriving DecidableEq, Repr

/-- The editor, and the lines that the run in progress has executed. -/
structure DebugSession where
  editor : Debugger
  executed : Option (List Int)

namespace DebugSession

/-- Before the first run. -/
def ready (breakpoints : Finset Int) : DebugSession :=
  ⟨⟨breakpoints, -1, .interactive, false, none⟩, none⟩

/-- Nothing is executed while the editor is paused. -/
def step (session : DebugSession) : DebugEvent → DebugSession
  | .toggleBreakpoint lineNumber =>
      { session with editor := session.editor.toggleBreakpoint lineNumber }
  | .open => { session with editor := session.editor.reset allFeatures }
  | .setMode mode => { session with editor := { session.editor with mode := mode } }
  | .startEvaluation =>
      if session.executed = none then { session with executed := some [] } else session
  | .positionChange lineNumber =>
      match session.executed with
      | some lines =>
          if session.editor.paused then session
          else ⟨session.editor.positionChange lineNumber, some (lines ++ [lineNumber])⟩
      | none => session
  | .objectNotFound => { session with editor := session.editor.pause }
  | .run => { session with editor := session.editor.run }
  | .stop => { session with editor := session.editor.stop }
  | .endEvaluation => if session.editor.paused then session else { session with executed := none }

/-- The script goes on to a position, with a user at the editor. -/
def Reaches (session : DebugSession) (lines : List Int) : Prop :=
  session.executed = some lines ∧ session.editor.paused = false ∧
    session.editor.mode = .interactive

/-- The editor pauses at a position exactly when there is a breakpoint on its line and the
position before it in the same run, if any, is on another line. -/
def Honours (session : DebugSession) : DebugEvent → Prop
  | .positionChange lineNumber =>
      ∀ lines, session.Reaches lines →
        ((session.step (.positionChange lineNumber)).editor.paused = true ↔
          lineNumber ∈ session.editor.breakpoints ∧
            ∀ previous ∈ lines.getLast?, previous ≠ lineNumber)
  | _ => True

/-- A run does not begin with a breakpoint on the current line, which is still the one that
was executed last before the run. -/
def BeginsElsewhere (session : DebugSession) : DebugEvent → Prop
  | .positionChange lineNumber =>
      session.Reaches [] → lineNumber ∈ session.editor.breakpoints →
        session.editor.currentLine ≠ lineNumber
  | _ => True

/-- What the editor remembers, or is about to. -/
structure Remembers (session : DebugSession) : Prop where
  unheld : session.editor.paused = false → session.editor.held = none
  last : ∀ lines, session.executed = some lines →
    ∀ previous ∈ lines.getLast?, session.editor.held.getD session.editor.currentLine = previous

theorem remembers_ready (breakpoints : Finset Int) : (ready breakpoints).Remembers :=
  ⟨fun _ => rfl, nofun⟩

variable {session : DebugSession}

/-- Only the lines and the pause count. -/
theorem Remembers.congr (remembers : session.Remembers) {editor : Debugger}
    (currentLine : editor.currentLine = session.editor.currentLine)
    (paused : editor.paused = session.editor.paused)
    (held : editor.held = session.editor.held) :
    Remembers { session with editor := editor } := by
  constructor
  · rw [paused, held]
    exact remembers.unheld
  · rw [currentLine, held]
    exact remembers.last

theorem remembers_toggleBreakpoint (remembers : session.Remembers) (lineNumber : Int) :
    Remembers { session with editor := session.editor.toggleBreakpoint lineNumber } := by
  rw [Debugger.toggleBreakpoint]
  split_ifs
  · exact remembers.congr rfl rfl rfl
  · exact remembers.congr rfl rfl rfl

theorem remembers_reset (remembers : session.Remembers) (features : Int32) :
    Remembers { session with editor := session.editor.reset features } := by
  rw [Debugger.reset]
  split_ifs
  · exact remembers.congr rfl rfl rfl
  · exact remembers

theorem remembers_pause (remembers : session.Remembers) :
    Remembers { session with editor := session.editor.pause } := by
  rw [Debugger.pause]
  split
  · exact ⟨nofun, remembers.last⟩
  · exact remembers

theorem remembers_unpause (remembers : session.Remembers) :
    Remembers { session with editor := session.editor.unpause } :=
  ⟨fun _ => rfl, remembers.last⟩

theorem remembers_run (remembers : session.Remembers) :
    Remembers { session with editor := session.editor.run } := by
  rw [Debugger.run, Debugger.reset_runtimeFeatures]
  split_ifs
  · exact remembers_unpause remembers
  · exact remembers

/-- Behind a position its line is remembered, or it is held. -/
theorem remembers_positionChange (remembers : session.Remembers)
    (running : session.editor.paused = false) (lines : List Int) (lineNumber : Int) :
    Remembers ⟨session.editor.positionChange lineNumber, some (lines ++ [lineNumber])⟩ := by
  have unheld := remembers.unheld running
  have isLast : ∀ longer, some (lines ++ [lineNumber]) = some longer →
      ∀ previous ∈ longer.getLast?, lineNumber = previous := by
    rintro longer ⟨⟩ previous isPrevious
    simpa using isPrevious
  rw [Debugger.positionChange_eq]
  split_ifs
  · exact ⟨nofun, isLast⟩
  · constructor
    · exact fun _ => unheld
    · rw [unheld]
      exact isLast

theorem remembers_step (remembers : session.Remembers) (event : DebugEvent) :
    (session.step event).Remembers := by
  cases event with
  | toggleBreakpoint lineNumber => exact remembers_toggleBreakpoint remembers lineNumber
  | «open» => exact remembers_reset remembers allFeatures
  | setMode mode => exact remembers.congr rfl rfl rfl
  | startEvaluation =>
      rw [step]
      split_ifs
      · refine ⟨remembers.unheld, ?_⟩
        rintro lines ⟨⟩ previous isPrevious
        cases isPrevious
      · exact remembers
  | positionChange lineNumber =>
      rw [step]
      split
      next lines _ =>
        split_ifs with paused
        · exact remembers
        · exact remembers_positionChange remembers (Bool.eq_false_of_not_eq_true paused) lines
            lineNumber
      next => exact remembers
  | objectNotFound => exact remembers_pause remembers
  | run => exact remembers_run remembers
  | stop => exact remembers_unpause remembers
  | endEvaluation =>
      rw [step]
      split_ifs
      · exact remembers
      · exact ⟨remembers.unheld, nofun⟩

/-- A position where the editor pauses. -/
theorem paused_positionChange {lines : List Int} (reaches : session.Reaches lines)
    (lineNumber : Int) :
    (session.step (.positionChange lineNumber)).editor.paused = true ↔
      session.editor.currentLine ≠ lineNumber ∧ lineNumber ∈ session.editor.breakpoints := by
  rcases reaches with ⟨executes, running, interactive⟩
  have stepped : (session.step (.positionChange lineNumber)).editor =
      session.editor.positionChange lineNumber := by
    simp [step, executes, running]
  rw [stepped, Debugger.positionChange_eq, interactive]
  split_ifs with pauses
  · exact iff_of_true rfl ⟨pauses.1, pauses.2.1⟩
  · refine iff_of_false (by simp [running]) ?_
    exact fun both => pauses ⟨both.1, both.2, rfl⟩

/-- Within a run the current line is the one of the position before. -/
theorem honours_iff (remembers : session.Remembers) (event : DebugEvent) :
    session.Honours event ↔ session.BeginsElsewhere event := by
  cases event with
  | positionChange lineNumber =>
      constructor
      · intro honours reaches hasBreakpoint
        have pauses := (honours [] reaches).mpr ⟨hasBreakpoint, nofun⟩
        exact ((paused_positionChange reaches lineNumber).mp pauses).1
      · intro elsewhere lines reaches
        rw [paused_positionChange reaches, and_comm]
        refine and_congr_right fun hasBreakpoint => ?_
        cases isPrevious : lines.getLast? with
        | none =>
            have first : lines = [] := List.getLast?_eq_none_iff.mp isPrevious
            subst first
            exact iff_of_true (elsewhere reaches hasBreakpoint) nofun
        | some previous =>
            have same := remembers.last lines reaches.1 previous isPrevious
            rw [remembers.unheld reaches.2.1, Option.getD_none] at same
            simp [same]
  | _ => exact Iff.rfl

/-- Breakpoints are honoured in all runs exactly when no run begins with a breakpoint on the
line where the one before it was left. -/
theorem stepsMeet_honours_iff (breakpoints : Finset Int) (events : List DebugEvent) :
    StepsMeet step Honours (ready breakpoints) events ↔
      StepsMeet step BeginsElsewhere (ready breakpoints) events := by
  have kept : ∀ session event, Remembers session → BeginsElsewhere session event →
      Remembers (session.step event) :=
    fun _ event remembers _ => remembers_step remembers event
  exact stepsMeet_congr kept (fun _ event remembers => honours_iff remembers event)
    (remembers_ready breakpoints) events

/-- A run that is stopped at a breakpoint on its first line, and the start of another one. -/
def stoppedRun : List DebugEvent :=
  [.startEvaluation, .positionChange 1, .stop, .endEvaluation, .startEvaluation]

theorem stoppedRun_not_honoured :
    ¬∀ (breakpoints : Finset Int) (events : List DebugEvent),
      StepsMeet step Honours (ready breakpoints) events := by
  intro every
  have honours := (every {1} (stoppedRun ++ [.positionChange 1])).last
  have pauses := (honours [] ⟨rfl, rfl, rfl⟩).mpr ⟨by decide, nofun⟩
  revert pauses
  decide

end DebugSession

end Hooq
