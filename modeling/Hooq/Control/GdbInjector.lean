import Hooq.Library.Lines
import Hooq.Library.Separator
import Hooq.Library.ShellWords
import Hooq.Qt.PlaceMarkers

/-!
# Starting an application under gdb

The commands that `GdbInjector` writes to gdb.  The arguments of the application go on the
line that sets them, and gdb hands this line to a shell.
-/

namespace Hooq.GdbInjector

open Library.ShellWords (newline blank quote backslash escaped commandLine survives)

/-- `RTLD_NOW`. -/
def rtldNow : Int := 2

section

variable (tables : CharacterTables)

/-- One argument between double quotes, with a blank in front. -/
def quoted (argument : QString) : QString :=
  tables.arg (QString.ofString " \"%1\"")
    (Library.Separator.replace (QString.ofString "\"") (QString.ofString "\\\"") argument)

def argumentsString (applicationArguments : List QString) : QString :=
  applicationArguments.foldl (fun text argument => text ++ quoted tables argument) []

def setArgs (applicationArguments : List QString) : QString :=
  QString.ofString "set args" ++ argumentsString tables applicationArguments

/-- What loads the library with one of the loaders. -/
def callLoader (loader libraryPath : QString) : QString :=
  tables.arg (tables.arg loader libraryPath) (QString.number rtldNow)

/-- The commands behind the one that sets the arguments. -/
def laterCommands (libraryPath : QString) : List QString :=
  ["run", "sharedlibrary libdl", "sharedlibrary libc", "sharedlibrary libQtCore",
    "break QCoreApplication::exec()", "continue",
    callLoader tables "call dlopen(\"%1\", %2)" libraryPath,
    callLoader tables "call __dlopen(\"%1\", %2)" libraryPath,
    "sharedlibrary injectedHooq", "call startHooq()", "continue", "backtrace", "quit"]

def commands (libraryPath : QString) (applicationArguments : List QString) : List QString :=
  QString.ofString "set auto-solib-add off" :: QString.ofString "break _start" ::
    setArgs tables applicationArguments :: laterCommands tables libraryPath

/-- `GdbInjector::startProcess`: each command ends its line. -/
def startProcess (libraryPath : QString) (applicationArguments : List QString) : QString :=
  (commands tables libraryPath applicationArguments).flatMap (· ++ [newline])

theorem quoted_eq (argument : QString) :
    quoted tables argument = blank :: quote :: (escaped argument ++ [quote]) := by
  have template : QString.ofString " \"%1\"" =
      [blank, quote] ++ (CharacterTables.place 1 ++ [quote]) := by
    decide
  have isEscaped : Library.Separator.replace (QString.ofString "\"") (QString.ofString "\\\"")
      argument = escaped argument :=
    Library.Separator.replace_singleton quote [backslash, quote] argument
  have stops : tables.Stops quote := tables.stops_ascii (by decide) (by decide) (by decide)
  rw [quoted, isEscaped, template]
  apply tables.arg_place stops (by decide)
  · intro number member
    rw [tables.markers_cons_of_ne (by decide), tables.markers_cons_of_ne (by decide)] at member
    cases member
  · intro number member
    rw [tables.markers_cons_of_ne (by decide)] at member
    cases member

theorem argumentsString_eq (applicationArguments : List QString) :
    argumentsString tables applicationArguments = commandLine applicationArguments := by
  rw [argumentsString, ← List.flatMap_eq_foldl, commandLine]
  congr 1
  funext argument
  exact quoted_eq tables argument

theorem newline_mem_escaped {argument : QString} :
    newline ∈ escaped argument ↔ newline ∈ argument := by
  rw [escaped, List.mem_flatMap]
  constructor
  · rintro ⟨character, member, isNewline⟩
    split at isNewline
    · exact absurd isNewline (by decide)
    · rwa [List.mem_singleton.mp isNewline]
  · intro member
    exact ⟨newline, member, by decide⟩

theorem newline_mem_setArgs {applicationArguments : List QString} :
    newline ∈ setArgs tables applicationArguments ↔
      ∃ argument ∈ applicationArguments, newline ∈ argument := by
  have inCommand : newline ∉ QString.ofString "set args" := by decide
  have isBlank : newline ≠ blank := by decide
  have isQuote : newline ≠ quote := by decide
  simp [setArgs, argumentsString_eq, commandLine, inCommand, isBlank, isQuote,
    newline_mem_escaped]

/-- The lines that gdb reads. -/
def inputLines (input : QString) : List QString :=
  Library.Lines.lines newline input

/-- The third line is the command with the arguments where no line is broken. -/
theorem third_inputLine_iff (libraryPath : QString) (applicationArguments : List QString) :
    (inputLines (startProcess tables libraryPath applicationArguments))[2]? =
        some (setArgs tables applicationArguments) ↔
      ∀ argument ∈ applicationArguments, newline ∉ argument := by
  have first : newline ∉ QString.ofString "set auto-solib-add off" := by decide
  have second : newline ∉ QString.ofString "break _start" := by decide
  have written : startProcess tables libraryPath applicationArguments =
      QString.ofString "set auto-solib-add off" ++ newline ::
        (QString.ofString "break _start" ++ newline ::
          (setArgs tables applicationArguments ++ newline ::
            (laterCommands tables libraryPath).flatMap (· ++ [newline]))) := by
    simp only [startProcess, commands, List.flatMap_cons, List.append_assoc,
      List.singleton_append]
  have third : (inputLines (startProcess tables libraryPath applicationArguments))[2]? =
      (inputLines (setArgs tables applicationArguments ++ newline ::
        (laterCommands tables libraryPath).flatMap (· ++ [newline]))).head? := by
    rw [written, inputLines, Library.Lines.lines_append, Library.Lines.lines_append,
      Library.Lines.lines_of_free first, Library.Lines.lines_of_free second]
    exact List.head?_eq_getElem?.symm
  rw [third, inputLines, Library.Lines.head?_lines_iff, newline_mem_setArgs]
  simp only [not_exists, not_and]

/-- An argument that the shell gives to the application as it is: without a dollar sign, a
backquote or a line break, and with each backslash in front of a character other than a
backslash and a double quote. -/
structure IsVerbatim (argument : QString) : Prop where
  unbroken : newline ∉ argument
  survives : survives argument = true

/-- The line arrives whole and gives the arguments back where each of them is verbatim. -/
theorem startProcess_roundTrip_iff (libraryPath : QString)
    (applicationArguments : List QString) :
    ((inputLines (startProcess tables libraryPath applicationArguments))[2]? =
          some (setArgs tables applicationArguments) ∧
        Library.ShellWords.words (argumentsString tables applicationArguments) =
          some applicationArguments) ↔
      ∀ argument ∈ applicationArguments, IsVerbatim argument := by
  rw [third_inputLine_iff, argumentsString_eq, Library.ShellWords.words_commandLine_iff]
  constructor
  · rintro ⟨unbroken, survives⟩ argument member
    exact ⟨unbroken argument member, survives argument member⟩
  · intro verbatim
    exact ⟨fun argument member => (verbatim argument member).unbroken,
      fun argument member => (verbatim argument member).survives⟩

end

/-- A backslash at the end of an argument takes the quote that was to end it. -/
theorem trailingBackslash_unread :
    ¬∀ (tables : CharacterTables) (libraryPath : QString) (applicationArguments : List QString),
      (inputLines (startProcess tables libraryPath applicationArguments))[2]? =
          some (setArgs tables applicationArguments) ∧
        Library.ShellWords.words (argumentsString tables applicationArguments) =
          some applicationArguments := by
  intro every
  have same := (every separatorTables [] [[backslash]]).2
  rw [argumentsString_eq] at same
  revert same
  decide

end Hooq.GdbInjector
