import Hooq.Storage.Confinement
import Mathlib.Logic.Function.Basic

/-!
# Restoring and backing up that fail half way

`restore` opens the files of a test set one after the other, and stops at the first that
cannot be opened.  `backup` opens its destination before it reads the files of the set.
-/

namespace Hooq

/-- The contents of the files that exist, by the names on the way down to them. -/
abbrev FileSystem := List QString → Option QByteArray

namespace FilePath

/-- The path leads to something under the directory. -/
def IsUnder (current : List QString) (directory path : QString) : Prop :=
  ∃ names, names ≠ [] ∧ locate current path = locate current directory ++ names

end FilePath

namespace TestSetBackup

open FilePath

section

variable (stream : DataStream) (compression : Compression) (current : List QString)
  (canOpen : QString → Bool)

/-! ## Restoring -/

/-- What `restore` leaves behind: the name that it returns, the files that it opened for
writing, each of which it creates or truncates, and all files. -/
structure Attempt where
  testSet : QString
  opened : List QString
  files : FileSystem

/-- The loop of `restore` over the tests, which opens each test's file and writes it. -/
def writeFiles (directory : QString) : List (QString × QByteArray) → List QString →
    FileSystem → Bool × List QString × FileSystem
  | [], opened, files => (true, opened, files)
  | test :: rest, opened, files =>
      let path := directory ++ test.1
      if canOpen path then
        writeFiles directory rest (opened ++ [path])
          (Function.update files (locate current path) (some test.2))
      else
        (false, opened, files)

/-- `restore` on the files that there are.  Whether a file can be opened also depends on the
directories: that `mkpath` fails is not looked at. -/
def restoreOn (rootDirectory : QString) (archive : QByteArray) (files : FileSystem) : Attempt :=
  match readBackup stream compression archive with
  | none => ⟨[], [], files⟩
  | some backup =>
      match writeFiles current canOpen (directoryPath rootDirectory backup.1)
        (collect backup.2) [] files with
      | (true, opened, files) => ⟨backup.1, opened, files⟩
      | (false, opened, files) => ⟨[], opened, files⟩

/-- A restoring that returns nothing has created, truncated and overwritten no file under
the root directory. -/
def IsAllOrNothing (rootDirectory : QString) (attempt : Attempt) : Prop :=
  attempt.testSet = [] → ∀ path ∈ attempt.opened, ¬ IsUnder current rootDirectory path

/-- Up to the first file that cannot be opened, the loop opens them all. -/
theorem writeFiles_opened (directory : QString) (tests : List (QString × QByteArray))
    (opened : List QString) (files : FileSystem) :
    (writeFiles current canOpen directory tests opened files).2.1 =
      opened ++ (tests.takeWhile fun test => canOpen (directory ++ test.1)).map
        fun test => directory ++ test.1 := by
  induction tests generalizing opened files with
  | nil => simp [writeFiles]
  | cons test rest ih =>
      cases opens : canOpen (directory ++ test.1) with
      | false => simp [writeFiles, opens]
      | true => simp [writeFiles, opens, ih]

theorem writeFiles_succeeds (directory : QString) (tests : List (QString × QByteArray))
    (opened : List QString) (files : FileSystem) :
    (writeFiles current canOpen directory tests opened files).1 =
      tests.all fun test => canOpen (directory ++ test.1) := by
  induction tests generalizing opened files with
  | nil => rfl
  | cons test rest ih =>
      cases opens : canOpen (directory ++ test.1) with
      | false => simp [writeFiles, opens]
      | true => simp [writeFiles, opens, ih]

/-- Files that are not opened stay as they are. -/
theorem writeFiles_frame (directory : QString) (tests : List (QString × QByteArray))
    (opened : List QString) (files : FileSystem) {place : List QString}
    (untouched : ∀ path ∈ (writeFiles current canOpen directory tests opened files).2.1,
      locate current path ≠ place) :
    (writeFiles current canOpen directory tests opened files).2.2 place = files place := by
  induction tests generalizing opened files with
  | nil => rfl
  | cons test rest ih =>
      cases opens : canOpen (directory ++ test.1) with
      | false => simp [writeFiles, opens]
      | true =>
          simp only [writeFiles, opens, if_true] at untouched ⊢
          have other : locate current (directory ++ test.1) ≠ place := by
            apply untouched
            rw [writeFiles_opened]
            simp
          rw [ih _ _ untouched, Function.update_of_ne other.symm]

theorem restoreOn_opened (rootDirectory : QString) {archive : QByteArray} (files : FileSystem)
    {backup : QString × List (QString × QByteArray)}
    (read : readBackup stream compression archive = some backup) :
    (restoreOn stream compression current canOpen rootDirectory archive files).opened =
      ((collect backup.2).takeWhile fun test =>
        canOpen (directoryPath rootDirectory backup.1 ++ test.1)).map
        fun test => directoryPath rootDirectory backup.1 ++ test.1 := by
  have opened := writeFiles_opened current canOpen (directoryPath rootDirectory backup.1)
    (collect backup.2) [] files
  rw [List.nil_append] at opened
  rw [← opened, restoreOn, read]
  simp only
  split <;> simp_all

/-- A backup that is read names its test set. -/
theorem testSet_of_readBackup {archive : QByteArray}
    {backup : QString × List (QString × QByteArray)}
    (read : readBackup stream compression archive = some backup) : backup.1 ≠ [] := by
  simp only [readBackup, Option.bind_eq_bind, Option.bind_eq_some_iff] at read
  rcases read with ⟨data, _, read⟩
  split at read
  · cases read
  next named =>
    rcases Option.bind_eq_some_iff.mp read with ⟨tests, _, isBackup⟩
    cases isBackup
    exact named

theorem restoreOn_testSet (rootDirectory : QString) {archive : QByteArray} (files : FileSystem)
    {backup : QString × List (QString × QByteArray)}
    (read : readBackup stream compression archive = some backup) :
    (restoreOn stream compression current canOpen rootDirectory archive files).testSet = [] ↔
      ¬ ∀ test ∈ collect backup.2,
        canOpen (directoryPath rootDirectory backup.1 ++ test.1) = true := by
  have succeeds := writeFiles_succeeds current canOpen (directoryPath rootDirectory backup.1)
    (collect backup.2) [] files
  have named := testSet_of_readBackup stream compression read
  rw [← List.all_eq_true, ← succeeds, restoreOn, read]
  simp only
  split <;> simp_all

/-- A restoring leaves every file alone that it does not open. -/
theorem restoreOn_frame (rootDirectory : QString) (archive : QByteArray) (files : FileSystem)
    {place : List QString}
    (untouched : ∀ path ∈
      (restoreOn stream compression current canOpen rootDirectory archive files).opened,
      locate current path ≠ place) :
    (restoreOn stream compression current canOpen rootDirectory archive files).files place =
      files place := by
  cases read : readBackup stream compression archive with
  | none => simp [restoreOn, read]
  | some backup =>
      have frame := @writeFiles_frame current canOpen (directoryPath rootDirectory backup.1)
        (collect backup.2) [] files place
      rw [writeFiles_opened, List.nil_append] at frame
      rw [restoreOn_opened stream compression current canOpen rootDirectory files read] at untouched
      rw [← frame untouched, restoreOn, read]
      simp only
      split <;> simp_all

/-- The model of the loop on the whole file system gives what the one on the set's directory
gives. -/
theorem restoreOn_restores (rootDirectory : QString) {archive : QByteArray} (files : FileSystem)
    {backup : QString × List (QString × QByteArray)}
    (read : readBackup stream compression archive = some backup) :
    restoredPaths stream compression canOpen rootDirectory archive =
      some ⟨directoryPath rootDirectory backup.1,
        (restoreOn stream compression current canOpen rootDirectory archive files).opened⟩ := by
  rw [restoreOn_opened stream compression current canOpen rootDirectory files read, restoredPaths,
    read]
  simp only [Option.map_some, restore_files stream compression _ read]

/-- Restoring is all or nothing exactly when every file of the archive can be opened, or none
of the files before the first that cannot be opened lies under the root directory. -/
theorem restoreOn_isAllOrNothing_iff (rootDirectory : QString) (archive : QByteArray)
    (files : FileSystem) :
    IsAllOrNothing current rootDirectory
        (restoreOn stream compression current canOpen rootDirectory archive files) ↔
      ∀ backup, readBackup stream compression archive = some backup →
        (∀ test ∈ collect backup.2,
          canOpen (directoryPath rootDirectory backup.1 ++ test.1) = true) ∨
        ∀ test ∈ (collect backup.2).takeWhile fun test =>
            canOpen (directoryPath rootDirectory backup.1 ++ test.1),
          ¬ IsUnder current rootDirectory (directoryPath rootDirectory backup.1 ++ test.1) := by
  cases read : readBackup stream compression archive with
  | none => simp [IsAllOrNothing, restoreOn, read]
  | some backup =>
      rw [IsAllOrNothing,
        restoreOn_testSet stream compression current canOpen rootDirectory files read,
        restoreOn_opened stream compression current canOpen rootDirectory files read,
        List.forall_mem_map, ← or_iff_not_imp_left]
      simp

end

/-- The stream for the scripts `a.qs` and `b.qs` of the test set `forms`. -/
def pairStream : QByteArray :=
  [0, 0, 0, 10, 0, 102, 0, 111, 0, 114, 0, 109, 0, 115,
    0, 0, 0, 8, 0, 97, 0, 46, 0, 113, 0, 115, 0, 0, 0, 1, 49,
    0, 0, 0, 8, 0, 98, 0, 46, 0, 113, 0, 115, 0, 0, 0, 1, 50]

/-- What `qCompress` makes of it at level 9. -/
def pairCompressed : QByteArray :=
  [0, 0, 0, 48, 120, 218, 99, 96, 96, 224, 98, 72, 99, 200, 103, 40, 98, 200, 101, 40, 102,
    96, 96, 224, 96, 72, 100, 208, 99, 40, 4, 179, 25, 13, 193, 2, 73, 8, 1, 35, 0, 140, 167,
    5, 142]

/-- A compression that agrees with `qCompress` on this stream. -/
def pairCompression : Compression where
  compress data := if data = pairStream then pairCompressed else 0xFF :: data
  uncompress data := if data = pairCompressed then pairStream else data.tail
  uncompress_compress := by
    intro data
    by_cases isPair : data = pairStream
    · rw [if_pos isPair, if_pos rfl, isPair]
    · rw [if_neg isPair, if_neg]
      · rfl
      · intro same
        have heads : some (0xFF : UInt8) = some 0 := congrArg List.head? same
        exact absurd heads (by decide)

def pair : QString × List (QString × QByteArray) :=
  ("forms", [("a.qs", [49]), ("b.qs", [50])])

theorem readBackup_pair :
    readBackup .qt44 pairCompression (magic ++ pairCompressed) = some pair := by
  have backedUp : backup .qt44 pairCompression "forms"
      ⟨[⟨"a.qs", [49], true, false⟩, ⟨"b.qs", [50], true, false⟩], by decide⟩ =
        some (magic ++ pairCompressed) := by
    decide +kernel
  exact readBackup_of_scripts .qt44 pairCompression (by decide) backedUp (by decide)

/-- When the second file cannot be opened, the first has been overwritten already. -/
theorem pair_not_allOrNothing :
    ¬ ∀ (canOpen : QString → Bool) (archive : QByteArray) (files : FileSystem),
      IsAllOrNothing [] "/home/tests"
        (restoreOn .qt44 pairCompression [] canOpen "/home/tests" archive files) := by
  intro all
  have attempt := all (fun path => path = QString.ofString "/home/tests/forms/a.qs")
    (magic ++ pairCompressed) fun _ => none
  rw [IsAllOrNothing, restoreOn_testSet _ _ _ _ _ _ readBackup_pair,
    restoreOn_opened _ _ _ _ _ _ readBackup_pair] at attempt
  have fails : ¬ ∀ test ∈ collect pair.2, decide (directoryPath "/home/tests" pair.1 ++ test.1 =
      QString.ofString "/home/tests/forms/a.qs") = true := by
    intro opens
    exact absurd (opens ("b.qs", [50]) (by decide +kernel)) (by decide +kernel)
  apply attempt fails "/home/tests/forms/a.qs" (by decide +kernel)
  exact ⟨["forms", "a.qs"], by decide, by decide +kernel⟩

/-! ## Backing up -/

/-- Where `backup` writes: beside the directory of the test set, to a file with the contents
that it has, if it exists; or into the directory, to a name there.  A new file comes to stand
at a position among the files of the directory. -/
inductive Destination where
  | beside (contents : Option QByteArray)
  | inside (name : QString) (position : Nat)
  deriving DecidableEq, Repr

section

variable (directory : TestDirectory)

/-- The contents of the file with a name. -/
def contentsOf (name : QString) : Option QByteArray :=
  (directory.files.find? fun file => file.name = name).map TestFile.contents

/-- The name that the destination has in the directory, if it lies there. -/
def Destination.name? : Destination → Option QString
  | .beside _ => none
  | .inside name _ => some name

/-- What the destination holds before the call. -/
def Destination.contents : Destination → Option QByteArray
  | .beside contents => contents
  | .inside name _ => contentsOf directory name

/-- The files of the directory once the destination is open: it is empty, as what is written
to it waits in a buffer. -/
def Destination.filesOnOpen : Destination → List TestFile
  | .beside _ => directory.files
  | .inside name position =>
      if (contentsOf directory name).isSome then
        directory.files.map fun file =>
          if file.name = name then { file with contents := [] } else file
      else
        directory.files.take position ++
          ⟨name, [], true, name.head? = some 0x2E⟩ :: directory.files.drop position

end

/-- What `backup` returns, and what the destination holds then. -/
structure BackedUp where
  success : Bool
  contents : Option QByteArray
  deriving DecidableEq, Repr

section

variable (stream : DataStream) (compression : Compression)

/-- `backup`, to a destination that can be opened for writing or cannot. -/
def backupTo (testSet : QString) (directory : TestDirectory) (destination : Destination)
    (canOpen : Bool) : BackedUp :=
  if canOpen then
    match writeTests stream
      ((destination.filesOnOpen directory).filter fun file => !file.hidden) with
    | some tests =>
        ⟨true, some (magic ++ compression.compress (stream.writeString testSet ++ tests))⟩
    | none => ⟨false, some magic⟩
  else
    ⟨false, destination.contents directory⟩

/-- An archive of the test set that holds every one of the files. -/
def Holds (testSet : QString) (files : List TestFile) (archive : QByteArray) : Prop :=
  ∃ tests : List TestFile,
    openBackup compression archive = some (stream.writeString testSet ++ written stream tests) ∧
    ∀ file ∈ files, ∃ test ∈ tests, test.name = file.name ∧ test.contents = file.contents

/-- A call that fails leaves the destination as it is, and one that succeeds leaves an archive
of the whole test set there. -/
structure KeepsOlder (testSet : QString) (directory : TestDirectory) (destination : Destination)
    (backedUp : BackedUp) : Prop where
  onFailure : backedUp.success = false → backedUp.contents = destination.contents directory
  onSuccess : backedUp.success = true → ∃ archive, backedUp.contents = some archive ∧
    Holds stream compression testSet directory.files archive

/-- All files that are listed can be read. -/
def IsReadable (directory : TestDirectory) : Prop :=
  ∀ file ∈ directory.files, file.hidden = false → file.readable = true

/-- The destination is none of the files of the set that hold something. -/
def IsApart (directory : TestDirectory) (destination : Destination) : Prop :=
  ∀ file ∈ directory.files, destination.name? = some file.name → file.contents = []

theorem written_cons (file : TestFile) (rest : List TestFile) :
    written stream (file :: rest) = stream.writeString file.name ++
      (stream.writeBytes file.contents ++ written stream rest) := by
  rw [written, List.flatMap_cons, List.append_assoc]
  rfl

theorem written_cons_ne_nil (file : TestFile) (rest : List TestFile) :
    written stream (file :: rest) ≠ [] := by
  rw [written_cons]
  exact List.append_ne_nil_of_left_ne_nil (stream.writeString_ne_nil _) _

/-- What is written tells the names and the contents of the files. -/
theorem written_inj {first second : List TestFile}
    (same : written stream first = written stream second) :
    first.map (fun file => (file.name, file.contents)) =
      second.map fun file => (file.name, file.contents) := by
  induction first generalizing second with
  | nil =>
      cases second with
      | nil => rfl
      | cons file rest => exact absurd same.symm (written_cons_ne_nil stream file rest)
  | cons file rest ih =>
      cases second with
      | nil => exact absurd same (written_cons_ne_nil stream file rest)
      | cons other later =>
          rw [written_cons, written_cons] at same
          have strings := congrArg stream.readString same
          rw [stream.readString_writeString, stream.readString_writeString, Prod.mk.injEq] at strings
          have bytes := congrArg stream.readBytes strings.2
          rw [stream.readBytes_writeBytes, stream.readBytes_writeBytes, Prod.mk.injEq] at bytes
          rw [List.map_cons, List.map_cons, strings.1, bytes.1, ih bytes.2]

theorem writeTests_eq (files : List TestFile) :
    writeTests stream files =
      if ∀ file ∈ files, file.readable = true then some (written stream files) else none := by
  induction files with
  | nil => simp [writeTests, written]
  | cons file rest ih =>
      rw [writeTests, ih, written_cons]
      cases readable : file.readable with
      | false => simp [readable]
      | true => split <;> simp_all

/-- The files that `backup` lists. -/
def listed (directory : TestDirectory) (destination : Destination) : List TestFile :=
  (destination.filesOnOpen directory).filter fun file => !file.hidden

theorem mem_take_drop {files : List TestFile} {position : Nat} {new file : TestFile} :
    file ∈ files.take position ++ new :: files.drop position ↔ file = new ∨ file ∈ files := by
  rw [List.mem_append, List.mem_cons, or_left_comm, ← List.mem_append, List.take_append_drop]

/-- The destination itself does not keep the other files from being read. -/
theorem readable_listed_iff (directory : TestDirectory) (destination : Destination) :
    (∀ file ∈ listed directory destination, file.readable = true) ↔ IsReadable directory := by
  simp only [listed, List.mem_filter, Bool.not_eq_true', and_imp]
  cases destination with
  | beside contents => rfl
  | inside name position =>
      rw [Destination.filesOnOpen]
      split
      · rw [List.forall_mem_map]
        apply forall₂_congr
        intro file _
        split <;> rfl
      · simp only [mem_take_drop, forall_eq_or_imp]
        simp [IsReadable]

theorem name_injective (directory : TestDirectory) {first second : TestFile}
    (isFirst : first ∈ directory.files) (isSecond : second ∈ directory.files)
    (same : first.name = second.name) : first = second :=
  List.inj_on_of_nodup_map directory.distinct isFirst isSecond same

/-- A name that is not found is the name of no file. -/
theorem name_ne_of_contentsOf {directory : TestDirectory} {name : QString}
    (absent : contentsOf directory name = none) {file : TestFile}
    (member : file ∈ directory.files) : file.name ≠ name := by
  rw [contentsOf, Option.map_eq_none_iff, List.find?_eq_none] at absent
  simpa using absent file member

/-- A file of the directory once the destination of that name is open. -/
def emptied (name : QString) (file : TestFile) : TestFile :=
  if file.name = name then { file with contents := [] } else file

@[simp] theorem emptied_name (name : QString) (file : TestFile) :
    (emptied name file).name = file.name := by
  rw [emptied]
  split <;> rfl

@[simp] theorem emptied_hidden (name : QString) (file : TestFile) :
    (emptied name file).hidden = file.hidden := by
  rw [emptied]
  split <;> rfl

theorem emptied_contents (name : QString) (file : TestFile) :
    (emptied name file).contents = file.contents ↔ (file.name = name → file.contents = []) := by
  rw [emptied]
  split
  next isName => simp [isName, eq_comm]
  next notName => simp [notName]

/-- What is listed holds a file of the directory exactly when the file is not hidden, and not
the destination unless it is empty. -/
theorem listed_holds_file_iff (directory : TestDirectory) (destination : Destination)
    {file : TestFile} (member : file ∈ directory.files) :
    (∃ test ∈ listed directory destination,
      test.name = file.name ∧ test.contents = file.contents) ↔
    file.hidden = false ∧ (destination.name? = some file.name → file.contents = []) := by
  simp only [listed, List.mem_filter, Bool.not_eq_true']
  cases destination with
  | beside contents =>
      constructor
      · rintro ⟨test, ⟨isTest, shown⟩, sameName, _⟩
        rw [← name_injective directory isTest member sameName]
        exact ⟨shown, fun impossible => nomatch impossible⟩
      · rintro ⟨shown, _⟩
        exact ⟨file, ⟨member, shown⟩, rfl, rfl⟩
  | inside name position =>
      rw [Destination.name?, Option.some.injEq, @eq_comm _ name]
      cases found : contentsOf directory name with
      | some data =>
          have files : (Destination.inside name position).filesOnOpen directory =
              directory.files.map (emptied name) := by
            rw [Destination.filesOnOpen, found]
            rfl
          rw [files, ← emptied_contents]
          constructor
          · rintro ⟨test, ⟨isTest, shown⟩, sameName, sameContents⟩
            rcases List.mem_map.mp isTest with ⟨other, isOther, rfl⟩
            rw [emptied_name] at sameName
            cases name_injective directory isOther member sameName
            rw [emptied_hidden] at shown
            exact ⟨shown, sameContents⟩
          · rintro ⟨shown, sameContents⟩
            exact ⟨emptied name file, ⟨List.mem_map_of_mem member, by simpa using shown⟩,
              emptied_name name file, sameContents⟩
      | none =>
          have other := name_ne_of_contentsOf found member
          simp only [Destination.filesOnOpen, found, Option.isSome_none, Bool.false_eq_true,
            if_false, mem_take_drop]
          constructor
          · rintro ⟨test, ⟨rfl | isTest, shown⟩, sameName, _⟩
            · exact absurd sameName.symm other
            · rw [← name_injective directory isTest member sameName]
              refine ⟨shown, fun isName => ?_⟩
              rw [sameName] at isName
              exact absurd isName other
          · rintro ⟨shown, _⟩
            exact ⟨file, ⟨.inr member, shown⟩, rfl, rfl⟩

/-- What is listed holds every file of the directory exactly when no file is hidden and the
destination is none of them. -/
theorem listed_holds_iff (directory : TestDirectory) (destination : Destination) :
    (∀ file ∈ directory.files, ∃ test ∈ listed directory destination,
      test.name = file.name ∧ test.contents = file.contents) ↔
    (∀ file ∈ directory.files, file.hidden = false) ∧ IsApart directory destination := by
  rw [IsApart, ← forall₂_and]
  exact forall₂_congr fun _ member => listed_holds_file_iff directory destination member

/-- The archive that `backup` makes holds the files whose names and contents are among the
ones that it lists. -/
theorem holds_iff (testSet : QString) (tests files : List TestFile) :
    Holds stream compression testSet files
        (magic ++ compression.compress (stream.writeString testSet ++ written stream tests)) ↔
      ∀ file ∈ files, ∃ test ∈ tests, test.name = file.name ∧ test.contents = file.contents := by
  rw [Holds, openBackup_append]
  constructor
  · rintro ⟨others, same, held⟩ file member
    have same := written_inj stream (List.append_cancel_left (Option.some.inj same))
    rcases held file member with ⟨other, isOther, sameName, sameContents⟩
    have listed : (file.name, file.contents) ∈
        others.map fun file => (file.name, file.contents) :=
      List.mem_map.mpr ⟨other, isOther, by rw [sameName, sameContents]⟩
    rw [← same] at listed
    rcases List.mem_map.mp listed with ⟨test, isTest, pair⟩
    exact ⟨test, isTest, congrArg Prod.fst pair, congrArg Prod.snd pair⟩
  · intro held
    exact ⟨tests, rfl, held⟩

/-- A call of `backup` keeps an older archive when it cannot open it; when it can read every
listed file, none is hidden and the destination is none of them; and when the older archive
is just the magic bytes that it writes first. -/
theorem keepsOlder_iff (testSet : QString) (directory : TestDirectory)
    (destination : Destination) (canOpen : Bool) :
    KeepsOlder stream compression testSet directory destination
        (backupTo stream compression testSet directory destination canOpen) ↔
      canOpen = false ∨
      (IsReadable directory ∧ (∀ file ∈ directory.files, file.hidden = false) ∧
        IsApart directory destination) ∨
      ¬ IsReadable directory ∧ destination.contents directory = some magic := by
  have tests := writeTests_eq stream (listed directory destination)
  have readable_iff := readable_listed_iff directory destination
  cases canOpen with
  | false =>
      exact iff_of_true ⟨fun _ => rfl, fun impossible => nomatch impossible⟩ (.inl rfl)
  | true =>
      rw [backupTo, if_pos rfl]
      change KeepsOlder _ _ _ _ _ (match writeTests stream (listed directory destination) with
        | some tests => _
        | none => _) ↔ _
      by_cases readable : IsReadable directory
      · rw [tests, if_pos (readable_iff.mpr readable)]
        simp only [readable, not_true, false_and, or_false, true_and, Bool.true_eq_false,
          false_or]
        rw [← listed_holds_iff, ← holds_iff stream compression testSet]
        constructor
        · intro keeps
          rcases keeps.onSuccess rfl with ⟨archive, same, held⟩
          cases same
          exact held
        · intro held
          exact ⟨fun impossible => (nomatch impossible), fun _ => ⟨_, rfl, held⟩⟩
      · rw [tests, if_neg (mt readable_iff.mp readable)]
        simp only [readable, not_false_eq_true, false_and, false_or, true_and, Bool.true_eq_false]
        exact ⟨fun keeps => (keeps.onFailure rfl).symm,
          fun same => ⟨fun _ => same.symm, fun impossible => nomatch impossible⟩⟩

end

/-- A set with a test that cannot be read. -/
def unreadableForms : TestDirectory :=
  ⟨[⟨"login.qs", [111, 107], false, false⟩], List.nodup_singleton _⟩

/-- The older archive is gone before the test is found to be unreadable. -/
theorem unreadableForms_not_keepsOlder :
    ¬ KeepsOlder .qt44 formsCompression "forms" unreadableForms
      (.beside (some (magic ++ formsCompressed)))
      (backupTo .qt44 formsCompression "forms" unreadableForms
        (.beside (some (magic ++ formsCompressed))) true) := by
  intro keeps
  have kept := keeps.onFailure (by decide +kernel)
  exact absurd kept (by decide +kernel)

end TestSetBackup

end Hooq
