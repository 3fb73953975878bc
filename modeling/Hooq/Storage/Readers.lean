import Hooq.Library.Loop
import Hooq.Storage.Interruption
import Mathlib.Data.List.TakeWhile

/-!
# The three readers of an archive

`identify`, `list` and `restore` each decode an archive with code of their own.  The loops
of the last two read the same tests and keep different things of them.
-/

namespace Hooq

/-- What the functions that read archives need of a data stream.  Reading takes something
from a stream that is not at its end. -/
structure StreamReader where
  readString : QByteArray → QString × QByteArray
  readBytes : QByteArray → QByteArray × QByteArray
  readString_length : ∀ stream, stream ≠ [] → (readString stream).2.length < stream.length
  readBytes_length : ∀ stream, stream ≠ [] → (readBytes stream).2.length < stream.length

/-- The reading half of a stream. -/
def DataStream.reader (stream : DataStream) : StreamReader where
  readString := stream.readString
  readBytes := stream.readBytes
  readString_length := stream.readString_length
  readBytes_length := stream.readBytes_length

@[simp] theorem DataStream.reader_readString (stream : DataStream) :
    stream.reader.readString = stream.readString :=
  rfl

@[simp] theorem DataStream.reader_readBytes (stream : DataStream) :
    stream.reader.readBytes = stream.readBytes :=
  rfl

namespace StreamReader

open TestSetBackup

/-! ## The readers -/

section

variable (reader : StreamReader)

theorem readTest_length {stream : QByteArray} (more : stream ≠ [])
    (behindName : (reader.readString stream).2 ≠ []) :
    (reader.readBytes (reader.readString stream).2).2.length < stream.length :=
  (reader.readBytes_length _ behindName).trans (reader.readString_length _ more)

/-- The loop of `list`: the names that it has, and what is left of the stream. -/
def listLoop : Library.Loop (List QString × QByteArray) (List QString) where
  body state :=
    if state.2 = [] then
      .inr state.1
    else
      let testName := (reader.readString state.2).1
      let behindName := (reader.readString state.2).2
      if behindName = [] ∨ ¬testName.endsWith ".qs" then
        .inr []
      else
        .inl (state.1 ++ [testName], (reader.readBytes behindName).2)
  measure state := state.2.length
  decreases := by
    intro state next goesOn
    dsimp only at goesOn
    split at goesOn
    · cases goesOn
    next more =>
      split at goesOn
      · cases goesOn
      next good =>
        cases goesOn
        exact reader.readTest_length more fun none => good (.inl none)

/-- The loop of `restore` that reads: the map of the tests that it has, and what is left of
the stream. -/
def restoreLoop :
    Library.Loop (List (QString × QByteArray) × QByteArray)
      (Option (List (QString × QByteArray))) where
  body state :=
    if state.2 = [] then
      .inr (some state.1)
    else
      let testName := (reader.readString state.2).1
      let behindName := (reader.readString state.2).2
      if behindName = [] ∨ ¬testName.endsWith ".qs" then
        .inr none
      else
        let data := (reader.readBytes behindName).1
        .inl (QMap.insert state.1 testName data, (reader.readBytes behindName).2)
  measure state := state.2.length
  decreases := by
    intro state next goesOn
    dsimp only at goesOn
    split at goesOn
    · cases goesOn
    next more =>
      split at goesOn
      · cases goesOn
      next good =>
        cases goesOn
        exact reader.readTest_length more fun none => good (.inl none)

variable (compression : Compression)

/-- `identify`. -/
def identify (archive : QByteArray) : QString :=
  match openBackup compression archive with
  | some data => (reader.readString data).1
  | none => []

/-- `list`. -/
def list (archive : QByteArray) : List QString :=
  match openBackup compression archive with
  | some data =>
      let testSet := (reader.readString data).1
      if testSet = [] then [] else reader.listLoop.run ([], (reader.readString data).2)
  | none => []

/-- `restore`. -/
def restore (current : List QString) (canOpen : QString → Bool) (rootDirectory : QString)
    (archive : QByteArray) (files : FileSystem) : Attempt :=
  match openBackup compression archive with
  | none => ⟨[], [], files⟩
  | some data =>
      let testSet := (reader.readString data).1
      if testSet = [] then
        ⟨[], [], files⟩
      else
        match reader.restoreLoop.run ([], (reader.readString data).2) with
        | none => ⟨[], [], files⟩
        | some tests =>
            match writeFiles current canOpen (directoryPath rootDirectory testSet) tests []
              files with
            | (true, opened, files) => ⟨testSet, opened, files⟩
            | (false, opened, files) => ⟨[], opened, files⟩

end

/-! ## One pass -/

section

variable (reader : StreamReader)

/-- What a pass of either loop finds in the stream: the end, an entry that cannot be a test,
or a test with what is behind it. -/
inductive Finds (stream : QByteArray) : Prop where
  | ending (none : stream = [])
  | bad (more : stream ≠ [])
      (bad : (reader.readString stream).2 = [] ∨
        ¬(reader.readString stream).1.endsWith ".qs" = true)
  | test (more : stream ≠ []) (behindName : (reader.readString stream).2 ≠ [])
      (isScript : (reader.readString stream).1.endsWith ".qs" = true)

theorem finds (stream : QByteArray) : reader.Finds stream := by
  by_cases none : stream = []
  · exact .ending none
  · by_cases bad : (reader.readString stream).2 = [] ∨
      ¬(reader.readString stream).1.endsWith ".qs" = true
    · exact .bad none bad
    · rw [not_or, not_not] at bad
      exact .test none bad.1 bad.2

variable {reader} {stream : QByteArray}

theorem good_of_test (behindName : (reader.readString stream).2 ≠ [])
    (isScript : (reader.readString stream).1.endsWith ".qs" = true) :
    ¬((reader.readString stream).2 = [] ∨
      ¬(reader.readString stream).1.endsWith ".qs" = true) := by
  rw [not_or, not_not]
  exact ⟨behindName, isScript⟩

theorem listLoop_ending (names : List QString) :
    reader.listLoop.body (names, []) = .inr names := by
  simp [listLoop]

theorem listLoop_bad (more : stream ≠ [])
    (bad : (reader.readString stream).2 = [] ∨
      ¬(reader.readString stream).1.endsWith ".qs" = true) (names : List QString) :
    reader.listLoop.body (names, stream) = .inr [] :=
  (if_neg more).trans (if_pos bad)

theorem listLoop_test (more : stream ≠ []) (behindName : (reader.readString stream).2 ≠ [])
    (isScript : (reader.readString stream).1.endsWith ".qs" = true) (names : List QString) :
    reader.listLoop.body (names, stream) =
      .inl (names ++ [(reader.readString stream).1],
        (reader.readBytes (reader.readString stream).2).2) :=
  (if_neg more).trans (if_neg (good_of_test behindName isScript))

theorem restoreLoop_ending (tests : List (QString × QByteArray)) :
    reader.restoreLoop.body (tests, []) = .inr (some tests) := by
  simp [restoreLoop]

theorem restoreLoop_bad (more : stream ≠ [])
    (bad : (reader.readString stream).2 = [] ∨
      ¬(reader.readString stream).1.endsWith ".qs" = true)
    (tests : List (QString × QByteArray)) :
    reader.restoreLoop.body (tests, stream) = .inr none :=
  (if_neg more).trans (if_pos bad)

theorem restoreLoop_test (more : stream ≠ [])
    (behindName : (reader.readString stream).2 ≠ [])
    (isScript : (reader.readString stream).1.endsWith ".qs" = true)
    (tests : List (QString × QByteArray)) :
    reader.restoreLoop.body (tests, stream) =
      .inl (QMap.insert tests (reader.readString stream).1
          (reader.readBytes (reader.readString stream).2).1,
        (reader.readBytes (reader.readString stream).2).2) :=
  (if_neg more).trans (if_neg (good_of_test behindName isScript))

end

/-! ## The loops in step -/

theorem mem_keys_insert {tests : List (QString × QByteArray)} {name other : QString}
    (data : QByteArray) :
    other ∈ (QMap.insert tests name data).map Prod.fst ↔
      other ∈ tests.map Prod.fst ∨ other = name := by
  induction tests with
  | nil => simp [QMap.insert]
  | cons first rest ih =>
      rw [QMap.insert]
      split_ifs with same
      · simp [same, or_comm]
      · simp [or_comm]
      · rw [List.map_cons, List.mem_cons, ih, List.map_cons, List.mem_cons, or_assoc]

/-- The loops are at the same place, and have kept the same names. -/
def Alongside (tests : List (QString × QByteArray) × QByteArray)
    (names : List QString × QByteArray) : Prop :=
  tests.2 = names.2 ∧ ∀ name, name ∈ names.1 ↔ name ∈ tests.1.map Prod.fst

/-- The names are those of the tests that were read, if any were. -/
def NamesOf (tests : Option (List (QString × QByteArray))) (names : List QString) : Prop :=
  match tests with
  | none => names = []
  | some tests => ∀ name, name ∈ names ↔ name ∈ tests.map Prod.fst

section

variable (reader : StreamReader)

/-- The loops keep in step, and end together. -/
theorem loops_agree (stream : QByteArray) :
    NamesOf (reader.restoreLoop.run ([], stream)) (reader.listLoop.run ([], stream)) := by
  refine Library.Loop.run_liftRel ?_ (show Alongside _ _ from ⟨rfl, fun _ => Iff.rfl⟩)
  rintro ⟨tests, stream⟩ ⟨names, _⟩ ⟨rfl, same⟩
  rcases reader.finds stream with rfl | ⟨more, bad⟩ | ⟨more, behindName, isScript⟩
  · rw [restoreLoop_ending, listLoop_ending]
    exact .inr same
  · rw [restoreLoop_bad more bad, listLoop_bad more bad]
    exact .inr rfl
  · rw [restoreLoop_test more behindName isScript, listLoop_test more behindName isScript]
    refine .inl ⟨rfl, fun name => ?_⟩
    rw [mem_keys_insert, ← same, List.mem_append, List.mem_singleton]

variable (compression : Compression) (current : List QString) (canOpen : QString → Bool)
  (rootDirectory : QString) (archive : QByteArray) (files : FileSystem)

/-- What is read of the archive, as far as `restore` takes it in: the name of the test set
and the map of its tests. -/
def accepted : Option (QString × List (QString × QByteArray)) := do
  let data ← openBackup compression archive
  let testSet := (reader.readString data).1
  if testSet = [] then
    none
  else
    let tests ← reader.restoreLoop.run ([], (reader.readString data).2)
    return (testSet, tests)

/-- Once the archive is read, `restore` writes the tests. -/
theorem restore_eq :
    reader.restore compression current canOpen rootDirectory archive files =
      match reader.accepted compression archive with
      | none => ⟨[], [], files⟩
      | some (testSet, tests) =>
          let wrote := writeFiles current canOpen (directoryPath rootDirectory testSet) tests []
            files
          ⟨if wrote.1 then testSet else [], wrote.2.1, wrote.2.2⟩ := by
  rw [restore, accepted]
  cases openBackup compression archive with
  | none => rfl
  | some data =>
      simp only [Option.bind_eq_bind, Option.bind_some]
      by_cases unnamed : (reader.readString data).1 = []
      · rw [if_pos unnamed, if_pos unnamed]
      · rw [if_neg unnamed, if_neg unnamed]
        cases reader.restoreLoop.run ([], (reader.readString data).2) with
        | none => rfl
        | some tests =>
            dsimp only [Option.bind_some, Option.pure_def]
            rcases writeFiles current canOpen
              (directoryPath rootDirectory (reader.readString data).1) tests [] files with
              ⟨succeeded, opened, files⟩
            cases succeeded <;> rfl

variable {compression archive}

theorem testSet_of_accepted {testSet : QString} {tests : List (QString × QByteArray)}
    (accepts : reader.accepted compression archive = some (testSet, tests)) :
    testSet ≠ [] ∧ testSet = reader.identify compression archive ∧
      ∀ name, name ∈ reader.list compression archive ↔ name ∈ tests.map Prod.fst := by
  rw [accepted] at accepts
  rcases Option.bind_eq_some_iff.mp accepts with ⟨data, opened, accepts⟩
  dsimp only at accepts
  split at accepts
  · cases accepts
  next named =>
    rcases Option.bind_eq_some_iff.mp accepts with ⟨others, read, isAccepted⟩
    cases isAccepted
    have agree := reader.loops_agree (reader.readString data).2
    rw [read] at agree
    refine ⟨named, ?_, ?_⟩
    · rw [identify, opened]
    · rw [list, opened]
      dsimp only
      rw [if_neg named]
      exact agree

theorem list_of_not_accepted (rejects : reader.accepted compression archive = none) :
    reader.list compression archive = [] := by
  rw [list]
  cases opened : openBackup compression archive with
  | none => rfl
  | some data =>
      dsimp only
      split
      next => rfl
      next named =>
        have agree := reader.loops_agree (reader.readString data).2
        rw [accepted, opened] at rejects
        simp only [Option.bind_eq_bind, Option.bind_some, if_neg named] at rejects
        cases read : reader.restoreLoop.run ([], (reader.readString data).2) with
        | none =>
            rw [read] at agree
            exact agree
        | some tests =>
            rw [read] at rejects
            cases rejects

variable (compression archive)

/-! ## Agreement -/

/-- The three readers of an archive agree, and their loops end.  Every file can be opened when
`restore` only looks at the archive. -/
structure Agrees : Prop where
  listEnds : ∀ names stream, ∃ passes ≤ stream.length + 1,
    reader.listLoop.Leaves (names, stream) passes (reader.listLoop.run (names, stream))
  restoreEnds : ∀ tests stream, ∃ passes ≤ stream.length + 1,
    reader.restoreLoop.Leaves (tests, stream) passes (reader.restoreLoop.run (tests, stream))
  rejected :
    (reader.restore compression current (fun _ => true) rootDirectory archive files).testSet =
      [] → reader.list compression archive = []
  accepted : (reader.restore compression current canOpen rootDirectory archive files).testSet ≠
      [] →
    (reader.restore compression current canOpen rootDirectory archive files).testSet =
        reader.identify compression archive ∧
      ∀ path,
        path ∈ (reader.restore compression current canOpen rootDirectory archive files).opened ↔
          ∃ name ∈ reader.list compression archive,
            path = directoryPath rootDirectory (reader.identify compression archive) ++ name

theorem agrees : reader.Agrees compression current canOpen rootDirectory archive files where
  listEnds names stream := reader.listLoop.leaves_run (names, stream)
  restoreEnds tests stream := reader.restoreLoop.leaves_run (tests, stream)
  rejected := by
    intro nothing
    cases read : reader.accepted compression archive with
    | none => exact reader.list_of_not_accepted read
    | some backup =>
        have named := (reader.testSet_of_accepted read).1
        rw [restore_eq, read] at nothing
        have wrote := writeFiles_succeeds current (fun _ => true)
          (directoryPath rootDirectory backup.1) backup.2 [] files
        rw [List.all_eq_true.mpr fun _ _ => rfl] at wrote
        exact absurd nothing (by simpa [wrote] using named)
  accepted := by
    rw [restore_eq]
    cases read : reader.accepted compression archive with
    | none => exact fun named => absurd rfl named
    | some backup =>
        obtain ⟨named, identified, names⟩ := reader.testSet_of_accepted read
        have succeeds := writeFiles_succeeds current canOpen
          (directoryPath rootDirectory backup.1) backup.2 [] files
        have opened := writeFiles_opened current canOpen (directoryPath rootDirectory backup.1)
          backup.2 [] files
        dsimp only
        split
        next wrote =>
          intro _
          have canOpenAll := List.all_eq_true.mp (succeeds.symm.trans wrote)
          rw [List.takeWhile_eq_self_iff.mpr canOpenAll, List.nil_append] at opened
          refine ⟨identified, fun path => ?_⟩
          rw [opened, ← identified, List.mem_map]
          constructor
          · rintro ⟨test, member, rfl⟩
            exact ⟨test.1, (names test.1).mpr (List.mem_map_of_mem member), rfl⟩
          · rintro ⟨name, member, rfl⟩
            rcases List.mem_map.mp ((names name).mp member) with ⟨test, isTest, rfl⟩
            exact ⟨test, isTest, rfl⟩
        next => exact fun named => absurd rfl named

end

/-! ## Streams that can be written as well -/

section

variable (stream : DataStream)

theorem readTests_of_bad {data : QByteArray} (more : data ≠ [])
    (bad : (stream.readString data).2 = [] ∨
      ¬(stream.readString data).1.endsWith ".qs" = true) : readTests stream data = none := by
  rw [readTests, dif_neg more]
  exact dif_pos bad

theorem readTests_of_test {data : QByteArray} (more : data ≠ [])
    (behindName : (stream.readString data).2 ≠ [])
    (isScript : (stream.readString data).1.endsWith ".qs" = true) :
    readTests stream data =
      (readTests stream (stream.readBytes (stream.readString data).2).2).map
        (((stream.readString data).1, (stream.readBytes (stream.readString data).2).1) :: ·) := by
  rw [readTests, dif_neg more]
  exact dif_neg (@good_of_test stream.reader _ behindName isScript)

/-- The loop of `restore` collects the tests of a stream. -/
theorem restoreLoop_reader (data : QByteArray) (tests : List (QString × QByteArray)) :
    stream.reader.restoreLoop.run (tests, data) =
      (readTests stream data).map fun read =>
        read.foldl (fun tests test => QMap.insert tests test.1 test.2) tests := by
  induction size : data.length using Nat.strong_induction_on generalizing data tests with
  | _ size ih =>
      subst size
      rcases stream.reader.finds data with rfl | ⟨more, bad⟩ | ⟨more, behindName, isScript⟩
      · rw [Library.Loop.run_of_leaves (restoreLoop_ending tests), readTests]
        rfl
      · rw [Library.Loop.run_of_leaves (restoreLoop_bad more bad tests),
          readTests_of_bad stream more bad]
        rfl
      · rw [Library.Loop.run_of_goesOn (restoreLoop_test more behindName isScript tests),
          readTests_of_test stream more behindName isScript,
          ih _ (stream.reader.readTest_length more behindName) _ _ rfl, Option.map_map]
        rfl

/-- The loop of `list` keeps their names. -/
theorem listLoop_reader (data : QByteArray) (names : List QString) :
    stream.reader.listLoop.run (names, data) =
      match readTests stream data with
      | none => []
      | some read => names ++ read.map Prod.fst := by
  induction size : data.length using Nat.strong_induction_on generalizing data names with
  | _ size ih =>
      subst size
      rcases stream.reader.finds data with rfl | ⟨more, bad⟩ | ⟨more, behindName, isScript⟩
      · rw [Library.Loop.run_of_leaves (listLoop_ending names), readTests]
        simp
      · rw [Library.Loop.run_of_leaves (listLoop_bad more bad names),
          readTests_of_bad stream more bad]
      · rw [Library.Loop.run_of_goesOn (listLoop_test more behindName isScript names),
          readTests_of_test stream more behindName isScript,
          ih _ (stream.reader.readTest_length more behindName) _ _ rfl]
        simp only [DataStream.reader_readString, DataStream.reader_readBytes]
        cases readTests stream (stream.readBytes (stream.readString data).2).2 with
        | none => rfl
        | some read => simp

variable (compression : Compression) (archive : QByteArray)

theorem accepted_reader :
    stream.reader.accepted compression archive =
      (readBackup stream compression archive).map fun backup => (backup.1, collect backup.2) := by
  rw [accepted, readBackup]
  cases openBackup compression archive with
  | none => rfl
  | some data =>
      simp only [Option.bind_eq_bind, Option.bind_some]
      by_cases unnamed : (stream.readString data).1 = []
      · rw [if_pos unnamed]
        exact if_pos unnamed
      · rw [if_neg unnamed]
        refine (if_neg unnamed).trans ?_
        rw [restoreLoop_reader, DataStream.reader_readString]
        cases readTests stream (stream.readString data).2 <;> rfl

/-- The models of the readers for streams that can be written as well are the same. -/
theorem restore_reader (current : List QString) (canOpen : QString → Bool)
    (rootDirectory : QString) (files : FileSystem) :
    stream.reader.restore compression current canOpen rootDirectory archive files =
      restoreOn stream compression current canOpen rootDirectory archive files := by
  rw [restore_eq, accepted_reader, restoreOn]
  cases readBackup stream compression archive with
  | none => rfl
  | some backup =>
      dsimp only [Option.map_some]
      rcases writeFiles current canOpen (directoryPath rootDirectory backup.1)
        (collect backup.2) [] files with ⟨succeeded, opened, files⟩
      cases succeeded <;> rfl

theorem list_reader :
    stream.reader.list compression archive = TestSetBackup.list stream compression archive := by
  rw [list, TestSetBackup.list, readBackup]
  cases openBackup compression archive with
  | none => rfl
  | some data =>
      simp only [Option.bind_eq_bind, Option.bind_some]
      by_cases unnamed : (stream.readString data).1 = []
      · rw [if_pos unnamed]
        exact if_pos unnamed
      · rw [if_neg unnamed]
        have names := listLoop_reader stream (stream.readString data).2 []
        refine (if_neg unnamed).trans (names.trans ?_)
        cases readTests stream (stream.readString data).2 <;> rfl

end

end StreamReader

end Hooq
