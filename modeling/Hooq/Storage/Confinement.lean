import Hooq.Library.Paths
import Hooq.Storage.RoundTrip

/-!
# Where restored files go

The names in a backup become parts of paths, and the system reads a path as a C string:
it ends at the first null character.
-/

namespace Hooq

/-! ## Paths -/

namespace FilePath

open Library.Paths

/-- The characters of paths that mean something to the system. -/
def marks : Marks QChar :=
  ⟨0x2F, 0x2E⟩

/-- What the system sees of a path. -/
def native (path : QString) : QString :=
  path.takeWhile (· ≠ 0)

/-- The directory or file of a path, as the names on the way down from the root.  Paths
that do not start at the root start in the current directory. -/
def locate (current : List QString) (path : QString) : List QString :=
  marks.walk (if path.head? = some 0x2F then [] else current) (marks.components (native path))

/-- What the components of a path lead to lies directly in a directory. -/
def LeadsInto (directory : List QString) (path : QString) : Prop :=
  marks.LeadsInto directory (marks.components path)

instance (directory : List QString) (path : QString) :
    Decidable (LeadsInto directory path) :=
  decidable_of_iff
    ((marks.clean (marks.components path)).names ≠ [] ∧
      (marks.clean (marks.components path)).names.dropLast =
        (marks.clean (marks.components path)).wayBack directory) (by
    constructor
    · rintro ⟨some, same⟩
      exact ⟨_, by rw [← same, List.dropLast_append_getLast some]⟩
    · rintro ⟨name, same⟩
      rw [same]
      simp)

theorem native_append {front : QString} (solid : 0 ∉ front) (back : QString) :
    native (front ++ back) = front ++ (native back) := by
  apply List.takeWhile_append_of_pos
  intro character member
  exact decide_eq_true fun isNull => solid (isNull ▸ member)

theorem native_append_of_mem {front : QString} (cut : 0 ∈ front) (back : QString) :
    native (front ++ back) = native front := by
  induction front with
  | nil => simp at cut
  | cons character front ih =>
      by_cases isNull : character = 0
      · simp [native, isNull]
      · have later := ih ((List.mem_cons.mp cut).resolve_left (Ne.symm isNull))
        rw [native, native] at later
        rw [native, native, List.cons_append, List.takeWhile_cons_of_pos (by simpa using isNull),
          List.takeWhile_cons_of_pos (by simpa using isNull), later]

end FilePath

/-- The directory that test sets are kept in. -/
structure RootDirectory where
  path : QString
  nonempty : path ≠ []
  solid : 0 ∉ path

namespace TestSetBackup

open FilePath

section

variable (stream : DataStream) (compression : Compression)

/-- The directory of a test set, as `restore` writes it. -/
def directoryPath (rootDirectory testSet : QString) : QString :=
  rootDirectory ++ (0x2F :: (testSet ++ [0x2F]))

/-- The paths that `restore` uses: of the directory that it makes, and of the files that
it opens for writing. -/
structure RestoredPaths where
  directory : QString
  files : List QString
  deriving DecidableEq, Repr

/-- The paths that `restore` uses, if it gets as far as that. -/
def restoredPaths (canOpen : QString → Bool) (rootDirectory : QString) (file : QByteArray) :
    Option RestoredPaths :=
  (readBackup stream compression file).map fun backup =>
    let directory := directoryPath rootDirectory backup.1
    let restored := restore stream compression (fun name => canOpen (directory ++ name)) file
    ⟨directory, restored.files.map fun test => directory ++ test.1⟩

/-- The tests in the map that `restore` collects them in. -/
def collect (tests : List (QString × QByteArray)) : List (QString × QByteArray) :=
  tests.foldl (fun tests test => QMap.insert tests test.1 test.2) []

/-- Restoring stays in the directory of the test set, which lies directly in the root. -/
def IsConfined (current : List QString) (rootDirectory : QString) (paths : RestoredPaths) :
    Prop :=
  (∃ name, locate current paths.directory = locate current rootDirectory ++ [name]) ∧
    ∀ file ∈ paths.files, ∃ name,
      locate current file = locate current paths.directory ++ [name]

/-- What the system sees of a test's name: nothing, if the path ends in that of the set. -/
def nativeName (testSet name : QString) : QString :=
  if 0 ∈ testSet then [] else native name

/-- The names in a backup lead to where they should: the name of the set into the root, and
the names of the tests, up to the first that cannot be opened, into the set's directory. -/
def HasPlainNames (current : List QString) (canOpen : QString → Bool) (rootDirectory : QString)
    (backup : QString × List (QString × QByteArray)) : Prop :=
  LeadsInto (locate current rootDirectory) (native (backup.1 ++ [0x2F])) ∧
    ∀ test ∈ (collect backup.2).takeWhile fun test =>
        canOpen (directoryPath rootDirectory backup.1 ++ test.1),
      LeadsInto (locate current (directoryPath rootDirectory backup.1))
        (nativeName backup.1 test.1)

instance (current : List QString) (canOpen : QString → Bool) (rootDirectory : QString)
    (backup : QString × List (QString × QByteArray)) :
    Decidable (HasPlainNames current canOpen rootDirectory backup) :=
  inferInstanceAs (Decidable (_ ∧ _))

/-! ## Locations -/

variable (current : List QString) (root : RootDirectory)

theorem head?_directoryPath (testSet back : QString) :
    (directoryPath root.path testSet ++ back).head? = root.path.head? := by
  cases shape : root.path with
  | nil => exact absurd shape root.nonempty
  | cons first rest => rfl

theorem native_root : native root.path = root.path := by
  rw [← List.append_nil root.path, native_append root.solid]
  rfl

theorem locate_root :
    locate current root.path =
      marks.walk (if root.path.head? = some 0x2F then [] else current)
        (marks.components root.path) := by
  rw [locate, native_root]

/-- The way to the directory of a test set goes through the root. -/
theorem locate_directoryPath (testSet : QString) :
    locate current (directoryPath root.path testSet) =
      marks.walk (locate current root.path) (marks.components (native (testSet ++ [0x2F]))) := by
  have head := head?_directoryPath root testSet []
  rw [List.append_nil] at head
  have path : native (directoryPath root.path testSet) =
      root.path ++ marks.slash :: native (testSet ++ [0x2F]) :=
    (native_append root.solid _).trans rfl
  rw [locate_root, locate, head, path, Library.Paths.Marks.components_append,
    Library.Paths.Marks.walk_append]

/-- The way to a test's file goes through the directory of its set. -/
theorem locate_file (testSet name : QString) :
    locate current (directoryPath root.path testSet ++ name) =
      marks.walk (locate current (directoryPath root.path testSet))
        (marks.components (nativeName testSet name)) := by
  have shape : directoryPath root.path testSet ++ name =
      root.path ++ marks.slash :: (testSet ++ marks.slash :: name) := by
    simp [directoryPath, marks]
  have head := head?_directoryPath root testSet name
  by_cases cut : 0 ∈ testSet
  · have path : native (testSet ++ marks.slash :: name) = native (testSet ++ [0x2F]) := by
      rw [native_append_of_mem cut, native_append_of_mem cut]
    have whole : native (directoryPath root.path testSet ++ name) =
        root.path ++ marks.slash :: native (testSet ++ [0x2F]) := by
      rw [shape, native_append root.solid, ← path]
      rfl
    rw [nativeName, if_pos cut, Library.Paths.Marks.components_nil,
      Library.Paths.Marks.walk_empty, locate_directoryPath, locate, head, whole,
      Library.Paths.Marks.components_append, Library.Paths.Marks.walk_append,
      ← locate_root current root]
  · have path : native (directoryPath root.path testSet ++ name) =
        root.path ++ marks.slash :: (testSet ++ marks.slash :: native name) := by
      rw [shape, native_append root.solid]
      exact congrArg _ (congrArg _ (native_append cut _))
    have set : native (testSet ++ [0x2F]) = testSet ++ marks.slash :: [] := native_append cut _
    rw [nativeName, if_neg cut, locate_directoryPath, set, locate, head, path,
      Library.Paths.Marks.components_append, Library.Paths.Marks.components_append,
      Library.Paths.Marks.components_append, Library.Paths.Marks.walk_append,
      Library.Paths.Marks.walk_append, Library.Paths.Marks.walk_append, ← locate_root current root,
      Library.Paths.Marks.components_nil, Library.Paths.Marks.walk_empty]

/-! ## Confinement -/

theorem createFiles_eq (canOpen : QString → Bool) (created tests : List (QString × QByteArray)) :
    (createFiles canOpen created tests).2 =
      created ++ tests.takeWhile fun test => canOpen test.1 := by
  induction tests generalizing created with
  | nil => exact (List.append_nil created).symm
  | cons test tests ih =>
      cases opens : canOpen test.1 with
      | false => simp [createFiles, opens]
      | true => simp [createFiles, opens, ih]

/-- The files that are restored are those up to the first that cannot be opened. -/
theorem restore_files (canOpen : QString → Bool) {file : QByteArray}
    {backup : QString × List (QString × QByteArray)}
    (read : readBackup stream compression file = some backup) :
    (restore stream compression canOpen file).files =
      (collect backup.2).takeWhile fun test => canOpen test.1 := by
  have created := createFiles_eq canOpen [] (collect backup.2)
  rw [List.nil_append] at created
  rw [← created, restore, read]
  simp only [collect]
  split <;> simp_all

/-- The paths of a backup are confined exactly when its names are plain. -/
theorem isConfined_paths_iff (canOpen : QString → Bool)
    (backup : QString × List (QString × QByteArray)) :
    IsConfined current root.path
      ⟨directoryPath root.path backup.1,
        ((collect backup.2).takeWhile fun test =>
          canOpen (directoryPath root.path backup.1 ++ test.1)).map fun test =>
            directoryPath root.path backup.1 ++ test.1⟩ ↔
      HasPlainNames current canOpen root.path backup := by
  rw [IsConfined, HasPlainNames, LeadsInto, ← Library.Paths.Marks.walk_child_iff,
    ← locate_directoryPath]
  apply and_congr Iff.rfl
  rw [List.forall_mem_map]
  apply forall₂_congr
  intro test _
  rw [LeadsInto, ← Library.Paths.Marks.walk_child_iff, ← locate_file]

end

/-! ## A backup that leaves its directory -/

/-- The stream for the script `../../x.qs` of the test set `forms`. -/
def escapingStream : QByteArray :=
  [0, 0, 0, 10, 0, 102, 0, 111, 0, 114, 0, 109, 0, 115,
    0, 0, 0, 20, 0, 46, 0, 46, 0, 47, 0, 46, 0, 46, 0, 47, 0, 120, 0, 46, 0, 113, 0, 115,
    0, 0, 0, 2, 111, 107]

/-- What `qCompress` makes of it at level 9. -/
def escapingCompressed : QByteArray :=
  [0, 0, 0, 44, 120, 218, 99, 96, 96, 224, 98, 72, 99, 200, 103, 40, 98, 200, 101, 40, 102,
    96, 96, 16, 97, 208, 3, 66, 125, 40, 89, 1, 36, 11, 193, 226, 76, 249, 217, 0, 117, 58, 5,
    194]

/-- A compression that agrees with `qCompress` on this stream. -/
def escapingCompression : Compression where
  compress data := if data = escapingStream then escapingCompressed else 0xFF :: data
  uncompress data := if data = escapingCompressed then escapingStream else data.tail
  uncompress_compress := by
    intro data
    by_cases escapes : data = escapingStream
    · rw [if_pos escapes, if_pos rfl, escapes]
    · rw [if_neg escapes, if_neg]
      · rfl
      · intro same
        have heads : some (0xFF : UInt8) = some 0 := congrArg List.head? same
        exact absurd heads (by decide)

def escaping : QString × List (QString × QByteArray) :=
  ("forms", [("../../x.qs", [111, 107])])

theorem readBackup_escaping :
    readBackup .qt44 escapingCompression (magic ++ escapingCompressed) = some escaping := by
  have backedUp : backup .qt44 escapingCompression "forms"
      ⟨[⟨"../../x.qs", [111, 107], true, false⟩], List.nodup_singleton _⟩ =
        some (magic ++ escapingCompressed) := by
    decide +kernel
  exact readBackup_of_scripts .qt44 escapingCompression (by decide) backedUp (by decide)

def homeTests : RootDirectory :=
  ⟨"/home/tests", by decide, by decide⟩

end TestSetBackup

end Hooq
