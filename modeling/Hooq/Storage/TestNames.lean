import Hooq.Library.Run
import Hooq.Storage.ScriptPaths

/-!
# Names of tests and their files

A test is recorded into the script that its name gives, and the directory of a test set is
listed by taking the names of tests from those of the files.  Both ways there are files of
two kinds: with the name itself, and with the digits of its bytes.
-/

namespace Hooq

open Library.Run

/-! ## Digits -/

namespace QByteArray

def hexDigitValue (byte : UInt8) : Option Nat :=
  if 0x30 ≤ byte ∧ byte ≤ 0x39 then some (byte.toNat - 0x30)
  else if 0x61 ≤ byte ∧ byte ≤ 0x66 then some (byte.toNat - 0x61 + 10)
  else if 0x41 ≤ byte ∧ byte ≤ 0x46 then some (byte.toNat - 0x41 + 10)
  else none

def pairDigits : List Nat → QByteArray
  | high :: low :: rest => UInt8.ofNat (0x10 * high + low) :: pairDigits rest
  | _ => []

/-- `fromHex`: what is no digit is skipped, and an odd digit is the first. -/
def fromHex (hexEncoded : QByteArray) : QByteArray :=
  let digits := hexEncoded.filterMap hexDigitValue
  if digits.length % 2 = 0 then pairDigits digits else pairDigits (0 :: digits)

theorem hexDigitValue_hexDigit {digit : Nat} (small : digit < 0x10) :
    (QString.toLatin1 [hexDigit digit]).filterMap hexDigitValue = [digit] := by
  revert digit
  decide

/-- The digits of bytes, two for each. -/
def digits (data : QByteArray) : List Nat :=
  data.flatMap fun byte => [byte.toNat / 0x10, byte.toNat % 0x10]

theorem filterMap_toHex (data : QByteArray) :
    (QString.toLatin1 data.toHex).filterMap hexDigitValue = digits data := by
  induction data with
  | nil => rfl
  | cons byte rest ih =>
      have small := byte.toNat_lt
      have high := hexDigitValue_hexDigit (show byte.toNat / 0x10 < 0x10 by omega)
      have low := hexDigitValue_hexDigit (show byte.toNat % 0x10 < 0x10 by omega)
      have split : QString.toLatin1 (toHex (byte :: rest)) =
          QString.toLatin1 [hexDigit (byte.toNat / 0x10)] ++
            (QString.toLatin1 [hexDigit (byte.toNat % 0x10)] ++ QString.toLatin1 (toHex rest)) :=
        rfl
      rw [split, List.filterMap_append, List.filterMap_append, high, low, ih]
      rfl

theorem pairDigits_digits (data : QByteArray) : pairDigits (digits data) = data := by
  induction data with
  | nil => rfl
  | cons byte rest ih =>
      have whole : 0x10 * (byte.toNat / 0x10) + byte.toNat % 0x10 = byte.toNat := by omega
      have shape : digits (byte :: rest) =
          byte.toNat / 0x10 :: byte.toNat % 0x10 :: digits rest := rfl
      rw [shape, pairDigits, whole, ih, UInt8.ofNat_toNat]

theorem fromHex_toHex (data : QByteArray) : fromHex (QString.toLatin1 data.toHex) = data := by
  have even : (digits data).length % 2 = 0 := by
    rw [digits, List.length_flatMap]
    simp
  rw [fromHex, filterMap_toHex, if_pos even, pairDigits_digits]

end QByteArray

/-! ## Files -/

structure DiskFile where
  directory : List QString
  name : QString
  contents : QByteArray
  deriving DecidableEq, Repr

/-- The files and the directories of a disk. -/
structure FileTree where
  files : List DiskFile
  directories : List (List QString)
  deriving DecidableEq, Repr

namespace FileTree

open FilePath

/-- `QFile::exists`, which is true of directories as well. -/
def fileExists (tree : FileTree) (path : QString) : Bool :=
  (locate [] path ∈ tree.directories) ||
    tree.files.any fun file => file.directory ++ [file.name] = locate [] path

theorem fileExists_iff {tree : FileTree} {path : QString} :
    tree.fileExists path = true ↔
      locate [] path ∈ tree.directories ∨
        ∃ file ∈ tree.files, file.directory ++ [file.name] = locate [] path := by
  simp [fileExists]

/-- The file at a location gets new contents. -/
def replace (tree : FileTree) (directory : List QString) (name : QString)
    (contents : QByteArray) : FileTree :=
  { tree with
    files := ⟨directory, name, contents⟩ ::
      tree.files.filter fun file => ¬(file.directory = directory ∧ file.name = name) }

theorem mem_replace {tree : FileTree} {directory : List QString} {name : QString}
    {contents : QByteArray} {file : DiskFile} :
    file ∈ (tree.replace directory name contents).files ↔
      file = ⟨directory, name, contents⟩ ∨
        file ∈ tree.files ∧ ¬(file.directory = directory ∧ file.name = name) := by
  rw [replace, List.mem_cons, List.mem_filter, decide_eq_true_eq]

/-- No path leads to a file that was not there, but for that of the file itself. -/
theorem fileExists_replace_of_ne {tree : FileTree} {directory : List QString} {name path : QString}
    (other : locate [] path ≠ directory ++ [name]) (contents : QByteArray) :
    (tree.replace directory name contents).fileExists path = tree.fileExists path := by
  rw [Bool.eq_iff_iff, fileExists_iff, fileExists_iff]
  apply or_congr Iff.rfl
  constructor
  · rintro ⟨file, member, here⟩
    rcases mem_replace.mp member with rfl | ⟨member, _⟩
    · exact absurd here.symm other
    · exact ⟨file, member, here⟩
  · rintro ⟨file, member, here⟩
    refine ⟨file, mem_replace.mpr (.inr ⟨member, ?_⟩), here⟩
    rintro ⟨rfl, rfl⟩
    exact other here.symm

/-- Opening a file for writing, and writing to it.  It cannot be opened where a directory
is, or in no directory. -/
def write (tree : FileTree) (path : QString) (contents : QByteArray) : FileTree :=
  let location := locate [] path
  match location.getLast? with
  | none => tree
  | some name =>
      if location ∈ tree.directories ∨ location.dropLast ∉ tree.directories then
        tree
      else
        tree.replace location.dropLast name contents

end FileTree

namespace TestModel

/-- The name that `setTestSet` takes from the name of a file. -/
def nameOf (item : QString) : Option QString :=
  if item.endsWith ".qs" then
    some (item.take (item.length - 3))
  else if item.endsWith ".hs" then
    some (QString.fromUtf8 (QByteArray.fromHex (QString.toLatin1 (item.take (item.length - 3)))))
  else
    none

/-- A row, with the file that it was made from. -/
structure Row where
  file : DiskFile
  name : QString
  deriving DecidableEq, Repr

/-- A file that is not hidden, by its name. -/
def listedName (item : QString) : Option QString :=
  if item.head? = some 0x2E then none else nameOf item

/-- The rows of `setTestSet`, in some order. -/
def rows (directory : List QString) (tree : FileTree) : List Row :=
  (tree.files.filter fun file => file.directory = directory).filterMap fun file =>
    (listedName file.name).map (⟨file, ·⟩)

theorem mem_rows {directory : List QString} {tree : FileTree} {row : Row} :
    row ∈ rows directory tree ↔
      row.file ∈ tree.files ∧ row.file.directory = directory ∧
        listedName row.file.name = some row.name := by
  rcases row with ⟨file, name⟩
  simp only [rows, List.mem_filterMap, List.mem_filter, decide_eq_true_eq, Option.map_eq_some_iff,
    Row.mk.injEq]
  constructor
  · rintro ⟨other, ⟨member, inside⟩, taken, listed, rfl, rfl⟩
    exact ⟨member, inside, listed⟩
  · rintro ⟨member, inside, listed⟩
    exact ⟨file, ⟨member, inside⟩, name, listed, rfl, rfl⟩

/-! ### Names of both kinds -/

theorem take_extension (name extension : QString) :
    (name ++ extension).take ((name ++ extension).length - extension.length) = name := by
  rw [List.length_append, Nat.add_sub_cancel, List.take_left]

theorem nameOf_qs (name : QString) : nameOf (name ++ QString.ofString ".qs") = some name := by
  have ends : (name ++ QString.ofString ".qs").endsWith ".qs" = true :=
    List.isSuffixOf_iff_suffix.mpr (List.suffix_append _ _)
  rw [nameOf, if_pos ends]
  exact congrArg some (take_extension name ".qs")

/-- A text with one of two endings of the same length has not the other. -/
theorem not_endsWith {name extension ending : QString} (long : extension.length = ending.length)
    (other : ending ≠ extension) : ¬(name ++ extension).endsWith ending = true := by
  intro ends
  obtain ⟨front, same⟩ := List.isSuffixOf_iff_suffix.mp ends
  exact other (List.append_inj' same long.symm).2

theorem not_endsWith_qs (name : QString) :
    ¬(name ++ QString.ofString ".hs").endsWith ".qs" = true :=
  not_endsWith (by decide) (by decide)

theorem not_endsWith_hs (name : QString) :
    ¬(name ++ QString.ofString ".qs").endsWith ".hs" = true :=
  not_endsWith (by decide) (by decide)

theorem nameOf_hs (digits : QString) :
    nameOf (digits ++ QString.ofString ".hs") =
      some (QString.fromUtf8 (QByteArray.fromHex (QString.toLatin1 digits))) := by
  have ends : (digits ++ QString.ofString ".hs").endsWith ".hs" = true :=
    List.isSuffixOf_iff_suffix.mpr (List.suffix_append _ _)
  have taken : (digits ++ QString.ofString ".hs").take
      ((digits ++ QString.ofString ".hs").length - 3) = digits := take_extension digits ".hs"
  rw [nameOf, if_neg (not_endsWith_qs digits), if_pos ends, taken]

/-- A listed name comes from a name of one of the two kinds. -/
theorem nameOf_eq_some {item name : QString} (taken : nameOf item = some name) :
    item = name ++ QString.ofString ".qs" ∨
      item.endsWith ".hs" = true := by
  rw [nameOf] at taken
  split at taken
  next ends =>
      left
      obtain ⟨front, rfl⟩ := List.isSuffixOf_iff_suffix.mp ends
      rw [← Option.some.inj taken]
      exact congrArg (· ++ QString.ofString ".qs") (take_extension front ".qs").symm
  next =>
      split at taken
      next ends => exact .inr ends
      next => exact nomatch taken

end TestModel

/-- A test that has been recorded. -/
structure RecordedTest where
  name : QString
  script : QByteArray
  nonempty : name ≠ []
  paired : name.isPaired = true

namespace TestSetPlace

open FilePath

variable {tables : CharacterTables} (place : TestSetPlace tables)

/-! ## Recording -/

def scriptPath (tree : FileTree) (testName : QString) : QString :=
  Locations.scriptPath tables place.storageLocation tree.fileExists place.testSet testName

/-- `MainWindow::finishRecording`, as far as the file of the script is concerned. -/
def finishRecording (tree : FileTree) (test : RecordedTest) : FileTree :=
  tree.write (place.scriptPath tree test.name) test.script

/-- `TestModel` for the test set. -/
def rows (tree : FileTree) : List TestModel.Row :=
  TestModel.rows place.directory tree

/-- Recording keeps names and files together. -/
structure Corresponds (tree : FileTree) (test : RecordedTest) : Prop where
  inside : ∃ fileName,
    locate [] (place.scriptPath tree test.name) = place.directory ++ [fileName]
  outside : ∀ file, file.directory ≠ place.directory →
    (file ∈ (place.finishRecording tree test).files ↔ file ∈ tree.files)
  once : ((place.rows (place.finishRecording tree test)).map TestModel.Row.name).count
    test.name = 1
  written : ∃ row ∈ place.rows (place.finishRecording tree test),
    row.name = test.name ∧ row.file.contents = test.script
  others : ∀ row ∈ place.rows tree, row.name ≠ test.name →
    row ∈ place.rows (place.finishRecording tree test)
  paths : ∀ row ∈ place.rows (place.finishRecording tree test),
    place.scriptPath (place.finishRecording tree test) row.name =
      marks.rooted (row.file.directory ++ [row.file.name])

/-- A name that is used as it is has no separator and is not hidden, and one that is
written in digits is read back. -/
def Fits (tree : FileTree) (test : RecordedTest) : Prop :=
  place.IsUnmarked ∧ 0 ∉ test.name ∧
    if tree.fileExists (place.pathTo test.name ".qs") then
      0x2F ∉ test.name ∧ test.name.head? ≠ some 0x2E
    else
      test.name.HasNoReplaced ∧ test.name.BeginsUnmarked

instance (tree : FileTree) (test : RecordedTest) : Decidable (place.Fits tree test) :=
  inferInstanceAs (Decidable (place.IsUnmarked ∧ 0 ∉ test.name ∧
    if tree.fileExists (place.pathTo test.name ".qs") then
      0x2F ∉ test.name ∧ test.name.head? ≠ some 0x2E
    else
      test.name.HasNoReplaced ∧ test.name.BeginsUnmarked))

/-- A script with digits for its name, which no script of the other kind hides. -/
structure IsHashed (tree : FileTree) (fileName name : QString) : Prop where
  paired : name.isPaired = true
  kept : name.HasNoReplaced
  unmarked : name.BeginsUnmarked
  solid : 0 ∉ name
  digits : fileName = QByteArray.toHex name.toUtf8 ++ QString.ofString ".hs"
  unhidden : tree.fileExists (place.pathTo name ".qs") = false

/-- The directory of a test set as recordings leave it. -/
structure Kept (tree : FileTree) : Prop where
  made : place.directory ∈ tree.directories
  flat : ∀ name, place.directory ++ [name] ∉ tree.directories
  distinct : (tree.files.map fun file => (file.directory, file.name)).Nodup
  named : ∀ file ∈ tree.files, file.directory = place.directory → IsFileName file.name
  hashed : ∀ file ∈ tree.files, file.directory = place.directory →
    file.name.endsWith ".hs" = true → ∃ name, place.IsHashed tree file.name name

/-! ## Names of files -/

/-- With a long extension nothing is a special component. -/
theorem isName_extension (name : QString) {extension : QString} (long : 2 < extension.length) :
    marks.IsName (name ++ extension) := by
  have length : 2 < (name ++ extension).length := by
    rw [List.length_append]
    omega
  constructor
  · rintro (empty | dot)
    · rw [empty] at length
      exact absurd length (by decide)
    · rw [dot] at length
      exact absurd length (by decide : ¬2 < 1)
  · intro dots
    rw [dots] at length
    exact absurd length (by decide : ¬2 < 2)

theorem isFileName_extension {name extension : QString} (free : 0x2F ∉ name) (solid : 0 ∉ name)
    (long : 2 < extension.length) (plain : 0x2F ∉ extension ∧ 0 ∉ extension) :
    IsFileName (name ++ extension) := by
  refine ⟨isName_extension name long, ?_, ?_⟩
  · exact fun member => (List.mem_append.mp member).elim free plain.1
  · exact fun member => (List.mem_append.mp member).elim solid plain.2

theorem isFileName_qs {name : QString} (free : 0x2F ∉ name) (solid : 0 ∉ name) :
    IsFileName (name ++ QString.ofString ".qs") :=
  isFileName_extension free solid (by decide) (by decide)

/-- Digits are neither separators nor dots. -/
theorem toHex_ne {data : QByteArray} {character : QChar} (member : character ∈ data.toHex) :
    character ≠ 0 ∧ character ≠ 0x2E ∧ character ≠ 0x2F := by
  have plain : ∀ digit < 0x10, hexDigit digit ≠ 0 ∧ hexDigit digit ≠ 0x2E ∧
      hexDigit digit ≠ 0x2F := by decide
  obtain ⟨byte, _, inside⟩ := List.mem_flatMap.mp member
  have small := byte.toNat_lt
  simp only [List.mem_cons, List.not_mem_nil, or_false] at inside
  rcases inside with rfl | rfl
  · exact plain _ (by omega)
  · exact plain _ (by omega)

theorem isFileName_hs (data : QByteArray) :
    IsFileName (data.toHex ++ QString.ofString ".hs") :=
  isFileName_extension (fun member => (toHex_ne member).2.2 rfl)
    (fun member => (toHex_ne member).1 rfl) (by decide) (by decide)

variable {place} in
theorem IsHashed.nameOf {tree : FileTree} {fileName name : QString}
    (hashed : place.IsHashed tree fileName name) : TestModel.nameOf fileName = some name := by
  rw [hashed.digits, TestModel.nameOf_hs, QByteArray.fromHex_toHex,
    QString.fromUtf8_toUtf8 hashed.paired hashed.kept hashed.unmarked hashed.solid]

/-- The digits of a name are read back, and hide no file. -/
theorem IsHashed.listedName {tree : FileTree} {fileName name : QString}
    (hashed : place.IsHashed tree fileName name) (nonempty : name ≠ []) :
    TestModel.listedName fileName = some name := by
  have decoded : QString.fromUtf8 (QString.toUtf8 name) = name :=
    QString.fromUtf8_toUtf8 hashed.paired hashed.kept hashed.unmarked hashed.solid
  have shown : (QByteArray.toHex name.toUtf8 ++ QString.ofString ".hs").head? ≠ some 0x2E := by
    cases digits : QByteArray.toHex name.toUtf8 with
    | nil =>
        cases bytes : QString.toUtf8 name with
        | nil =>
            rw [bytes] at decoded
            exact absurd decoded.symm nonempty
        | cons byte rest =>
            rw [bytes] at digits
            exact nomatch digits
    | cons first rest =>
        have member : first ∈ QByteArray.toHex name.toUtf8 := digits ▸ List.mem_cons_self
        simpa using (toHex_ne member).2.1
  rw [TestModel.listedName, if_neg (hashed.digits ▸ shown), hashed.nameOf]

/-! ## Scripts that exist -/

/-- The last component of the path ends as the path does. -/
theorem exists_locate_pathTo {name : QString} (solid : 0 ∉ name) :
    ∃ front tail, locate [] (place.pathTo name ".qs") =
      front ++ [tail ++ QString.ofString ".qs"] := by
  obtain ⟨front, tail, walked⟩ := marks.exists_walk_ending place.directory name
    (show (0x2F : QChar) ∉ QString.ofString ".qs" by decide)
    fun tail => isName_extension tail (by decide)
  refine ⟨front, tail, ?_⟩
  rw [pathTo, cleanPath_location, ← walked]
  apply locate_rooted
  intro component member
  obtain ⟨isName, inside | inside⟩ := marks.isName_of_mem_walk
    (fun name member => (place.isFileName_directory name member).1) member
  · exact place.isFileName_directory component inside
  · obtain ⟨free, part⟩ := marks.of_mem_components inside
    refine ⟨isName, free, fun null => ?_⟩
    exact (List.mem_append.mp (part null)).elim solid (by decide)

/-- The file that a test is recorded into. -/
structure Chosen (tree : FileTree) (testName fileName : QString) : Prop where
  path : place.scriptPath tree testName = marks.rooted (place.directory ++ [fileName])
  named : IsFileName fileName
  shown : TestModel.listedName fileName = some testName
  known : fileName.endsWith ".qs" = true →
    tree.fileExists (marks.rooted (place.directory ++ [fileName])) = true
  hashed : fileName.endsWith ".hs" = true → place.IsHashed tree fileName testName

variable {place} {tree : FileTree}

theorem locate_file {fileName : QString} (isName : IsFileName fileName) :
    locate [] (marks.rooted (place.directory ++ [fileName])) = place.directory ++ [fileName] := by
  apply locate_rooted
  intro name member
  rcases List.mem_append.mp member with outside | last
  · exact place.isFileName_directory name outside
  · obtain rfl := List.mem_singleton.mp last
    exact isName

theorem Kept.exists_chosen (test : RecordedTest) (fits : place.Fits tree test) :
    ∃ fileName, place.Chosen tree test.name fileName := by
  obtain ⟨unmarked, solid, kind⟩ := fits
  have chosenPath := place.scriptPath_eq unmarked tree.fileExists test.name
  by_cases found : tree.fileExists (place.pathTo test.name ".qs") = true
  · rw [if_pos found] at kind chosenPath
    have isName := isFileName_qs kind.1 solid
    have path := place.pathTo_eq isName
    have shown : (test.name ++ QString.ofString ".qs").head? ≠ some 0x2E := by
      rw [List.head?_append_of_ne_nil _ test.nonempty]
      exact kind.2
    refine ⟨_, chosenPath.trans path, isName, ?_, ?_, ?_⟩
    · rw [TestModel.listedName, if_neg shown, TestModel.nameOf_qs]
    · exact fun _ => path ▸ found
    · exact fun ends => absurd ends (TestModel.not_endsWith_hs _)
  · rw [if_neg found] at kind chosenPath
    have isName := isFileName_hs (QString.toUtf8 test.name)
    have hashed : place.IsHashed tree
        (QByteArray.toHex (QString.toUtf8 test.name) ++ QString.ofString ".hs") test.name :=
      ⟨test.paired, kind.1, kind.2, solid, rfl, by simpa using found⟩
    refine ⟨_, chosenPath.trans (place.pathTo_eq isName), isName,
      hashed.listedName place test.nonempty, ?_, fun _ => hashed⟩
    exact fun ends => absurd ends (TestModel.not_endsWith_qs _)

/-- A listed test has its script where it was listed from. -/
theorem Kept.scriptPath_eq (kept : place.Kept tree) (unmarked : place.IsUnmarked)
    {row : TestModel.Row} (listed : row ∈ place.rows tree) :
    place.scriptPath tree row.name = marks.rooted (row.file.directory ++ [row.file.name]) := by
  obtain ⟨member, inside, shown⟩ := TestModel.mem_rows.mp listed
  have isName := kept.named row.file member inside
  have path := place.scriptPath_eq unmarked tree.fileExists row.name
  rw [TestModel.listedName] at shown
  split at shown
  next => exact nomatch shown
  next =>
      rw [inside]
      rcases TestModel.nameOf_eq_some shown with named | ends
      · rw [named] at isName ⊢
        have found : tree.fileExists (place.pathTo row.name ".qs") = true := by
          refine FileTree.fileExists_iff.mpr (.inr ⟨row.file, member, ?_⟩)
          rw [place.locate_pathTo isName, inside, named]
        rw [if_pos found] at path
        exact path.trans (place.pathTo_eq isName)
      · obtain ⟨name, hashed⟩ := kept.hashed row.file member inside ends
        have same : row.name = name := by
          rw [hashed.nameOf] at shown
          exact (Option.some.inj shown).symm
        rw [same, if_neg (by simp [hashed.unhidden])] at path
        rw [same, hashed.digits]
        exact path.trans (place.pathTo_eq (isFileName_hs _))

theorem Kept.finishRecording_eq (kept : place.Kept tree) {test : RecordedTest}
    {fileName : QString} (chosen : place.Chosen tree test.name fileName) :
    place.finishRecording tree test = tree.replace place.directory fileName test.script := by
  have blocked : ¬(place.directory ++ [fileName] ∈ tree.directories ∨
      place.directory ∉ tree.directories) := by
    rintro (isDirectory | missing)
    · exact kept.flat fileName isDirectory
    · exact missing kept.made
  rw [TestSetPlace.finishRecording, FileTree.write, chosen.path, locate_file chosen.named]
  simp only [List.getLast?_concat, List.dropLast_concat]
  rw [if_neg blocked]

/-- A script whose name is in digits is not hidden by a recording. -/
theorem Chosen.isHashed {testName fileName other name : QString}
    (chosen : place.Chosen tree testName fileName) (contents : QByteArray)
    (hashed : place.IsHashed tree other name) :
    place.IsHashed (tree.replace place.directory fileName contents) other name := by
  refine ⟨hashed.paired, hashed.kept, hashed.unmarked, hashed.solid, hashed.digits, ?_⟩
  by_cases same : locate [] (place.pathTo name ".qs") = place.directory ++ [fileName]
  · -- Such a file is only chosen when it exists.
    obtain ⟨front, tail, ending⟩ := place.exists_locate_pathTo hashed.solid
    have last : fileName = tail ++ QString.ofString ".qs" :=
      List.singleton_inj.mp (List.append_inj' (same.symm.trans ending) rfl).2
    have ends : fileName.endsWith ".qs" = true :=
      List.isSuffixOf_iff_suffix.mpr (last ▸ List.suffix_append _ _)
    have found : tree.fileExists (place.pathTo name ".qs") = true := by
      rw [FileTree.fileExists_iff, same, ← locate_file chosen.named]
      exact FileTree.fileExists_iff.mp (chosen.known ends)
    exact nomatch found.symm.trans hashed.unhidden
  · rw [FileTree.fileExists_replace_of_ne same]
    exact hashed.unhidden

theorem Kept.finishRecording (kept : place.Kept tree) {test : RecordedTest}
    {fileName : QString} (chosen : place.Chosen tree test.name fileName) :
    place.Kept (place.finishRecording tree test) := by
  rw [kept.finishRecording_eq chosen]
  refine ⟨kept.made, kept.flat, ?_, ?_, ?_⟩
  · rw [FileTree.replace, List.map_cons, List.nodup_cons]
    refine ⟨?_, kept.distinct.sublist (List.filter_sublist.map _)⟩
    intro again
    obtain ⟨file, member, same⟩ := List.mem_map.mp again
    rw [Prod.mk.injEq] at same
    exact absurd same (of_decide_eq_true (List.mem_filter.mp member).2)
  · intro file member inside
    rcases FileTree.mem_replace.mp member with rfl | ⟨old, _⟩
    · exact chosen.named
    · exact kept.named file old inside
  · intro file member inside ends
    rcases FileTree.mem_replace.mp member with rfl | ⟨old, _⟩
    · exact ⟨test.name, chosen.isHashed test.script (chosen.hashed ends)⟩
    · obtain ⟨name, hashed⟩ := kept.hashed file old inside ends
      exact ⟨name, chosen.isHashed test.script hashed⟩

/-- No other file is listed under the name. -/
theorem Kept.row_unique (kept : place.Kept tree) (unmarked : place.IsUnmarked)
    {testName fileName : QString} (chosen : place.Chosen tree testName fileName)
    {row : TestModel.Row} (listed : row ∈ place.rows tree) (named : row.name = testName) :
    row.file.name = fileName := by
  obtain ⟨member, inside, _⟩ := TestModel.mem_rows.mp listed
  have path := kept.scriptPath_eq unmarked listed
  have isName := kept.named row.file member inside
  rw [named, chosen.path, inside] at path
  have same : place.directory ++ [fileName] = place.directory ++ [row.file.name] := by
    rw [← locate_file chosen.named, path, locate_file isName]
  exact (List.singleton_inj.mp (List.append_cancel_left same)).symm

theorem Kept.count_name (kept : place.Kept tree) (unmarked : place.IsUnmarked)
    {test : RecordedTest} {fileName : QString}
    (chosen : place.Chosen tree test.name fileName) :
    ((place.rows (tree.replace place.directory fileName test.script)).map
      TestModel.Row.name).count test.name = 1 := by
  let others : FileTree :=
    { tree with
      files := tree.files.filter fun file =>
        ¬(file.directory = place.directory ∧ file.name = fileName) }
  have first : place.rows (tree.replace place.directory fileName test.script) =
      ⟨⟨place.directory, fileName, test.script⟩, test.name⟩ :: place.rows others := by
    simp [rows, TestModel.rows, FileTree.replace, chosen.shown, others]
  have absent : test.name ∉ (place.rows others).map TestModel.Row.name := by
    intro again
    obtain ⟨row, listed, named⟩ := List.mem_map.mp again
    obtain ⟨member, inside, shown⟩ := TestModel.mem_rows.mp listed
    obtain ⟨old, other⟩ := List.mem_filter.mp member
    have same := kept.row_unique unmarked chosen (TestModel.mem_rows.mpr ⟨old, inside, shown⟩) named
    exact of_decide_eq_true other ⟨inside, same⟩
  rw [first, List.map_cons, List.count_cons_self, List.count_eq_zero.mpr absent]

theorem Kept.corresponds (kept : place.Kept tree) {test : RecordedTest}
    (fits : place.Fits tree test) : place.Corresponds tree test := by
  obtain ⟨fileName, chosen⟩ := Kept.exists_chosen test fits
  have recorded := kept.finishRecording_eq chosen
  refine ⟨⟨fileName, ?_⟩, ?_, ?_, ?_, ?_, ?_⟩
  · rw [chosen.path, locate_file chosen.named]
  · intro file outside
    rw [recorded, FileTree.mem_replace]
    constructor
    · rintro (rfl | ⟨old, _⟩)
      · exact absurd rfl outside
      · exact old
    · exact fun old => .inr ⟨old, fun same => outside same.1⟩
  · rw [recorded]
    exact kept.count_name fits.1 chosen
  · refine ⟨⟨⟨place.directory, fileName, test.script⟩, test.name⟩, ?_, rfl, rfl⟩
    rw [recorded]
    exact TestModel.mem_rows.mpr ⟨FileTree.mem_replace.mpr (.inl rfl), rfl, chosen.shown⟩
  · intro row listed other
    obtain ⟨member, inside, shown⟩ := TestModel.mem_rows.mp listed
    rw [recorded]
    refine TestModel.mem_rows.mpr ⟨FileTree.mem_replace.mpr (.inr ⟨member, ?_⟩), inside, shown⟩
    rintro ⟨_, same⟩
    rw [same, chosen.shown] at shown
    exact other (Option.some.inj shown).symm
  · intro row listed
    exact (kept.finishRecording chosen).scriptPath_eq fits.1 listed

/-- A directory that holds scripts of the older kind only, on a disk. -/
structure ScriptDirectory (place : TestSetPlace tables) where
  tree : FileTree
  made : place.directory ∈ tree.directories
  flat : ∀ name, place.directory ++ [name] ∉ tree.directories
  distinct : (tree.files.map fun file => (file.directory, file.name)).Nodup
  named : ∀ file ∈ tree.files, file.directory = place.directory → IsFileName file.name
  scripts : ∀ file ∈ tree.files, file.directory = place.directory →
    file.name.endsWith ".qs" = true

theorem ScriptDirectory.kept (initial : place.ScriptDirectory) : place.Kept initial.tree := by
  refine ⟨initial.made, initial.flat, initial.distinct, initial.named, ?_⟩
  intro file member inside ends
  obtain ⟨front, older⟩ := List.isSuffixOf_iff_suffix.mp (initial.scripts file member inside)
  rw [← older] at ends
  exact absurd ends (TestModel.not_endsWith_hs front)

/-- Names and files stay together throughout a run of recordings whose names all fit. -/
theorem corresponds_throughout (initial : place.ScriptDirectory) {tests : List RecordedTest}
    (fit : StepsMeet place.finishRecording place.Fits initial.tree tests) :
    StepsMeet place.finishRecording place.Corresponds initial.tree tests := by
  intro before test after shape
  subst shape
  have kept : place.Kept (before.foldl place.finishRecording initial.tree) := by
    refine invariant_foldl ?_ initial.kept fit.prefix
    intro tree test kept fits
    obtain ⟨fileName, chosen⟩ := Kept.exists_chosen test fits
    exact kept.finishRecording chosen
  exact kept.corresponds (fit before test after rfl)

/-! ## A test set with one script -/

/-- The test set `t` below the root. -/
def homePlace : TestSetPlace separatorTables where
  storageLocation := []
  testSet := "t"
  named := by decide
  absolute := .inl rfl
  solid := by decide +kernel

theorem homePlace_directory : homePlace.directory = ["tests", "t"] := by
  decide +kernel

/-- Its only script is that of the test `login`. -/
def loginDirectory : homePlace.ScriptDirectory where
  tree := ⟨[⟨["tests", "t"], "login.qs", []⟩], [["tests"], ["tests", "t"]]⟩
  made := by decide +kernel
  flat := by
    intro name
    rw [homePlace_directory]
    simp
  distinct := by decide
  named := by decide +kernel
  scripts := by decide +kernel

/-- The test `menu` of an application. -/
def menuTest : RecordedTest where
  name := "menu"
  script := [0x2F]
  nonempty := by decide
  paired := by decide

/-- A test `./login`. -/
def dottedTest : RecordedTest where
  name := "./login"
  script := [0x2F]
  nonempty := by decide
  paired := by decide

theorem corresponds_menu :
    StepsMeet homePlace.finishRecording homePlace.Corresponds loginDirectory.tree [menuTest] :=
  corresponds_throughout loginDirectory (by decide +kernel)

/-- The script of `login` is overwritten, and no test `./login` is listed. -/
theorem dotted_overwrites :
    ¬∀ tests, StepsMeet homePlace.finishRecording homePlace.Corresponds loginDirectory.tree
      tests := by
  intro corresponds
  have here := corresponds [dottedTest] [] dottedTest [] rfl
  exact absurd here.once (by decide +kernel)

end TestSetPlace

end Hooq
