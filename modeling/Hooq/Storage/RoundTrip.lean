import Mathlib.Data.List.Perm.Basic
import Mathlib.Data.List.Nodup
import Hooq.Storage.TestSetBackup

/-!
# Which test sets survive a backup

A backup can be read back exactly if every file of the test set is listed and is a
script of the older format.  The scripts that the program creates now are not.
-/

namespace Hooq

/-! ## Maps -/

namespace QMap

variable {Value : Type}

theorem insert_perm {map : List (QString × Value)} {key : QString}
    (fresh : key ∉ map.map Prod.fst) (value : Value) :
    (insert map key value).Perm ((key, value) :: map) := by
  induction map with
  | nil => exact List.Perm.refl _
  | cons first rest ih =>
      rw [List.map_cons, List.mem_cons, not_or] at fresh
      rw [insert, if_neg fresh.1]
      split
      · exact List.Perm.refl _
      · apply ((ih fresh.2).cons first).trans
        exact List.Perm.swap _ _ _

theorem foldl_insert_perm_append {pairs map : List (QString × Value)}
    (distinct : ((pairs ++ map).map Prod.fst).Nodup) :
    (pairs.foldl (fun map pair => insert map pair.1 pair.2) map).Perm (pairs ++ map) := by
  induction pairs generalizing map with
  | nil => exact List.Perm.refl _
  | cons pair pairs ih =>
      have fresh : pair.1 ∉ map.map Prod.fst := by
        rw [List.cons_append, List.map_cons, List.nodup_cons, List.map_append] at distinct
        intro member
        exact distinct.1 (List.mem_append_right _ member)
      have moved : (pairs ++ insert map pair.1 pair.2).Perm (pair :: (pairs ++ map)) :=
        ((insert_perm fresh pair.2).append_left pairs).trans List.perm_middle
      exact (ih ((moved.map Prod.fst).nodup_iff.mpr distinct)).trans moved

/-- Inserting pairs with different keys into an empty map only sorts them. -/
theorem foldl_insert_perm {pairs : List (QString × Value)}
    (distinct : (pairs.map Prod.fst).Nodup) :
    (pairs.foldl (fun map pair => insert map pair.1 pair.2) []).Perm pairs := by
  rw [← List.append_nil pairs] at distinct
  have perm := foldl_insert_perm_append distinct
  rw [List.append_nil] at perm
  exact perm

end QMap

namespace TestSetBackup

/-! ## What a backup holds -/

variable (stream : DataStream) (compression : Compression)

/-- The listed files as they stand in the stream. -/
def written (files : List TestFile) : QByteArray :=
  files.flatMap fun file => stream.writeString file.name ++ stream.writeBytes file.contents

theorem writeTests_eq_written {files : List TestFile} {data : QByteArray}
    (written : writeTests stream files = some data) :
    data = TestSetBackup.written stream files := by
  induction files generalizing data with
  | nil =>
      cases written
      rfl
  | cons file rest ih =>
      rw [writeTests] at written
      split at written
      · rcases Option.map_eq_some_iff.mp written with ⟨later, isLater, rfl⟩
        rw [ih isLater, TestSetBackup.written, TestSetBackup.written, List.flatMap_cons,
          List.append_assoc]
      · cases written

/-- The name and the contents of each file, if all are scripts of the older format. -/
theorem readTests_written (files : List TestFile) :
    readTests stream (written stream files) =
      if files.all fun file => file.name.endsWith ".qs" then
        some (files.map fun file => (file.name, file.contents))
      else
        none := by
  induction files with
  | nil =>
      rw [readTests]
      rfl
  | cons file rest ih =>
      have shape : written stream (file :: rest) = stream.writeString file.name ++
          (stream.writeBytes file.contents ++ written stream rest) := by
        rw [written, List.flatMap_cons, List.append_assoc]
        rfl
      have more : stream.writeString file.name ++
          (stream.writeBytes file.contents ++ written stream rest) ≠ [] :=
        List.append_ne_nil_of_left_ne_nil (stream.writeString_ne_nil _) _
      have behind : stream.writeBytes file.contents ++ written stream rest ≠ [] :=
        List.append_ne_nil_of_left_ne_nil (stream.writeBytes_ne_nil _) _
      rw [shape, readTests, dif_neg more]
      simp only [stream.readString_writeString, stream.readBytes_writeBytes, ih, behind,
        false_or, List.all_cons]
      by_cases isQs : file.name.endsWith ".qs" = true
      · rw [dif_neg (not_not.mpr isQs)]
        simp only [isQs, Bool.true_and]
        split
        · rfl
        · rfl
      · rw [dif_pos isQs]
        simp only [Bool.eq_false_iff.mpr isQs, Bool.false_and, Bool.false_eq_true, if_false]

theorem openBackup_append (data : QByteArray) :
    openBackup compression (magic ++ compression.compress data) = some data := by
  rw [openBackup, if_neg (by simp), if_neg (by simp)]
  simp [compression.uncompress_compress]

/-- What is read of a backup. -/
theorem readBackup_backup {testSet : QString} (named : testSet ≠ []) {directory : TestDirectory}
    {file : QByteArray} (backedUp : backup stream compression testSet directory = some file) :
    readBackup stream compression file =
      if directory.entryList.all fun file => file.name.endsWith ".qs" then
        some (testSet, directory.entryList.map fun file => (file.name, file.contents))
      else
        none := by
  rcases Option.map_eq_some_iff.mp backedUp with ⟨tests, isTests, rfl⟩
  rw [writeTests_eq_written stream isTests, readBackup, openBackup_append]
  simp only [Option.bind_eq_bind, Option.bind_some, stream.readString_writeString, if_neg named,
    readTests_written]
  split
  · rfl
  · rfl

/-! ## Restoring -/

theorem createFiles_of_canOpen {canOpen : QString → Bool}
    (created : List (QString × QByteArray)) {tests : List (QString × QByteArray)}
    (opens : ∀ test ∈ tests, canOpen test.1 = true) :
    createFiles canOpen created tests = (true, created ++ tests) := by
  induction tests generalizing created with
  | nil => rw [createFiles, List.append_nil]
  | cons test rest ih =>
      rw [createFiles, if_pos (opens test List.mem_cons_self),
        ih _ fun other member => opens other (List.mem_cons_of_mem _ member), List.append_assoc]
      rfl

/-- The restored directory has the files of the original one, with their contents. -/
structure Matches (directory : TestDirectory) (testSet : QString) (restored : Restored) :
    Prop where
  testSet : restored.testSet = testSet
  files : ∀ name contents, (name, contents) ∈ restored.files ↔
    ∃ file ∈ directory.files, file.name = name ∧ file.contents = contents
  distinct : (restored.files.map Prod.fst).Nodup

/-- The files of a directory without hidden files, in which all are scripts of the older
format, are read back. -/
theorem readBackup_of_scripts {testSet : QString} (named : testSet ≠ [])
    {directory : TestDirectory} {file : QByteArray}
    (backedUp : backup stream compression testSet directory = some file)
    (kept : ∀ file ∈ directory.files, file.hidden = false ∧ file.name.endsWith ".qs" = true) :
    readBackup stream compression file =
      some (testSet, directory.files.map fun file => (file.name, file.contents)) := by
  have listed : directory.entryList = directory.files := by
    apply List.filter_eq_self.mpr
    intro file member
    rw [(kept file member).1]
    rfl
  have scripts : (directory.entryList.all fun file => file.name.endsWith ".qs") = true := by
    rw [listed, List.all_eq_true]
    exact fun file member => (kept file member).2
  rw [readBackup_backup stream compression named backedUp, if_pos scripts, listed]

theorem matches_restore {canOpen : QString → Bool} {testSet : QString} (named : testSet ≠ [])
    {directory : TestDirectory} {file : QByteArray}
    (backedUp : backup stream compression testSet directory = some file)
    (opens : ∀ file ∈ directory.files, canOpen file.name = true)
    (kept : ∀ file ∈ directory.files, file.hidden = false ∧ file.name.endsWith ".qs" = true) :
    Matches directory testSet (restore stream compression canOpen file) := by
  have read := readBackup_of_scripts stream compression named backedUp kept
  have keys : ((directory.files.map fun file => (file.name, file.contents)).map Prod.fst).Nodup := by
    rw [List.map_map]
    exact directory.distinct
  have perm := QMap.foldl_insert_perm keys
  rw [restore, read]
  simp only
  generalize List.foldl _ [] (directory.files.map fun file => (file.name, file.contents)) =
    tests at perm ⊢
  have created : createFiles canOpen [] tests = (true, [] ++ tests) := by
    apply createFiles_of_canOpen
    intro test member
    rcases List.mem_map.mp (perm.mem_iff.mp member) with ⟨file, isFile, rfl⟩
    exact opens file isFile
  rw [created]
  constructor
  · rfl
  · intro name contents
    rw [List.nil_append, perm.mem_iff, List.mem_map]
    simp only [Prod.mk.injEq]
  · rw [List.nil_append, (perm.map Prod.fst).nodup_iff]
    exact keys

/-- A file that is no script of the older format makes the backup unreadable. -/
theorem readBackup_eq_none {testSet : QString} (named : testSet ≠ [])
    {directory : TestDirectory} {file : QByteArray}
    (backedUp : backup stream compression testSet directory = some file) {other : TestFile}
    (member : other ∈ directory.entryList) (notQs : other.name.endsWith ".qs" = false) :
    readBackup stream compression file = none := by
  rw [readBackup_backup stream compression named backedUp, if_neg]
  intro scripts
  rw [List.all_eq_true.mp scripts other member] at notQs
  cases notQs

/-- The scripts that the program creates now are not of the older format. -/
theorem scriptName_not_qs {isFile : QString → Bool} {testName : QString}
    (isNew : isFile (testName ++ QString.ofString ".qs") = false) :
    (Locations.scriptName isFile testName).endsWith ".qs" = false := by
  rw [Locations.scriptName, isNew, if_neg Bool.false_ne_true]
  cases ends : QString.endsWith _ _ with
  | false => rfl
  | true =>
      have suffix := List.isSuffixOf_iff_suffix.mp ends
      have lengths : (QString.ofString ".qs").length ≤ (QString.ofString ".hs").length := by decide
      have same := List.suffix_of_suffix_length_le suffix (List.suffix_append _ _) lengths
      exact absurd same (by decide)

/-- A test set with a script that the program creates now is not restored at all. -/
theorem restore_of_new_script {canOpen : QString → Bool} {testSet : QString}
    (named : testSet ≠ []) {directory : TestDirectory} {file : QByteArray}
    (backedUp : backup stream compression testSet directory = some file) {script : TestFile}
    (member : script ∈ directory.files) (shown : script.hidden = false)
    {isFile : QString → Bool} {testName : QString}
    (isNew : isFile (testName ++ QString.ofString ".qs") = false)
    (isScript : script.name = Locations.scriptName isFile testName) :
    restore stream compression canOpen file = ⟨[], []⟩ ∧ list stream compression file = [] := by
  have isEntry : script ∈ directory.entryList :=
    List.mem_filter.mpr ⟨member, by rw [shown]; rfl⟩
  have unreadable := readBackup_eq_none stream compression named backedUp isEntry
    (by rw [isScript]; exact scriptName_not_qs isNew)
  rw [restore, list, unreadable]
  exact ⟨rfl, rfl⟩

/-- A test set comes back from its backup, and is listed, exactly if all its files are
listed by the file system and are scripts of the older format. -/
theorem restores_iff_scripts {canOpen : QString → Bool} {testSet : QString}
    (named : testSet ≠ []) {directory : TestDirectory} {file : QByteArray}
    (backedUp : backup stream compression testSet directory = some file)
    (opens : ∀ file ∈ directory.files, canOpen file.name = true) :
    (Matches directory testSet (restore stream compression canOpen file) ∧
      ∀ name, name ∈ list stream compression file ↔ ∃ file ∈ directory.files, file.name = name) ↔
    ∀ file ∈ directory.files, file.hidden = false ∧ file.name.endsWith ".qs" = true := by
  constructor
  · rintro ⟨restored, listed⟩ other member
    have isListed := (listed other.name).mpr ⟨other, member, rfl⟩
    rw [list] at isListed
    cases read : readBackup stream compression file with
    | none =>
        rw [read] at isListed
        cases isListed
    | some tests =>
        have scripts := readBackup_backup stream compression named backedUp
        rw [read] at scripts isListed
        split at scripts
        next areScripts =>
          cases scripts
          simp only [List.map_map] at isListed
          rcases List.mem_map.mp isListed with ⟨same, isEntry, sameName⟩
          have isOther : same = other := by
            apply List.inj_on_of_nodup_map directory.distinct _ member sameName
            exact List.mem_of_mem_filter isEntry
          rw [isOther] at isEntry
          have shown := (List.mem_filter.mp isEntry).2
          rw [Bool.not_eq_true'] at shown
          exact ⟨shown, List.all_eq_true.mp areScripts other isEntry⟩
        next => cases scripts
  · intro kept
    have restored := matches_restore stream compression named backedUp opens kept
    refine ⟨restored, ?_⟩
    intro name
    rw [list, readBackup_of_scripts stream compression named backedUp kept]
    simp only [List.map_map, List.mem_map, Function.comp_apply]

/-! ## A test set with one script -/

/-- The stream for the script `login.qs` of the test set `forms`. -/
def formsStream : QByteArray :=
  [0, 0, 0, 10, 0, 102, 0, 111, 0, 114, 0, 109, 0, 115,
    0, 0, 0, 16, 0, 108, 0, 111, 0, 103, 0, 105, 0, 110, 0, 46, 0, 113, 0, 115,
    0, 0, 0, 2, 111, 107]

/-- What `qCompress` makes of it at level 9. -/
def formsCompressed : QByteArray :=
  [0, 0, 0, 40, 120, 218, 99, 96, 96, 224, 98, 72, 99, 200, 103, 40, 98, 200, 101, 40, 102,
    96, 96, 16, 96, 200, 1, 242, 210, 25, 50, 25, 242, 24, 244, 24, 10, 193, 98, 76, 249, 217,
    0, 115, 167, 6, 73]

/-- A compression that agrees with `qCompress` on this stream. -/
def formsCompression : Compression where
  compress data := if data = formsStream then formsCompressed else 0xFF :: data
  uncompress data := if data = formsCompressed then formsStream else data.tail
  uncompress_compress := by
    intro data
    by_cases isForms : data = formsStream
    · rw [if_pos isForms, if_pos rfl, isForms]
    · rw [if_neg isForms, if_neg]
      · rfl
      · intro same
        have heads : some (0xFF : UInt8) = some 0 := congrArg List.head? same
        exact absurd heads (by decide)

def forms : TestDirectory :=
  ⟨[⟨"login.qs", [111, 107], true, false⟩], List.nodup_singleton _⟩

theorem forms_restores :
    (Matches forms "forms" (restore .qt44 formsCompression (fun _ => true)
        (magic ++ formsCompressed)) ∧
      ∀ name, name ∈ list .qt44 formsCompression (magic ++ formsCompressed) ↔
        ∃ file ∈ forms.files, file.name = name) ↔
    ∀ file ∈ forms.files, file.hidden = false ∧ file.name.endsWith ".qs" = true :=
  restores_iff_scripts .qt44 formsCompression (by decide) (by decide +kernel) fun _ _ => rfl

/-- The same test as the program stores it now. -/
def newForms : TestDirectory :=
  ⟨[⟨Locations.scriptName (fun _ => false) "login", [111, 107], true, false⟩],
    List.nodup_singleton _⟩

theorem newForms_not_restored :
    ¬∀ (directory : TestDirectory) (file : QByteArray),
      backup .qt44 formsCompression "forms" directory = some file →
      Matches directory "forms" (restore .qt44 formsCompression (fun _ => true) file) ∧
        ∀ name, name ∈ list .qt44 formsCompression file ↔
          ∃ file ∈ directory.files, file.name = name := by
  intro restores
  have backedUp : ∃ file, backup .qt44 formsCompression "forms" newForms = some file :=
    ⟨_, rfl⟩
  rcases backedUp with ⟨file, backedUp⟩
  have restored := (restores newForms file backedUp).1
  have isNew : (fun _ : QString => false) (QString.ofString "login" ++ QString.ofString ".qs") =
      false := rfl
  have isScript : Locations.scriptName (fun _ => false) "login" =
      Locations.scriptName (fun _ : QString => false) (QString.ofString "login") := rfl
  have lost : restore .qt44 formsCompression (fun _ => true) file = ⟨[], []⟩ :=
    (restore_of_new_script .qt44 formsCompression (by decide) backedUp List.mem_cons_self rfl
      isNew isScript).1
  have testSet := restored.testSet
  rw [lost] at testSet
  exact absurd testSet (by decide)

end TestSetBackup

end Hooq
