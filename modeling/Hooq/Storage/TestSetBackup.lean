import Hooq.Storage.DataStream

/-!
# Backups of test sets

A backup holds the name of a test set and, behind it, the name and the contents of
each script.  Writing takes every file that is listed, reading takes scripts of the
older format only.
-/

namespace Hooq

/-! ## Script files -/

/-- A regular file of a test set's directory. -/
structure TestFile where
  name : QString
  contents : QByteArray
  readable : Bool
  hidden : Bool
  deriving DecidableEq, Repr

/-- The directory of a test set, in the order in which it is listed. -/
structure TestDirectory where
  files : List TestFile
  distinct : (files.map TestFile.name).Nodup

/-- `QDir::entryList` for `QDir::Files`: hidden files are not asked for. -/
def TestDirectory.entryList (directory : TestDirectory) : List TestFile :=
  directory.files.filter fun file => !file.hidden

/-- `QString::endsWith`. -/
def QString.endsWith (text ending : QString) : Bool :=
  ending.isSuffixOf text

def hexDigit (digit : Nat) : QChar :=
  if digit < 10 then UInt16.ofNat (0x30 + digit) else UInt16.ofNat (0x61 + digit - 10)

/-- `QByteArray::toHex`, as a string. -/
def QByteArray.toHex (data : QByteArray) : QString :=
  data.flatMap fun byte : UInt8 => [hexDigit (byte.toNat / 16), hexDigit (byte.toNat % 16)]

/-- The file name that `Locations::scriptPath` gives a test. -/
def Locations.scriptName (isFile : QString → Bool) (testName : QString) : QString :=
  let qs := testName ++ QString.ofString ".qs"
  if isFile qs then qs else testName.toUtf8.toHex ++ QString.ofString ".hs"

/-! ## Writing and reading -/

namespace TestSetBackup

/-- `m_magic`. -/
def magic : QByteArray :=
  [0x25, 0x48, 0x6F, 0x6F, 0x71, 0x00, 0x55, 0xAA, 0xFF]

section

variable (stream : DataStream) (compression : Compression)

/-- The loop of `backup` over the listed files. -/
def writeTests : List TestFile → Option QByteArray
  | [] => some []
  | file :: rest =>
      if file.readable then
        (writeTests rest).map fun later =>
          stream.writeString file.name ++ (stream.writeBytes file.contents ++ later)
      else
        none

/-- `backup`: what is in the file when it returns true. -/
def backup (testSet : QString) (directory : TestDirectory) : Option QByteArray :=
  (writeTests stream directory.entryList).map fun tests =>
    magic ++ compression.compress (stream.writeString testSet ++ tests)

/-- The start of the functions that read: the stream behind the magic bytes. -/
def openBackup (file : QByteArray) : Option QByteArray :=
  if file.length < magic.length then
    none
  else if file.take magic.length ≠ magic then
    none
  else
    some (compression.uncompress (file.drop magic.length))

/-- The loop over the tests in a stream. -/
def readTests (data : QByteArray) : Option (List (QString × QByteArray)) :=
  if _more : data = [] then
    some []
  else
    let testName := (stream.readString data).1
    let behindName := (stream.readString data).2
    if _bad : behindName = [] ∨ ¬testName.endsWith ".qs" then
      none
    else
      let contents := (stream.readBytes behindName).1
      (readTests (stream.readBytes behindName).2).map ((testName, contents) :: ·)
termination_by data.length
decreasing_by
  have name := stream.readString_length data _more
  have bytes := stream.readBytes_length behindName fun isEmpty => _bad (.inl isEmpty)
  exact Nat.lt_trans bytes name

/-- What `list` and `restore` read of a file: the name of the set, and its tests. -/
def readBackup (file : QByteArray) : Option (QString × List (QString × QByteArray)) := do
  let data ← openBackup compression file
  let testSet := (stream.readString data).1
  if testSet = [] then
    none
  else
    let tests ← readTests stream (stream.readString data).2
    return (testSet, tests)

/-- `identify`. -/
def identify (file : QByteArray) : QString :=
  match openBackup compression file with
  | some data => (stream.readString data).1
  | none => []

/-- `list`. -/
def list (file : QByteArray) : List QString :=
  match readBackup stream compression file with
  | some backup => backup.2.map Prod.fst
  | none => []

/-- The loop of `restore` over the map of tests, which ends at a file that cannot be
opened. -/
def createFiles (canOpen : QString → Bool) (created : List (QString × QByteArray)) :
    List (QString × QByteArray) → Bool × List (QString × QByteArray)
  | [] => (true, created)
  | test :: rest =>
      if canOpen test.1 then createFiles canOpen (created ++ [test]) rest else (false, created)

/-- What `restore` returns, and the files in the set's directory afterwards. -/
structure Restored where
  testSet : QString
  files : List (QString × QByteArray)
  deriving DecidableEq, Repr

/-- `restore` into an empty root. -/
def restore (canOpen : QString → Bool) (file : QByteArray) : Restored :=
  match readBackup stream compression file with
  | some backup =>
      let tests := backup.2.foldl (fun tests test => QMap.insert tests test.1 test.2) []
      match createFiles canOpen [] tests with
      | (true, created) => ⟨backup.1, created⟩
      | (false, created) => ⟨[], created⟩
  | none => ⟨[], []⟩

end

end TestSetBackup

end Hooq
