import Hooq.Storage.Readers

/-!
# The format of an archive

An archive holds the name of the test set, and behind it the name and the data of each test.
A stream that ends inside a value gives an empty one, which nobody tells from a value that is
empty in the archive.
-/

namespace Hooq

open Library.Framing

/-! ## Streams of Qt 4.4 -/

namespace QDataStream

/-- The size that marks a null value. -/
def nullSize : Nat := 0xFFFFFFFF

/-- A size.  Past the end it is zero, and the stream is at its end. -/
def readSize : QByteArray → Nat × QByteArray
  | first :: second :: third :: fourth :: rest => (wordValue first second third fourth, rest)
  | _ => (0, [])

/-- A string.  Nothing is read behind a size that is odd; past the end it is empty. -/
def readString (stream : QByteArray) : QString × QByteArray :=
  let sized := readSize stream
  if sized.1 = nullSize ∨ sized.1 % 2 = 1 then
    ([], sized.2)
  else if sized.2.length < sized.1 then
    ([], [])
  else
    (DataStream.unitsOf (sized.2.take sized.1), sized.2.drop sized.1)

/-- A byte array.  Past the end it is empty. -/
def readBytes (stream : QByteArray) : QByteArray × QByteArray :=
  let sized := readSize stream
  if sized.1 = nullSize then
    ([], sized.2)
  else if sized.2.length < sized.1 then
    ([], [])
  else
    (sized.2.take sized.1, sized.2.drop sized.1)

theorem readSize_length {stream : QByteArray} (more : stream ≠ []) :
    (readSize stream).2.length < stream.length := by
  fun_cases readSize stream with
  | case1 first second third fourth rest =>
      simp only [List.length_cons]
      omega
  | case2 => exact List.length_pos_iff.mpr more

/-- `QDataStream` for the version that archives have. -/
def reader : StreamReader where
  readString := readString
  readBytes := readBytes
  readString_length := by
    intro stream more
    have shorter := readSize_length more
    rw [readString]
    split_ifs
    · exact shorter
    · exact Nat.zero_lt_of_lt shorter
    · exact Nat.lt_of_le_of_lt (by simp) shorter
  readBytes_length := by
    intro stream more
    have shorter := readSize_length more
    rw [readBytes]
    split_ifs
    · exact shorter
    · exact Nat.zero_lt_of_lt shorter
    · exact Nat.lt_of_le_of_lt (by simp) shorter

/-! ## Values in a stream -/

/-- A string as it stands in a stream: null, or its units behind their size in bytes. -/
inductive IsString : QString → QByteArray → Prop where
  | null : IsString [] (word nullSize)
  | units (text : QString) (small : 2 * text.length < nullSize) :
      IsString text (word (2 * text.length) ++ DataStream.unitBytes text)

/-- A byte array as it stands in a stream. -/
inductive IsBytes : QByteArray → QByteArray → Prop where
  | null : IsBytes [] (word nullSize)
  | sized (data : QByteArray) (small : data.length < nullSize) :
      IsBytes data (word data.length ++ data)

theorem readSize_word {value : Nat} (small : value ≤ nullSize) (rest : QByteArray) :
    readSize (word value ++ rest) = (value, rest) := by
  rw [word, List.cons_append, List.cons_append, List.cons_append, List.cons_append,
    List.nil_append, readSize, wordValue_word (Nat.lt_succ_of_le small)]

theorem word_wordValue (first second third fourth : UInt8) :
    word (wordValue first second third fourth) = [first, second, third, fourth] := by
  have firstSmall := first.toNat_lt
  have secondSmall := second.toNat_lt
  have thirdSmall := third.toNat_lt
  have fourthSmall := fourth.toNat_lt
  have byte {value : Nat} {original : UInt8} (same : value = original.toNat) :
      UInt8.ofNat value = original := by
    rw [same, UInt8.ofNat_toNat]
  simp only [word, wordValue, List.cons.injEq, and_true]
  refine ⟨byte ?_, byte ?_, byte ?_, byte ?_⟩ <;> omega

/-- What is read of four bytes and more is what they say. -/
theorem word_readSize {stream : QByteArray} (long : 4 ≤ stream.length) :
    stream = word (readSize stream).1 ++ (readSize stream).2 := by
  match stream with
  | first :: second :: third :: fourth :: rest =>
      rw [readSize, word_wordValue]
      rfl
  | [] | [_] | [_, _] | [_, _, _] =>
      simp only [List.length_cons, List.length_nil] at long
      omega

theorem readSize_le (stream : QByteArray) : (readSize stream).1 ≤ nullSize := by
  fun_cases readSize stream with
  | case1 first second third fourth rest =>
      have firstSmall := first.toNat_lt
      have secondSmall := second.toNat_lt
      have thirdSmall := third.toNat_lt
      have fourthSmall := fourth.toNat_lt
      simp only [wordValue, nullSize]
      omega
  | case2 => exact Nat.zero_le _

theorem readSize_of_short {stream : QByteArray} (short : stream.length < 4) :
    readSize stream = (0, []) := by
  fun_cases readSize stream with
  | case1 first second third fourth rest =>
      simp only [List.length_cons] at short
      omega
  | case2 => rfl

theorem length_unitBytes (text : QString) :
    (DataStream.unitBytes text).length = 2 * text.length := by
  induction text with
  | nil => rfl
  | cons unit text ih =>
      rw [DataStream.unitBytes, List.flatMap_cons, List.length_append, List.length_cons (a := unit),
        Nat.mul_add, Nat.add_comm]
      exact congrArg (· + 2) ih

theorem unitBytes_unitsOf (bytes : QByteArray) (even : bytes.length % 2 = 0) :
    DataStream.unitBytes (DataStream.unitsOf bytes) = bytes := by
  fun_induction DataStream.unitsOf bytes with
  | case1 high low rest ih =>
      have highSmall := high.toNat_lt
      have lowSmall := low.toNat_lt
      have restEven : rest.length % 2 = 0 := by
        simp only [List.length_cons] at even
        omega
      have byte {value : Nat} {original : UInt8} (same : value = original.toNat) :
          UInt8.ofNat value = original := by
        rw [same, UInt8.ofNat_toNat]
      have shape := ih restEven
      rw [DataStream.unitBytes] at shape ⊢
      rw [List.flatMap_cons, shape, byte, byte]
      · rfl
      · simp only [UInt16.toNat_ofNat']
        omega
      · simp only [UInt16.toNat_ofNat']
        omega
  | case2 bytes notPair =>
      rcases bytes with _ | ⟨high, _ | ⟨low, rest⟩⟩
      · rfl
      · cases even
      · exact absurd rfl (notPair high low rest)

/-! ### Reading what stands there -/

theorem readString_of_isString {text : QString} {bytes : QByteArray} (isString : IsString text bytes)
    (rest : QByteArray) : readString (bytes ++ rest) = (text, rest) := by
  cases isString with
  | null =>
      rw [readString, readSize_word (Nat.le_refl _)]
      exact if_pos (.inl rfl)
  | units _ small =>
      have notNull : ¬(2 * text.length = nullSize ∨ 2 * text.length % 2 = 1) := by omega
      have size := length_unitBytes text
      rw [readString, List.append_assoc, readSize_word (Nat.le_of_lt small)]
      dsimp only
      rw [if_neg notNull, if_neg (by simp [size]), ← size, List.take_left, List.drop_left,
        DataStream.unitsOf_unitBytes]

theorem readBytes_of_isBytes {data bytes : QByteArray} (isBytes : IsBytes data bytes)
    (rest : QByteArray) : readBytes (bytes ++ rest) = (data, rest) := by
  cases isBytes with
  | null =>
      rw [readBytes, readSize_word (Nat.le_refl _)]
      exact if_pos rfl
  | sized _ small =>
      rw [readBytes, List.append_assoc, readSize_word (Nat.le_of_lt small)]
      dsimp only
      rw [if_neg (Nat.ne_of_lt small), if_neg (by simp), List.take_left, List.drop_left]

/-- A string that is not empty stands in the stream as a whole. -/
theorem isString_of_readString {stream : QByteArray} (nonempty : (readString stream).1 ≠ []) :
    ∃ bytes, IsString (readString stream).1 bytes ∧ stream = bytes ++ (readString stream).2 := by
  have shape := readString.eq_def stream
  dsimp only at shape
  split_ifs at shape with special short
  · exact absurd (congrArg Prod.fst shape) nonempty
  · exact absurd (congrArg Prod.fst shape) nonempty
  · rw [not_or] at special
    have long : 4 ≤ stream.length := by
      by_contra few
      have nothing := readSize_of_short (Nat.lt_of_not_le few)
      rw [shape, nothing] at nonempty
      exact nonempty rfl
    have taken : ((readSize stream).2.take (readSize stream).1).length = (readSize stream).1 :=
      List.length_take_of_le (Nat.le_of_not_lt short)
    have units := unitBytes_unitsOf ((readSize stream).2.take (readSize stream).1) (by omega)
    have size := length_unitBytes
      (DataStream.unitsOf ((readSize stream).2.take (readSize stream).1))
    rw [units, taken] at size
    have below := Nat.lt_of_le_of_ne (readSize_le stream) special.1
    have isString := IsString.units
      (DataStream.unitsOf ((readSize stream).2.take (readSize stream).1)) (by omega)
    rw [units, ← size] at isString
    refine ⟨_, by rw [shape]; exact isString, ?_⟩
    rw [shape, List.append_assoc, List.take_append_drop]
    exact word_readSize long

/-- Bytes in front of the end of a value. -/
def IsCut {Value : Type} (format : Value → QByteArray → Prop) (part : QByteArray) : Prop :=
  ∃ value missing, missing ≠ [] ∧ format value (part ++ missing)

/-- A size that is cut short. -/
theorem isCut_of_word {part missing : QByteArray} (first second third : UInt8)
    (shape : part ++ missing = [first, second, third, 0]) (nonempty : missing ≠ []) :
    IsCut IsBytes part := by
  have firstSmall := first.toNat_lt
  have secondSmall := second.toNat_lt
  have thirdSmall := third.toNat_lt
  have small : wordValue first second third 0 < nullSize := by
    simp only [wordValue, nullSize, UInt8.toNat_zero]
    omega
  have isBytes := IsBytes.sized (List.replicate (wordValue first second third 0) 0)
    (by rw [List.length_replicate]; exact small)
  rw [List.length_replicate, word_wordValue, ← shape, List.append_assoc] at isBytes
  exact ⟨_, _, List.append_ne_nil_of_left_ne_nil nonempty _, isBytes⟩

theorem isCut_of_few {stream : QByteArray} (few : stream.length < 4) : IsCut IsBytes stream := by
  match stream with
  | [] => exact isCut_of_word 0 0 0 (List.nil_append _) (by simp)
  | [first] => exact isCut_of_word first 0 0 rfl (by simp)
  | [first, second] => exact isCut_of_word first second 0 rfl (by simp)
  | [first, second, third] => exact isCut_of_word first second third rfl (by simp)
  | _ :: _ :: _ :: _ :: _ =>
      simp only [List.length_cons] at few
      omega

/-- Data that is cut short. -/
theorem isCut_of_short {stream : QByteArray} (long : 4 ≤ stream.length)
    (notNull : (readSize stream).1 ≠ nullSize)
    (short : (readSize stream).2.length < (readSize stream).1) : IsCut IsBytes stream := by
  have below := Nat.lt_of_le_of_ne (readSize_le stream) notNull
  have padded : ((readSize stream).2 ++
      List.replicate ((readSize stream).1 - (readSize stream).2.length) 0).length =
        (readSize stream).1 := by
    rw [List.length_append, List.length_replicate]
    omega
  have isBytes := IsBytes.sized _ (padded.trans_lt below)
  rw [padded, ← List.append_assoc, ← word_readSize long] at isBytes
  refine ⟨_, _, ?_, isBytes⟩
  rw [Ne, List.replicate_eq_nil_iff]
  omega

/-- Data stands in the stream as a whole, or the stream ends inside of it and is used up. -/
theorem readBytes_cases (stream : QByteArray) :
    (∃ bytes, IsBytes (readBytes stream).1 bytes ∧ stream = bytes ++ (readBytes stream).2) ∨
      IsCut IsBytes stream ∧ readBytes stream = ([], []) := by
  have shape := readBytes.eq_def stream
  dsimp only at shape
  by_cases few : stream.length < 4
  · right
    refine ⟨isCut_of_few few, ?_⟩
    rw [shape, readSize_of_short few]
    rfl
  · have long := Nat.le_of_not_lt few
    have bytes := word_readSize long
    split_ifs at shape with null short
    · left
      rw [null] at bytes
      rw [shape]
      exact ⟨_, .null, bytes⟩
    · exact .inr ⟨isCut_of_short long null short, shape⟩
    · left
      have below := Nat.lt_of_le_of_ne (readSize_le stream) null
      have taken : ((readSize stream).2.take (readSize stream).1).length =
          (readSize stream).1 := List.length_take_of_le (Nat.le_of_not_lt short)
      have isBytes := IsBytes.sized _ (taken.trans_lt below)
      rw [taken] at isBytes
      rw [shape]
      refine ⟨_, isBytes, ?_⟩
      rw [List.append_assoc, List.take_append_drop]
      exact bytes

end QDataStream

namespace TestSetBackup

open QDataStream

/-! ## What an archive may hold -/

/-- A test in a stream: a script's name, and its data. -/
def IsTest (test : QString × QByteArray) (bytes : QByteArray) : Prop :=
  ∃ name data, IsString test.1 name ∧ test.1.endsWith ".qs" = true ∧ IsBytes test.2 data ∧
    bytes = name ++ data

/-- Tests in a stream, one behind the other. -/
inductive IsTests : List (QString × QByteArray) → QByteArray → Prop where
  | nil : IsTests [] []
  | cons {test : QString × QByteArray} {tests : List (QString × QByteArray)}
      {bytes rest : QByteArray} (isTest : IsTest test bytes) (areTests : IsTests tests rest) :
      IsTests (test :: tests) (bytes ++ rest)

/-- The name of a test set, and its tests. -/
def IsPayload (testSet : QString) (tests : List (QString × QByteArray)) (payload : QByteArray) :
    Prop :=
  ∃ name rest, testSet ≠ [] ∧ IsString testSet name ∧ IsTests tests rest ∧ payload = name ++ rest

/-- The payload ends inside of a value: the name of the set, or the name or data of a test. -/
def IsCutShort (payload : QByteArray) : Prop :=
  IsCut IsString payload ∨
    ∃ testSet tests front part, IsPayload testSet tests front ∧ part ≠ [] ∧ IsCut IsTest part ∧
      payload = front ++ part

/-- The payload ends inside of the data of a test, behind the name of the test. -/
def LacksData (payload : QByteArray) : Prop :=
  ∃ testSet tests front script name part, IsPayload testSet tests front ∧
    IsString script name ∧ script.endsWith ".qs" = true ∧ part ≠ [] ∧ IsCut IsBytes part ∧
      payload = front ++ (name ++ part)

/-- A backup that holds the payload is only restored if the payload is one of a test set, and
not if it is cut short. -/
structure AcceptsOnlyFormat (compression : Compression) (payload : QByteArray) : Prop where
  format : ∀ current canOpen rootDirectory files,
    (reader.restore compression current canOpen rootDirectory
      (magic ++ compression.compress payload) files).testSet ≠ [] →
    ∃ testSet tests, IsPayload testSet tests payload
  cutShort : IsCutShort payload → ∀ current canOpen rootDirectory files,
    (reader.restore compression current canOpen rootDirectory
      (magic ++ compression.compress payload) files).testSet = []

/-! ### Values and what is behind them -/

theorem IsString.behind {first second : QString} {bytes others rest behind : QByteArray}
    (isString : IsString first bytes) (isStringToo : IsString second others)
    (same : bytes ++ rest = others ++ behind) :
    first = second ∧ bytes = others ∧ rest = behind := by
  have read := readString_of_isString isString rest
  rw [same, readString_of_isString isStringToo, Prod.mk.injEq] at read
  obtain ⟨rfl, rfl⟩ := read
  exact ⟨rfl, List.append_cancel_right same, rfl⟩

theorem IsBytes.behind {first second bytes others rest behind : QByteArray}
    (isBytes : IsBytes first bytes) (isBytesToo : IsBytes second others)
    (same : bytes ++ rest = others ++ behind) :
    first = second ∧ bytes = others ∧ rest = behind := by
  have read := readBytes_of_isBytes isBytes rest
  rw [same, readBytes_of_isBytes isBytesToo, Prod.mk.injEq] at read
  obtain ⟨rfl, rfl⟩ := read
  exact ⟨rfl, List.append_cancel_right same, rfl⟩

theorem IsTest.behind {first second : QString × QByteArray}
    {bytes others rest behind : QByteArray} (isTest : IsTest first bytes)
    (isTestToo : IsTest second others) (same : bytes ++ rest = others ++ behind) :
    bytes = others ∧ rest = behind := by
  rcases isTest with ⟨name, data, isName, -, isData, rfl⟩
  rcases isTestToo with ⟨otherName, otherData, isOtherName, -, isOtherData, rfl⟩
  rw [List.append_assoc, List.append_assoc] at same
  obtain ⟨-, rfl, sameData⟩ := IsString.behind isName isOtherName same
  obtain ⟨-, rfl, sameRest⟩ := IsBytes.behind isData isOtherData sameData
  exact ⟨rfl, sameRest⟩

theorem IsString.ne_nil {text : QString} {bytes : QByteArray} (isString : IsString text bytes) :
    bytes ≠ [] := by
  cases isString <;> simp [word]

theorem IsTest.ne_nil {test : QString × QByteArray} {bytes : QByteArray}
    (isTest : IsTest test bytes) : bytes ≠ [] := by
  rcases isTest with ⟨name, data, isName, -, -, rfl⟩
  exact List.append_ne_nil_of_left_ne_nil (IsString.ne_nil isName) _

/-- What is behind tests that are there as a whole are tests. -/
theorem IsTests.rest {tests others : List (QString × QByteArray)} {front behind : QByteArray}
    (areTests : IsTests tests front) (all : IsTests others (front ++ behind)) :
    ∃ later, IsTests later behind := by
  induction areTests generalizing others with
  | nil => exact ⟨others, all⟩
  | cons isTest _ ih =>
      rw [List.append_assoc] at all
      generalize shape : _ ++ (_ ++ behind) = whole at all
      cases all with
      | nil => exact absurd (List.append_eq_nil_iff.mp shape).1 isTest.ne_nil
      | cons isOther later =>
          obtain ⟨-, rest⟩ := isTest.behind isOther shape
          exact ih (rest ▸ later)

/-- A payload goes on with tests behind the tests at its front. -/
theorem IsPayload.rest {testSet other : QString} {tests others : List (QString × QByteArray)}
    {front behind : QByteArray} (isPayload : IsPayload testSet tests front)
    (whole : IsPayload other others (front ++ behind)) : ∃ later, IsTests later behind := by
  rcases isPayload with ⟨name, rest, -, isName, areTests, rfl⟩
  rcases whole with ⟨otherName, otherRest, -, isOtherName, areOthers, shape⟩
  rw [List.append_assoc] at shape
  obtain ⟨-, -, rest⟩ := IsString.behind isName isOtherName shape
  exact areTests.rest (rest ▸ areOthers)

theorem not_isPayload_of_cutShort {payload : QByteArray} (cut : IsCutShort payload)
    (testSet : QString) (tests : List (QString × QByteArray)) :
    ¬IsPayload testSet tests payload := by
  intro isPayload
  rcases cut with ⟨text, missing, nonempty, isString⟩ |
    ⟨otherSet, others, front, part, isFront, something, ⟨test, missing, nonempty, isTest⟩, rfl⟩
  · rcases isPayload with ⟨name, rest, -, isName, -, rfl⟩
    have same : name ++ (rest ++ missing) = (name ++ rest ++ missing) ++ [] := by simp
    obtain ⟨-, -, nothing⟩ := IsString.behind isName isString same
    exact nonempty (List.append_eq_nil_iff.mp nothing).2
  · rcases isFront.rest isPayload with ⟨later, areTests⟩
    cases areTests with
    | nil => exact something rfl
    | @cons first _ bytes rest isFirst _ =>
        have same : bytes ++ (rest ++ missing) = (bytes ++ rest ++ missing) ++ [] := by simp
        obtain ⟨-, nothing⟩ := isFirst.behind isTest same
        exact nonempty (List.append_eq_nil_iff.mp nothing).2

theorem not_isPayload_of_lacksData {payload : QByteArray} (lacks : LacksData payload)
    (testSet : QString) (tests : List (QString × QByteArray)) :
    ¬IsPayload testSet tests payload := by
  rcases lacks with ⟨otherSet, others, front, script, name, part, isFront, isName, isScript,
    something, ⟨data, missing, nonempty, isBytes⟩, rfl⟩
  apply not_isPayload_of_cutShort
  refine .inr ⟨otherSet, others, front, name ++ part, isFront,
    List.append_ne_nil_of_right_ne_nil _ something, ?_, rfl⟩
  exact ⟨(script, data), missing, nonempty, name, part ++ missing, isName, isScript, isBytes,
    List.append_assoc _ _ _⟩

/-! ### What is accepted -/

/-- Behind the name of a script, something else. -/
theorem reads_script {script : QString} {name behind : QByteArray} (isName : IsString script name)
    (isScript : script.endsWith ".qs" = true) (more : behind ≠ [])
    (collected : List (QString × QByteArray)) :
    reader.restoreLoop.run (collected, name ++ behind) =
      reader.restoreLoop.run
        (QMap.insert collected script (readBytes behind).1, (readBytes behind).2) := by
  have read : reader.readString (name ++ behind) = (script, behind) :=
    readString_of_isString isName behind
  have pass := @StreamReader.restoreLoop_test reader (name ++ behind)
    (List.append_ne_nil_of_right_ne_nil _ more) (by rw [read]; exact more)
    (by rw [read]; exact isScript) collected
  rw [read] at pass
  exact Library.Loop.run_of_goesOn pass

theorem IsBytes.ne_nil {data bytes : QByteArray} (isBytes : IsBytes data bytes) : bytes ≠ [] := by
  cases isBytes <;> simp [word]

/-- The loop takes in the tests at the front of a stream. -/
theorem reads_tests {tests : List (QString × QByteArray)} {front : QByteArray}
    (areTests : IsTests tests front) (collected : List (QString × QByteArray))
    (behind : QByteArray) :
    reader.restoreLoop.run (collected, front ++ behind) =
      reader.restoreLoop.run
        (tests.foldl (fun tests test => QMap.insert tests test.1 test.2) collected, behind) := by
  induction areTests generalizing collected with
  | nil => rfl
  | @cons test tests bytes rest isTest _ ih =>
      rcases isTest with ⟨name, data, isName, isScript, isData, rfl⟩
      have more : data ++ (rest ++ behind) ≠ [] :=
        List.append_ne_nil_of_left_ne_nil (IsBytes.ne_nil isData) _
      rw [List.append_assoc, List.append_assoc, reads_script isName isScript more,
        readBytes_of_isBytes isData, ih, List.foldl_cons]

/-- The loop accepts a stream of tests, and one that ends in the data of a test. -/
theorem tests_of_accepted (stream : QByteArray) (collected : List (QString × QByteArray)) :
    (reader.restoreLoop.run (collected, stream)).isSome = true →
      (∃ tests, IsTests tests stream) ∨
        ∃ tests front script name part, IsTests tests front ∧ IsString script name ∧
          script.endsWith ".qs" = true ∧ part ≠ [] ∧ IsCut IsBytes part ∧
            stream = front ++ (name ++ part) := by
  induction size : stream.length using Nat.strong_induction_on generalizing stream collected with
  | _ size ih =>
      subst size
      intro accepts
      rcases reader.finds stream with rfl | ⟨more, bad⟩ | ⟨more, behindName, isScript⟩
      · exact .inl ⟨[], .nil⟩
      · rw [Library.Loop.run_of_leaves (StreamReader.restoreLoop_bad more bad collected)] at accepts
        cases accepts
      · have shorter := reader.readTest_length more behindName
        rw [Library.Loop.run_of_goesOn
          (StreamReader.restoreLoop_test more behindName isScript collected)] at accepts
        have named : (readString stream).1 ≠ [] := by
          intro unnamed
          change (readString stream).1.endsWith ".qs" = true at isScript
          rw [unnamed] at isScript
          exact absurd isScript (by decide)
        rcases isString_of_readString named with ⟨name, isName, shape⟩
        rcases readBytes_cases (readString stream).2 with ⟨data, isData, rest⟩ | ⟨cut, nothing⟩
        · have isTest : IsTest ((readString stream).1, (readBytes (readString stream).2).1)
              (name ++ data) := ⟨name, data, isName, isScript, isData, rfl⟩
          rcases ih _ shorter _ _ rfl accepts with ⟨tests, areTests⟩ |
            ⟨tests, front, script, last, part, areTests, isLast, isQs, something, cut, ends⟩
          · left
            have whole := shape.trans (congrArg (name ++ ·) rest)
            rw [← List.append_assoc] at whole
            have joined := IsTests.cons isTest areTests
            change IsTests _ (name ++ data ++ (readBytes (readString stream).2).2) at joined
            rw [← whole] at joined
            exact ⟨_, joined⟩
          · right
            refine ⟨_, _, script, last, part, .cons isTest areTests, isLast, isQs, something, cut,
              ?_⟩
            calc
              stream = name ++ (data ++ (readBytes (readString stream).2).2) :=
                shape.trans (congrArg (name ++ ·) rest)
              _ = name ++ (data ++ (front ++ (last ++ part))) :=
                congrArg (fun behind => name ++ (data ++ behind)) ends
              _ = name ++ data ++ front ++ (last ++ part) := by simp only [List.append_assoc]
        · exact .inr ⟨[], [], _, name, _, .nil, isName, isScript, behindName, cut, shape⟩

variable (compression : Compression)

theorem accepted_payload (payload : QByteArray) :
    reader.accepted compression (magic ++ compression.compress payload) =
      if (readString payload).1 = [] then
        none
      else
        (reader.restoreLoop.run ([], (readString payload).2)).map fun tests =>
          ((readString payload).1, tests) := by
  rw [StreamReader.accepted, openBackup_append]
  simp only [Option.bind_eq_bind, Option.bind_some]
  by_cases unnamed : (readString payload).1 = []
  · rw [if_pos unnamed]
    exact if_pos unnamed
  · rw [if_neg unnamed]
    refine (if_neg unnamed).trans ?_
    change (reader.restoreLoop.run ([], (readString payload).2)).bind _ = _
    cases reader.restoreLoop.run ([], (readString payload).2) <;> rfl

theorem isSome_of_lacksData {payload : QByteArray} (lacks : LacksData payload) :
    ∃ tests, reader.accepted compression (magic ++ compression.compress payload) =
      some ((readString payload).1, tests) := by
  rcases lacks with ⟨testSet, tests, _, script, name, part, ⟨setName, rest, named, isSetName,
    areTests, rfl⟩, isName, isScript, something, cut, rfl⟩
  have read := readString_of_isString isSetName (rest ++ (name ++ part))
  rw [accepted_payload, List.append_assoc, read, if_neg named, reads_tests areTests,
    reads_script isName isScript something]
  rcases readBytes_cases part with ⟨data, isData, rest⟩ | ⟨-, nothing⟩
  · rcases cut with ⟨value, missing, nonempty, isBytes⟩
    rw [rest, List.append_assoc] at isBytes
    have same : data ++ ((readBytes part).2 ++ missing) =
      (data ++ ((readBytes part).2 ++ missing)) ++ [] := (List.append_nil _).symm
    obtain ⟨-, -, nothing⟩ := IsBytes.behind isData isBytes same
    exact absurd (List.append_eq_nil_iff.mp nothing).2 nonempty
  · rw [nothing, Library.Loop.run_of_leaves (StreamReader.restoreLoop_ending _)]
    exact ⟨_, rfl⟩

theorem format_of_accepted {payload : QByteArray} (whole : ¬LacksData payload)
    (accepts : (reader.accepted compression (magic ++ compression.compress payload)).isSome = true) :
    ∃ testSet tests, IsPayload testSet tests payload := by
  rw [accepted_payload] at accepts
  split at accepts
  next => cases accepts
  next named =>
    rw [Option.isSome_map] at accepts
    rcases isString_of_readString named with ⟨name, isName, shape⟩
    rcases tests_of_accepted _ _ accepts with ⟨tests, areTests⟩ |
      ⟨tests, front, script, last, part, areTests, isLast, isScript, something, cut, ends⟩
    · exact ⟨_, tests, name, _, named, isName, areTests, shape⟩
    · refine absurd ⟨_, tests, name ++ front, script, last, part,
        ⟨name, front, named, isName, areTests, rfl⟩, isLast, isScript, something, cut, ?_⟩ whole
      rw [List.append_assoc, ← ends]
      exact shape

/-- Where data is cut short, something else than the format is accepted. -/
theorem not_acceptsOnlyFormat {payload : QByteArray} (lacks : LacksData payload) :
    ¬AcceptsOnlyFormat compression payload := by
  intro only
  rcases isSome_of_lacksData compression lacks with ⟨tests, read⟩
  have named := (reader.testSet_of_accepted read).1
  have wrote := writeFiles_succeeds [] (fun _ => true)
    (directoryPath [] (readString payload).1) tests [] fun _ => none
  rw [List.all_eq_true.mpr fun _ _ => rfl] at wrote
  have succeeds : (reader.restore compression [] (fun _ => true) []
      (magic ++ compression.compress payload) fun _ => none).testSet ≠ [] := by
    rw [StreamReader.restore_eq, read]
    simpa [wrote] using named
  rcases only.format _ _ _ _ succeeds with ⟨testSet, others, isPayload⟩
  exact not_isPayload_of_lacksData lacks testSet others isPayload

/-- Nothing but the format is accepted, unless the data of the last test is cut short. -/
theorem acceptsOnlyFormat_iff (payload : QByteArray) :
    AcceptsOnlyFormat compression payload ↔ ¬LacksData payload := by
  refine ⟨fun only lacks => not_acceptsOnlyFormat compression lacks only, fun whole => ?_⟩
  have format : ∀ current canOpen rootDirectory files,
      (reader.restore compression current canOpen rootDirectory
        (magic ++ compression.compress payload) files).testSet ≠ [] →
      ∃ testSet tests, IsPayload testSet tests payload := by
    intro current canOpen rootDirectory files named
    rw [StreamReader.restore_eq] at named
    cases read : reader.accepted compression (magic ++ compression.compress payload) with
    | none =>
        rw [read] at named
        exact absurd rfl named
    | some backup => exact format_of_accepted compression whole (by rw [read]; rfl)
  refine ⟨format, fun cut current canOpen rootDirectory files => ?_⟩
  by_contra named
  rcases format _ _ _ _ named with ⟨testSet, tests, isPayload⟩
  exact not_isPayload_of_cutShort cut testSet tests isPayload

/-- The stream for the script `login.qs` of the test set `forms`, without the last byte of
the script. -/
def cutStream : QByteArray :=
  formsStream.dropLast

theorem cutStream_lacksData : LacksData cutStream := by
  have isSetName := IsString.units (QString.ofString "forms") (by decide)
  have isName := IsString.units (QString.ofString "login.qs") (by decide)
  have isData := IsBytes.sized [111, 107] (by decide)
  have shape : cutStream = word 10 ++ DataStream.unitBytes (QString.ofString "forms") ++
      (word 16 ++ DataStream.unitBytes (QString.ofString "login.qs") ++ [0, 0, 0, 2, 111]) := by
    decide
  have data : word 2 ++ [111, 107] = [0, 0, 0, 2, 111] ++ [107] := by decide
  rw [shape]
  exact ⟨_, [], _, _, _, _, ⟨_, [], by decide, isSetName, .nil, (List.append_nil _).symm⟩, isName,
    by decide, by decide, ⟨[111, 107], [107], by decide, data ▸ isData⟩, rfl⟩

/-- It is restored with an empty script. -/
theorem cutStream_accepted : ¬∀ payload, AcceptsOnlyFormat formsCompression payload :=
  fun accepts => not_acceptsOnlyFormat formsCompression cutStream_lacksData (accepts cutStream)

end TestSetBackup

end Hooq
