import Hooq.Control.Replies
import Mathlib.Data.List.Forall2
import Mathlib.Data.List.Infix

/-!
# Which replies arrive

How the deliveries have to be cut so that every reply is handled.  A delivery that
completes the line in front of a document has to end with the document.
-/

namespace Hooq

open Library.Lines

/-! ## Documents -/

namespace ObjectInformation

variable {Double : Type} (toDouble : QString → Double)

/-- An object with all the properties of its document. -/
def ofDocument (document : ObjectDocument) : ObjectInformation Double where
  className := document.className
  name := document.name
  path := document.path
  properties := document.properties.foldl
    (fun properties property =>
      insertProperty toDouble properties property.name property.typeName property.value) []

end ObjectInformation

/-! ## What a document says -/

section

variable {Double : Type} (toDouble : QString → Double)

/-- The value that a property of a document stands for. -/
def ObjectProperty.Means (property : ObjectProperty) : PropertyValue Double → Prop
  | .bool value => property.typeName = QString.ofString "bool" ∧
      property.value = if value then "true" else "false"
  | .string value => property.typeName = QString.ofString "QString" ∧ property.value = value
  | .int value => property.typeName = QString.ofString "int" ∧
      property.value = QString.number value.toInt
  | .double value => property.typeName = QString.ofString "double" ∧
      toDouble property.value = value

/-- The object of a document, with all the properties that are in the document. -/
structure ObjectDocument.Describes (document : ObjectDocument)
    (information : ObjectInformation Double) : Prop where
  name : information.name = document.name
  path : information.path = document.path
  className : information.className = document.className
  properties : ∀ property ∈ document.properties, ∃ value, property.Means toDouble value ∧
    information.properties.lookup property.name = some value

/-- All properties have values of the types that are known, and those with the same name have
the same value. -/
structure ObjectDocument.IsReadable (document : ObjectDocument) : Prop where
  known : ∀ property ∈ document.properties, ∃ value, property.Means toDouble value
  agree : ∀ first ∈ document.properties, ∀ second ∈ document.properties,
    first.name = second.name → ∀ value, first.Means toDouble value → second.Means toDouble value

variable {toDouble}

/-- A property is inserted with the value that it stands for. -/
theorem ObjectProperty.Means.insertProperty {property : ObjectProperty}
    {value : PropertyValue Double} (means : property.Means toDouble value)
    (properties : List (QString × PropertyValue Double)) :
    ObjectInformation.insertProperty toDouble properties property.name property.typeName
        property.value = QMap.insert properties property.name value := by
  rw [ObjectInformation.insertProperty]
  cases value with
  | bool flag =>
      obtain ⟨isType, text⟩ := means
      have isTrue : decide (QString.ofString (if flag then "true" else "false") =
          QString.ofString "true") = flag := by
        cases flag <;> decide
      rw [if_pos isType, text, isTrue]
  | string text =>
      obtain ⟨isType, same⟩ := means
      rw [isType, if_neg (by decide), if_pos rfl, same]
  | int number =>
      obtain ⟨isType, text⟩ := means
      rw [isType, if_neg (by decide), if_neg (by decide), if_pos rfl, text, QString.toInt_number]
  | double number =>
      obtain ⟨isType, same⟩ := means
      rw [isType, if_neg (by decide), if_neg (by decide), if_neg (by decide), if_pos rfl, same]

theorem ObjectProperty.Means.unique {property : ObjectProperty} {value other : PropertyValue Double}
    (means : property.Means toDouble value) (also : property.Means toDouble other) :
    value = other := by
  have same := (means.insertProperty []).symm.trans (also.insertProperty [])
  simpa [QMap.insert] using same

/-- The object has the value of each property that can be read. -/
theorem ObjectDocument.IsReadable.lookup {document : ObjectDocument}
    (readable : document.IsReadable toDouble) {property : ObjectProperty}
    (member : property ∈ document.properties) {value : PropertyValue Double}
    (means : property.Means toDouble value) :
    (ObjectInformation.ofDocument toDouble document).properties.lookup property.name =
      some value := by
  obtain ⟨name, path, className, properties⟩ := document
  rw [ObjectInformation.ofDocument]
  induction properties using List.reverseRecOn with
  | nil => cases member
  | append_singleton front last ih =>
      have isLast : last ∈ front ++ [last] := List.mem_append_right _ List.mem_cons_self
      obtain ⟨inserted, lastMeans⟩ := readable.known last isLast
      rw [List.foldl_append, List.foldl_cons, List.foldl_nil, lastMeans.insertProperty,
        QMap.lookup_insert]
      by_cases isName : property.name = last.name
      · rw [if_pos isName, lastMeans.unique (readable.agree property member last isLast isName
          value means)]
      · have earlier : property ∈ front := by
          rcases List.mem_append.mp member with inFront | atEnd
          · exact inFront
          · exact absurd (congrArg ObjectProperty.name (List.mem_singleton.mp atEnd)) isName
        have readableFront : IsReadable toDouble ⟨name, path, className, front⟩ :=
          ⟨fun other isOther => readable.known other (List.mem_append_left _ isOther),
            fun first isFirst second isSecond => readable.agree first
              (List.mem_append_left _ isFirst) second (List.mem_append_left _ isSecond)⟩
        rw [if_neg isName]
        exact ih readableFront earlier

/-- An object has all the properties of its document exactly if these can be read. -/
theorem ObjectInformation.describes_ofDocument_iff (document : ObjectDocument) :
    document.Describes toDouble (ObjectInformation.ofDocument toDouble document) ↔
      document.IsReadable toDouble := by
  constructor
  · intro describes
    refine ⟨fun property member => ?_, ?_⟩
    · obtain ⟨value, means, -⟩ := describes.properties property member
      exact ⟨value, means⟩
    · intro first isFirst second isSecond isName value means
      obtain ⟨found, firstMeans, firstFound⟩ := describes.properties first isFirst
      obtain ⟨other, secondMeans, secondFound⟩ := describes.properties second isSecond
      rw [isName, secondFound, Option.some.injEq] at firstFound
      rw [means.unique firstMeans, ← firstFound]
      exact secondMeans
  · intro readable
    refine ⟨rfl, rfl, rfl, fun property member => ?_⟩
    obtain ⟨value, means⟩ := readable.known property member
    exact ⟨value, means, readable.lookup member means⟩

end

/-- A reader between two elements of a document. -/
structure XmlReader.IsInside (reader : XmlReader) : Prop where
  depth : reader.depth = 1
  rootClosed : reader.rootClosed = false
  error : reader.error = false
  tokenType : reader.tokenType = .startElement ∨ reader.tokenType = .endElement

namespace XmlReader

variable {reader : XmlReader}

theorem IsInside.atEnd (inside : reader.IsInside) (unread : List Token) :
    reader.atEnd unread = false := by
  rw [XmlReader.atEnd, inside.error]
  rcases inside.tokenType with start | stop
  · rw [start]
    rfl
  · rw [stop]
    rfl

theorem IsInside.readNext_start (inside : reader.IsInside) (name : QString)
    (attributes : Attributes) (rest : List Token) :
    reader.readNext (.start name attributes :: rest) =
      (⟨.startElement, name, attributes, 2, false, false⟩, rest) := by
  rw [readNext, inside.error, inside.rootClosed, inside.depth]
  rfl

theorem IsInside.readNext_stop (inside : reader.IsInside) (rest : List Token) :
    reader.readNext (.stop :: rest) =
      (⟨.endElement, reader.name, reader.attributes, 0, true, false⟩, rest) := by
  rw [readNext, inside.error, inside.depth]
  rfl

theorem IsInside.readNext_nil (inside : reader.IsInside) :
    reader.readNext [] = ({ reader with tokenType := .invalid }, []) := by
  rw [readNext, inside.error, inside.rootClosed]
  rfl

theorem readElementText_textTokens (text : QString) (rest : List Token) :
    reader.readElementText (textTokens text ++ .stop :: rest) =
      (text, { reader with
        tokenType := .endElement, depth := reader.depth - 1,
        rootClosed := reader.depth = 1 }, rest) := by
  induction text with
  | nil => rfl
  | cons character text ih =>
      have step : reader.readElementText (textTokens (character :: text) ++ .stop :: rest) =
          (character :: (reader.readElementText (textTokens text ++ .stop :: rest)).1,
            (reader.readElementText (textTokens text ++ .stop :: rest)).2) := rfl
      rw [step, ih]

end XmlReader

namespace ObjectInformation

variable {Double : Type} (toDouble : QString → Double) {reader : XmlReader}
  (information : ObjectInformation Double)

theorem readObject_atEnd {unread : List Token} (ended : reader.atEnd unread = true) :
    readObject toDouble reader unread information = information := by
  rw [readObject, dif_pos ended]

section

variable {unread rest : List Token} {next : XmlReader}

theorem readObject_skip (ahead : reader.atEnd unread = false)
    (read : reader.readNext unread = (next, rest)) (noStart : next.tokenType ≠ .startElement) :
    readObject toDouble reader unread information =
      readObject toDouble next rest information := by
  have noStart' : (reader.readNext unread).1.tokenType ≠ .startElement := by rw [read]; exact noStart
  rw [readObject, dif_neg (ne_true_of_eq_false ahead)]
  dsimp only
  rw [dif_neg noStart', read]

theorem readObject_object (ahead : reader.atEnd unread = false)
    (read : reader.readNext unread = (next, rest)) (isStart : next.tokenType = .startElement)
    (isObject : next.name = QString.ofString "object") :
    readObject toDouble reader unread information =
      readObject toDouble next rest
        { information with
          name := next.attributes.value "name"
          path := next.attributes.value "path"
          className := next.attributes.value "class" } := by
  have isStart' : (reader.readNext unread).1.tokenType = .startElement := by rw [read]; exact isStart
  rw [readObject, dif_neg (ne_true_of_eq_false ahead)]
  dsimp only
  rw [dif_pos isStart', read, if_pos isObject]

theorem readObject_property (ahead : reader.atEnd unread = false)
    (read : reader.readNext unread = (next, rest)) (isStart : next.tokenType = .startElement)
    (isProperty : next.name = QString.ofString "property") :
    readObject toDouble reader unread information =
      readObject toDouble (next.readElementText rest).2.1 (next.readElementText rest).2.2
        { information with
          properties := insertProperty toDouble information.properties
            (next.attributes.value "name") (next.attributes.value "type")
            (next.readElementText rest).1 } := by
  have isStart' : (reader.readNext unread).1.tokenType = .startElement := by rw [read]; exact isStart
  have noObject : next.name ≠ QString.ofString "object" := by
    rw [isProperty]
    decide
  rw [readObject, dif_neg (ne_true_of_eq_false ahead)]
  dsimp only
  rw [dif_pos isStart', read, if_neg noObject, if_pos isProperty]

end

theorem readObject_element (inside : reader.IsInside) (property : ObjectProperty)
    (rest : List Token) :
    ∃ behind : XmlReader, behind.IsInside ∧
      readObject toDouble reader (property.element.tokens ++ rest) information =
        readObject toDouble behind rest
          { information with
            properties := insertProperty toDouble information.properties property.name
              property.typeName property.value } := by
  have shape : property.element.tokens ++ rest =
      .start "property" [("name", property.name), ("type", property.typeName)] ::
        (textTokens property.value ++ .stop :: rest) := by
    rw [Element.tokens, List.cons_append, List.append_assoc]
    rfl
  have read := inside.readNext_start (QString.ofString "property")
    [("name", property.name), ("type", property.typeName)]
    (textTokens property.value ++ .stop :: rest)
  have inserted := readObject_property toDouble information (inside.atEnd _) read rfl
    (show QString.ofString "property" = QString.ofString "property" from rfl)
  rw [XmlReader.readElementText_textTokens] at inserted
  rw [shape]
  exact ⟨_, ⟨rfl, rfl, rfl, .inr rfl⟩, inserted⟩

theorem readObject_properties (inside : reader.IsInside) (properties : List ObjectProperty)
    (rest : List Token) :
    ∃ behind : XmlReader, behind.IsInside ∧
      readObject toDouble reader
          ((properties.flatMap fun property => property.element.tokens) ++ rest) information =
        readObject toDouble behind rest
          { information with
            properties := properties.foldl
              (fun properties property =>
                insertProperty toDouble properties property.name property.typeName property.value)
              information.properties } := by
  induction properties generalizing reader information with
  | nil => exact ⟨reader, inside, rfl⟩
  | cons property properties ih =>
      obtain ⟨middle, middleInside, first⟩ := readObject_element toDouble information inside property
        ((properties.flatMap fun property => property.element.tokens) ++ rest)
      obtain ⟨behind, behindInside, later⟩ := ih
        { information with
          properties := insertProperty toDouble information.properties property.name
            property.typeName property.value } middleInside
      refine ⟨behind, behindInside, ?_⟩
      rw [List.flatMap_cons, List.append_assoc, first, later]
      rfl

/-- Behind the end tag there is nothing, or white space. -/
theorem readObject_closed {name : QString} {attributes : Attributes} {rest : List Token}
    (isEnd : rest = [] ∨ rest = [.character 10]) :
    readObject toDouble ⟨.endElement, name, attributes, 0, true, false⟩ rest information =
      information := by
  have read : XmlReader.readNext ⟨.endElement, name, attributes, 0, true, false⟩ rest =
      (⟨.endDocument, name, attributes, 0, true, false⟩, []) := by
    rcases isEnd with rfl | rfl <;> rfl
  rw [readObject_skip toDouble information rfl read nofun]
  exact readObject_atEnd toDouble information rfl

/-- What can be left of a document behind its properties: nothing, when the end tag is cut
off, or its end. -/
theorem readObject_end (inside : reader.IsInside) {rest : List Token}
    (isEnd : rest = [] ∨ rest = [.stop] ∨ rest = [.stop, .character 10]) :
    readObject toDouble reader rest information = information := by
  rcases isEnd with rfl | rfl | rfl
  · have ended : XmlReader.atEnd { reader with tokenType := .invalid } [] = true :=
      Bool.or_true _
    rw [readObject_skip toDouble information (inside.atEnd _) inside.readNext_nil nofun,
      readObject_atEnd toDouble information ended]
  · have read := inside.readNext_stop []
    rw [readObject_skip toDouble information (inside.atEnd _) read nofun,
      readObject_closed toDouble information (.inl rfl)]
  · have read := inside.readNext_stop [.character 10]
    rw [readObject_skip toDouble information (inside.atEnd _) read nofun,
      readObject_closed toDouble information (.inr rfl)]

/-- A reader that finds all properties of a document makes its object. -/
theorem readObject_document (document : ObjectDocument) {rest : List Token}
    (isEnd : rest = [] ∨ rest = [.stop] ∨ rest = [.stop, .character 10]) :
    readObject toDouble .clear (document.openTokens ++ rest) ⟨[], [], [], []⟩ =
      ofDocument toDouble document := by
  have read : XmlReader.clear.readNext (document.openTokens ++ rest) =
      (⟨.startElement, "object",
        [("name", document.name), ("path", document.path), ("class", document.className)], 1,
        false, false⟩,
        (document.properties.flatMap fun property => property.element.tokens) ++ rest) := rfl
  have opened := readObject_object toDouble ⟨[], [], [], []⟩ rfl read rfl
    (show QString.ofString "object" = QString.ofString "object" from rfl)
  have inside : XmlReader.IsInside ⟨.startElement, QString.ofString "object",
      [(QString.ofString "name", document.name), (QString.ofString "path", document.path),
        (QString.ofString "class", document.className)], 1, false, false⟩ :=
    ⟨rfl, rfl, rfl, .inl rfl⟩
  rw [opened]
  obtain ⟨behind, behindInside, properties⟩ := readObject_properties toDouble
    (⟨document.className, document.name, document.path, []⟩ : ObjectInformation Double) inside
    document.properties rest
  exact properties.trans (readObject_end toDouble _ behindInside isEnd)

/-- Where all properties have arrived, the object has them. -/
theorem fromXml_eq {xml : ObjectXml} {document : ObjectDocument} (reads : xml.Reads document)
    {part rest : QByteArray} (isEnd : endTag ++ [newlineByte] = part ++ rest) :
    fromXml toDouble xml (xml.body document ++ part) = ofDocument toDouble document := by
  have tokens : ∃ tail, xml.tokens (xml.body document ++ part) = document.openTokens ++ tail ∧
      (tail = [] ∨ tail = [.stop] ∨ tail = [.stop, .character 10]) := by
    rcases List.append_eq_append_iff.mp isEnd with ⟨behind, shape, lineEnd⟩ | ⟨cut, shape, _⟩
    · cases behind with
      | nil =>
          rw [shape, List.append_nil]
          exact ⟨_, reads.whole, .inr (.inl rfl)⟩
      | cons byte behind =>
          rw [List.cons_append, List.cons.injEq] at lineEnd
          have none := List.append_eq_nil_iff.mp lineEnd.2.symm
          rw [shape, ← lineEnd.1, none.1]
          exact ⟨_, reads.line, .inr (.inr rfl)⟩
    · cases cut with
      | nil =>
          rw [List.append_nil] at shape
          rw [← shape]
          exact ⟨_, reads.whole, .inr (.inl rfl)⟩
      | cons byte cut =>
          refine ⟨[], ?_, .inl rfl⟩
          rw [List.append_nil]
          exact reads.cut part (byte :: cut) shape (List.cons_ne_nil _ _)
  obtain ⟨tail, found, isTail⟩ := tokens
  rw [fromXml, found]
  exact readObject_document toDouble document isTail

end ObjectInformation

/-! ## Lines -/

theorem QString.trimmed_append {word : QString} (solid : ∀ unit ∈ word, isSpace unit = false)
    (begins : word ≠ []) (more : QString) :
    trimmed (word ++ more) = word ++ (more.reverse.dropWhile isSpace).reverse := by
  have front : (word ++ more).dropWhile isSpace = word ++ more := by
    cases word with
    | nil => exact absurd rfl begins
    | cons first word =>
        rw [List.cons_append, List.dropWhile_cons, solid first List.mem_cons_self]
        rfl
  have back : word.reverse.dropWhile isSpace = word.reverse := by
    cases shape : word.reverse with
    | nil => rfl
    | cons last word' =>
        have member : last ∈ word := by
          rw [← List.mem_reverse, shape]
          exact List.mem_cons_self
        rw [List.dropWhile_cons, solid last member]
        rfl
  rw [trimmed, front, List.reverse_append, List.dropWhile_append, back]
  split
  next none =>
    rw [List.isEmpty_iff.mp none, List.reverse_reverse, List.reverse_nil, List.append_nil]
  next => rw [List.reverse_append, List.reverse_reverse]

namespace Replies

variable {Double : Type} (xml : ObjectXml) (toDouble : QString → Double)

theorem processSocketData_none {data : QByteArray} (absent : newlineByte ∉ data) :
    processSocketData xml toDouble data = ([], data) := by
  have none := readLine_eq_none absent
  rw [processSocketData]
  split
  next => rfl
  next read =>
    rw [none] at read
    cases read

theorem processSocketData_line (line : QByteArray) (absent : newlineByte ∉ line)
    (rest : QByteArray) :
    processSocketData xml toDouble (line ++ newlineByte :: rest) =
      (let text := (QString.fromUtf8 (line ++ [newlineByte])).trimmed
      if text = QString.ofString "ACK" then
        (.setAck :: (processSocketData xml toDouble rest).1,
          (processSocketData xml toDouble rest).2)
      else if text = QString.ofString "PICKED" then
        ([.objectPicked (ObjectInformation.fromXml toDouble xml rest)], [])
      else if text = QString.ofString "DUMPED" then
        ([.dumpedObject (ObjectInformation.fromXml toDouble xml rest)], [])
      else if text.startsWith "NOTFOUND" then
        (.objectNotFound (afterSpace text) :: (processSocketData xml toDouble rest).1,
          (processSocketData xml toDouble rest).2)
      else
        processSocketData xml toDouble rest) := by
  have some := readLine_append absent rest
  have nothing : processSocketData xml toDouble [] = ([], []) :=
    processSocketData_none xml toDouble List.not_mem_nil
  rw [processSocketData]
  split
  next read =>
    rw [some] at read
    cases read
  next bytes behind read =>
    rw [some] at read
    cases read
    rw [nothing]

theorem processSocketData_ack (rest : QByteArray) :
    processSocketData xml toDouble (QByteArray.ofString "ACK\n" ++ rest) =
      (.setAck :: (processSocketData xml toDouble rest).1,
        (processSocketData xml toDouble rest).2) := by
  have text : (QString.fromUtf8 (QByteArray.ofString "ACK" ++ [newlineByte])).trimmed =
      QString.ofString "ACK" := by decide +kernel
  refine (processSocketData_line xml toDouble (QByteArray.ofString "ACK") (by decide)
    rest).trans ?_
  dsimp only
  rw [if_pos text]

theorem processSocketData_picked (rest : QByteArray) :
    processSocketData xml toDouble (QByteArray.ofString "PICKED\n" ++ rest) =
      ([.objectPicked (ObjectInformation.fromXml toDouble xml rest)], []) := by
  have text : (QString.fromUtf8 (QByteArray.ofString "PICKED" ++ [newlineByte])).trimmed =
      QString.ofString "PICKED" := by decide +kernel
  have noAck : QString.ofString "PICKED" ≠ QString.ofString "ACK" := by decide
  refine (processSocketData_line xml toDouble (QByteArray.ofString "PICKED") (by decide)
    rest).trans ?_
  dsimp only
  rw [text, if_neg noAck, if_pos rfl]

theorem processSocketData_dumped (rest : QByteArray) :
    processSocketData xml toDouble (QByteArray.ofString "DUMPED\n" ++ rest) =
      ([.dumpedObject (ObjectInformation.fromXml toDouble xml rest)], []) := by
  have text : (QString.fromUtf8 (QByteArray.ofString "DUMPED" ++ [newlineByte])).trimmed =
      QString.ofString "DUMPED" := by decide +kernel
  have noAck : QString.ofString "DUMPED" ≠ QString.ofString "ACK" := by decide
  have noPicked : QString.ofString "DUMPED" ≠ QString.ofString "PICKED" := by decide
  refine (processSocketData_line xml toDouble (QByteArray.ofString "DUMPED") (by decide)
    rest).trans ?_
  dsimp only
  rw [text, if_neg noAck, if_neg noPicked, if_pos rfl]

/-- What is left of an end tag is no reply. -/
theorem processSocketData_leftover {part : QByteArray} (isPart : part <:+ endTag)
    (rest : QByteArray) :
    processSocketData xml toDouble (part ++ newlineByte :: rest) =
      processSocketData xml toDouble rest := by
  have unknown : ∀ part ∈ endTag.tails, newlineByte ∉ part ∧
      (QString.fromUtf8 (part ++ [newlineByte])).trimmed ≠ QString.ofString "ACK" ∧
      (QString.fromUtf8 (part ++ [newlineByte])).trimmed ≠ QString.ofString "PICKED" ∧
      (QString.fromUtf8 (part ++ [newlineByte])).trimmed ≠ QString.ofString "DUMPED" ∧
      ¬(QString.fromUtf8 (part ++ [newlineByte])).trimmed.startsWith "NOTFOUND" = true := by
    decide +kernel
  obtain ⟨absent, noAck, noPicked, noDumped, noNotFound⟩ :=
    unknown part ((List.mem_tails part endTag).mpr isPart)
  rw [processSocketData_line xml toDouble _ absent]
  dsimp only
  rw [if_neg noAck, if_neg noPicked, if_neg noDumped, if_neg noNotFound]

/-! ## Objects that were not found -/

theorem notFound_solid :
    ∀ unit ∈ QString.ofString "NOTFOUND", QString.isSpace unit = false := by
  have none : (QString.ofString "NOTFOUND").all (fun unit => !QString.isSpace unit) = true := by
    decide
  intro unit member
  simpa using List.all_eq_true.mp none unit member

/-- The text of a line, up to a null character. -/
theorem fromUtf8_notFound (bytes : QByteArray) :
    QString.fromUtf8 (QByteArray.ofString "NOTFOUND " ++ bytes) =
      QString.ofString "NOTFOUND" ++
        (0x20 :: QString.decodeUtf8 0 (bytes.takeWhile (· ≠ 0))) := by
  have kept : ∀ byte ∈ QByteArray.ofString "NOTFOUND ", decide (byte ≠ 0) = true := by
    decide +kernel
  have small : ∀ byte ∈ QByteArray.ofString "NOTFOUND ", byte.toNat < 0x80 := by decide +kernel
  have noMark (rest : QByteArray) : QString.behindMark (QByteArray.ofString "NOTFOUND " ++ rest) =
      QByteArray.ofString "NOTFOUND " ++ rest := rfl
  rw [QString.fromUtf8, List.takeWhile_append_of_pos kept, noMark,
    QString.decodeUtf8_append small]
  rfl

/-- The path that is handed on for the path that was looked for. -/
def notFoundText (path : QString) : QString :=
  afterSpace (QString.fromUtf8
    (QByteArray.ofString "NOTFOUND " ++ (path.toLatin1 ++ [newlineByte]))).trimmed

theorem processSocketData_notFound {path : QString} (noBreak : newlineByte ∉ path.toLatin1)
    (rest : QByteArray) :
    processSocketData xml toDouble
        (QByteArray.ofString "NOTFOUND " ++ (path.toLatin1 ++ newlineByte :: rest)) =
      (.objectNotFound (notFoundText path) :: (processSocketData xml toDouble rest).1,
        (processSocketData xml toDouble rest).2) := by
  have text : ∃ more, (QString.fromUtf8 (QByteArray.ofString "NOTFOUND " ++ path.toLatin1 ++
      [newlineByte])).trimmed = QString.ofString "NOTFOUND" ++ more := by
    rw [List.append_assoc, fromUtf8_notFound]
    exact ⟨_, QString.trimmed_append notFound_solid (by decide) _⟩
  obtain ⟨more, text⟩ := text
  have differs : ∀ word : QString, word.head? ≠ some 0x4E →
      QString.ofString "NOTFOUND" ++ more ≠ word := by
    rintro word other rfl
    exact other rfl
  have begins : (QString.ofString "NOTFOUND" ++ more).startsWith "NOTFOUND" = true :=
    List.isPrefixOf_iff_prefix.mpr (List.prefix_append _ _)
  have absent : newlineByte ∉ QByteArray.ofString "NOTFOUND " ++ path.toLatin1 := by
    rw [List.mem_append, not_or]
    exact ⟨by decide, noBreak⟩
  rw [← List.append_assoc, processSocketData_line xml toDouble _ absent]
  dsimp only
  rw [text, if_neg (differs _ (by decide)), if_neg (differs _ (by decide)),
    if_neg (differs _ (by decide)), if_pos begins, ← text, notFoundText, List.append_assoc]

/-- A path that survives: ASCII characters, with no white space at the end. -/
structure IsPlain (path : QString) : Prop where
  ascii : ∀ unit ∈ path, 0 < unit.toNat ∧ unit.toNat < 0x80
  ending : ∃ front last, path = front ++ [last] ∧ QString.isSpace last = false

theorem notFoundText_of_isPlain {path : QString} (plain : IsPlain path) :
    notFoundText path = path := by
  have bytes : ∀ byte ∈ path.toLatin1 ++ [newlineByte], decide (byte ≠ 0) = true ∧
      byte.toNat < 0x80 := by
    intro byte member
    rcases List.mem_append.mp member with inPath | last
    · rcases List.mem_map.mp inPath with ⟨unit, isUnit, rfl⟩
      obtain ⟨positive, small⟩ := plain.ascii unit isUnit
      rw [if_pos (Nat.lt_trans small (by decide))]
      have value : (UInt8.ofNat unit.toNat).toNat = unit.toNat := by
        rw [UInt8.toNat_ofNat', Nat.mod_eq_of_lt (Nat.lt_trans small (by decide))]
      refine ⟨decide_eq_true fun zero => ?_, by rw [value]; exact small⟩
      rw [zero] at value
      exact absurd value (Nat.ne_of_lt positive)
    · cases List.mem_singleton.mp last
      decide
  have units : (path.toLatin1 ++ [newlineByte]).map (fun byte => UInt16.ofNat byte.toNat) =
      path ++ [10] := by
    have back : ∀ unit ∈ path, ((fun byte : UInt8 => UInt16.ofNat byte.toNat) ∘
        fun unit : QChar =>
          if unit.toNat < 0x100 then UInt8.ofNat unit.toNat else 0x3F) unit = unit := by
      intro unit isUnit
      have small := (plain.ascii unit isUnit).2
      rw [Function.comp_apply, if_pos (Nat.lt_trans small (by decide)), UInt8.toNat_ofNat',
        Nat.mod_eq_of_lt (Nat.lt_trans small (by decide)), UInt16.ofNat_toNat]
    rw [List.map_append, QString.toLatin1, List.map_map, List.map_congr_left back]
    exact congrArg (· ++ [10]) (List.map_id' path)
  have text : QString.fromUtf8 (QByteArray.ofString "NOTFOUND " ++
      (path.toLatin1 ++ [newlineByte])) =
        QString.ofString "NOTFOUND" ++ (0x20 :: (path ++ [10])) := by
    have all : (path.toLatin1 ++ [newlineByte]).takeWhile (· ≠ 0) =
        path.toLatin1 ++ [newlineByte] :=
      List.takeWhile_eq_self_iff.mpr fun byte member => (bytes byte member).1
    have decoded := QString.decodeUtf8_append (fun byte member => (bytes byte member).2) []
    rw [List.append_nil, units, QString.decodeUtf8, List.append_nil] at decoded
    rw [fromUtf8_notFound, all, decoded]
  have trimmed : (0x20 :: (path ++ [10])).reverse.dropWhile QString.isSpace =
      (0x20 :: path).reverse := by
    obtain ⟨front, last, shape, noSpace⟩ := plain.ending
    have line : (0x20 :: (front ++ [last] ++ [10])).reverse =
        10 :: last :: (front.reverse ++ [0x20]) := by simp
    have kept : (0x20 :: (front ++ [last])).reverse = last :: (front.reverse ++ [0x20]) := by
      simp
    rw [shape, line, kept]
    exact List.dropWhile_cons_of_neg (ne_true_of_eq_false noSpace)
  have behind : (QString.ofString "NOTFOUND" ++ (0x20 :: path)).dropWhile (· ≠ 0x20) =
      0x20 :: path := rfl
  have member : (0x20 : QChar) ∈ QString.ofString "NOTFOUND" ++ (0x20 :: path) :=
    List.mem_append_right _ List.mem_cons_self
  rw [notFoundText, text, QString.trimmed_append notFound_solid (by decide), trimmed,
    List.reverse_reverse, afterSpace, if_pos member, behind, List.tail_cons]

/-! ## Replies one after the other -/

/-- The document of a reply about an object. -/
def document : Reply ObjectDocument → Option ObjectDocument
  | .dumped document => some document
  | .picked document => some document
  | _ => none

/-- What the player has written. -/
def wire (replies : List (Reply ObjectDocument)) : QByteArray :=
  replies.flatMap (Reply.bytes xml)

/-- Whether a reply is handled as a reader that finds the whole document makes of it. -/
def HandlesWhole : Reply ObjectDocument → Handling Double → Prop
  | .ack, .setAck => True
  | .notFound path, .objectNotFound found => IsPlain path → found = path
  | .dumped document, .dumpedObject information =>
      information = ObjectInformation.ofDocument toDouble document
  | .picked document, .objectPicked information =>
      information = ObjectInformation.ofDocument toDouble document
  | _, _ => False

/-- A delivery that completes the line in front of a document.  It has to bring all the
properties of the document, and nothing from behind the document. -/
def IsWhole (replies : List (Reply ObjectDocument)) (start stop : Nat) : Prop :=
  ∀ before reply after object, replies = before ++ reply :: after → document reply = some object →
    start < (wire xml before).length + 7 → (wire xml before).length + 7 ≤ stop →
      (wire xml before).length + 7 + (xml.body object).length ≤ stop ∧
        stop ≤ (wire xml (before ++ [reply])).length

/-- Each delivery that completes the line in front of a document ends with the document, in
its end tag or behind it. -/
def AllWhole (replies : List (Reply ObjectDocument)) (deliveries : List QByteArray) : Prop :=
  ∀ earlier delivery later, deliveries = earlier ++ delivery :: later →
    IsWhole xml replies earlier.flatten.length (earlier.flatten.length + delivery.length)

/-- The end of a document that has not arrived with it. -/
def IsLeftover (left : QByteArray) : Prop :=
  left = [] ∨ ∃ part, left = part ++ [newlineByte] ∧ part <:+ endTag

/-- How far the interpreter has come after a number of bytes: what it has not read yet has
no line break, and begins with a leftover or a reply. -/
def Reached (replies : List (Reply ObjectDocument))
    (channel : List (Handling Double) × QByteArray) (future : QByteArray) (position : Nat) :
    Prop :=
  ∃ handled rest left, replies = handled ++ rest ∧
    List.Forall₂ (HandlesWhole toDouble) handled channel.1 ∧ newlineByte ∉ channel.2 ∧
    channel.2 ++ future = left ++ wire xml rest ∧ IsLeftover left ∧
    (wire xml handled).length + channel.2.length = position + left.length

theorem wire_cons (reply : Reply ObjectDocument) (rest : List (Reply ObjectDocument)) :
    wire xml (reply :: rest) = reply.bytes xml ++ wire xml rest :=
  List.flatMap_cons

theorem wire_concat (replies : List (Reply ObjectDocument)) (last : Reply ObjectDocument) :
    wire xml (replies ++ [last]) = wire xml replies ++ last.bytes xml := by
  rw [wire, List.flatMap_append, List.flatMap_singleton]
  rfl

theorem newline_mem_bytes (reply : Reply ObjectDocument) : newlineByte ∈ reply.bytes xml := by
  have inDocument : ∀ object, newlineByte ∈ xml.document object := fun object =>
    List.mem_append_right _ (List.mem_append_right _ List.mem_cons_self)
  cases reply with
  | ack => exact (by decide : newlineByte ∈ QByteArray.ofString "ACK\n")
  | notFound path => exact List.mem_append_right _ (List.mem_append_right _ List.mem_cons_self)
  | dumped object => exact List.mem_append_right _ (inDocument object)
  | picked object => exact List.mem_append_right _ (inDocument object)

/-- A reply without a document is a line. -/
theorem exists_line {reply : Reply ObjectDocument} (noDocument : document reply = none)
    (noBreak : ∀ path, reply = .notFound path → newlineByte ∉ path.toLatin1) :
    ∃ line, newlineByte ∉ line ∧ reply.bytes xml = line ++ [newlineByte] ∧
      ∀ rest, ∃ handling, HandlesWhole toDouble reply handling ∧
        processSocketData xml toDouble (line ++ newlineByte :: rest) =
          (handling :: (processSocketData xml toDouble rest).1,
            (processSocketData xml toDouble rest).2) := by
  cases reply with
  | ack =>
      refine ⟨QByteArray.ofString "ACK", by decide, rfl, fun rest => ?_⟩
      exact ⟨.setAck, trivial, processSocketData_ack xml toDouble rest⟩
  | notFound path =>
      refine ⟨QByteArray.ofString "NOTFOUND " ++ path.toLatin1, ?_, ?_, fun rest => ?_⟩
      · rw [List.mem_append, not_or]
        exact ⟨by decide, noBreak path rfl⟩
      · rw [List.append_assoc]
        rfl
      · rw [List.append_assoc]
        exact ⟨.objectNotFound (notFoundText path), notFoundText_of_isPlain,
          processSocketData_notFound xml toDouble (noBreak path rfl) rest⟩
  | dumped object => cases noDocument
  | picked object => cases noDocument

/-- A reply with a document is a line of seven bytes and the document. -/
theorem exists_object {reply : Reply ObjectDocument} {object : ObjectDocument}
    (isDocument : document reply = some object) :
    ∃ line, newlineByte ∉ line ∧ line.length = 6 ∧
      reply.bytes xml = line ++ newlineByte :: xml.document object ∧
      ∀ rest, ObjectInformation.fromXml toDouble xml rest =
          ObjectInformation.ofDocument toDouble object →
        ∃ handling, HandlesWhole toDouble reply handling ∧
          processSocketData xml toDouble (line ++ newlineByte :: rest) = ([handling], []) := by
  cases reply with
  | ack => cases isDocument
  | notFound path => cases isDocument
  | dumped other =>
      cases isDocument
      refine ⟨QByteArray.ofString "DUMPED", by decide, by decide, rfl, fun rest same => ?_⟩
      exact ⟨.dumpedObject (ObjectInformation.fromXml toDouble xml rest), same,
        processSocketData_dumped xml toDouble rest⟩
  | picked other =>
      cases isDocument
      refine ⟨QByteArray.ofString "PICKED", by decide, by decide, rfl, fun rest same => ?_⟩
      exact ⟨.objectPicked (ObjectInformation.fromXml toDouble xml rest), same,
        processSocketData_picked xml toDouble rest⟩

/-- A document has arrived up to its end tag, and nothing from behind it: what is left is a
leftover. -/
theorem exists_part {object : ObjectDocument} {behind future later : QByteArray}
    (stream : behind ++ future = xml.document object ++ later)
    (begun : (xml.body object).length ≤ behind.length)
    (ends : behind.length ≤ (xml.document object).length) :
    ∃ part left, behind = xml.body object ++ part ∧ endTag ++ [newlineByte] = part ++ left ∧
      future = left ++ later ∧ IsLeftover left := by
  have isPrefix : behind <+: xml.document object :=
    List.prefix_of_prefix_length_le ⟨future, stream⟩ (List.prefix_append _ _) ends
  have hasBody : xml.body object <+: behind :=
    List.prefix_of_prefix_length_le (List.prefix_append _ _) isPrefix begun
  obtain ⟨part, rfl⟩ := hasBody
  obtain ⟨left, shape⟩ := isPrefix
  rw [ObjectXml.document, List.append_assoc] at shape
  have ending := List.append_cancel_left shape
  have rest : future = left ++ later := by
    rw [ObjectXml.document, ← ending, List.append_assoc, List.append_assoc,
      List.append_assoc] at stream
    exact List.append_cancel_left (List.append_cancel_left stream)
  refine ⟨part, left, rfl, ending.symm, rest, ?_⟩
  exact List.suffix_concat_iff.mp ⟨part, ending⟩

/-- No line has arrived. -/
theorem reached_of_absent {replies handled rest : List (Reply ObjectDocument)}
    {handlings : List (Handling Double)} {data future left : QByteArray} {stop : Nat}
    (absent : newlineByte ∉ data) (shape : replies = handled ++ rest)
    (handles : List.Forall₂ (HandlesWhole toDouble) handled handlings)
    (stream : data ++ future = left ++ wire xml rest) (leftover : IsLeftover left)
    (position : (wire xml handled).length + data.length = stop + left.length) :
    Reached xml toDouble replies
      (handlings ++ (processSocketData xml toDouble data).1,
        (processSocketData xml toDouble data).2) future stop := by
  rw [processSocketData_none xml toDouble absent, List.append_nil]
  exact ⟨handled, rest, left, shape, handles, absent, stream, leftover, position⟩

theorem forall₂_concat {handled : List (Reply ObjectDocument)} {handlings : List (Handling Double)}
    {reply : Reply ObjectDocument} {handling : Handling Double}
    (handles : List.Forall₂ (HandlesWhole toDouble) handled handlings)
    (last : HandlesWhole toDouble reply handling) :
    List.Forall₂ (HandlesWhole toDouble) (handled ++ [reply]) (handlings ++ [handling]) :=
  List.rel_append handles (.cons last .nil)

/-- The loop of `processSocketData` at the start of a reply. -/
theorem reached_processSocketData {replies : List (Reply ObjectDocument)} {future : QByteArray}
    {start stop : Nat} (whole : IsWhole xml replies start stop)
    (reads : ∀ reply ∈ replies, ∀ object, document reply = some object → xml.Reads object)
    (noBreak : ∀ path, .notFound path ∈ replies → newlineByte ∉ path.toLatin1)
    (rest : List (Reply ObjectDocument)) :
    ∀ (handled : List (Reply ObjectDocument)) (handlings : List (Handling Double))
      (data : QByteArray), replies = handled ++ rest →
      List.Forall₂ (HandlesWhole toDouble) handled handlings → data ++ future = wire xml rest →
      (wire xml handled).length + data.length = stop →
      (∀ front back, data = front ++ newlineByte :: back → start + back.length < stop) →
      Reached xml toDouble replies
        (handlings ++ (processSocketData xml toDouble data).1,
          (processSocketData xml toDouble data).2) future stop := by
  induction rest with
  | nil =>
      intro handled handlings data shape handles stream position fresh
      have none : data = [] := (List.append_eq_nil_iff.mp stream).1
      have absent : newlineByte ∉ data := by
        rw [none]
        exact List.not_mem_nil
      exact reached_of_absent xml toDouble absent shape handles stream (.inl rfl) position
  | cons reply rest ih =>
      intro handled handlings data shape handles stream position fresh
      have member : reply ∈ replies := by
        rw [shape]
        exact List.mem_append_right _ List.mem_cons_self
      by_cases arrived : newlineByte ∈ data
      · rw [wire_cons] at stream
        cases isDocument : document reply with
        | none =>
            obtain ⟨line, inLine, bytes, process⟩ := exists_line xml toDouble isDocument
              fun path isPath => noBreak path (isPath ▸ member)
            rw [bytes, List.append_assoc] at stream
            obtain ⟨behind, rfl, later⟩ := exists_behind inLine stream arrived
            obtain ⟨handling, handlesReply, processed⟩ := process behind
            rw [processed]
            have reached := ih (handled ++ [reply]) (handlings ++ [handling]) behind
              (by rw [shape, List.append_assoc]; rfl)
              (forall₂_concat toDouble handles handlesReply) later
              (by
                rw [wire_concat, bytes]
                simp only [List.length_append, List.length_cons, List.length_nil] at position ⊢
                omega)
              (by
                rintro front back rfl
                exact fresh (line ++ newlineByte :: front) back (by simp))
            rw [List.append_assoc] at reached
            exact reached
        | some object =>
            obtain ⟨line, inLine, lineLength, bytes, process⟩ :=
              exists_object xml toDouble isDocument
            have cut := whole handled reply rest object shape isDocument
            rw [wire_concat, bytes] at cut
            rw [bytes, List.append_assoc, List.cons_append] at stream
            obtain ⟨behind, rfl, later⟩ := exists_behind inLine stream arrived
            have begun := fresh line behind rfl
            simp only [List.length_append, List.length_cons] at position cut
            obtain ⟨hasBody, ends⟩ := cut (by omega) (by omega)
            obtain ⟨part, left, rfl, ending, rest', leftover⟩ :=
              exists_part xml later (by omega) (by omega)
            obtain ⟨handling, handlesReply, processed⟩ := process (xml.body object ++ part)
              (ObjectInformation.fromXml_eq toDouble (reads reply member object isDocument) ending)
            rw [processed]
            refine ⟨handled ++ [reply], rest, left, ?_, forall₂_concat toDouble handles handlesReply,
              List.not_mem_nil, rest', leftover, ?_⟩
            · rw [shape, List.append_assoc]
              rfl
            · have endLength := congrArg List.length ending
              rw [wire_concat, bytes, ObjectXml.document]
              simp only [List.length_append, List.length_cons, List.length_nil]
                at position endLength ⊢
              omega
      · exact reached_of_absent xml toDouble arrived shape handles stream (.inl rfl) position

/-- What is behind a line break in new data has arrived with it. -/
theorem length_lt_of_absent {buffer delivery front back : QByteArray}
    (absent : newlineByte ∉ buffer) (shape : buffer ++ delivery = front ++ newlineByte :: back) :
    back.length < delivery.length := by
  rcases List.append_eq_append_iff.mp shape with ⟨gap, _, rfl⟩ | ⟨gap, inBuffer, rest⟩
  · rw [List.length_append, List.length_cons]
    omega
  · cases gap with
    | nil =>
        rw [← List.nil_append delivery, ← rest]
        exact Nat.lt_succ_self _
    | cons first gap =>
        cases rest
        apply absurd _ absent
        rw [inBuffer]
        exact List.mem_append_right _ List.mem_cons_self

/-- One delivery. -/
theorem Reached.readyRead {replies : List (Reply ObjectDocument)}
    {channel : List (Handling Double) × QByteArray} {delivery future : QByteArray} {position : Nat}
    (reached : Reached xml toDouble replies channel (delivery ++ future) position)
    (whole : IsWhole xml replies position (position + delivery.length))
    (reads : ∀ reply ∈ replies, ∀ object, document reply = some object → xml.Reads object)
    (noBreak : ∀ path, .notFound path ∈ replies → newlineByte ∉ path.toLatin1) :
    Reached xml toDouble replies (Replies.readyRead xml toDouble channel delivery) future
      (position + delivery.length) := by
  obtain ⟨handled, rest, left, shape, handles, absent, stream, leftover, length⟩ := reached
  rw [← List.append_assoc] at stream
  rcases leftover with rfl | ⟨part, rfl, isPart⟩
  · apply reached_processSocketData xml toDouble whole reads noBreak rest handled channel.1
      (channel.2 ++ delivery) shape handles stream
    · simp only [List.length_append, List.length_nil] at length ⊢
      omega
    · intro front back found
      exact Nat.add_lt_add_left (length_lt_of_absent absent found) position
  · by_cases arrived : newlineByte ∈ channel.2 ++ delivery
    · have inPart : newlineByte ∉ part := fun member =>
        absurd (isPart.subset member) (by decide)
      have line : channel.2 ++ delivery ++ future = part ++ newlineByte :: wire xml rest := by
        rw [stream, List.append_assoc]
        rfl
      obtain ⟨behind, found, later⟩ := exists_behind inPart line arrived
      have lengths := congrArg List.length found
      rw [Replies.readyRead, found, processSocketData_leftover xml toDouble isPart]
      apply reached_processSocketData xml toDouble whole reads noBreak rest handled channel.1
        behind shape handles later
      · simp only [List.length_append, List.length_cons, List.length_nil] at length lengths ⊢
        omega
      · rintro front back rfl
        have fresh : channel.2 ++ delivery =
            (part ++ newlineByte :: front) ++ newlineByte :: back := by
          rw [found, List.append_assoc]
          rfl
        exact Nat.add_lt_add_left (length_lt_of_absent absent fresh) position
    · apply reached_of_absent xml toDouble arrived shape handles stream
        (.inr ⟨part, rfl, isPart⟩)
      simp only [List.length_append] at length ⊢
      omega

theorem reached_receive {replies : List (Reply ObjectDocument)} {deliveries : List QByteArray}
    (arrives : deliveries.flatten = wire xml replies)
    (whole : AllWhole xml replies deliveries)
    (reads : ∀ reply ∈ replies, ∀ object, document reply = some object → xml.Reads object)
    (noBreak : ∀ path, .notFound path ∈ replies → newlineByte ∉ path.toLatin1) :
    Reached xml toDouble replies (receive xml toDouble deliveries) []
      deliveries.flatten.length := by
  have prefixes : ∀ earlier later, deliveries = earlier ++ later →
      Reached xml toDouble replies (receive xml toDouble earlier) later.flatten
        earlier.flatten.length := by
    intro earlier
    induction earlier using List.reverseRecOn with
    | nil =>
        rintro later rfl
        exact ⟨[], replies, [], rfl, .nil, List.not_mem_nil, arrives, .inl rfl, rfl⟩
    | append_singleton earlier delivery ih =>
        intro later shape
        rw [List.append_assoc] at shape
        have before := ih (delivery :: later) shape
        have after := before.readyRead xml toDouble (whole earlier delivery later shape) reads
          noBreak
        rw [List.flatten_append, List.length_append, List.flatten_singleton, receive,
          List.foldl_append]
        exact after
  exact prefixes deliveries [] (List.append_nil _).symm

theorem handlesWhole_of_allWhole {replies : List (Reply ObjectDocument)}
    {deliveries : List QByteArray} (arrives : deliveries.flatten = wire xml replies)
    (reads : ∀ reply ∈ replies, ∀ object, document reply = some object → xml.Reads object)
    (noBreak : ∀ path, .notFound path ∈ replies → newlineByte ∉ path.toLatin1)
    (whole : AllWhole xml replies deliveries) :
    List.Forall₂ (HandlesWhole toDouble) replies (receive xml toDouble deliveries).1 := by
  obtain ⟨handled, rest, left, shape, handles, absent, stream, leftover, _⟩ :=
    reached_receive xml toDouble arrives whole reads noBreak
  rw [List.append_nil] at stream
  rw [stream, List.mem_append, not_or] at absent
  have none : rest = [] := by
    cases rest with
    | nil => rfl
    | cons reply rest =>
        rw [wire_cons, List.mem_append, not_or] at absent
        exact absurd (newline_mem_bytes xml reply) absent.2.1
  rw [shape, none, List.append_nil]
  exact handles

/-- Whether a reply is handled as what it is: an object has all the properties of its
document.  The path of an object that was not found arrives if it is plain. -/
def Handles : Reply ObjectDocument → Handling Double → Prop
  | .ack, .setAck => True
  | .notFound path, .objectNotFound found => IsPlain path → found = path
  | .dumped document, .dumpedObject information => document.Describes toDouble information
  | .picked document, .objectPicked information => document.Describes toDouble information
  | _, _ => False

theorem HandlesWhole.handles_iff {reply : Reply ObjectDocument} {handling : Handling Double}
    (whole : HandlesWhole toDouble reply handling) :
    Handles toDouble reply handling ↔
      ∀ object, document reply = some object → object.IsReadable toDouble := by
  cases reply with
  | ack =>
      cases handling with
      | setAck => exact iff_of_true trivial fun object isDocument => by cases isDocument
      | _ => cases whole
  | notFound path =>
      cases handling with
      | objectNotFound found =>
          exact iff_of_true whole fun object isDocument => by cases isDocument
      | _ => cases whole
  | dumped object =>
      cases handling with
      | dumpedObject information =>
          have same : information = ObjectInformation.ofDocument toDouble object := whole
          simp [Handles, document, same, ObjectInformation.describes_ofDocument_iff]
      | _ => cases whole
  | picked object =>
      cases handling with
      | objectPicked information =>
          have same : information = ObjectInformation.ofDocument toDouble object := whole
          simp [Handles, document, same, ObjectInformation.describes_ofDocument_iff]
      | _ => cases whole

theorem forall₂_handles_iff {replies : List (Reply ObjectDocument)}
    {handlings : List (Handling Double)}
    (whole : List.Forall₂ (HandlesWhole toDouble) replies handlings) :
    List.Forall₂ (Handles toDouble) replies handlings ↔
      ∀ reply ∈ replies, ∀ object, document reply = some object →
        object.IsReadable toDouble := by
  induction whole with
  | nil => exact iff_of_true .nil (List.forall_mem_nil _)
  | cons first rest ih =>
      rw [List.forall₂_cons, HandlesWhole.handles_iff toDouble first, ih, List.forall_mem_cons]

/-- Where each delivery that completes the line in front of a document ends with the
document, every reply is handled as what it is exactly if the documents can be read. -/
theorem handles_iff_of_allWhole {replies : List (Reply ObjectDocument)}
    {deliveries : List QByteArray} (arrives : deliveries.flatten = wire xml replies)
    (reads : ∀ reply ∈ replies, ∀ object, document reply = some object → xml.Reads object)
    (noBreak : ∀ path, .notFound path ∈ replies → newlineByte ∉ path.toLatin1)
    (whole : AllWhole xml replies deliveries) :
    List.Forall₂ (Handles toDouble) replies (receive xml toDouble deliveries).1 ↔
      ∀ reply ∈ replies, ∀ object, document reply = some object →
        object.IsReadable toDouble :=
  forall₂_handles_iff toDouble (handlesWhole_of_allWhole xml toDouble arrives reads noBreak whole)

/-! ## A picked label and an acknowledgement -/

def labelDocument : ObjectDocument :=
  ⟨"ok", "ok", "QLabel", [⟨"visible", "bool", "true"⟩]⟩

def labelBody : QByteArray :=
  QByteArray.ofString "<?xml version=\"1.0\" encoding=\"UTF-8\"?>" ++
    (QByteArray.ofString "<object name=\"ok\" path=\"ok\" class=\"QLabel\">" ++
      QByteArray.ofString "<property name=\"visible\" type=\"bool\">true</property>")

/-- A reader that knows this document, with or without its end tag and text behind it. -/
def labelXml : ObjectXml where
  body _ := labelBody
  tokens bytes :=
    if (labelBody ++ endTag).isPrefixOf bytes then
      labelDocument.openTokens ++ .stop ::
        (bytes.drop (labelBody ++ endTag).length).map fun byte =>
          .character (UInt16.ofNat byte.toNat)
    else if labelBody.isPrefixOf bytes then
      labelDocument.openTokens
    else
      []

theorem labelDocument_isReadable : labelDocument.IsReadable (fun _ : QString => ()) := by
  constructor
  · intro property member
    cases List.mem_singleton.mp member
    exact ⟨.bool true, rfl, rfl⟩
  · intro first isFirst second isSecond _ value means
    cases List.mem_singleton.mp isFirst
    cases List.mem_singleton.mp isSecond
    exact means

theorem labelXml_reads : labelXml.Reads labelDocument where
  whole := by decide +kernel
  line := by decide +kernel
  cut := by
    intro part rest shape nonempty
    have cuts : ∀ part ∈ endTag.inits, part ≠ endTag →
        labelXml.tokens (labelBody ++ part) = labelDocument.openTokens := by decide +kernel
    apply cuts part ((List.mem_inits part endTag).mpr ⟨rest, shape.symm⟩)
    rintro rfl
    exact nonempty (List.append_cancel_left ((List.append_nil _).trans shape)).symm

def labelReplies : List (Reply ObjectDocument) :=
  [.picked labelDocument, .ack]

theorem labelReplies_reads (reply : Reply ObjectDocument) (member : reply ∈ labelReplies)
    (object : ObjectDocument) (isDocument : document reply = some object) :
    labelXml.Reads object := by
  rcases List.mem_cons.mp member with rfl | member
  · cases isDocument
    exact labelXml_reads
  · cases List.mem_singleton.mp member
    cases isDocument

theorem labelReplies_isWhole {start stop : Nat}
    (ends : start < 7 → 7 ≤ stop → 7 + labelBody.length ≤ stop ∧
      stop ≤ (wire labelXml [.picked labelDocument]).length) :
    IsWhole labelXml labelReplies start stop := by
  intro before reply after object shape isDocument
  cases before with
  | nil =>
      cases shape
      exact ends
  | cons first before =>
      rw [List.cons_append, labelReplies, List.cons.injEq] at shape
      cases before with
      | nil =>
          cases shape.2
          cases isDocument
      | cons second before =>
          have none := (List.cons.inj shape.2).2
          exact absurd none.symm (List.append_ne_nil_of_right_ne_nil _ (List.cons_ne_nil _ _))

/-- The document of the label is cut off in its end tag, and the rest of it comes with the
acknowledgement. -/
def labelDeliveries : List QByteArray :=
  [QByteArray.ofString "PIC", QByteArray.ofString "KED\n" ++ labelBody ++
    QByteArray.ofString "</obj", QByteArray.ofString "ect>\nACK\n"]

theorem labelDeliveries_allWhole : AllWhole labelXml labelReplies labelDeliveries := by
  intro earlier delivery later shape
  apply labelReplies_isWhole
  match earlier, shape with
  | [], shape =>
      cases shape
      decide +kernel
  | [_], shape =>
      cases shape
      decide +kernel
  | [_, _], shape =>
      cases shape
      decide +kernel
  | _ :: _ :: _ :: earlier, shape =>
      have none := (List.cons.inj (List.cons.inj (List.cons.inj shape).2).2).2
      exact absurd none.symm (List.append_ne_nil_of_right_ne_nil _ (List.cons_ne_nil _ _))

theorem labelDeliveries_handled :
    List.Forall₂ (Handles fun _ : QString => ()) labelReplies
      (receive labelXml (fun _ => ()) labelDeliveries).1 := by
  have noBreak : ∀ path, .notFound path ∈ labelReplies → newlineByte ∉ path.toLatin1 := by
    intro path member
    rcases List.mem_cons.mp member with isPath | member
    · cases isPath
    · cases List.mem_singleton.mp member
  refine (handles_iff_of_allWhole labelXml (fun _ => ()) (by decide +kernel) labelReplies_reads
    noBreak labelDeliveries_allWhole).mpr ?_
  intro reply member object isDocument
  rcases List.mem_cons.mp member with rfl | member
  · cases isDocument
    exact labelDocument_isReadable
  · cases List.mem_singleton.mp member
    cases isDocument

/-- An acknowledgement that arrives with the document in front of it is lost. -/
theorem coalesced_ack_is_lost :
    ¬∀ (replies : List (Reply ObjectDocument)) (deliveries : List QByteArray),
      (∀ reply ∈ replies, ∀ object, document reply = some object → labelXml.Reads object) →
      deliveries.flatten = wire labelXml replies →
      List.Forall₂ (Handles fun _ : QString => ()) replies
        (receive labelXml (fun _ => ()) deliveries).1 := by
  intro always
  have handles := always labelReplies [wire labelXml labelReplies] labelReplies_reads
    (List.append_nil _)
  have shape : wire labelXml labelReplies = QByteArray.ofString "PICKED\n" ++
      (labelXml.document labelDocument ++ QByteArray.ofString "ACK\n") := by
    decide +kernel
  have handled : (receive labelXml (fun _ => ()) [wire labelXml labelReplies]).1.length = 1 := by
    have picked := processSocketData_picked labelXml (fun _ : QString => ())
      (labelXml.document labelDocument ++ QByteArray.ofString "ACK\n")
    have once : (receive labelXml (fun _ => ()) [wire labelXml labelReplies]).1 =
        (processSocketData labelXml (fun _ => ()) (wire labelXml labelReplies)).1 := rfl
    rw [once, shape, picked]
    rfl
  have lengths := handles.length_eq
  rw [handled] at lengths
  cases lengths

end Replies

end Hooq
